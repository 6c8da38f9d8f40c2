import HttpPlan.BuildError
import HttpPlan.Json.Pointer

/-! References inside a document. An object with a string under `$ref` stands for the value that
the reference points at; its other fields do not count. -/
namespace HttpPlan

namespace Json

def reference? (v : Json) : Option String := v.stringField? "$ref"

mutual
/-- Every string under a `$ref` key, at any depth. -/
def references : Json → List String
  | array items => referencesInItems items
  | object fields => referencesInFields fields
  | _ => []
def referencesInItems : List Json → List String
  | [] => []
  | v :: rest => references v ++ referencesInItems rest
def referencesInFields : List (String × Json) → List String
  | [] => []
  | (key, v) :: rest =>
    (if key = "$ref" then v.string?.toList else []) ++ references v ++ referencesInFields rest
end

mutual
/-- How many containers stand inside each other. -/
def depth : Json → Nat
  | array items => depthOfItems items + 1
  | object fields => depthOfFields fields + 1
  | _ => 0
def depthOfItems : List Json → Nat
  | [] => 0
  | v :: rest => max (depth v) (depthOfItems rest)
def depthOfFields : List (String × Json) → Nat
  | [] => 0
  | (_, v) :: rest => max (depth v) (depthOfFields rest)
end

/-- The value that a reference into the document `root` points at. -/
def lookup (root : Json) (pointer : String) : Except BuildError Json :=
  match pointer.toList with
  | '#' :: path =>
    match root.pointer? path with
    | some v => .ok v
    | none => .error (.danglingReference pointer)
  | _ => .error (.unsupportedConstruct pointer .externalReference)

/-- Follows references until a value without one. `seen` holds those followed so far; a chain
longer than the document has references repeats one of them. -/
def follow (root : Json) : Nat → List String → Json → Except BuildError Json
  | fuel, seen, v =>
    match v.reference? with
    | none => .ok v
    | some pointer =>
      if pointer ∈ seen then .error (.unsupportedConstruct pointer .circularAlias)
      else
        match fuel with
        | 0 => .error (.unsupportedConstruct pointer .nesting)
        | fuel + 1 => do follow root fuel (pointer :: seen) (← root.lookup pointer)

def deref (root v : Json) : Except BuildError Json :=
  follow root (root.references.length + v.references.length) [] v

end Json

end HttpPlan
