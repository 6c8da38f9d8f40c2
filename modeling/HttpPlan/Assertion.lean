import HttpPlan.Json.Printer
import HttpPlan.Json
import HttpPlan.Locator

/-! What a test asserts about a response body: checks of a located value, and guards that run
further assertions only where their condition is met. -/
namespace HttpPlan

inductive Check where
  /-- The value has one of the types. -/
  | isType (types : List JsonType)
  | hasRequiredKeys (keys : List String)
  | enumMembership (allowed : List Json)
  | matchesPattern (pattern : String)
  | numericRange (minimum maximum : Option Binary64) (exclusiveMinimum exclusiveMaximum : Bool)
  | lengthBound (minLength maxLength : Option Nat)
deriving DecidableEq

inductive Guard where
  /-- The target, an object, carries the key. -/
  | ifPresent (key : String)
  /-- The target, an array, is not empty; its first item is meant. -/
  | ifNonEmptyArray
  | ifNotNull
deriving DecidableEq, Repr

inductive Assertion where
  | check (target : Locator) (check : Check)
  | guarded (target : Locator) (guard : Guard) (body : List Assertion)

/-- Groups of 8, 4, 4, 4 and 12 hexadecimal digits. -/
def uuidPattern : String :=
  "^[0-9a-fA-F]\x7b8\x7d-[0-9a-fA-F]\x7b4\x7d-[0-9a-fA-F]\x7b4\x7d-[0-9a-fA-F]\x7b4\x7d-" ++
    "[0-9a-fA-F]\x7b12\x7d$"

namespace Check

def name : Check → String
  | isType _ => "is-type"
  | hasRequiredKeys _ => "has-required-keys"
  | enumMembership _ => "enum-membership"
  | matchesPattern _ => "matches-pattern"
  | numericRange .. => "numeric-range"
  | lengthBound .. => "length-bound"

/-- Bounds in sentences are always positional and show a fraction only where there is one. -/
def boundLayout : Layout := ⟨none, false⟩

def detail : Check → String
  | isType types => " | ".intercalate (types.map JsonType.name)
  | hasRequiredKeys keys => ", ".intercalate keys
  | enumMembership allowed => ", ".intercalate (allowed.map Json.compact)
  | matchesPattern pattern => pattern
  | numericRange minimum maximum exclusiveMinimum exclusiveMaximum =>
    let low := minimum.map fun m => (if exclusiveMinimum then ">" else ">=") ++ boundLayout.write m
    let high := maximum.map fun m => (if exclusiveMaximum then "<" else "<=") ++ boundLayout.write m
    " ".intercalate (low.toList ++ high.toList)
  | lengthBound minLength maxLength =>
    let low := minLength.map fun m => "len>=" ++ toString m
    let high := maxLength.map fun m => "len<=" ++ toString m
    " ".intercalate (low.toList ++ high.toList)

end Check

namespace Guard

def name : Guard → String
  | ifPresent _ => "if-present"
  | ifNonEmptyArray => "is-nonempty-array-then-check-first-item"
  | ifNotNull => "if-not-null"

end Guard

namespace Assertion

def target : Assertion → Locator
  | check target _ => target
  | guarded target _ _ => target

mutual
/-- The number of assertions, those inside guards included. -/
def size : Assertion → Nat
  | check _ _ => 1
  | guarded _ _ body => 1 + count body
def count : List Assertion → Nat
  | [] => 0
  | a :: rest => size a + count rest
end

/-- One line that says what is asserted. -/
def describe : Assertion → String
  | check target c => target.text ++ " " ++ c.name ++ " " ++ c.detail
  | guarded target guard body =>
    let nested := "(" ++ toString (count body) ++ " nested)"
    let detail := match guard with
      | .ifPresent key => key ++ " " ++ nested
      | _ => nested
    target.text ++ " " ++ guard.name ++ " " ++ detail

mutual
/-- The description of an assertion, and below it those of its body, two spaces deeper. -/
def outline (indent : String) : Assertion → List String
  | check target c => [indent ++ describe (check target c)]
  | guarded target guard body =>
    (indent ++ describe (guarded target guard body)) :: outlines (indent ++ "  ") body
def outlines (indent : String) : List Assertion → List String
  | [] => []
  | a :: rest => outline indent a ++ outlines indent rest
end

end Assertion

end HttpPlan
