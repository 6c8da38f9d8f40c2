import HttpPlan.Assertion
import HttpPlan.Schema.Arena

/-! Deriving assertions from a response schema. Nodes are visited breadth first from the root and
expanded once; a later visit gives a type check only. What may be absent or null is guarded, and
the bodies of guards are written after all that is unguarded, so that a definition used both ways
has its full checks where it is required. -/
namespace HttpPlan

namespace SchemaArena

/-- Whether the node at a place takes null and nothing else. -/
def isNull (arena : SchemaArena) (id : SchemaId) : Bool := (arena.node id).kind = .typed .null

/-- Whether null is accepted beside other values. -/
def acceptsNull (arena : SchemaArena) (node : SchemaNode) : Bool :=
  match node.kind with
  | .typed .null => false
  | .union => node.nullable || node.variants.any arena.isNull
  | _ => node.nullable

def typeOf? : SchemaKind → Option JsonType
  | .typed type => some type
  | _ => none

/-- The accepted types, in order; nothing where some alternative is not confined to a type. -/
def acceptedTypes? (arena : SchemaArena) (node : SchemaNode) : Option (List JsonType) := do
  let types ←
    match node.kind with
    | .union => (node.variants.mapM fun v => typeOf? (arena.node v).kind).map List.eraseDups
    | kind => (typeOf? kind).map ([·])
  return if node.nullable && !types.contains .null then types ++ [.null] else types

end SchemaArena

namespace Derivation

/-- A guard whose body is still to be written. -/
structure Deferred where
  /-- The guard's position, counted down from the top-level list. -/
  slot : List Nat
  schema : SchemaId
  place : Locator

/-- One list of assertions in the making. -/
structure Draft where
  out : List Assertion := []
  queue : List (SchemaId × Locator) := []
  visited : List SchemaId := []
  deferred : List Deferred := []

namespace Draft

def emit (d : Draft) (place : Locator) (check : Check) : Draft :=
  { d with out := d.out ++ [.check place check] }

def emitIf (condition : Bool) (place : Locator) (check : Check) (d : Draft) : Draft :=
  if condition then d.emit place check else d

/-- A type check, where there is a type to check. -/
def emitTypes (d : Draft) (place : Locator) : Option (List JsonType) → Draft
  | some types => d.emit place (.isType types)
  | none => d

/-- Puts down a guard with an empty body and leaves the body for later. -/
def defer (d : Draft) (slot : List Nat) (place : Locator) (guard : Guard) (schema : SchemaId)
    (inside : Locator) : Draft :=
  { d with
    out := d.out ++ [.guarded place guard []]
    deferred := d.deferred ++ [⟨slot ++ [d.out.length], schema, inside⟩] }

def enqueue (d : Draft) (schema : SchemaId) (place : Locator) : Draft :=
  { d with queue := d.queue ++ [(schema, place)] }

end Draft

/-- Required properties are queued for the next level, optional ones are guarded. -/
def property (node : SchemaNode) (slot : List Nat) (place : Locator) (d : Draft)
    (entry : String × SchemaId) : Draft :=
  let (key, child) := entry
  if key ∈ node.required then d.enqueue child (place.key key)
  else d.defer slot place (.ifPresent key) child (place.key key)

def objectChecks (node : SchemaNode) (slot : List Nat) (place : Locator) (d : Draft) : Draft :=
  let d := d.emitIf (!node.required.isEmpty) place (.hasRequiredKeys node.required.names)
  node.properties.entries.foldl (property node slot place) d

def stringChecks (node : SchemaNode) (place : Locator) (d : Draft) : Draft :=
  let d := match node.pattern with
    | some pattern => d.emit place (.matchesPattern pattern)
    | none => d
  d.emitIf (node.minLength.isSome || node.maxLength.isSome) place
    (.lengthBound node.minLength node.maxLength)

def rangeChecks (node : SchemaNode) (place : Locator) (d : Draft) : Draft :=
  d.emitIf (node.minimum.isSome || node.maximum.isSome) place
    (.numericRange node.minimum node.maximum node.exclusiveMinimum node.exclusiveMaximum)

/-- The checks of a node of one type. With `typed` its type has been checked already. -/
def typeChecks (node : SchemaNode) (type : JsonType) (typed : Bool) (slot : List Nat)
    (place : Locator) (d : Draft) : Draft :=
  if type = .string && node.isUuid then d.emit place (.matchesPattern uuidPattern)
  else
    let d := d.emitIf (!typed) place (.isType [type])
    match type with
    | .object => objectChecks node slot place d
    | .array =>
      match node.items with
      | some items => d.defer slot place .ifNonEmptyArray items (place.index 0)
      | none => d
    | .string => stringChecks node place d
    | .integer | .number => rangeChecks node place d
    | .boolean | .null => d

/-- The variants of a union that are not null itself. -/
def concreteVariants (arena : SchemaArena) (node : SchemaNode) : List SchemaId :=
  node.variants.filter (!arena.isNull ·)

mutual
/-- Writes the assertions of one node. With `typed` its type has been checked already, by a null
guard or by a union of one variant. `fuel` bounds the steps. -/
def visit (arena : SchemaArena) :
    Nat → SchemaId → Locator → Bool → List Nat → Draft → Draft
  | 0, _, _, _, _, d => d
  | fuel + 1, id, place, typed, slot, d =>
    let node := arena.node id
    if id ∈ d.visited then
      if typed then d else d.emitTypes place (arena.acceptedTypes? node)
    else if !typed && arena.acceptsNull node then
      let d := d.emitTypes place (arena.acceptedTypes? node)
      let inside := slot ++ [d.out.length]
      let body := visit arena fuel id place true inside { d with out := [], queue := [] }
      let body := drain arena fuel inside body
      { body with out := d.out ++ [.guarded place .ifNotNull body.out], queue := d.queue }
    else
      let d := { d with visited := id :: d.visited }
      match node.enumeration with
      | some allowed => d.emit place (.enumMembership allowed)
      | none =>
        match node.kind with
        | .typed type => typeChecks node type typed slot place d
        | .unknown => d
        | .union =>
          match concreteVariants arena node with
          | [variant] => visit arena fuel variant place typed slot d
          | _ => if typed then d else d.emitTypes place (arena.acceptedTypes? node)
/-- Visits all that is queued. -/
def drain (arena : SchemaArena) : Nat → List Nat → Draft → Draft
  | 0, _, d => d
  | fuel + 1, slot, d =>
    match d.queue with
    | [] => d
    | (id, place) :: queue =>
      drain arena fuel slot (visit arena fuel id place false slot { d with queue })
end

/-- Writes a whole list from a schema at a place. -/
def expand (arena : SchemaArena) (fuel : Nat) (schema : SchemaId) (place : Locator)
    (slot : List Nat) (d : Draft) : Draft :=
  drain arena fuel slot { d with out := [], queue := [(schema, place)] }

/-- Puts a body into the guard at a position. -/
def install (body : List Assertion) : List Nat → List Assertion → List Assertion
  | [], list => list
  | [index], list => list.modify index fun
    | .guarded target guard _ => .guarded target guard body
    | a => a
  | index :: slot, list => list.modify index fun
    | .guarded target guard inner => .guarded target guard (install body slot inner)
    | a => a

/-- Writes the bodies of deferred guards, oldest first. `fuel` bounds their number. -/
def settle (arena : SchemaArena) (steps : Nat) : Nat → List Assertion → Draft → List Assertion
  | 0, out, _ => out
  | fuel + 1, out, d =>
    match d.deferred with
    | [] => out
    | next :: deferred =>
      let d := expand arena steps next.schema next.place next.slot { d with deferred }
      settle arena steps fuel (install d.out next.slot out) d

mutual
/-- Drops guards whose body came out empty. -/
def prune : List Assertion → List Assertion
  | [] => []
  | a :: rest => pruneOne a ++ prune rest
def pruneOne : Assertion → List Assertion
  | .check target c => [.check target c]
  | .guarded target guard body =>
    match prune body with
    | [] => []
    | kept => [.guarded target guard kept]
end

/-- More than the steps of any derivation: each node is expanded once, and each edge queues or
defers one visit. -/
def budget (arena : SchemaArena) : Nat :=
  arena.nodes.foldr (fun node rest => node.properties.size + 6 + rest) 0 + 4

end Derivation

open HttpPlan.Derivation in
/-- The assertions of a body with the schema at `root`. -/
def SchemaArena.assertions (arena : SchemaArena) (root : SchemaId) : List Assertion :=
  let fuel := budget arena
  let d := expand arena fuel root .root [] {}
  prune (settle arena fuel fuel d.out d)

end HttpPlan
