import HttpPlan.Schema.Arena
import HttpPlan.Schema.Blueprint
import HttpPlan.Schema.Merge
import HttpPlan.Spec.Reference

/-! Turning schemas into arena nodes. Every reference to one definition yields one place: it is
taken before the definition is walked, so a definition that refers back to itself meets its own
place. A failed walk leaves everything behind as it stood; `rollback` forgets it. -/
namespace HttpPlan

structure Resolver where
  arena : SchemaArena := {}
  /-- The places of the references met so far. -/
  memo : OrderedMap String SchemaId := ∅
  /-- The references of the memo, in the order in which they were put there. -/
  journal : List String := []
  /-- Places taken by definitions that are still being walked. -/
  unfinished : List SchemaId := []
  /-- References that are being followed through pure aliases, innermost first. -/
  aliases : List String := []
deriving DecidableEq, Inhabited

/-- A step that may fail; the state reached so far survives the failure. -/
abbrev Resolve (α : Type) := EStateM BuildError Resolver α

namespace Resolver

structure Mark where
  arenaSize : Nat
  journalSize : Nat

def mark (r : Resolver) : Mark := ⟨r.arena.size, r.journal.length⟩

/-- Forgets all that was resolved since the mark. -/
def rollback (m : Mark) (r : Resolver) : Resolver :=
  { arena := r.arena.truncate m.arenaSize
    memo := (r.journal.drop m.journalSize).foldl OrderedMap.erase r.memo
    journal := r.journal.take m.journalSize
    unfinished := []
    aliases := [] }

def alloc (node : SchemaNode) : Resolve SchemaId := do
  let r ← get
  set { r with arena := r.arena.push node }
  return r.arena.next

def remember (pointer : String) (id : SchemaId) : Resolve Unit :=
  modify fun r => { r with memo := r.memo.insert pointer id, journal := r.journal ++ [pointer] }

/-- Takes a place for the definition behind `pointer`, to be filled later. -/
def reserve (pointer : String) : Resolve SchemaId := do
  let id ← alloc {}
  remember pointer id
  modify fun r => { r with unfinished := id :: r.unfinished }
  return id

/-- Finishes a definition. -/
def fill (id : SchemaId) (node : SchemaNode) : Resolve Unit :=
  modify fun r => { r with arena := r.arena.set id node, unfinished := r.unfinished.erase id }

/-- Runs a step with an alias on the stack, which it leaves also when the step fails. -/
def following {α : Type} (pointer : String) (step : Resolve α) : Resolve α := fun r =>
  match step { r with aliases := pointer :: r.aliases } with
  | .ok a r => .ok a { r with aliases := r.aliases.tail }
  | .error e r => .error e { r with aliases := r.aliases.tail }

/-- How a child schema at a location becomes a place. -/
abbrev Walk := Json → String → Resolve SchemaId

/-- The place of a child. -/
def place (walk : Walk) : Child → Resolve SchemaId
  | .fresh node => alloc node
  | .walked value location => walk value location

/-- Gives a child its role in a node. A part that is still being walked has no node to fold in
yet, and an alternative that is null alone makes the node nullable. -/
def join (node : SchemaNode) (id : SchemaId) : Role → Resolve SchemaNode
  | .variant => return { node with variants := node.variants ++ [id] }
  | .property name => return { node with properties := node.properties.insert name id }
  | .items => return { node with items := some id }
  | .part location => do
    let r ← get
    if id ∈ r.unfinished then throw (.unsupportedConstruct location .selfReferentialPart)
    else
      match node.absorb (r.arena.node id) with
      | .ok merged => return merged
      | .error construct => throw (.unsupportedConstruct location construct)
  | .alternative => do
    let r ← get
    return { node with
      variants := node.variants ++ [id]
      nullable := node.nullable || (r.arena.node id).kind = .typed .null }

def take (walk : Walk) (node : SchemaNode) : Step → Resolve SchemaNode
  | .refuse error => throw error
  | .child role child => do join node (← place walk child) role
  | .settle => return node.dropObjectItems
  | .unite => return node.asUnion

/-- The node of a schema object, its children walked first. -/
def buildNode (walk : Walk) (schema : Json) (location : String) : Resolve SchemaNode :=
  let (node, steps) := schema.blueprint location
  steps.foldlM (take walk) node

/-- The name a definition goes by: the last segment of its reference. -/
def definitionName (pointer : String) : String := String.ofList (Text.lastPiece '/' pointer.toList)

/-- The node of a definition, which goes by the name of its reference unless a part of it has
lent it one. -/
def definitionNode (pointer : String) (node : SchemaNode) : SchemaNode :=
  { node with name := node.name <|> some (definitionName pointer) }

mutual
/-- The place of a schema, inline or by reference. `fuel` bounds the nesting. -/
def schema (root : Json) : Nat → Walk
  | 0, _, location => throw (.unsupportedConstruct location .nesting)
  | fuel + 1, value, location =>
    match value.reference? with
    | some pointer => reference root fuel pointer
    | none => do alloc (← buildNode (schema root fuel) value location)
/-- The place of the definition behind a reference. An alias, a reference to a reference, shares
the place of what it points at. -/
def reference (root : Json) : Nat → String → Resolve SchemaId
  | 0, pointer => throw (.unsupportedConstruct pointer .nesting)
  | fuel + 1, pointer => do
    let r ← get
    match r.memo.get? pointer, root.lookup pointer with
    | some id, _ => return id
    | none, .error e => throw e
    | none, .ok target =>
      match target.reference? with
      | some next =>
        if pointer ∈ r.aliases then throw (.unsupportedConstruct pointer .circularAlias)
        else
          let id ← following pointer (reference root fuel next)
          remember pointer id
          return id
      | none =>
        let id ← reserve pointer
        let node ← buildNode (schema root fuel) target pointer
        fill id (definitionNode pointer node)
        return id
end

/-- More than the steps of any walk: each reference is followed at most once inside itself, and
between two references a walk only goes down. -/
def budget (root : Json) : Nat := (root.references.length + 1) * (root.depth + 2) + 1

def schemaId (root : Json) (value : Json) (location : String) : Resolve SchemaId :=
  schema root (budget root) value location

/-- The node of a schema that is no reference target, such as a parameter that carries its own
type. -/
def inlineNode (root : Json) (value : Json) (location : String) : Resolve SchemaNode :=
  buildNode (schema root (budget root)) value location

end Resolver

end HttpPlan
