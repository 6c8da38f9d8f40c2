import HttpPlan.Json
import HttpPlan.NameSet
import HttpPlan.OrderedMap

/-! Schema nodes: one type descriptor each, with its children named by their place in an arena. -/
namespace HttpPlan

inductive SchemaKind where
  | typed (type : JsonType)
  /-- Any of the node's variants. -/
  | union
  | unknown
deriving DecidableEq, Repr

namespace SchemaKind

def name : SchemaKind → String
  | typed type => type.name
  | union => "union"
  | unknown => "unknown"

def isNumeric : SchemaKind → Bool
  | typed type => type.isNumeric
  | _ => false

end SchemaKind

/-- The place of a node in its arena. -/
abbrev SchemaId := Nat

structure SchemaNode where
  kind : SchemaKind := .unknown
  /-- The last segment of the reference that the node was reached through. -/
  name : Option String := none
  properties : OrderedMap String SchemaId := ∅
  required : NameSet := ∅
  /-- The element type of an array. -/
  items : Option SchemaId := none
  variants : List SchemaId := []
  format : Option String := none
  enumeration : Option (List Json) := none
  nullable : Bool := false
  minimum : Option Binary64 := none
  maximum : Option Binary64 := none
  exclusiveMinimum : Bool := false
  exclusiveMaximum : Bool := false
  minLength : Option Nat := none
  maxLength : Option Nat := none
  pattern : Option String := none
  /-- `some null` is a documented example. -/
  exampleValue : Option Json := none
  description : Option String := none
deriving DecidableEq, Inhabited

namespace SchemaNode

def ofKind (kind : SchemaKind) : SchemaNode := { kind }

def isUuid (node : SchemaNode) : Bool := node.format = some "uuid"

def hasEnumeration (node : SchemaNode) : Bool := node.enumeration.any (!·.isEmpty)

/-- A string that is not confined to listed values. -/
def isFreeString (node : SchemaNode) : Bool :=
  node.kind = .typed .string && !node.hasEnumeration

end SchemaNode

/-! The owner of the schema nodes of a document. Nodes refer to each other by place, so a
self-referential definition is a node one of whose children is its own place. -/

structure SchemaArena where
  nodes : List SchemaNode := []
deriving DecidableEq, Inhabited

namespace SchemaArena

def size (arena : SchemaArena) : Nat := arena.nodes.length

def get? (arena : SchemaArena) (id : SchemaId) : Option SchemaNode := arena.nodes[id]?

/-- The node at a place; an unconstrained one where there is none. -/
def node (arena : SchemaArena) (id : SchemaId) : SchemaNode := (arena.get? id).getD {}

/-- The place that the next node will take. -/
def next (arena : SchemaArena) : SchemaId := arena.size

def push (arena : SchemaArena) (node : SchemaNode) : SchemaArena := ⟨arena.nodes ++ [node]⟩

/-- Overwrites the node at a place that is in use. -/
def set (arena : SchemaArena) (id : SchemaId) (node : SchemaNode) : SchemaArena :=
  ⟨arena.nodes.set id node⟩

/-- Drops every node at or after `size`. -/
def truncate (arena : SchemaArena) (size : Nat) : SchemaArena := ⟨arena.nodes.take size⟩

end SchemaArena

end HttpPlan
