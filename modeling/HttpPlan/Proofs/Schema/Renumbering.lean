import HttpPlan.Proofs.Schema.Merge
import Mathlib.Logic.Relation

/-! Arenas that hold the same nodes under other numbers. Only what the roots lead to has to
correspond, but no two places of it may fall together: that a node is shared can be seen from
outside. -/
namespace HttpPlan

/-- The same keys with other values. -/
def OrderedMap.mapValues {κ α β : Type} (f : α → β) (m : OrderedMap κ α) : OrderedMap κ β :=
  ⟨m.entries.map fun e => (e.1, f e.2), by simpa [List.map_map, Function.comp_def] using m.distinct⟩

namespace SchemaNode

variable {f : SchemaId → SchemaId} {node : SchemaNode}

/-- The same node with its children under other numbers. -/
def renumber (f : SchemaId → SchemaId) (node : SchemaNode) : SchemaNode :=
  { node with
    properties := node.properties.mapValues f
    items := node.items.map f
    variants := node.variants.map f }

@[simp] theorem kind_renumber : (node.renumber f).kind = node.kind := rfl

@[simp] theorem enumeration_renumber : (node.renumber f).enumeration = node.enumeration := rfl

@[simp] theorem nullable_renumber : (node.renumber f).nullable = node.nullable := rfl

@[simp] theorem required_renumber : (node.renumber f).required = node.required := rfl

@[simp] theorem variants_renumber : (node.renumber f).variants = node.variants.map f := rfl

@[simp] theorem items_renumber : (node.renumber f).items = node.items.map f := rfl

@[simp] theorem entries_renumber :
    (node.renumber f).properties.entries = node.properties.entries.map fun e => (e.1, f e.2) := rfl

theorem children_renumber : (node.renumber f).children = node.children.map f := by
  simp [children, OrderedMap.values, Function.comp_def, Option.toList_map]

end SchemaNode

namespace SchemaArena

variable {arena other : SchemaArena} {f : SchemaId → SchemaId} {roots : List SchemaId}
  {id child : SchemaId}

/-- What some places lead to through properties, items and variants, themselves included. -/
def Leads (arena : SchemaArena) (roots : List SchemaId) (id : SchemaId) : Prop :=
  ∃ root ∈ roots, Relation.ReflTransGen (fun id child => child ∈ (arena.node id).children) root id

theorem Leads.of_mem (member : id ∈ roots) : arena.Leads roots id := ⟨id, member, .refl⟩

theorem Leads.onward (leads : arena.Leads roots id) (member : child ∈ (arena.node id).children) :
    arena.Leads roots child := by
  obtain ⟨root, given, reached⟩ := leads
  exact ⟨root, given, reached.tail member⟩

theorem Leads.bound (closed : arena.Closed) (inside : ∀ root ∈ roots, root < arena.size)
    (leads : arena.Leads roots id) : id < arena.size := by
  obtain ⟨root, given, reached⟩ := leads
  cases reached with
  | refl => exact inside _ given
  | tail _ member => exact closed.below_node _ _ member

/-- What the roots lead to is among the places of any list that holds them and all their children. -/
theorem Leads.mem_of_closed {ids : List SchemaId} (subset : roots ⊆ ids)
    (closed : ∀ i ∈ ids, (arena.node i).children ⊆ ids) (leads : arena.Leads roots id) :
    id ∈ ids := by
  obtain ⟨root, given, reached⟩ := leads
  induction reached with
  | refl => exact subset given
  | tail _ member ih => exact closed _ ih member

/-- What the roots lead to in one arena stands in another one under the numbers that `f` gives. -/
structure Renumbers (arena other : SchemaArena) (f : SchemaId → SchemaId) (roots : List SchemaId) :
    Prop where
  apart : ∀ i j, arena.Leads roots i → arena.Leads roots j → f i = f j → i = j
  nodes : ∀ i, arena.Leads roots i → other.node (f i) = (arena.node i).renumber f

/-- What the roots lead to has its place in the other arena as well. -/
theorem Leads.image (renumbers : arena.Renumbers other f roots) (closed : other.Closed)
    (inside : ∀ root ∈ roots, f root < other.size) (leads : arena.Leads roots id) :
    f id < other.size := by
  obtain ⟨root, given, reached⟩ := leads
  cases reached with
  | refl => exact inside _ given
  | @tail parent _ before member =>
    have below := closed.below_node (f parent)
    rw [renumbers.nodes parent ⟨root, given, before⟩] at below
    refine below (f id) ?_
    rw [SchemaNode.children_renumber]
    exact List.mem_map_of_mem member

/-- It is enough to look at the places of a list that holds the roots and all their children. -/
theorem Renumbers.of_closed {ids : List SchemaId} (subset : roots ⊆ ids)
    (closed : ∀ i ∈ ids, (arena.node i).children ⊆ ids)
    (apart : ∀ i ∈ ids, ∀ j ∈ ids, f i = f j → i = j)
    (nodes : ∀ i ∈ ids, other.node (f i) = (arena.node i).renumber f) :
    arena.Renumbers other f roots where
  apart i j first last :=
    apart i (first.mem_of_closed subset closed) j (last.mem_of_closed subset closed)
  nodes i leads := nodes i (leads.mem_of_closed subset closed)

theorem Renumbers.mem_map_iff (renumbers : arena.Renumbers other f roots)
    (leads : arena.Leads roots id) {ids : List SchemaId} (all : ∀ i ∈ ids, arena.Leads roots i) :
    f id ∈ ids.map f ↔ id ∈ ids := by
  constructor
  · intro member
    obtain ⟨i, inside, same⟩ := List.mem_map.mp member
    exact renumbers.apart i id (all i inside) leads same ▸ inside
  · exact List.mem_map_of_mem

end SchemaArena

end HttpPlan
