import HttpPlan.Schema.Arena

/-! Arenas as they grow: pushing leaves the nodes before alone, and filling a place changes no
other. A closed arena has a node wherever one of its nodes points. -/
namespace HttpPlan

namespace SchemaNode

/-- Every place that a node points at. -/
def children (node : SchemaNode) : List SchemaId :=
  node.properties.values ++ node.items.toList ++ node.variants

/-- A node that points only at the first `size` places. -/
def Below (node : SchemaNode) (size : Nat) : Prop := ∀ id ∈ node.children, id < size

theorem below_of_childless {node : SchemaNode} (childless : node.children = []) (size : Nat) :
    node.Below size := by
  intro id member
  rw [childless] at member
  cases member

theorem below_empty (size : Nat) : ({} : SchemaNode).Below size := below_of_childless rfl size

theorem Below.mono {node : SchemaNode} {size larger : Nat} (below : node.Below size)
    (bound : size ≤ larger) : node.Below larger :=
  fun id member => Nat.lt_of_lt_of_le (below id member) bound

end SchemaNode

namespace SchemaArena

variable {arena later : SchemaArena} {id other : SchemaId} {node : SchemaNode}

/-- Every place that a node points at has a node. -/
def Closed (arena : SchemaArena) : Prop := ∀ node ∈ arena.nodes, node.Below arena.size

@[simp] theorem size_push : (arena.push node).size = arena.size + 1 := by simp [size, push]

@[simp] theorem size_set : (arena.set id node).size = arena.size := by simp [size, set]

theorem push_prefix : arena.nodes <+: (arena.push node).nodes := ⟨[node], rfl⟩

/-- What holds of all nodes of an arena and of an unconstrained one holds at every place. -/
theorem forall_node {P : SchemaNode → Prop} (blank : P {}) (every : ∀ node ∈ arena.nodes, P node)
    (id : SchemaId) : P (arena.node id) := by
  unfold SchemaArena.node get?
  cases found : arena.nodes[id]? with
  | none => exact blank
  | some node => exact every node (List.mem_of_getElem? found)

theorem node_push_new : (arena.push node).node arena.size = node := by
  simp [SchemaArena.node, get?, push, size]

theorem node_of_prefix (before : arena.nodes <+: later.nodes) (inside : id < arena.size) :
    later.node id = arena.node id := by
  obtain ⟨more, same⟩ := before
  have bound : id < arena.nodes.length := inside
  simp [SchemaArena.node, get?, ← same, List.getElem?_append_left bound]

theorem node_push_old (inside : id < arena.size) : (arena.push node).node id = arena.node id :=
  node_of_prefix push_prefix inside

theorem node_set_same (inside : id < arena.size) : (arena.set id node).node id = node := by
  have bound : id < arena.nodes.length := inside
  simp [SchemaArena.node, get?, set, bound]

theorem node_set_other (apart : other ≠ id) : (arena.set id node).node other = arena.node other := by
  simp [SchemaArena.node, get?, set, List.getElem?_set_ne (Ne.symm apart)]

theorem size_le_of_prefix (before : arena.nodes <+: later.nodes) : arena.size ≤ later.size :=
  before.length_le

/-- Filling a place that was taken after some point leaves the nodes before that point alone. -/
theorem prefix_set (before : arena.nodes <+: later.nodes) (taken : arena.size ≤ id) :
    arena.nodes <+: (later.set id node).nodes := by
  obtain ⟨more, same⟩ := before
  have beyond : arena.nodes.length ≤ id := taken
  refine ⟨more.set (id - arena.nodes.length) node, ?_⟩
  rw [set, ← same, List.set_append_right _ _ beyond]

theorem Closed.push (closed : arena.Closed) (below : node.Below arena.size) :
    (arena.push node).Closed := by
  intro old member
  rw [size_push]
  rcases List.mem_append.mp member with member | member
  · exact (closed old member).mono (Nat.le_succ _)
  · rw [List.mem_singleton.mp member]
    exact below.mono (Nat.le_succ _)

theorem Closed.set (closed : arena.Closed) (below : node.Below arena.size) :
    (arena.set id node).Closed := by
  intro old member
  rw [size_set]
  rcases List.mem_or_eq_of_mem_set member with member | rfl
  · exact closed old member
  · exact below

theorem Closed.below_node (closed : arena.Closed) (id : SchemaId) :
    (arena.node id).Below arena.size :=
  forall_node (P := (·.Below arena.size)) (SchemaNode.below_empty _) closed id

end SchemaArena

end HttpPlan
