import HttpPlan.Assertion.Derivation
import HttpPlan.Proofs.OrderedMap
import HttpPlan.Proofs.Schema.Merge
import Mathlib.Data.List.Perm.Basic

/-! Places that are still to be visited, in a schema no part of which is shared. Such a schema names
the place of each of its nodes, so what a visit adds lies below its own place and is met by no other
visit. What is left to do never grows beyond the nodes that have not been visited. -/
namespace HttpPlan

namespace Locator

def extend (place : Locator) (segment : LocatorSegment) : Locator := ⟨place.segments ++ [segment]⟩

/-- A place at or below another. -/
def Within (place outer : Locator) : Prop := outer.segments <+: place.segments

variable {place outer other : Locator} {segment : LocatorSegment}

theorem within_refl (place : Locator) : place.Within place := List.prefix_rfl

theorem Within.trans (first : place.Within outer) (last : outer.Within other) :
    place.Within other :=
  List.IsPrefix.trans last first

theorem extend_within : (place.extend segment).Within place := List.prefix_append _ _

theorem not_within_extend : ¬ place.Within (place.extend segment) := by
  intro inside
  have short := List.IsPrefix.length_le inside
  simp only [extend, List.length_append, List.length_singleton] at short
  omega

theorem within_of_extend (inside : (place.extend segment).Within other) :
    other = place.extend segment ∨ place.Within other := by
  rcases List.prefix_concat_iff.mp inside with same | above
  · exact Or.inl (congrArg Locator.mk same)
  · exact Or.inr above

theorem extend_inj {twin : LocatorSegment}
    (inside : (place.extend segment).Within (place.extend twin)) : segment = twin := by
  have same := (List.prefix_append_right_inj place.segments).mp inside
  exact (List.cons_prefix_cons.mp same).1.symm

theorem resolve?_extend {v : Json} : (place.extend segment).resolve? v =
    (place.resolve? v).bind fun w => LocatorSegment.step w segment := by
  simp only [resolve?, extend, List.foldlM_append]
  cases place.segments.foldlM LocatorSegment.step v <;> simp

end Locator

/-- What a node looks into: the properties of an object, and the first item of an array. -/
def SchemaNode.branches (node : SchemaNode) : List (LocatorSegment × SchemaId) :=
  match node.enumeration, node.kind with
  | none, .typed .object => node.properties.entries.map fun entry => (.key entry.1, entry.2)
  | none, .typed .array => node.items.toList.map fun child => (.index 0, child)
  | _, _ => []

namespace SchemaNode

variable {node : SchemaNode}

theorem branches_distinct : node.branches.Pairwise fun a b => a.1 ≠ b.1 := by
  unfold branches
  split
  · have keys : node.properties.entries.Pairwise fun a b => a.1 ≠ b.1 :=
      List.pairwise_map.mp node.properties.distinct
    exact List.pairwise_map.mpr (keys.imp fun differ same => differ (LocatorSegment.key.inj same))
  · cases node.items <;> simp
  · exact .nil

theorem branches_length : node.branches.length ≤ node.properties.size + 1 := by
  unfold branches
  split
  · simp [OrderedMap.size]
  · cases node.items <;> simp
  · exact Nat.zero_le _

theorem mem_children_of_branches {segment : LocatorSegment} {child : SchemaId}
    (branch : (segment, child) ∈ node.branches) : child ∈ node.children := by
  rw [mem_children]
  unfold branches at branch
  split at branch
  · obtain ⟨entry, member, same⟩ := List.mem_map.mp branch
    cases same
    exact Or.inl (List.mem_map_of_mem member)
  · obtain ⟨item, member, same⟩ := List.mem_map.mp branch
    cases same
    exact Or.inr (Or.inl (Option.mem_toList.mp member))
  · cases branch

end SchemaNode

/-- The places of a body that a schema is held against, with the node that belongs to each. -/
inductive SchemaArena.Sited (arena : SchemaArena) (root : SchemaId) : SchemaId → Locator → Prop
  | root : Sited arena root root .root
  | branch {id child : SchemaId} {place : Locator} {segment : LocatorSegment}
      (sited : Sited arena root id place) (branch : (segment, child) ∈ (arena.node id).branches) :
      Sited arena root child (place.extend segment)

namespace SchemaArena

variable {arena : SchemaArena} {root id : SchemaId} {place : Locator}

theorem Sited.lt (closed : arena.Closed) (bound : root < arena.size)
    (sited : arena.Sited root id place) : id < arena.size := by
  cases sited with
  | root => exact bound
  | branch _ branch => exact closed.below_node _ _ (SchemaNode.mem_children_of_branches branch)

/-- A schema in which one path at most leads to each node. -/
def Unshared (arena : SchemaArena) (root : SchemaId) : Prop :=
  ∀ id place other, arena.Sited root id place → arena.Sited root id other → place = other

/-- A schema whose nodes have a place each that their branches agree with is unshared. -/
theorem unshared_of_located (closed : arena.Closed) (bound : root < arena.size)
    (locate : SchemaId → Locator) (start : locate root = .root)
    (step : ∀ id < arena.size, ∀ branch ∈ (arena.node id).branches,
      locate branch.2 = (locate id).extend branch.1) : arena.Unshared root := by
  have located : ∀ id place, arena.Sited root id place → locate id = place := by
    intro id place sited
    induction sited with
    | root => exact start
    | branch sited branch ih =>
      rw [← ih]
      exact step _ (sited.lt closed bound) _ branch
  exact fun id place other first last => (located id place first).symm.trans (located id other last)

end SchemaArena

namespace Derivation

variable {arena : SchemaArena} {root id : SchemaId} {place : Locator} {visited : List SchemaId}
  {pending more rest : List (SchemaId × Locator)}

/-- The visits that a node calls for. -/
def visitsOf (node : SchemaNode) (place : Locator) : List (SchemaId × Locator) :=
  node.branches.map fun branch => (branch.2, place.extend branch.1)

/-- Visits that are still to come: each to a place of its own, at or below which nothing has been
visited. -/
structure Frontier (arena : SchemaArena) (root : SchemaId) (visited : List SchemaId)
    (pending : List (SchemaId × Locator)) : Prop where
  sited : ∀ entry ∈ pending, arena.Sited root entry.1 entry.2
  fresh : ∀ entry ∈ pending, ∀ id ∈ visited, ∀ place, arena.Sited root id place →
    ¬ place.Within entry.2
  apart : pending.Pairwise fun a b => ¬ a.2.Within b.2 ∧ ¬ b.2.Within a.2

theorem Frontier.start : Frontier arena root [] [(root, .root)] where
  sited := fun entry member => by rw [List.mem_singleton.mp member]; exact .root
  fresh := nofun
  apart := List.pairwise_singleton _ _

theorem Frontier.perm (frontier : Frontier arena root visited pending) (same : pending.Perm more) :
    Frontier arena root visited more where
  sited := fun entry member => frontier.sited entry (same.mem_iff.mpr member)
  fresh := fun entry member => frontier.fresh entry (same.mem_iff.mpr member)
  apart := (same.pairwise_iff fun apart => ⟨apart.2, apart.1⟩).mp frontier.apart

theorem Frontier.unvisited (frontier : Frontier arena root visited ((id, place) :: rest)) :
    id ∉ visited := by
  intro seen
  have sited := frontier.sited _ List.mem_cons_self
  exact frontier.fresh _ List.mem_cons_self id seen place sited (Locator.within_refl place)

/-- Places none of which is inside another stay so when one of them is given up for the places right
below it. -/
theorem apart_visit {left : List Locator} (node : SchemaNode)
    (apart : (place :: left).Pairwise fun a b => ¬ a.Within b ∧ ¬ b.Within a) :
    ((visitsOf node place).map (·.2) ++ left).Pairwise fun a b => ¬ a.Within b ∧ ¬ b.Within a := by
  obtain ⟨ahead, others⟩ := List.pairwise_cons.mp apart
  refine List.pairwise_append.mpr ⟨?_, others, fun below new other old => ?_⟩
  · refine List.pairwise_map.mpr (List.pairwise_map.mpr ?_)
    refine SchemaNode.branches_distinct.imp fun differ => ?_
    exact ⟨fun within => differ (Locator.extend_inj within),
      fun within => differ (Locator.extend_inj within).symm⟩
  · obtain ⟨entry, visit, rfl⟩ := List.mem_map.mp new
    obtain ⟨branch, -, rfl⟩ := List.mem_map.mp visit
    obtain ⟨away, back⟩ := ahead other old
    refine ⟨fun within => ?_, fun within => back (within.trans Locator.extend_within)⟩
    rcases Locator.within_of_extend within with same | above
    · exact back (same ▸ Locator.extend_within)
    · exact away above

/-- A visit hands its place over to the places right below it. -/
theorem Frontier.visit (unshared : arena.Unshared root)
    (frontier : Frontier arena root visited ((id, place) :: rest)) :
    Frontier arena root (id :: visited) (visitsOf (arena.node id) place ++ rest) := by
  have here := frontier.sited _ List.mem_cons_self
  have clear := frontier.fresh _ List.mem_cons_self
  obtain ⟨ahead, -⟩ := List.pairwise_cons.mp frontier.apart
  refine ⟨?_, ?_, ?_⟩
  · intro entry member
    rcases List.mem_append.mp member with new | old
    · obtain ⟨branch, inside, rfl⟩ := List.mem_map.mp new
      exact .branch here inside
    · exact frontier.sited entry (List.mem_cons_of_mem _ old)
  · intro entry member seen inside other sited
    rcases List.mem_append.mp member with new | old
    · obtain ⟨branch, -, rfl⟩ := List.mem_map.mp new
      rcases List.mem_cons.mp inside with rfl | before
      · rw [unshared _ _ _ sited here]
        exact Locator.not_within_extend
      · exact fun within => clear seen before other sited (within.trans Locator.extend_within)
    · rcases List.mem_cons.mp inside with rfl | before
      · rw [unshared _ _ _ sited here]
        exact (ahead entry old).1
      · exact frontier.fresh entry (List.mem_cons_of_mem _ old) seen before other sited
  · have apart : (((id, place) :: rest).map (·.2)).Pairwise
        fun a b => ¬ a.Within b ∧ ¬ b.Within a := List.pairwise_map.mpr frontier.apart
    have onward := apart_visit (arena.node id) apart
    rw [← List.map_append] at onward
    exact List.pairwise_map.mp onward

/-- What the nodes not visited yet may still cost. -/
def unspent (arena : SchemaArena) (visited : List SchemaId) : Nat :=
  ((List.range arena.size).filter (· ∉ visited)).foldr
    (fun id rest => (arena.node id).properties.size + 6 + rest) 0

theorem cost_unvisited {cost : SchemaId → Nat} {ids : List SchemaId} (distinct : ids.Nodup)
    (member : id ∈ ids) (fresh : id ∉ visited) :
    (ids.filter (· ∉ id :: visited)).foldr (fun id rest => cost id + rest) 0 + cost id =
      (ids.filter (· ∉ visited)).foldr (fun id rest => cost id + rest) 0 := by
  induction ids with
  | nil => cases member
  | cons first rest ih =>
    obtain ⟨apart, distinct⟩ := List.nodup_cons.mp distinct
    by_cases here : first = id
    · subst here
      have others : rest.filter (· ∉ first :: visited) = rest.filter (· ∉ visited) := by
        refine List.filter_congr fun other inside => ?_
        have differ : other ≠ first := fun same => apart (same ▸ inside)
        simp [differ]
      rw [List.filter_cons_of_neg (by simp), List.filter_cons_of_pos (by simpa using fresh), others,
        List.foldr_cons, Nat.add_comm]
    · have later := ih distinct ((List.mem_cons.mp member).resolve_left fun same => here same.symm)
      by_cases seen : first ∈ visited
      · rwa [List.filter_cons_of_neg (by simp [seen]), List.filter_cons_of_neg (by simp [seen])]
      · rw [List.filter_cons_of_pos (by simp [here, seen]), List.filter_cons_of_pos (by simp [seen]),
          List.foldr_cons, List.foldr_cons, ← later, Nat.add_assoc]

theorem unspent_visit (bound : id < arena.size) (fresh : id ∉ visited) :
    unspent arena (id :: visited) + ((arena.node id).properties.size + 6) =
      unspent arena visited :=
  cost_unvisited List.nodup_range (List.mem_range.mpr bound) fresh

theorem nodes_eq : arena.nodes = (List.range arena.size).map arena.node := by
  refine List.ext_getElem (by simp [SchemaArena.size]) fun i bound _ => ?_
  simp [SchemaArena.node, SchemaArena.get?, bound]

theorem budget_eq : budget arena = unspent arena [] + 4 := by
  have every : (List.range arena.size).filter (· ∉ ([] : List SchemaId)) = List.range arena.size :=
    List.filter_eq_self.mpr fun _ _ => by simp
  rw [budget, unspent, every, nodes_eq, List.foldr_map]

end Derivation

end HttpPlan
