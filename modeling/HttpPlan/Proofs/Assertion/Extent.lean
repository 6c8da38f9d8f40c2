import HttpPlan.Proofs.Assertion.Termination
import Mathlib.Algebra.BigOperators.Group.Finset.Basic
import Mathlib.Algebra.Order.BigOperators.Group.Finset
import Mathlib.Algebra.GroupWithZero.Nat

/-! What a derivation expands, and how much it writes. Each node that the root leads to is expanded
once, and each edge adds one guard at most and one visit, so the assertions are linear in the arena
however many paths lead through it. -/
namespace HttpPlan

namespace SchemaArena

variable {arena : SchemaArena} {id child : SchemaId}

/-- What the expansion of a node goes on to: properties of objects, items of arrays and the one
variant that a union has beside null, all of them without listed values. -/
inductive Descends (arena : SchemaArena) (id child : SchemaId) : Prop
  | property {key : String} (unlisted : (arena.node id).enumeration = none)
      (kind : (arena.node id).kind = .typed .object)
      (declared : (key, child) ∈ (arena.node id).properties.entries)
  | item (unlisted : (arena.node id).enumeration = none)
      (kind : (arena.node id).kind = .typed .array) (items : (arena.node id).items = some child)
  | variant (unlisted : (arena.node id).enumeration = none) (kind : (arena.node id).kind = .union)
      (sole : Derivation.concreteVariants arena (arena.node id) = [child])

theorem descends_iff : arena.Descends id child ↔ arena.Needs id child ∨ arena.Defers id child := by
  constructor
  · rintro (@⟨key, unlisted, kind, declared⟩ | ⟨unlisted, kind, items⟩ | ⟨unlisted, kind, sole⟩)
    · by_cases required : key ∈ (arena.node id).required
      · exact Or.inl (.property unlisted kind declared required)
      · exact Or.inr (.property unlisted kind declared required)
    · exact Or.inr (.item unlisted kind items)
    · exact Or.inl (.variant unlisted kind sole)
  · rintro ((⟨unlisted, kind, declared, -⟩ | ⟨unlisted, kind, sole⟩) |
      (⟨unlisted, kind, declared, -⟩ | ⟨unlisted, kind, items⟩))
    · exact .property unlisted kind declared
    · exact .variant unlisted kind sole
    · exact .property unlisted kind declared
    · exact .item unlisted kind items

theorem Descends.child_mem (descends : arena.Descends id child) :
    child ∈ (arena.node id).children := by
  rcases descends_iff.mp descends with needs | defers
  · exact needs.child_mem
  · exact defers.child_mem

theorem Closed.reached_lt {root : SchemaId} (closed : arena.Closed) (bound : root < arena.size)
    (reached : Relation.ReflTransGen arena.Descends root id) : id < arena.size := by
  cases reached with
  | refl => exact bound
  | tail _ descends => exact closed.below_node _ _ descends.child_mem

/-- The number of property, item and variant edges. -/
def edges (arena : SchemaArena) : Nat := (arena.nodes.map (·.children.length)).sum

end SchemaArena

namespace Derivation

open Assertion

variable {arena : SchemaArena} {node : SchemaNode} {root id child : SchemaId} {place : Locator}
  {typed : Bool} {slot : List Nat} {d e : Draft} {task : Task} {log : List Expansion}
  {out settled : List Assertion}

/-- The nodes that the settling of deferred bodies expands are new, and apart from each other. -/
theorem Settles.nodup (settles : Settles arena out d settled log) (distinct : d.visited.Nodup) :
    ((log.map (·.schema)).reverse ++ d.visited).Nodup := by
  induction settles with
  | done => exact distinct
  | next _ body _ behind =>
    have later := behind (body.nodup distinct)
    rw [body.visited] at later
    simpa using later

/-- What settling expands is led to by what was deferred. -/
theorem Settles.within {P : SchemaId → Prop}
    (onward : ∀ id child, P id → arena.Descends id child → P child)
    (settles : Settles arena out d settled log) (deferred : ∀ δ ∈ d.deferred, P δ.schema) :
    ∀ x ∈ log, P x.schema := by
  induction settles with
  | done => exact nofun
  | next ahead body _ behind =>
    rw [ahead, List.forall_mem_cons] at deferred
    obtain ⟨logged, -, owed⟩ := body.within
      (fun id child here needs => onward id child here (SchemaArena.descends_iff.mpr (.inl needs)))
      (fun id child here defers =>
        onward id child here (SchemaArena.descends_iff.mpr (.inr defers)))
      trivial (List.forall_mem_singleton.mpr deferred.1) deferred.2
    exact List.forall_mem_append.mpr ⟨logged, behind owed⟩

/-- All that was deferred, and all that an expansion goes on to, is expanded in the end. -/
theorem Settles.complete (settles : Settles arena out d settled log) :
    (∀ δ ∈ d.deferred, δ.schema ∈ d.visited ∨ ∃ x ∈ log, x.schema = δ.schema) ∧
      ∀ x ∈ log, ∀ child, arena.Descends x.schema child →
        child ∈ d.visited ∨ ∃ y ∈ log, y.schema = child := by
  induction settles with
  | done empty => exact ⟨by rw [empty]; exact nofun, nofun⟩
  | @next out settled next deferred d e first later ahead body _ behind =>
    obtain ⟨owed, complete⟩ := behind
    -- what the body visited is what was visited before and what it expanded
    have split : ∀ id, (id ∈ e.visited ∨ ∃ x ∈ later, x.schema = id) →
        id ∈ d.visited ∨ ∃ x ∈ first ++ later, x.schema = id := by
      rintro id (seen | ⟨x, member, same⟩)
      · rcases body.mem_visited.mp seen with ⟨x, member, same⟩ | before
        · exact Or.inr ⟨x, List.mem_append_left _ member, same⟩
        · exact Or.inl before
      · exact Or.inr ⟨x, List.mem_append_right _ member, same⟩
    refine ⟨?_, List.forall_mem_append.mpr ⟨fun x member child descends => ?_, ?_⟩⟩
    · rw [ahead]
      refine List.forall_mem_cons.mpr ⟨?_, fun δ member => ?_⟩
      · exact split _ (Or.inl (body.reaches.2 rfl next.entry (List.mem_singleton.mpr rfl)))
      · exact split _ (owed δ (body.deferred.subset member))
    · rcases SchemaArena.descends_iff.mp descends with needs | defers
      · exact split child (Or.inl (body.needs_visited member needs))
      · obtain ⟨δ, inside, rfl⟩ := body.defers x member child defers
        exact split _ (owed δ inside)
    · exact fun x member child descends => split child (complete x member child descends)

/-- A derivation expands each node that the root leads to, once. -/
theorem Derives.expands {list : List Assertion} {first later : List Expansion}
    (derives : Derives arena root list first later) :
    ((first ++ later).map (·.schema)).Nodup ∧ ∀ id,
      (∃ x ∈ first ++ later, x.schema = id) ↔ Relation.ReflTransGen arena.Descends root id := by
  obtain ⟨d, settled, run, settles, -⟩ := derives
  have visited : d.visited = (first.map (·.schema)).reverse := by
    rw [run.visited]
    exact List.append_nil _
  obtain ⟨owed, complete⟩ := settles.complete
  -- what has been visited when settling begins is what was expanded before
  have all : ∀ id, (id ∈ d.visited ∨ ∃ x ∈ later, x.schema = id) →
      ∃ x ∈ first ++ later, x.schema = id := by
    rintro id (seen | ⟨x, member, same⟩)
    · obtain ⟨x, member, same⟩ := (run.mem_visited.mp seen).resolve_right List.not_mem_nil
      exact ⟨x, List.mem_append_left _ member, same⟩
    · exact ⟨x, List.mem_append_right _ member, same⟩
  refine ⟨?_, fun id => ⟨?_, fun reached => ?_⟩⟩
  · have distinct := settles.nodup (run.nodup .nil)
    rw [visited, ← List.reverse_append, List.nodup_reverse] at distinct
    rwa [List.map_append]
  · rintro ⟨x, member, rfl⟩
    obtain ⟨logged, -, deferred⟩ := run.within
      (P := Relation.ReflTransGen arena.Descends root)
      (Q := Relation.ReflTransGen arena.Descends root)
      (fun _ _ here needs => here.tail (SchemaArena.descends_iff.mpr (.inl needs)))
      (fun _ _ here defers => here.tail (SchemaArena.descends_iff.mpr (.inr defers)))
      trivial (List.forall_mem_singleton.mpr .refl) nofun
    have behind := settles.within (fun _ _ here descends => here.tail descends) deferred
    exact List.forall_mem_append.mpr ⟨logged, behind⟩ x member
  · induction reached with
    | refl => exact all root (Or.inl (run.reaches.2 rfl (root, .root) (List.mem_singleton.mpr rfl)))
    | tail _ descends ih =>
      obtain ⟨x, member, rfl⟩ := ih
      rcases List.mem_append.mp member with early | late
      · rcases SchemaArena.descends_iff.mp descends with needs | defers
        · exact all _ (Or.inl (run.needs_visited early needs))
        · obtain ⟨δ, inside, rfl⟩ := run.defers x early _ defers
          exact all _ (owed δ inside)
      · exact all _ (complete x late _ descends)

theorem count_append {list more : List Assertion} :
    count (list ++ more) = count list + count more := by
  induction list with
  | nil => simp [count]
  | cons a rest ih => simp [count, ih, Nat.add_assoc]

theorem count_checks {checks : List Check} :
    count (checks.map (.check place)) = checks.length := by
  induction checks with
  | nil => rfl
  | cons check rest ih => simp [count, size, ih, Nat.add_comm]

theorem count_guards {guards : List Guard} :
    count (guards.map (.guarded place · [])) = guards.length := by
  induction guards with
  | nil => rfl
  | cons guard rest ih => simp [count, size, ih, Nat.add_comm]

theorem count_modify {change : Assertion → Assertion} {more : Nat}
    (grows : ∀ a, size (change a) ≤ size a + more) (list : List Assertion) (index : Nat) :
    count (list.modify index change) ≤ count list + more := by
  induction list generalizing index with
  | nil => simp [count]
  | cons a rest ih =>
    cases index with
    | zero =>
      have here := grows a
      simp only [List.modify_zero_cons, count]
      omega
    | succ index =>
      have later := ih index
      simp only [List.modify_succ_cons, count]
      omega

theorem count_install (body : List Assertion) (slot : List Nat) (list : List Assertion) :
    count (install body slot list) ≤ count list + count body := by
  induction slot generalizing list with
  | nil => simp [install]
  | cons index slot ih =>
    rw [install_cons]
    refine count_modify (fun a => ?_) list index
    cases a with
    | check => cases slot <;> simp [installAt]
    | guarded target guard inner =>
      cases slot with
      | nil =>
        simp only [installAt, size]
        omega
      | cons next rest =>
        have inside := ih inner
        simp only [installAt, size]
        omega

mutual
theorem count_prune : ∀ list : List Assertion, count (prune list) ≤ count list
  | [] => by rw [prune]
  | a :: rest => by
    have here := count_pruneOne a
    have later := count_prune rest
    rw [prune, count_append, count]
    omega
theorem count_pruneOne : ∀ a : Assertion, count (pruneOne a) ≤ size a
  | .check target c => by simp [pruneOne, count]
  | .guarded target guard body => by
    have inside := count_prune body
    rw [pruneOne]
    split
    · exact Nat.zero_le _
    · simp only [count, size]
      omega
end

/-- What the expansion of a node may add: three checks, and a guard and a visit for each edge. -/
def weight (arena : SchemaArena) (id : SchemaId) : Nat := 3 + 2 * (arena.node id).children.length

theorem branches_le_children : node.branches.length ≤ node.children.length := by
  unfold SchemaNode.branches SchemaNode.children OrderedMap.values
  split
  · simp only [List.length_map, List.length_append]
    omega
  · simp only [List.length_map, List.length_append]
    omega
  · exact Nat.zero_le _

theorem checkIf_length {condition : Bool} {check : Check} :
    (checkIf condition check).length ≤ 1 := by
  cases condition <;> simp [checkIf]

theorem valueChecks_length (node : SchemaNode) (type : JsonType) :
    (valueChecks node type).length ≤ 2 := by
  cases type with
  | string =>
    have pattern : (node.pattern.toList.map Check.matchesPattern).length ≤ 1 := by
      cases node.pattern <;> simp
    rw [valueChecks, List.length_append]
    exact Nat.add_le_add pattern checkIf_length
  | object => exact Nat.le_succ_of_le checkIf_length
  | integer => exact Nat.le_succ_of_le checkIf_length
  | number => exact Nat.le_succ_of_le checkIf_length
  | array => exact Nat.zero_le _
  | boolean => exact Nat.zero_le _
  | null => exact Nat.zero_le _

theorem nodeChecks_length : (nodeChecks node typed).length ≤ if typed then 2 else 3 := by
  unfold nodeChecks
  split
  · cases typed <;> simp
  · next type _ _ =>
    split
    · cases typed <;> simp
    · have values := valueChecks_length node type
      cases typed
      · simp only [checkIf, Bool.not_false, if_true, List.length_append, List.length_singleton,
          Bool.false_eq_true, if_false]
        omega
      · exact values
  · exact Nat.zero_le _

theorem ownChecks_length (arena : SchemaArena) (node : SchemaNode) (typed : Bool) :
    (ownChecks arena node typed).length ≤ if typed then 2 else 3 := by
  unfold ownChecks shallowChecks typesChecks
  split
  · split
    · exact Nat.zero_le _
    · cases arena.acceptedTypes? node <;> cases typed <;> simp
  · exact nodeChecks_length

/-- What a task may add beyond what it expands: the type check of a visit. -/
def Task.charge : Task → Nat
  | .visit _ _ typed => if typed then 0 else 1
  | .drain => 0

/-- What a visit does not use up when the type has been checked and the node is new. -/
def Task.spare : Task → List SchemaId → Nat
  | .visit id _ typed, visited => if typed ∧ id ∉ visited then 1 else 0
  | .drain, _ => 0

/-- All that is written, with the visits still to be made. -/
def Draft.volume (d : Draft) : Nat := count d.out + d.queue.length + d.deferred.length

/-- What a task adds is covered by the nodes that it expands. -/
theorem Run.cost (run : Run arena task slot d e log) : e.volume + task.spare d.visited ≤
    d.volume + (log.map fun x => weight arena x.schema).sum + task.charge := by
  have shallow : ∀ (node : SchemaNode) (typed : Bool),
      (shallowChecks arena node typed).length ≤ if typed then 0 else 1 := fun node typed => by
    unfold shallowChecks typesChecks
    cases arena.acceptedTypes? node <;> cases typed <;> simp
  induction run with
  | @again id place typed slot d seen =>
    have few := shallow (arena.node id) typed
    simp only [Draft.volume, Draft.check, count_append, count_checks, Task.spare, Task.charge, seen,
      not_true, and_false, if_false, List.map_nil, List.sum_nil]
    omega
  | @guarded id place slot d start opened body first later fresh _ begun _ drain inside behind =>
    have few := shallow (arena.node id) false
    have drained := drain.drained
    subst begun
    simp only [Draft.volume, Draft.inner, Draft.wrap, Draft.check, count_append, count_checks,
      count, size, Task.spare, Task.charge, fresh, not_false_eq_true, and_self, if_true,
      List.map_append, List.sum_append, List.length_nil, drained, Bool.false_eq_true, false_and, if_false] at *
    omega
  | @plain id place typed slot d fresh =>
    obtain ⟨guards, wrote, size⟩ := (opens_here arena id place typed slot d).out
    obtain ⟨owed, grown, entries⟩ := (opens_here arena id place typed slot d).deferred
    have owes := congrArg List.length entries
    have own := ownChecks_length arena (arena.node id) typed
    have few := Nat.le_trans (visits_length (arena.node id) place)
      branches_le_children
    rw [Draft.volume, (opens_here ..).queue, wrote, grown]
    simp only [Draft.volume, Draft.check, Draft.mark, count_append, count_checks, count_guards,
      List.length_append, List.length_map, Task.spare, Task.charge, fresh, weight, List.map_cons,
      List.map_nil, List.sum_cons, List.sum_nil, not_false_eq_true, and_true] at *
    cases typed <;> simp only [Bool.false_eq_true, if_false, if_true] at * <;> omega
  | @variant id other place typed slot d e log fresh _ _ _ inside =>
    simp only [Draft.volume, Draft.mark, Task.spare, Task.charge, fresh, weight, List.map_cons,
      List.sum_cons, not_false_eq_true, and_true] at *
    cases typed <;> simp only [Bool.false_eq_true, if_false, if_true] at * <;> omega
  | done => exact Nat.le_refl _
  | next ahead _ _ inside behind =>
    simp only [Draft.volume, ahead, Task.spare, Task.charge, List.map_append, List.sum_append,
      List.length_cons, Bool.false_eq_true, false_and, if_false] at *
    omega

theorem Settles.cost (settles : Settles arena out d settled log) : count settled ≤
    count out + d.deferred.length + (log.map fun x => weight arena x.schema).sum := by
  induction settles with
  | done => omega
  | @next out settled next deferred d e first later ahead body _ behind =>
    have inside := body.cost
    have grown := count_install e.out next.slot out
    simp only [Draft.volume, Task.spare, Task.charge, count, List.length_singleton] at inside
    rw [ahead, List.length_cons, List.map_append, List.sum_append]
    omega

/-- Distinct nodes weigh no more than all nodes together. -/
theorem weights_le {ids : List SchemaId} (distinct : ids.Nodup)
    (small : ∀ id ∈ ids, id < arena.size) :
    (ids.map (weight arena)).sum ≤ 3 * arena.size + 2 * arena.edges := by
  have inside : ids.toFinset ⊆ Finset.range arena.size := fun id member =>
    Finset.mem_range.mpr (small id (List.mem_toFinset.mp member))
  have all : (List.range arena.size).toFinset = Finset.range arena.size := by
    ext id
    simp
  have total : ∀ ids : List SchemaId, (ids.map (weight arena)).sum =
      3 * ids.length + 2 * (ids.map fun id => (arena.node id).children.length).sum := fun ids => by
    induction ids with
    | nil => rfl
    | cons id rest ih =>
      simp only [List.map_cons, List.sum_cons, List.length_cons, ih, weight]
      omega
  calc (ids.map (weight arena)).sum
      = ∑ id ∈ ids.toFinset, weight arena id := (List.sum_toFinset _ distinct).symm
    _ ≤ ∑ id ∈ Finset.range arena.size, weight arena id :=
      Finset.sum_le_sum_of_subset inside
    _ = ((List.range arena.size).map (weight arena)).sum := by
      rw [← List.sum_toFinset _ List.nodup_range, all]
    _ = 3 * arena.size + 2 * arena.edges := by
      rw [total, List.length_range, SchemaArena.edges, nodes_eq, List.map_map]
      rfl

theorem Derives.count_le {list : List Assertion} {first later : List Expansion}
    (closed : arena.Closed) (bound : root < arena.size)
    (derives : Derives arena root list first later) :
    count list ≤ 4 * arena.size + 2 * arena.edges := by
  obtain ⟨distinct, reached⟩ := derives.expands
  have small : ∀ id ∈ (first ++ later).map (·.schema), id < arena.size := fun id member => by
    obtain ⟨x, inside, same⟩ := List.mem_map.mp member
    exact closed.reached_lt bound ((reached id).mp ⟨x, inside, same⟩)
  have weights := weights_le distinct small
  obtain ⟨d, settled, run, settles, rfl⟩ := derives
  have early := run.cost
  have late := settles.cost
  have pruned := count_prune settled
  simp only [Draft.volume, Task.spare, Task.charge, count, List.length_singleton, List.length_nil,
    run.drained] at early
  rw [List.map_map, List.map_append, List.sum_append] at weights
  simp only [Function.comp_def] at weights
  have some : 0 < arena.size := Nat.zero_lt_of_lt bound
  omega

end Derivation

namespace SchemaArena

variable {arena : SchemaArena} {root : SchemaId}

/-- Derivation comes to an end on every arena, with cycles and shared parts or not; it expands just
what the root leads to, each node once; and what it writes is linear in the arena. -/
theorem assertions_extent (closed : arena.Closed) (bound : root < arena.size) :
    ∃ first later,
      (∀ list once again, Derivation.Derives arena root list once again ↔
        list = arena.assertions root ∧ once = first ∧ again = later) ∧
      ((first ++ later).map (·.schema)).Nodup ∧
      (∀ id, (∃ x ∈ first ++ later, x.schema = id) ↔
        Relation.ReflTransGen arena.Descends root id) ∧
      Assertion.count (arena.assertions root) ≤ 4 * arena.size + 2 * arena.edges := by
  obtain ⟨first, later, derives⟩ := derives_assertions closed bound
  obtain ⟨distinct, reached⟩ := derives.expands
  refine ⟨first, later, fun list once again => ⟨fun twin => twin.unique derives, ?_⟩, distinct,
    reached, derives.count_le closed bound⟩
  rintro ⟨rfl, rfl, rfl⟩
  exact derives

/-- An object that refers to itself, and whose nullable part is used three times and refers back. -/
def tangled : SchemaArena :=
  ⟨[{ kind := .typed .object,
      properties := .ofList [("next", 0), ("left", 1), ("right", 1), ("all", 2)],
      required := .ofList ["left", "right"] },
    { kind := .typed .object, nullable := true, properties := .ofList [("up", 0), ("tag", 3)] },
    { kind := .typed .array, items := some 1 },
    { kind := .union, variants := [4, 5] },
    { kind := .typed .string, minLength := some 1 },
    { kind := .typed .null }]⟩

theorem assertions_extent_tangled : tangled.Closed ∧ 0 < tangled.size ∧ ∃ first later,
    Derivation.Derives tangled 0 (tangled.assertions 0) first later ∧
      ((first ++ later).map (·.schema)).Nodup ∧ (∃ x ∈ first ++ later, x.schema = 4) ∧
        Assertion.count (tangled.assertions 0) ≤ 42 := by
  have closed : tangled.Closed := by
    unfold Closed SchemaNode.Below
    decide
  have filled : 0 < tangled.size := by decide
  obtain ⟨first, later, derives, distinct, reached, few⟩ := assertions_extent closed filled
  have part : tangled.Descends 0 1 :=
    .property rfl rfl (show ("left", 1) ∈ (tangled.node 0).properties.entries by decide)
  have tag : tangled.Descends 1 3 :=
    .property rfl rfl (show ("tag", 3) ∈ (tangled.node 1).properties.entries by decide)
  have text : tangled.Descends 3 4 := .variant rfl rfl (by decide)
  exact ⟨closed, filled, first, later, (derives _ _ _).mpr ⟨rfl, rfl, rfl⟩, distinct,
    (reached 4).mpr (((Relation.ReflTransGen.refl.tail part).tail tag).tail text), few⟩

end SchemaArena

end HttpPlan
