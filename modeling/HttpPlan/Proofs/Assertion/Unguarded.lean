import HttpPlan.Proofs.Assertion.Extent

/-! Where a definition is expanded that is required at some places and guarded at others. Bodies
behind guards for presence come last, so a required use keeps its full checks against those. The
body behind a guard against null is written at once, so what it needs can be expanded there first.
The top-level visits go level by level, so only a guard that is no deeper can do that. -/
namespace HttpPlan

def Locator.depth (place : Locator) : Nat := place.segments.length

namespace SchemaArena

/-- A place that no guard stands before: the root, a required key of an object there that is not
nullable, and the one variant of a union there that is not nullable. -/
inductive Unguarded (arena : SchemaArena) (root : SchemaId) : SchemaId → Locator → Prop
  | root : Unguarded arena root root .root
  | key {id child : SchemaId} {place : Locator} {key : String}
      (above : Unguarded arena root id place) (solid : arena.acceptsNull (arena.node id) = false)
      (unlisted : (arena.node id).enumeration = none)
      (kind : (arena.node id).kind = .typed .object)
      (declared : (key, child) ∈ (arena.node id).properties.entries)
      (required : key ∈ (arena.node id).required) : Unguarded arena root child (place.key key)
  | variant {id child : SchemaId} {place : Locator}
      (above : Unguarded arena root id place) (solid : arena.acceptsNull (arena.node id) = false)
      (unlisted : (arena.node id).enumeration = none) (kind : (arena.node id).kind = .union)
      (sole : Derivation.concreteVariants arena (arena.node id) = [child]) :
      Unguarded arena root child place

end SchemaArena

namespace Derivation

open Assertion

variable {arena : SchemaArena} {root id child : SchemaId} {place : Locator} {slot : List Nat}
  {d e : Draft} {task : Task} {log : List Expansion} {out settled : List Assertion}

theorem unguarded_nextVisits (unguarded : arena.Unguarded root id place)
    (solid : arena.acceptsNull (arena.node id) = false) :
    ∀ entry ∈ nextVisits (arena.node id) place,
      arena.Unguarded root entry.1 entry.2 ∧ entry.2.depth = place.depth + 1 := by
  unfold nextVisits
  split
  · next unlisted kind =>
    intro entry member
    obtain ⟨property, inside, rfl⟩ := List.mem_map.mp member
    obtain ⟨declared, required⟩ := List.mem_filter.mp inside
    refine ⟨.key unguarded solid unlisted kind declared (of_decide_eq_true required), ?_⟩
    simp [Locator.depth, Locator.key]
  · exact fun _ member => absurd member List.not_mem_nil

/-- A visit to an unguarded place expands nodes there, or behind a guard against null there, and
leaves places one level deeper. -/
theorem Run.surface (run : Run arena task slot d e log) (visit : task = .visit id place false)
    (top : slot = []) (unguarded : arena.Unguarded root id place) :
    (∀ x ∈ log,
      (x.slot = [] → x.typed = false ∧ x.place = place ∧ arena.Unguarded root x.schema place) ∧
      (x.slot ≠ [] → ∃ m, arena.Unguarded root m place ∧ arena.acceptsNull (arena.node m) = true ∧
        Relation.ReflTransGen arena.Needs m x.schema)) ∧
    ∃ deeper, e.queue = d.queue ++ deeper ∧ ∀ entry ∈ deeper,
      arena.Unguarded root entry.1 entry.2 ∧ entry.2.depth = place.depth + 1 := by
  induction run generalizing id with
  | again => exact ⟨nofun, [], (List.append_nil _).symm, nofun⟩
  | @guarded id place slot d start opened body first later _ nullable begun opens drains =>
    cases visit
    subst begun
    obtain ⟨early, queued, -⟩ := opens.within (Q := fun _ => True)
      (P := Relation.ReflTransGen arena.Needs id) (fun _ _ here needs => here.tail needs)
      (fun _ _ _ _ => trivial) .refl nofun fun _ _ => trivial
    obtain ⟨late, -⟩ := drains.within (Q := fun _ => True)
      (P := Relation.ReflTransGen arena.Needs id) (fun _ _ here needs => here.tail needs)
      (fun _ _ _ _ => trivial) trivial queued fun _ _ => trivial
    refine ⟨fun x member => ⟨fun empty => ?_, fun _ => ⟨id, unguarded, nullable, ?_⟩⟩, [],
      (List.append_nil _).symm, nofun⟩
    · have inside := List.forall_mem_append.mpr ⟨opens.slots, drains.slots⟩ x member
      rw [empty] at inside
      exact absurd (List.prefix_nil.mp inside) (by simp)
    · exact List.forall_mem_append.mpr ⟨early, late⟩ x member
  | @plain id place typed slot d _ solid =>
    cases visit
    subst top
    refine ⟨List.forall_mem_singleton.mpr ⟨fun _ => ⟨rfl, rfl, unguarded⟩, fun other => ?_⟩, _,
      (opens_here arena id place false [] d).queue, ?_⟩
    · exact absurd rfl other
    · exact unguarded_nextVisits unguarded (solid.resolve_left nofun)
  | @variant id other place typed slot d e log _ solid sole _ inside =>
    cases visit
    subst top
    obtain ⟨unlisted, kind, alone⟩ := soleVariant?_eq_some.mp sole
    obtain ⟨logged, rest⟩ := inside rfl rfl
      (.variant unguarded (solid.resolve_left nofun) unlisted kind alone)
    refine ⟨List.forall_mem_cons.mpr ⟨⟨fun _ => ⟨rfl, rfl, unguarded⟩, fun other => ?_⟩, logged⟩,
      rest⟩
    exact absurd rfl other
  | done => cases visit
  | next => cases visit

/-- How an expansion stands to the levels of the top-level visits: `level` says at which depth each
node is expanded, at the top or behind a guard there. -/
structure Levelled (arena : SchemaArena) (root : SchemaId) (level : SchemaId → Nat)
    (x : Expansion) : Prop where
  top : x.slot = [] →
    x.typed = false ∧ arena.Unguarded root x.schema x.place ∧ x.place.depth = level x.schema
  inner : x.slot ≠ [] → ∃ m q, arena.Unguarded root m q ∧
    arena.acceptsNull (arena.node m) = true ∧ q.depth = level x.schema ∧
      Relation.ReflTransGen arena.Needs m x.schema
  variant : ∀ child, soleVariant? arena (arena.node x.schema) = some child →
    level child ≤ level x.schema
  needs : ∀ child, arena.Needs x.schema child → level child ≤ level x.schema + 1

/-- A queue in the order of the levels, which takes in one level and the next. -/
structure Spread (k : Nat) (queue : List (SchemaId × Locator)) : Prop where
  sorted : queue.Pairwise fun a b => a.2.depth ≤ b.2.depth
  low : ∀ entry ∈ queue, k ≤ entry.2.depth
  high : ∀ entry ∈ queue, entry.2.depth ≤ k + 1

theorem Spread.next {k : Nat} {queue deeper : List (SchemaId × Locator)}
    (spread : Spread k ((id, place) :: queue))
    (added : ∀ entry ∈ deeper, entry.2.depth = place.depth + 1) :
    Spread place.depth (queue ++ deeper) := by
  obtain ⟨ahead, sorted⟩ := List.pairwise_cons.mp spread.sorted
  have high : ∀ entry ∈ queue, entry.2.depth ≤ place.depth + 1 := fun entry member => by
    have low := spread.low _ List.mem_cons_self
    have high := spread.high entry (List.mem_cons_of_mem _ member)
    dsimp only at low
    omega
  refine ⟨List.pairwise_append.mpr ⟨sorted, ?_, fun entry old other new => ?_⟩,
    List.forall_mem_append.mpr ⟨ahead, fun entry new => ?_⟩,
    List.forall_mem_append.mpr ⟨high, fun entry new => (added entry new).le⟩⟩
  · refine List.pairwise_of_forall_mem_list fun entry first other last => ?_
    rw [added entry first, added other last]
  · rw [added other new]
    exact high entry old
  · rw [added entry new]
    exact Nat.le_succ _

/-- All that a top-level visit expands is of the level of its place, and what is needed next is of
that level or of the one below. -/
theorem Run.levelled {level : SchemaId → Nat}
    (visit : Run arena (.visit id place false) [] d e log) (here : arena.Unguarded root id place)
    (depths : ∀ x ∈ log, level x.schema = place.depth)
    (visited : ∀ id ∈ e.visited, level id ≤ place.depth)
    (queued : ∀ entry ∈ e.queue, level entry.1 ≤ place.depth + 1) :
    ∀ x ∈ log, Levelled arena root level x := by
  intro x member
  obtain ⟨logged, -⟩ := visit.surface rfl rfl here
  obtain ⟨flat, nested⟩ := logged x member
  have depth := depths x member
  refine ⟨fun empty => ?_, fun filled => ?_, fun child sole => ?_, fun child needs => ?_⟩
  · obtain ⟨untyped, site, unguarded⟩ := flat empty
    rw [site, depth]
    exact ⟨untyped, unguarded, rfl⟩
  · obtain ⟨m, unguarded, nullable, leads⟩ := nested filled
    exact ⟨m, place, unguarded, nullable, depth.symm, leads⟩
  · rw [depth]
    exact visited child (visit.variants x member child sole)
  · rw [depth]
    rcases visit.needs x member child needs with met | ⟨entry, ahead, rfl⟩
    · exact Nat.le_succ_of_le (visited child met)
    · exact queued entry ahead

/-- Draining the top-level queue expands the nodes level by level. -/
theorem Run.levels (root : SchemaId) (run : Run arena task slot d e log) (drains : task = .drain)
    (top : slot = []) {k : Nat} (spread : Spread k d.queue)
    (unguarded : ∀ entry ∈ d.queue, arena.Unguarded root entry.1 entry.2)
    (level : SchemaId → Nat) (before : ∀ id ∈ d.visited, level id ≤ k) :
    ∃ after : SchemaId → Nat, (∀ id ∈ d.visited, after id = level id) ∧
      (∀ entry ∈ d.queue, after entry.1 ≤ entry.2.depth) ∧
        ∀ x ∈ log, Levelled arena root after x := by
  induction run generalizing k level with
  | again => cases drains
  | guarded => cases drains
  | plain => cases drains
  | variant => cases drains
  | done empty => exact ⟨level, fun _ _ => rfl, by rw [empty]; exact nofun, nofun⟩
  | @next id place queue slot d e f first later ahead visit drain _ behind =>
    subst top
    rw [ahead] at spread unguarded
    obtain ⟨here, others⟩ := List.forall_mem_cons.mp unguarded
    obtain ⟨-, deeper, grown, opened⟩ := visit.surface rfl rfl here
    have low : k ≤ place.depth := spread.low _ List.mem_cons_self
    -- all that this visit expands is of the level of its place
    let now : SchemaId → Nat := fun id => if id ∈ d.visited then level id else place.depth
    have seen : ∀ id ∈ e.visited, now id ≤ place.depth := fun id _ => by
      by_cases old : id ∈ d.visited
      · simp only [now, old, if_true]
        exact Nat.le_trans (before id old) low
      · simp only [now, old, if_false]
        exact Nat.le_refl _
    have start : ∀ id ∈ d.visited, now id = level id := fun id old => if_pos old
    have depths : ∀ x ∈ first, now x.schema = place.depth := fun x member =>
      if_neg (visit.fresh x member)
    have onward : Spread place.depth e.queue := by
      rw [grown]
      exact spread.next fun entry member => (opened entry member).2
    obtain ⟨after, same, reached, rest⟩ := behind rfl rfl onward (by
      rw [grown]
      exact List.forall_mem_append.mpr ⟨others, fun entry member => (opened entry member).1⟩)
      now seen
    have bounded : ∀ id ∈ e.visited, after id ≤ place.depth := fun id visited => by
      rw [same id visited]
      exact seen id visited
    have levelled : ∀ x ∈ first, Levelled arena root after x := by
      refine visit.levelled here (fun x member => ?_) bounded fun entry queued =>
        Nat.le_trans (reached entry queued) (onward.high entry queued)
      exact (same _ (visit.mem_visited.mpr (Or.inl ⟨x, member, rfl⟩))).trans (depths x member)
    refine ⟨after, fun id old => ?_, ?_, List.forall_mem_append.mpr ⟨levelled, rest⟩⟩
    · rw [same id (visit.visited_subset old), start id old]
    · rw [ahead]
      refine List.forall_mem_cons.mpr ⟨bounded id visit.reaches.1, fun entry member => ?_⟩
      exact reached entry (grown ▸ List.mem_append_left _ member)

theorem Settles.check (settles : Settles arena out d settled log) {check : Check}
    (member : .check place check ∈ out) : .check place check ∈ settled := by
  induction settles with
  | done => exact member
  | next _ _ _ behind => exact behind (mem_install member)

theorem needed_of_unguarded (unguarded : arena.Unguarded root id place) :
    Relation.ReflTransGen arena.Needs root id := by
  induction unguarded with
  | root => exact .refl
  | key _ _ unlisted kind declared required ih =>
    exact ih.tail (.property unlisted kind declared required)
  | variant _ _ unlisted kind sole ih => exact ih.tail (.variant unlisted kind sole)

/-- A node is expanded no deeper than at any unguarded place of it. -/
theorem level_le {level : SchemaId → Nat} (start : level root = 0)
    (levels : ∀ x ∈ log, Levelled arena root level x)
    (needed : ∀ id, Relation.ReflTransGen arena.Needs root id → ∃ x ∈ log, x.schema = id)
    (unguarded : arena.Unguarded root id place) : level id ≤ place.depth := by
  induction unguarded with
  | root => exact start.le
  | @key id child place key above solid unlisted kind declared required ih =>
    obtain ⟨x, member, rfl⟩ := needed id (needed_of_unguarded above)
    have step := (levels x member).needs child (.property unlisted kind declared required)
    have depth : (place.key key).depth = place.depth + 1 := by simp [Locator.depth, Locator.key]
    omega
  | @variant id child place above solid unlisted kind sole ih =>
    obtain ⟨x, member, rfl⟩ := needed id (needed_of_unguarded above)
    have step := (levels x member).variant child (soleVariant?_eq_some.mpr ⟨unlisted, kind, sole⟩)
    exact Nat.le_trans step ih

end Derivation

namespace SchemaArena

open HttpPlan.Derivation

variable {arena : SchemaArena} {root : SchemaId}

/-- A node with an unguarded place is expanded once, before the body of any guard for presence. The
expansion is at an unguarded place no deeper, with all checks in the top-level list, unless it is
behind a guard against null: then a nullable node at an unguarded place no deeper needs the node. -/
theorem assertions_unguarded (closed : arena.Closed) (bound : root < arena.size) :
    ∃ first later, Derives arena root (arena.assertions root) first later ∧
      ∀ id place, arena.Unguarded root id place → ∃ x ∈ first, x.schema = id ∧
        (∀ y ∈ first ++ later, y.schema = id → y = x) ∧
        (x.slot = [] → arena.Unguarded root id x.place ∧ x.place.depth ≤ place.depth ∧
          ∀ check ∈ ownChecks arena (arena.node id) false,
            .check x.place check ∈ arena.assertions root) ∧
        (x.slot ≠ [] → ∃ m q, arena.Unguarded root m q ∧
          arena.acceptsNull (arena.node m) = true ∧ q.depth ≤ place.depth ∧
            Relation.ReflTransGen arena.Needs m id) := by
  obtain ⟨first, later, derives⟩ := derives_assertions closed bound
  have distinct := derives.expands.1
  refine ⟨first, later, derives, fun id place unguarded => ?_⟩
  obtain ⟨d, settled, run, settles, list⟩ := derives
  have visited : ∀ id, id ∈ d.visited → ∃ x ∈ first, x.schema = id := fun id seen =>
    (run.mem_visited.mp seen).resolve_right List.not_mem_nil
  have needed : ∀ id, Relation.ReflTransGen arena.Needs root id → ∃ x ∈ first, x.schema = id := by
    intro id reached
    induction reached with
    | refl => exact visited root (run.reaches.2 rfl (root, .root) (List.mem_singleton.mpr rfl))
    | tail _ needs ih =>
      obtain ⟨x, member, rfl⟩ := ih
      exact visited _ (run.needs_visited member needs)
  have spread : Spread 0 [(root, Locator.root)] :=
    ⟨List.pairwise_singleton _ _, fun _ _ => Nat.zero_le _,
      List.forall_mem_singleton.mpr (Nat.zero_le _)⟩
  obtain ⟨level, -, start, levels⟩ := run.levels root rfl rfl spread
    (List.forall_mem_singleton.mpr .root) (fun _ => 0) nofun
  have zero : level root = 0 := Nat.le_zero.mp (start (root, .root) (List.mem_singleton.mpr rfl))
  have depth := level_le zero levels needed unguarded
  obtain ⟨x, member, rfl⟩ := needed id (needed_of_unguarded unguarded)
  obtain ⟨top, inner, -, -⟩ := levels x member
  refine ⟨x, member, rfl, fun y inside same => ?_, fun empty => ?_, fun filled => ?_⟩
  · exact List.inj_on_of_nodup_map distinct inside (List.mem_append_left _ member) same
  · obtain ⟨untyped, here, same⟩ := top empty
    refine ⟨here, same ▸ depth, fun check own => ?_⟩
    rw [list]
    exact mem_prune (settles.check (run.writes x member empty check (untyped ▸ own)))
  · obtain ⟨m, q, here, nullable, same, leads⟩ := inner filled
    exact ⟨m, q, here, nullable, same ▸ depth, leads⟩

/-- A text that is optional at one place, required at another and the item of a list at a third. -/
def reused : SchemaArena :=
  ⟨[{ kind := .typed .object, properties := .ofList [("note", 1), ("tags", 2), ("name", 1)],
      required := .ofList ["tags", "name"] },
    { kind := .typed .string, minLength := some 1 },
    { kind := .typed .array, items := some 1 }]⟩

theorem assertions_unguarded_reused : reused.Closed ∧ 0 < reused.size ∧
    reused.Unguarded 0 1 (Locator.root.key "name") ∧ ∃ place, place.depth ≤ 1 ∧
      .check place (.lengthBound (some 1) none) ∈ reused.assertions 0 := by
  have closed : reused.Closed := by
    unfold Closed SchemaNode.Below
    decide
  have required : reused.Unguarded 0 1 (Locator.root.key "name") :=
    .key .root rfl rfl rfl (show ("name", 1) ∈ (reused.node 0).properties.entries by decide)
      (by decide)
  have solid : ∀ id, reused.acceptsNull (reused.node id) = false :=
    forall_node (P := fun node => reused.acceptsNull node = false) rfl (by decide)
  obtain ⟨first, later, -, expanded⟩ := assertions_unguarded closed (show 0 < reused.size by decide)
  obtain ⟨x, -, -, -, top, inner⟩ := expanded 1 _ required
  have flat : x.slot = [] := by
    by_contra filled
    obtain ⟨m, q, -, nullable, -⟩ := inner filled
    cases (solid m).symm.trans nullable
  obtain ⟨-, depth, checks⟩ := top flat
  exact ⟨closed, by decide, required, x.place, depth, checks _ (by decide)⟩

/-- A text that an object requires, and so does a nullable object beside it. -/
def shadowed : SchemaArena :=
  ⟨[{ kind := .typed .object, properties := .ofList [("a", 1), ("b", 2)],
      required := .ofList ["a", "b"] },
    { kind := .typed .object, nullable := true, properties := .ofList [("x", 2)],
      required := .ofList ["x"] },
    { kind := .typed .string, minLength := some 1 }]⟩

theorem required_use_shallow : shadowed.Closed ∧ shadowed.Unguarded 0 2 (Locator.root.key "b") ∧
    shadowed.acceptsNull (shadowed.node 2) = false ∧
    .lengthBound (some 1) none ∈ ownChecks shadowed (shadowed.node 2) false ∧
    ∀ place, .check place (.lengthBound (some 1) none) ∉ shadowed.assertions 0 := by
  have closed : shadowed.Closed := by
    unfold Closed SchemaNode.Below
    decide
  have required : shadowed.Unguarded 0 2 (Locator.root.key "b") :=
    .key .root rfl rfl rfl
      (show ("b", 2) ∈ (shadowed.node 0).properties.entries by decide) (by decide)
  have list : shadowed.assertions 0 =
      [.check .root (.isType [.object]), .check .root (.hasRequiredKeys ["a", "b"]),
        .check (Locator.root.key "a") (.isType [.object, .null]),
        .guarded (Locator.root.key "a") .ifNotNull
          [.check (Locator.root.key "a") (.hasRequiredKeys ["x"]),
            .check ((Locator.root.key "a").key "x") (.isType [.string]),
            .check ((Locator.root.key "a").key "x") (.lengthBound (some 1) none)],
        .check (Locator.root.key "b") (.isType [.string])] := by rfl
  refine ⟨closed, required, rfl, by decide, fun place => ?_⟩
  rw [list]
  simp

end SchemaArena

end HttpPlan
