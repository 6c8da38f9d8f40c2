import HttpPlan.Proofs.Assertion.Extent
import HttpPlan.Proofs.Assertion.Position

/-! What a run of visits adds to a list. It is about nothing outside the place that the run is about,
and each guard for presence in it has a body owed for it, with the position where the guard is found.
No two such guards open the same place, so the place tells for which guard a body is owed. -/
namespace HttpPlan

namespace Derivation

open Assertion

variable {arena : SchemaArena} {node : SchemaNode} {root id : SchemaId} {place outer : Locator}
  {slot : List Nat} {d e f : Draft} {task : Task} {log : List Expansion}
  {list out : List Assertion} {δ : Deferred} {opened pending : List Locator}

/-- A body owed inside the guard at a position. -/
def Deferred.under (slot : List Nat) (δ : Deferred) : Deferred := { δ with slot := slot ++ δ.slot }

/-- The guard at the noted position is without a body, and it opens the place of the owed one. -/
def Awaited (list : List Assertion) (δ : Deferred) : Prop :=
  ∃ target guard, Sits list δ.slot (.guarded target guard []) ∧ guard ≠ .ifNotNull ∧
    guard.scope target = δ.place

theorem Awaited.append {more : List Assertion} (awaited : Awaited list δ) :
    Awaited (list ++ more) δ := by
  obtain ⟨target, guard, sits, opens⟩ := awaited
  exact ⟨target, guard, sits.append, opens⟩

theorem Awaited.under {target : Locator} {guard : Guard} {body : List Assertion}
    (awaited : Awaited body δ) (sits : Sits list slot (.guarded target guard body)) :
    Awaited list (δ.under slot) := by
  obtain ⟨place, kind, inside, opens⟩ := awaited
  exact ⟨place, kind, sits.under inside, opens⟩

/-- One draft goes on from another in the list at a position. What it adds is about a place, and the
guards for presence in it are those that it owes bodies for. -/
def Continues (outer : Locator) (slot : List Nat) (d e : Draft) : Prop :=
  ∃ (added : List Assertion) (owed : List Deferred), e.out = d.out ++ added ∧
    e.deferred = d.deferred ++ owed.map (.under slot) ∧ AllScoped outer added ∧
      (allOpenings added).Perm (owed.map (·.place)) ∧ ∀ δ ∈ owed, Awaited e.out δ

theorem continues_refl : Continues outer slot d d :=
  ⟨[], [], by simp, by simp, trivial, .nil, nofun⟩

theorem Continues.trans (first : Continues outer slot d e) (last : Continues outer slot e f) :
    Continues outer slot d f := by
  obtain ⟨added, owed, out, deferred, proper, matched, awaited⟩ := first
  obtain ⟨more, further, out', deferred', proper', matched', awaited'⟩ := last
  refine ⟨added ++ more, owed ++ further, by simp [out', out], by simp [deferred', deferred],
    allScoped_append.mpr ⟨proper, proper'⟩, ?_, List.forall_mem_append.mpr ⟨?_, awaited'⟩⟩
  · rw [allOpenings_append, List.map_append]
    exact matched.append matched'
  · rw [out']
    exact fun δ member => (awaited δ member).append

theorem openings_checks {checks : List Check} : allOpenings (checks.map (.check place)) = [] := by
  induction checks with
  | nil => rfl
  | cons c rest ih => exact ih

theorem continues_check {checks : List Check} (within : place.Within outer) :
    Continues outer slot d (d.check place checks) := by
  refine ⟨checks.map (.check place), [], rfl, (List.append_nil _).symm, ?_, ?_, nofun⟩
  · refine allScoped_iff.mpr fun a member => ?_
    obtain ⟨c, -, rfl⟩ := List.mem_map.mp member
    exact ⟨within, trivial⟩
  · rw [openings_checks]
    exact .nil

theorem continues_defer (guard : Guard) {schema : SchemaId} (within : place.Within outer)
    (presence : guard ≠ .ifNotNull) :
    Continues outer slot d (d.defer slot place guard schema (guard.scope place)) := by
  refine ⟨[.guarded place guard []], [⟨[d.out.length], schema, guard.scope place⟩], rfl, rfl,
    ⟨⟨within, trivial⟩, trivial⟩, ?_, List.forall_mem_singleton.mpr ?_⟩
  · simp [allOpenings, openings, presence]
  · exact ⟨place, guard, sits_concat, presence, rfl⟩

theorem continues_property {entry : String × SchemaId} (within : place.Within outer) :
    Continues outer slot d (property node slot place d entry) := by
  unfold property
  dsimp only
  split
  · exact continues_refl
  · exact continues_defer (.ifPresent entry.1) within nofun

theorem continues_branches (within : place.Within outer) :
    Continues outer slot d (openBranches node slot place d) := by
  have properties : ∀ (entries : List (String × SchemaId)) (d : Draft),
      Continues outer slot d (entries.foldl (property node slot place) d) := by
    intro entries
    induction entries with
    | nil => exact fun d => continues_refl
    | cons entry rest ih => exact fun d => (continues_property within).trans (ih _)
  unfold openBranches
  split
  · exact properties _ d
  · split
    · exact continues_defer .ifNonEmptyArray within nofun
    · exact continues_refl
  · exact continues_refl

/-- The body of a guard against null is written first and put into its list afterwards, at the
position that was foreseen. -/
theorem Continues.wrap {body : Draft}
    (inner : Continues place (slot ++ [d.out.length]) d.inner body) (within : place.Within outer) :
    Continues outer slot d (d.wrap body place) := by
  obtain ⟨added, owed, out, deferred, proper, matched, awaited⟩ := inner
  have written : body.out = added := out
  have sits : Sits (d.wrap body place).out [d.out.length] (.guarded place .ifNotNull body.out) :=
    sits_concat
  refine ⟨[.guarded place .ifNotNull body.out], owed.map (.under [d.out.length]), rfl, ?_, ?_, ?_,
    ?_⟩
  · show body.deferred = _
    rw [deferred, List.map_map]
    simp [Deferred.under, Draft.inner, Function.comp_def]
  · exact ⟨⟨within, written ▸ proper⟩, trivial⟩
  · rw [written, List.map_map]
    simp only [allOpenings, openings, if_true, List.nil_append, List.append_nil]
    exact matched
  · intro δ member
    obtain ⟨ε, known, rfl⟩ := List.mem_map.mp member
    exact (awaited ε known).under sits

def Task.About (outer : Locator) : Task → Prop
  | .visit _ place _ => place.Within outer
  | .drain => True

theorem nextVisits_within {entry : SchemaId × Locator} (member : entry ∈ nextVisits node place) :
    entry.2.Within place := by
  unfold nextVisits at member
  split at member
  · obtain ⟨property, -, rfl⟩ := List.mem_map.mp member
    exact Locator.extend_within
  · cases member

/-- A run about a place adds nothing about others. -/
theorem Run.continues (run : Run arena task slot d e log) (about : task.About outer)
    (queue : ∀ entry ∈ d.queue, entry.2.Within outer) :
    Continues outer slot d e ∧ ∀ entry ∈ e.queue, entry.2.Within outer := by
  induction run generalizing outer with
  | again => exact ⟨continues_check about, queue⟩
  | @guarded id place slot d start opened body first later _ _ begun _ _ inside behind =>
    subst begun
    obtain ⟨visited, queued⟩ := inside (Locator.within_refl place) nofun
    obtain ⟨drained, -⟩ := behind trivial queued
    exact ⟨(continues_check about).trans ((visited.trans drained).wrap about), queue⟩
  | @plain id place typed slot d =>
    refine ⟨(continues_check about).trans (continues_branches about), ?_⟩
    rw [(opens_here ..).queue]
    exact List.forall_mem_append.mpr
      ⟨queue, fun entry member => (nextVisits_within member).trans about⟩
  | variant _ _ _ _ inside => exact inside about queue
  | done => exact ⟨continues_refl, queue⟩
  | next ahead _ _ inside behind =>
    rw [ahead] at queue
    obtain ⟨first, others⟩ := List.forall_mem_cons.mp queue
    obtain ⟨visited, queued⟩ := inside first others
    obtain ⟨drained, left⟩ := behind trivial queued
    exact ⟨Continues.trans visited drained, left⟩

/-- Places opened so far and places still to be visited: none is opened twice, no visit is inside
another, and nothing further inside the place of a visit has been opened. -/
structure Separate (opened pending : List Locator) : Prop where
  distinct : opened.Nodup
  apart : pending.Pairwise fun a b => ¬ a.Within b ∧ ¬ b.Within a
  above : ∀ place ∈ opened, ∀ other ∈ pending, place.Within other → place = other

theorem Separate.perm {twin same : List Locator} (separate : Separate opened pending)
    (left : opened.Perm twin) (right : pending.Perm same) : Separate twin same where
  distinct := left.nodup_iff.mp separate.distinct
  apart := (right.pairwise_iff fun apart => ⟨apart.2, apart.1⟩).mp separate.apart
  above := fun place inside other member =>
    separate.above place (left.mem_iff.mpr inside) other (right.mem_iff.mpr member)

theorem Separate.drop (separate : Separate opened (place :: pending)) : Separate opened pending where
  distinct := separate.distinct
  apart := (List.pairwise_cons.mp separate.apart).2
  above := fun other inside visit member =>
    separate.above other inside visit (List.mem_cons_of_mem _ member)

theorem visits_perm (node : SchemaNode) (place : Locator) :
    (nextVisits node place ++ laterVisits node place).Perm (visitsOf node place) := by
  unfold nextVisits laterVisits visitsOf SchemaNode.branches
  cases node.enumeration with
  | some allowed => exact .nil
  | none =>
    cases node.kind with
    | union => exact .nil
    | unknown => exact .nil
    | typed type =>
      cases type with
      | object =>
        dsimp only
        rw [← List.map_append, List.map_map]
        have parts := List.filter_append_perm (fun entry => decide (entry.1 ∈ node.required))
          node.properties.entries
        simp only [← decide_not] at parts
        exact parts.map _
      | array =>
        dsimp only
        rw [List.nil_append, List.map_map]
        exact .refl _
      | _ => exact .nil

/-- A visit opens places right below its own, and leaves these and others there to be visited. -/
theorem Separate.visit {next later : List Locator} (separate : Separate opened (place :: pending))
    (below : (next ++ later).Perm ((visitsOf node place).map (·.2))) :
    Separate (opened ++ later) (next ++ later ++ pending) := by
  have child : ∀ other ∈ next ++ later, ∃ segment, other = place.extend segment := by
    intro other member
    obtain ⟨entry, visit, rfl⟩ := List.mem_map.mp (below.mem_iff.mp member)
    obtain ⟨branch, -, rfl⟩ := List.mem_map.mp visit
    exact ⟨branch.1, rfl⟩
  have outside : ∀ other ∈ opened, ∀ segment, ¬ other.Within (place.extend segment) := by
    intro other inside segment within
    cases separate.above other inside place List.mem_cons_self (within.trans Locator.extend_within)
    exact Locator.not_within_extend within
  have apart : (next ++ later ++ pending).Pairwise fun a b => ¬ a.Within b ∧ ¬ b.Within a :=
    ((below.append_right pending).pairwise_iff fun apart => ⟨apart.2, apart.1⟩).mpr
      (apart_visit node separate.apart)
  have distinct : (next ++ later).Nodup := by
    refine List.Pairwise.imp ?_ (List.pairwise_append.mp apart).1
    rintro place _ away rfl
    exact away.1 (Locator.within_refl place)
  refine ⟨?_, apart, ?_⟩
  · refine List.nodup_append.mpr ⟨separate.distinct, (List.nodup_append.mp distinct).2.1, ?_⟩
    rintro other inside _ member rfl
    obtain ⟨segment, rfl⟩ := child other (List.mem_append_right _ member)
    exact outside _ inside segment (Locator.within_refl _)
  · intro other inside visit member within
    rcases List.mem_append.mp member with new | old
    · obtain ⟨segment, rfl⟩ := child visit new
      rcases List.mem_append.mp inside with before | just
      · exact absurd within (outside other before segment)
      · obtain ⟨twin, rfl⟩ := child other (List.mem_append_right _ just)
        rw [Locator.extend_inj within]
    · rcases List.mem_append.mp inside with before | just
      · exact separate.above other before visit (List.mem_cons_of_mem _ old) within
      · exact absurd within
          ((List.pairwise_append.mp apart).2.2 other (List.mem_append_right _ just) visit old).1

def Task.places : Task → List Locator
  | .visit _ place _ => [place]
  | .drain => []

/-- The places of all visits that a task is to make or to leave for later. -/
def Task.agenda (task : Task) (d : Draft) : List Locator :=
  task.places ++ d.queue.map (·.2) ++ d.deferred.map (·.place)

/-- A run opens each place once; others may have been opened before, and may be visited after. -/
theorem Run.separate (run : Run arena task slot d e log) (past aside : List Locator)
    (separate : Separate (past ++ d.deferred.map (·.place)) (task.agenda d ++ aside)) :
    Separate (past ++ e.deferred.map (·.place)) (Task.drain.agenda e ++ aside) := by
  induction run generalizing aside with
  | again => exact separate.drop
  | @guarded id place slot d start opened body first later _ _ begun _ drain inside behind =>
    subst begun
    -- the visits queued outside of the body wait with those that come after
    let waiting := d.queue.map (·.2) ++ aside
    have entered : Separate (past ++ d.deferred.map (·.place))
        ([place] ++ [] ++ d.deferred.map (·.place) ++ waiting) := by
      refine separate.perm (.refl _) (List.perm_iff_count.mpr fun other => ?_)
      simp only [Task.agenda, Task.places, waiting, List.count_append, List.count_nil]
      omega
    have left := behind waiting (inside waiting entered)
    refine left.perm (.refl _) (List.perm_iff_count.mpr fun other => ?_)
    simp only [Task.agenda, Task.places, waiting, drain.drained, Draft.wrap, Draft.check,
      List.count_append, List.count_nil, List.map_nil]
    omega
  | @plain id place typed slot d =>
    obtain ⟨owed, grown, entries⟩ := (opens_here arena id place typed slot d).deferred
    have later : (laterVisits (arena.node id) place).map (·.2) = owed.map (·.place) := by
      rw [← entries, List.map_map]
      rfl
    have below := (visits_perm (arena.node id) place).map (·.2)
    rw [List.map_append, later] at below
    have onward := separate.visit below
    have queue := congrArg (List.map (·.2)) (opens_here arena id place typed slot d).queue
    simp only [Draft.check, Draft.mark, List.map_append] at grown queue
    rw [Task.agenda, grown, queue, List.map_append]
    refine onward.perm (.of_eq (List.append_assoc ..)) (List.perm_iff_count.mpr fun other => ?_)
    simp only [Task.places, List.append_eq, List.count_append, List.count_nil]
    omega
  | variant _ _ _ _ inside => exact inside aside separate
  | done => exact separate
  | next ahead _ _ inside behind =>
    refine behind aside (inside aside ?_)
    rwa [Task.agenda, ahead] at separate

end Derivation

end HttpPlan
