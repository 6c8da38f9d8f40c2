import HttpPlan.Proofs.Assertion.Scope

/-! The writing of deferred bodies, step by step. At each step the bodies written so far and those
still owed are matched one to one with the guards for presence by the places that these open, each
at the position noted for it. A body that has been written changes only where guards inside it get
bodies of their own. -/
namespace HttpPlan

namespace Derivation

open Assertion

variable {arena : SchemaArena} {root : SchemaId} {d e : Draft} {out : List Assertion} {fuel : Nat}
  {filled : List (Deferred × List Assertion)} {next δ : Deferred} {deferred : List Deferred}

/-- How far the derivation has come once all that is unguarded is written: the bodies written, oldest
first, with what they were owed for, the list as it stands, and the draft with what is still owed. -/
inductive Settling (arena : SchemaArena) (root : SchemaId) :
    List (Deferred × List Assertion) → List Assertion → Draft → Prop
  | start : Settling arena root [] (expand arena (budget arena) root .root [] {}).out
      (expand arena (budget arena) root .root [] {})
  | next {filled : List (Deferred × List Assertion)} {out : List Assertion} {d e : Draft}
      {next : Deferred} {deferred : List Deferred} (settling : Settling arena root filled out d)
      (ahead : d.deferred = next :: deferred)
      (body : e = expand arena (budget arena) next.schema next.place next.slot { d with deferred }) :
      Settling arena root (filled ++ [(next, e.out)]) (install e.out next.slot out) e

/-- What has become of a body that was written is inside the guard at the noted position, which opens
the place of the body. -/
def Kept (out : List Assertion) (δ : Deferred) (body : List Assertion) : Prop :=
  ∃ target guard now, Sits out δ.slot (.guarded target guard now) ∧ guard ≠ .ifNotNull ∧
    guard.scope target = δ.place ∧ AllGrown body now

theorem awaited_iff : Awaited out δ ↔ Kept out δ [] := by
  constructor
  · rintro ⟨target, guard, sits, presence, opens⟩
    exact ⟨target, guard, [], sits, presence, opens, .nil⟩
  · rintro ⟨target, guard, _, sits, presence, opens, ⟨⟩⟩
    exact ⟨target, guard, sits, presence, opens⟩

theorem Awaited.kept (awaited : Awaited out δ) (inner : List Assertion) :
    Kept (install inner δ.slot out) δ inner := by
  obtain ⟨target, guard, sits, presence, opens⟩ := awaited
  exact ⟨target, guard, inner, sits_filled inner sits, presence, opens, allGrown_refl inner⟩

/-- A guard that opens another place is at another position, so it keeps its body. -/
theorem Kept.beside {body : List Assertion} (kept : Kept out δ body) (awaited : Awaited out next)
    (differ : δ.place ≠ next.place) (inner : List Assertion) :
    Kept (install inner next.slot out) δ body := by
  obtain ⟨other, kind, now, beside, waits, scope, grown⟩ := kept
  obtain ⟨target, guard, sits, -, opens⟩ := awaited
  have elsewhere : next.slot ≠ δ.slot := by
    intro same
    cases sits.unique (same ▸ beside)
    exact differ (scope.symm.trans opens)
  obtain ⟨later, still, onward⟩ := sits_beside inner sits elsewhere beside
  exact ⟨other, kind, later, still, waits, scope, grown.trans onward⟩

/-- The places of the bodies that have been written or are owed. -/
def due (filled : List (Deferred × List Assertion)) (d : Draft) : List Locator :=
  filled.map (·.1.place) ++ d.deferred.map (·.place)

/-- Bodies written and bodies owed, each with the guard that it was created for. -/
structure Matched (filled : List (Deferred × List Assertion)) (out : List Assertion) (d : Draft) :
    Prop where
  /-- The guards for presence are those that a body was written or is owed for. -/
  guards : (allOpenings out).Perm (due filled d)
  /-- No two of them open the same place. -/
  distinct : (due filled d).Nodup
  owed : ∀ δ ∈ d.deferred, Awaited out δ
  written : ∀ entry ∈ filled, Kept out entry.1 entry.2

/-- What each step of writing deferred bodies keeps. -/
structure Orderly (arena : SchemaArena) (filled : List (Deferred × List Assertion))
    (out : List Assertion) (d : Draft) : Prop where
  matched : Matched filled out d
  proper : AllScoped .root out
  separate : Separate (due filled d) (d.deferred.map (·.place))
  inRange : d.InRange arena.size
  enough : unspent arena d.visited + 3 ≤ budget arena

theorem within_root (place : Locator) : place.Within .root := List.nil_prefix

theorem orderly_start (closed : arena.Closed) (bound : root < arena.size)
    (begun : d = expand arena (budget arena) root .root [] {}) : Orderly arena [] d.out d := by
  obtain ⟨log, run, inRange, enough, -⟩ := start_traced closed bound begun
  have alone : Separate ([] ++ ([] : List Locator)) ([] ++ [.root] ++ [] ++ []) :=
    ⟨.nil, List.pairwise_singleton _ _, List.forall_mem_nil _⟩
  have separate : Separate (d.deferred.map (·.place)) (d.deferred.map (·.place)) := by
    have left := run.separate [] [] alone
    rw [Task.agenda, run.drained] at left
    exact left.perm (.refl _) (.of_eq (List.append_nil _))
  obtain ⟨⟨added, owed, written, deferred, proper, guards, awaited⟩, -⟩ :=
    run.continues trivial fun entry _ => within_root entry.2
  have whole : owed.map (Deferred.under []) = owed := List.map_id _
  have written : d.out = added := written
  have deferred : d.deferred = owed := deferred.trans whole
  refine ⟨⟨?_, separate.distinct, ?_, List.forall_mem_nil _⟩, written ▸ proper, separate, inRange,
    enough⟩
  · rw [written, due, deferred]
    exact guards
  · rw [deferred]
    exact awaited

/-- A body goes into the guard that it is owed for, and the others keep theirs. -/
theorem Matched.fill {added : List Assertion} {owed : List Deferred}
    (matched : Matched filled out d) (ahead : d.deferred = next :: deferred)
    (written : e.out = added) (left : e.deferred = deferred ++ owed.map (.under next.slot))
    (distinct : (due (filled ++ [(next, e.out)]) e).Nodup)
    (guards : (allOpenings added).Perm (owed.map (·.place)))
    (awaited : ∀ δ ∈ owed, Awaited added δ) :
    Matched (filled ++ [(next, e.out)]) (install e.out next.slot out) e := by
  subst written
  have waiting := matched.owed
  have known := matched.distinct
  rw [ahead, List.forall_mem_cons] at waiting
  rw [due, ahead, List.map_cons] at known
  obtain ⟨first, others⟩ := waiting
  obtain ⟨-, pending, apart⟩ := List.nodup_append.mp known
  have ⟨target, guard, sits, _⟩ := first
  refine ⟨?_, distinct, ?_, List.forall_mem_append.mpr ⟨fun entry member => ?_, ?_⟩⟩
  · refine (openings_filled sits).trans ((matched.guards.append guards).trans ?_)
    simp only [due, ahead, left, List.map_append, List.map_cons, List.map_map, List.map_nil,
      List.append_assoc, List.cons_append]
    exact .refl _
  · rw [left]
    refine List.forall_mem_append.mpr ⟨fun δ member => ?_, List.forall_mem_map.mpr fun δ member => ?_⟩
    · have differ : δ.place ≠ next.place := fun same =>
        (List.nodup_cons.mp pending).1 (same ▸ List.mem_map_of_mem member)
      exact awaited_iff.mpr ((awaited_iff.mp (others δ member)).beside first differ e.out)
    · exact (awaited δ member).under (sits_filled e.out sits)
  · have place := List.mem_map_of_mem (f := fun entry => entry.1.place) member
    exact (matched.written entry member).beside first (apart _ place _ List.mem_cons_self) e.out
  · exact List.forall_mem_singleton.mpr (first.kept e.out)

theorem Orderly.step (closed : arena.Closed) (orderly : Orderly arena filled out d)
    (ahead : d.deferred = next :: deferred)
    (body : e = expand arena (budget arena) next.schema next.place next.slot { d with deferred }) :
    Orderly arena (filled ++ [(next, e.out)]) (install e.out next.slot out) e := by
  obtain ⟨log, run, inRange, enough, -⟩ :=
    body_traced closed orderly.inRange orderly.enough ahead body
  obtain ⟨target, guard, sits, presence, opens⟩ :=
    orderly.matched.owed next (ahead ▸ List.mem_cons_self)
  have before : Separate (filled.map (·.1.place) ++ [next.place] ++ deferred.map (·.place))
      ([] ++ [next.place] ++ deferred.map (·.place) ++ []) := by
    have separate := orderly.separate
    rw [due, ahead, List.map_cons] at separate
    exact separate.perm (by simp) (by simp)
  have separate : Separate (due (filled ++ [(next, e.out)]) e) (e.deferred.map (·.place)) := by
    have left := run.separate (filled.map (·.1.place) ++ [next.place]) [] before
    rw [Task.agenda, run.drained] at left
    exact left.perm (by simp [due]) (by simp [Task.places])
  obtain ⟨⟨added, owed, written, left, proper, guards, awaited⟩, -⟩ :=
    run.continues trivial (List.forall_mem_singleton.mpr (Locator.within_refl next.place))
  have written : e.out = added := written
  have awaited : ∀ δ ∈ owed, Awaited added δ := written ▸ awaited
  refine ⟨orderly.matched.fill ahead written left separate.distinct guards awaited, ?_, separate,
    inRange, enough⟩
  refine scoped_filled sits orderly.proper ?_
  rw [opens, written]
  exact proper

theorem Settling.orderly (closed : arena.Closed) (bound : root < arena.size)
    (settling : Settling arena root filled out d) : Orderly arena filled out d := by
  induction settling with
  | start => exact orderly_start closed bound rfl
  | next _ ahead body ih => exact ih.step closed ahead body

/-- With enough steps, the writing of bodies goes on until none is owed. -/
theorem Settling.settles (closed : arena.Closed) (bound : root < arena.size)
    (settling : Settling arena root filled out d)
    (room : unspent arena d.visited + d.deferred.length ≤ fuel) :
    ∃ all e, Settling arena root all (settle arena (budget arena) fuel out d) e ∧
      e.deferred = [] := by
  induction fuel generalizing filled out d with
  | zero =>
    have none : d.deferred = [] := List.length_eq_zero_iff.mp (by omega)
    exact ⟨filled, d, settling, none⟩
  | succ fuel ih =>
    rw [settle]
    cases ahead : d.deferred with
    | nil => exact ⟨filled, d, settling, ahead⟩
    | cons next deferred =>
      have orderly := settling.orderly closed bound
      obtain ⟨-, -, -, -, less⟩ := body_traced closed orderly.inRange orderly.enough ahead rfl
      exact ih (settling.next ahead rfl) (by omega)

end Derivation

namespace SchemaArena

open HttpPlan.Derivation HttpPlan.Assertion

variable {arena : SchemaArena} {root : SchemaId}

/-- Derived guards have bodies, which are about what the guard makes sure of. They are written one
by one, each into the guard that it was left for and that is still empty, until none is owed. -/
theorem assertions_guarded (closed : arena.Closed) (bound : root < arena.size) :
    (∀ target guard body, Occurs (arena.assertions root) (.guarded target guard body) →
      body ≠ [] ∧ ∀ a, Occurs body a → a.target.Within (guard.scope target)) ∧
    (∀ filled out d, Settling arena root filled out d → Matched filled out d) ∧
    ∃ filled out d, Settling arena root filled out d ∧ d.deferred = [] ∧
      arena.assertions root = prune out := by
  obtain ⟨-, -, -, -, room⟩ := start_traced closed bound rfl
  obtain ⟨filled, d, settling, empty⟩ := Settling.start.settles closed bound room
  have proper := (settling.orderly closed bound).proper
  exact ⟨fun _ _ _ occurs => prune_guards proper occurs,
    fun _ _ _ settling => (settling.orderly closed bound).matched, filled, _, d, settling, empty,
    rfl⟩

theorem assertions_guarded_tangled : tangled.Closed ∧ 0 < tangled.size ∧
    (∀ target guard body, Occurs (tangled.assertions 0) (.guarded target guard body) →
      body ≠ [] ∧ ∀ a, Occurs body a → a.target.Within (guard.scope target)) ∧
    ∃ filled out d, Settling tangled 0 filled out d ∧ Matched filled out d ∧ d.deferred = [] ∧
      tangled.assertions 0 = prune out := by
  have closed : tangled.Closed := by
    unfold Closed SchemaNode.Below
    decide
  have bound : 0 < tangled.size := by decide
  obtain ⟨guards, matched, filled, out, d, settling, empty, left⟩ := assertions_guarded closed bound
  exact ⟨closed, bound, guards, filled, out, d, settling, matched _ _ _ settling, empty, left⟩

/-- Two of the guards are inside one against null, which was put down after them. -/
example : (expand tangled (budget tangled) 0 .root [] {}).deferred.map (·.slot) =
    [[2], [3], [5, 0], [5, 1]] := by decide

end SchemaArena

end HttpPlan
