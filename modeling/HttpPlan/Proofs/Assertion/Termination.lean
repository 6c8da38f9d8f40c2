import HttpPlan.Proofs.Assertion.Bounds
import HttpPlan.Proofs.Assertion.Run

/-! Every derivation from a closed arena comes to an end, cycles or not: with the steps that are
granted, no visit is cut short. What the nodes not yet visited may cost pays for each visit that is
queued or deferred, and a visit to a node for the first time has steps to spare. -/
namespace HttpPlan

namespace Derivation

variable {arena : SchemaArena} {root id other : SchemaId} {place : Locator} {typed : Bool}
  {slot : List Nat} {d e : Draft} {fuel steps : Nat} {task : Task} {log : List Expansion}

theorem Run.inRange (closed : arena.Closed) (run : Run arena task slot d e log)
    (here : task.Meets (· < arena.size)) (bound : d.InRange arena.size) :
    (∀ x ∈ log, x.schema < arena.size) ∧ e.InRange arena.size := by
  obtain ⟨logged, queued, owed⟩ := run.within (P := (· < arena.size)) (Q := (· < arena.size))
    (fun id child _ needs => closed.below_node id child needs.child_mem)
    (fun id child _ defers => closed.below_node id child defers.child_mem) here bound.queue
    bound.deferred
  exact ⟨logged, queued, owed⟩

/-- What a visit to a node for the first time has to spare. -/
def Task.gain : Task → List SchemaId → Nat
  | .visit id _ _, visited => if id ∈ visited then 0 else 5
  | .drain, _ => 0

/-- Visits that are queued or deferred are paid for by the nodes that call for them. -/
theorem Run.spent (run : Run arena task slot d e log) (small : ∀ x ∈ log, x.schema < arena.size) :
    unspent arena e.visited + e.queue.length + e.deferred.length + task.gain d.visited ≤
      unspent arena d.visited + (task.keeps d.queue).length + d.deferred.length := by
  induction run with
  | again seen => simp [Task.gain, Task.keeps, seen, Draft.check]
  | @guarded id place slot d start opened body first later fresh _ begun _ _ inside behind =>
    subst begun
    obtain ⟨ahead, last⟩ := List.forall_mem_append.mp small
    have inside := inside ahead
    have behind := behind last
    simp only [Task.gain, Task.keeps, Draft.inner, Draft.wrap, Draft.check, List.length_nil, fresh,
      if_false] at inside behind ⊢
    omega
  | @plain id place typed slot d fresh =>
    obtain ⟨owed, grown, entries⟩ := (opens_here arena id place typed slot d).deferred
    rw [(opens_here ..).visited, (opens_here ..).queue, grown]
    have spent := unspent_visit (small _ (List.mem_singleton.mpr rfl)) fresh
    have few := Nat.le_trans (visits_length (arena.node id) place)
      SchemaNode.branches_length
    have owes := congrArg List.length entries
    simp only [List.length_append, List.length_map, Task.gain, Task.keeps, Draft.check, Draft.mark,
      fresh, if_false] at *
    omega
  | @variant id other place typed slot d e log fresh _ _ _ inside =>
    obtain ⟨here, rest⟩ := List.forall_mem_cons.mp small
    have spent := unspent_visit here fresh
    have inside := inside rest
    simp only [Task.gain, Task.keeps, Draft.mark, fresh, if_false] at *
    omega
  | done empty => simp [Task.gain, Task.keeps, empty]
  | next _ visit _ inside behind =>
    obtain ⟨ahead, last⟩ := List.forall_mem_append.mp small
    have inside := inside ahead
    have behind := behind last
    have kept := visit.queue.1.length_le
    simp only [Task.gain, Task.keeps, List.length_nil] at *
    omega

/-- With enough steps, visits are runs. -/
structure Traced (arena : SchemaArena) (fuel : Nat) : Prop where
  visit : ∀ id place typed slot d, id < arena.size → d.InRange arena.size →
    unspent arena d.visited + (if typed then 1 else 2) ≤ fuel →
      ∃ log, Run arena (.visit id place typed) slot d (visit arena fuel id place typed slot d) log
  drain : ∀ slot d, d.InRange arena.size →
    unspent arena d.visited + d.queue.length + 2 ≤ fuel →
      ∃ log, Run arena .drain slot d (drain arena fuel slot d) log

theorem drain_traced (closed : arena.Closed) (traced : Traced arena fuel)
    (bound : d.InRange arena.size)
    (enough : unspent arena d.visited + d.queue.length + 2 ≤ fuel + 1) :
    ∃ log, Run arena .drain slot d (drain arena (fuel + 1) slot d) log := by
  rw [drain]
  cases ahead : d.queue with
  | nil => exact ⟨[], .done ahead⟩
  | cons entry queue =>
    obtain ⟨id, place⟩ := entry
    dsimp only
    rw [ahead, List.length_cons] at enough
    obtain ⟨here, others⟩ := List.forall_mem_cons.mp (ahead ▸ bound.queue)
    have rest : ({ d with queue } : Draft).InRange arena.size := ⟨others, bound.deferred⟩
    obtain ⟨first, visit⟩ := traced.visit id place false slot { d with queue } here rest (by
      simp only [Bool.false_eq_true, if_false]
      omega)
    obtain ⟨small, onward⟩ := visit.inRange closed here rest
    have spent := visit.spent small
    have owed := visit.deferred.length_le
    simp only [Task.keeps] at spent owed
    obtain ⟨later, drain⟩ := traced.drain slot _ onward (by omega)
    exact ⟨_, .next ahead visit drain⟩

theorem guarded_traced (closed : arena.Closed) (traced : Traced arena fuel) (here : id < arena.size)
    (bound : d.InRange arena.size) (fresh : id ∉ d.visited)
    (nullable : arena.acceptsNull (arena.node id) = true)
    (enough : unspent arena d.visited + 2 ≤ fuel + 1) : ∃ log,
      Run arena (.visit id place false) slot d (visit arena (fuel + 1) id place false slot d)
        log := by
  rw [visit_guarded fresh nullable]
  let start := d.check place (shallowChecks arena (arena.node id) false)
  have inner : start.inner.InRange arena.size := ⟨nofun, bound.deferred⟩
  have few : unspent arena start.inner.visited + 2 ≤ fuel + 1 := enough
  obtain ⟨first, visit⟩ := traced.visit id place true (slot ++ [start.out.length]) start.inner here
    inner (by
      simp only [if_true]
      omega)
  obtain ⟨small, onward⟩ := visit.inRange closed here inner
  have spent := visit.spent small
  have unseen : id ∉ start.inner.visited := fresh
  have empty : start.inner.queue.length = 0 := rfl
  have owed := visit.deferred.length_le
  simp only [Task.gain, unseen, if_false, Task.keeps] at spent owed few
  obtain ⟨later, drain⟩ := traced.drain (slot ++ [start.out.length]) _ onward (by omega)
  exact ⟨_, .guarded fresh nullable rfl visit drain⟩

theorem visit_traced (closed : arena.Closed) (traced : Traced arena fuel) (here : id < arena.size)
    (bound : d.InRange arena.size)
    (enough : unspent arena d.visited + (if typed then 1 else 2) ≤ fuel + 1) : ∃ log,
      Run arena (.visit id place typed) slot d (visit arena (fuel + 1) id place typed slot d)
        log := by
  by_cases seen : id ∈ d.visited
  · rw [visit_again seen]
    exact ⟨[], .again seen⟩
  by_cases solid : typed ∨ arena.acceptsNull (arena.node id) = false
  · cases sole : soleVariant? arena (arena.node id) with
    | none =>
      rw [visit_plain seen solid sole]
      exact ⟨_, .plain seen solid sole⟩
    | some other =>
      rw [visit_variant seen solid sole]
      have needs : arena.Needs id other := (needs_iff place).mpr (Or.inl sole)
      have inside : other < arena.size := closed.below_node id other needs.child_mem
      have spent := unspent_visit here seen
      obtain ⟨log, visit⟩ := traced.visit other place typed slot (d.mark id) inside
        ⟨bound.queue, bound.deferred⟩ (by
          simp only [Draft.mark]
          omega)
      exact ⟨_, .variant seen solid sole visit⟩
  · obtain ⟨untyped, nullable⟩ := not_or.mp solid
    rw [Bool.not_eq_true] at untyped
    subst untyped
    exact guarded_traced closed traced here bound seen (Bool.not_eq_false _ |>.mp nullable) enough

theorem traced (closed : arena.Closed) (fuel : Nat) : Traced arena fuel := by
  induction fuel with
  | zero =>
    refine ⟨fun id place typed slot d here bound enough => ?_, fun slot d bound enough => by omega⟩
    cases typed <;> simp at enough
  | succ fuel ih =>
    exact ⟨fun _ _ _ _ _ here bound enough => visit_traced closed ih here bound enough,
      fun _ _ bound enough => drain_traced closed ih bound enough⟩

/-- The list that the derivation starts with is written in full, with steps to spare. -/
theorem start_traced (closed : arena.Closed) (bound : root < arena.size)
    (begun : e = expand arena (budget arena) root .root [] {}) :
    ∃ log, Run arena .drain [] { queue := [(root, .root)] } e log ∧ e.InRange arena.size ∧
      unspent arena e.visited + 3 ≤ budget arena ∧
        unspent arena e.visited + e.deferred.length ≤ budget arena := by
  have steps : budget arena = unspent arena [] + 4 := budget_eq
  have start : ({ queue := [(root, .root)] } : Draft).InRange arena.size :=
    ⟨List.forall_mem_singleton.mpr bound, nofun⟩
  obtain ⟨log, run⟩ := (traced closed (budget arena)).drain [] { queue := [(root, .root)] } start
    (by
      simp only [List.length_singleton]
      omega)
  replace run : Run arena .drain [] { queue := [(root, .root)] } e log := begun ▸ run
  obtain ⟨small, onward⟩ := run.inRange closed trivial start
  have spent := run.spent small
  simp only [Task.keeps, Task.gain, List.length_nil] at spent
  exact ⟨log, run, onward, by omega, by omega⟩

/-- So is the body of a deferred guard, and there is less left to do after it. -/
theorem body_traced {next : Deferred} {deferred : List Deferred} (closed : arena.Closed)
    (bound : d.InRange arena.size) (enough : unspent arena d.visited + 3 ≤ steps)
    (ahead : d.deferred = next :: deferred)
    (body : e = expand arena steps next.schema next.place next.slot { d with deferred }) :
    ∃ log, Run arena .drain next.slot { d with deferred, out := [], queue := [next.entry] } e log ∧
      e.InRange arena.size ∧ unspent arena e.visited + 3 ≤ steps ∧
        unspent arena e.visited + e.deferred.length < unspent arena d.visited + d.deferred.length := by
  obtain ⟨here, others⟩ := List.forall_mem_cons.mp (ahead ▸ bound.deferred)
  have start : ({ d with deferred, out := [], queue := [next.entry] } : Draft).InRange
      arena.size := ⟨List.forall_mem_singleton.mpr here, others⟩
  obtain ⟨log, run⟩ := (traced closed steps).drain next.slot
    { d with deferred, out := [], queue := [next.entry] } start enough
  replace run : Run arena .drain next.slot
    { d with deferred, out := [], queue := [next.entry] } e log := body ▸ run
  obtain ⟨small, onward⟩ := run.inRange closed trivial start
  have spent := run.spent small
  have owed := run.deferred.length_le
  simp only [Task.keeps, Task.gain, List.length_nil] at spent owed
  refine ⟨log, run, onward, by omega, ?_⟩
  rw [ahead, List.length_cons]
  omega

theorem settle_traced (out : List Assertion) (closed : arena.Closed) (bound : d.InRange arena.size)
    (enough : unspent arena d.visited + 3 ≤ steps)
    (room : unspent arena d.visited + d.deferred.length ≤ fuel) :
    ∃ log, Settles arena out d (settle arena steps fuel out d) log := by
  induction fuel generalizing out d with
  | zero =>
    have none : d.deferred = [] := List.length_eq_zero_iff.mp (by omega)
    exact ⟨[], .done none⟩
  | succ fuel ih =>
    rw [settle]
    cases ahead : d.deferred with
    | nil => exact ⟨[], .done ahead⟩
    | cons next deferred =>
      obtain ⟨first, body, onward, still, less⟩ := body_traced closed bound enough ahead rfl
      obtain ⟨later, rest⟩ := ih _ onward still (by omega)
      exact ⟨_, .next ahead body rest⟩

end Derivation

open HttpPlan.Derivation in
/-- The assertions of a schema are derived in finitely many steps. -/
theorem SchemaArena.derives_assertions {arena : SchemaArena} {root : SchemaId}
    (closed : arena.Closed) (bound : root < arena.size) :
    ∃ first later, Derives arena root (arena.assertions root) first later := by
  obtain ⟨first, run, onward, enough, room⟩ := start_traced closed bound rfl
  obtain ⟨later, rest⟩ := settle_traced _ closed onward enough room
  exact ⟨first, later, _, _, run, rest, rfl⟩

end HttpPlan
