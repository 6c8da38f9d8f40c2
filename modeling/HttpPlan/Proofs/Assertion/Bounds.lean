import HttpPlan.Assertion.Derivation
import HttpPlan.Proofs.Schema.Arena
import HttpPlan.Proofs.Schema.Merge

/-! Derivation with every look-up checked: it gives up at the first place that is not in the arena.
On a closed arena it never does, and agrees with the plain derivation. -/
namespace HttpPlan

namespace SchemaArena

/-- The node of a place, if the place is in the arena. -/
def node? (arena : SchemaArena) (id : SchemaId) : Option SchemaNode :=
  if id < arena.size then some (arena.node id) else none

theorem node?_eq {arena : SchemaArena} {id : SchemaId} (inside : id < arena.size) :
    arena.node? id = some (arena.node id) := if_pos inside

/-- Whether a place and the variants of its node, whose kinds are looked at with it, have nodes. -/
def covers (arena : SchemaArena) (id : SchemaId) : Bool :=
  (id :: (arena.node id).variants).all (· < arena.size)

theorem Closed.covers {arena : SchemaArena} {id : SchemaId} (closed : arena.Closed)
    (inside : id < arena.size) : arena.covers id := by
  simp only [SchemaArena.covers, List.all_cons, List.all_eq_true, decide_eq_true_eq,
    Bool.and_eq_true]
  exact ⟨inside, fun v member =>
    closed.below_node id v (SchemaNode.mem_children.mpr (Or.inr (Or.inr member)))⟩

end SchemaArena

namespace Derivation

mutual
def visit? (arena : SchemaArena) :
    Nat → SchemaId → Locator → Bool → List Nat → Draft → Option Draft
  | 0, _, _, _, _, d => some d
  | fuel + 1, id, place, typed, slot, d =>
    if !arena.covers id then none
    else
      let node := arena.node id
      if id ∈ d.visited then
        some (if typed then d else d.emitTypes place (arena.acceptedTypes? node))
      else if !typed && arena.acceptsNull node then do
        let d := d.emitTypes place (arena.acceptedTypes? node)
        let inside := slot ++ [d.out.length]
        let body ← visit? arena fuel id place true inside { d with out := [], queue := [] }
        let body ← drain? arena fuel inside body
        some { body with out := d.out ++ [.guarded place .ifNotNull body.out], queue := d.queue }
      else
        let d := { d with visited := id :: d.visited }
        match node.enumeration with
        | some allowed => some (d.emit place (.enumMembership allowed))
        | none =>
          match node.kind with
          | .typed type => some (typeChecks node type typed slot place d)
          | .unknown => some d
          | .union =>
            match concreteVariants arena node with
            | [variant] => visit? arena fuel variant place typed slot d
            | _ => some (if typed then d else d.emitTypes place (arena.acceptedTypes? node))
def drain? (arena : SchemaArena) : Nat → List Nat → Draft → Option Draft
  | 0, _, d => some d
  | fuel + 1, slot, d =>
    match d.queue with
    | [] => some d
    | (id, place) :: queue => do
      drain? arena fuel slot (← visit? arena fuel id place false slot { d with queue })
end

def expand? (arena : SchemaArena) (fuel : Nat) (schema : SchemaId) (place : Locator)
    (slot : List Nat) (d : Draft) : Option Draft :=
  drain? arena fuel slot { d with out := [], queue := [(schema, place)] }

def settle? (arena : SchemaArena) (steps : Nat) :
    Nat → List Assertion → Draft → Option (List Assertion)
  | 0, out, _ => some out
  | fuel + 1, out, d =>
    match d.deferred with
    | [] => some out
    | next :: deferred => do
      let d ← expand? arena steps next.schema next.place next.slot { d with deferred }
      settle? arena steps fuel (install d.out next.slot out) d

/-- A draft whose pending visits are to places in the arena. -/
structure Draft.InRange (size : Nat) (d : Draft) : Prop where
  queue : ∀ entry ∈ d.queue, entry.1 < size
  deferred : ∀ entry ∈ d.deferred, entry.schema < size

variable {arena : SchemaArena} {size : Nat} {node : SchemaNode} {d : Draft} {slot : List Nat}
  {place : Locator}

theorem Draft.InRange.emit (inRange : d.InRange size) (check : Check) :
    (d.emit place check).InRange size := ⟨inRange.queue, inRange.deferred⟩

theorem Draft.InRange.emitIf (inRange : d.InRange size) (condition : Bool) (place : Locator)
    (check : Check) :
    (Draft.emitIf condition place check d).InRange size := by
  unfold Draft.emitIf
  split
  · exact inRange.emit check
  · exact inRange

theorem Draft.InRange.emitTypes (inRange : d.InRange size) (place : Locator)
    (types : Option (List JsonType)) :
    (d.emitTypes place types).InRange size := by
  cases types with
  | none => exact inRange
  | some types => exact inRange.emit _

theorem Draft.InRange.defer (inRange : d.InRange size) (guard : Guard) {schema : SchemaId}
    (inside : Locator) (bound : schema < size) :
    (d.defer slot place guard schema inside).InRange size where
  queue := inRange.queue
  deferred := fun entry member => by
    rcases List.mem_append.mp member with old | new
    · exact inRange.deferred entry old
    · rw [List.mem_singleton.mp new]; exact bound

theorem Draft.InRange.property (inRange : d.InRange size) {entry : String × SchemaId}
    (bound : entry.2 < size) : (property node slot place d entry).InRange size := by
  unfold Derivation.property
  dsimp only
  split
  · refine ⟨fun visit member => ?_, inRange.deferred⟩
    rcases List.mem_append.mp member with old | new
    · exact inRange.queue visit old
    · rw [List.mem_singleton.mp new]; exact bound
  · exact inRange.defer _ _ bound

theorem Draft.InRange.properties {entries : List (String × SchemaId)} (inRange : d.InRange size)
    (bound : ∀ entry ∈ entries, entry.2 < size) :
    (entries.foldl (Derivation.property node slot place) d).InRange size := by
  induction entries generalizing d with
  | nil => exact inRange
  | cons entry rest ih =>
    exact ih (inRange.property (bound entry (by simp))) fun e member => bound e (by simp [member])

theorem Draft.InRange.typeChecks (inRange : d.InRange size) (below : node.Below size)
    (type : JsonType) (typed : Bool) :
    (typeChecks node type typed slot place d).InRange size := by
  unfold Derivation.typeChecks
  split
  · exact inRange.emit _
  · have start := inRange.emitIf (!typed) place (.isType [type])
    dsimp only
    split
    · refine (start.emitIf _ _ _).properties fun entry member => below entry.2 ?_
      exact SchemaNode.mem_children.mpr (Or.inl (List.mem_map_of_mem member))
    · split
      · next items element =>
        exact start.defer _ _ (below items (SchemaNode.mem_children.mpr (Or.inr (Or.inl element))))
      · exact start
    · unfold Derivation.stringChecks
      dsimp only
      split
      · exact (start.emit _).emitIf _ _ _
      · exact start.emitIf _ _ _
    · exact start.emitIf _ _ _
    · exact start.emitIf _ _ _
    · exact start
    · exact start

/-- The checked visits agree with the plain ones and leave only places of the arena to visit. -/
structure Agrees (arena : SchemaArena) (fuel : Nat) : Prop where
  visit : ∀ id place typed slot d, id < arena.size → d.InRange arena.size →
    visit? arena fuel id place typed slot d = some (visit arena fuel id place typed slot d) ∧
      (visit arena fuel id place typed slot d).InRange arena.size
  drain : ∀ slot d, d.InRange arena.size →
    drain? arena fuel slot d = some (drain arena fuel slot d) ∧
      (drain arena fuel slot d).InRange arena.size

theorem drain_agrees {fuel : Nat} (agrees : Agrees arena fuel) (inRange : d.InRange arena.size) :
    drain? arena (fuel + 1) slot d = some (drain arena (fuel + 1) slot d) ∧
      (drain arena (fuel + 1) slot d).InRange arena.size := by
  cases pending : d.queue with
  | nil =>
    simp only [drain?, drain, pending]
    exact ⟨trivial, inRange⟩
  | cons next queue =>
    obtain ⟨id, place⟩ := next
    have bound : id < arena.size := inRange.queue (id, place) (by simp [pending])
    have rest : ({ d with queue } : Draft).InRange arena.size :=
      ⟨fun entry member => inRange.queue entry (by simp [pending, member]), inRange.deferred⟩
    obtain ⟨same, onward⟩ := agrees.visit id place false slot _ bound rest
    simp only [drain?, drain, pending, same, Option.bind_eq_bind, Option.bind_some]
    exact agrees.drain slot _ onward

theorem visit_agrees {fuel : Nat} {id : SchemaId} {typed : Bool} (closed : arena.Closed)
    (agrees : Agrees arena fuel) (bound : id < arena.size) (inRange : d.InRange arena.size) :
    visit? arena (fuel + 1) id place typed slot d =
        some (visit arena (fuel + 1) id place typed slot d) ∧
      (visit arena (fuel + 1) id place typed slot d).InRange arena.size := by
  have below := closed.below_node id
  unfold visit? visit
  simp only [closed.covers bound, Bool.not_true, Bool.false_eq_true, if_false]
  split
  · refine ⟨rfl, ?_⟩
    split
    · exact inRange
    · exact inRange.emitTypes _ _
  · split
    · have typesDone := inRange.emitTypes place (arena.acceptedTypes? (arena.node id))
      have start : ({ d.emitTypes place (arena.acceptedTypes? (arena.node id)) with
          out := [], queue := [] } : Draft).InRange arena.size :=
        ⟨fun _ member => by (cases member), typesDone.deferred⟩
      obtain ⟨first, visited⟩ := agrees.visit id place true
        (slot ++ [(d.emitTypes place (arena.acceptedTypes? (arena.node id))).out.length]) _ bound
        start
      obtain ⟨last, drained⟩ := agrees.drain
        (slot ++ [(d.emitTypes place (arena.acceptedTypes? (arena.node id))).out.length]) _ visited
      rw [first, Option.bind_eq_bind, Option.bind_some, last]
      exact ⟨rfl, typesDone.queue, drained.deferred⟩
    · have marked : ({ d with visited := id :: d.visited } : Draft).InRange arena.size :=
        ⟨inRange.queue, inRange.deferred⟩
      cases listed : (arena.node id).enumeration with
      | some allowed => exact ⟨rfl, marked.emit _⟩
      | none =>
        cases kind : (arena.node id).kind with
        | typed type => exact ⟨rfl, marked.typeChecks below _ _⟩
        | unknown => exact ⟨rfl, marked⟩
        | union =>
          have checked : (if typed = true then { d with visited := id :: d.visited }
              else Draft.emitTypes { d with visited := id :: d.visited } place
                (arena.acceptedTypes? (arena.node id))).InRange arena.size := by
            split
            · exact marked
            · exact marked.emitTypes _ _
          dsimp only
          rcases alternatives : concreteVariants arena (arena.node id) with
            _ | ⟨variant, _ | ⟨other, more⟩⟩
          · exact ⟨rfl, checked⟩
          · have member : variant ∈ concreteVariants arena (arena.node id) := by simp [alternatives]
            have inside : variant ∈ (arena.node id).variants := (List.mem_filter.mp member).1
            exact agrees.visit variant place typed slot _
              (below variant (SchemaNode.mem_children.mpr (Or.inr (Or.inr inside)))) marked
          · exact ⟨rfl, checked⟩

theorem agrees (closed : arena.Closed) (fuel : Nat) : Agrees arena fuel := by
  induction fuel with
  | zero =>
    exact ⟨fun _ _ _ _ _ _ inRange => by unfold visit? visit; exact ⟨rfl, inRange⟩,
      fun _ _ inRange => by unfold drain? drain; exact ⟨rfl, inRange⟩⟩
  | succ fuel ih =>
    exact ⟨fun _ _ _ _ _ bound inRange => visit_agrees closed ih bound inRange,
      fun _ _ inRange => drain_agrees ih inRange⟩

theorem expand_agrees {schema : SchemaId} (fuel : Nat) (place : Locator) (slot : List Nat)
    (closed : arena.Closed) (bound : schema < arena.size) (inRange : d.InRange arena.size) :
    expand? arena fuel schema place slot d = some (expand arena fuel schema place slot d) ∧
      (expand arena fuel schema place slot d).InRange arena.size := by
  refine (agrees closed fuel).drain slot _ ⟨fun entry member => ?_, inRange.deferred⟩
  rw [List.mem_singleton.mp member]
  exact bound

theorem settle_agrees {steps fuel : Nat} {out : List Assertion} (closed : arena.Closed)
    (inRange : d.InRange arena.size) :
    settle? arena steps fuel out d = some (settle arena steps fuel out d) := by
  induction fuel generalizing out d with
  | zero => rfl
  | succ fuel ih =>
    cases pending : d.deferred with
    | nil => simp only [settle?, settle, pending]
    | cons entry deferred =>
      have bound : entry.schema < arena.size := inRange.deferred entry (by simp [pending])
      have rest : ({ d with deferred } : Draft).InRange arena.size :=
        ⟨inRange.queue, fun e member => inRange.deferred e (by simp [pending, member])⟩
      obtain ⟨same, onward⟩ :=
        expand_agrees steps entry.place entry.slot closed bound rest
      simp only [settle?, settle, pending, same, Option.bind_eq_bind, Option.bind_some]
      exact ih onward

end Derivation

namespace SchemaArena

open HttpPlan.Derivation

/-- The assertions of a schema, with every look-up checked. -/
def assertions? (arena : SchemaArena) (root : SchemaId) : Option (List Assertion) := do
  let fuel := budget arena
  let d ← expand? arena fuel root .root [] {}
  return prune (← settle? arena fuel fuel d.out d)

theorem assertions?_eq {arena : SchemaArena} {root : SchemaId} (closed : arena.Closed)
    (bound : root < arena.size) : arena.assertions? root = some (arena.assertions root) := by
  have start : ({} : Draft).InRange arena.size :=
    ⟨fun _ member => by (cases member), fun _ member => by (cases member)⟩
  obtain ⟨same, onward⟩ := expand_agrees (budget arena) .root [] closed bound start
  simp only [assertions?, same, Option.bind_eq_bind, Option.bind_some, settle_agrees closed onward]
  rfl

end SchemaArena

end HttpPlan
