import HttpPlan.Proofs.Spec.Reference
import HttpPlan.Proofs.Resolution.State

/-! How deep a walk can go. Each reference is followed at most once inside itself, since it is then
in the memo or on the stack of aliases, and between two references a walk only goes down. -/
namespace HttpPlan.Resolver

variable {root value : Json} {r s : Resolver} {pointer : String} {fuel : Nat}

/-- A reference that has been neither resolved nor begun. -/
def Untried (r : Resolver) (pointer : String) : Prop :=
  r.memo.get? pointer = none ∧ pointer ∉ r.aliases

instance (r : Resolver) : DecidablePred r.Untried := fun pointer =>
  inferInstanceAs (Decidable (r.memo.get? pointer = none ∧ pointer ∉ r.aliases))

def untried (root : Json) (r : Resolver) : Nat := root.references.countP fun p => r.Untried p

/-- The steps that a schema of some nesting may take. -/
def allowance (root : Json) (r : Resolver) (depth : Nat) : Nat :=
  r.untried root * (root.depth + 2) + depth

theorem untried_le (onward : ∀ p, s.Untried p → r.Untried p) : s.untried root ≤ r.untried root :=
  List.countP_mono_left fun p _ left => decide_eq_true (onward p (of_decide_eq_true left))

theorem untried_lt (onward : ∀ p, s.Untried p → r.Untried p) (inside : pointer ∈ root.references)
    (was : r.Untried pointer) (now : ¬ s.Untried pointer) : s.untried root < r.untried root :=
  Json.countP_lt (fun p left => decide_eq_true (onward p (of_decide_eq_true left))) inside
    (decide_eq_true was) (decide_eq_false now)

theorem Advances.untried (advances : Advances root r s) (p : String) (left : s.Untried p) :
    r.Untried p := by
  refine ⟨?_, advances.aliases ▸ left.2⟩
  cases found : r.memo.get? p with
  | none => rfl
  | some id => cases (advances.get? found).symm.trans left.1

theorem untried_opened (absent : r.memo.get? pointer = none) (p : String)
    (left : (r.opened pointer).Untried p) : r.Untried p ∧ p ≠ pointer := by
  obtain ⟨unknown, idle⟩ := left
  rw [get?_opened absent] at unknown
  split at unknown
  · cases unknown
  · next apart => exact ⟨⟨unknown, idle⟩, apart⟩

theorem untried_entered (r : Resolver) (pointer p : String) (left : (r.entered pointer).Untried p) :
    r.Untried p ∧ p ≠ pointer := by
  obtain ⟨unknown, idle⟩ := left
  simp only [entered, List.mem_cons, not_or] at unknown idle
  exact ⟨⟨unknown, idle.2⟩, idle.1⟩

/-- Beginning a reference pays for a whole descent. -/
theorem allowance_begun (onward : ∀ p, s.Untried p → r.Untried p ∧ p ≠ pointer)
    (inside : pointer ∈ root.references) (was : r.Untried pointer) (depth : Nat) :
    s.allowance root depth + (root.depth + 2) ≤ r.allowance root depth := by
  have fewer : s.untried root < r.untried root :=
    untried_lt (fun p left => (onward p left).1) inside was fun left => (onward _ left).2 rfl
  have room : (s.untried root + 1) * (root.depth + 2) ≤ r.untried root * (root.depth + 2) :=
    Nat.mul_le_mul_right _ fewer
  rw [Nat.succ_mul] at room
  simp only [allowance]
  omega

theorem Advances.allowance_le (advances : Advances root r s) (depth : Nat) :
    s.allowance root depth ≤ r.allowance root depth :=
  Nat.add_le_add_right (Nat.mul_le_mul_right _ (untried_le advances.untried)) depth

/-- What is left for a part of the schema being walked. -/
theorem allowance_part {part : Json} (inside : part.Inside value) (advances : Advances root r s)
    (room : r.allowance root value.depth + 1 ≤ fuel) : s.allowance root part.depth + 2 ≤ fuel := by
  have less := advances.allowance_le value.depth
  have deeper := inside.depth
  simp only [allowance] at less room ⊢
  omega

/-- What is left for the reference that a schema is. -/
theorem allowance_referred (room : r.allowance root value.depth + 2 ≤ fuel + 1) :
    r.allowance root 0 + 1 ≤ fuel := by
  simp only [allowance] at room ⊢
  omega

/-- What is left for the schema of a definition once it has been begun. -/
theorem allowance_opened {target : Json} (idle : pointer ∉ r.aliases)
    (inside : pointer ∈ root.references) (absent : r.memo.get? pointer = none)
    (found : root.lookup pointer = .ok target) (room : r.allowance root 0 + 1 ≤ fuel + 1) :
    (r.opened pointer).allowance root target.depth + 1 ≤ fuel := by
  have paid := allowance_begun (untried_opened absent) inside ⟨absent, idle⟩ 0
  have shallow := (Json.lookup_within found).depth
  simp only [allowance] at paid room ⊢
  omega

/-- What is left for the reference that an alias goes on to. -/
theorem allowance_entered (idle : pointer ∉ r.aliases) (inside : pointer ∈ root.references)
    (absent : r.memo.get? pointer = none) (room : r.allowance root 0 + 1 ≤ fuel + 1) :
    (r.entered pointer).allowance root 0 + 1 ≤ fuel := by
  have paid := allowance_begun (untried_entered r pointer) inside ⟨absent, idle⟩ 0
  omega

/-- The budget of a document is enough for any of its schemas. -/
theorem allowance_le_budget (within : value.Within root) (r : Resolver) :
    r.allowance root value.depth + 2 ≤ budget root := by
  have most : r.untried root ≤ root.references.length := List.countP_le_length
  have room : r.untried root * (root.depth + 2) ≤ root.references.length * (root.depth + 2) :=
    Nat.mul_le_mul_right _ most
  have shallow := within.depth
  simp only [allowance, budget, Nat.succ_mul]
  omega

end HttpPlan.Resolver
