import HttpPlan.Proofs.Json.Within
import HttpPlan.Spec.Reference

/-! Following references inside a document. The references seen on the way are all different, so
following them is never cut off. -/
namespace HttpPlan

/-- An error of a walk that was cut off, which says nothing about the schema. -/
def BuildError.CutOff : BuildError → Prop
  | .unsupportedConstruct _ .nesting => True
  | _ => False

namespace Json

variable {root : Json} {pointer : String}

theorem countP_lt {p q : String → Bool} {l : List String} (narrower : ∀ a, q a → p a)
    (member : pointer ∈ l) (was : p pointer = true) (now : q pointer = false) :
    l.countP q < l.countP p := by
  induction l with
  | nil => cases member
  | cons first rest ih =>
    have whole : rest.countP q ≤ rest.countP p := List.countP_mono_left fun a _ => narrower a
    rcases List.mem_cons.mp member with rfl | member
    · rw [List.countP_cons_of_pos was, List.countP_cons_of_neg (by simp [now])]
      exact Nat.lt_succ_of_le whole
    · have fewer := ih member
      by_cases stays : q first
      · rw [List.countP_cons_of_pos stays, List.countP_cons_of_pos (narrower first stays)]
        exact Nat.succ_lt_succ fewer
      · rw [List.countP_cons_of_neg stays]
        exact Nat.lt_of_lt_of_le fewer (List.sublist_cons_self first rest).countP_le

theorem lookup_error {error : BuildError} (missing : root.lookup pointer = .error error) :
    ¬ error.CutOff := by
  unfold lookup at missing
  split at missing
  · split at missing
    · cases missing
    · cases missing; exact fun cut => cut
  · cases missing; exact fun cut => cut

theorem follow_error {fuel : Nat} {seen : List String} {v : Json} {error : BuildError}
    (enough : root.references.countP (· ∉ seen) ≤ fuel) (within : v.Within root)
    (fault : root.follow fuel seen v = .error error) : ¬ error.CutOff := by
  induction fuel generalizing seen v with
  | zero =>
    unfold follow at fault
    split at fault
    · cases fault
    · next pointer follows =>
      split at fault
      · cases fault; exact fun cut => cut
      · next fresh =>
        have inside := within.references (mem_references_of_reference? follows)
        have positive : 0 < root.references.countP (· ∉ seen) :=
          List.countP_pos_iff.mpr ⟨pointer, inside, by simpa using fresh⟩
        omega
  | succ fuel ih =>
    unfold follow at fault
    split at fault
    · cases fault
    · next pointer follows =>
      split at fault
      · cases fault; exact fun cut => cut
      · next fresh =>
        have inside := within.references (mem_references_of_reference? follows)
        cases found : root.lookup pointer with
        | error e => rw [found] at fault; cases fault; exact lookup_error found
        | ok target =>
          rw [found] at fault
          refine ih ?_ (lookup_within found) fault
          have fewer : root.references.countP (fun p => decide (p ∉ pointer :: seen)) <
              root.references.countP (fun p => decide (p ∉ seen)) :=
            countP_lt (fun a left => by simp_all) inside (by simpa using fresh) (by simp)
          omega

theorem deref_plain (root : Json) {v : Json} (plain : v.reference? = none) : root.deref v = .ok v := by
  rw [deref, follow.eq_def]
  simp only [plain]

theorem deref_error {v : Json} {error : BuildError} (within : v.Within root)
    (fault : root.deref v = .error error) : ¬ error.CutOff :=
  follow_error (Nat.le_trans List.countP_le_length (Nat.le_add_right _ _)) within fault

/-- A chain of references, each of which points at something in the document, that ends in a value
without one. -/
inductive Chain (root : Json) : Nat → Json → Json → Prop
  | here {v : Json} (plain : v.reference? = none) : Chain root 0 v v
  | onward {n : Nat} {v target w : Json} {pointer : String} (follows : v.reference? = some pointer)
      (found : root.lookup pointer = .ok target) (rest : Chain root n target w) :
      Chain root (n + 1) v w

theorem Chain.unique {m n : Nat} {v w u : Json} (chain : root.Chain m v w)
    (other : root.Chain n v u) : m = n ∧ w = u := by
  induction chain generalizing n u with
  | here plain =>
    cases other with
    | here => exact ⟨rfl, rfl⟩
    | onward follows => cases plain.symm.trans follows
  | onward follows found rest ih =>
    cases other with
    | here plain => cases plain.symm.trans follows
    | onward follows' found' rest' =>
      cases follows.symm.trans follows'
      cases found.symm.trans found'
      obtain ⟨rfl, rfl⟩ := ih rest'
      exact ⟨rfl, rfl⟩

theorem chain_of_follow {fuel : Nat} {seen : List String} {v w : Json}
    (found : root.follow fuel seen v = .ok w) : ∃ n, root.Chain n v w := by
  induction fuel generalizing seen v with
  | zero =>
    unfold follow at found
    split at found
    · next plain =>
      cases found
      exact ⟨0, .here plain⟩
    · split at found <;> cases found
  | succ fuel ih =>
    unfold follow at found
    split at found
    · next plain =>
      cases found
      exact ⟨0, .here plain⟩
    · next pointer follows =>
      split at found
      · cases found
      · cases target : root.lookup pointer with
        | error e => rw [target] at found; cases found
        | ok t =>
          rw [target] at found
          obtain ⟨n, rest⟩ := ih found
          exact ⟨n + 1, .onward follows target rest⟩

/-- A chain is followed to its end: what was seen on the way leads to the end by a longer chain than
what is left, so none of it is met again. -/
theorem Chain.follow {n fuel : Nat} {seen : List String} {v w : Json} (chain : root.Chain n v w)
    (within : v.Within root) (enough : root.references.countP (· ∉ seen) ≤ fuel)
    (longer : ∀ p ∈ seen, ∃ m target, root.lookup p = .ok target ∧ root.Chain m target w ∧ n ≤ m) :
    root.follow fuel seen v = .ok w := by
  induction chain generalizing fuel seen with
  | here plain =>
    rw [Json.follow.eq_def]
    simp only [plain]
  | @onward n v target w pointer follows found rest ih =>
    have inside := within.references (mem_references_of_reference? follows)
    have fresh : pointer ∉ seen := fun met => by
      obtain ⟨m, other, same, chain, more⟩ := longer pointer met
      cases found.symm.trans same
      have := (rest.unique chain).1
      omega
    have fewer : root.references.countP (fun p => decide (p ∉ pointer :: seen)) <
        root.references.countP (fun p => decide (p ∉ seen)) :=
      countP_lt (fun a left => by simp_all) inside (by simpa using fresh) (by simp)
    obtain ⟨steps, rfl⟩ : ∃ steps, fuel = steps + 1 := ⟨fuel - 1, by omega⟩
    rw [Json.follow.eq_def]
    simp only [follows, if_neg fresh, found]
    refine ih (lookup_within found) (by omega) (List.forall_mem_cons.mpr ⟨?_, fun p met => ?_⟩)
    · exact ⟨n, target, found, rest, Nat.le_refl _⟩
    · obtain ⟨m, other, same, chain, more⟩ := longer p met
      exact ⟨m, other, same, chain, Nat.le_of_succ_le more⟩

/-- A value can be dereferenced just when the references from it come to an end in the document. -/
theorem deref_eq_ok {v w : Json} : root.deref v = .ok w ↔ ∃ n, root.Chain n v w := by
  refine ⟨chain_of_follow, ?_⟩
  rintro ⟨n, chain⟩
  cases chain with
  | here plain => exact deref_plain root plain
  | @onward n _ target _ pointer follows found rest =>
    have filled : 0 < v.references.length :=
      List.length_pos_of_mem (mem_references_of_reference? follows)
    obtain ⟨steps, same⟩ : ∃ steps, root.references.length + v.references.length = steps + 1 :=
      ⟨root.references.length + v.references.length - 1, by omega⟩
    rw [deref, same, Json.follow.eq_def]
    simp only [follows, List.not_mem_nil, if_false, found]
    refine rest.follow (lookup_within found) ?_ (List.forall_mem_singleton.mpr ?_)
    · exact Nat.le_trans List.countP_le_length (by omega)
    · exact ⟨n, target, found, rest, Nat.le_refl _⟩

theorem deref_isPlain {v w : Json} (found : root.deref v = .ok w) : w.reference? = none := by
  obtain ⟨n, chain⟩ := deref_eq_ok.mp found
  clear found
  induction chain with
  | here plain => exact plain
  | onward _ _ _ ih => exact ih

end Json

end HttpPlan
