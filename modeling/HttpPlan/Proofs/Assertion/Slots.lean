import HttpPlan.Proofs.Assertion.Conformance

/-! Guards inside guards, named by their position. Putting a body into a guard keeps a list of
assertions true as long as the body is true wherever the guard is reached, and changes nothing
about guards that lie apart from it. -/
namespace HttpPlan.Derivation

open Assertion

variable {accepts : String → String → Prop} {body : Json} {list inner : List Assertion}
  {slot other : List Nat}

/-- Whether every guard on the way to a position, the last one included, has its condition met. -/
def Reached (body : Json) : List Nat → List Assertion → Prop
  | [], _ => True
  | index :: slot, list => ∃ target guard inner v,
    list[index]? = some (.guarded target guard inner) ∧ target.resolve? body = some v ∧
      guard.Met v ∧ Reached body slot inner

/-- Positions neither of which lies inside the other. -/
def Apart (slot other : List Nat) : Prop := ¬ slot <+: other ∧ ¬ other <+: slot

theorem Apart.symm (apart : Apart slot other) : Apart other slot := ⟨apart.2, apart.1⟩

theorem apart_append {lead : List Nat} (apart : Apart slot other) :
    Apart (lead ++ slot) (lead ++ other) :=
  ⟨fun inside => apart.1 ((List.prefix_append_right_inj lead).mp inside),
    fun inside => apart.2 ((List.prefix_append_right_inj lead).mp inside)⟩

theorem apart_of_head {i j : Nat} (differ : i ≠ j) : Apart (i :: slot) (j :: other) :=
  ⟨fun inside => differ (List.cons_prefix_cons.mp inside).1,
    fun inside => differ (List.cons_prefix_cons.mp inside).1.symm⟩

theorem Apart.extend (apart : Apart slot other) (more : List Nat) : Apart slot (other ++ more) := by
  refine ⟨fun inside => ?_, fun inside => apart.2 ((List.prefix_append _ _).trans inside)⟩
  rcases List.prefix_or_prefix_of_prefix inside (List.prefix_append other more) with low | high
  · exact apart.1 low
  · exact apart.2 high

/-- What `install` does to the assertion at the head of its position. -/
def installAt (body : List Assertion) : List Nat → Assertion → Assertion
  | [], .guarded target guard _ => .guarded target guard body
  | slot, .guarded target guard inner => .guarded target guard (install body slot inner)
  | _, a => a

theorem install_cons (index : Nat) :
    install inner (index :: slot) list = list.modify index (installAt inner slot) := by
  cases slot with
  | nil =>
    rw [install]
    congr 1
    funext a
    cases a <;> rfl
  | cons next rest =>
    rw [install]
    · congr 1
      funext a
      cases a <;> rfl
    · simp

theorem mem_install {target : Locator} {check : Check}
    (member : .check target check ∈ list) :
    .check target check ∈ install inner slot list := by
  cases slot with
  | nil => rwa [install]
  | cons index slot =>
    obtain ⟨position, found⟩ := List.mem_iff_getElem?.mp member
    refine List.mem_iff_getElem?.mpr ⟨position, ?_⟩
    rw [install_cons, List.getElem?_modify, found]
    split
    · cases slot <;> rfl
    · rfl

/-- Filling a guard keeps a list true if the body is true wherever the guard is reached. -/
theorem install_allHold (all : AllHold accepts body list)
    (reached : Reached body slot list → AllHold accepts body inner) :
    AllHold accepts body (install inner slot list) := by
  induction slot generalizing list with
  | nil => rw [install]; exact all
  | cons index slot ih =>
    rw [install_cons, allHold_iff]
    intro a member
    obtain ⟨position, found⟩ := List.mem_iff_getElem?.mp member
    rw [List.getElem?_modify] at found
    obtain ⟨old, there, same⟩ := Option.map_eq_some_iff.mp found
    have holds := allHold_iff.mp all old (List.mem_of_getElem? there)
    split at same
    · next here =>
      subst here same
      cases old with
      | check => cases slot <;> exact holds
      | guarded target guard before =>
        obtain ⟨v, leads, applies, inside⟩ := holds
        have down : Reached body slot before → guard.Met v → AllHold accepts body inner :=
          fun further met => reached ⟨target, guard, before, v, there, leads, met, further⟩
        cases slot with
        | nil => exact ⟨v, leads, applies, down trivial⟩
        | cons next rest => exact ⟨v, leads, applies, fun met => ih (inside met) fun further => down further met⟩
    · exact same ▸ holds

theorem Apart.tail {index : Nat} (apart : Apart (index :: slot) (index :: other)) :
    Apart slot other :=
  ⟨fun low => apart.1 (List.cons_prefix_cons.mpr ⟨rfl, low⟩),
    fun low => apart.2 (List.cons_prefix_cons.mpr ⟨rfl, low⟩)⟩

theorem reached_install_apart (apart : Apart slot other)
    (reached : Reached body other (install inner slot list)) : Reached body other list := by
  induction slot generalizing other list with
  | nil => exact absurd List.nil_prefix apart.1
  | cons index slot ih =>
    cases other with
    | nil => trivial
    | cons position other =>
      obtain ⟨target, guard, inside, v, found, leads, met, further⟩ := reached
      rw [install_cons, List.getElem?_modify] at found
      obtain ⟨old, there, same⟩ := Option.map_eq_some_iff.mp found
      split at same
      · next here =>
        subst here
        have below := apart.tail
        cases old with
        | check => cases slot <;> cases same
        | guarded _ _ before =>
          cases slot with
          | nil => exact absurd List.nil_prefix below.1
          | cons next rest =>
            cases same
            exact ⟨target, guard, before, v, there, leads, met, ih below further⟩
      · subst same
        exact ⟨target, guard, inside, v, there, leads, met, further⟩

theorem mem_prune_iff {a : Assertion} : a ∈ prune list ↔ ∃ b ∈ list, a ∈ pruneOne b := by
  induction list with
  | nil => simp [prune]
  | cons first rest ih => simp [prune, ih]

theorem mem_prune {target : Locator} {check : Check} (member : .check target check ∈ list) : .check target check ∈ prune list :=
  mem_prune_iff.mpr ⟨_, member, by simp [pruneOne]⟩

mutual
/-- Dropping guards without a body keeps a list true. -/
theorem prune_allHold : ∀ (list : List Assertion),
    AllHold accepts body list → AllHold accepts body (prune list)
  | [], _ => by rw [prune]; trivial
  | a :: rest, all => by
    rw [prune, allHold_append]
    exact ⟨pruneOne_allHold a all.1, prune_allHold rest all.2⟩
theorem pruneOne_allHold : ∀ (a : Assertion),
    a.Holds accepts body → AllHold accepts body (pruneOne a)
  | .check target c, holds => ⟨holds, trivial⟩
  | .guarded target guard inner, ⟨v, leads, applies, inside⟩ => by
    have pruned := fun met => prune_allHold inner (inside met)
    rw [pruneOne]
    split
    · trivial
    · exact ⟨⟨v, leads, applies, pruned⟩, trivial⟩
end

end HttpPlan.Derivation
