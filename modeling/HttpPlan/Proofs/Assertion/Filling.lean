import HttpPlan.Proofs.Assertion.Slots

/-! What a list of assertions says exactly once a body is put into one of its guards, or once guards
without a body are dropped. A guard may be read in two ways: firmly, where its target has to be
there and of the right type, or not. Dropping a guard gives up what it says of its target, so only
the second reading is left the same by it. -/
namespace HttpPlan

namespace Assertion

variable (firm : Prop) (accepts : String → String → Prop)

mutual
/-- Whether an assertion holds of a body when guards are read firmly or not. -/
def Passes (body : Json) : Assertion → Prop
  | check target c => ∃ v, target.resolve? body = some v ∧ c.Holds accepts v
  | guarded target guard inner =>
    (firm → ∃ v, target.resolve? body = some v ∧ guard.Applies v) ∧
      ∀ v, target.resolve? body = some v → guard.Met v → AllPass body inner
def AllPass (body : Json) : List Assertion → Prop
  | [] => True
  | a :: rest => Passes body a ∧ AllPass body rest
end

variable {firm : Prop} {accepts : String → String → Prop} {body : Json}
  {list more : List Assertion} {a : Assertion} {index : Nat}

theorem allPass_append :
    AllPass firm accepts body (list ++ more) ↔
      AllPass firm accepts body list ∧ AllPass firm accepts body more := by
  induction list with
  | nil => simp [AllPass]
  | cons a rest ih => simp only [List.cons_append, AllPass, ih, and_assoc]

theorem allPass_singleton : AllPass firm accepts body [a] ↔ a.Passes firm accepts body := by
  simp [AllPass]

/-- A list with a change to one assertion says what that comes to and what the others say. -/
theorem allPass_modify (found : list[index]? = some a) (change : Assertion → Assertion) :
    AllPass firm accepts body (list.modify index change) ↔
      (change a).Passes firm accepts body ∧ AllPass firm accepts body (list.eraseIdx index) := by
  induction list generalizing index with
  | nil => cases found
  | cons first rest ih =>
    cases index with
    | zero =>
      cases found
      rfl
    | succ index =>
      have later := ih found
      simp only [List.modify_succ_cons, List.eraseIdx_cons_succ, AllPass, later]
      exact and_left_comm

theorem allPass_split (found : list[index]? = some a) : AllPass firm accepts body list ↔
    a.Passes firm accepts body ∧ AllPass firm accepts body (list.eraseIdx index) := by
  have same : AllPass firm accepts body (list.modify index id) ↔ _ := allPass_modify found id
  rwa [List.modify_id] at same

mutual
theorem passes_firm (body : Json) : ∀ a : Assertion,
    a.Passes True accepts body ↔ a.Holds accepts body
  | .check _ _ => Iff.rfl
  | .guarded target guard inner => by
    have below := allPass_firm body inner
    rw [Passes, Holds]
    constructor
    · rintro ⟨there, inside⟩
      obtain ⟨v, found, applies⟩ := there trivial
      exact ⟨v, found, applies, fun met => below.mp (inside v found met)⟩
    · rintro ⟨v, found, applies, inside⟩
      refine ⟨fun _ => ⟨v, found, applies⟩, fun w other met => ?_⟩
      cases found.symm.trans other
      exact below.mpr (inside met)
theorem allPass_firm (body : Json) : ∀ list : List Assertion,
    AllPass True accepts body list ↔ AllHold accepts body list
  | [] => Iff.rfl
  | a :: rest => and_congr (passes_firm body a) (allPass_firm body rest)
end

mutual
theorem passes_of_holds : ∀ a : Assertion, a.Holds accepts body → a.Passes False accepts body
  | .check _ _, holds => holds
  | .guarded _ _ inner, ⟨v, found, _, inside⟩ => by
    refine ⟨nofun, fun w other met => ?_⟩
    cases found.symm.trans other
    exact allPass_of_allHold inner (inside met)
theorem allPass_of_allHold : ∀ list : List Assertion,
    AllHold accepts body list → AllPass False accepts body list
  | [], _ => trivial
  | a :: rest, all => ⟨passes_of_holds a all.1, allPass_of_allHold rest all.2⟩
end

end Assertion

namespace Derivation

open Assertion

variable {firm : Prop} {accepts : String → String → Prop} {body : Json}
  {list inner : List Assertion} {slot other : List Nat} {index : Nat}

mutual
/-- Guards without a body say nothing when they are not read firmly. -/
theorem allPass_prune : ∀ list : List Assertion,
    AllPass False accepts body (prune list) ↔ AllPass False accepts body list
  | [] => by rw [prune]
  | a :: rest => by
    rw [prune, allPass_append, allPass_pruneOne a, allPass_prune rest]
    rfl
theorem allPass_pruneOne : ∀ a : Assertion,
    AllPass False accepts body (pruneOne a) ↔ a.Passes False accepts body
  | .check _ _ => allPass_singleton
  | .guarded target guard inner => by
    have below := allPass_prune inner
    rw [pruneOne]
    cases pruned : prune inner with
    | nil =>
      rw [pruned] at below
      exact ⟨fun _ => ⟨nofun, fun _ _ _ => below.mp trivial⟩, fun _ => trivial⟩
    | cons first rest =>
      rw [pruned] at below
      rw [allPass_singleton, Passes, Passes]
      exact and_congr_right fun _ => forall_congr' fun _ => forall_congr' fun _ =>
        forall_congr' fun _ => below
end

/-- A position that leads to a guard without a body. -/
def Vacant : List Nat → List Assertion → Prop
  | [], _ => False
  | index :: slot, list => ∃ target guard inner, list[index]? = some (.guarded target guard inner) ∧
    (slot = [] ∧ inner = [] ∨ Vacant slot inner)

theorem Vacant.lt (vacant : Vacant (index :: slot) list) : index < list.length := by
  obtain ⟨_, _, _, found, _⟩ := vacant
  exact (List.getElem?_eq_some_iff.mp found).1

theorem reached_cons {target : Locator} {guard : Guard} {before : List Assertion}
    (found : list[index]? = some (.guarded target guard before)) :
    Reached body (index :: slot) list ↔
      ∃ v, target.resolve? body = some v ∧ guard.Met v ∧ Reached body slot before := by
  constructor
  · rintro ⟨_, _, _, v, same, leads, met, further⟩
    cases found.symm.trans same
    exact ⟨v, leads, met, further⟩
  · rintro ⟨v, leads, met, further⟩
    exact ⟨target, guard, before, v, found, leads, met, further⟩

/-- What a list says once the guard at a vacant position has its body. -/
theorem install_allPass (vacant : Vacant slot list) :
    AllPass firm accepts body (install inner slot list) ↔
      AllPass firm accepts body list ∧
        (Reached body slot list → AllPass firm accepts body inner) := by
  induction slot generalizing list with
  | nil => exact vacant.elim
  | cons index slot ih =>
    obtain ⟨target, guard, before, found, below⟩ := vacant
    rw [install_cons, allPass_modify found, allPass_split found, reached_cons found]
    have filled : (installAt inner slot (.guarded target guard before)).Passes firm accepts body ↔
        (Assertion.guarded target guard before).Passes firm accepts body ∧
          ((∃ v, target.resolve? body = some v ∧ guard.Met v ∧ Reached body slot before) →
            AllPass firm accepts body inner) := by
      rcases below with ⟨rfl, rfl⟩ | further
      · constructor
        · rintro ⟨there, inside⟩
          exact ⟨⟨there, fun _ _ _ => trivial⟩, fun ⟨v, leads, met, _⟩ => inside v leads met⟩
        · rintro ⟨⟨there, -⟩, inside⟩
          exact ⟨there, fun v leads met => inside ⟨v, leads, met, trivial⟩⟩
      · have deeper := ih further
        cases slot with
        | nil => exact further.elim
        | cons next rest =>
          constructor
          · rintro ⟨there, inside⟩
            exact ⟨⟨there, fun v leads met => (deeper.mp (inside v leads met)).1⟩,
              fun ⟨v, leads, met, onward⟩ => (deeper.mp (inside v leads met)).2 onward⟩
          · rintro ⟨⟨there, before⟩, inside⟩
            exact ⟨there, fun v leads met => deeper.mpr
              ⟨before v leads met, fun onward => inside ⟨v, leads, met, onward⟩⟩⟩
    rw [filled]
    exact and_right_comm

theorem reached_append_left_iff (bound : index < list.length) :
    Reached body (index :: slot) (list ++ inner) ↔ Reached body (index :: slot) list := by
  rw [Reached, Reached, List.getElem?_append_left bound]

theorem reached_append_right_iff :
    Reached body ((list.length + index) :: slot) (list ++ inner) ↔
      Reached body (index :: slot) inner := by
  rw [Reached, Reached, List.getElem?_append_right (Nat.le_add_right _ _), Nat.add_sub_cancel_left]

theorem vacant_append_left (vacant : Vacant slot list) : Vacant slot (list ++ inner) := by
  cases slot with
  | nil => exact vacant.elim
  | cons index slot =>
    have bound := vacant.lt
    obtain ⟨target, guard, before, found, below⟩ := vacant
    exact ⟨target, guard, before, by rw [List.getElem?_append_left bound, found], below⟩

theorem vacant_append_right (vacant : Vacant (index :: slot) inner) :
    Vacant ((list.length + index) :: slot) (list ++ inner) := by
  obtain ⟨target, guard, before, found, below⟩ := vacant
  refine ⟨target, guard, before, ?_, below⟩
  rw [List.getElem?_append_right (Nat.le_add_right _ _), Nat.add_sub_cancel_left, found]

theorem getElem?_install_here {target : Locator} {guard : Guard} {before : List Assertion}
    (found : list[index]? = some (.guarded target guard before)) :
    (install inner [index] list)[index]? = some (.guarded target guard inner) := by
  rw [install_cons, List.getElem?_modify, found]
  simp [installAt]

theorem getElem?_install_deeper {target : Locator} {guard : Guard} {before : List Assertion}
    (found : list[index]? = some (.guarded target guard before)) (deeper : Vacant slot before) :
    (install inner (index :: slot) list)[index]? =
      some (.guarded target guard (install inner slot before)) := by
  cases slot with
  | nil => exact deeper.elim
  | cons next rest =>
    rw [install_cons, List.getElem?_modify, found]
    simp [installAt]

theorem getElem?_install_other {i : Nat} (differ : index ≠ i) :
    (install inner (index :: slot) list)[i]? = list[i]? := by
  rw [install_cons, List.getElem?_modify]
  simp [differ]

/-- Filling one guard leaves apart positions as they are. -/
theorem vacant_install_apart (apart : Apart slot other) (vacant : Vacant other list)
    (filled : Vacant slot list) : Vacant other (install inner slot list) := by
  induction slot generalizing other list with
  | nil => exact filled.elim
  | cons index slot ih =>
    cases other with
    | nil => exact vacant.elim
    | cons position other =>
      by_cases same : index = position
      · subst same
        obtain ⟨target, guard, before, found, below⟩ := filled
        obtain ⟨_, _, _, again, further⟩ := vacant
        cases found.symm.trans again
        have down := apart.tail
        rcases below with ⟨rfl, -⟩ | deeper
        · exact absurd List.nil_prefix down.1
        · rcases further with ⟨rfl, -⟩ | onward
          · exact absurd List.nil_prefix down.2
          · exact ⟨target, guard, install inner slot before,
              getElem?_install_deeper found deeper, Or.inr (ih down onward deeper)⟩
      · obtain ⟨target, guard, before, found, below⟩ := vacant
        exact ⟨target, guard, before, (getElem?_install_other same).trans found, below⟩

/-- Positions in the body that a guard is filled with. -/
theorem vacant_install_inside (filled : Vacant slot list) (vacant : Vacant other inner) :
    Vacant (slot ++ other) (install inner slot list) := by
  induction slot generalizing list with
  | nil => exact filled.elim
  | cons index slot ih =>
    obtain ⟨target, guard, before, found, below⟩ := filled
    rcases below with ⟨rfl, rfl⟩ | deeper
    · exact ⟨target, guard, inner, getElem?_install_here found, Or.inr vacant⟩
    · exact ⟨target, guard, install inner slot before, getElem?_install_deeper found deeper,
        Or.inr (ih deeper)⟩

theorem reached_install_apart_iff (apart : Apart slot other) (filled : Vacant slot list) :
    Reached body other (install inner slot list) ↔ Reached body other list := by
  refine ⟨reached_install_apart apart, fun reached => ?_⟩
  induction slot generalizing other list with
  | nil => exact filled.elim
  | cons index slot ih =>
    cases other with
    | nil => trivial
    | cons position other =>
      by_cases same : index = position
      · subst same
        obtain ⟨target, guard, before, found, below⟩ := filled
        have down := apart.tail
        rcases below with ⟨rfl, -⟩ | deeper
        · exact absurd List.nil_prefix down.1
        · rw [reached_cons found] at reached
          rw [reached_cons (getElem?_install_deeper found deeper)]
          obtain ⟨v, leads, met, further⟩ := reached
          exact ⟨v, leads, met, ih down deeper further⟩
      · rwa [Reached, getElem?_install_other same]

theorem reached_install_inside_iff (filled : Vacant slot list) :
    Reached body (slot ++ other) (install inner slot list) ↔
      Reached body slot list ∧ Reached body other inner := by
  induction slot generalizing list with
  | nil => exact filled.elim
  | cons index slot ih =>
    obtain ⟨target, guard, before, found, below⟩ := filled
    rw [List.cons_append, reached_cons found]
    rcases below with ⟨rfl, rfl⟩ | deeper
    · rw [reached_cons (getElem?_install_here found)]
      constructor
      · rintro ⟨v, leads, met, further⟩
        exact ⟨⟨v, leads, met, trivial⟩, further⟩
      · rintro ⟨⟨v, leads, met, -⟩, further⟩
        exact ⟨v, leads, met, further⟩
    · rw [reached_cons (getElem?_install_deeper found deeper)]
      simp only [ih deeper]
      constructor
      · rintro ⟨v, leads, met, onward, further⟩
        exact ⟨⟨v, leads, met, onward⟩, further⟩
      · rintro ⟨⟨v, leads, met, onward⟩, further⟩
        exact ⟨v, leads, met, onward, further⟩

end Derivation

end HttpPlan
