import HttpPlan.Proofs.Assertion.Filling

/-! Bodies that are owed for guards in a list, by the positions of the guards. The positions are
counted from the start of what was added to a list, so they move when this comes behind other
assertions, or into a body. -/
namespace HttpPlan.Derivation

open Assertion

/-- Where a position counted from an offset in the list at `slot` lies as a whole. -/
def relocate (slot : List Nat) (offset : Nat) : List Nat → List Nat
  | [] => slot
  | index :: rest => slot ++ (offset + index) :: rest

def Deferred.moved (slot : List Nat) (offset : Nat) (δ : Deferred) : Deferred :=
  { δ with slot := relocate slot offset δ.slot }

variable {added more list : List Assertion} {owed further deferred : List Deferred}
  {δ next : Deferred} {slot : List Nat} {offset : Nat}

theorem relocate_relocate {slot : List Nat} {offset further index : Nat} {rest : List Nat} :
    relocate slot offset (relocate [] further (index :: rest)) =
      relocate slot (offset + further) (index :: rest) := by
  simp [relocate, Nat.add_assoc]

theorem relocate_apart {a b : List Nat} {i j : Nat}
    (apart : Apart (i :: a) (j :: b)) :
    Apart (relocate slot offset (i :: a)) (relocate slot offset (j :: b)) := by
  apply apart_append
  by_cases same : i = j
  · subst same
    refine ⟨fun inside => apart.1 ?_, fun inside => apart.2 ?_⟩
    · exact List.cons_prefix_cons.mpr ⟨rfl, (List.cons_prefix_cons.mp inside).2⟩
    · exact List.cons_prefix_cons.mpr ⟨rfl, (List.cons_prefix_cons.mp inside).2⟩
  · exact apart_of_head fun shifted => same (Nat.add_left_cancel shifted)

/-- Owed bodies with a guard for each of them, none inside another. -/
structure Layout (added : List Assertion) (owed : List Deferred) : Prop where
  vacant : ∀ δ ∈ owed, Vacant δ.slot added
  apart : owed.Pairwise fun δ ε => Apart δ.slot ε.slot

theorem Layout.cons (layout : Layout added owed) (member : δ ∈ owed) :
    ∃ index rest, δ.slot = index :: rest ∧ Vacant (index :: rest) added := by
  have vacant := layout.vacant δ member
  cases same : δ.slot with
  | nil => rw [same] at vacant; exact vacant.elim
  | cons index rest => exact ⟨index, rest, rfl, same ▸ vacant⟩

theorem layout_nil : Layout added [] := ⟨nofun, .nil⟩

/-- A guard that has just been put down. -/
theorem layout_defer {place inside : Locator} {guard : Guard} {schema : SchemaId} :
    Layout [.guarded place guard []] [⟨[0], schema, inside⟩] := by
  refine ⟨fun δ member => ?_, List.pairwise_singleton _ _⟩
  rw [List.mem_singleton.mp member]
  exact ⟨place, guard, [], rfl, Or.inl ⟨rfl, rfl⟩⟩

theorem moved_slot (layout : Layout more further) (member : δ ∈ further) :
    ∃ index rest, δ.slot = index :: rest ∧ Vacant (index :: rest) more ∧
      (δ.moved [] added.length).slot = (added.length + index) :: rest := by
  obtain ⟨index, rest, same, vacant⟩ := layout.cons member
  exact ⟨index, rest, same, vacant, by simp [Deferred.moved, same, relocate]⟩

theorem moved_inside (layout : Layout added owed) (member : δ ∈ owed) :
    (δ.moved slot 0).slot = slot ++ δ.slot := by
  obtain ⟨index, rest, same, -⟩ := layout.cons member
  simp [Deferred.moved, same, relocate]

theorem moved_moved {shift : Nat} (layout : Layout more further) :
    (further.map (Deferred.moved [] shift)).map (Deferred.moved slot offset) =
      further.map (Deferred.moved slot (offset + shift)) := by
  rw [List.map_map]
  refine List.map_congr_left fun δ member => ?_
  obtain ⟨index, rest, same, -⟩ := layout.cons member
  simp only [Function.comp, Deferred.moved, same, relocate_relocate]

/-- Positions that are counted from the start of the top-level list are whole as they are. -/
theorem moved_start (layout : Layout added owed) : owed.map (Deferred.moved [] 0) = owed := by
  refine (List.map_congr_left fun δ member => ?_).trans (List.map_id _)
  have same : (δ.moved [] 0).slot = [] ++ δ.slot := moved_inside layout member
  obtain ⟨slot, schema, place⟩ := δ
  exact congrArg (Deferred.mk · schema place) same

/-- Positions inside a guard, counted from the list that the guard is in. -/
theorem moved_nest (layout : Layout added owed) :
    (owed.map fun δ => { δ with slot := 0 :: δ.slot }).map (Deferred.moved slot offset) =
      owed.map (Deferred.moved (slot ++ [offset]) 0) := by
  rw [List.map_map]
  refine List.map_congr_left fun δ member => ?_
  obtain ⟨index, rest, same, -⟩ := layout.cons member
  simp [Deferred.moved, relocate, same]

theorem Layout.apart_moved (layout : Layout added owed) (slot : List Nat) (offset : Nat) :
    (owed.map (Deferred.moved slot offset)).Pairwise fun δ ε => Apart δ.slot ε.slot := by
  refine List.pairwise_map.mpr (layout.apart.imp_of_mem fun {δ ε} old new apart => ?_)
  obtain ⟨i, a, same, -⟩ := layout.cons old
  obtain ⟨j, b, equal, -⟩ := layout.cons new
  simp only [Deferred.moved]
  rw [same, equal] at apart ⊢
  exact relocate_apart apart

theorem Layout.append (first : Layout added owed) (last : Layout more further) :
    Layout (added ++ more) (owed ++ further.map (.moved [] added.length)) where
  vacant := fun δ member => by
    rcases List.mem_append.mp member with old | new
    · exact vacant_append_left (first.vacant δ old)
    · obtain ⟨ε, known, rfl⟩ := List.mem_map.mp new
      obtain ⟨index, rest, -, vacant, moved⟩ := moved_slot last known
      rw [moved]
      exact vacant_append_right vacant
  apart := by
    refine List.pairwise_append.mpr ⟨first.apart, last.apart_moved .., fun δ member ε moved => ?_⟩
    obtain ⟨η, old, rfl⟩ := List.mem_map.mp moved
    obtain ⟨i, a, same, vacant⟩ := first.cons member
    obtain ⟨j, b, -, -, equal⟩ := @moved_slot added more further η last old
    have inside := vacant.lt
    rw [same, equal]
    exact apart_of_head (by omega)

/-- Bodies that a filled guard owes in turn come behind those that were owed before. -/
theorem Layout.fill (outer : Layout list (next :: deferred)) (inner : Layout added owed) :
    Layout (install added next.slot list) (deferred ++ owed.map (.moved next.slot 0)) where
  vacant := fun δ member => by
    have filled := outer.vacant next List.mem_cons_self
    rcases List.mem_append.mp member with old | new
    · have apart := (List.pairwise_cons.mp outer.apart).1 δ old
      exact vacant_install_apart apart (outer.vacant δ (List.mem_cons_of_mem _ old)) filled
    · obtain ⟨ε, known, rfl⟩ := List.mem_map.mp new
      rw [moved_inside inner known]
      exact vacant_install_inside filled (inner.vacant ε known)
  apart := by
    obtain ⟨first, rest⟩ := List.pairwise_cons.mp outer.apart
    refine List.pairwise_append.mpr ⟨rest, inner.apart_moved .., fun δ member ε moved => ?_⟩
    obtain ⟨η, old, rfl⟩ := List.mem_map.mp moved
    rw [moved_inside inner old]
    exact (first δ member).symm.extend _

/-- Bodies that are owed inside a body that was written at once. -/
theorem Layout.nest (layout : Layout added owed) (place : Locator) (guard : Guard) :
    Layout [.guarded place guard added] (owed.map fun δ => { δ with slot := 0 :: δ.slot }) where
  vacant := fun δ member => by
    obtain ⟨ε, known, rfl⟩ := List.mem_map.mp member
    exact ⟨place, guard, added, rfl, Or.inr (layout.vacant ε known)⟩
  apart := List.pairwise_map.mpr (layout.apart.imp fun apart => @apart_append _ _ [0] apart)

theorem reached_left (body : Json) (layout : Layout added owed) (member : δ ∈ owed) :
    Reached body δ.slot (added ++ more) ↔ Reached body δ.slot added := by
  obtain ⟨index, rest, same, vacant⟩ := layout.cons member
  rw [same]
  exact reached_append_left_iff vacant.lt

theorem reached_right (body : Json) (layout : Layout more further) (member : δ ∈ further) :
    Reached body (δ.moved [] added.length).slot (added ++ more) ↔ Reached body δ.slot more := by
  obtain ⟨index, rest, same, -, moved⟩ := moved_slot layout member
  rw [moved, same]
  exact reached_append_right_iff

end HttpPlan.Derivation
