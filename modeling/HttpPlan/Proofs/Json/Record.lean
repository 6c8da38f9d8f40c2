import HttpPlan.Plan.Interchange

/-! Reading back what was written as a record: each field is found again, and a field that was left
out reads as what it stood for. -/
namespace HttpPlan

variable {α β : Type} {read : Json → Option α} {write : α → Json} {name key : String}
  {names : List String} {fields : List (String × Json)}

namespace Json

/-- An object whose fields come in the order of a record, some perhaps left out, is that record. -/
theorem record?_object (ordered : (fields.map Prod.fst).Sublist names) (distinct : names.Nodup) :
    (object fields).record? names = some (fields.lookup ·) := by
  have once : repeats names fields = false := by
    refine List.any_eq_false.mpr fun name _ => ?_
    have few : (fields.map Prod.fst).count name ≤ 1 :=
      List.nodup_iff_count.mp (ordered.nodup distinct) name
    rw [List.count_eq_countP, List.countP_map, List.countP_eq_length_filter] at few
    have same : fields.filter (fun e => decide (e.1 = name)) =
        fields.filter ((· == name) ∘ Prod.fst) := List.filter_congr fun e _ => by
      by_cases equal : e.1 = name <;> simp [equal]
    simpa only [decide_eq_true_eq, same] using Nat.not_lt.mpr few
  simp only [record?, once, Bool.false_eq_true, if_false]

theorem mapM_map {γ : Type} {read : γ → Option β} {write : α → γ} {keep : α → β} {items : List α}
    (reads : ∀ a ∈ items, read (write a) = some (keep a)) :
    (items.map write).mapM read = some (items.map keep) := by
  induction items with
  | nil => rfl
  | cons a rest ih =>
    rw [List.map_cons, List.mapM_cons, reads a (by simp), ih fun b member => reads b (by simp [member])]
    rfl

theorem listOf?_map (read : Json → Option α) (write : α → Json) (keep : α → α) {items : List α}
    (reads : ∀ a ∈ items, read (write a) = some (keep a)) :
    (array (items.map write)).listOf? read = some (items.map keep) :=
  mapM_map reads

theorem optional?_map (read : Json → Option α) (write : α → Json) (v : Option α)
    (reads : ∀ a ∈ v, read (write a) = some a) (present : ∀ a, write a ≠ null) :
    optional? read (v.map write) = some v := by
  cases v with
  | none => rfl
  | some a =>
    rw [Option.map_some, optional?]
    · rw [reads a rfl, Option.map_some]
    · exact present a

theorem withDefault?_filled (read : Json → Option α) {default a : α} {v : Json} {isEmpty : Bool}
    (reads : read v = some a) (empty : isEmpty → default = a) :
    withDefault? default read (if isEmpty then none else some v) = some a := by
  cases isEmpty with
  | false => exact reads
  | true => simp only [if_true, withDefault?, empty rfl]

end Json

theorem lookup_singleton {v : Json} :
    [(name, v)].lookup key = if key = name then some v else none := by
  by_cases same : key = name
  · simp [same]
  · have apart : (key == name) = false := by simpa using same
    simp [List.lookup_cons, apart, same]

theorem lookup_present (write : α → Json) (v : Option α) :
    (v.toList.map fun a => (name, write a)).lookup key = if key = name then v.map write else none := by
  cases v with
  | none => simp
  | some a => exact lookup_singleton

theorem lookup_optionalField {v : Option Json} :
    (optionalField name v).lookup key = if key = name then v else none := by
  exact (lookup_present id v).trans (by rw [Option.map_id_fun, id])

theorem lookup_filledField {isEmpty : Bool} {v : Json} :
    (filledField name isEmpty v).lookup key =
      if key = name then (if isEmpty then none else some v) else none := by
  cases isEmpty with
  | true => simp [filledField]
  | false => exact lookup_singleton

theorem names_given (fields : List (String × Json)) :
    (fields.map Prod.fst).Sublist (fields.map Prod.fst) := .refl _

theorem names_optionalField {v : Option Json} :
    ((optionalField name v).map Prod.fst).Sublist [name] := by
  cases v <;> simp [optionalField]

theorem names_filledField {isEmpty : Bool} {v : Json} :
    ((filledField name isEmpty v).map Prod.fst).Sublist [name] := by
  cases isEmpty <;> simp [filledField]

theorem names_append {more : List (String × Json)} {others : List String}
    (ordered : (fields.map Prod.fst).Sublist names) (onward : (more.map Prod.fst).Sublist others) :
    ((fields ++ more).map Prod.fst).Sublist (names ++ others) := by
  rw [List.map_append]
  exact ordered.append onward

end HttpPlan
