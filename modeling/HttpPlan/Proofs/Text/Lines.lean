/-! The lines of a text. Lines joined by line breaks are read back just where none of them holds
a line break itself. -/
namespace HttpPlan.Text

/-- The pieces of a text between its line breaks. -/
def lines (s : String) : List String := (s.toList.splitOn '\n').map String.ofList

/-- Text that stays on its line. -/
def Unbroken (s : String) : Prop := '\n' ∉ s.toList

instance (s : String) : Decidable (Unbroken s) := inferInstanceAs (Decidable (¬ _))

variable {s t separator : String} {ls : List String}

@[simp] theorem unbroken_append : Unbroken (s ++ t) ↔ Unbroken s ∧ Unbroken t := by
  simp [Unbroken, not_or]

@[simp] theorem unbroken_join : Unbroken (String.join ls) ↔ ∀ l ∈ ls, Unbroken l := by
  simp [Unbroken]

theorem unbroken_intercalate (plain : Unbroken separator) :
    Unbroken (separator.intercalate ls) ↔ ∀ l ∈ ls, Unbroken l := by
  induction ls with
  | nil => simp [Unbroken]
  | cons l rest ih =>
    cases rest with
    | nil => simp
    | cons next rest =>
      rw [String.intercalate_cons_of_ne_nil (List.cons_ne_nil _ _)]
      simp only [unbroken_append, ih, plain, and_true, List.forall_mem_cons]

theorem ne_of_mem {c : Char} (member : c ∈ s.toList) (missing : c ∉ t.toList) : s ≠ t :=
  fun same => missing (same ▸ member)

theorem not_mem_of_mem_splitOnP {α : Type} {p : α → Bool} {xs piece : List α} {x : α}
    (member : piece ∈ xs.splitOnP p) (divides : p x) : x ∉ piece := by
  induction xs generalizing piece with
  | nil =>
    rw [List.splitOnP_nil, List.mem_singleton] at member
    subst member
    exact List.not_mem_nil
  | cons y rest ih =>
    rw [List.splitOnP_cons_eq_if_modifyHead] at member
    split at member
    · rcases List.mem_cons.mp member with rfl | member
      · exact List.not_mem_nil
      · exact ih member
    · next plain =>
      obtain ⟨first, later, pieces⟩ := List.exists_cons_of_ne_nil (List.splitOnP_ne_nil p rest)
      rw [pieces, List.modifyHead_cons] at member
      rcases List.mem_cons.mp member with rfl | member
      · intro inside
        rcases List.mem_cons.mp inside with rfl | inside
        · exact plain divides
        · exact ih (pieces ▸ List.mem_cons_self) inside
      · exact ih (pieces ▸ List.mem_cons_of_mem _ member)

theorem unbroken_of_mem_lines (member : t ∈ lines s) : Unbroken t := by
  obtain ⟨piece, inside, rfl⟩ := List.mem_map.mp member
  rw [Unbroken, String.toList_ofList]
  rw [List.splitOn_eq_splitOnP] at inside
  exact not_mem_of_mem_splitOnP inside (beq_self_eq_true _)

theorem lines_of_unbroken (plain : Unbroken s) : lines s = [s] := by
  have piece : (['\n'].intercalate [s.toList]).splitOn '\n' = [s.toList] :=
    List.splitOn_intercalate '\n' (List.forall_mem_singleton.mpr plain) (List.cons_ne_nil _ _)
  rw [List.intercalate_singleton] at piece
  rw [lines, piece, List.map_singleton, String.ofList_toList]

theorem lines_append : lines (s ++ "\n" ++ t) = lines s ++ lines t := by
  have text : (s ++ "\n" ++ t).toList = s.toList ++ '\n' :: t.toList := by simp
  have pieces := List.splitOnP_append_cons (p := (· == '\n')) s.toList t.toList
    (beq_self_eq_true '\n')
  rw [lines, text, List.splitOn_eq_splitOnP, pieces, List.map_append, lines, lines,
    List.splitOn_eq_splitOnP, List.splitOn_eq_splitOnP]

theorem lines_intercalate (some : ls ≠ []) : lines ("\n".intercalate ls) = ls.flatMap lines := by
  induction ls with
  | nil => exact absurd rfl some
  | cons l rest ih =>
    by_cases last : rest = []
    · simp [last]
    · rw [String.intercalate_cons_of_ne_nil last, lines_append, ih last, List.flatMap_cons]

theorem lines_intercalate_eq (some : ls ≠ []) :
    lines ("\n".intercalate ls) = ls ↔ ∀ l ∈ ls, Unbroken l := by
  refine ⟨fun same l member => unbroken_of_mem_lines (same ▸ member), fun unbroken => ?_⟩
  have each : ls.map lines = ls.map ([·]) :=
    List.map_congr_left fun l member => lines_of_unbroken (unbroken l member)
  rw [lines_intercalate some, List.flatMap_def, each, ← List.flatMap_def, List.flatMap_singleton']

end HttpPlan.Text
