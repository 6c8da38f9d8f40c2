import HttpPlan.Placeholder

/-! A value depends on nothing that was noted before it: making one gives what a fresh start gives,
and the notes of the fresh start, under the operation at work, come behind the earlier ones. -/
namespace HttpPlan.Synthesizer

/-- The notes of a fresh start behind those of `s`, under its operation. -/
def after (s fresh : Synthesizer) : Synthesizer :=
  { s with notes := s.notes ++ fresh.notes.map fun d => { d with operation := s.operation } }

variable {arena : SchemaArena} {node : SchemaNode} {id : SchemaId} {name : String} {r : Random}
  {s a b : Synthesizer}

@[simp] theorem after_fresh : s.after {} = s := by simp [after]

theorem after_after : (s.after a).after b = s.after (a.after b) := by
  simp [after, List.append_assoc, Function.comp_def]

theorem note_eq {severity : Severity} {message : String} :
    s.note severity message = s.after (({} : Synthesizer).note severity message) := by
  simp [after, note]

theorem textLength_eq : textLength node name s =
    ((textLength node name {}).1, s.after (textLength node name {}).2) := by
  unfold textLength
  dsimp only
  split
  · rw [warn, note_eq]; rfl
  · rw [after_fresh]

theorem patternNote_eq : patternNote node name s = s.after (patternNote node name {}) := by
  unfold patternNote
  split
  · exact note_eq
  · exact after_fresh.symm

theorem text_eq : text node name r s =
    ((text node name r {}).1, (text node name r {}).2.1, s.after (text node name r {}).2.2) := by
  unfold text
  split
  · simp
  · split
    · simp
    · dsimp only
      rw [patternNote_eq, textLength_eq, textLength_eq (s := patternNote node name {}), after_after]

theorem integer_eq : integer node name s =
    ((integer node name {}).1, s.after (integer node name {}).2) := by
  unfold integer
  split
  · split
    · rw [warn, note_eq]; rfl
    · rw [after_fresh]
  all_goals rw [after_fresh]

theorem number_eq : number node name s =
    ((number node name {}).1, s.after (number node name {}).2) := by
  unfold number
  split
  · split
    · dsimp only; rw [warn, note_eq]; rfl
    · rw [after_fresh]
  all_goals rw [after_fresh]

/-- A fold does no more than its steps. -/
theorem foldl_eq {ι β : Type} {items : List ι} {start : β}
    {step : β × Random × Synthesizer → ι → β × Random × Synthesizer}
    (each : ∀ item made r s, step (made, r, s) item = ((step (made, r, {}) item).1,
      (step (made, r, {}) item).2.1, s.after (step (made, r, {}) item).2.2)) :
    items.foldl step (start, r, s) = ((items.foldl step (start, r, {})).1,
      (items.foldl step (start, r, {})).2.1, s.after (items.foldl step (start, r, {})).2.2) := by
  induction items generalizing start r s with
  | nil => simp
  | cons item rest ih =>
    have first := each item start r s
    generalize alone : step (start, r, {}) item = fresh at first
    obtain ⟨made, next, noted⟩ := fresh
    rw [List.foldl_cons, List.foldl_cons, first, alone, ih, ih (s := noted), after_after]

theorem value_eq {fuel : Nat} {inside : List SchemaId} : value arena fuel inside id name r s =
    ((value arena fuel inside id name r {}).1, (value arena fuel inside id name r {}).2.1,
      s.after (value arena fuel inside id name r {}).2.2) := by
  induction fuel generalizing inside id name r s with
  | zero => simp [value]
  | succ fuel ih =>
    unfold value
    dsimp only
    split
    · simp
    · split
      · simp
      · split
        · dsimp only; rw [text_eq]
        · dsimp only; rw [integer_eq]
        · dsimp only; rw [number_eq]
        · simp
        · simp
        · split
          · simp
          · dsimp only; rw [ih]
        · dsimp only
          rw [foldl_eq]
          rintro ⟨key, child⟩ fields r s
          dsimp only
          rw [ih]
        · split
          · simp
          · rw [ih]
        · simp

theorem synthesize_eq : s.synthesize arena id name =
    ((({} : Synthesizer).synthesize arena id name).1,
      s.after (({} : Synthesizer).synthesize arena id name).2) := by
  unfold synthesize
  dsimp only
  rw [value_eq]

end HttpPlan.Synthesizer
