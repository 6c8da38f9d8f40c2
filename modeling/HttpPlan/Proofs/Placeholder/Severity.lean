import HttpPlan.Scenario

/-! Making values and planning scenarios give rise to warnings at most, never to errors. -/
namespace HttpPlan

/-- Notes none of which is an error. -/
def Mild (notes : List Diagnostic) : Prop := ∀ d ∈ notes, d.severity ≠ .error

theorem mild_nil : Mild [] := fun _ member => by cases member

theorem mild_singleton {d : Diagnostic} (mild : d.severity ≠ .error) : Mild [d] :=
  fun _ member => List.mem_singleton.mp member ▸ mild

theorem mild_append {first last : List Diagnostic} : Mild (first ++ last) ↔ Mild first ∧ Mild last :=
  List.forall_mem_append

namespace Synthesizer

variable {arena : SchemaArena} {node : SchemaNode} {id : SchemaId} {name message : String}
  {r : Random} {s : Synthesizer} {severity : Severity}

theorem mild_note (mild : Mild s.notes) (below : severity ≠ .error) :
    Mild (s.note severity message).notes :=
  mild_append.mpr ⟨mild, mild_singleton below⟩

theorem mild_text (mild : Mild s.notes) : Mild (text node name r s).2.2.notes := by
  unfold text textLength patternNote
  split
  · exact mild
  · split
    · exact mild
    · have noted : Mild (if node.pattern.isSome then s.note .info
          ("'" ++ name ++ "': pattern is not used for value synthesis") else s).notes := by
        split
        · exact mild_note mild (by decide)
        · exact mild
      dsimp only
      split
      · exact mild_note noted (by decide)
      · exact noted

theorem mild_integer (mild : Mild s.notes) : Mild (integer node name s).2.notes := by
  unfold integer
  split
  · split
    · exact mild_note mild (by decide)
    · exact mild
  all_goals exact mild

theorem mild_number (mild : Mild s.notes) : Mild (number node name s).2.notes := by
  unfold number
  split
  · split
    · exact mild_note mild (by decide)
    · exact mild
  all_goals exact mild

theorem mild_value {fuel : Nat} {inside : List SchemaId} (mild : Mild s.notes) :
    Mild (value arena fuel inside id name r s).2.2.notes := by
  induction fuel generalizing inside id name r s with
  | zero => exact mild
  | succ fuel ih =>
    unfold value
    dsimp only
    split
    · exact mild
    · split
      · exact mild
      · split
        · exact mild_text mild
        · exact mild_integer mild
        · exact mild_number mild
        · exact mild
        · exact mild
        · split
          · exact mild
          · exact ih mild
        · refine List.foldlRecOn
            (motive := fun made : List (String × Json) × Random × Synthesizer => Mild made.2.2.notes)
            _ _ mild ?_
          rintro ⟨fields, r, s⟩ mild ⟨key, child⟩ -
          exact ih mild
        · split
          · exact mild
          · exact ih mild
        · exact mild

theorem mild_synthesize (mild : Mild s.notes) : Mild (s.synthesize arena id name).2.notes := by
  unfold synthesize
  exact mild_value mild

end Synthesizer

namespace Planner

variable {document : SpecDocument} {arena : SchemaArena} {config : Config} {op : Operation}
  {p : Parameter} {s : Synthesizer} {planner : Planner}

theorem mild_parameterValue (mild : Mild s.notes) :
    Mild (parameterValue arena config p s).2.notes := by
  unfold parameterValue
  dsimp only
  split
  · exact mild
  · exact mild
  · exact Synthesizer.mild_synthesize mild

theorem mild_bind {parameters : List Parameter} (mild : Mild s.notes) :
    Mild (bind arena config parameters s).2.notes := by
  induction parameters generalizing s with
  | nil => exact mild
  | cons p rest ih =>
    unfold bind
    split
    · exact ih (mild_parameterValue mild)
    · exact ih mild

theorem mild_inputs (mild : Mild s.notes) : Mild (inputs arena config op s).2.2.notes := by
  unfold inputs bodyValue
  dsimp only
  split
  · exact Synthesizer.mild_synthesize (mild_bind mild)
  · exact mild_bind mild

theorem mild_missingNotes : Mild (missingNotes op) := by
  unfold missingNotes
  split
  · exact mild_singleton (by simp)
  · exact mild_nil

/-- Planning an operation adds no error. -/
theorem mild_plan (mild : Mild planner.diagnostics) :
    Mild (planner.plan document config op).2.diagnostics := by
  obtain ⟨notes, values⟩ := mild_append.mp mild
  exact mild_append.mpr ⟨mild_append.mpr ⟨notes, mild_missingNotes⟩, mild_inputs values⟩

end Planner

end HttpPlan
