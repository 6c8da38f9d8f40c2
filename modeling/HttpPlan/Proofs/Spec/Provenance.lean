import HttpPlan.Proofs.Spec.Leniency

/-! Every operation of a document was met and read without a failure, and what had been resolved for
it by then stands in the document. -/
namespace HttpPlan

/-- What a fold comes to and did not start with, one of its steps brings about. -/
theorem exists_step {σ ι : Type} {step : σ → ι → σ} {motive : σ → Prop} {items : List ι} {start : σ}
    (before : ¬ motive start) (after : motive (items.foldl step start)) :
    ∃ done item rest, items = done ++ item :: rest ∧ ¬ motive (done.foldl step start) ∧
      motive (step (done.foldl step start) item) := by
  induction items generalizing start with
  | nil => exact absurd after before
  | cons first rest ih =>
    by_cases now : motive (step start first)
    · exact ⟨[], first, rest, rfl, before, now⟩
    · obtain ⟨done, item, others, rfl, earlier, later⟩ := ih now after
      exact ⟨first :: done, item, others, rfl, earlier, later⟩

namespace Building

open Resolver

variable {source : Source} {p : Progress} {path method : String} {item raw : Json} {op : Operation}

theorem read_of_added (absent : op ∉ p.operations)
    (added : op ∈ (addOperation source path item p (method, raw)).operations) :
    method ∈ methods ∧ ∃ notes after,
      Building.operation source method path item raw p.resolver = .ok (op, notes) after := by
  by_cases known : method ∈ methods
  · refine ⟨known, ?_⟩
    cases run : Building.operation source method path item raw p.resolver with
    | error error after => simp [addOperation, run, known, Progress.skip, absent] at added
    | ok built after =>
      rw [addOperation_ok known run] at added
      obtain rfl : op = built.1 := by
        simpa using (List.mem_append.mp added).resolve_left absent
      exact ⟨built.2, after, rfl⟩
  · simp [addOperation, known, absent] at added

/-- An operation that a document was found to have, with the reading that it comes from. -/
theorem exists_met (member : op ∈ (allPaths source).operations) :
    ∃ path item method raw p notes after, Met source path item method raw p ∧
      Building.operation source method path item raw p.resolver = .ok (op, notes) after := by
  cases paths : source.root.field? "paths" with
  | none => simp [allPaths, paths] at member
  | some given =>
    cases given with
    | object entries =>
      simp only [allPaths, paths] at member
      obtain ⟨before, ⟨path, raw⟩, after, rfl, absent, added⟩ :=
        exists_step (motive := fun p : Progress => op ∈ p.operations) (by simp) member
      cases found : source.root.deref raw with
      | error error => simp [addPath, found, Progress.skip, absent] at added
      | ok item =>
        simp only [addPath, found] at added
        obtain ⟨done, ⟨method, operation⟩, rest, split, absent, added⟩ :=
          exists_step (motive := fun p : Progress => op ∈ p.operations) absent added
        obtain ⟨known, notes, reached, run⟩ := read_of_added absent added
        have fields : item.fields? = some (done ++ (method, operation) :: rest) := by
          cases fields : item.fields? with
          | none => simp [fields] at split
          | some entries => simpa [fields] using split
        exact ⟨path, item, method, operation, _, notes, reached, .intro paths found fields known, run⟩
    | _ => simp [allPaths, paths] at member

/-- What had been resolved when an operation had been read, is in the document. -/
theorem Met.retains {notes : List Diagnostic} {after : Resolver}
    (met : Met source path item method raw p)
    (run : Building.operation source method path item raw p.resolver = .ok (op, notes) after) :
    Retains after (allPaths source).resolver := by
  have known : method ∈ methods := by
    cases met with
    | intro _ _ _ known => exact known
  have continues := met.continues
  rw [addOperation_ok known run] at continues
  exact continues.retains

end Building

end HttpPlan
