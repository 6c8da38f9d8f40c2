import HttpPlan.Proofs.Placeholder.Severity
import HttpPlan.Proofs.Spec.Order

/-! Every entry of a document is accounted for once: it is read or it is skipped, in the order in
which it is listed, and what is skipped has one error to show for it. -/
namespace HttpPlan

/-- Two lists shuffled into one, each in its own order. -/
inductive Interleaves {α : Type} : List α → List α → List α → Prop
  | nil : Interleaves [] [] []
  | first {a : α} {one other all : List α} (rest : Interleaves one other all) :
      Interleaves (a :: one) other (a :: all)
  | last {a : α} {one other all : List α} (rest : Interleaves one other all) :
      Interleaves one (a :: other) (a :: all)

theorem Interleaves.append {α : Type} {one other all one' other' all' : List α}
    (before : Interleaves one other all) (after : Interleaves one' other' all') :
    Interleaves (one ++ one') (other ++ other') (all ++ all') := by
  induction before with
  | nil => exact after
  | first _ ih => exact .first ih
  | last _ ih => exact .last ih

namespace Building

open Resolver

variable {root item raw : Json} {label name path method : String} {inputs : Inputs}
  {place : ParameterLocation} {source : Source} {p : Progress} {r : Resolver}
  {listed : List String}

theorem yields_addParameter_mild (mild : Mild inputs.notes) :
    Yields (addParameter root label inputs raw) r (fun now _ => Mild now.notes)
      (fun _ _ => True) := by
  unfold addParameter
  split
  · trivial
  · split
    · exact mild_append.mpr ⟨mild, mild_singleton (by simp)⟩
    · dsimp only
      split
      · split
        · exact mild
        · exact (yields_anyway _ r).bind fun _ _ _ => mild
      · split
        · exact mild_append.mpr ⟨mild, mild_singleton (by simp)⟩
        · exact (yields_anyway _ r).bind fun _ _ _ => mild

theorem yields_addResponse_mild {done : Responses × List Diagnostic} {entry : String × Json}
    (mild : Mild done.2) :
    Yields (addResponse root label done entry) r (fun now _ => Mild now.2) (fun _ _ => True) := by
  unfold addResponse
  dsimp only
  split
  · split
    · exact mild
    · exact mild_append.mpr ⟨mild, mild_singleton (by simp)⟩
  · split
    · trivial
    · split
      · exact yields_bind.mpr ((yields_anyway _ r).bind fun _ _ _ => mild)
      · exact mild

theorem mild_undeclaredNotes {security : List String} :
    Mild (undeclaredNotes source label security) := by
  intro d member
  obtain ⟨name, -, rfl⟩ := List.mem_map.mp member
  simp

/-- An operation that is read has no error among its notes. -/
theorem yields_mild (source : Source) (method path : String) (item operation : Json)
    (r : Resolver) : Yields (Building.operation source method path item operation) r
      (fun built _ => Mild built.2) (fun _ _ => True) := by
  unfold Building.operation
  split
  · trivial
  · dsimp only
    refine (yields_foldlM (fun raw _ inputs s mild => yields_addParameter_mild mild) mild_nil).bind
      fun inputs s parameters => ?_
    split
    · trivial
    · refine (yields_anyway _ s).bind fun body t _ => ?_
      refine (yields_foldlM (fun entry _ done u mild => yields_addResponse_mild mild) mild_nil).bind
        fun done u responses => ?_
      exact mild_append.mpr ⟨mild_append.mpr ⟨parameters, responses⟩, mild_undeclaredNotes⟩

/-- The label of an entry of a path item, where it is an operation. -/
def operationLabels (path : String) (entry : String × Json) : List String :=
  if methods.contains entry.1 then [Building.label entry.1 path] else []

/-- The labels of a path item: one for each operation in it, or one for the item as a whole where
it cannot be found. -/
def itemLabels (root : Json) (entry : String × Json) : List String :=
  match root.deref entry.2 with
  | .error _ => ["* " ++ entry.1]
  | .ok item => (item.fields?.getD []).flatMap (operationLabels entry.1)

/-- What has been read of the entries that were listed so far. -/
structure Tallied (listed : List String) (p : Progress) : Prop where
  divided : Interleaves (p.operations.map Operation.label) (p.skipped.map (·.operation)) listed
  errors : (p.diagnostics.filter (·.severity = .error)).map (·.message) =
    p.skipped.map (·.error.message)

theorem Tallied.start : Tallied [] {} := ⟨.nil, rfl⟩

theorem Tallied.skip {label subject : String} {error : BuildError} {resolver : Resolver}
    (tallied : Tallied listed p) :
    Tallied (listed ++ [subject]) ({ p with resolver }.skip label subject error) where
  divided := by
    have one : Interleaves [] [subject] [subject] := .last .nil
    simpa [Progress.skip] using tallied.divided.append one
  errors := by simp [Progress.skip, tallied.errors]

theorem Tallied.addOperation {entry : String × Json} (tallied : Tallied listed p) :
    Tallied (listed ++ operationLabels path entry) (addOperation source path item p entry) := by
  obtain ⟨method, raw⟩ := entry
  by_cases known : method ∈ methods
  · have listing : operationLabels path (method, raw) = [Building.label method path] := by
      simp [operationLabels, known]
    rw [listing]
    cases run : Building.operation source method path item raw p.resolver with
    | error error after => simpa [Building.addOperation, run, known] using tallied.skip
    | ok built after =>
      have labelled := yields_ok run (yields_label source method path item raw p.resolver)
      have mild := yields_ok run (yields_mild source method path item raw p.resolver)
      rw [addOperation_ok known run]
      refine ⟨?_, ?_⟩
      · have one : Interleaves [Building.label method path] [] [Building.label method path] :=
          .first .nil
        simpa [labelled] using tallied.divided.append one
      · have none : built.2.filter (·.severity = .error) = [] :=
          List.filter_eq_nil_iff.mpr fun d member => by simpa using mild d member
        simpa [none] using tallied.errors
  · simpa [Building.addOperation, operationLabels, known] using tallied

/-- Steps that each account for their own entry account for all of them. -/
theorem Tallied.foldl {ι : Type} {step : Progress → ι → Progress} {labels : ι → List String}
    {items : List ι} (tallied : Tallied listed p)
    (each : ∀ i p listed, Tallied listed p → Tallied (listed ++ labels i) (step p i)) :
    Tallied (listed ++ items.flatMap labels) (items.foldl step p) := by
  induction items generalizing p listed with
  | nil => simpa using tallied
  | cons i rest ih => simpa [List.append_assoc] using ih (each i p listed tallied)

theorem Tallied.addPath {entry : String × Json} (tallied : Tallied listed p) :
    Tallied (listed ++ itemLabels source.root entry) (addPath source p entry) := by
  cases found : source.root.deref entry.2 with
  | error error =>
    simp only [itemLabels, Building.addPath, found]
    exact tallied.skip
  | ok item =>
    simp only [itemLabels, Building.addPath, found]
    exact tallied.foldl fun _ _ _ now => now.addOperation

theorem tallied_allPaths {paths : List (String × Json)}
    (found : source.root.field? "paths" = some (.object paths)) :
    Tallied (paths.flatMap (itemLabels source.root)) (allPaths source) := by
  simp only [allPaths, found]
  exact Tallied.start.foldl fun _ _ _ now => now.addPath

end Building

end HttpPlan
