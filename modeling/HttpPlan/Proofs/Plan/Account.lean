import HttpPlan.Proofs.Plan.Scenarios
import HttpPlan.Proofs.Spec.Account

/-! The balance of a plan: every entry of the document is planned or skipped, every entry that is
skipped has one error, and nothing else does, so the exit code tells whether something was. -/
namespace HttpPlan

variable {document : SpecDocument} {config : Config} {strict : Bool} {d : Diagnostic}
  {ds : List Diagnostic}

namespace Diagnostic

theorem foldl_exitCode (code : Nat) :
    ds.foldl (fun code d => max code (d.severity.exitCode strict)) code =
      max code (exitCode strict ds) := by
  induction ds generalizing code with
  | nil => simp [exitCode]
  | cons d rest ih =>
    rw [exitCode, List.foldl_cons, List.foldl_cons, ih, ih]
    omega

theorem exitCode_cons :
    exitCode strict (d :: ds) = max (d.severity.exitCode strict) (exitCode strict ds) := by
  rw [exitCode, List.foldl_cons, foldl_exitCode, Nat.zero_max]

/-- A run fails on an error, and in strict mode on a warning. -/
theorem exitCode_eq : exitCode strict ds =
    if ∃ d ∈ ds, d.severity = .error ∨ (strict ∧ d.severity = .warning) then 1 else 0 := by
  induction ds with
  | nil => simp [exitCode]
  | cons d rest ih =>
    rw [exitCode_cons, ih]
    cases severity : d.severity <;> cases strict <;> simp [severity, Severity.exitCode] <;>
      split <;> decide

end Diagnostic

/-- The errors of a plan, its skipped entries and its exit codes, in balance with what was
listed. -/
structure TestPlan.Balanced (listed : List String) (plan : TestPlan) : Prop where
  divided : Interleaves (plan.operations.map (·.operation)) (plan.skipped.map (·.operation)) listed
  errors : (plan.diagnostics.filter (·.severity = .error)).map (·.message) =
    plan.skipped.map (·.reason)
  lenient : plan.exitCode false = if plan.skipped ≠ [] then 1 else 0
  strict : plan.exitCode true =
    if plan.skipped ≠ [] ∨ ∃ d ∈ plan.diagnostics, d.severity = .warning then 1 else 0

namespace Compilation

open Planner

/-- Planning adds no error, however many operations are planned. -/
theorem mild_operationPlans {operations : List Operation} {planner : Planner}
    (mild : Mild planner.diagnostics) :
    Mild (operationPlans document config operations planner).2.diagnostics := by
  induction operations generalizing planner with
  | nil => exact mild
  | cons op rest ih => exact ih (mild_plan mild)

end Compilation

open Compilation

/-- Where the errors are those of the skipped entries, the exit code follows from what is skipped
and from the warnings. -/
theorem TestPlan.balanced {listed : List String} {plan : TestPlan}
    (divided : Interleaves (plan.operations.map (·.operation)) (plan.skipped.map (·.operation)) listed)
    (errors : (plan.diagnostics.filter (·.severity = .error)).map (·.message) =
      plan.skipped.map (·.reason)) : plan.Balanced listed := by
  have failing : (∃ d ∈ plan.diagnostics, d.severity = .error) ↔ plan.skipped ≠ [] := by
    have counted := congrArg List.length errors
    rw [List.length_map, List.length_map] at counted
    rw [← List.length_pos_iff, ← counted, List.length_filter_pos_iff]
    simp
  refine ⟨divided, errors, ?_, ?_⟩
  · rw [TestPlan.exitCode, Diagnostic.exitCode_eq]
    refine if_congr ?_ rfl rfl
    simpa using failing
  · rw [TestPlan.exitCode, Diagnostic.exitCode_eq]
    refine if_congr ?_ rfl rfl
    simp only [true_and, and_or_left, exists_or, failing]

/-- Compiling keeps the balance of the document that was read. -/
theorem SpecDocument.balanced {listed : List String}
    (divided : Interleaves (document.operations.map Operation.label)
      (document.skipped.map (·.operation)) listed)
    (errors : (document.diagnostics.filter (·.severity = .error)).map (·.message) =
      document.skipped.map (·.error.message)) : (document.compile config).Balanced listed := by
  have planned : (document.compile config).operations.map (·.operation) =
      document.operations.map Operation.label := by
    rw [operations_compile, List.map_map]
    rfl
  have skipped : (document.compile config).skipped =
      document.skipped.map fun s => ⟨s.operation, s.error.message⟩ := rfl
  have added : Mild (operationPlans document config document.operations {}).2.diagnostics :=
    mild_operationPlans mild_nil
  have none : (operationPlans document config document.operations {}).2.diagnostics.filter
      (·.severity = .error) = [] :=
    List.filter_eq_nil_iff.mpr fun d member => by simpa using added d member
  refine TestPlan.balanced ?_ ?_
  · rw [planned, skipped, List.map_map]
    exact divided
  · have noted : (document.compile config).diagnostics =
        document.diagnostics ++ (operationPlans document config document.operations {}).2.diagnostics := rfl
    rw [noted, skipped, List.filter_append, none, List.append_nil, errors, List.map_map]
    rfl

/-- Whatever a document lists under its paths, each entry of it is planned or skipped, in order,
and each one skipped has its one error. -/
theorem SpecDocument.compile_balanced {root : Json} {paths : List (String × Json)}
    (listed : root.field? "paths" = some (.object paths)) : ∃ document, ofJson root = .ok document ∧
      Interleaves (document.operations.map Operation.label) (document.skipped.map (·.operation))
        (paths.flatMap (Building.itemLabels root)) ∧
      ∀ config, (document.compile config).Balanced (paths.flatMap (Building.itemLabels root)) := by
  cases root with
  | object fields =>
    have tallied : Building.Tallied _ (Building.allPaths (.ofJson (.object fields))) :=
      Building.tallied_allPaths listed
    exact ⟨_, rfl, tallied.divided, fun config => balanced tallied.divided tallied.errors⟩
  | _ => cases listed

/-- A path item that cannot be found, one with an operation that is well and one that is not, and
one that is no object. -/
def patchyPaths : List (String × Json) := [
  ("/lost", Building.referenceTo "Gone"),
  ("/trees", .object [("summary", .string "trees"),
    ("get", Building.respondingWith (.object [("type", .string "string")])),
    ("put", Building.respondingWith (Building.referenceTo "Gone"))]),
  ("/text", .string "none"),
  ("/again", .object [("post", .null)])]

def patchyDocument : Json := .object [("paths", .object patchyPaths)]

theorem SpecDocument.compile_balanced_patchy :
    ∃ document, ofJson patchyDocument = .ok document ∧
      document.operations.map Operation.label = ["GET /trees", "POST /again"] ∧
      document.skipped.map (·.operation) = ["* /lost", "PUT /trees"] ∧
      (document.compile {}).Balanced ["* /lost", "GET /trees", "PUT /trees", "POST /again"] := by
  obtain ⟨document, read, kept, left⟩ : ∃ document, ofJson patchyDocument = .ok document ∧
      document.operations.map Operation.label = ["GET /trees", "POST /again"] ∧
      document.skipped.map (·.operation) = ["* /lost", "PUT /trees"] :=
    ⟨_, rfl, by decide +kernel, by decide +kernel⟩
  have listed : patchyDocument.field? "paths" = some (.object patchyPaths) := rfl
  have labels : patchyPaths.flatMap (Building.itemLabels patchyDocument) =
      ["* /lost", "GET /trees", "PUT /trees", "POST /again"] := by decide +kernel
  obtain ⟨other, also, -, balanced⟩ := compile_balanced listed
  cases read.symm.trans also
  exact ⟨document, read, kept, left, labels ▸ balanced {}⟩

end HttpPlan
