import HttpPlan.Plan.Compilation
import HttpPlan.Proofs.Scenario.Planned
import Mathlib.Data.List.Forall2

/-! Compiling a document plans its operations one by one, each as from a fresh start. -/
namespace HttpPlan

variable {document : SpecDocument} {arena : SchemaArena} {config : Config} {op : Operation}

namespace Compilation

open Planner

/-- Assertions are all that a scenario is given. -/
theorem withAssertions_eq {s : ScenarioPlan} : withAssertions arena op s =
    { s with assertions := if 200 ≤ s.expectedStatus && s.expectedStatus < 300 then
        ((op.responseSchema? s.expectedStatus).map arena.assertions).getD s.assertions
      else s.assertions } := by
  unfold withAssertions
  split
  · cases op.responseSchema? s.expectedStatus <;> rfl
  · rfl

@[simp] theorem kind_withAssertions {s : ScenarioPlan} :
    (withAssertions arena op s).kind = s.kind := by rw [withAssertions_eq]

@[simp] theorem request_withAssertions {s : ScenarioPlan} :
    (withAssertions arena op s).request = s.request := by rw [withAssertions_eq]

@[simp] theorem expectedStatus_withAssertions {s : ScenarioPlan} :
    (withAssertions arena op s).expectedStatus = s.expectedStatus := by rw [withAssertions_eq]

/-- The plan of an operation, from a fresh start. -/
def freshPlan (document : SpecDocument) (config : Config) (op : Operation) : OperationPlan :=
  operationPlan document.schemas op (freshScenarios document config op)

theorem operationPlans_fst {operations : List Operation} {planner : Planner} :
    (operationPlans document config operations planner).1 =
      operations.map (freshPlan document config) := by
  induction operations generalizing planner with
  | nil => rfl
  | cons op rest ih =>
    simp only [operationPlans, ih, plan_fst, List.map_cons]
    rfl

/-- A planned scenario comes about in one of the known ways. -/
theorem arises_of_mem {s : ScenarioPlan} (member : s ∈ (freshPlan document config op).scenarios) :
    ∃ change credential, Arises document config op s.kind change credential s.expectedStatus ∧
      s.request = (base document config op).request change credential := by
  obtain ⟨scenario, planned, rfl⟩ := List.mem_map.mp member
  obtain ⟨kind, change, credential, status, arises, rfl⟩ := mem_freshScenarios.mp planned
  exact ⟨change, credential, by simpa [RequestBase.scenario] using arises,
    by simp [RequestBase.scenario]⟩

/-- Each known way gives a planned scenario. -/
theorem exists_mem_of_arises {kind : ScenarioKind} {change : Departure} {credential : Option String}
    {status : Nat} (arises : Arises document config op kind change credential status) :
    ∃ s ∈ (freshPlan document config op).scenarios, s.kind = kind ∧ s.expectedStatus = status ∧
      s.request = (base document config op).request change credential := by
  have planned := mem_freshScenarios.mpr ⟨kind, change, credential, status, arises, rfl⟩
  exact ⟨_, List.mem_map_of_mem planned, by simp [RequestBase.scenario],
    by simp [RequestBase.scenario], by simp [RequestBase.scenario]⟩

end Compilation

open Compilation

theorem SpecDocument.operations_compile :
    (document.compile config).operations = document.operations.map (freshPlan document config) := by
  unfold SpecDocument.compile testPlan
  exact operationPlans_fst

/-- What holds of each operation with its plan from a fresh start, holds of the compiled plans. -/
theorem SpecDocument.forall₂_compile {holds : Operation → OperationPlan → Prop}
    (each : ∀ op ∈ document.operations, holds op (freshPlan document config op)) :
    List.Forall₂ holds document.operations (document.compile config).operations := by
  rw [operations_compile, List.forall₂_map_right_iff, List.forall₂_same]
  exact each

end HttpPlan
