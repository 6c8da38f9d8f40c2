import HttpPlan.Assertion.Derivation
import HttpPlan.Scenario
import HttpPlan.Spec.Building

/-! From an API description to its test plan. Scenarios that expect success have the body
assertions of their response schema; the others check the status alone. -/
namespace HttpPlan

namespace Compilation

def withAssertions (arena : SchemaArena) (op : Operation) (s : ScenarioPlan) : ScenarioPlan :=
  if 200 ≤ s.expectedStatus && s.expectedStatus < 300 then
    match op.responseSchema? s.expectedStatus with
    | some schema => { s with assertions := arena.assertions schema }
    | none => s
  else s

def operationPlan (arena : SchemaArena) (op : Operation) (scenarios : List ScenarioPlan) :
    OperationPlan :=
  { operation := op.label
    method := op.method
    path := op.path.text
    operationId := op.operationId
    summary := op.summary
    tags := op.tags
    scenarios := scenarios.map (withAssertions arena op) }

def operationPlans (document : SpecDocument) (config : Config) :
    List Operation → Planner → List OperationPlan × Planner
  | [], planner => ([], planner)
  | op :: rest, planner =>
    let (scenarios, planner) := planner.plan document config op
    let (plans, planner) := operationPlans document config rest planner
    (operationPlan document.schemas op scenarios :: plans, planner)

def testPlan (document : SpecDocument) (operations : List OperationPlan) (planner : Planner) :
    TestPlan :=
  { title := document.title
    version := document.version
    skipped := document.skipped.map fun s => ⟨s.operation, s.error.message⟩
    diagnostics := document.diagnostics ++ planner.diagnostics
    operations }

end Compilation

open Compilation in
def SpecDocument.compile (document : SpecDocument) (config : Config) : TestPlan :=
  let (operations, planner) := operationPlans document config document.operations {}
  testPlan document operations planner

def TestPlan.ofDescription (root : Json) (config : Config) : Except BuildError TestPlan :=
  (SpecDocument.ofJson root).map (·.compile config)

end HttpPlan
