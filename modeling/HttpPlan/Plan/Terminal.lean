import HttpPlan.Plan

/-! A plan as a summary to read: one line for each scenario, then what was skipped and noticed. -/
namespace HttpPlan

def ScenarioPlan.summaryLine (s : ScenarioPlan) : String :=
  let assertions := Assertion.count s.assertions
  "  [" ++ s.kind.slug ++ "] " ++ s.request.pathAndQuery ++ " -> " ++ toString s.expectedStatus ++
    (if 0 < assertions then ", " ++ toString assertions ++ " assertions" else "")

def OperationPlan.summaryLines (op : OperationPlan) : List String :=
  [op.operation ++ " (" ++ toString op.scenarios.length ++ " scenarios):"] ++
    (op.summary.toList.map ("  # " ++ ·)) ++ op.scenarios.map ScenarioPlan.summaryLine ++ [""]

namespace TestPlan

def heading (plan : TestPlan) : String :=
  match plan.title, plan.version with
  | some title, some version => title ++ " " ++ version
  | some title, none => title
  | none, _ => "API"

def skippedLines (plan : TestPlan) : List String :=
  if plan.skipped.isEmpty then []
  else
    ["Skipped (" ++ toString plan.skipped.length ++ "):"] ++
      plan.skipped.map (fun s => "  " ++ s.operation ++ ": " ++ s.reason) ++ [""]

def diagnosticLines (plan : TestPlan) : List String :=
  if plan.diagnostics.isEmpty then []
  else "Diagnostics:" :: plan.diagnostics.map fun d => "  " ++ d.text

def terminalText (plan : TestPlan) : String :=
  let top := "Test plan for " ++ plan.heading ++ ": " ++ toString plan.operations.length ++
    " operations, " ++ toString plan.scenarioCount ++ " scenarios\n"
  "\n".intercalate <| [top] ++ plan.operations.flatMap OperationPlan.summaryLines ++
    plan.skippedLines ++ plan.diagnosticLines

end TestPlan

end HttpPlan
