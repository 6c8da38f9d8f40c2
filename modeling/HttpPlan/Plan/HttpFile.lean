import HttpPlan.Json.Printer
import HttpPlan.Plan
import HttpPlan.Text

/-! A plan as a request file: a block for each scenario, with its expectations as comments. The
base URL is left to a variable of the file. -/
namespace HttpPlan

/-- A reference to a variable of the request file. -/
def fileVariable (name : String) : String := "\x7b\x7b" ++ name ++ "\x7d\x7d"

namespace RequestPlan

/-- The header lines; a body without a declared content type is JSON. -/
def headerLines (request : RequestPlan) : List String :=
  let declared := request.headers.keys.any (Text.sameIgnoringCase "content-type")
  (request.headers.entries.map fun (name, value) => name ++ ": " ++ value) ++
    (if request.body.isSome && !declared then ["Content-Type: application/json"] else [])

def bodyLines (request : RequestPlan) : List String :=
  match request.body with
  | some body => "" :: body.prettyLines
  | none => []

end RequestPlan

def ScenarioPlan.httpLines (baseUrl : String) (s : ScenarioPlan) : List String :=
  ["### " ++ s.name, "# expect " ++ toString s.expectedStatus] ++
    (s.assertions.map fun a => "# assert " ++ a.describe) ++
    [s.request.method ++ " " ++ fileVariable baseUrl ++ s.request.pathAndQuery] ++
    s.request.headerLines ++ s.request.bodyLines

def ScenarioPlan.httpText (baseUrl : String) (s : ScenarioPlan) : String :=
  "\n".intercalate (s.httpLines baseUrl)

def OperationPlan.httpLines (baseUrl : String) (op : OperationPlan) : List String :=
  (match op.summary with
    | some summary => ["# " ++ op.operation ++ ": " ++ summary, ""]
    | none => []) ++
    op.scenarios.flatMap fun s => s.httpLines baseUrl ++ ["", "###", ""]

/-- The whole file; `baseUrl` names its variable. -/
def TestPlan.httpText (baseUrl : String) (plan : TestPlan) : String :=
  let top := "# Auto-generated test plan (" ++ toString plan.operations.length ++
    " operations, " ++ toString plan.scenarioCount ++ " scenarios)"
  "\n".intercalate <| [top, "# Base URL variable: " ++ fileVariable baseUrl, ""] ++
    plan.operations.flatMap (·.httpLines baseUrl)

end HttpPlan
