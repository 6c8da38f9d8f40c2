import HttpPlan.Assertion.Interchange
import HttpPlan.Config
import HttpPlan.Plan

/-! Plans in the interchange format, written and read. Empty lists and maps of a request, a
scenario or an operation are left out, and so is what is absent. -/
namespace HttpPlan

/-- A field that is left out when there is nothing to say. -/
def optionalField (name : String) (v : Option Json) : List (String × Json) :=
  v.toList.map fun v => (name, v)

def filledField (name : String) (isEmpty : Bool) (v : Json) : List (String × Json) :=
  if isEmpty then [] else [(name, v)]

namespace Diagnostic

def ofJson? (v : Json) : Option Diagnostic := do
  let field ← v.record? ["severity", "operation", "message"]
  return {
    severity := ← (← field "severity").alternative? false >>= Severity.ofName?
    operation := ← Json.optional? Json.string? (field "operation")
    message := ← (← field "message").string? }

end Diagnostic

namespace ScenarioKind

def tag : ScenarioKind → String
  | happy => "happy"
  | missingRequiredParameter .. => "missing_required_parameter"
  | unauthenticated => "unauthenticated"
  | invalidCredential => "invalid_credential"
  | insufficientPermission => "insufficient_permission"
  | notFound _ => "not_found"

/-- All tags, in the order by which a number stands for one. -/
def tags : List String :=
  ["happy", "missing_required_parameter", "unauthenticated", "invalid_credential",
    "insufficient_permission", "not_found"]

def fields : ScenarioKind → List (String × Json)
  | missingRequiredParameter parameter location =>
    [("parameter", .string parameter), ("location", .string location.name)]
  | notFound parameter => [("parameter", .string parameter)]
  | _ => []

def ofFields? (tag : String) (field : String → Option Json) : Option ScenarioKind :=
  match tag with
  | "happy" => some happy
  | "missing_required_parameter" => do
    return missingRequiredParameter (← (← field "parameter").string?)
      (← (← field "location").alternative? true >>= ParameterLocation.ofName?)
  | "unauthenticated" => some unauthenticated
  | "invalid_credential" => some invalidCredential
  | "insufficient_permission" => some insufficientPermission
  | "not_found" => do return notFound (← (← field "parameter").string?)
  | _ => none

end ScenarioKind

namespace RequestPlan

def toJson (r : RequestPlan) : Json :=
  .object <| [("method", .string r.method), ("path", .string r.path)] ++
    filledField "query" r.query.isEmpty r.query.textJson ++
    filledField "headers" r.headers.isEmpty r.headers.textJson ++
    optionalField "body" r.body

def ofJson? (v : Json) : Option RequestPlan := do
  let field ← v.record? ["method", "path", "query", "headers", "body"]
  return {
    method := ← (← field "method").string?
    path := ← (← field "path").string?
    query := ← Json.withDefault? ∅ textMap? (field "query")
    headers := ← Json.withDefault? ∅ textMap? (field "headers")
    body := ← Json.optional? some (field "body") }

end RequestPlan

namespace ScenarioPlan

def toJson (s : ScenarioPlan) : Json :=
  .object <| [("operation", .string s.operation), ("name", .string s.name),
      ("kind", .string s.kind.tag)] ++
    s.kind.fields ++
    [("request", s.request.toJson), ("expected_status", .number (.int s.expectedStatus))] ++
    filledField "assertions" s.assertions.isEmpty (.array (Assertion.listToJson s.assertions))

/-- A status is a number of 16 bits. -/
def status? (v : Json) : Option Nat := do
  let code ← v.word?
  if code < 65536 then some code else none

/-- Scenarios mix their own fields with those of their kind, so they are objects only. -/
def ofJson? : Json → Option ScenarioPlan
  | .object fields => do
    let field (key : String) := fields.lookup key
    return {
      operation := ← (← field "operation").string?
      name := ← (← field "name").string?
      kind := ← ScenarioKind.ofFields? (← (← field "kind").tag? ScenarioKind.tags) field
      request := ← RequestPlan.ofJson? (← field "request")
      expectedStatus := ← status? (← field "expected_status")
      assertions := ← Json.withDefault? [] (·.listOf? Assertion.ofJson?) (field "assertions") }
  | _ => none

end ScenarioPlan

namespace OperationPlan

def toJson (op : OperationPlan) : Json :=
  .object <| [("operation", .string op.operation), ("method", .string op.method),
      ("path", .string op.path)] ++
    optionalField "operation_id" (op.operationId.map .string) ++
    optionalField "summary" (op.summary.map .string) ++
    filledField "tags" op.tags.isEmpty (.array (op.tags.map .string)) ++
    [("scenarios", .array (op.scenarios.map ScenarioPlan.toJson))]

def ofJson? (v : Json) : Option OperationPlan := do
  let field ← v.record?
    ["operation", "method", "path", "operation_id", "summary", "tags", "scenarios"]
  return {
    operation := ← (← field "operation").string?
    method := ← (← field "method").string?
    path := ← (← field "path").string?
    operationId := ← Json.optional? Json.string? (field "operation_id")
    summary := ← Json.optional? Json.string? (field "summary")
    tags := ← Json.withDefault? [] (·.listOf? Json.string?) (field "tags")
    scenarios := ← (← field "scenarios").listOf? ScenarioPlan.ofJson? }

end OperationPlan

namespace SkippedEntry

def toJson (s : SkippedEntry) : Json :=
  .object [("operation", .string s.operation), ("reason", .string s.reason)]

def ofJson? (v : Json) : Option SkippedEntry := do
  let field ← v.record? ["operation", "reason"]
  return ⟨← (← field "operation").string?, ← (← field "reason").string?⟩

end SkippedEntry

namespace TestPlan

def toJson (plan : TestPlan) : Json :=
  .object <| optionalField "title" (plan.title.map .string) ++
    optionalField "version" (plan.version.map .string) ++
    [("operations", .array (plan.operations.map OperationPlan.toJson)),
      ("skipped", .array (plan.skipped.map SkippedEntry.toJson)),
      ("diagnostics", .array (plan.diagnostics.map Diagnostic.toJson))]

def ofJson? (v : Json) : Option TestPlan := do
  let field ← v.record? ["title", "version", "operations", "skipped", "diagnostics"]
  return {
    title := ← Json.optional? Json.string? (field "title")
    version := ← Json.optional? Json.string? (field "version")
    operations := ← (← field "operations").listOf? OperationPlan.ofJson?
    skipped := ← Json.withDefault? [] (·.listOf? SkippedEntry.ofJson?) (field "skipped")
    diagnostics := ← Json.withDefault? [] (·.listOf? Diagnostic.ofJson?) (field "diagnostics") }

end TestPlan

end HttpPlan
