import HttpPlan.Assertion
import HttpPlan.Diagnostic
import HttpPlan.OrderedMap
import HttpPlan.Spec.Document
import HttpPlan.Text

/-! Test plans: fully resolved requests with the answers expected of them. Nothing in a plan
refers back to the document that it was made from. -/
namespace HttpPlan

/-- The contract that a scenario exercises. -/
inductive ScenarioKind where
  | happy
  | missingRequiredParameter (parameter : String) (location : ParameterLocation)
  | unauthenticated
  | invalidCredential
  | insufficientPermission
  | notFound (parameter : String)
deriving DecidableEq, Repr

structure RequestPlan where
  method : String
  /-- Placeholders substituted and percent-encoded. -/
  path : String
  query : OrderedMap String String := ∅
  headers : OrderedMap String String := ∅
  body : Option Json := none
deriving DecidableEq

structure ScenarioPlan where
  /-- The label of the operation. -/
  operation : String
  name : String
  kind : ScenarioKind
  request : RequestPlan
  expectedStatus : Nat
  assertions : List Assertion := []

structure OperationPlan where
  operation : String
  method : String
  /-- The path template. -/
  path : String
  operationId : Option String := none
  summary : Option String := none
  tags : List String := []
  scenarios : List ScenarioPlan

/-- An operation that was left out, and why. -/
structure SkippedEntry where
  operation : String
  reason : String
deriving DecidableEq, Repr

structure TestPlan where
  title : Option String := none
  version : Option String := none
  operations : List OperationPlan
  skipped : List SkippedEntry := []
  diagnostics : List Diagnostic := []

namespace ScenarioKind

def slug : ScenarioKind → String
  | happy => "happy"
  | missingRequiredParameter .. => "missing-required-parameter"
  | unauthenticated => "unauthenticated"
  | invalidCredential => "invalid-credential"
  | insufficientPermission => "insufficient-permission"
  | notFound _ => "not-found"

/-- What the scenario shows, as the end of a sentence about the operation. -/
def describe : ScenarioKind → String
  | happy => "succeeds with valid input"
  | missingRequiredParameter parameter location =>
    "rejects missing required " ++ location.name ++ " parameter '" ++ parameter ++ "'"
  | unauthenticated => "rejects requests without credentials"
  | invalidCredential => "rejects an unrecognized credential"
  | insufficientPermission => "rejects an under-scoped credential"
  | notFound parameter => "returns not found for an absent '" ++ parameter ++ "'"

end ScenarioKind

namespace RequestPlan

def queryEntry (entry : String × String) : String :=
  Percent.encode entry.1 ++ "=" ++ Percent.encode entry.2

def pathAndQuery (request : RequestPlan) : String :=
  if request.query.isEmpty then request.path
  else request.path ++ "?" ++ "&".intercalate (request.query.entries.map queryEntry)

end RequestPlan

namespace TestPlan

def scenarios (plan : TestPlan) : List ScenarioPlan := plan.operations.flatMap (·.scenarios)

def scenarioCount (plan : TestPlan) : Nat := plan.scenarios.length

def hasErrors (plan : TestPlan) : Bool := plan.diagnostics.any (·.severity = .error)

def hasWarnings (plan : TestPlan) : Bool := plan.diagnostics.any (·.severity = .warning)

def exitCode (strict : Bool) (plan : TestPlan) : Nat := Diagnostic.exitCode strict plan.diagnostics

end TestPlan

end HttpPlan
