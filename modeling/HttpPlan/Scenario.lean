import HttpPlan.Placeholder
import HttpPlan.Plan
import HttpPlan.Scenario.Credential

/-! The scenarios of an operation, in a fixed order: the happy path, each required parameter left
out, the three failures of authentication, and an identifier that is not found. -/
namespace HttpPlan

/-- A parameter with the value that it has on the happy path. -/
structure Bound where
  param : Parameter
  value : String

/-- How a request departs from the happy path. -/
inductive Departure where
  | none
  | without (target : Parameter)
  | replacing (target : Parameter) (value : String)

namespace Departure

def concerns (target p : Parameter) : Bool :=
  target.name = p.name && target.location = p.location

/-- The value that a bound parameter travels with, if it does. -/
def valueOf? (change : Departure) (b : Bound) : Option String :=
  match change with
  | none => b.value
  | without target => if concerns target b.param then Option.none else b.value
  | replacing target value => if concerns target b.param then value else b.value

/-- Leaving out the parameter that is the credential leaves out the credential. -/
def dropsSlot (change : Departure) (slot : CredentialSlot) : Bool :=
  match change with
  | without target => slot.occupiedBy target
  | _ => false

end Departure

/-- What all requests of one operation share. -/
structure RequestBase where
  operation : Operation
  headers : OrderedMap String String
  bound : List Bound
  slot : Option CredentialSlot
  body : Option Json

namespace RequestBase

/-- The value of a path token. -/
def tokenValue? (base : RequestBase) (change : Departure) (token : String) : Option String := do
  let b ← base.bound.find? fun b => b.param.location = .path && b.param.name = token
  change.valueOf? b

/-- Adds a bound parameter, unless it stands in the credential slot. -/
def carry (slot : Option CredentialSlot) (change : Departure) (c : Carriage) (b : Bound) :
    Carriage :=
  if slot.any (·.occupiedBy b.param) then c
  else
    match change.valueOf? b, b.param.location with
    | some value, .query => { c with query := c.query.insert b.param.name value }
    | some value, .header => { c with headers := c.headers.insert b.param.name value }
    | _, _ => c

def clearSlot (base : RequestBase) (c : Carriage) : Carriage :=
  match base.slot with
  | some slot => slot.clear c
  | none => c

def fillSlot (base : RequestBase) (change : Departure) (credential : Option String)
    (c : Carriage) : Carriage :=
  match base.slot, credential with
  | some slot, some token => if change.dropsSlot slot then c else slot.fill token c
  | _, _ => c

/-- Configured headers come first, then the parameters, and the credential last. -/
def carriage (base : RequestBase) (change : Departure) (credential : Option String) : Carriage :=
  let start := base.clearSlot { headers := base.headers }
  base.fillSlot change credential (base.bound.foldl (carry base.slot change) start)

def request (base : RequestBase) (change : Departure) (credential : Option String) :
    RequestPlan :=
  let c := base.carriage change credential
  { method := base.operation.method
    path := base.operation.path.render (base.tokenValue? change)
    query := c.query
    headers := c.headers
    body := base.body }

/-- A scenario with its request. Assertions come later. -/
def scenario (base : RequestBase) (kind : ScenarioKind) (change : Departure)
    (credential : Option String) (status : Nat) : ScenarioPlan :=
  let label := base.operation.label
  { operation := label
    name := label ++ " " ++ kind.describe
    kind
    request := base.request change credential
    expectedStatus := status }

end RequestBase

/-- A nil identifier, which is never drawn. -/
def nilUuid : String := "00000000-0000-0000-0000-000000000000"

/-- The identifier that stands for nothing, where identifiers are free text. -/
def absentIdentifier : String := "apiplan-nonexistent-0"

/-- Plans the operations of one document. Notes on values are kept apart from other notes. -/
structure Planner where
  notes : List Diagnostic := []
  values : Synthesizer := {}

namespace Planner

/-- The happy-path value of a parameter: the configured one, the documented example, or a
placeholder. Path values come percent-encoded. -/
def parameterValue (arena : SchemaArena) (config : Config) (p : Parameter) (s : Synthesizer) :
    String × Synthesizer :=
  let isPath := p.location = .path
  let encodeIf (text : String) := if isPath then Percent.encode text else text
  match (if isPath then config.pathParams.get? p.name else none), p.exampleValue with
  | some fixed, _ => (encodeIf fixed, s)
  | none, some documented => (encodeIf documented.wireText, s)
  | none, none =>
    let (v, s) := s.synthesize arena p.schema p.name
    (encodeIf v.wireText, s)

/-- Required parameters and those with an example are bound. -/
def bind (arena : SchemaArena) (config : Config) :
    List Parameter → Synthesizer → List Bound × Synthesizer
  | [], s => ([], s)
  | p :: rest, s =>
    if p.required || p.exampleValue.isSome then
      let (value, s) := parameterValue arena config p s
      let (bound, s) := bind arena config rest s
      (⟨p, value⟩ :: bound, s)
    else bind arena config rest s

def bodyValue (arena : SchemaArena) (op : Operation) (s : Synthesizer) :
    Option Json × Synthesizer :=
  match op.requestBody with
  | some id =>
    let (v, s) := s.synthesize arena id "body"
    (some v, s)
  | none => (none, s)

/-- The last free-text path parameter in template order. -/
def notFoundTarget? (arena : SchemaArena) (op : Operation) : Option Parameter :=
  op.path.tokens.reverse.findSome? fun token =>
    op.pathParameters.find? fun p => p.name = token && (arena.node p.schema).isFreeString

def absentValue (arena : SchemaArena) (config : Config) (p : Parameter) : String :=
  match config.notFoundValue with
  | some value => value
  | none => if (arena.node p.schema).isUuid then nilUuid else absentIdentifier

def missingScenarios (base : RequestBase) (credentials : Credentials) : List ScenarioPlan :=
  if base.operation.documents 400 then
    (base.operation.parameters.filter (·.required)).map fun p =>
      base.scenario (.missingRequiredParameter p.name p.location) (.without p)
        (some credentials.token) 400
  else []

def missingNotes (op : Operation) : List Diagnostic :=
  if !op.documents 400 && op.parameters.any (·.required) then
    [⟨.info, some op.label, "no 400 response documented, missing-parameter scenarios skipped"⟩]
  else []

def authScenarios (base : RequestBase) (credentials : Credentials) : List ScenarioPlan :=
  if base.slot.isSome then
    [base.scenario .unauthenticated .none none 401,
      base.scenario .invalidCredential .none (some credentials.invalidToken) 401,
      base.scenario .insufficientPermission .none (some credentials.limitedToken) 403]
  else []

def notFoundScenarios (arena : SchemaArena) (config : Config) (base : RequestBase) :
    List ScenarioPlan :=
  if base.operation.documents 404 then
    (notFoundTarget? arena base.operation).toList.map fun p =>
      base.scenario (.notFound p.name) (.replacing p (Percent.encode (absentValue arena config p)))
        (some config.credentials.token) 404
  else []

/-- The values of an operation's parameters and of its request body. -/
def inputs (arena : SchemaArena) (config : Config) (op : Operation) (s : Synthesizer) :
    List Bound × Option Json × Synthesizer :=
  let (bound, s) := bind arena config op.parameters s
  let (body, s) := bodyValue arena op s
  (bound, body, s)

/-- Every scenario that applies to an operation, in order. -/
def scenarios (document : SpecDocument) (config : Config) (op : Operation) (bound : List Bound)
    (body : Option Json) : List ScenarioPlan :=
  let slot := CredentialSlot.ofOperation? document.securitySchemes op
  let base : RequestBase := ⟨op, config.headers, bound, slot, body⟩
  let happy := base.scenario .happy .none (some config.credentials.token) op.successStatus
  [happy] ++ missingScenarios base config.credentials ++
    authScenarios base config.credentials ++ notFoundScenarios document.schemas config base

def plan (document : SpecDocument) (config : Config) (op : Operation) (planner : Planner) :
    List ScenarioPlan × Planner :=
  let (bound, body, values) :=
    inputs document.schemas config op { planner.values with operation := some op.label }
  (scenarios document config op bound body, ⟨planner.notes ++ missingNotes op, values⟩)

/-- All notes: first those on scenarios, then those on values. -/
def diagnostics (planner : Planner) : List Diagnostic := planner.notes ++ planner.values.notes

end Planner

end HttpPlan
