import HttpPlan.Diagnostic
import HttpPlan.Schema.Arena
import HttpPlan.Spec.PathTemplate

/-! The normalized description of an API: its operations with their parameters, responses and
security, and the arena of all schemas that they use. -/
namespace HttpPlan

inductive ParameterLocation where
  | path
  | query
  | header
deriving DecidableEq, Repr

namespace ParameterLocation

def name : ParameterLocation → String
  | path => "path"
  | query => "query"
  | header => "header"

def ofName? (s : String) : Option ParameterLocation := [path, query, header].find? (·.name = s)

end ParameterLocation

structure Parameter where
  name : String
  location : ParameterLocation
  required : Bool
  schema : SchemaId
  /-- A documented value, used as it is; it makes an optional parameter present. -/
  exampleValue : Option Json
  description : Option String
deriving DecidableEq

structure Response where
  description : Option String
  /-- Absent where no body is documented. -/
  schema : Option SchemaId
deriving DecidableEq

/-- Responses in ascending order of their status code. -/
abbrev Responses := List (Nat × Response)

/-- Adds a response, in the place of one with the same code. -/
def Responses.insert (code : Nat) (response : Response) : Responses → Responses
  | [] => [(code, response)]
  | (other, old) :: rest =>
    if code < other then (code, response) :: (other, old) :: rest
    else if code = other then (code, response) :: rest
    else (other, old) :: Responses.insert code response rest

structure Operation where
  /-- In upper case. -/
  method : String
  path : PathTemplate
  operationId : Option String
  parameters : List Parameter
  requestBody : Option SchemaId
  responses : Responses
  /-- Names of security schemes in the order of the requirements; none for a public operation. -/
  security : List String
  tags : List String
  summary : Option String
deriving DecidableEq

namespace Operation

def label (op : Operation) : String := op.method ++ " " ++ op.path.text

/-- The lowest documented 2xx code, or 200. -/
def successStatus (op : Operation) : Nat :=
  ((op.responses.map Prod.fst).find? fun code => 200 ≤ code && code < 300).getD 200

def documents (op : Operation) (code : Nat) : Bool := (op.responses.lookup code).isSome

def responseSchema? (op : Operation) (code : Nat) : Option SchemaId :=
  op.responses.lookup code >>= Response.schema

def pathParameters (op : Operation) : List Parameter :=
  op.parameters.filter (·.location = .path)

end Operation

inductive KeyLocation where
  | header
  | query
  | cookie
deriving DecidableEq, Repr

inductive SecurityScheme where
  | bearer
  | basic
  | apiKey (location : KeyLocation) (name : String)
  | oauth2
  | openIdConnect
  /-- A declared type that is not told apart further. -/
  | other (type : String)
deriving DecidableEq, Repr

structure SkippedOperation where
  operation : String
  error : BuildError
deriving DecidableEq

structure SpecDocument where
  title : Option String := none
  version : Option String := none
  operations : List Operation := []
  securitySchemes : OrderedMap String SecurityScheme := ∅
  schemas : SchemaArena := {}
  skipped : List SkippedOperation := []
  diagnostics : List Diagnostic := []

end HttpPlan
