import HttpPlan.Json.Printer
import HttpPlan.Schema.Resolver
import HttpPlan.Spec.Security

/-! Reading an API description. Both generations of the format are understood. An operation that
cannot be modelled is skipped with its reason; only a document that is no object fails whole. -/
namespace HttpPlan

namespace Building

/-- What the parameter lists of an operation have given so far. -/
structure Inputs where
  parameters : OrderedMap (String × ParameterLocation) Parameter := ∅
  body : Option SchemaId := none
  notes : List Diagnostic := []

def Inputs.note (inputs : Inputs) (severity : Severity) (label message : String) : Inputs :=
  { inputs with notes := inputs.notes ++ [⟨severity, some label, message⟩] }

/-- The documented example of a parameter: its own, the first named one, or that of its schema. -/
def parameterExample (param : Json) (node : SchemaNode) : Option Json :=
  param.field? "example" <|>
    (do
      let examples ← param.field? "examples" >>= Json.fields?
      let (_, first) ← examples.head?
      first.field? "value") <|>
    node.exampleValue

/-- The schema of a parameter, which may stand on the parameter itself. A parameter without any
is a string. -/
def parameterSchema (root param : Json) (location : String) : Resolve SchemaId :=
  match param.field? "schema" with
  | some schema => Resolver.schemaId root schema location
  | none =>
    if (param.field? "type").isSome then do
      Resolver.alloc (← Resolver.inlineNode root param location)
    else Resolver.alloc (.ofKind (.typed .string))

def parameter (root : Json) (label name : String) (location : ParameterLocation) (param : Json) :
    Resolve Parameter := do
  let schema ← parameterSchema root param (label ++ " parameter '" ++ name ++ "'")
  let node := (← get).arena.node schema
  return {
    name, location, schema
    required := location = .path || param.field? "required" = some (.bool true)
    exampleValue := parameterExample param node
    description := param.stringField? "description" }

/-- Adds one entry of a parameter list. A later parameter of the same name and location takes the
place of the earlier one. -/
def addParameter (root : Json) (label : String) (inputs : Inputs) (raw : Json) :
    Resolve Inputs := do
  match root.deref raw with
  | .error e => throw e
  | .ok param =>
    match param.stringField? "name" with
    | none => return inputs.note .warning label "parameter without a name ignored"
    | some name =>
      let place := (param.stringField? "in").getD ""
      if place = "body" then
        match param.field? "schema" with
        | none => return inputs
        | some schema =>
          let id ← Resolver.schemaId root schema (label ++ " body parameter '" ++ name ++ "'")
          return { inputs with body := some id }
      else
        match ParameterLocation.ofName? place with
        | none => return inputs.note .info label (place ++ " parameter '" ++ name ++ "' ignored")
        | some location =>
          let p ← parameter root label name location param
          return { inputs with parameters := inputs.parameters.insert (name, location) p }

/-- The entries of a parameter list; anything but a list has none. -/
def parameterList (owner : Json) : List Json :=
  (owner.field? "parameters" >>= Json.items?).getD []

/-- The schema of the preferred media type: JSON itself, then any type with a JSON suffix, then
the first one. -/
def mediaSchema? (content : Json) : Option Json := do
  let fields ← content.fields?
  let media ←
    fields.lookup "application/json" <|>
      (fields.find? (fun f => f.1.endsWith "+json")).map Prod.snd <|>
      fields.head?.map Prod.snd
  media.field? "schema"

def requestBody (root : Json) (label : String) (operation : Json) (body : Option SchemaId) :
    Resolve (Option SchemaId) :=
  match operation.field? "requestBody" with
  | none => return body
  | some raw =>
    match root.deref raw with
    | .error e => throw e
    | .ok declared =>
      match declared.field? "content" >>= mediaSchema? with
      | none => return body
      | some schema => return some (← Resolver.schemaId root schema (label ++ " requestBody"))

/-- A status code: digits, after an optional plus sign, below 65536. -/
def statusCode? (key : String) : Option Nat :=
  let digits := match key.toList with
    | '+' :: rest => rest
    | cs => cs
  if digits.isEmpty || !digits.all Char.isDigit then none
  else
    let code := digits.foldl (fun n c => n * 10 + (c.toNat - '0'.toNat)) 0
    if code < 65536 then some code else none

/-- The body schema of a response, under its content or on the response itself. -/
def responseSchema? (response : Json) : Option Json :=
  (response.field? "content" >>= mediaSchema?) <|> response.field? "schema"

def addResponse (root : Json) (label : String) (done : Responses × List Diagnostic)
    (entry : String × Json) : Resolve (Responses × List Diagnostic) := do
  let (responses, notes) := done
  let (key, raw) := entry
  match statusCode? key with
  | none =>
    if key = "default" then return done
    else
      let message := "response key '" ++ key ++ "' is not a status code, ignored"
      return (responses, notes ++ [⟨.info, some label, message⟩])
  | some code =>
    match root.deref raw with
    | .error e => throw e
    | .ok response =>
      let schema ←
        match responseSchema? response with
        | some schema =>
          some <$> Resolver.schemaId root schema (label ++ " response " ++ toString code)
        | none => pure none
      let description := response.stringField? "description"
      return (responses.insert code { description, schema }, notes)

/-- What an operation is read from. -/
structure Source where
  root : Json
  schemes : OrderedMap String SecurityScheme
  /-- The requirements of operations that state none. -/
  security : List String

def Source.ofJson (root : Json) : Source :=
  { root
    schemes := SecurityScheme.declared root
    security := ((root.field? "security").map requiredSchemes).getD [] }

def undeclaredNotes (source : Source) (label : String) (security : List String) :
    List Diagnostic :=
  (security.filter (!source.schemes.contains ·)).map fun name =>
    ⟨.warning, some label, "security scheme '" ++ name ++ "' is not declared"⟩

def label (method path : String) : String := method.toUpper ++ " " ++ path

/-- An operation, with what was noticed while reading it. -/
def operation (source : Source) (method path : String) (item operation : Json) :
    Resolve (Operation × List Diagnostic) := do
  match PathTemplate.parse path with
  | .error e => throw e
  | .ok template =>
    let root := source.root
    let label := label method path
    let inputs ←
      (parameterList item ++ parameterList operation).foldlM (addParameter root label) {}
    let parameters := inputs.parameters.values
    let declared := (parameters.filter (·.location = .path)).map Parameter.name
    match template.checkParameters declared with
    | .error e => throw e
    | .ok () =>
      let requestBody ← requestBody root label operation inputs.body
      let (responses, responseNotes) ←
        ((operation.field? "responses" >>= Json.fields?).getD []).foldlM
          (addResponse root label) ([], [])
      let security := match operation.field? "security" with
        | some v => requiredSchemes v
        | none => source.security
      let tags := ((operation.field? "tags" >>= Json.items?).getD []).filterMap Json.string?
      let op := {
        method := method.toUpper
        path := template
        operationId := operation.stringField? "operationId"
        tags := tags.eraseDups
        summary := operation.stringField? "summary"
        parameters, requestBody, responses, security }
      return (op, inputs.notes ++ responseNotes ++ undeclaredNotes source label security)

def methods : List String :=
  ["get", "put", "post", "delete", "options", "head", "patch", "trace"]

/-- A document in the making. -/
structure Progress where
  resolver : Resolver := {}
  operations : List Operation := []
  skipped : List SkippedOperation := []
  diagnostics : List Diagnostic := []

/-- Records a failure under its label. -/
def Progress.skip (p : Progress) (label subject : String) (error : BuildError) : Progress :=
  { p with
    skipped := p.skipped ++ [⟨subject, error⟩]
    diagnostics := p.diagnostics ++ [⟨.error, some label, error.message⟩] }

/-- Adds an operation, or skips it and drops all that was resolved for it. -/
def addOperation (source : Source) (path : String) (item : Json) (p : Progress)
    (entry : String × Json) : Progress :=
  let (method, raw) := entry
  if !methods.contains method then p
  else
    match operation source method path item raw p.resolver with
    | .ok (op, notes) resolver =>
      { p with
        resolver
        operations := p.operations ++ [op]
        diagnostics := p.diagnostics ++ notes }
    | .error e resolver =>
      let label := label method path
      { p with resolver := resolver.rollback p.resolver.mark }.skip label label e

def addPath (source : Source) (p : Progress) (entry : String × Json) : Progress :=
  let (path, raw) := entry
  match source.root.deref raw with
  | .error e => p.skip path ("* " ++ path) e
  | .ok item => (item.fields?.getD []).foldl (addOperation source path item) p

def allPaths (source : Source) : Progress :=
  match source.root.field? "paths" with
  | some (.object paths) => paths.foldl (addPath source) {}
  | _ => { diagnostics := [⟨.info, none, "document declares no paths"⟩] }

/-- A version that is no string is shown as its JSON text. -/
def versionText : Json → String
  | .string s => s
  | v => v.compact

end Building

open Building in
def SpecDocument.ofJson (root : Json) : Except BuildError SpecDocument :=
  match root with
  | .object _ =>
    let info := root.field? "info"
    let source := Source.ofJson root
    let p := allPaths source
    .ok {
      title := info >>= (·.stringField? "title")
      version := (info >>= (·.field? "version")).map versionText
      operations := p.operations
      schemas := p.resolver.arena
      skipped := p.skipped
      diagnostics := p.diagnostics
      securitySchemes := source.schemes }
  | _ => .error .rootNotObject

end HttpPlan
