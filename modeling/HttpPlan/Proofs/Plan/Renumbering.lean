import HttpPlan.Proofs.Assertion.Renumbering
import HttpPlan.Proofs.Placeholder.Renumbering
import HttpPlan.Proofs.Plan.Bounds
import HttpPlan.Proofs.Plan.Scenarios
import HttpPlan.Proofs.Spec.Order
import Mathlib.Data.List.Find

/-! Plans do not depend on the numbers of nodes. Where a document holds what another one holds,
under other numbers and beside more of its own, the plans of the operations that they share are the
same. -/
namespace HttpPlan

variable {arena other : SchemaArena} {document later : SpecDocument} {config : Config}
  {f : SchemaId → SchemaId} {roots : List SchemaId} {op : Operation} {p : Parameter} {b : Bound}
  {base : RequestBase} {change : Departure} {credential : Option String} {s : Synthesizer}
  {planner : Planner}

/-- The same parameter with its schema under another number. -/
def Parameter.renumber (f : SchemaId → SchemaId) (p : Parameter) : Parameter :=
  { p with schema := f p.schema }

/-- The same operation with its schemas under other numbers. -/
def Operation.renumber (f : SchemaId → SchemaId) (op : Operation) : Operation :=
  { op with
    parameters := op.parameters.map (·.renumber f)
    requestBody := op.requestBody.map f
    responses := op.responses.map fun entry =>
      (entry.1, { entry.2 with schema := entry.2.schema.map f }) }

namespace Operation

theorem mem_schemas_of_parameter (member : p ∈ op.parameters) : p.schema ∈ op.schemas :=
  List.mem_append_left _ (List.mem_append_left _ (List.mem_map_of_mem member))

theorem mem_schemas_of_body {id : SchemaId} (asked : op.requestBody = some id) : id ∈ op.schemas :=
  List.mem_append_left _ (List.mem_append_right _ (Option.mem_toList.mpr asked))

theorem lookup_renumber (code : Nat) : (op.renumber f).responses.lookup code =
    (op.responses.lookup code).map fun r => { r with schema := r.schema.map f } := by
  unfold renumber
  dsimp only
  induction op.responses with
  | nil => rfl
  | cons entry rest ih =>
    rw [List.map_cons, List.lookup_cons, List.lookup_cons, ih]
    cases code == entry.1 <;> rfl

theorem documents_renumber (code : Nat) : (op.renumber f).documents code = op.documents code := by
  rw [documents, lookup_renumber, Option.isSome_map, documents]

theorem responseSchema?_renumber (code : Nat) :
    (op.renumber f).responseSchema? code = (op.responseSchema? code).map f := by
  rw [responseSchema?, lookup_renumber, responseSchema?]
  cases op.responses.lookup code <;> rfl

theorem successStatus_renumber : (op.renumber f).successStatus = op.successStatus := by
  have codes : (op.renumber f).responses.map Prod.fst = op.responses.map Prod.fst := by
    simp [renumber, Function.comp_def]
  rw [successStatus, codes, successStatus]

theorem pathParameters_renumber :
    (op.renumber f).pathParameters = op.pathParameters.map (·.renumber f) := by
  simp only [pathParameters, renumber, List.filter_map]
  rfl

end Operation

/-- The same bound parameter, and the same departure, with their schemas under other numbers. -/
def Bound.renumber (f : SchemaId → SchemaId) (b : Bound) : Bound :=
  { b with param := b.param.renumber f }

def Departure.renumber (f : SchemaId → SchemaId) : Departure → Departure
  | none => none
  | without target => without (target.renumber f)
  | replacing target value => replacing (target.renumber f) value

theorem Departure.valueOf?_renumber : (change.renumber f).valueOf? (b.renumber f) =
    change.valueOf? b := by
  cases change <;> rfl

namespace RequestBase

def renumber (f : SchemaId → SchemaId) (base : RequestBase) : RequestBase :=
  { base with
    operation := base.operation.renumber f
    bound := base.bound.map (·.renumber f) }

theorem tokenValue?_renumber (token : String) :
    (base.renumber f).tokenValue? (change.renumber f) token = base.tokenValue? change token := by
  have found :
      (base.renumber f).bound.find? (fun b => b.param.location = .path && b.param.name = token) =
        (base.bound.find? fun b => b.param.location = .path && b.param.name = token).map
          (·.renumber f) := by
    rw [renumber, List.find?_map]
    rfl
  rw [tokenValue?, found, tokenValue?]
  cases base.bound.find? fun b => b.param.location = .path && b.param.name = token with
  | none => rfl
  | some b => exact Departure.valueOf?_renumber

theorem carriage_renumber :
    (base.renumber f).carriage (change.renumber f) credential = base.carriage change credential := by
  have carried (c : Carriage) :
      (base.renumber f).bound.foldl (carry base.slot (change.renumber f)) c =
        base.bound.foldl (carry base.slot change) c := by
    rw [renumber, List.foldl_map]
    refine List.foldl_ext _ _ _ fun c b _ => ?_
    rw [carry, Departure.valueOf?_renumber]
    rfl
  have dropped (slot : CredentialSlot) :
      (change.renumber f).dropsSlot slot = change.dropsSlot slot := by
    cases change <;> rfl
  have same : (base.renumber f).carriage (change.renumber f) credential =
      base.fillSlot (change.renumber f) credential ((base.renumber f).bound.foldl
        (carry base.slot (change.renumber f)) (base.clearSlot { headers := base.headers })) := rfl
  rw [same, carried, carriage]
  unfold fillSlot
  simp only [dropped]

theorem request_renumber :
    (base.renumber f).request (change.renumber f) credential = base.request change credential := by
  have tokens : (base.renumber f).tokenValue? (change.renumber f) = base.tokenValue? change :=
    funext tokenValue?_renumber
  unfold request
  rw [carriage_renumber, tokens]
  rfl

theorem scenario_renumber (change : Departure) {kind : ScenarioKind} {status : Nat} :
    (base.renumber f).scenario kind (change.renumber f) credential status =
      base.scenario kind change credential status := by
  unfold scenario
  rw [request_renumber]
  rfl

end RequestBase

/-- A place whose values are those of its number in another arena, whatever was noted before. -/
def Synthesizer.Alike (arena other : SchemaArena) (f : SchemaId → SchemaId) (id : SchemaId) : Prop :=
  ∀ (name : String) (s : Synthesizer), s.synthesize other (f id) name = s.synthesize arena id name

namespace Planner

theorem parameterValue_renumber (same : Synthesizer.Alike arena other f p.schema) :
    parameterValue other config (p.renumber f) s = parameterValue arena config p s := by
  simp only [parameterValue, Parameter.renumber, same p.name s]
  rfl

theorem bind_renumber {parameters : List Parameter}
    (same : ∀ p ∈ parameters, Synthesizer.Alike arena other f p.schema) :
    bind other config (parameters.map (·.renumber f)) s =
      ((bind arena config parameters s).1.map (·.renumber f), (bind arena config parameters s).2) := by
  induction parameters generalizing s with
  | nil => rfl
  | cons p rest ih =>
    have ⟨now, later⟩ := List.forall_mem_cons.mp same
    have carried : ((p.renumber f).required || (p.renumber f).exampleValue.isSome) =
        (p.required || p.exampleValue.isSome) := rfl
    simp only [List.map_cons, bind, carried, parameterValue_renumber now, ih later]
    split <;> rfl

theorem bodyValue_renumber
    (same : ∀ id ∈ op.requestBody, Synthesizer.Alike arena other f id) :
    bodyValue other (op.renumber f) s = bodyValue arena op s := by
  unfold bodyValue Operation.renumber
  cases body : op.requestBody with
  | none => rfl
  | some id =>
    dsimp only [Option.map_some]
    rw [same id body "body" s]

theorem missingScenarios_renumber {credentials : Credentials} :
    missingScenarios (base.renumber f) credentials = missingScenarios base credentials := by
  have documented : (base.renumber f).operation.documents 400 = base.operation.documents 400 :=
    Operation.documents_renumber 400
  have required : (base.renumber f).operation.parameters.filter (·.required) =
      (base.operation.parameters.filter (·.required)).map (·.renumber f) :=
    List.filter_map
  unfold missingScenarios
  rw [documented, required, List.map_map]
  refine if_congr Iff.rfl (List.map_congr_left fun p _ => ?_) rfl
  exact RequestBase.scenario_renumber (.without p)

theorem authScenarios_renumber {credentials : Credentials} :
    authScenarios (base.renumber f) credentials = authScenarios base credentials := by
  have sent (kind : ScenarioKind) (credential : Option String) (status : Nat) :
      (base.renumber f).scenario kind .none credential status =
        base.scenario kind .none credential status :=
    RequestBase.scenario_renumber .none
  unfold authScenarios
  simp only [sent]
  rfl

variable (nodes : ∀ p ∈ op.parameters, other.node (f p.schema) = (arena.node p.schema).renumber f)
include nodes

theorem notFoundTarget?_renumber :
    notFoundTarget? other (op.renumber f) = (notFoundTarget? arena op).map (·.renumber f) := by
  have named (token : String) :
      (op.renumber f).pathParameters.find? (fun p => p.name = token && (other.node p.schema).isFreeString) =
        (op.pathParameters.find? fun p => p.name = token && (arena.node p.schema).isFreeString).map
          (·.renumber f) := by
    rw [Operation.pathParameters_renumber, List.find?_map]
    refine congrArg (Option.map _) (List.find?_congr fun p member => ?_)
    have node := nodes p (List.mem_of_mem_filter member)
    simp only [Function.comp_apply, Parameter.renumber, node]
    rfl
  unfold notFoundTarget?
  simp only [named]
  exact List.map_findSome?.symm

theorem notFoundScenarios_renumber (declared : base.operation = op) :
    notFoundScenarios other config (base.renumber f) = notFoundScenarios arena config base := by
  have documented : (base.renumber f).operation.documents 404 = base.operation.documents 404 :=
    Operation.documents_renumber 404
  have target : notFoundTarget? other (base.renumber f).operation =
      (notFoundTarget? arena base.operation).map (·.renumber f) := by
    subst declared
    exact notFoundTarget?_renumber nodes
  unfold notFoundScenarios
  rw [documented, target]
  split
  · cases found : notFoundTarget? arena base.operation with
    | none => rfl
    | some p =>
      have member : p ∈ op.parameters :=
        List.mem_of_mem_filter (target_of_notFound (declared ▸ found))
      have absent : absentValue other config (p.renumber f) = absentValue arena config p := by
        unfold absentValue Parameter.renumber
        simp only [nodes p member]
        rfl
      simp only [Option.map_some, Option.toList_some, List.map_cons, List.map_nil, absent]
      exact congrArg (· :: []) (RequestBase.scenario_renumber
        (.replacing p (Percent.encode (absentValue arena config p))))
  · rfl

end Planner

namespace Planner

theorem scenarios_renumber {bound : List Bound} {body : Option Json}
    (schemes : later.securitySchemes = document.securitySchemes)
    (nodes : ∀ p ∈ op.parameters,
      later.schemas.node (f p.schema) = (document.schemas.node p.schema).renumber f) :
    scenarios later config (op.renumber f) (bound.map (·.renumber f)) body =
      scenarios document config op bound body := by
  let base : RequestBase :=
    ⟨op, config.headers, bound, CredentialSlot.ofOperation? document.securitySchemes op, body⟩
  have shared : (⟨op.renumber f, config.headers, bound.map (·.renumber f),
      CredentialSlot.ofOperation? later.securitySchemes (op.renumber f), body⟩ : RequestBase) =
      base.renumber f := by
    rw [schemes]
    rfl
  have happy : (base.renumber f).scenario .happy .none (some config.credentials.token)
      (op.renumber f).successStatus = base.scenario .happy .none (some config.credentials.token)
      op.successStatus := by
    rw [Operation.successStatus_renumber]
    exact RequestBase.scenario_renumber .none
  unfold scenarios
  dsimp only
  rw [shared, happy, missingScenarios_renumber, authScenarios_renumber,
    notFoundScenarios_renumber nodes (show base.operation = op from rfl)]

theorem missingNotes_renumber : missingNotes (op.renumber f) = missingNotes op := by
  have required : (op.renumber f).parameters.any (·.required) = op.parameters.any (·.required) :=
    List.any_map
  unfold missingNotes
  rw [Operation.documents_renumber, required]
  rfl

theorem plan_renumber (schemes : later.securitySchemes = document.securitySchemes)
    (nodes : ∀ p ∈ op.parameters,
      later.schemas.node (f p.schema) = (document.schemas.node p.schema).renumber f)
    (same : ∀ id ∈ op.schemas, Synthesizer.Alike document.schemas later.schemas f id) :
    planner.plan later config (op.renumber f) = planner.plan document config op := by
  have bound (s : Synthesizer) : bind later.schemas config (op.parameters.map (·.renumber f)) s = _ :=
    bind_renumber fun p member => same p.schema (Operation.mem_schemas_of_parameter member)
  have body (s : Synthesizer) : bodyValue later.schemas (op.renumber f) s = _ :=
    bodyValue_renumber fun id asked => same id (Operation.mem_schemas_of_body asked)
  have read : (op.renumber f).parameters = op.parameters.map (·.renumber f) := rfl
  unfold plan inputs
  simp only [read, bound, body, missingNotes_renumber, scenarios_renumber schemes nodes]
  rfl

end Planner

namespace Compilation

theorem operationPlan_renumber {scenarios : List ScenarioPlan}
    (same : ∀ id ∈ op.schemas, other.assertions (f id) = arena.assertions id) :
    operationPlan other (op.renumber f) scenarios = operationPlan arena op scenarios := by
  have asserted (s : ScenarioPlan) : withAssertions other (op.renumber f) s =
      withAssertions arena op s := by
    rw [withAssertions_eq, withAssertions_eq, Operation.responseSchema?_renumber]
    cases documented : op.responseSchema? s.expectedStatus with
    | none => rfl
    | some schema =>
      dsimp only [Option.map_some]
      rw [same schema (responseSchema?_mem documented)]
  have each : scenarios.map (withAssertions other (op.renumber f)) =
      scenarios.map (withAssertions arena op) := List.map_congr_left fun s _ => asserted s
  unfold operationPlan
  rw [each]
  rfl

end Compilation

theorem SpecDocument.closed_of_read {root : Json} (read : ofJson root = .ok document) :
    document.schemas.Closed := by
  cases root with
  | object fields =>
    cases read
    exact (Building.settled_allPaths (.ofJson (.object fields))).valid.closed
  | _ => cases read

open Compilation in
/-- Whatever numbers its nodes have, a schema that has its counterpart in another arena has the same
assertions there, and the same values with the same notes. So where the operations of a document are
among those of another one, under other numbers, their plans are among the plans of that one. -/
theorem SchemaArena.plans_renumbered (f : SchemaId → SchemaId) (closed : arena.Closed)
    (also : other.Closed) :
    (∀ root < arena.size, f root < other.size → arena.Renumbers other f [root] →
      other.assertions (f root) = arena.assertions root ∧
      ∀ (name : String) (s : Synthesizer),
        s.synthesize other (f root) name = s.synthesize arena root name ∧
        s.pathSegment other (f root) name = s.pathSegment arena root name) ∧
    ∀ document later : SpecDocument, document.schemas = arena → later.schemas = other →
      later.securitySchemes = document.securitySchemes →
      (∀ op ∈ document.operations, ∀ id ∈ op.schemas,
        id < arena.size ∧ f id < other.size ∧ arena.Renumbers other f [id]) →
      (document.operations.map (·.renumber f)).Sublist later.operations → ∀ config,
      (document.compile config).operations.Sublist (later.compile config).operations ∧
      ∀ op ∈ document.operations, ∀ planner : Planner,
        planner.plan later config (op.renumber f) = planner.plan document config op := by
  have each : ∀ root < arena.size, f root < other.size → arena.Renumbers other f [root] →
      other.assertions (f root) = arena.assertions root ∧ Synthesizer.Alike arena other f root := by
    intro root inside within renumbers
    refine ⟨renumbers.assertions List.mem_cons_self closed inside also within, fun name s => ?_⟩
    exact Synthesizer.synthesize_renumber renumbers closed (by simpa using inside) also
      (by simpa using within) List.mem_cons_self
  constructor
  · intro root inside within renumbers
    obtain ⟨asserted, alike⟩ := each root inside within renumbers
    refine ⟨asserted, fun name s => ⟨alike name s, ?_⟩⟩
    rw [Synthesizer.pathSegment, alike name s, Synthesizer.pathSegment]
  rintro document later rfl rfl schemes held among config
  have plans : ∀ op ∈ document.operations, ∀ planner : Planner,
      planner.plan later config (op.renumber f) = planner.plan document config op := by
    intro op member planner
    refine Planner.plan_renumber schemes (fun p declared => ?_) fun id asked => ?_
    · have ⟨_, _, renumbers⟩ := held op member _ (Operation.mem_schemas_of_parameter declared)
      exact renumbers.nodes _ (.of_mem List.mem_cons_self)
    · have ⟨inside, within, renumbers⟩ := held op member id asked
      exact (each id inside within renumbers).2
  have fresh : ∀ op ∈ document.operations,
      freshPlan later config (op.renumber f) = freshPlan document config op := by
    intro op member
    have planned := congrArg Prod.fst (plans op member {})
    rw [Planner.plan_fst, Planner.plan_fst] at planned
    rw [freshPlan, planned]
    refine operationPlan_renumber fun id asked => ?_
    have ⟨inside, within, renumbers⟩ := held op member id asked
    exact (each id inside within renumbers).1
  refine ⟨?_, plans⟩
  rw [SpecDocument.operations_compile, SpecDocument.operations_compile,
    ← List.map_congr_left fresh]
  have mapped := among.map (freshPlan later config)
  rwa [List.map_map] at mapped

/-- A definition that refers to itself and to another one, under the paths that are given. -/
def branchDocument (paths : List (String × Json)) : Json := .object [
  ("components", .object [("schemas", .object [
    ("Branch", .object [("required", .array [.string "leaf"]),
      ("properties", .object [("next", Building.referenceTo "Branch"),
        ("leaf", Building.referenceTo "Leaf")])]),
    ("Leaf", .object [("type", .string "string")])])]),
  ("paths", .object paths)]

def branchPath : String × Json :=
  ("/branch", .object [("get", Building.respondingWith (Building.referenceTo "Branch"))])

def leafPath : String × Json :=
  ("/leaf", .object [("get", Building.respondingWith (Building.referenceTo "Leaf"))])

/-- With the leaf read first the two definitions change places, and the plan is the same. -/
theorem SchemaArena.plans_renumbered_branch :
    ∃ document later, SpecDocument.ofJson (branchDocument [branchPath]) = .ok document ∧
      SpecDocument.ofJson (branchDocument [leafPath, branchPath]) = .ok later ∧
      document.schemas ≠ later.schemas ∧
      later.schemas.assertions 1 = document.schemas.assertions 0 ∧
      document.operations.length = 1 ∧
      (document.compile {}).operations.Sublist (later.compile {}).operations := by
  let swap : SchemaId → SchemaId := (1 - ·)
  obtain ⟨document, later, read, also, moved, size, more, nodes, schemes, op, front, ops, all, asked⟩ :
      ∃ document later, SpecDocument.ofJson (branchDocument [branchPath]) = .ok document ∧
        SpecDocument.ofJson (branchDocument [leafPath, branchPath]) = .ok later ∧
        document.schemas ≠ later.schemas ∧
        document.schemas.size = 2 ∧ later.schemas.size = 2 ∧
        (∀ i ∈ [0, 1], (document.schemas.node i).children ⊆ [0, 1] ∧
          later.schemas.node (swap i) = (document.schemas.node i).renumber swap) ∧
        later.securitySchemes = document.securitySchemes ∧
        ∃ op front, document.operations = [op] ∧ later.operations = [front, op.renumber swap] ∧
          op.schemas = [0] :=
    ⟨_, _, rfl, rfl, by decide +kernel, rfl, rfl, by decide +kernel, rfl, _, _, rfl, rfl, rfl⟩
  have renumbers : document.schemas.Renumbers later.schemas swap [0] :=
    .of_closed (by simp) (fun i member => (nodes i member).1) (by decide +kernel)
      fun i member => (nodes i member).2
  have inside : 0 < document.schemas.size ∧ swap 0 < later.schemas.size := by
    rw [size, more]
    decide
  have ⟨schema, plans⟩ := plans_renumbered swap (SpecDocument.closed_of_read read)
    (SpecDocument.closed_of_read also)
  have held : ∀ op ∈ document.operations, ∀ id ∈ op.schemas, id < document.schemas.size ∧
      swap id < later.schemas.size ∧ document.schemas.Renumbers later.schemas swap [id] := by
    simpa [ops, asked] using ⟨inside.1, inside.2, renumbers⟩
  have among := plans document later rfl rfl schemes held (by simp [ops, all]) {}
  exact ⟨document, later, read, also, moved, (schema 0 inside.1 inside.2 renumbers).1,
    by simp [ops], among.1⟩

open Building in
/-- Numbers are not all that one operation leaves behind for the next. The alias is skipped where it
comes alone, and planned where an operation that reads its definition is added before it. -/
theorem SpecDocument.addition_decides :
    ∃ document later, ofJson (linkedDocument [aliasPath]) = .ok document ∧
      ofJson (linkedDocument [nodePath, aliasPath]) = .ok later ∧
      (document.compile {}).operations.map (·.operation) = [] ∧
      (later.compile {}).operations.map (·.operation) = ["GET /b", "GET /a"] :=
  ⟨_, _, rfl, rfl, by decide +kernel, by decide +kernel⟩

end HttpPlan
