import HttpPlan.Plan.Compilation
import HttpPlan.Proofs.Assertion.Bounds
import HttpPlan.Proofs.Scenario.Planned
import HttpPlan.Proofs.Spec.Building

/-! Compilation with every look-up of a schema checked. It never gives up on a document that was
read from a description: whatever an operation or a node refers to is in the arena. -/
namespace HttpPlan

namespace Synthesizer

/-- A value, unless a place outside the arena is looked at. Kinds that need no child look no
further than their node. -/
def value? (arena : SchemaArena) :
    Nat → List SchemaId → SchemaId → String → Random → Synthesizer →
      Option (Json × Random × Synthesizer)
  | 0, _, id, _, r, s => if arena.covers id then some (cut (arena.node id), r, s) else none
  | fuel + 1, inside, id, name, r, s =>
    if !arena.covers id then none
    else
      let node := arena.node id
      if id ∈ inside then some (cut node, r, s)
      else
        match documented? node with
        | some documented => some (documented, r, s)
        | none =>
          let child := value? arena fuel (id :: inside)
          match node.kind with
          | .typed .array =>
            match node.items with
            | none => some (.array [], r, s)
            | some items => do
              let (item, r, s) ← child items (name ++ "[0]") r s
              some (.array [item], r, s)
          | .typed .object => do
            let required := node.properties.entries.filter (·.1 ∈ node.required)
            let (fields, r, s) ← required.foldlM (fun (fields, r, s) (key, id) => do
              let (v, r, s) ← child id (name ++ "." ++ key) r s
              some (fields ++ [(key, v)], r, s)) ([], r, s)
            some (.object fields, r, s)
          | .union =>
            match node.variants.find? (fun v => (arena.node v).kind ≠ .typed .null) with
            | none => some (.null, r, s)
            | some variant => child variant name r s
          | _ => some (value arena (fuel + 1) inside id name r s)

def synthesize? (arena : SchemaArena) (id : SchemaId) (name : String) (s : Synthesizer) :
    Option (Json × Synthesizer) := do
  let (v, _, s) ← value? arena (arena.size + 1) [] id name (.ofSeed (seed name)) s
  some (v, s)

variable {arena : SchemaArena} {id : SchemaId} {name : String} {s : Synthesizer}

theorem foldlM_some {σ ι : Type} {items : List ι} {start : σ} {checked : σ → ι → Option σ}
    {plain : σ → ι → σ} (each : ∀ item ∈ items, ∀ a, checked a item = some (plain a item)) :
    items.foldlM checked start = some (items.foldl plain start) := by
  induction items generalizing start with
  | nil => rfl
  | cons item rest ih =>
    rw [List.foldlM_cons, each item (by simp), Option.bind_eq_bind, Option.bind_some]
    exact ih fun i member => each i (by simp [member])

theorem value?_eq {fuel : Nat} {inside : List SchemaId} {r : Random} (closed : arena.Closed)
    (bound : id < arena.size) :
    value? arena fuel inside id name r s = some (value arena fuel inside id name r s) := by
  induction fuel generalizing inside id name r s with
  | zero => simp only [value?, value, closed.covers bound, if_true]
  | succ fuel ih =>
    have below := closed.below_node id
    unfold value? value
    simp only [closed.covers bound, Bool.not_true, Bool.false_eq_true, if_false]
    split
    · rfl
    · cases documented? (arena.node id) with
      | some documented => rfl
      | none =>
        cases kind : (arena.node id).kind with
        | unknown => rfl
        | union =>
          dsimp only
          cases chosen : (arena.node id).variants.find?
              (fun v => (arena.node v).kind ≠ .typed .null) with
          | none => rfl
          | some variant =>
            exact ih (below variant (SchemaNode.mem_children.mpr
              (Or.inr (Or.inr (List.mem_of_find?_eq_some chosen)))))
        | typed type =>
          cases type with
          | array =>
            dsimp only
            cases element : (arena.node id).items with
            | none => rfl
            | some items =>
              have inside := below items (SchemaNode.mem_children.mpr (Or.inr (Or.inl element)))
              simp only [ih inside, Option.bind_eq_bind, Option.bind_some]
          | object =>
            dsimp only
            rw [foldlM_some]
            · rfl
            · rintro ⟨key, child⟩ member ⟨fields, r, s⟩
              have inside := below child (SchemaNode.mem_children.mpr
                (Or.inl (List.mem_map_of_mem (List.mem_filter.mp member).1)))
              simp only [ih inside, Option.bind_eq_bind, Option.bind_some]
          | _ => rfl

theorem synthesize?_eq (closed : arena.Closed) (bound : id < arena.size) :
    synthesize? arena id name s = some (synthesize arena id name s) := by
  simp only [synthesize?, value?_eq closed bound]
  rfl

end Synthesizer

variable {arena : SchemaArena} {config : Config} {document : SpecDocument} {op : Operation}
  {s : Synthesizer} {p : Parameter} {planner : Planner} {bound : List Bound} {body : Option Json}

namespace Planner

def parameterValue? (arena : SchemaArena) (config : Config) (p : Parameter) (s : Synthesizer) :
    Option (String × Synthesizer) :=
  if (p.location = .path && (config.pathParams.get? p.name).isSome) || p.exampleValue.isSome then
    some (parameterValue arena config p s)
  else do
    let _ ← s.synthesize? arena p.schema p.name
    some (parameterValue arena config p s)

def bind? (arena : SchemaArena) (config : Config) :
    List Parameter → Synthesizer → Option (List Bound × Synthesizer)
  | [], s => some ([], s)
  | p :: rest, s =>
    if p.required || p.exampleValue.isSome then do
      let (value, s) ← parameterValue? arena config p s
      let (bound, s) ← bind? arena config rest s
      some (⟨p, value⟩ :: bound, s)
    else bind? arena config rest s

def bodyValue? (arena : SchemaArena) (op : Operation) (s : Synthesizer) :
    Option (Option Json × Synthesizer) :=
  match op.requestBody with
  | some id => do
    let (v, s) ← s.synthesize? arena id "body"
    some (some v, s)
  | none => some (none, s)

def inputs? (arena : SchemaArena) (config : Config) (op : Operation) (s : Synthesizer) :
    Option (List Bound × Option Json × Synthesizer) := do
  let (bound, s) ← bind? arena config op.parameters s
  let (body, s) ← bodyValue? arena op s
  some (bound, body, s)

/-- The node of a parameter is looked at only where its name is the token's. -/
def takesFreeText? (arena : SchemaArena) (token : String) (p : Parameter) : Option Bool :=
  if p.name = token then return (← arena.node? p.schema).isFreeString else some false

/-- The parameter whose identifier is not found, if there is one. -/
def absentTarget? (arena : SchemaArena) (op : Operation) : Option (Option Parameter) :=
  op.path.tokens.reverse.findSomeM? fun token =>
    op.pathParameters.findM? (takesFreeText? arena token)

def absentValue? (arena : SchemaArena) (config : Config) (p : Parameter) : Option String :=
  match config.notFoundValue with
  | some value => some value
  | none => return if (← arena.node? p.schema).isUuid then nilUuid else absentIdentifier

def notFoundScenarios? (arena : SchemaArena) (config : Config) (base : RequestBase) :
    Option (List ScenarioPlan) :=
  if base.operation.documents 404 then do
    match ← absentTarget? arena base.operation with
    | some p =>
      let value ← absentValue? arena config p
      some [base.scenario (.notFound p.name) (.replacing p (Percent.encode value))
        (some config.credentials.token) 404]
    | none => some []
  else some []

def scenarios? (document : SpecDocument) (config : Config) (op : Operation) (bound : List Bound)
    (body : Option Json) : Option (List ScenarioPlan) := do
  let slot := CredentialSlot.ofOperation? document.securitySchemes op
  let base : RequestBase := ⟨op, config.headers, bound, slot, body⟩
  let happy := base.scenario .happy .none (some config.credentials.token) op.successStatus
  let absent ← notFoundScenarios? document.schemas config base
  some ([happy] ++ missingScenarios base config.credentials ++
    authScenarios base config.credentials ++ absent)

def plan? (document : SpecDocument) (config : Config) (op : Operation) (planner : Planner) :
    Option (List ScenarioPlan × Planner) := do
  let (bound, body, values) ←
    inputs? document.schemas config op { planner.values with operation := some op.label }
  let planned ← scenarios? document config op bound body
  some (planned, ⟨planner.notes ++ missingNotes op, values⟩)

theorem parameterValue?_eq (closed : arena.Closed) (bound : p.schema < arena.size) :
    parameterValue? arena config p s = some (parameterValue arena config p s) := by
  unfold parameterValue?
  split
  · rfl
  · rw [Synthesizer.synthesize?_eq closed bound]
    rfl

theorem bind?_eq {parameters : List Parameter} (closed : arena.Closed)
    (bound : ∀ p ∈ parameters, p.schema < arena.size) :
    bind? arena config parameters s = some (bind arena config parameters s) := by
  induction parameters generalizing s with
  | nil => rfl
  | cons p rest ih =>
    have others : ∀ q ∈ rest, q.schema < arena.size := fun q member => bound q (by simp [member])
    unfold bind? bind
    split
    · rw [parameterValue?_eq closed (bound p (by simp)), Option.bind_eq_bind, Option.bind_some]
      simp only [ih others, Option.bind_eq_bind, Option.bind_some]
    · exact ih others

theorem bodyValue?_eq (closed : arena.Closed)
    (bound : ∀ id ∈ op.requestBody.toList, id < arena.size) :
    bodyValue? arena op s = some (bodyValue arena op s) := by
  unfold bodyValue? bodyValue
  cases body : op.requestBody with
  | none => rfl
  | some id =>
    have inside : id < arena.size := bound id (by simp [body])
    simp only [Synthesizer.synthesize?_eq closed inside, Option.bind_eq_bind, Option.bind_some]

theorem findM?_some {ι : Type} {items : List ι} {checked : ι → Option Bool} {plain : ι → Bool}
    (each : ∀ item ∈ items, checked item = some (plain item)) :
    items.findM? checked = some (items.find? plain) := by
  induction items with
  | nil => rfl
  | cons item rest ih =>
    have others := ih fun i member => each i (by simp [member])
    cases found : plain item <;>
      simp [List.findM?, each item (by simp), found, others]

theorem absentTarget?_eq (held : ∀ p ∈ op.parameters, p.schema < arena.size) :
    absentTarget? arena op = some (notFoundTarget? arena op) := by
  have each : ∀ token, op.pathParameters.findM? (takesFreeText? arena token) =
      some (op.pathParameters.find? fun p =>
        p.name = token && (arena.node p.schema).isFreeString) := fun token => by
    refine findM?_some fun p member => ?_
    have inside := held p (List.mem_filter.mp member).1
    by_cases named : p.name = token <;>
      simp [takesFreeText?, named, SchemaArena.node?_eq inside]
  simp only [absentTarget?, each]
  exact List.findSomeM?_pure

theorem notFoundScenarios?_eq {base : RequestBase}
    (held : ∀ p ∈ base.operation.parameters, p.schema < arena.size) :
    notFoundScenarios? arena config base = some (notFoundScenarios arena config base) := by
  unfold notFoundScenarios? notFoundScenarios
  split
  · rw [absentTarget?_eq held]
    cases target : notFoundTarget? arena base.operation with
    | none => rfl
    | some p =>
      have inside := held p (List.mem_filter.mp (target_of_notFound target)).1
      have value : absentValue? arena config p = some (absentValue arena config p) := by
        unfold absentValue? absentValue
        cases config.notFoundValue with
        | some value => rfl
        | none => rw [SchemaArena.node?_eq inside]; rfl
      simp only [value, Option.bind_eq_bind, Option.bind_some, Option.toList_some, List.map_cons,
        List.map_nil]
  · rfl

theorem scenarios?_eq (held : ∀ p ∈ op.parameters, p.schema < document.schemas.size) :
    scenarios? document config op bound body =
      some (scenarios document config op bound body) := by
  let slot := CredentialSlot.ofOperation? document.securitySchemes op
  let base : RequestBase := ⟨op, config.headers, bound, slot, body⟩
  have absent : notFoundScenarios? document.schemas config base =
      some (notFoundScenarios document.schemas config base) := notFoundScenarios?_eq held
  change (notFoundScenarios? document.schemas config base).bind _ = _
  rw [absent]
  rfl

theorem plan?_eq (closed : document.schemas.Closed)
    (held : ∀ id ∈ op.schemas, id < document.schemas.size) :
    plan? document config op planner = some (plan document config op planner) := by
  have parameters : ∀ p ∈ op.parameters, p.schema < document.schemas.size := fun p member =>
    held p.schema (List.mem_append_left _ (List.mem_append_left _ (List.mem_map_of_mem member)))
  have body : ∀ id ∈ op.requestBody.toList, id < document.schemas.size := fun id member =>
    held id (List.mem_append_left _ (List.mem_append_right _ member))
  simp only [plan?, inputs?, bind?_eq closed parameters, bodyValue?_eq closed body,
    Option.bind_eq_bind, Option.bind_some, scenarios?_eq parameters]
  rfl

end Planner

namespace Compilation

def withAssertions? (arena : SchemaArena) (op : Operation) (s : ScenarioPlan) :
    Option ScenarioPlan :=
  if 200 ≤ s.expectedStatus && s.expectedStatus < 300 then
    match op.responseSchema? s.expectedStatus with
    | some schema => do some { s with assertions := ← arena.assertions? schema }
    | none => some s
  else some s

def operationPlan? (arena : SchemaArena) (op : Operation) (scenarios : List ScenarioPlan) :
    Option OperationPlan := do
  let scenarios ← scenarios.mapM (withAssertions? arena op)
  some { operationPlan arena op [] with scenarios }

def operationPlans? (document : SpecDocument) (config : Config) :
    List Operation → Planner → Option (List OperationPlan × Planner)
  | [], planner => some ([], planner)
  | op :: rest, planner => do
    let (scenarios, planner) ← planner.plan? document config op
    let (plans, planner) ← operationPlans? document config rest planner
    some ((← operationPlan? document.schemas op scenarios) :: plans, planner)

theorem responseSchema?_mem {code : Nat} {id : SchemaId} (found : op.responseSchema? code = some id) :
    id ∈ op.schemas := by
  obtain ⟨response, documented, schema⟩ := Option.bind_eq_some_iff.mp found
  obtain ⟨before, after, same, -⟩ := List.lookup_eq_some_iff.mp documented
  refine List.mem_append_right _ (List.mem_filterMap.mpr ⟨(code, response), ?_, schema⟩)
  simp [same]

theorem withAssertions?_eq {scenario : ScenarioPlan} (closed : arena.Closed)
    (held : ∀ id ∈ op.schemas, id < arena.size) :
    withAssertions? arena op scenario = some (withAssertions arena op scenario) := by
  unfold withAssertions? withAssertions
  split
  · cases documented : op.responseSchema? scenario.expectedStatus with
    | none => rfl
    | some schema =>
      have inside := held schema (responseSchema?_mem documented)
      simp only [SchemaArena.assertions?_eq closed inside, Option.bind_eq_bind, Option.bind_some]
  · rfl

theorem operationPlan?_eq {scenarios : List ScenarioPlan} (closed : arena.Closed)
    (held : ∀ id ∈ op.schemas, id < arena.size) :
    operationPlan? arena op scenarios = some (operationPlan arena op scenarios) := by
  have checked : scenarios.mapM (withAssertions? arena op) =
      some (scenarios.map (withAssertions arena op)) := by
    induction scenarios with
    | nil => rfl
    | cons scenario rest ih =>
      simp only [List.mapM_cons, withAssertions?_eq closed held, ih, Option.bind_eq_bind,
        Option.bind_some, List.map_cons]
      rfl
  simp only [operationPlan?, checked, Option.bind_eq_bind, Option.bind_some]
  rfl

theorem operationPlans?_eq {operations : List Operation} (closed : document.schemas.Closed)
    (held : ∀ op ∈ operations, ∀ id ∈ op.schemas, id < document.schemas.size) :
    operationPlans? document config operations planner =
      some (operationPlans document config operations planner) := by
  induction operations generalizing planner with
  | nil => rfl
  | cons op rest ih =>
    have others : ∀ o ∈ rest, ∀ id ∈ o.schemas, id < document.schemas.size :=
      fun o member => held o (by simp [member])
    simp only [operationPlans?, operationPlans, Planner.plan?_eq closed (held op (by simp)),
      ih others, operationPlan?_eq closed (held op (by simp)), Option.bind_eq_bind,
      Option.bind_some]

end Compilation

namespace SpecDocument

open Compilation Building

/-- Compilation that gives up where a schema that is not in the arena is looked at. -/
def compile? (document : SpecDocument) (config : Config) : Option TestPlan := do
  let (operations, planner) ← operationPlans? document config document.operations {}
  some (testPlan document operations planner)

theorem compile?_eq (closed : document.schemas.Closed)
    (held : ∀ op ∈ document.operations, ∀ id ∈ op.schemas, id < document.schemas.size) :
    document.compile? config = some (document.compile config) := by
  simp only [compile?, operationPlans?_eq closed held, Option.bind_eq_bind, Option.bind_some]
  rfl

/-- The schemas of a document that was read refer to each other only, every definition among them
has been filled, and compiling the document looks at nothing else. -/
theorem ofJson_closed {root : Json} (built : ofJson root = .ok document) :
    (∀ op ∈ document.operations, ∀ id ∈ op.schemas, id < document.schemas.size) ∧
    (∀ node ∈ document.schemas.nodes, ∀ id ∈ node.children, id < document.schemas.size) ∧
    (allPaths (Source.ofJson root)).resolver.unfinished = [] ∧
    (∀ pointer id, (allPaths (Source.ofJson root)).resolver.memo.get? pointer = some id →
      (document.schemas.node id).name.isSome) ∧
    ∀ config, document.compile? config = some (document.compile config) := by
  cases root with
  | object fields =>
    have settled := settled_allPaths (Source.ofJson (.object fields))
    cases built
    refine ⟨settled.held, settled.valid.closed, settled.finished, ?_, fun config =>
      compile?_eq settled.valid.closed settled.held⟩
    intro pointer id known
    rcases settled.valid.filled pointer id known with begun | filled
    · rw [settled.finished] at begun
      cases begun
    · exact filled
  | _ => cases built

theorem ofJson_closed_after_rollback : ∃ document, ofJson brokenDocument = .ok document ∧
    document.skipped.length = 1 ∧
    (∀ op ∈ document.operations, ∀ id ∈ op.schemas, id < document.schemas.size) ∧
    (∀ node ∈ document.schemas.nodes, ∀ id ∈ node.children, id < document.schemas.size) ∧
    document.compile? {} = some (document.compile {}) := by
  obtain ⟨document, built, skipped⟩ : ∃ document, ofJson brokenDocument = .ok document ∧
      document.skipped.length = 1 := ⟨_, rfl, rfl⟩
  obtain ⟨held, closed, -, -, compiles⟩ := ofJson_closed built
  exact ⟨document, built, skipped, held, closed, compiles {}⟩

end SpecDocument

end HttpPlan
