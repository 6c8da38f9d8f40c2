import HttpPlan.Proofs.Placeholder.Notes
import HttpPlan.Scenario

/-! What the scenarios of an operation are made from. The values of its parameters and its body do
not depend on the operations that were planned before, so the scenarios are those of a fresh
start, and each departs from the happy path in one way only. -/
namespace HttpPlan

/-- Whether requests carry a parameter at all. -/
def Parameter.isBound (p : Parameter) : Bool := p.required || p.exampleValue.isSome

namespace Planner

variable {document : SpecDocument} {arena : SchemaArena} {config : Config} {op : Operation}
  {p : Parameter} {s : Synthesizer} {planner : Planner}

/-- The value that is made up for a schema under a name. -/
def placeholder (arena : SchemaArena) (id : SchemaId) (name : String) : Json :=
  (({} : Synthesizer).synthesize arena id name).1

/-- The text that a parameter stands for: the configured one of a path parameter, the documented
one, or a placeholder. -/
def rawValue (arena : SchemaArena) (config : Config) (p : Parameter) : String :=
  let configured := if p.location = .path then config.pathParams.get? p.name else none
  (configured <|> p.exampleValue.map Json.wireText).getD (placeholder arena p.schema p.name).wireText

/-- The text that a parameter travels as. -/
def sentValue (arena : SchemaArena) (config : Config) (p : Parameter) : String :=
  if p.location = .path then Percent.encode (rawValue arena config p) else rawValue arena config p

/-- What all requests of an operation share, from a fresh start. -/
def base (document : SpecDocument) (config : Config) (op : Operation) : RequestBase where
  operation := op
  headers := config.headers
  bound := (op.parameters.filter (·.isBound)).map fun p => ⟨p, sentValue document.schemas config p⟩
  slot := CredentialSlot.ofOperation? document.securitySchemes op
  body := op.requestBody.map (placeholder document.schemas · "body")

theorem mem_bound {b : Bound} : b ∈ (base document config op).bound ↔
    ∃ p ∈ op.parameters, p.isBound ∧ b = ⟨p, sentValue document.schemas config p⟩ := by
  simp only [base, List.mem_map, List.mem_filter, and_assoc]
  exact exists_congr fun p => and_congr_right fun _ => and_congr_right fun _ => eq_comm

theorem parameterValue_fst : (parameterValue arena config p s).1 = sentValue arena config p := by
  unfold parameterValue sentValue rawValue
  dsimp only
  generalize (if p.location = .path then config.pathParams.get? p.name else none) = configured
  cases configured with
  | some fixed => simp
  | none =>
    cases p.exampleValue with
    | some documented => simp
    | none =>
      dsimp only
      rw [Synthesizer.synthesize_eq]
      simp [placeholder]

theorem bind_fst {parameters : List Parameter} : (bind arena config parameters s).1 =
    (parameters.filter (·.isBound)).map fun p => ⟨p, sentValue arena config p⟩ := by
  induction parameters generalizing s with
  | nil => rfl
  | cons p rest ih =>
    unfold bind
    rw [List.filter_cons, Parameter.isBound]
    split
    · simp only [List.map_cons, ih, parameterValue_fst]
    · exact ih

theorem bodyValue_fst :
    (bodyValue arena op s).1 = op.requestBody.map (placeholder arena · "body") := by
  unfold bodyValue
  cases op.requestBody with
  | none => rfl
  | some id => dsimp only; rw [Synthesizer.synthesize_eq]; rfl

/-- The scenarios of an operation, from a fresh start. -/
def freshScenarios (document : SpecDocument) (config : Config) (op : Operation) :
    List ScenarioPlan :=
  let shared := base document config op
  scenarios document config op shared.bound shared.body

theorem freshScenarios_eq : freshScenarios document config op =
    [(base document config op).scenario .happy .none (some config.credentials.token)
      op.successStatus] ++ missingScenarios (base document config op) config.credentials ++
      authScenarios (base document config op) config.credentials ++
      notFoundScenarios document.schemas config (base document config op) := rfl

theorem plan_fst : (planner.plan document config op).1 = freshScenarios document config op := by
  simp only [plan, inputs, bind_fst, bodyValue_fst]
  rfl

/-- The ways in which a scenario comes about. -/
inductive Arises (document : SpecDocument) (config : Config) (op : Operation) :
    ScenarioKind → Departure → Option String → Nat → Prop
  | happy : Arises document config op .happy .none (some config.credentials.token) op.successStatus
  | missing {p : Parameter} (documented : op.documents 400) (declared : p ∈ op.parameters)
      (required : p.required) :
      Arises document config op (.missingRequiredParameter p.name p.location) (.without p)
        (some config.credentials.token) 400
  | unauthenticated (secured : op.security ≠ []) :
      Arises document config op .unauthenticated .none none 401
  | invalidCredential (secured : op.security ≠ []) :
      Arises document config op .invalidCredential .none (some config.credentials.invalidToken) 401
  | insufficientPermission (secured : op.security ≠ []) :
      Arises document config op .insufficientPermission .none
        (some config.credentials.limitedToken) 403
  | notFound {p : Parameter} (documented : op.documents 404)
      (target : notFoundTarget? document.schemas op = some p) :
      Arises document config op (.notFound p.name)
        (.replacing p (Percent.encode (absentValue document.schemas config p)))
        (some config.credentials.token) 404

theorem isSome_slot : (base document config op).slot.isSome ↔ op.security ≠ [] := by
  simp only [base, CredentialSlot.ofOperation?]
  split <;> simp_all

theorem target_of_notFound (found : notFoundTarget? arena op = some p) : p ∈ op.pathParameters := by
  obtain ⟨token, -, found⟩ := List.exists_of_findSome?_eq_some found
  exact List.mem_of_find?_eq_some found

theorem mem_missingScenarios {shared : RequestBase} {credentials : Credentials}
    {scenario : ScenarioPlan} : scenario ∈ missingScenarios shared credentials ↔
      shared.operation.documents 400 ∧ ∃ p ∈ shared.operation.parameters, p.required ∧
        shared.scenario (.missingRequiredParameter p.name p.location) (.without p)
          (some credentials.token) 400 = scenario := by
  unfold missingScenarios
  split
  · next documented => simp [documented, and_assoc]
  · next silent => simp [silent]

theorem mem_notFoundScenarios {shared : RequestBase} {scenario : ScenarioPlan} :
    scenario ∈ notFoundScenarios arena config shared ↔
      shared.operation.documents 404 ∧ ∃ p, notFoundTarget? arena shared.operation = some p ∧
        shared.scenario (.notFound p.name)
          (.replacing p (Percent.encode (absentValue arena config p)))
          (some config.credentials.token) 404 = scenario := by
  unfold notFoundScenarios
  split
  · next documented => simp [documented]
  · next silent => simp [silent]

theorem mem_freshScenarios {scenario : ScenarioPlan} :
    scenario ∈ freshScenarios document config op ↔
      ∃ kind change credential status, Arises document config op kind change credential status ∧
        (base document config op).scenario kind change credential status = scenario := by
  rw [freshScenarios_eq, List.mem_append, List.mem_append, List.mem_append, List.mem_singleton,
    mem_missingScenarios, mem_notFoundScenarios, authScenarios]
  constructor
  · rintro (((rfl | ⟨documented, p, declared, required, rfl⟩) | auth) | ⟨documented, p, target, rfl⟩)
    · exact ⟨_, _, _, _, .happy, rfl⟩
    · exact ⟨_, _, _, _, .missing documented declared required, rfl⟩
    · split at auth
      · next secured =>
        have secured := isSome_slot.mp secured
        simp only [List.mem_cons, List.not_mem_nil, or_false] at auth
        rcases auth with rfl | rfl | rfl
        · exact ⟨_, _, _, _, .unauthenticated secured, rfl⟩
        · exact ⟨_, _, _, _, .invalidCredential secured, rfl⟩
        · exact ⟨_, _, _, _, .insufficientPermission secured, rfl⟩
      · cases auth
    · exact ⟨_, _, _, _, .notFound documented target, rfl⟩
  · rintro ⟨kind, change, credential, status, arises, rfl⟩
    cases arises with
    | happy => exact Or.inl (Or.inl (Or.inl rfl))
    | missing documented declared required =>
      exact Or.inl (Or.inl (Or.inr ⟨documented, _, declared, required, rfl⟩))
    | notFound documented target => exact Or.inr ⟨documented, _, target, rfl⟩
    | _ secured =>
      refine Or.inl (Or.inr ?_)
      rw [if_pos (isSome_slot.mpr secured)]
      simp

end Planner

end HttpPlan
