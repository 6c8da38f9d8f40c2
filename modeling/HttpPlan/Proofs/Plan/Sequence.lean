import HttpPlan.Proofs.Plan.Scenarios
import HttpPlan.Proofs.Spec.WellFormed

/-! Which scenarios a plan has, in which order, and which of them look at the body. -/
namespace HttpPlan

variable {document : SpecDocument} {arena : SchemaArena} {config : Config} {op : Operation}
  {q : Parameter} {code status : Nat} {absent : Option Parameter}

namespace Operation

/-- The lowest documented 2xx code, or 200 where there is none. -/
def Succeeds (op : Operation) (status : Nat) : Prop :=
  (op.documents status ∧ 200 ≤ status ∧ status < 300 ∧
    ∀ code, op.documents code → 200 ≤ code → code < 300 → status ≤ code) ∨
  (status = 200 ∧ ∀ code, op.documents code → ¬ (200 ≤ code ∧ code < 300))

/-- The path parameter that can be given an identifier of nothing: the last in template order of
those that are free text, where the operation documents that nothing is found. -/
def Absent (op : Operation) (arena : SchemaArena) : Option Parameter → Prop
  | some q => op.documents 404 ∧ q ∈ op.pathParameters ∧ (arena.node q.schema).isFreeString ∧
    ∃ before after, op.path.tokens = before ++ q.name :: after ∧
      ∀ p ∈ op.pathParameters, (arena.node p.schema).isFreeString → p.name ∉ after
  | none => op.documents 404 → ∀ p ∈ op.pathParameters, ¬ (arena.node p.schema).isFreeString

/-- The kinds of scenarios that an operation has, and the statuses that they expect. -/
def sequence (op : Operation) (status : Nat) (absent : Option Parameter) :
    List (ScenarioKind × Nat) :=
  [(.happy, status)] ++
    (if op.documents 400 then (op.parameters.filter (·.required)).map fun p =>
      (.missingRequiredParameter p.name p.location, 400) else []) ++
    (if op.security = [] then [] else
      [(.unauthenticated, 401), (.invalidCredential, 401), (.insufficientPermission, 403)]) ++
    absent.toList.map fun q => (.notFound q.name, 404)

theorem documents_iff : op.documents code ↔ code ∈ op.responses.map Prod.fst := by
  simp only [documents, Option.isSome_iff_ne_none, ne_eq, List.lookup_eq_none_iff, List.mem_map]
  simp only [bne_iff_ne, ne_eq, Classical.not_forall, Classical.not_not, exists_prop]
  exact exists_congr fun entry => and_congr_right fun _ => eq_comm

theorem Succeeds.range (succeeds : op.Succeeds status) : 200 ≤ status ∧ status < 300 := by
  rcases succeeds with ⟨-, least, most, -⟩ | ⟨rfl, -⟩
  · exact ⟨least, most⟩
  · decide

theorem WellFormed.succeeds (wellFormed : op.WellFormed) : op.Succeeds op.successStatus := by
  unfold successStatus
  cases found : (op.responses.map Prod.fst).find? fun code => 200 ≤ code && code < 300 with
  | none =>
    refine Or.inr ⟨rfl, fun code documented range => ?_⟩
    have outside := List.find?_eq_none.mp found code (documents_iff.mp documented)
    simp [range] at outside
  | some code =>
    obtain ⟨range, before, after, codes, earlier⟩ := List.find?_eq_some_iff_append.mp found
    simp only [Bool.and_eq_true, decide_eq_true_eq] at range
    refine Or.inl ⟨documents_iff.mpr (by simp [codes]), range.1, range.2, ?_⟩
    intro other documented least most
    have ascending : (op.responses.map Prod.fst).Pairwise (· < ·) :=
      List.pairwise_map.mpr wellFormed.ascending
    have member := documents_iff.mp documented
    rw [codes] at ascending member
    rcases List.mem_append.mp member with sooner | later
    · simpa [least, most] using earlier other sooner
    · rcases List.mem_cons.mp later with rfl | later
      · exact Nat.le_refl _
      · have tail := (List.pairwise_append.mp ascending).2.1
        exact Nat.le_of_lt ((List.pairwise_cons.mp tail).1 other later)

end Operation

namespace Planner

open Operation

theorem notFoundTarget?_eq_some (found : notFoundTarget? arena op = some q) :
    q ∈ op.pathParameters ∧ (arena.node q.schema).isFreeString ∧
      ∃ before after, op.path.tokens = before ++ q.name :: after ∧
        ∀ p ∈ op.pathParameters, (arena.node p.schema).isFreeString → p.name ∉ after := by
  obtain ⟨after, token, before, tokens, here, later⟩ := List.findSome?_eq_some_iff.mp found
  have chosen := List.find?_some here
  simp only [Bool.and_eq_true, decide_eq_true_eq] at chosen
  refine ⟨List.mem_of_find?_eq_some here, chosen.2, before.reverse, after.reverse, ?_, ?_⟩
  · have forwards := congrArg List.reverse tokens
    simpa [chosen.1] using forwards
  · intro p declared free member
    have passed := List.find?_eq_none.mp (later p.name (List.mem_reverse.mp member)) p declared
    simp [free] at passed

theorem notFoundTarget?_eq_none (wellFormed : op.WellFormed) (none : notFoundTarget? arena op = none)
    {p : Parameter} (declared : p ∈ op.pathParameters) : ¬ (arena.node p.schema).isFreeString := by
  have token : p.name ∈ op.path.tokens :=
    (wellFormed.declared p.name).mpr (List.mem_map_of_mem declared)
  have passed := List.findSome?_eq_none_iff.mp none p.name (List.mem_reverse.mpr token)
  simpa using List.find?_eq_none.mp passed p declared

/-- The parameter of the last scenario, if there is one. -/
def absent? (arena : SchemaArena) (op : Operation) : Option Parameter :=
  if op.documents 404 then notFoundTarget? arena op else none

theorem absent_absent? (wellFormed : op.WellFormed) : op.Absent arena (absent? arena op) := by
  unfold absent?
  split
  · next documented =>
    cases found : notFoundTarget? arena op with
    | none => exact fun _ p declared => notFoundTarget?_eq_none wellFormed found declared
    | some q => exact ⟨documented, notFoundTarget?_eq_some found⟩
  · next silent => exact fun documented => absurd documented silent

theorem freshScenarios_sequence :
    (freshScenarios document config op).map (fun s => (s.kind, s.expectedStatus)) =
      op.sequence op.successStatus (absent? document.schemas op) := by
  have secured : (base document config op).slot.isSome = !decide (op.security = []) := by
    rw [Bool.eq_iff_iff, isSome_slot]
    simp
  rw [freshScenarios_eq, missingScenarios, authScenarios, notFoundScenarios, absent?, secured]
  have given : (base document config op).operation = op := rfl
  rw [given]
  by_cases free : op.security = [] <;> by_cases rejects : op.documents 400 <;>
    by_cases loses : op.documents 404 <;>
    simp [Operation.sequence, free, rejects, loses, RequestBase.scenario, Function.comp_def]

end Planner

namespace Compilation

open Planner

/-- Only the scenario that succeeds looks at the body. -/
theorem assertions_of_mem (wellFormed : op.WellFormed) {s : ScenarioPlan}
    (member : s ∈ (freshPlan document config op).scenarios) :
    s.assertions = if s.kind = .happy then
      ((op.responseSchema? op.successStatus).map document.schemas.assertions).getD [] else [] := by
  obtain ⟨scenario, planned, rfl⟩ := List.mem_map.mp member
  obtain ⟨kind, change, credential, status, arises, rfl⟩ := mem_freshScenarios.mp planned
  have range := wellFormed.succeeds.range
  rw [withAssertions_eq]
  cases arises <;> simp [RequestBase.scenario, range]

end Compilation

/-- The scenarios of a plan are those that its operation calls for, and none of them looks at the
body but the one that succeeds. -/
structure OperationPlan.Sequenced (document : SpecDocument) (op : Operation) (plan : OperationPlan)
    (status : Nat) (absent : Option Parameter) : Prop where
  success : op.Succeeds status
  last : op.Absent document.schemas absent
  distinct : ((op.parameters.filter (·.required)).map fun p => (p.name, p.location)).Nodup
  kinds : plan.scenarios.map (fun s => (s.kind, s.expectedStatus)) = op.sequence status absent
  assertions : ∀ s ∈ plan.scenarios, s.assertions = if s.kind = .happy then
    ((op.responseSchema? status).map document.schemas.assertions).getD [] else []

namespace SpecDocument

open Compilation Planner

theorem compile_sequence {root : Json} (read : ofJson root = .ok document) (config : Config) :
    List.Forall₂ (fun op plan => ∃ status absent,
        OperationPlan.Sequenced document op plan status absent)
      document.operations (document.compile config).operations := by
  refine forall₂_compile fun op member => ?_
  have wellFormed := ofJson_wellFormed read op member
  refine ⟨op.successStatus, absent? document.schemas op, wellFormed.succeeds,
    absent_absent? wellFormed, ?_, ?_, fun s planned => assertions_of_mem wellFormed planned⟩
  · exact (List.filter_sublist.map _).nodup wellFormed.distinct
  · rw [freshPlan, operationPlan, List.map_map]
    simp only [Function.comp_def, kind_withAssertions, expectedStatus_withAssertions]
    exact freshScenarios_sequence

/-- An item of a shop: two documented successes, two path parameters, a required header. -/
def shopDocument : Json := .object [
  ("security", .array [.object [("token", .array [])]]),
  ("paths", .object [("/shops/\x7bshop\x7d/items/\x7bitem\x7d", .object [
    ("parameters", .array [
      .object [("name", .string "shop"), ("in", .string "path"), ("type", .string "string"),
        ("example", .string "corner")],
      .object [("name", .string "item"), ("in", .string "path"), ("type", .string "integer"),
        ("example", .number (.int 7))],
      .object [("name", .string "X-Trace"), ("in", .string "header"), ("required", .bool true),
        ("example", .string "on")]]),
    ("get", .object [("responses", .object [("404", .object []), ("400", .object []),
      ("206", .object []), ("203", .object [])])])])])]

theorem compile_sequence_shop : ∃ document, ofJson shopDocument = .ok document ∧
    document.operations.length = 1 ∧
    List.Forall₂ (fun op plan => ∃ status absent,
        OperationPlan.Sequenced document op plan status absent)
      document.operations (document.compile {}).operations := by
  obtain ⟨document, built, single⟩ : ∃ document, ofJson shopDocument = .ok document ∧
      document.operations.length = 1 := ⟨_, rfl, rfl⟩
  exact ⟨document, built, single, compile_sequence built {}⟩

example : (ofJson shopDocument).toOption.map (fun document =>
    (document.compile {}).scenarios.map fun s => (s.kind, s.expectedStatus)) =
    some [(.happy, 203), (.missingRequiredParameter "shop" .path, 400),
      (.missingRequiredParameter "item" .path, 400),
      (.missingRequiredParameter "X-Trace" .header, 400), (.unauthenticated, 401),
      (.invalidCredential, 401), (.insufficientPermission, 403), (.notFound "shop", 404)] := by
  rfl

end SpecDocument

end HttpPlan
