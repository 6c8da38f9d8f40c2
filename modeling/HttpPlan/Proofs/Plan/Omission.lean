import HttpPlan.Proofs.Plan.Scenarios
import HttpPlan.Proofs.Scenario.Carried
import HttpPlan.Proofs.Spec.WellFormed

/-! The request that leaves out a required parameter departs from the happy one in that parameter
alone. Its header can still be there under another title: as the cookie of the credential, as a
configured header, or as another parameter whose name differs in case only. -/
namespace HttpPlan

variable {document : SpecDocument} {config : Config} {op : Operation} {p q : Parameter}
  {kind : ScenarioKind} {change : Departure} {credential : Option String} {status : Nat}
  {place : ParameterLocation} {name : String}

namespace Planner

open RequestBase

/-- Where requests have a header named like `p` whether or not they carry `p`. -/
def Recurs (document : SpecDocument) (config : Config) (op : Operation) (p : Parameter) : Prop :=
  let slot := CredentialSlot.ofOperation? document.securitySchemes op
  if slot.any (·.covers .header p.name) then ∃ own, slot = some (.cookie own)
  else (∃ key ∈ config.headers.keys, Text.sameIgnoringCase key p.name) ∨
    ∃ q ∈ op.parameters, q.isBound ∧ q ≠ p ∧ q.location = .header ∧
      Text.sameIgnoringCase q.name p.name

/-- What the request without `p` has and lacks, next to the happy one. -/
structure Omits (document : SpecDocument) (config : Config) (op : Operation) (p : Parameter)
    (happy missing : RequestPlan) : Prop where
  method : missing.method = happy.method
  body : missing.body = happy.body
  path : ∃ segment, happy.path.toList = op.path.spelled segment ∧ missing.path.toList =
    op.path.spelled fun token => if p.location = .path ∧ token = p.name then "" else segment token
  others : ∀ q ∈ op.parameters, q.isBound → q ≠ p → q.location ≠ .path →
    ¬ (CredentialSlot.ofOperation? document.securitySchemes op).any (·.covers q.location q.name) →
    ∃ value, (happy.carriage.text q.location).get? q.name = some value ∧
      (missing.carriage.text q.location).get? q.name = some value
  query : p.location = .query → p.name ∉ missing.query.keys
  header : p.location = .header →
    ((∀ key ∈ missing.headers.keys, ¬ Text.sameIgnoringCase key p.name) ↔
      ¬ Recurs document config op p)

theorem departs_of_happy (arises : Arises document config op .happy change credential status) :
    change = .none ∧ credential = some config.credentials.token := by
  cases arises
  exact ⟨rfl, rfl⟩

theorem departs_of_missing (arises : Arises document config op kind change credential status)
    (missing : kind = .missingRequiredParameter name place) :
    ∃ q ∈ op.parameters, q.name = name ∧ q.location = place ∧ change = .without q ∧
      credential = some config.credentials.token := by
  cases arises with
  | missing documented declared required =>
    cases missing
    exact ⟨_, declared, rfl, rfl, rfl, rfl⟩
  | _ => cases missing

theorem distinct_bound (wellFormed : op.WellFormed) :
    ((Planner.base document config op).bound.map
      fun b => (b.param.name, b.param.location)).Nodup := by
  have keys : (Planner.base document config op).bound.map
      (fun b => (b.param.name, b.param.location)) =
      (op.parameters.filter (·.isBound)).map fun p => (p.name, p.location) := by
    simp [Planner.base, Function.comp_def]
  rw [keys]
  exact (List.filter_sublist.map _).nodup wellFormed.distinct

theorem concerns_iff (wellFormed : op.WellFormed) (declared : p ∈ op.parameters)
    (other : q ∈ op.parameters) : Departure.concerns p q ↔ q = p := by
  simp only [Departure.concerns, Bool.and_eq_true, decide_eq_true_eq]
  constructor
  · rintro ⟨name, location⟩
    exact wellFormed.unique other declared name.symm location.symm
  · rintro rfl
    exact ⟨rfl, rfl⟩

theorem omits (wellFormed : op.WellFormed) (declared : p ∈ op.parameters) :
    Omits document config op p
      ((Planner.base document config op).request .none (some config.credentials.token))
      ((Planner.base document config op).request (.without p) (some config.credentials.token)) where
  method := rfl
  body := rfl
  path := by
    refine ⟨_, PathTemplate.toList_render, PathTemplate.toList_render.trans ?_⟩
    exact congrArg op.path.spelled (funext fun token => tokenValue?_without)
  others := by
    intro q other carried differs inside apart
    have member : ⟨q, sentValue document.schemas config q⟩ ∈ (Planner.base document config op).bound :=
      mem_bound.mpr ⟨q, other, carried, rfl⟩
    have kept : ¬ Departure.concerns p q :=
      fun concerns => differs ((concerns_iff wellFormed declared other).mp concerns)
    have free := Bool.eq_false_iff.mpr apart
    exact ⟨_, get?_carriage_of_bound (distinct_bound wellFormed) member free inside rfl,
      get?_carriage_of_bound (distinct_bound wellFormed) member free inside
        (by simp [Departure.valueOf?, kept])⟩
  query inQuery := query_omitted inQuery
  header inHeader := by
    unfold Recurs
    dsimp only
    split
    · next covered => exact header_omitted_of_secured inHeader covered
    · next uncovered =>
      have apart : (Planner.base document config op).secures .header p.name = false :=
        Bool.eq_false_iff.mpr uncovered
      refine (header_omitted_of_apart apart).trans (not_congr (or_congr_right ?_))
      constructor
      · rintro ⟨b, member, kept, here, same⟩
        obtain ⟨q, other, carried, rfl⟩ := mem_bound.mp member
        exact ⟨q, other, carried, fun equal => kept ((concerns_iff wellFormed declared other).mpr equal),
          here, same⟩
      · rintro ⟨q, other, carried, differs, here, same⟩
        exact ⟨_, mem_bound.mpr ⟨q, other, carried, rfl⟩,
          fun concerns => differs ((concerns_iff wellFormed declared other).mp concerns), here, same⟩

end Planner

namespace SpecDocument

open Compilation Planner

/-- Each required parameter has a request that leaves it out and agrees with the happy one in all
else; of a header, the name is gone as well, unless it recurs. -/
theorem compile_omission {root : Json} (read : ofJson root = .ok document) (config : Config) :
    List.Forall₂ (fun op plan => op.documents 400 → ∀ p ∈ op.parameters, p.required →
        (∃ happy ∈ plan.scenarios, happy.kind = .happy) ∧
        (∃ missing ∈ plan.scenarios, missing.kind = .missingRequiredParameter p.name p.location) ∧
        ∀ happy ∈ plan.scenarios, happy.kind = .happy → ∀ missing ∈ plan.scenarios,
          missing.kind = .missingRequiredParameter p.name p.location →
          Omits document config op p happy.request missing.request)
      document.operations (document.compile config).operations := by
  refine forall₂_compile fun op member documented p declared required => ⟨?_, ?_, ?_⟩
  · have arises : Arises document config op _ _ _ _ := .happy
    obtain ⟨happy, planned, kind, -⟩ := exists_mem_of_arises arises
    exact ⟨happy, planned, kind⟩
  · have arises : Arises document config op _ _ _ _ := .missing documented declared required
    obtain ⟨missing, planned, kind, -⟩ := exists_mem_of_arises arises
    exact ⟨missing, planned, kind⟩
  · intro happy planned succeeds missing also lacks
    have wellFormed := ofJson_wellFormed read op member
    obtain ⟨change, credential, arises, request⟩ := arises_of_mem planned
    rw [succeeds] at arises
    obtain ⟨rfl, rfl⟩ := departs_of_happy arises
    obtain ⟨change, credential, arises, other⟩ := arises_of_mem also
    obtain ⟨q, same, name, location, rfl, rfl⟩ := departs_of_missing arises lacks
    cases wellFormed.unique same declared name location
    rw [request, other]
    exact omits wellFormed declared

/-- An item with a required parameter in each place. -/
def tracedDocument : Json := .object [("paths", .object [("/items/\x7bitem\x7d", .object [("get",
  .object [
    ("parameters", .array [
      .object [("name", .string "item"), ("in", .string "path"), ("example", .string "a b")],
      .object [("name", .string "page"), ("in", .string "query"), ("required", .bool true),
        ("example", .string "last")],
      .object [("name", .string "X-Trace"), ("in", .string "header"), ("required", .bool true),
        ("example", .string "on")]]),
    ("responses", .object [("400", .object [])])])])])]

/-- Settings that name the header of `tracedDocument` themselves. -/
def tracing : Config := { headers := .ofList [("X-Trace", "static")] }

theorem compile_omission_traced : ∃ document, ofJson tracedDocument = .ok document ∧
    ∃ op plan, document.operations = [op] ∧ (document.compile {}).operations = [plan] ∧
      op.documents 400 ∧ ∃ p ∈ op.parameters, p.name = "X-Trace" ∧ p.required ∧
        ∃ happy ∈ plan.scenarios, happy.kind = .happy ∧ ∃ missing ∈ plan.scenarios,
          missing.kind = .missingRequiredParameter p.name p.location ∧
          Omits document {} op p happy.request missing.request := by
  have third {α : Type} {a b c : α} {rest : List α} : c ∈ a :: b :: c :: rest := by simp
  obtain ⟨document, built, op, plan, ops, plans, documented, p, declared, named, required⟩ :
      ∃ document, ofJson tracedDocument = .ok document ∧ ∃ op plan,
        document.operations = [op] ∧ (document.compile {}).operations = [plan] ∧
        op.documents 400 ∧ ∃ p ∈ op.parameters, p.name = "X-Trace" ∧ p.required :=
    ⟨_, rfl, _, _, rfl, rfl, rfl, _, third, rfl, rfl⟩
  have each := compile_omission built {}
  rw [ops, plans] at each
  cases each with
  | cons first rest =>
    obtain ⟨⟨happy, planned, succeeds⟩, ⟨missing, also, lacks⟩, omits⟩ :=
      first documented p declared required
    exact ⟨document, built, op, plan, ops, plans, documented, p, declared, named, required, happy,
      planned, succeeds, missing, also, lacks, omits happy planned succeeds missing also lacks⟩

theorem configured_header_stays : ∃ document, ofJson tracedDocument = .ok document ∧
    ∃ op plan, document.operations = [op] ∧ (document.compile tracing).operations = [plan] ∧
      op.documents 400 ∧ ∃ p ∈ op.parameters, p.name = "X-Trace" ∧ p.location = .header ∧
        p.required ∧ ∃ missing ∈ plan.scenarios,
          missing.kind = .missingRequiredParameter p.name p.location ∧
          missing.request.headers.get? p.name = some "static" := by
  have third {α : Type} {a b c : α} {rest : List α} : c ∈ a :: b :: c :: rest := by simp
  exact ⟨_, rfl, _, _, rfl, rfl, rfl, _, third, rfl, rfl, rfl, _, List.mem_cons_of_mem _ third, rfl,
    rfl⟩

end SpecDocument

end HttpPlan
