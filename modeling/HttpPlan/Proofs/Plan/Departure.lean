import HttpPlan.Proofs.Plan.Omission
import HttpPlan.Proofs.Plan.Paths
import HttpPlan.Proofs.Scenario.Carried

/-! A request that fails authentication departs from the happy one in its credential slot alone, and
one that asks for what does not exist departs from it in one segment of the path alone. -/
namespace HttpPlan

variable {document : SpecDocument} {config : Config} {op : Operation} {p q : Parameter}
  {slot : CredentialSlot} {base : RequestBase} {place : ParameterLocation} {c : Carriage}
  {kind : ScenarioKind} {change : Departure} {credential : Option String} {status : Nat}
  {token name value : String}

/-- Requests that differ in what stands in a credential slot, and in nothing else. -/
structure CredentialSlot.Varies (slot : CredentialSlot) (happy other : RequestPlan) : Prop where
  method : other.method = happy.method
  path : other.path = happy.path
  body : other.body = happy.body
  /-- The entries of the query and the headers, in their order. -/
  text : ∀ place, (other.carriage.text place).entries.filter (!slot.covers place ·.1) =
    (happy.carriage.text place).entries.filter (!slot.covers place ·.1)

/-- Requests that differ in the one segment that stands for a path parameter, and in nothing
else. -/
structure Operation.Replaces (op : Operation) (p : Parameter) (segment : String)
    (happy other : RequestPlan) : Prop where
  method : other.method = happy.method
  query : other.query = happy.query
  headers : other.headers = happy.headers
  body : other.body = happy.body
  path : ∃ (before after : List PathPart) (value : String → String),
    op.path.parts = before ++ .token p.name :: after ∧
    p.name ∉ (⟨before⟩ : PathTemplate).tokens ∧ p.name ∉ (⟨after⟩ : PathTemplate).tokens ∧
    happy.path.toList = (⟨before⟩ : PathTemplate).spelled value ++ (value p.name).toList ++
      (⟨after⟩ : PathTemplate).spelled value ∧
    other.path.toList = (⟨before⟩ : PathTemplate).spelled value ++ segment.toList ++
      (⟨after⟩ : PathTemplate).spelled value

namespace PathTemplate

variable {t : PathTemplate} {segment other : String → String}

theorem spelled_congr (same : ∀ name ∈ t.tokens, segment name = other name) :
    t.spelled segment = t.spelled other := by
  refine List.flatMap_congr fun part member => ?_
  cases part with
  | literal text => rfl
  | token name =>
    exact congrArg String.toList (same name (List.mem_filterMap.mpr ⟨_, member, rfl⟩))

theorem spelled_around {before after : List PathPart}
    (parts : t.parts = before ++ .token name :: after) :
    t.spelled segment = (⟨before⟩ : PathTemplate).spelled segment ++ (segment name).toList ++
      (⟨after⟩ : PathTemplate).spelled segment := by
  simp only [spelled, parts, List.flatMap_append, List.flatMap_cons, List.append_assoc]

theorem tokens_around {before after : List PathPart}
    (parts : t.parts = before ++ .token name :: after) :
    t.tokens = (⟨before⟩ : PathTemplate).tokens ++ name :: (⟨after⟩ : PathTemplate).tokens := by
  simp only [PathTemplate.tokens, parts, List.filterMap_append, List.filterMap_cons,
    PathPart.token?]

/-- A template whose tokens are distinct divides at each of them. -/
theorem exists_around (once : t.tokens.Nodup) (member : name ∈ t.tokens) :
    ∃ before after, t.parts = before ++ .token name :: after ∧
      name ∉ (⟨before⟩ : PathTemplate).tokens ∧ name ∉ (⟨after⟩ : PathTemplate).tokens := by
  obtain ⟨part, inside, named⟩ := List.mem_filterMap.mp member
  obtain rfl : part = .token name := by
    cases part with
    | literal text => cases named
    | token other => cases named; rfl
  obtain ⟨before, after, parts⟩ := List.append_of_mem inside
  rw [tokens_around parts, List.nodup_append] at once
  exact ⟨before, after, parts, fun earlier => once.2.2 name earlier name List.mem_cons_self rfl,
    (List.nodup_cons.mp once.2.1).1⟩

end PathTemplate

namespace CredentialSlot

/-- A credential leaves what is not in its slot as it is, in the same order. -/
theorem filterKeys_fill : ((slot.fill token c).text place).filterKeys (!slot.covers place ·) =
    (c.text place).filterKeys (!slot.covers place ·) := by
  cases slot <;> cases place <;> simp [fill, covers, Carriage.text, OrderedMap.filterKeys_insert]

end CredentialSlot

namespace RequestBase

/-- Outside its slot a credential makes no difference. -/
theorem filterKeys_carriage (change : Departure) (credential : Option String)
    (place : ParameterLocation) (given : base.slot = some slot)
    (kept : change.dropsSlot slot = false) :
    ((base.carriage change credential).text place).filterKeys (!slot.covers place ·) =
      ((base.carriage change none).text place).filterKeys (!slot.covers place ·) := by
  cases credential with
  | none => rfl
  | some token =>
    simp only [carriage, fillSlot, given, kept, Bool.false_eq_true, if_false]
    exact CredentialSlot.filterKeys_fill

theorem valueOf?_replacing {b : Bound} (outside : b.param.location ≠ p.location) :
    Departure.valueOf? (.replacing p value) b = some b.value := by
  have apart : Departure.concerns p b.param = false := by
    simp [Departure.concerns, Ne.symm outside]
  simp only [Departure.valueOf?, apart, Bool.false_eq_true, if_false]

/-- The value of a path parameter is carried by the path alone. -/
theorem carriage_replacing (base : RequestBase) (value : String) (credential : Option String)
    (inPath : p.location = .path) :
    base.carriage (.replacing p value) credential = base.carriage .none credential := by
  have carried : carry base.slot (.replacing p value) = carry base.slot .none := by
    funext c b
    unfold carry
    split
    · rfl
    · cases place : b.param.location with
      | path => cases Departure.valueOf? (.replacing p value) b <;>
          cases Departure.valueOf? .none b <;> rfl
      | _ => rw [valueOf?_replacing (by simp [place, inPath])]; rfl
  rw [carriage, carriage, carried]
  rfl

end RequestBase

namespace Planner

open RequestBase

theorem varies (secured : (Planner.base document config op).slot = some slot) :
    slot.Varies
      ((Planner.base document config op).request .none (some config.credentials.token))
      ((Planner.base document config op).request .none credential) where
  method := rfl
  path := rfl
  body := rfl
  text := fun place => by
    have bare (credential : Option String) := congrArg OrderedMap.entries
      (filterKeys_carriage .none credential place secured rfl)
    exact (bare credential).trans (bare (some config.credentials.token)).symm

/-- A replaced value is found at its own token, and at every other token what was there before. -/
theorem tokenValue?_replacing (wellFormed : op.WellFormed) (declared : p ∈ op.pathParameters)
    (member : token ∈ op.path.tokens) :
    ((Planner.base document config op).tokenValue? (.replacing p value) token).getD "" =
      if token = p.name then value
      else ((Planner.base document config op).tokenValue? .none token).getD "" := by
  have inPath : p.location = .path := by simpa using (List.mem_filter.mp declared).2
  obtain ⟨q, also, named, each⟩ : ∃ q ∈ op.pathParameters, q.name = token ∧ ∀ change,
      (Planner.base document config op).tokenValue? change token =
        change.valueOf? ⟨q, sentValue document.schemas config q⟩ :=
    tokenValue?_base wellFormed member
  have here : q.location = .path := by simpa using (List.mem_filter.mp also).2
  simp only [each, Departure.valueOf?, Departure.concerns, inPath, here, named, decide_true,
    Bool.and_true, decide_eq_true_eq, eq_comm (a := p.name)]
  split <;> rfl

theorem replaces (wellFormed : op.WellFormed) (declared : p ∈ op.pathParameters) :
    op.Replaces p value
      ((Planner.base document config op).request .none credential)
      ((Planner.base document config op).request (.replacing p value) credential) := by
  have inPath : p.location = .path := by simpa using (List.mem_filter.mp declared).2
  have same := carriage_replacing (Planner.base document config op) value credential inPath
  have replaced : ∀ token ∈ op.path.tokens,
      ((Planner.base document config op).tokenValue? (.replacing p value) token).getD "" =
        if token = p.name then value
        else ((Planner.base document config op).tokenValue? .none token).getD "" :=
    fun _ => tokenValue?_replacing wellFormed declared
  have token : p.name ∈ op.path.tokens :=
    (wellFormed.declared p.name).mpr (List.mem_map_of_mem declared)
  obtain ⟨before, after, parts, outside, beyond⟩ :=
    PathTemplate.exists_around wellFormed.once token
  have tokens : ∀ name, name ∈ (⟨before⟩ : PathTemplate).tokens ∨
      name ∈ (⟨after⟩ : PathTemplate).tokens → name ∈ op.path.tokens := by
    intro name either
    rw [PathTemplate.tokens_around parts, List.mem_append]
    exact either.imp_right (List.mem_cons_of_mem _)
  refine ⟨rfl, congrArg Carriage.query same, congrArg Carriage.headers same, rfl,
    before, after, _, parts, outside, beyond,
    PathTemplate.toList_render.trans (PathTemplate.spelled_around parts), ?_⟩
  refine PathTemplate.toList_render.trans ((PathTemplate.spelled_around parts).trans ?_)
  have first := PathTemplate.spelled_congr fun name inside =>
    (replaced name (tokens name (Or.inl inside))).trans
      (if_neg fun (is : name = p.name) => outside (is ▸ inside))
  have last := PathTemplate.spelled_congr fun name inside =>
    (replaced name (tokens name (Or.inr inside))).trans
      (if_neg fun (is : name = p.name) => beyond (is ▸ inside))
  rw [first, last, replaced p.name token, if_pos rfl]

/-- The failures of authentication send what the happy request sends, with another credential. -/
theorem departs_of_unauthorized
    (arises : Arises document config op kind change credential status)
    (fails : kind ∈ [.unauthenticated, .invalidCredential, .insufficientPermission]) :
    change = .none := by
  cases arises with
  | missing => simp at fails
  | notFound => simp at fails
  | _ => rfl

theorem departs_of_absent
    (arises : Arises document config op (.notFound name) change credential status) :
    ∃ p ∈ op.pathParameters, p.name = name ∧ credential = some config.credentials.token ∧
      change = .replacing p (Percent.encode (absentValue document.schemas config p)) := by
  cases arises with
  | notFound documented target => exact ⟨_, target_of_notFound target, rfl, rfl, rfl⟩

end Planner

namespace SpecDocument

open Compilation Planner

/-- A client that fails authentication sends the happy request but for what stands in the credential
slot, and a request that finds nothing is the happy one but for one segment of its path. -/
theorem compile_departs {root : Json} (read : ofJson root = .ok document) (config : Config) :
    List.Forall₂ (fun op plan => (∃ happy ∈ plan.scenarios, happy.kind = .happy) ∧
        ∀ happy ∈ plan.scenarios, happy.kind = .happy →
          (op.security ≠ [] →
            ∀ kind ∈ [.unauthenticated, .invalidCredential, .insufficientPermission],
              (∃ s ∈ plan.scenarios, s.kind = kind) ∧ ∀ s ∈ plan.scenarios, s.kind = kind →
                (CredentialSlot.ofScheme
                  (op.security.findSome? document.securitySchemes.get?)).Varies
                    happy.request s.request) ∧
          ∀ s ∈ plan.scenarios, ∀ name, s.kind = .notFound name →
            ∃ p ∈ op.pathParameters, p.name = name ∧
              op.Replaces p (Percent.encode (absentValue document.schemas config p))
                happy.request s.request)
      document.operations (document.compile config).operations := by
  refine forall₂_compile fun op member => ⟨?_, fun happy planned succeeds => ?_⟩
  · have arises : Arises document config op _ _ _ _ := .happy
    obtain ⟨happy, planned, kind, -⟩ := exists_mem_of_arises arises
    exact ⟨happy, planned, kind⟩
  obtain ⟨change, credential, arises, request⟩ := arises_of_mem planned
  rw [succeeds] at arises
  obtain ⟨rfl, rfl⟩ := departs_of_happy arises
  rw [request]
  refine ⟨fun secured kind fails => ⟨?_, fun s also is => ?_⟩, fun s also name is => ?_⟩
  · have all : ∀ kind ∈ [ScenarioKind.unauthenticated, .invalidCredential, .insufficientPermission],
        ∃ credential status, Arises document config op kind .none credential status := by
      simp only [List.forall_mem_cons, List.not_mem_nil, false_implies, implies_true, and_true]
      exact ⟨⟨_, _, .unauthenticated secured⟩, ⟨_, _, .invalidCredential secured⟩,
        ⟨_, _, .insufficientPermission secured⟩⟩
    obtain ⟨credential, status, arises⟩ := all kind fails
    obtain ⟨s, also, is, -⟩ := exists_mem_of_arises arises
    exact ⟨s, also, is⟩
  · obtain ⟨change, credential, arises, other⟩ := arises_of_mem also
    rw [is] at arises
    obtain rfl := departs_of_unauthorized arises fails
    rw [other]
    exact varies (by simp [Planner.base, CredentialSlot.ofOperation?, secured])
  · obtain ⟨change, credential, arises, other⟩ := arises_of_mem also
    rw [is] at arises
    obtain ⟨p, declared, named, rfl, rfl⟩ := departs_of_absent arises
    rw [other]
    exact ⟨p, declared, named, replaces (ofJson_wellFormed read op member) declared⟩

/-- A key in a header that is documented as well, and two path parameters. -/
def vaultDocument : Json := .object [
  ("components", .object [("securitySchemes", .object [("key", .object [
    ("type", .string "apiKey"), ("in", .string "header"), ("name", .string "X-Key")])])]),
  ("security", .array [.object [("key", .array [])]]),
  ("paths", .object [("/vaults/\x7bvault\x7d/notes/\x7bnote\x7d", .object [("get", .object [
    ("parameters", .array [
      .object [("name", .string "vault"), ("in", .string "path"), ("type", .string "string"),
        ("example", .string "a b")],
      .object [("name", .string "note"), ("in", .string "path"), ("type", .string "string"),
        ("example", .string "first")],
      .object [("name", .string "x-key"), ("in", .string "header"), ("required", .bool true),
        ("example", .string "documented")]]),
    ("responses", .object [("404", .object [])])])])])]

/-- Settings that name the header of the key, and another one. -/
def keyed : Config := { headers := .ofList [("X-KEY", "static"), ("Accept", "text/plain")] }

theorem compile_departs_keyed : ∃ document, ofJson vaultDocument = .ok document ∧
    ∃ op plan, document.operations = [op] ∧ (document.compile keyed).operations = [plan] ∧
      op.security ≠ [] ∧ ∃ happy ∈ plan.scenarios, happy.kind = .happy ∧
        (∃ s ∈ plan.scenarios, s.kind = .unauthenticated ∧
          (CredentialSlot.header "X-Key" "").Varies happy.request s.request) ∧
        ∃ s ∈ plan.scenarios, s.kind = .notFound "note" ∧ ∃ p ∈ op.pathParameters,
          p.name = "note" ∧ op.Replaces p (Percent.encode (absentValue document.schemas keyed p))
            happy.request s.request := by
  have fifth {α : Type} {a b c d e : α} {rest : List α} : e ∈ a :: b :: c :: d :: e :: rest := by simp
  obtain ⟨document, built, op, plan, ops, plans, secured, slot, absent, also, is⟩ :
      ∃ document, ofJson vaultDocument = .ok document ∧ ∃ op plan,
        document.operations = [op] ∧ (document.compile keyed).operations = [plan] ∧
        op.security ≠ [] ∧
        CredentialSlot.ofScheme (op.security.findSome? document.securitySchemes.get?) =
          .header "X-Key" "" ∧ ∃ s ∈ plan.scenarios, s.kind = .notFound "note" :=
    ⟨_, rfl, _, _, rfl, rfl, List.cons_ne_nil _ _, rfl, _, fifth, rfl⟩
  have each := compile_departs built keyed
  rw [ops, plans] at each
  cases each with
  | cons first rest =>
    obtain ⟨⟨happy, planned, succeeds⟩, departs⟩ := first
    obtain ⟨fails, finds⟩ := departs happy planned succeeds
    obtain ⟨⟨s, member, kind⟩, varies⟩ := fails secured .unauthenticated List.mem_cons_self
    exact ⟨document, built, op, plan, ops, plans, secured, happy, planned, succeeds,
      ⟨s, member, kind, slot ▸ varies s member kind⟩, absent, also, is,
      finds absent also "note" is⟩

end SpecDocument

end HttpPlan
