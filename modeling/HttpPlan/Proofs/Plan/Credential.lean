import HttpPlan.Proofs.Plan.Scenarios
import HttpPlan.Proofs.Scenario.Slot

/-! The credential of a scenario stands in its slot alone, unless the slot is a cookie and an
operation documents a parameter named like the cookie header: such a parameter is sent in every
request, that of a client without credentials included. -/
namespace HttpPlan

variable {document : SpecDocument} {config : Config} {op : Operation} {slot : CredentialSlot}
  {change : Departure} {credential : Option String} {kind : ScenarioKind} {status : Nat}

/-- The credential of the scenarios of a kind, if any. -/
def Credentials.of (credentials : Credentials) : ScenarioKind → Option String
  | .unauthenticated => none
  | .invalidCredential => some credentials.invalidToken
  | .insufficientPermission => some credentials.limitedToken
  | _ => some credentials.token

/-- The credential that is due in a slot: that of the scenario, unless the scenario leaves out a
parameter that stands in the slot. -/
def CredentialSlot.due (slot : CredentialSlot) (credentials : Credentials) (kind : ScenarioKind) :
    Option String :=
  match kind with
  | .missingRequiredParameter name place =>
    if slot.covers place name then none else credentials.of kind
  | _ => credentials.of kind

/-- An operation that documents a cookie header besides the cookie of its credential. -/
def CredentialSlot.Shared (slot : CredentialSlot) (op : Operation) : Prop :=
  (∃ own, slot = .cookie own) ∧ ∃ p ∈ op.parameters, p.isBound ∧ p.location = .header ∧
    Text.sameIgnoringCase p.name "Cookie"

namespace Planner

open RequestBase

theorem stowaways_nil (alone : ¬ slot.Shared op) :
    stowaways slot change (base document config op).bound = [] := by
  unfold stowaways
  split
  · next own =>
    rw [List.filter_eq_nil_iff]
    intro e member named
    obtain ⟨b, bound, -, place, name, -⟩ := mem_brought.mp member
    obtain ⟨p, declared, carried, rfl⟩ := mem_bound.mp bound
    exact alone ⟨⟨own, rfl⟩, p, declared, carried, place, name ▸ named⟩
  · rfl

theorem due_of_arises (alone : ¬ slot.Shared op)
    (arises : Arises document config op kind change credential status) :
    (if change.dropsSlot slot then none else credential) = slot.due config.credentials kind := by
  cases arises with
  | missing documented declared required =>
    rename_i p
    have same : slot.occupiedBy p ↔ slot.covers p.location p.name := by
      rw [CredentialSlot.covers_iff]
      refine ⟨Or.inl, fun covered => covered.resolve_right fun ⟨cookie, place, named⟩ => alone ?_⟩
      exact ⟨cookie, p, declared, by simp [Parameter.isBound, required], place, named⟩
    simp only [Departure.dropsSlot, CredentialSlot.due, same, Credentials.of]
  | _ => rfl

theorem content_of_arises (secured : (base document config op).slot = some slot)
    (alone : ¬ slot.Shared op)
    (arises : Arises document config op kind change credential status) :
    (slot.content ((base document config op).carriage change credential)).entries =
      ((slot.due config.credentials kind).map slot.entry).toList := by
  rw [content_carriage secured, stowaways_nil alone, due_of_arises alone arises]
  cases slot.due config.credentials kind <;> rfl

/-- Only the value of a path parameter is ever replaced. -/
theorem valueOf?_of_arises {b : Bound} {value : String} (place : b.param.location ≠ .path)
    (arises : Arises document config op kind change credential status)
    (sent : change.valueOf? b = some value) : value = b.value := by
  cases arises with
  | missing documented declared required =>
    simp only [Departure.valueOf?] at sent
    split at sent
    · cases sent
    · exact (Option.some.inj sent).symm
  | notFound documented target =>
    have location := (List.mem_filter.mp (target_of_notFound target)).2
    simp only [decide_eq_true_eq] at location
    simp only [Departure.valueOf?, Departure.concerns, location] at sent
    rw [if_neg (by simp [Ne.symm place])] at sent
    exact (Option.some.inj sent).symm
  | _ => exact (Option.some.inj sent).symm

/-- What a request brings to the slot besides is a documented cookie header. -/
theorem mem_stowaways {e : String × String}
    (arises : Arises document config op kind change credential status)
    (member : e ∈ stowaways slot change (base document config op).bound) :
    (∃ own, slot = .cookie own) ∧ ∃ p ∈ op.parameters, p.isBound ∧ p.location = .header ∧
      Text.sameIgnoringCase p.name "Cookie" ∧
      e = (p.name, sentValue document.schemas config p) := by
  unfold stowaways at member
  split at member
  · next own =>
    obtain ⟨brings, named⟩ := List.mem_filter.mp member
    obtain ⟨b, bound, -, place, name, sent⟩ := mem_brought.mp brings
    have value := valueOf?_of_arises (by simp [place]) arises sent
    obtain ⟨p, declared, carried, rfl⟩ := mem_bound.mp bound
    exact ⟨⟨own, rfl⟩, p, declared, carried, place, name ▸ named, Prod.ext name.symm value⟩
  · cases member

theorem credential_of_arises (arises : Arises document config op kind change credential status) :
    credential = config.credentials.of kind := by
  cases arises <;> rfl

/-- A client without credentials sends a cookie header that the operation documents. -/
theorem content_unauthenticated (secured : (base document config op).slot = some slot)
    (shared : slot.Shared op) :
    (slot.content ((base document config op).carriage .none none)).entries ≠ [] := by
  obtain ⟨⟨own, rfl⟩, p, declared, carried, place, named⟩ := shared
  intro empty
  have brings : (p.name, sentValue document.schemas config p) ∈
      stowaways (.cookie own) .none (base document config op).bound :=
    List.mem_filter.mpr ⟨mem_brought.mpr ⟨⟨p, sentValue document.schemas config p⟩,
      mem_bound.mpr ⟨p, declared, carried, rfl⟩, rfl, place, rfl, rfl⟩, named⟩
  have key : p.name ∈ ((∅ : OrderedMap String String).insertAll
      (stowaways (.cookie own) .none (base document config op).bound)).keys :=
    OrderedMap.mem_keys_insertAll.mpr (Or.inl (List.mem_map_of_mem brings))
  rw [content_carriage secured, ite_self] at empty
  have vacant : ((∅ : OrderedMap String String).insertAll
      (stowaways (.cookie own) .none (base document config op).bound)).entries = [] := empty
  simp [OrderedMap.keys, vacant] at key

end Planner

namespace SpecDocument

open Planner Compilation RequestBase

/-- The slot holds what is due in it, exactly, in all scenarios of an operation, if and only if the
operation documents no cookie header besides the cookie of its credential. Nothing but such a
header ever joins the credential of a scenario in its slot. -/
theorem compile_slot (document : SpecDocument) (config : Config) :
    List.Forall₂ (fun op plan => op.security ≠ [] →
      let slot := CredentialSlot.ofScheme (op.security.findSome? document.securitySchemes.get?)
      ((∀ s ∈ plan.scenarios, (slot.content s.request.carriage).entries =
        ((slot.due config.credentials s.kind).map slot.entry).toList) ↔ ¬ slot.Shared op) ∧
      ∀ s ∈ plan.scenarios, ∀ e ∈ (slot.content s.request.carriage).entries,
        (∃ token, config.credentials.of s.kind = some token ∧ e = slot.entry token) ∨
        (∃ own, slot = .cookie own) ∧ ∃ p ∈ op.parameters, p.isBound ∧ p.location = .header ∧
          Text.sameIgnoringCase p.name "Cookie" ∧
          e = (p.name, sentValue document.schemas config p))
      document.operations (document.compile config).operations := by
  refine forall₂_compile fun op _ secured => ?_
  intro slot
  have given : (base document config op).slot = some slot := by
    simp [base, CredentialSlot.ofOperation?, secured, slot]
  refine ⟨⟨?_, ?_⟩, ?_⟩
  · intro each shared
    have arises : Arises document config op _ _ _ _ := .unauthenticated secured
    obtain ⟨s, member, kind, -, request⟩ := exists_mem_of_arises arises
    have empty := each s member
    rw [kind, request] at empty
    exact content_unauthenticated given shared empty
  · intro alone s member
    obtain ⟨change, credential, arises, request⟩ := arises_of_mem member
    rw [request]
    exact content_of_arises given alone arises
  · intro s member e inside
    obtain ⟨change, credential, arises, request⟩ := arises_of_mem member
    have request : s.request.carriage = (base document config op).carriage change credential := by
      rw [request]; rfl
    rw [request, content_carriage given] at inside
    rcases OrderedMap.mem_entries_insertAll inside with own | brought
    · refine Or.inl ?_
      split at own
      · cases own
      · obtain ⟨token, given, rfl⟩ := Option.map_eq_some_iff.mp (Option.mem_toList.mp own)
        exact ⟨token, (credential_of_arises arises).symm.trans given, rfl⟩
    · rcases OrderedMap.mem_entries_insertAll brought with brings | none
      · exact Or.inr (mem_stowaways arises brings)
      · cases none

/-- A cookie for the session, and a documented cookie header besides. -/
def cookieDocument : Json := .object [
  ("components", .object [("securitySchemes", .object [("session", .object [
    ("type", .string "apiKey"), ("in", .string "cookie"), ("name", .string "sid")])])]),
  ("security", .array [.object [("session", .array [])]]),
  ("paths", .object [("/me", .object [("get", .object [
    ("parameters", .array [.object [("name", .string "Cookie"), ("in", .string "header"),
      ("required", .bool true), ("example", .string "theme=dark")]]),
    ("responses", .object [("200", .object [])])])])])]

theorem cookie_sent_unauthenticated : ∃ document, ofJson cookieDocument = .ok document ∧
    ∃ op, document.operations = [op] ∧ op.security ≠ [] ∧
    let slot := CredentialSlot.ofScheme (op.security.findSome? document.securitySchemes.get?)
    slot = .cookie "sid" ∧ ∃ plan, (document.compile {}).operations = [plan] ∧
      ∃ s ∈ plan.scenarios, s.kind = .unauthenticated ∧
        (slot.content s.request.carriage).entries = [("Cookie", "theme=dark")] :=
  ⟨_, rfl, _, rfl, List.cons_ne_nil _ _, rfl, _, rfl, _, List.mem_cons_of_mem _ List.mem_cons_self,
    rfl, rfl⟩

end SpecDocument

end HttpPlan
