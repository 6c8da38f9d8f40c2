import HttpPlan.Proofs.Assertion.Words
import HttpPlan.Proofs.Plan.Interchange
import HttpPlan.Proofs.Plan.Sequence

/-! A compiled plan reads back from the interchange format. Its statuses, lengths and positions are
small enough for any document; only a body that is null is lost. -/
namespace HttpPlan

variable {document : SpecDocument} {config : Config} {op : Operation} {root : Json}

theorem Compilation.readable_of_mem {s : ScenarioPlan} (wellFormed : op.WellFormed)
    (nodes : ∀ node ∈ document.schemas.nodes, node.InWords)
    (member : s ∈ (freshPlan document config op).scenarios) : s.Readable := by
  have checks := assertions_of_mem wellFormed member
  obtain ⟨change, credential, arises, -⟩ := arises_of_mem member
  constructor
  · have range := wellFormed.succeeds.range
    generalize s.expectedStatus = status, s.kind = kind at arises
    cases arises <;> omega
  · rw [checks]
    split
    · cases op.responseSchema? op.successStatus with
      | none => trivial
      | some schema => exact Derivation.assertions_inWords nodes schema
    · trivial

namespace TestPlan

open Compilation

theorem readable_compile (read : SpecDocument.ofJson root = .ok document) :
    ∀ s ∈ (document.compile config).scenarios, s.Readable := by
  intro s member
  obtain ⟨plan, planned, inside⟩ := List.mem_flatMap.mp member
  rw [SpecDocument.operations_compile] at planned
  obtain ⟨op, declared, rfl⟩ := List.mem_map.mp planned
  exact readable_of_mem (SpecDocument.ofJson_wellFormed read op declared)
    (SpecDocument.forall_node Resolver.lasting_inWords read) inside

/-- A compiled plan reads back as it was but for bodies that are null, so it reads back whole exactly
if it has none. -/
theorem ofDescription_read_back {plan : TestPlan} (compiled : ofDescription root config = .ok plan) :
    ofJson? plan.toJson = some plan.withoutNull ∧
    (ofJson? plan.toJson = some plan ↔ ∀ s ∈ plan.scenarios, s.request.body ≠ some .null) := by
  have readable : ∀ s ∈ plan.scenarios, s.Readable := by
    unfold ofDescription at compiled
    cases read : SpecDocument.ofJson root with
    | error e => rw [read] at compiled; cases compiled
    | ok document =>
      rw [read] at compiled
      cases compiled
      exact readable_compile read
  have reads := ofJson?_toJson readable
  exact ⟨reads, by rw [reads, Option.some_inj, withoutNull_eq_iff]⟩

/-- An operation that takes a body of one schema and answers with a count and notes. -/
def accepting (schema : Json) : Json := .object [
  ("paths", .object [("/notes", .object [("post", .object [
    ("requestBody", .object [("content", .object [
      ("application/json", .object [("schema", schema)])])]),
    ("responses", .object [("201", .object [("schema", .object [
      ("type", .string "object"), ("required", .array [.string "count"]),
      ("properties", .object [("count", .object [("type", .string "integer")]),
        ("notes", .object [("items", .object [("type", .string "string"),
          ("maxLength", .number (.int 80))])])])])])])])])])]

theorem ofDescription_read_back_whole :
    ∃ plan, ofDescription (accepting (.object [("type", .string "object")])) {} = .ok plan ∧
      (plan.scenarios.map fun s => Assertion.count s.assertions) = [8] ∧
      ofJson? plan.toJson = some plan := by
  obtain ⟨plan, compiled, bodies⟩ :
      ∃ plan, ofDescription (accepting (.object [("type", .string "object")])) {} = .ok plan ∧
        plan.scenarios.map (·.request.body) = [some (.object [])] := ⟨_, rfl, rfl⟩
  have checks : (ofDescription (accepting (.object [("type", .string "object")])) {}).toOption.map
      (fun plan => plan.scenarios.map fun s => Assertion.count s.assertions) = some [8] := by
    decide +kernel
  rw [compiled] at checks
  refine ⟨plan, compiled, Option.some_inj.mp checks,
    (ofDescription_read_back compiled).2.mpr fun s member null => ?_⟩
  have body : some Json.null ∈ plan.scenarios.map (·.request.body) :=
    List.mem_map.mpr ⟨s, member, null⟩
  rw [bodies] at body
  simp at body

/-- A body that has to be null does not read back. -/
theorem null_body_lost :
    ∃ plan, ofDescription (accepting (.object [("type", .string "null")])) {} = .ok plan ∧
      plan.scenarios.map (·.request.body) = [some .null] ∧ ofJson? plan.toJson ≠ some plan := by
  obtain ⟨document, read, bodies⟩ : ∃ document,
      SpecDocument.ofJson (accepting (.object [("type", .string "null")])) = .ok document ∧
        (document.compile {}).scenarios.map (·.request.body) = [some .null] := ⟨_, rfl, rfl⟩
  refine ⟨document.compile {}, ?_, bodies, ?_⟩
  · rw [ofDescription, read]
    rfl
  · rw [ofJson?_toJson (readable_compile read), ne_eq, Option.some_inj, withoutNull_eq_iff]
    intro whole
    obtain ⟨s, member, null⟩ := List.mem_map.mp (bodies ▸ List.mem_singleton_self (some Json.null))
    exact whole s member null

end TestPlan

end HttpPlan
