import HttpPlan.Proofs.Placeholder.Phrase
import HttpPlan.Scenario
import HttpPlan.Proofs.Plan.Departure
import HttpPlan.Proofs.Spec.Examples

/-! A request for what does not exist asks for something else than the happy request, unless the
description or the settings name the very identifier that stands for nothing. A made-up text never
is that identifier: a random one names its version, which the nil one does not, and the sentinel
for other texts has a hyphen, which no phrase has, and is none of the fixed samples. -/
namespace HttpPlan

variable {document : SpecDocument} {arena : SchemaArena} {config : Config} {op : Operation}
  {p : Parameter} {id : SchemaId} {node : SchemaNode} {name value : String} {r : Random}
  {s : Synthesizer} {length : Nat} {credential : Option String}

theorem Format.version_mem_uuid : '4' ∈ (uuid r).1.toList := by
  simp [uuid]

theorem Format.uuid_ne_nilUuid : (uuid r).1 ≠ nilUuid := by
  intro same
  have version : '4' ∈ nilUuid.toList := same ▸ version_mem_uuid
  exact absurd version (by decide)

theorem Format.fixed?_ne_absentIdentifier {format value : String}
    (known : fixed? format = some value) : value ≠ absentIdentifier := by
  rintro rfl
  unfold fixed? at known
  split at known <;> revert known <;> decide

theorem Phrase.draw_ne_absentIdentifier : (Phrase.draw length r).1 ≠ absentIdentifier := by
  intro same
  have hyphen : '-' ∈ absentIdentifier.toList := by decide
  rw [← same] at hyphen
  exact absurd (Phrase.mem_draw hyphen) (by decide)

/-- The identifier that stands for nothing where a free text is asked for. -/
def SchemaNode.absent (node : SchemaNode) : String :=
  if node.isUuid then nilUuid else absentIdentifier

theorem Synthesizer.text_ne_absent : (text node name r s).1 ≠ node.absent := by
  unfold text SchemaNode.absent
  split
  · exact Format.uuid_ne_nilUuid
  · split
    · next value known =>
      obtain ⟨format, -, fixed⟩ := Option.bind_eq_some_iff.mp known
      exact Format.fixed?_ne_absentIdentifier fixed
    · exact Phrase.draw_ne_absentIdentifier

/-- Where two ways of filling a template agree on all tokens but one, they spell the same text
exactly where they agree on that one as well. -/
theorem PathTemplate.spelled_eq_iff {t : PathTemplate} {segment other : String → String}
    (once : t.tokens.Nodup) (member : name ∈ t.tokens)
    (same : ∀ token ∈ t.tokens, token ≠ name → segment token = other token) :
    t.spelled segment = t.spelled other ↔ segment name = other name := by
  obtain ⟨before, after, parts, outside, beyond⟩ := exists_around once member
  have tokens := tokens_around parts
  have first : (⟨before⟩ : PathTemplate).spelled segment = (⟨before⟩ : PathTemplate).spelled other :=
    spelled_congr fun token inside => same token (by simp [tokens, inside]) fun is =>
      outside (is ▸ inside)
  have last : (⟨after⟩ : PathTemplate).spelled segment = (⟨after⟩ : PathTemplate).spelled other :=
    spelled_congr fun token inside => same token (by simp [tokens, inside]) fun is =>
      beyond (is ▸ inside)
  rw [spelled_around parts, spelled_around parts, first, last, List.append_cancel_right_eq,
    List.append_cancel_left_eq, String.toList_inj]

namespace Planner

/-- A text that neither lists its values nor documents one is made up. -/
theorem placeholder_free (free : (arena.node id).isFreeString)
    (silent : (arena.node id).exampleValue = none) : placeholder arena id name =
      .string (Synthesizer.text (arena.node id) name (.ofSeed (Synthesizer.seed name)) {}).1 := by
  obtain ⟨kind, open_values⟩ : (arena.node id).kind = .typed .string ∧
      (arena.node id).hasEnumeration = false := by simpa [SchemaNode.isFreeString] using free
  have undocumented : Synthesizer.documented? (arena.node id) = none := by
    unfold Synthesizer.documented?
    split
    · next listed => simp [SchemaNode.hasEnumeration, listed] at open_values
    · exact silent
  simp only [placeholder, Synthesizer.synthesize, Synthesizer.value, List.not_mem_nil, if_false,
    undocumented, kind]

theorem free_of_target (target : notFoundTarget? arena op = some p) :
    (arena.node p.schema).isFreeString := by
  obtain ⟨token, -, found⟩ := List.exists_of_findSome?_eq_some target
  have meets := List.find?_some found
  simp only [Bool.and_eq_true] at meets
  exact meets.2

theorem target_of_absent {change : Departure} {status : Nat}
    (arises : Arises document config op (.notFound name) change credential status) :
    ∃ p, notFoundTarget? document.schemas op = some p ∧ p.name = name ∧
      credential = some config.credentials.token ∧
      change = .replacing p (Percent.encode (absentValue document.schemas config p)) := by
  cases arises with
  | notFound documented target => exact ⟨_, target, rfl, rfl, rfl⟩

/-- The text made up for the target of the request that finds nothing. -/
theorem rawValue_ne_absent (unset : config.notFoundValue = none)
    (target : notFoundTarget? arena op = some p) (inherits : p.Inherits arena)
    (silent : p.exampleValue = none) (unnamed : config.pathParams.get? p.name = none) :
    rawValue arena config p ≠ absentValue arena config p := by
  have free := free_of_target target
  have made : rawValue arena config p = (Synthesizer.text (arena.node p.schema) p.name
      (.ofSeed (Synthesizer.seed p.name)) {}).1 := by
    simp [rawValue, silent, unnamed, placeholder_free free (inherits silent), Json.wireText]
  rw [made, absentValue, unset]
  exact Synthesizer.text_ne_absent

theorem tokenValue?_happy (wellFormed : op.WellFormed) (declared : p ∈ op.pathParameters) :
    (base document config op).tokenValue? .none p.name =
      some (Percent.encode (rawValue document.schemas config p)) := by
  have token : p.name ∈ op.path.tokens :=
    (wellFormed.declared p.name).mpr (List.mem_map_of_mem declared)
  obtain ⟨q, also, named, each⟩ : ∃ q ∈ op.pathParameters, q.name = p.name ∧ ∀ change,
      (base document config op).tokenValue? change p.name =
        change.valueOf? ⟨q, sentValue document.schemas config q⟩ :=
    tokenValue?_base wellFormed token
  obtain ⟨member, inPath⟩ := List.mem_filter.mp declared
  obtain ⟨other, alsoInPath⟩ := List.mem_filter.mp also
  rw [decide_eq_true_eq] at inPath alsoInPath
  cases wellFormed.unique other member named (alsoInPath.trans inPath.symm)
  rw [each, Departure.valueOf?, sentValue, if_pos inPath]

/-- Two requests of an operation ask for one path exactly where the one segment in which they can
differ is the same. -/
theorem path_replacing_iff (wellFormed : op.WellFormed) (declared : p ∈ op.pathParameters) :
    ((base document config op).request (.replacing p (Percent.encode value)) credential).path =
        ((base document config op).request .none credential).path ↔
      rawValue document.schemas config p = value := by
  have token : p.name ∈ op.path.tokens :=
    (wellFormed.declared p.name).mpr (List.mem_map_of_mem declared)
  refine String.toList_inj.symm.trans ?_
  simp only [RequestBase.request, PathTemplate.toList_render]
  refine (PathTemplate.spelled_eq_iff wellFormed.once token fun other member apart => ?_).trans ?_
  · rw [tokenValue?_replacing wellFormed declared member, if_neg apart]
  · rw [tokenValue?_replacing wellFormed declared token, if_pos rfl,
      tokenValue?_happy wellFormed declared, Option.getD_some, Percent.encode_injective.eq_iff]
    exact eq_comm

end Planner

namespace SpecDocument

open Compilation Planner

/-- The request for what does not exist asks for the path of the happy request only where its target
stands for the very identifier that it asks for, which no made-up value does. -/
theorem compile_absent {root : Json} (read : ofJson root = .ok document) (config : Config) :
    List.Forall₂ (fun op plan => (∃ happy ∈ plan.scenarios, happy.kind = .happy) ∧
        ∀ happy ∈ plan.scenarios, happy.kind = .happy →
          ∀ s ∈ plan.scenarios, ∀ name, s.kind = .notFound name →
            ∃ p ∈ op.pathParameters, p.name = name ∧
              (s.request.path = happy.request.path ↔
                rawValue document.schemas config p = absentValue document.schemas config p) ∧
              (config.notFoundValue = none → p.exampleValue = none →
                config.pathParams.get? p.name = none → s.request.path ≠ happy.request.path))
      document.operations (document.compile config).operations := by
  refine forall₂_compile fun op member => ⟨?_, fun happy planned succeeds s also name is => ?_⟩
  · have arises : Arises document config op _ _ _ _ := .happy
    obtain ⟨happy, planned, kind, -⟩ := exists_mem_of_arises arises
    exact ⟨happy, planned, kind⟩
  obtain ⟨change, credential, arises, request⟩ := arises_of_mem planned
  rw [succeeds] at arises
  obtain ⟨rfl, rfl⟩ := departs_of_happy arises
  obtain ⟨change, credential, arises, other⟩ := arises_of_mem also
  rw [is] at arises
  obtain ⟨p, target, named, rfl, rfl⟩ := target_of_absent arises
  have declared := target_of_notFound target
  have same : s.request.path = happy.request.path ↔
      rawValue document.schemas config p = absentValue document.schemas config p := by
    rw [other, request]
    exact path_replacing_iff (ofJson_wellFormed read op member) declared
  refine ⟨p, declared, named, same, fun unset silent unnamed paths => ?_⟩
  have inherits := inherits read member (List.mem_filter.mp declared).1
  exact rawValue_ne_absent unset target inherits silent unnamed (same.mp paths)

theorem compile_absent_file : ∃ document, ofJson fileDocument = .ok document ∧
    ∃ plan, (document.compile {}).operations = [plan] ∧
      ∃ happy ∈ plan.scenarios, happy.kind = .happy ∧
        ∃ s ∈ plan.scenarios, s.kind = .notFound "name" ∧ s.request.path ≠ happy.request.path := by
  have third {α : Type} {a b c : α} {rest : List α} : c ∈ a :: b :: c :: rest := by simp
  obtain ⟨document, built, op, plan, ops, plans, q, declared, silent, s, planned, is⟩ :
      ∃ document, ofJson fileDocument = .ok document ∧ ∃ op plan,
        document.operations = [op] ∧ (document.compile {}).operations = [plan] ∧
        ∃ q, op.pathParameters = [q] ∧ q.exampleValue = none ∧
          ∃ s ∈ plan.scenarios, s.kind = .notFound "name" :=
    ⟨_, rfl, _, _, rfl, rfl, _, rfl, rfl, _, third, rfl⟩
  have each := compile_absent built {}
  rw [ops, plans] at each
  cases each with
  | cons first rest =>
    obtain ⟨⟨happy, also, succeeds⟩, departs⟩ := first
    obtain ⟨p, member, named, -, apart⟩ := departs happy also succeeds s planned "name" is
    rw [declared, List.mem_singleton] at member
    exact ⟨document, built, plan, plans, happy, also, succeeds, s, planned, is,
      apart rfl (member ▸ silent) (named ▸ rfl)⟩

end SpecDocument

end HttpPlan
