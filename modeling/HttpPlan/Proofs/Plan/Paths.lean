import HttpPlan.Proofs.Plan.Scenarios
import HttpPlan.Proofs.Spec.WellFormed
import HttpPlan.Proofs.Text.Percent

/-! The paths of requests. A token of the template becomes one percent-encoded segment, whatever
the text that it stands for, so requests have the shape of the template. -/
namespace HttpPlan

variable {document : SpecDocument} {arena : SchemaArena} {config : Config} {op : Operation}
  {kind : ScenarioKind} {change : Departure} {credential : Option String} {status : Nat}

namespace Planner

/-- The text that a path parameter stands for in the scenarios of a kind. -/
def rawIn (arena : SchemaArena) (config : Config) (kind : ScenarioKind) (p : Parameter) : String :=
  match kind with
  | .missingRequiredParameter name place =>
    if name = p.name ∧ place = .path then "" else rawValue arena config p
  | .notFound name =>
    if name = p.name then absentValue arena config p else rawValue arena config p
  | _ => rawValue arena config p

theorem encode_rawIn (wellFormed : op.WellFormed) {p : Parameter} (declared : p ∈ op.pathParameters)
    (arises : Arises document config op kind change credential status) :
    (change.valueOf? ⟨p, sentValue document.schemas config p⟩).getD "" =
      Percent.encode (rawIn document.schemas config kind p) := by
  obtain ⟨member, inPath⟩ := List.mem_filter.mp declared
  rw [decide_eq_true_eq] at inPath
  have sent : sentValue document.schemas config p =
      Percent.encode (rawValue document.schemas config p) := by
    rw [sentValue, if_pos inPath]
  cases arises with
  | missing documented other required =>
    rename_i q
    simp only [Departure.valueOf?, Departure.concerns, rawIn, inPath, sent, Bool.and_eq_true,
      decide_eq_true_eq]
    split
    · exact Percent.encode_empty.symm
    · rfl
  | notFound documented target =>
    rename_i q
    obtain ⟨other, alsoInPath⟩ := List.mem_filter.mp (target_of_notFound target)
    rw [decide_eq_true_eq] at alsoInPath
    simp only [Departure.valueOf?, Departure.concerns, rawIn, inPath, alsoInPath, sent,
      Bool.and_eq_true, decide_eq_true_eq, and_true]
    split
    · next same =>
      rw [wellFormed.unique other member same (alsoInPath.trans inPath.symm)]
      rfl
    · rfl
  | _ => exact sent

theorem tokenValue?_base (wellFormed : op.WellFormed) {token : String}
    (member : token ∈ op.path.tokens) : ∃ p ∈ op.pathParameters, p.name = token ∧
      ∀ change, (base document config op).tokenValue? change token =
        change.valueOf? ⟨p, sentValue document.schemas config p⟩ := by
  obtain ⟨p, declared, named⟩ := List.mem_map.mp ((wellFormed.declared token).mp member)
  have stands : ((base document config op).bound.find? fun b =>
      b.param.location = .path && b.param.name = token).isSome := by
    obtain ⟨held, inPath⟩ := List.mem_filter.mp declared
    have carried : p.isBound := by simp [Parameter.isBound, wellFormed.required p declared]
    exact List.find?_isSome.mpr ⟨_, mem_bound.mpr ⟨p, held, carried, rfl⟩, by simp_all⟩
  obtain ⟨b, found⟩ := Option.isSome_iff_exists.mp stands
  have meets := List.find?_some found
  simp only [Bool.and_eq_true, decide_eq_true_eq] at meets
  obtain ⟨q, also, -, rfl⟩ := mem_bound.mp (List.mem_of_find?_eq_some found)
  refine ⟨q, List.mem_filter.mpr ⟨also, by simpa using meets.1⟩, meets.2, fun change => ?_⟩
  simp [RequestBase.tokenValue?, found]

end Planner

/-- The path of a request is spelled like the template, with a segment for each token. -/
structure RequestPlan.Routed (request : RequestPlan) (op : Operation) (raw : Parameter → String)
    (segment : String → String) : Prop where
  spelled : request.path.toList = op.path.spelled segment
  encoded : ∀ token ∈ op.path.tokens, Percent.Encoded (segment token).toList
  decoded : ∀ token ∈ op.path.tokens, ∃ p ∈ op.pathParameters, p.name = token ∧
    Percent.decode (segment token).toList = (raw p).toUTF8.toList
  shape : ∀ c ∈ ['/', '?', '#', ' '],
    request.path.toList.count c = (op.path.spelled fun _ => "").count c

namespace SpecDocument

open Compilation Planner

theorem compile_paths {root : Json} (read : ofJson root = .ok document) (config : Config) :
    List.Forall₂ (fun op plan => ∀ s ∈ plan.scenarios, ∃ segment,
        s.request.Routed op (rawIn document.schemas config s.kind) segment)
      document.operations (document.compile config).operations := by
  refine forall₂_compile fun op member s planned => ?_
  have wellFormed := ofJson_wellFormed read op member
  obtain ⟨change, credential, arises, request⟩ := arises_of_mem planned
  let segment (token : String) := ((base document config op).tokenValue? change token).getD ""
  have spelled : s.request.path.toList = op.path.spelled segment := by
    rw [request]
    exact PathTemplate.toList_render
  have encoding : ∀ token ∈ op.path.tokens, ∃ p ∈ op.pathParameters, p.name = token ∧
      segment token = Percent.encode (rawIn document.schemas config s.kind p) := by
    intro token member
    obtain ⟨p, declared, named, value⟩ := tokenValue?_base wellFormed member
    exact ⟨p, declared, named, by rw [← encode_rawIn wellFormed declared arises, ← value]⟩
  have encoded : ∀ token ∈ op.path.tokens, Percent.Encoded (segment token).toList := by
    intro token member
    obtain ⟨p, -, -, same⟩ := encoding token member
    rw [same]
    exact Percent.encoded_encode _
  refine ⟨segment, spelled, encoded, fun token member => ?_, fun c special => ?_⟩
  · obtain ⟨p, declared, named, same⟩ := encoding token member
    exact ⟨p, declared, named, by rw [same, Percent.decode_encode]⟩
  · rw [spelled]
    exact PathTemplate.count_spelled fun token member =>
      (encoded token member).not_mem_of_divides special

/-- A file by its name. -/
def fileDocument : Json := .object [("paths", .object [("/files/\x7bname\x7d", .object [("get",
  .object [
    ("parameters", .array [.object [("name", .string "name"), ("in", .string "path")]]),
    ("responses", .object [("400", .object []), ("404", .object [])])])])])]

/-- A name with characters that divide URLs. -/
def dividedName : Config := { pathParams := .ofList [("name", "a/b #ü")] }

theorem compile_paths_divided : ∃ document, ofJson fileDocument = .ok document ∧
    document.operations.map (·.path.tokens) = [["name"]] ∧
    (document.compile dividedName).scenarios.map (·.request.path) =
      ["/files/a%2Fb%20%23%C3%BC", "/files/", "/files/apiplan-nonexistent-0"] ∧
    List.Forall₂ (fun op plan => ∀ s ∈ plan.scenarios, ∃ segment,
        s.request.Routed op (rawIn document.schemas dividedName s.kind) segment)
      document.operations (document.compile dividedName).operations := by
  have read : ofJson fileDocument = .ok _ := rfl
  refine ⟨_, read, rfl, ?_, compile_paths read dividedName⟩
  decide +kernel

end SpecDocument

end HttpPlan
