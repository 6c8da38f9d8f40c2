import HttpPlan.Proofs.Plan.Paths

/-! Each token of a path stands for one declared parameter, and each declared path parameter has
its token. So nothing but the parameter itself, left out or empty, leaves a segment empty. -/
namespace HttpPlan

variable {document : SpecDocument} {arena : SchemaArena} {config : Config} {op : Operation}
  {p : Parameter} {kind : ScenarioKind}

namespace Operation

/-- The parameters that a token of the path can take its value from. -/
def boundTo (op : Operation) (token : String) : List Parameter :=
  op.parameters.filter fun p => p.isBound && p.location = .path && p.name = token

theorem WellFormed.distinct_names (wellFormed : op.WellFormed) :
    (op.pathParameters.map Parameter.name).Nodup := by
  refine List.Nodup.map_on (fun p declared q also same => ?_) ?_
  · obtain ⟨member, inPath⟩ := List.mem_filter.mp declared
    obtain ⟨other, alsoInPath⟩ := List.mem_filter.mp also
    simp only [decide_eq_true_eq] at inPath alsoInPath
    exact wellFormed.unique member other same (inPath.trans alsoInPath.symm)
  · exact (List.Nodup.of_map _ wellFormed.distinct).filter _

theorem WellFormed.boundTo (wellFormed : op.WellFormed) (declared : p ∈ op.pathParameters) :
    op.boundTo p.name = [p] := by
  have once : (op.boundTo p.name).Nodup := (List.Nodup.of_map _ wellFormed.distinct).filter _
  refine List.perm_singleton.mp ((List.perm_ext_iff_of_nodup once (List.nodup_singleton p)).mpr ?_)
  intro q
  obtain ⟨member, inPath⟩ := List.mem_filter.mp declared
  rw [decide_eq_true_eq] at inPath
  simp only [Operation.boundTo, List.mem_filter, Bool.and_eq_true, decide_eq_true_eq,
    List.mem_singleton]
  constructor
  · rintro ⟨other, ⟨-, alsoInPath⟩, same⟩
    exact wellFormed.unique other member same (alsoInPath.trans inPath.symm)
  · rintro rfl
    exact ⟨member, ⟨by simp [Parameter.isBound, wellFormed.required q declared], inPath⟩, rfl⟩

end Operation

namespace Planner

/-- The text that a path parameter stands for where it is carried: an identifier of nothing in the
scenario that looks for nothing under it, and its own text elsewhere. -/
def textIn (arena : SchemaArena) (config : Config) (kind : ScenarioKind) (p : Parameter) : String :=
  if kind = .notFound p.name then absentValue arena config p else rawValue arena config p

theorem rawIn_eq : rawIn arena config kind p =
    if kind = .missingRequiredParameter p.name .path then "" else textIn arena config kind p := by
  cases kind <;> simp [rawIn, textIn]

end Planner

theorem Percent.encode_eq_empty {s : String} : encode s = "" ↔ s = "" :=
  ⟨fun empty => encode_injective (empty.trans encode_empty.symm), fun empty => empty ▸ encode_empty⟩

/-- The path of a request of a kind takes each of its segments from the one parameter that its
token names. -/
structure RequestPlan.Matched (request : RequestPlan) (op : Operation) (kind : ScenarioKind)
    (text : Parameter → String) (segment : String → String) : Prop where
  spelled : request.path.toList = op.path.spelled segment
  rendered : ∀ token ∈ op.path.tokens, ∃ p, op.boundTo token = [p] ∧
    segment token = (if kind = .missingRequiredParameter token .path then ""
      else Percent.encode (text p)) ∧
    (segment token = "" ↔ kind = .missingRequiredParameter token .path ∨ text p = "")

namespace SpecDocument

open Compilation Planner

/-- A template passes its check just where its tokens are distinct and are the declared names. The
templates of operations that were read do, with the names of their path parameters, which are
distinct and required, and every request takes the segments of its path from these, one each. -/
theorem compile_tokens {root : Json} (read : ofJson root = .ok document) (config : Config) :
    (∀ (t : PathTemplate) (declared : List String), t.checkParameters declared = .ok () ↔
      t.tokens.Nodup ∧ ∀ name, name ∈ t.tokens ↔ name ∈ declared) ∧
    List.Forall₂ (fun op plan =>
        op.path.checkParameters (op.pathParameters.map Parameter.name) = .ok () ∧
        (op.pathParameters.map Parameter.name).Nodup ∧
        (∀ p ∈ op.pathParameters, p.required) ∧
        ∀ s ∈ plan.scenarios, ∃ segment,
          s.request.Matched op s.kind (textIn document.schemas config s.kind) segment)
      document.operations (document.compile config).operations := by
  refine ⟨fun t declared => PathTemplate.checkParameters_ok, ?_⟩
  refine forall₂_compile fun op member => ?_
  have wellFormed := ofJson_wellFormed read op member
  refine ⟨PathTemplate.checkParameters_ok.mpr ⟨wellFormed.once, wellFormed.declared⟩,
    wellFormed.distinct_names, wellFormed.required, fun s planned => ?_⟩
  obtain ⟨change, credential, arises, request⟩ := arises_of_mem planned
  let segment (token : String) := ((base document config op).tokenValue? change token).getD ""
  refine ⟨segment, by rw [request]; exact PathTemplate.toList_render, fun token inside => ?_⟩
  obtain ⟨p, declared, rfl, value⟩ := tokenValue?_base wellFormed inside
  have rendered : segment p.name = if s.kind = .missingRequiredParameter p.name .path then ""
      else Percent.encode (textIn document.schemas config s.kind p) := by
    show ((base document config op).tokenValue? change p.name).getD "" = _
    rw [value, encode_rawIn wellFormed declared arises, rawIn_eq, apply_ite Percent.encode,
      Percent.encode_empty]
  refine ⟨p, wellFormed.boundTo declared, rendered, ?_⟩
  rw [rendered]
  by_cases missing : s.kind = .missingRequiredParameter p.name .path
  · simp [missing]
  · simp [missing, Percent.encode_eq_empty]

/-- The items of a shop. The shop is a shared parameter of the whole path, and the one operation
declares the item anew. -/
def itemDocument : Json := .object [
  ("components", .object [("parameters", .object [("Shop", .object [
    ("name", .string "shop"), ("in", .string "path"), ("example", .string "corner")])])]),
  ("paths", .object [("/shops/\x7bshop\x7d/items/\x7bitem\x7d", .object [
    ("parameters", .array [
      .object [("name", .string "item"), ("in", .string "path"), ("example", .string "none")],
      .object [("$ref", .string "#/components/parameters/Shop")]]),
    ("get", .object [
      ("parameters", .array [.object [("name", .string "item"), ("in", .string "path"),
        ("example", .string "a b")]]),
      ("responses", .object [("400", .object []), ("404", .object [])])])])])]

/-- A shop without a name. -/
def unnamedShop : Config := { pathParams := .ofList [("shop", "")] }

theorem compile_tokens_item : ∃ document, ofJson itemDocument = .ok document ∧
    document.operations.map (·.path.tokens) = [["shop", "item"]] ∧
    (document.compile unnamedShop).scenarios.map (·.request.path) =
      ["/shops//items/a%20b", "/shops//items/", "/shops//items/a%20b",
        "/shops//items/apiplan-nonexistent-0"] ∧
    List.Forall₂ (fun op plan =>
        op.path.checkParameters (op.pathParameters.map Parameter.name) = .ok () ∧
        (op.pathParameters.map Parameter.name).Nodup ∧
        (∀ p ∈ op.pathParameters, p.required) ∧
        ∀ s ∈ plan.scenarios, ∃ segment,
          s.request.Matched op s.kind (textIn document.schemas unnamedShop s.kind) segment)
      document.operations (document.compile unnamedShop).operations := by
  have read : ofJson itemDocument = .ok _ := rfl
  refine ⟨_, read, rfl, ?_, (compile_tokens read unnamedShop).2⟩
  decide +kernel

end SpecDocument

end HttpPlan
