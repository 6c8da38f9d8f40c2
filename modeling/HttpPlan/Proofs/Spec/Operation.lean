import HttpPlan.Proofs.Resolution.Walk
import HttpPlan.Spec.Building

/-! Reading one operation. What it holds has a place in the arena, and a failure anywhere in it is
one that a rollback undoes. -/
namespace HttpPlan

namespace Operation

/-- Every schema that an operation refers to. -/
def schemas (op : Operation) : List SchemaId :=
  op.parameters.map Parameter.schema ++ op.requestBody.toList ++
    op.responses.filterMap fun entry => entry.2.schema

end Operation

theorem Responses.schemas_insert {code : Nat} {response : Response} {responses : Responses}
    {id : SchemaId}
    (member : id ∈ (responses.insert code response).filterMap fun entry => entry.2.schema) :
    response.schema = some id ∨ id ∈ responses.filterMap fun entry => entry.2.schema := by
  obtain ⟨⟨key, found⟩, inside, holds⟩ := List.mem_filterMap.mp member
  induction responses with
  | nil =>
    rw [Responses.insert, List.mem_singleton] at inside
    cases inside
    exact Or.inl holds
  | cons first rest ih =>
    obtain ⟨other, old⟩ := first
    unfold Responses.insert at inside member
    split at inside
    · rcases List.mem_cons.mp inside with same | inside
      · cases same; exact Or.inl holds
      · exact Or.inr (List.mem_filterMap.mpr ⟨_, inside, holds⟩)
    · split at inside
      · rcases List.mem_cons.mp inside with same | inside
        · cases same; exact Or.inl holds
        · exact Or.inr (List.mem_filterMap.mpr ⟨_, List.mem_cons_of_mem _ inside, holds⟩)
      · rcases List.mem_cons.mp inside with same | inside
        · cases same; exact Or.inr (List.mem_filterMap.mpr ⟨_, List.mem_cons_self, holds⟩)
        · refine (ih (List.mem_filterMap.mpr ⟨_, inside, holds⟩) inside).imp_right fun old => ?_
          obtain ⟨entry, earlier, same⟩ := List.mem_filterMap.mp old
          exact List.mem_filterMap.mpr ⟨entry, List.mem_cons_of_mem _ earlier, same⟩

namespace Building

open Resolver

variable {root item raw param owner : Json} {r s : Resolver} {label name path : String}
  {location : String} {inputs : Inputs} {source : Source}

/-- A step after which all the given places are in the arena. -/
def Holding {α : Type} (root : Json) (r : Resolver) (held : α → List SchemaId) (a : α)
    (r' : Resolver) : Prop :=
  Advances root r r' ∧ ∀ id ∈ held a, id < r'.arena.size

def Inputs.schemas (inputs : Inputs) : List SchemaId :=
  inputs.parameters.values.map Parameter.schema ++ inputs.body.toList

theorem yields_parameterSchema (within : param.Within root) (valid : r.Valid root) :
    Yields (parameterSchema root param location) r (Placed root r) (Stranded root r) := by
  unfold parameterSchema
  split
  · next schema found =>
    exact yields_schemaId (within.field found) valid
  · split
    · refine (yields_inlineNode within valid).bind fun node s ⟨advances, below⟩ => ?_
      exact Placed.push advances below
    · exact Placed.push (.refl valid)
        (SchemaNode.below_of_childless (SchemaNode.children_ofKind _) _)

theorem yields_parameter {place : ParameterLocation} (within : param.Within root)
    (valid : r.Valid root) :
    Yields (parameter root label name place param) r (Holding root r fun p => [p.schema])
      (Stranded root r) := by
  refine (yields_parameterSchema within valid).bind fun id s ⟨advances, bound⟩ => ?_
  exact ⟨advances, fun other member => List.mem_singleton.mp member ▸ bound⟩

theorem Holding.later {α : Type} {held : α → List SchemaId} {a : α} {t : Resolver}
    (holding : Holding root r held a s) (onward : Advances root s t) : Holding root r held a t :=
  ⟨holding.1.trans onward, fun id member =>
    Nat.lt_of_lt_of_le (holding.2 id member) onward.toGrows.size_le⟩

theorem schemas_insert {key : String × ParameterLocation} {p : Parameter} {id : SchemaId}
    (member : id ∈ Inputs.schemas { inputs with parameters := inputs.parameters.insert key p }) :
    id = p.schema ∨ id ∈ inputs.schemas := by
  rcases List.mem_append.mp member with member | member
  · obtain ⟨q, inside, rfl⟩ := List.mem_map.mp member
    rcases OrderedMap.values_insert inside with old | rfl
    · exact Or.inr (List.mem_append_left _ (List.mem_map_of_mem old))
    · exact Or.inl rfl
  · exact Or.inr (List.mem_append_right _ member)

theorem yields_addParameter (within : raw.Within root)
    (holding : Holding root r Inputs.schemas inputs s) :
    Yields (addParameter root label inputs raw) s (Holding root r Inputs.schemas)
      (Stranded root r) := by
  have valid := holding.1.valid
  unfold addParameter
  split
  · next fault => exact holding.1.stops (Json.deref_error within fault)
  · next param found =>
    have inside := Json.deref_within within found
    split
    · exact holding
    · dsimp only
      split
      · split
        · exact holding
        · next schema body =>
          apply (holding.1.yields (yields_schemaId (inside.field body) valid)).bind
          rintro id t ⟨onward, bound⟩
          refine ⟨holding.1.trans onward, fun other member => ?_⟩
          rcases List.mem_append.mp member with member | member
          · exact (holding.later onward).2 other (List.mem_append_left _ member)
          · exact Option.some.inj (Option.mem_toList.mp member) ▸ bound
      · split
        · exact holding
        · apply (holding.1.yields (yields_parameter inside valid)).bind
          rintro p t ⟨onward, bound⟩
          refine ⟨holding.1.trans onward, fun other member => ?_⟩
          rcases schemas_insert member with rfl | old
          · exact bound _ (List.mem_singleton.mpr rfl)
          · exact (holding.later onward).2 other old

theorem mem_parameterList (within : owner.Within root) (member : raw ∈ parameterList owner) :
    raw.Within root := by
  unfold parameterList at member
  cases found : owner.field? "parameters" with
  | none => simp [found] at member
  | some list =>
    cases items : list.items? with
    | none => simp [found, items] at member
    | some items' =>
      simp only [found, Option.bind_eq_bind, Option.bind_some, items, Option.getD_some] at member
      exact (within.field found).part (Json.items?_inside items member)

/-- The parameters of an operation, its own and those of its path item. -/
theorem mem_parameters {item operation : Json} (item_within : item.Within root)
    (within : operation.Within root)
    (member : raw ∈ parameterList item ++ parameterList operation) : raw.Within root :=
  (List.mem_append.mp member).elim (mem_parameterList item_within) (mem_parameterList within)

theorem mediaSchema?_within {content schema : Json} (within : content.Within root)
    (found : mediaSchema? content = some schema) : schema.Within root := by
  unfold mediaSchema? at found
  obtain ⟨fields, object, found⟩ := Option.bind_eq_some_iff.mp found
  obtain ⟨media, chosen, field⟩ := Option.bind_eq_some_iff.mp found
  refine Json.Within.field ?_ field
  suffices member : ∃ key, (key, media) ∈ fields by
    obtain ⟨key, member⟩ := member
    exact within.part (Json.fields?_inside object member)
  cases exact : fields.lookup "application/json" with
  | some v =>
    simp only [exact, Option.orElse_eq_orElse, Option.orElse_eq_or, Option.some_or] at chosen
    cases chosen
    exact ⟨_, Json.mem_of_lookup exact⟩
  | none =>
    cases suffixed : fields.find? (fun f => f.1.endsWith "+json") with
    | some entry =>
      simp only [exact, suffixed, Option.orElse_eq_orElse, Option.orElse_eq_or, Option.none_or,
        Option.map_some, Option.some_or] at chosen
      cases chosen
      exact ⟨entry.1, List.mem_of_find?_eq_some suffixed⟩
    | none =>
      simp only [exact, suffixed, Option.orElse_eq_orElse, Option.orElse_eq_or, Option.none_or,
        Option.map_none, Option.map_eq_some_iff] at chosen
      obtain ⟨entry, first, rfl⟩ := chosen
      exact ⟨entry.1, List.mem_of_mem_head? first⟩

theorem yields_requestBody {operation : Json} {body : Option SchemaId}
    (within : operation.Within root) (valid : r.Valid root)
    (held : ∀ id ∈ body.toList, id < r.arena.size) :
    Yields (requestBody root label operation body) r (Holding root r Option.toList)
      (Stranded root r) := by
  unfold requestBody
  split
  · exact ⟨.refl valid, held⟩
  · next raw found =>
    have inside := within.field found
    split
    · next fault => exact (Advances.refl valid).stops (Json.deref_error inside fault)
    · next declared target =>
      split
      · exact ⟨.refl valid, held⟩
      · next schema media =>
        obtain ⟨content, field, media⟩ := Option.bind_eq_some_iff.mp media
        have body := mediaSchema?_within ((Json.deref_within inside target).field field) media
        refine (yields_schemaId body valid).bind fun id s ⟨advances, bound⟩ => ?_
        exact ⟨advances, fun other member => Option.some.inj (Option.mem_toList.mp member) ▸ bound⟩

def responseSchemas (done : Responses × List Diagnostic) : List SchemaId :=
  done.1.filterMap fun entry => entry.2.schema

theorem responseSchema?_within {response schema : Json} (within : response.Within root)
    (found : responseSchema? response = some schema) : schema.Within root := by
  unfold responseSchema? at found
  cases media : response.field? "content" >>= mediaSchema? with
  | some v =>
    simp only [media, Option.orElse_eq_orElse, Option.orElse_eq_or, Option.some_or] at found
    cases found
    obtain ⟨content, field, media⟩ := Option.bind_eq_some_iff.mp media
    exact mediaSchema?_within (within.field field) media
  | none =>
    simp only [media, Option.orElse_eq_orElse, Option.orElse_eq_or, Option.none_or] at found
    exact within.field found

theorem yields_addResponse {done : Responses × List Diagnostic} {key : String}
    (within : raw.Within root) (holding : Holding root r responseSchemas done s) :
    Yields (addResponse root label done (key, raw)) s (Holding root r responseSchemas)
      (Stranded root r) := by
  unfold addResponse
  dsimp only
  split
  · split
    · exact holding
    · exact holding
  · split
    · next fault => exact holding.1.stops (Json.deref_error within fault)
    · next response found =>
      have inside := Json.deref_within within found
      split
      · next schema documented =>
        have schema_within := responseSchema?_within inside documented
        refine yields_bind.mpr
          ((holding.1.yields (yields_schemaId schema_within holding.1.valid)).bind ?_)
        rintro id t ⟨onward, bound⟩
        refine ⟨holding.1.trans onward, fun other member => ?_⟩
        rcases Responses.schemas_insert member with same | old
        · exact Option.some.inj same ▸ bound
        · exact (holding.later onward).2 other old
      · refine ⟨holding.1, fun other member => ?_⟩
        rcases Responses.schemas_insert member with same | old
        · cases same
        · exact holding.2 other old

theorem parse_error {error : BuildError} (fault : PathTemplate.parse path = .error error) :
    ¬ error.CutOff := by
  unfold PathTemplate.parse at fault
  split at fault
  · cases fault
  · cases fault; exact fun cut => cut

theorem checkParameters_error {template : PathTemplate} {declared : List String}
    {error : BuildError} (fault : template.checkParameters declared = .error error) :
    ¬ error.CutOff := by
  unfold PathTemplate.checkParameters at fault
  split at fault
  · cases fault; exact fun cut => cut
  · cases fault

theorem mem_responses {operation : Json} {entry : String × Json} (within : operation.Within root)
    (member : entry ∈ (operation.field? "responses" >>= Json.fields?).getD []) :
    entry.2.Within root := by
  cases found : operation.field? "responses" with
  | none => simp [found] at member
  | some responses =>
    cases object : responses.fields? with
    | none => simp [found, object] at member
    | some fields =>
      simp only [found, Option.bind_eq_bind, Option.bind_some, object, Option.getD_some] at member
      exact (within.field found).part (Json.fields?_inside object member)

/-- Reading an operation either keeps every place that the operation holds, with all that it began
finished, or fails for a reason in the document. -/
theorem yields_operation {operation : Json} (method path : String) (item_within : item.Within source.root)
    (within : operation.Within source.root) (valid : r.Valid source.root) :
    Yields (Building.operation source method path item operation) r
      (Holding source.root r fun built => built.1.schemas) (Stranded source.root r) := by
  unfold Building.operation
  split
  · next fault => exact (Advances.refl valid).stops (parse_error fault)
  · next template _ =>
    dsimp only
    refine (yields_foldlM (fun raw member _ _ holding =>
      yields_addParameter (mem_parameters item_within within member) holding)
      ⟨.refl valid, fun id member => by cases member⟩).bind fun inputs s held => ?_
    split
    · next fault => exact held.1.stops (checkParameters_error fault)
    · have body : ∀ id ∈ inputs.body.toList, id < s.arena.size := fun id member =>
        held.2 id (List.mem_append_right _ member)
      refine (held.1.yields (yields_requestBody within held.1.valid body)).bind
        fun requestBody t kept => ?_
      have start : Holding source.root t responseSchemas ([], []) t :=
        ⟨.refl kept.1.valid, fun id member => by cases member⟩
      refine ((held.1.trans kept.1).yields (yields_foldlM (fun entry member _ _ holding =>
        yields_addResponse (mem_responses within member) holding) start)).bind ?_
      rintro ⟨responses, notes⟩ u documented
      refine ⟨(held.1.trans kept.1).trans documented.1, fun id member => ?_⟩
      simp only [Operation.schemas, List.mem_append] at member
      rcases member with (member | member) | member
      · exact ((held.later kept.1).later documented.1).2 id (List.mem_append_left _ member)
      · exact (kept.later documented.1).2 id member
      · exact documented.2 id member

end Building

end HttpPlan
