import HttpPlan.Proofs.Json.Reordering
import HttpPlan.Proofs.Spec.Operation

/-! Reading one operation in a reordered document. As long as no reference names the paths as a
whole, every step of it is the same step as in the document before. -/
namespace HttpPlan

variable {root root' whole whole' value raw param param' item item' : Json} {location pointer : String}

namespace SchemaNode

theorem ofKeywords_resembles (resembles : Json.Resembles value param) :
    ofKeywords value = ofKeywords param := by
  have same (key : String) (other : key ≠ "paths") := resembles.field? other
  simp only [ofKeywords, enumerationOf, exampleOf, inferredKind, Json.stringField?,
    same "type" (by decide), same "enum" (by decide), same "properties" (by decide),
    same "items" (by decide), same "minimum" (by decide), same "exclusiveMinimum" (by decide),
    same "maximum" (by decide), same "exclusiveMaximum" (by decide), same "nullable" (by decide),
    same "required" (by decide), same "format" (by decide), same "pattern" (by decide),
    same "description" (by decide), same "example" (by decide), same "examples" (by decide),
    same "minLength" (by decide), same "maxLength" (by decide)]

end SchemaNode

theorem Json.blueprint_resembles (resembles : Json.Resembles value param) :
    value.blueprint location = param.blueprint location := by
  have same (key : String) (other : key ≠ "paths") := resembles.field? other
  have keywords := SchemaNode.ofKeywords_resembles resembles
  cases resembles with
  | same => rfl
  | object =>
    simp only [Json.blueprint, Step.ofKeywords, keywords, same "not" (by decide),
      same "properties" (by decide), same "items" (by decide), same "allOf" (by decide),
      same "oneOf" (by decide), same "anyOf" (by decide)]

namespace Resolver

variable {r : Resolver} {walk walk' : Walk} {fuel : Nat}

theorem foldlM_congr {σ ι : Type} {f g : σ → ι → Resolve σ} {items : List ι}
    (each : ∀ item ∈ items, ∀ a, f a item = g a item) (start : σ) :
    items.foldlM f start = items.foldlM g start := by
  induction items generalizing start with
  | nil => rfl
  | cons first rest ih =>
    rw [List.foldlM_cons, List.foldlM_cons, each first (by simp) start]
    congr 1
    funext next
    exact ih (fun item member => each item (by simp [member])) next

theorem buildNode_congr (resembles : Json.Resembles whole whole')
    (parts : ∀ part location, part.Inside whole → walk' part location = walk part location) :
    buildNode walk' whole' location = buildNode walk whole location := by
  unfold buildNode
  rw [← Json.blueprint_resembles resembles]
  refine foldlM_congr (fun step member node => ?_) _
  cases step with
  | child role child =>
    have of : (Step.child role child).Of whole := Json.blueprint_of member
    cases child with
    | fresh => rfl
    | walked value location =>
      cases of with
      | walked _ _ inside => simp only [take, place, parts value location inside]
  | _ => rfl

/-- The walks of one document are the walks of the other. -/
theorem walks_reordered (reordered : Json.Reordered root root') (unnamed : root.PathsUnnamed)
    (fuel : Nat) :
    (∀ value location, value.Within root →
      schema root' fuel value location = schema root fuel value location) ∧
    (∀ pointer ∈ root.references, reference root' fuel pointer = reference root fuel pointer) := by
  induction fuel with
  | zero => exact ⟨fun _ _ _ => rfl, fun _ _ => rfl⟩
  | succ fuel ih =>
    obtain ⟨schemas, references⟩ := ih
    have build (whole whole' : Json) (location : String) (within : whole.Within root)
        (resembles : Json.Resembles whole whole') :
        buildNode (schema root' fuel) whole' location = buildNode (schema root fuel) whole location :=
      buildNode_congr resembles fun part location inside =>
        schemas part location (within.part inside)
    constructor
    · intro value location within
      unfold schema
      cases follows : value.reference? with
      | some pointer =>
        exact references pointer (within.references (Json.mem_references_of_reference? follows))
      | none => simp only [build value value location within (.same value)]
    · intro pointer inside
      funext r
      cases absent : r.memo.get? pointer with
      | some id => rw [reference_met absent, reference_met absent]
      | none =>
        have both := reordered.lookup (unnamed pointer inside)
        unfold Json.BothRead at both
        split at both
        · next target target' found found' =>
          have within := Json.lookup_within found
          have same := both.reference?
          cases follows : target.reference? with
          | none =>
            rw [reference_definition absent found follows,
              reference_definition absent found' (same ▸ follows),
              build target target' pointer within both]
          | some next =>
            have member := within.references (Json.mem_references_of_reference? follows)
            by_cases met : pointer ∈ r.aliases
            · rw [reference_circular absent found follows met,
                reference_circular absent found' (same ▸ follows) met]
            · rw [reference_alias absent found follows met,
                reference_alias absent found' (same ▸ follows) met, references next member]
        · next found found' =>
          cases both
          rw [reference_missing absent found, reference_missing absent found']
        · exact both.elim

theorem budget_reordered (reordered : Json.Reordered root root') : budget root' = budget root := by
  simp only [budget, reordered.depth, reordered.references.length_eq]

theorem schemaId_reordered (reordered : Json.Reordered root root') (unnamed : root.PathsUnnamed)
    (within : value.Within root) : schemaId root' value location = schemaId root value location := by
  rw [schemaId, schemaId, budget_reordered reordered,
    (walks_reordered reordered unnamed _).1 value location within]

theorem inlineNode_reordered (reordered : Json.Reordered root root') (unnamed : root.PathsUnnamed)
    (within : value.Within root) (resembles : Json.Resembles value param) :
    inlineNode root' param location = inlineNode root value location := by
  rw [inlineNode, inlineNode, budget_reordered reordered]
  exact buildNode_congr resembles fun part location inside =>
    (walks_reordered reordered unnamed _).1 part location (within.part inside)

end Resolver

namespace Json

/-- Following references comes to the same in both documents. -/
theorem follow_reordered (reordered : Reordered root root') (unnamed : root.PathsUnnamed)
    (fuel : Nat) (seen : List String) (resembles : Resembles value param)
    (within : value.Within root) :
    BothRead Resembles (root.follow fuel seen value) (root'.follow fuel seen param) := by
  induction fuel generalizing seen value param with
  | zero =>
    unfold follow
    rw [← resembles.reference?]
    split
    · exact resembles
    · split <;> rfl
  | succ fuel ih =>
    unfold follow
    rw [← resembles.reference?]
    split
    · exact resembles
    · next pointer follows =>
      split
      · rfl
      · have inside := within.references (mem_references_of_reference? follows)
        have both := reordered.lookup (unnamed pointer inside)
        unfold BothRead at both
        split at both
        · next target target' found found' =>
          rw [found, found']
          exact ih (pointer :: seen) both (lookup_within found)
        · next found found' =>
          cases both
          rw [found, found']
          rfl
        · exact both.elim

theorem deref_reordered (reordered : Reordered root root') (unnamed : root.PathsUnnamed)
    (rearranged : Rearranged raw item) (within : raw.Within root) :
    BothRead Resembles (root.deref raw) (root'.deref item) := by
  unfold deref
  rw [← reordered.references.length_eq, ← rearranged.references.length_eq]
  exact follow_reordered reordered unnamed _ _ rearranged.resembles within

end Json

namespace Building

open Resolver

variable {label name path : String} {inputs : Inputs}

theorem parameter_reordered (reordered : Json.Reordered root root') (unnamed : root.PathsUnnamed)
    (within : param.Within root) (resembles : Json.Resembles param param')
    (place : ParameterLocation) :
    parameter root' label name place param' = parameter root label name place param := by
  have same (key : String) (other : key ≠ "paths") := resembles.field? other
  have placed (location : String) :
      parameterSchema root' param' location = parameterSchema root param location := by
    unfold parameterSchema
    rw [← same "schema" (by decide), ← same "type" (by decide)]
    split
    · next schema found =>
      exact schemaId_reordered reordered unnamed (within.field found)
    · rw [inlineNode_reordered reordered unnamed within resembles]
  simp only [parameter, placed, parameterExample, Json.stringField?, same "required" (by decide),
    same "description" (by decide), same "example" (by decide), same "examples" (by decide)]

theorem addParameter_reordered (reordered : Json.Reordered root root') (unnamed : root.PathsUnnamed)
    (within : raw.Within root) : addParameter root' label inputs raw = addParameter root label inputs raw := by
  have both := Json.deref_reordered reordered unnamed (.same raw) within
  unfold Json.BothRead at both
  unfold addParameter
  split at both
  · next param param' found found' =>
    have inside := Json.deref_within within found
    rw [found, found']
    simp only [← both.stringField? (show "name" ≠ "paths" by decide),
      ← both.stringField? (show "in" ≠ "paths" by decide),
      ← both.field? (show "schema" ≠ "paths" by decide),
      parameter_reordered reordered unnamed inside both]
    split
    · rfl
    · split
      · split
        · rfl
        · next schema body =>
          rw [schemaId_reordered reordered unnamed (inside.field body)]
      · rfl
  · next found found' =>
    cases both
    rw [found, found']
  · exact both.elim

theorem requestBody_reordered {operation : Json} {body : Option SchemaId}
    (reordered : Json.Reordered root root') (unnamed : root.PathsUnnamed)
    (within : operation.Within root) :
    requestBody root' label operation body = requestBody root label operation body := by
  unfold requestBody
  split
  · rfl
  · next raw found =>
    have inside := within.field found
    have both := Json.deref_reordered reordered unnamed (.same raw) inside
    unfold Json.BothRead at both
    split at both
    · next declared declared' target target' =>
      rw [target, target']
      simp only [← both.field? (show "content" ≠ "paths" by decide)]
      split
      · rfl
      · next schema media =>
        obtain ⟨content, field, media⟩ := Option.bind_eq_some_iff.mp media
        rw [schemaId_reordered reordered unnamed (mediaSchema?_within
          ((Json.deref_within inside target).field field) media)]
    · next target target' =>
      cases both
      rw [target, target']
    · exact both.elim

theorem addResponse_reordered {done : Responses × List Diagnostic} {entry : String × Json}
    (reordered : Json.Reordered root root') (unnamed : root.PathsUnnamed)
    (within : entry.2.Within root) :
    addResponse root' label done entry = addResponse root label done entry := by
  unfold addResponse
  dsimp only
  split
  · rfl
  · have both := Json.deref_reordered reordered unnamed (.same entry.2) within
    unfold Json.BothRead at both
    split at both
    · next response response' found found' =>
      have inside := Json.deref_within within found
      rw [found, found']
      simp only [responseSchema?, ← both.field? (show "content" ≠ "paths" by decide),
        ← both.field? (show "schema" ≠ "paths" by decide),
        ← both.stringField? (show "description" ≠ "paths" by decide)]
      split
      · next schema documented =>
        rw [schemaId_reordered reordered unnamed (responseSchema?_within inside documented)]
      · rfl
    · next found found' =>
      cases both
      rw [found, found']
    · exact both.elim

theorem source_reordered (reordered : Json.Reordered root root') :
    Source.ofJson root' = { Source.ofJson root with root := root' } := by
  have same (key : String) (other : key ≠ "paths") := reordered.resembles.field? other
  simp only [Source.ofJson, SecurityScheme.declared, same "components" (by decide),
    same "securityDefinitions" (by decide), same "security" (by decide)]

/-- Reading an operation is the same step in both documents. -/
theorem operation_reordered {operation : Json} (reordered : Json.Reordered root root')
    (unnamed : root.PathsUnnamed) (item_within : item.Within root)
    (resembles : Json.Resembles item item') (within : operation.Within root)
    (method path : String) :
    Building.operation (Source.ofJson root') method path item' operation =
      Building.operation (Source.ofJson root) method path item operation := by
  rw [source_reordered reordered]
  unfold Building.operation
  have lists : parameterList item' = parameterList item := by
    rw [parameterList, parameterList, resembles.field? (by decide)]
  have entries (raw : Json) (member : raw ∈ parameterList item ++ parameterList operation)
      (inputs : Inputs) :
      addParameter root' (Building.label method path) inputs raw =
        addParameter root (Building.label method path) inputs raw :=
    addParameter_reordered reordered unnamed (mem_parameters item_within within member)
  have responses (entry : String × Json)
      (member : entry ∈ (operation.field? "responses" >>= Json.fields?).getD [])
      (done : Responses × List Diagnostic) :
      addResponse root' (Building.label method path) done entry =
        addResponse root (Building.label method path) done entry :=
    addResponse_reordered reordered unnamed (mem_responses within member)
  split
  · rfl
  · simp only [Source.ofJson, lists, foldlM_congr entries, foldlM_congr responses,
      requestBody_reordered reordered unnamed within, undeclaredNotes]

end Building

end HttpPlan
