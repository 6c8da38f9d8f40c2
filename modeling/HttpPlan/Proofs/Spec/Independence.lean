import HttpPlan.Proofs.Resolution.Independence
import HttpPlan.Proofs.Spec.Building

/-! Reading one operation does not depend on what was read before it, unless it fails by meeting a
definition that is being walked at that moment. -/
namespace HttpPlan

namespace Building

open Resolver

variable {root item raw param : Json} {k r s r' s' : Resolver} {label name path : String}
  {location : String} {source : Source} {p : Progress}

/-- The parameters of two readings of one operation, but for their schemas and examples. -/
def Inputs.Matches (a b : Inputs) : Prop :=
  a.parameters.entries.map (Prod.map id fun p => (p.name, p.location)) =
    b.parameters.entries.map (Prod.map id fun p => (p.name, p.location))

/-- Two readings that have moved on together to inputs that match. -/
def Reading (root : Json) (k r s : Resolver) (a : Inputs) (r' : Resolver) (b : Inputs)
    (s' : Resolver) : Prop :=
  Abreast root k r s r' s' ∧ a.Matches b

theorem Inputs.Matches.declared {a b : Inputs} (same : a.Matches b) :
    (a.parameters.values.filter (·.location = .path)).map Parameter.name =
      (b.parameters.values.filter (·.location = .path)).map Parameter.name := by
  have seen : ∀ inputs : Inputs,
      (inputs.parameters.values.filter (·.location = .path)).map Parameter.name =
        ((inputs.parameters.entries.map (Prod.map id fun p => (p.name, p.location))).filter
          (·.2.2 = .path)).map (·.2.1) := by
    intro inputs
    simp only [OrderedMap.values, List.filter_map, List.map_map]
    rfl
  rw [seen, seen, same]

theorem agrees_parameterSchema (complete : Complete root k) (within : param.Within root)
    (paired : Paired root k r s) :
    Agrees root (parameterSchema root param location) r (parameterSchema root param location) s
      (Alike root k r s) := by
  unfold parameterSchema
  split
  · next schema found =>
    exact agrees_schemaId complete (within.field found) paired
  · split
    · refine ((agrees_inlineNode complete within paired).and (yields_inlineNode within paired.first)
        (yields_inlineNode within paired.second)).bind ?_
      rintro node r' other s' ⟨⟨abreast, same⟩, ⟨_, below⟩, _, beside⟩
      exact ⟨_, _, rfl, abreast.trans (.push abreast.paired below beside),
        Twin.push abreast.paired same⟩
    · have childless : ∀ size, (SchemaNode.ofKind (.typed .string)).Below size :=
        SchemaNode.below_of_childless (SchemaNode.children_ofKind _)
      exact ⟨_, _, rfl, Abreast.push paired (childless _) (childless _), Twin.push paired rfl⟩

theorem agrees_parameter {place : ParameterLocation} (complete : Complete root k)
    (within : param.Within root) (paired : Paired root k r s) :
    Agrees root (parameter root label name place param) r (parameter root label name place param) s
      (fun p r' q s' => Abreast root k r s r' s' ∧ (p.name, p.location) = (q.name, q.location)) :=
  (agrees_parameterSchema complete within paired).bind fun _ _ _ _ ⟨abreast, _⟩ =>
    ⟨_, _, rfl, abreast, rfl⟩

theorem agrees_addParameter {a b : Inputs} (complete : Complete root k) (within : raw.Within root)
    (reading : Reading root k r s a r' b s') :
    Agrees root (addParameter root label a raw) r' (addParameter root label b raw) s'
      (Reading root k r s) := by
  obtain ⟨abreast, same⟩ := reading
  unfold addParameter
  split
  · exact agrees_throw
  · next param found =>
    have inside := Json.deref_within within found
    split
    · exact agrees_pure ⟨abreast, same⟩
    · dsimp only
      split
      · split
        · exact agrees_pure ⟨abreast, same⟩
        · next schema body =>
          apply (agrees_schemaId complete (inside.field body) abreast.paired).bind
          rintro i t j u ⟨onward, _⟩
          exact agrees_pure ⟨abreast.trans onward, same⟩
      · split
        · exact agrees_pure ⟨abreast, same⟩
        · apply (agrees_parameter complete inside abreast.paired).bind
          rintro p t q u ⟨onward, alike⟩
          exact agrees_pure ⟨abreast.trans onward, OrderedMap.insert_congr same alike⟩

theorem agrees_requestBody {operation : Json} {body other : Option SchemaId}
    (complete : Complete root k) (within : operation.Within root) (paired : Paired root k r s) :
    Agrees root (requestBody root label operation body) r (requestBody root label operation other) s
      (fun _ r' _ s' => Abreast root k r s r' s') := by
  unfold requestBody
  split
  · exact agrees_pure (.refl paired)
  · next raw found =>
    have inside := within.field found
    split
    · exact agrees_throw
    · next declared target =>
      split
      · exact agrees_pure (.refl paired)
      · next schema media =>
        obtain ⟨content, field, media⟩ := Option.bind_eq_some_iff.mp media
        have schema_within :=
          mediaSchema?_within ((Json.deref_within inside target).field field) media
        exact (agrees_schemaId complete schema_within paired).bind fun _ _ _ _ ⟨abreast, _⟩ =>
          agrees_pure abreast

theorem agrees_addResponse {done other : Responses × List Diagnostic} {entry : String × Json}
    (complete : Complete root k) (within : entry.2.Within root) (paired : Paired root k r s) :
    Agrees root (addResponse root label done entry) r (addResponse root label other entry) s
      (fun _ r' _ s' => Abreast root k r s r' s') := by
  unfold addResponse
  dsimp only
  split
  · split
    · exact agrees_pure (.refl paired)
    · exact agrees_pure (.refl paired)
  · split
    · exact agrees_throw
    · next response found =>
      have inside := Json.deref_within within found
      split
      · next schema documented =>
        have placing (location : String) :
            Agrees root (some <$> schemaId root schema location) r
              (some <$> schemaId root schema location) s
              (fun _ t _ u => Abreast root k r s t u) :=
          (agrees_schemaId complete (responseSchema?_within inside documented) paired).bind
            fun _ _ _ _ alike => agrees_pure alike.1
        exact (placing _).bind fun _ _ _ _ abreast => agrees_pure abreast
      · exact agrees_pure (.refl paired)

/-- Two readings of one operation agree. -/
theorem agrees_operation {operation : Json} (method path : String)
    (complete : Complete source.root k) (item_within : item.Within source.root)
    (within : operation.Within source.root) (paired : Paired source.root k r s) :
    Agrees source.root (Building.operation source method path item operation) r
      (Building.operation source method path item operation) s
      (fun a _ b _ => a.1.label = b.1.label) := by
  unfold Building.operation
  split
  · exact agrees_throw
  · next template _ =>
    dsimp only
    have reading : Agrees source.root
        ((parameterList item ++ parameterList operation).foldlM
          (addParameter source.root (Building.label method path)) {}) r
        ((parameterList item ++ parameterList operation).foldlM
          (addParameter source.root (Building.label method path)) {}) s
        (Reading source.root k r s) :=
      agrees_foldlM (fun raw member _ _ _ _ now =>
        agrees_addParameter complete (mem_parameters item_within within member) now)
        ⟨.refl paired, rfl⟩
    apply reading.bind
    rintro a t b u ⟨abreast, same⟩
    rw [same.declared]
    split
    · exact agrees_throw
    · refine (agrees_requestBody complete within abreast.paired).bind fun _ t' _ u' onward => ?_
      have responding : ∀ entry ∈ (operation.field? "responses" >>= Json.fields?).getD [],
          ∀ (a : Responses × List Diagnostic) v (b : Responses × List Diagnostic) w,
            Abreast source.root k t' u' v w →
            Agrees source.root (addResponse source.root (Building.label method path) a entry) v
              (addResponse source.root (Building.label method path) b entry) w
              (fun _ v' _ w' => Abreast source.root k t' u' v' w') :=
        fun entry member _ _ _ _ later =>
          (agrees_addResponse complete (mem_responses within member) later.paired).mono
            fun _ _ _ _ more => later.trans more
      exact (agrees_foldlM responding (.refl onward.paired)).bind fun _ _ _ _ _ => agrees_pure rfl

end Building

end HttpPlan
