import HttpPlan.Proofs.Schema.Arena
import HttpPlan.Proofs.Schema.Keywords
import HttpPlan.Proofs.Spec.Reference
import HttpPlan.Schema.Blueprint

/-! The steps of a blueprint walk proper parts of the schema only, and start from a node without
children. -/
namespace HttpPlan

variable {schema whole : Json} {location : String} {step : Step} {node : SchemaNode}
  {types : List JsonType}

/-- A step in building the node of `whole`. -/
inductive Step.Of (whole : Json) : Step → Prop
  | refuse {error : BuildError} (own : ¬ error.CutOff) : Of whole (.refuse error)
  | fresh (role : Role) {node : SchemaNode} (childless : node.children = []) :
      Of whole (.child role (.fresh node))
  | walked (role : Role) {value : Json} (location : String) (inside : value.Inside whole) :
      Of whole (.child role (.walked value location))
  | settle : Of whole .settle
  | unite : Of whole .unite

theorem SchemaNode.children_ofKeywords (made : SchemaNode.ofKeywords schema = .ok (node, types)) :
    node.children = [] := by
  obtain ⟨properties, items, variants⟩ := SchemaNode.ofKeywords_childless made
  simp only [SchemaNode.children, properties, items, variants]
  rfl

theorem SchemaNode.children_ofKind (kind : SchemaKind) : (SchemaNode.ofKind kind).children = [] := rfl

theorem Json.blueprint_childless : (schema.blueprint location).1.children = [] := by
  unfold Json.blueprint
  split
  · split
    · rfl
    · split
      · rfl
      · next made => exact SchemaNode.children_ofKeywords made
  · rfl

namespace Step

theorem ofKeywords_of {kind : SchemaKind} (member : step ∈ ofKeywords schema location kind types) :
    step.Of schema := by
  simp only [ofKeywords, List.mem_append, List.mem_map, or_assoc] at member
  rcases member with ⟨type, -, rfl⟩ | ⟨⟨name, value⟩, inside, rfl⟩ | items
  · exact .fresh _ rfl
  · refine .walked _ _ ?_
    cases found : schema.field? "properties" with
    | none => simp [found] at inside
    | some properties =>
      cases list : properties.fields? with
      | none => simp [found, list] at inside
      | some fields =>
        simp only [found, Option.bind_eq_bind, Option.bind_some, list, Option.getD_some] at inside
        exact (Json.fields?_inside list inside).trans (Json.field?_inside found)
  · split at items
    · rw [List.mem_singleton] at items
      subst items
      split
      · next value found => exact .walked _ _ (Json.field?_inside found)
      · exact .fresh _ rfl
    · cases items

theorem ofParts_of (member : step ∈ ofParts location (schema.field? "allOf")) : step.Of schema := by
  unfold ofParts at member
  split at member
  · next parts found =>
    rcases List.mem_append.mp member with child | last
    · obtain ⟨⟨value, index⟩, inside, rfl⟩ := List.mem_map.mp child
      exact .walked _ _
        ((Json.item_inside (List.fst_mem_of_mem_zipIdx inside)).trans (Json.field?_inside found))
    · rw [List.mem_singleton.mp last]
      exact .settle
  · cases member

theorem ofAlternatives_of {keyword : String}
    (member : step ∈ ofAlternatives location keyword (schema.field? keyword)) : step.Of schema := by
  unfold ofAlternatives at member
  split at member
  · rw [List.mem_singleton.mp member]
    exact .refuse fun cut => cut
  · next parts _ found =>
    rcases List.mem_append.mp member with child | last
    · obtain ⟨⟨value, index⟩, inside, rfl⟩ := List.mem_map.mp child
      exact .walked _ _
        ((Json.item_inside (List.fst_mem_of_mem_zipIdx inside)).trans (Json.field?_inside found))
    · rw [List.mem_singleton.mp last]
      exact .unite
  · cases member

end Step

theorem Json.blueprint_of (member : step ∈ (schema.blueprint location).2) : step.Of schema := by
  unfold Json.blueprint at member
  split at member
  · next fields =>
    split at member
    · rw [List.mem_singleton.mp member]
      exact .refuse fun cut => cut
    · split at member
      · next construct fault =>
        rw [List.mem_singleton.mp member]
        obtain ⟨name, rfl⟩ := SchemaNode.ofKeywords_error fault
        exact .refuse fun cut => cut
      · simp only [List.mem_append, or_assoc] at member
        rcases member with own | parts | some | any
        · exact Step.ofKeywords_of own
        · exact Step.ofParts_of parts
        · exact Step.ofAlternatives_of some
        · exact Step.ofAlternatives_of any
  · cases member

/-- A child that is no schema of its own is one of the types that are listed, or the element type of
an array that declares none. -/
theorem Json.blueprint_fresh {role : Role}
    (member : .child role (.fresh node) ∈ (schema.blueprint location).2) :
    role = .items ∧ node = {} ∨ role = .variant ∧ ∃ own types type,
      SchemaNode.ofKeywords schema = .ok (own, types) ∧ type ∈ types ∧ node = .ofKind (.typed type) := by
  unfold Json.blueprint at member
  split at member
  · split at member
    · simp at member
    · split at member
      · simp at member
      · next own types made =>
        simp only [List.mem_append, or_assoc] at member
        rcases member with keywords | parts | some | any
        · simp only [Step.ofKeywords, List.mem_append, List.mem_map, or_assoc] at keywords
          rcases keywords with ⟨type, listed, same⟩ | ⟨_, -, same⟩ | items
          · cases same
            exact Or.inr ⟨rfl, own, types, type, made, listed, rfl⟩
          · cases same
          · split at items
            · split at items
              · cases List.mem_singleton.mp items
              · cases List.mem_singleton.mp items
                exact Or.inl ⟨rfl, rfl⟩
            · cases items
        · unfold Step.ofParts at parts
          split at parts <;> simp at parts
        · unfold Step.ofAlternatives at some
          split at some <;> simp at some
        · unfold Step.ofAlternatives at any
          split at any <;> simp at any
  · simp at member

end HttpPlan
