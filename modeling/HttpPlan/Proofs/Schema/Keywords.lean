import HttpPlan.Schema.Keywords

/-! The keywords of a schema object make a node without children; where they do not, a type name
is at fault. -/
namespace HttpPlan.SchemaNode

variable {schema : Json} {node : SchemaNode} {types : List JsonType} {construct : Construct}

theorem typeNamed_error {name : String} (fault : DeclaredType.typeNamed name = .error construct) :
    construct = .typeName name := by
  unfold DeclaredType.typeNamed at fault
  split at fault
  · cases fault
  · cases fault; rfl

theorem typesNamed_error {names : List String}
    (fault : names.mapM DeclaredType.typeNamed = .error construct) :
    ∃ name, construct = .typeName name := by
  induction names with
  | nil => cases fault
  | cons name rest ih =>
    rw [List.mapM_cons] at fault
    cases first : DeclaredType.typeNamed name with
    | error c =>
      rw [first] at fault
      cases fault
      exact ⟨name, typeNamed_error first⟩
    | ok type =>
      rw [first] at fault
      cases others : rest.mapM DeclaredType.typeNamed with
      | error c =>
        simp only [bind, Except.bind, others] at fault
        cases fault
        exact ih others
      | ok types =>
        simp only [bind, Except.bind, others, pure, Except.pure] at fault
        cases fault

theorem ofKeyword_error {keyword : Option Json}
    (fault : DeclaredType.ofKeyword keyword = .error construct) :
    ∃ name, construct = .typeName name := by
  unfold DeclaredType.ofKeyword at fault
  split at fault
  · next name =>
    cases named : DeclaredType.typeNamed name with
    | error c => rw [named] at fault; cases fault; exact ⟨name, typeNamed_error named⟩
    | ok type => rw [named] at fault; cases fault
  · next names =>
    cases named : (names.filterMap Json.string?).mapM DeclaredType.typeNamed with
    | error c => rw [named] at fault; cases fault; exact typesNamed_error named
    | ok types => rw [named] at fault; cases fault
  · cases fault

theorem ofKeywords_error (fault : ofKeywords schema = .error construct) :
    ∃ name, construct = .typeName name := by
  unfold ofKeywords at fault
  cases declared : DeclaredType.ofKeyword (schema.field? "type") with
  | error c => rw [declared] at fault; cases fault; exact ofKeyword_error declared
  | ok type => rw [declared] at fault; cases fault

theorem ofKeywords_childless (made : ofKeywords schema = .ok (node, types)) :
    node.properties = ∅ ∧ node.items = none ∧ node.variants = [] := by
  unfold ofKeywords at made
  cases declared : DeclaredType.ofKeyword (schema.field? "type") with
  | error c => rw [declared] at made; cases made
  | ok type => rw [declared] at made; cases made; exact ⟨rfl, rfl, rfl⟩

end HttpPlan.SchemaNode
