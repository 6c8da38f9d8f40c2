import HttpPlan.Proofs.Schema.Admission
import HttpPlan.Proofs.Schema.Merge

/-! The shape of a node: arrays, and nothing else, have an element type, and unions, and nothing
else, have variants. Merging keeps it. A node that is nothing but a type lacks it where the type is
that of arrays. -/
namespace HttpPlan

structure SchemaNode.Shaped (node : SchemaNode) : Prop where
  items : node.items.isSome ↔ node.kind = .typed .array
  variants : node.variants ≠ [] ↔ node.kind = .union

/-- The type list of a schema names arrays beside another type. -/
def Json.MixesArrays (schema : Json) : Prop :=
  ∃ names types, schema.field? "type" = some (.array names) ∧
    (names.filterMap Json.string?).mapM DeclaredType.typeNamed = .ok types ∧
    .array ∈ types ∧ 1 < (types.filter (· ≠ .null)).length

namespace SchemaNode

variable {node part merged : SchemaNode} {schema : Json} {types : List JsonType} {type : JsonType}
  {kind : SchemaKind}

theorem shaped_ofKind : (ofKind kind).Shaped ↔ kind ≠ .typed .array ∧ kind ≠ .union := by
  constructor
  · intro shaped
    exact ⟨fun array => (nomatch shaped.items.mpr array), fun union => shaped.variants.mpr union rfl⟩
  · rintro ⟨array, union⟩
    exact ⟨⟨fun some => (nomatch some), fun same => absurd same array⟩,
      ⟨fun some => absurd rfl some, fun same => absurd same union⟩⟩

theorem shaped_blank : ({} : SchemaNode).Shaped :=
  shaped_ofKind.mpr ⟨fun array => (nomatch array), fun union => (nomatch union)⟩

theorem Shaped.named {name : Option String} (shaped : node.Shaped) :
    ({ node with name } : SchemaNode).Shaped := ⟨shaped.items, shaped.variants⟩

/-- A node of another kind than these two has neither an element type nor variants. -/
theorem Shaped.bare (shaped : node.Shaped) (array : node.kind ≠ .typed .array)
    (union : node.kind ≠ .union) : node.items = none ∧ node.variants = [] :=
  ⟨Option.not_isSome_iff_eq_none.mp fun some => array (shaped.items.mp some),
    Classical.not_not.mp fun some => union (shaped.variants.mp some)⟩

theorem kind_of_isObjectLike (lends : node.isObjectLike) :
    node.kind ≠ .typed .array ∧ node.kind ≠ .union := by
  unfold isObjectLike at lends
  constructor <;> intro same <;> rw [same] at lends <;> cases lends

theorem Shaped.absorbObject (shaped : node.Shaped) (merges : node.absorbObject part = .ok merged) :
    merged.Shaped := by
  unfold SchemaNode.absorbObject at merges
  split at merges
  · split at merges
    · next object =>
      cases merges
      have ⟨array, union⟩ := kind_of_isObjectLike object
      have ⟨items, variants⟩ := shaped.bare array union
      exact ⟨by simp [items], by simp [variants]⟩
    · cases merges
  · cases merges
    exact ⟨shaped.items, shaped.variants⟩

theorem Shaped.absorbOther (shaped : node.Shaped) (lent : part.Shaped)
    (merges : node.absorbOther part = .ok merged) : merged.Shaped := by
  unfold SchemaNode.absorbOther at merges
  split at merges
  · next fits =>
    cases merges
    -- The node has the part's kind, or it is unconstrained and has nothing of its own.
    have own : node.kind = part.kind ∨ node.items = none ∧ node.variants = [] := by
      simp only [Bool.or_eq_true, Bool.and_eq_true, decide_eq_true_eq] at fits
      refine fits.imp_right fun open_ => shaped.bare ?_ ?_ <;> simp [open_.1]
    have items := lent.items
    have variants := lent.variants
    rcases own with same | ⟨no_items, no_variants⟩
    · have own_items := shaped.items
      have own_variants := shaped.variants
      rw [same] at own_items own_variants
      refine ⟨?_, ?_⟩
      · show (node.items <|> part.items).isSome ↔ _
        cases held : node.items <;> simp_all
      · show node.variants ++ part.variants ≠ [] ↔ _
        by_cases union : part.kind = .union <;> simp_all
    · exact ⟨by simpa [no_items] using items, by simpa [no_variants] using variants⟩
  · cases merges

theorem Shaped.absorb (shaped : node.Shaped) (lent : part.Shaped)
    (merges : node.absorb part = .ok merged) : merged.Shaped := by
  rw [absorb_eq] at merges
  cases folded : (if part.isObjectLike then SchemaNode.absorbObject node part
      else SchemaNode.absorbOther node part) with
  | error c => rw [folded] at merges; cases merges
  | ok inner =>
    rw [folded] at merges
    cases merges
    split at folded
    · exact (shaped.absorbObject folded).named
    · exact (shaped.absorbOther lent folded).named

theorem Shaped.dropObjectItems (shaped : node.Shaped) : node.dropObjectItems.Shaped := by
  unfold SchemaNode.dropObjectItems
  split
  · next object =>
    have ⟨_, variants⟩ := shaped.bare (by simp [object]) (by simp [object])
    exact ⟨by simp [object], by simp [object, variants]⟩
  · exact shaped

end SchemaNode

namespace DeclaredType

variable {declared : DeclaredType} {keyword : Option Json}

theorem variants_ofTypes {types : List JsonType} :
    (ofTypes types).variants ≠ [] ↔ (ofTypes types).kind = .union := by
  unfold ofTypes
  dsimp only
  split
  · split <;> simp
  · simp
  · next more _ => simpa using more

theorem variants_ofKeyword (made : ofKeyword keyword = .ok declared) :
    declared.variants ≠ [] ↔ declared.kind = .union := by
  unfold ofKeyword at made
  split at made
  · next name =>
    cases named : typeNamed name with
    | error c => rw [named] at made; cases made
    | ok type => rw [named] at made; cases made; simp
  · next names =>
    cases named : (names.filterMap Json.string?).mapM typeNamed with
    | error c => rw [named] at made; cases made
    | ok types => rw [named] at made; cases made; exact variants_ofTypes
  · cases made
    simp

theorem mem_variants_ofTypes {types : List JsonType} {type : JsonType} :
    type ∈ (ofTypes types).variants ↔
      type ∈ types.filter (· ≠ .null) ∧ 1 < (types.filter (· ≠ .null)).length := by
  unfold ofTypes
  dsimp only
  generalize types.filter (· ≠ .null) = others
  match others with
  | [] | [_] | _ :: _ :: _ => simp

end DeclaredType

namespace SchemaNode

variable {node : SchemaNode} {schema : Json} {types : List JsonType}

theorem inferredKind_ne_union {enumeration : Option (List Json)} :
    inferredKind schema enumeration ≠ .union := by
  unfold inferredKind
  split
  · simp
  · split
    · simp
    · split <;> simp

/-- A node by its own keywords is a union just where it is given variants. -/
theorem types_ofKeywords (made : ofKeywords schema = .ok (node, types)) :
    types ≠ [] ↔ node.kind = .union := by
  obtain ⟨declared, ofType, rfl, kind, -⟩ := ofKeywords_declared made
  rw [kind]
  split
  · next absent =>
    rw [Option.isNone_iff_eq_none.mp absent] at ofType
    cases ofType
    simp [inferredKind_ne_union]
  · exact DeclaredType.variants_ofKeyword ofType

theorem mixesArrays_iff (made : ofKeywords schema = .ok (node, types)) :
    .array ∈ types ↔ schema.MixesArrays := by
  obtain ⟨declared, ofType, rfl, -, -⟩ := ofKeywords_declared made
  constructor
  · intro member
    unfold DeclaredType.ofKeyword at ofType
    split at ofType
    · next name _ =>
      cases named : DeclaredType.typeNamed name with
      | error c => rw [named] at ofType; cases ofType
      | ok type => rw [named] at ofType; cases ofType; cases member
    · next names given =>
      cases named : (names.filterMap Json.string?).mapM DeclaredType.typeNamed with
      | error c => rw [named] at ofType; cases ofType
      | ok types =>
        rw [named] at ofType
        cases ofType
        have ⟨inside, long⟩ := DeclaredType.mem_variants_ofTypes.mp member
        exact ⟨names, types, given, named, (List.mem_filter.mp inside).1, long⟩
    · cases ofType
      cases member
  · rintro ⟨names, types, given, named, inside, long⟩
    simp only [given, DeclaredType.ofKeyword, named] at ofType
    cases ofType
    exact DeclaredType.mem_variants_ofTypes.mpr ⟨List.mem_filter.mpr ⟨inside, rfl⟩, long⟩

end SchemaNode

/-- The schema that a step walks. -/
def Step.walked? : Step → Option Json
  | .child _ (.walked value _) => some value
  | _ => none

namespace Json

variable {root schema part : Json} {site : String}

/-- The schemas that are walked for the node of a schema: its properties, its element type, and its
parts and alternatives. -/
def walked (schema : Json) : List Json := (schema.blueprint "").2.filterMap Step.walked?

/-- Which schemas a blueprint walks does not depend on where it is drawn. -/
theorem walked_blueprint (site : String) :
    (schema.blueprint site).2.filterMap Step.walked? = schema.walked := by
  have keywords (kind : SchemaKind) (types : List JsonType) :
      (Step.ofKeywords schema site kind types).filterMap Step.walked? =
        (Step.ofKeywords schema "" kind types).filterMap Step.walked? := by
    simp only [Step.ofKeywords, List.filterMap_append, List.filterMap_map, Function.comp_def,
      Step.walked?]
    split
    · cases schema.field? "items" <;> rfl
    · rfl
  have parts (given : Option Json) : (Step.ofParts site given).filterMap Step.walked? =
      (Step.ofParts "" given).filterMap Step.walked? := by
    unfold Step.ofParts
    split
    · simp only [List.filterMap_append, List.filterMap_map, Function.comp_def, Step.walked?]
    · rfl
  have alternatives (keyword : String) (given : Option Json) :
      (Step.ofAlternatives site keyword given).filterMap Step.walked? =
        (Step.ofAlternatives "" keyword given).filterMap Step.walked? := by
    unfold Step.ofAlternatives
    split
    · rfl
    · simp only [List.filterMap_append, List.filterMap_map, Function.comp_def, Step.walked?]
    · rfl
  unfold walked blueprint
  split
  · split
    · rfl
    · split
      · rfl
      · simp only [List.filterMap_append, keywords, parts, alternatives]
  · rfl

theorem mem_walked : part ∈ schema.walked ↔
    ∃ role location, .child role (.walked part location) ∈ (schema.blueprint site).2 := by
  rw [← walked_blueprint site, List.mem_filterMap]
  constructor
  · rintro ⟨step, listed, walks⟩
    cases step with
    | child role child =>
      cases child with
      | walked value location => cases walks; exact ⟨role, location, listed⟩
      | fresh => cases walks
    | _ => cases walks
  · rintro ⟨role, location, listed⟩
    exact ⟨_, listed, rfl⟩

/-- Arrays among other types are given a variant that has nothing but its type, unless the schema
cannot be modelled. -/
theorem MixesArrays.listed (mixes : schema.MixesArrays) (site : String) :
    .child .variant (.fresh (.ofKind (.typed .array))) ∈ (schema.blueprint site).2 ∨
      ∃ error, (schema.blueprint site).2 = [.refuse error] := by
  obtain ⟨names, types, given, -⟩ := id mixes
  unfold blueprint
  split
  · split
    · exact Or.inr ⟨_, rfl⟩
    · split
      · exact Or.inr ⟨_, rfl⟩
      · next made =>
        refine Or.inl ?_
        have array := (SchemaNode.mixesArrays_iff made).mpr mixes
        exact Step.variant_mem array
  · next plain =>
    cases schema with
    | object fields => exact absurd rfl (plain fields)
    | _ => cases given

/-- The schemas whose nodes are built where the place of this one is needed. -/
inductive Reaches (root : Json) : Json → Json → Prop
  | here {value : Json} (plain : value.reference? = none) : Reaches root value value
  | through {value target part : Json} {pointer : String} (follows : value.reference? = some pointer)
      (found : root.lookup pointer = .ok target) (reaches : Reaches root target part) :
      Reaches root value part
  | child {value whole part : Json} (plain : whole.reference? = none)
      (listed : value ∈ whole.walked) (reaches : Reaches root value part) : Reaches root whole part

end Json

end HttpPlan
