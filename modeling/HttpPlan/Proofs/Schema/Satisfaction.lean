import HttpPlan.Proofs.Assertion.Conformance

/-! Values that satisfy a node in all of its fields: what it lists is to be met besides its kind, and
a bound, a length or a property counts whatever the kind is. Such a value conforms to the node. -/
namespace HttpPlan

variable (accepts : String → String → Prop)

/-- All fields of a node together. `child` says which values the nodes that it points at take. -/
structure SchemaNode.Meets (child : SchemaId → Json → Prop) (node : SchemaNode) (v : Json) :
    Prop where
  kind : ∀ type, node.kind = .typed type → v.HasType type
  listed : ∀ allowed, node.enumeration = some allowed → v ∈ allowed
  identifier : v.type = .string → node.isUuid → v.IsText (accepts uuidPattern)
  pattern : v.type = .string → ∀ p, node.pattern = some p → v.IsText (accepts p)
  length : v.type = .string → v.HasLength node.minLength node.maxLength
  range : v.type.isNumeric →
    v.InRange node.minimum node.maximum node.exclusiveMinimum node.exclusiveMaximum
  required : v.type = .object → v.HasKeys node.required.names
  properties : ∀ key id w, (key, id) ∈ node.properties.entries → v.field? key = some w → child id w
  items : ∀ id vs w, node.items = some id → v.items? = some vs → w ∈ vs → child id w
  variant : node.kind = .union → ∃ id ∈ node.variants, child id v

/-- A nullable node takes null besides. -/
def SchemaNode.Takes (child : SchemaId → Json → Prop) (node : SchemaNode) (v : Json) : Prop :=
  (v = .null ∧ node.nullable) ∨ node.Meets accepts child v

/-- The values that a node of an arena takes, its children included. -/
inductive SchemaArena.Satisfies (arena : SchemaArena) : SchemaId → Json → Prop
  | null {id : SchemaId} (nullable : (arena.node id).nullable) : Satisfies arena id .null
  | meets {id : SchemaId} {v : Json} {child : SchemaId → Json → Prop}
      (meets : (arena.node id).Meets accepts child v)
      (children : ∀ id w, child id w → Satisfies arena id w) : Satisfies arena id v

namespace SchemaNode

variable {accepts : String → String → Prop} {node : SchemaNode} {v : Json}
  {child other : SchemaId → Json → Prop}

theorem Meets.imp (meets : node.Meets accepts child v) (weaker : ∀ id w, child id w → other id w) :
    node.Meets accepts other v where
  kind := meets.kind
  listed := meets.listed
  identifier := meets.identifier
  pattern := meets.pattern
  length := meets.length
  range := meets.range
  required := meets.required
  properties := fun key id w member found => weaker id w (meets.properties key id w member found)
  items := fun id vs w items elements member => weaker id w (meets.items id vs w items elements member)
  variant := fun union => (meets.variant union).imp fun id taken => ⟨taken.1, weaker id v taken.2⟩

theorem Meets.admits (meets : node.Meets accepts child v) : node.Admits accepts v where
  identifier := fun string => meets.identifier (by simpa [Json.HasType] using meets.kind _ string)
  pattern := fun string => meets.pattern (by simpa [Json.HasType] using meets.kind _ string)
  length := fun string => meets.length (by simpa [Json.HasType] using meets.kind _ string)
  range := fun numeric => by
    refine meets.range ?_
    cases kind : node.kind with
    | typed type =>
      have has := meets.kind type kind
      rw [kind] at numeric
      rcases has with same | ⟨integer, -⟩
      · exact same ▸ numeric
      · rw [integer]; rfl
    | union => rw [kind] at numeric; cases numeric
    | unknown => rw [kind] at numeric; cases numeric

end SchemaNode

namespace SchemaArena

variable {accepts : String → String → Prop} {arena : SchemaArena} {id : SchemaId} {v : Json}

theorem satisfies_iff : arena.Satisfies accepts id v ↔
    (arena.node id).Takes accepts (arena.Satisfies accepts) v := by
  constructor
  · rintro (nullable | ⟨meets, children⟩)
    · exact Or.inl ⟨rfl, nullable⟩
    · exact Or.inr (meets.imp children)
  · rintro (⟨rfl, nullable⟩ | meets)
    · exact .null nullable
    · exact .meets meets fun _ _ taken => taken

theorem Satisfies.conforms (satisfies : arena.Satisfies accepts id v) :
    arena.Conforms accepts id v := by
  induction satisfies with
  | null nullable => exact .null nullable
  | @meets id v child meets children ih =>
    cases enumeration : (arena.node id).enumeration with
    | some allowed => exact .listed enumeration (meets.listed allowed enumeration)
    | none =>
      cases kind : (arena.node id).kind with
      | unknown => exact .unknown enumeration kind
      | union =>
        obtain ⟨variant, member, taken⟩ := meets.variant kind
        exact .union enumeration kind member (ih variant v taken)
      | typed type =>
        have has := meets.kind type kind
        refine .typed enumeration kind has meets.admits ?_ ?_ ?_
        · rintro rfl
          exact meets.required (by simpa [Json.HasType] using has)
        · exact fun _ key child w member found => ih child w (meets.properties key child w member found)
        · exact fun _ child vs w items elements member =>
            ih child w (meets.items child vs w items elements member)

end SchemaArena

end HttpPlan
