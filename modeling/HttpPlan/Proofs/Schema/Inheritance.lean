import HttpPlan.Proofs.Schema.Merge
import HttpPlan.Proofs.Schema.Satisfaction

/-! What a merged node asks for comes from the node and the parts that it was merged from, each field
by itself. So a value that all of these take is taken by the merged node too, unless a bound of one
of them has become exclusive on account of another, or parts that say nothing of their kind have been
made an object. -/
namespace HttpPlan

namespace NameSet

theorem mem_insert {s : NameSet} {name other : String} :
    other ∈ (s.insert name).names ↔ other = name ∨ other ∈ s.names := mem_place

theorem mem_union {s t : NameSet} {name : String} :
    name ∈ (s.union t).names ↔ name ∈ s.names ∨ name ∈ t.names := by
  rw [union]
  induction t.names generalizing s with
  | nil => simp
  | cons first rest ih =>
    rw [List.foldl_cons, ih, mem_insert, List.mem_cons]
    grind

end NameSet

namespace Json

theorem isNumeric_of_double {v : Json} {x : Binary64} (number : v.double? = some x) :
    v.type.isNumeric := by
  cases v with
  | number n => cases n <;> rfl
  | _ => cases number

theorem exists_text {v : Json} (string : v.type = .string) : ∃ text, v = .string text := by
  cases v with
  | string text => exact ⟨text, rfl⟩
  | number n => cases n <;> cases string
  | _ => cases string

end Json

namespace SchemaNode

variable {nodes : List SchemaNode} {node part merged : SchemaNode}

/-- What a node has in a field, one of the nodes has there. -/
def Lent {α : Type} (field : SchemaNode → Option α) (nodes : List SchemaNode) (node : SchemaNode) :
    Prop :=
  ∀ a, field node = some a → ∃ n ∈ nodes, field n = some a

/-- Every field of a node is one of the nodes', and all that they take null for is kept. -/
structure Inherits (nodes : List SchemaNode) (node : SchemaNode) : Prop where
  kind : ∀ type, node.kind = .typed type → type ≠ .object → ∃ n ∈ nodes, n.kind = .typed type
  union : node.kind = .union → ∃ n ∈ nodes, n.kind = .union ∧ n.variants ⊆ node.variants
  property : ∀ e ∈ node.properties.entries, ∃ n ∈ nodes, e ∈ n.properties.entries
  required : ∀ key ∈ node.required.names, ∃ n ∈ nodes, key ∈ n.required.names
  items : Lent (·.items) nodes node
  format : Lent (·.format) nodes node
  pattern : Lent (·.pattern) nodes node
  enumeration : Lent (·.enumeration) nodes node
  minimum : Lent (·.minimum) nodes node
  maximum : Lent (·.maximum) nodes node
  minLength : Lent (·.minLength) nodes node
  maxLength : Lent (·.maxLength) nodes node
  nullable : ∀ n ∈ nodes, n.nullable → node.nullable

section lent

variable {α : Type} {field : SchemaNode → Option α}

theorem Lent.kept (lent : Lent field nodes node) (same : field merged = field node) :
    Lent field (nodes ++ [part]) merged := by
  intro a has
  obtain ⟨n, member, given⟩ := lent a (same ▸ has)
  exact ⟨n, List.mem_append_left _ member, given⟩

theorem Lent.orElse (lent : Lent field nodes node)
    (either : field merged = (field node <|> field part)) : Lent field (nodes ++ [part]) merged := by
  intro a has
  rw [either] at has
  cases own : field node with
  | none =>
    rw [own] at has
    exact ⟨part, by simp, has⟩
  | some b =>
    rw [own] at has
    obtain ⟨n, member, given⟩ := lent b own
    exact ⟨n, List.mem_append_left _ member, given.trans has⟩

end lent

theorem lent_self {α : Type} (field : SchemaNode → Option α) : Lent field [node] node :=
  fun _ has => ⟨node, List.mem_cons_self, has⟩

theorem inherits_self : Inherits [node] node where
  kind := fun _ kind _ => ⟨node, List.mem_cons_self, kind⟩
  union := fun union => ⟨node, List.mem_cons_self, union, List.Subset.refl _⟩
  property := fun _ member => ⟨node, List.mem_cons_self, member⟩
  required := fun _ member => ⟨node, List.mem_cons_self, member⟩
  items := lent_self _
  format := lent_self _
  pattern := lent_self _
  enumeration := lent_self _
  minimum := lent_self _
  maximum := lent_self _
  minLength := lent_self _
  maxLength := lent_self _
  nullable := fun _ member nullable => List.mem_singleton.mp member ▸ nullable

namespace Inherits

theorem further {P : SchemaNode → Prop} (given : ∃ n ∈ nodes, P n) : ∃ n ∈ nodes ++ [part], P n := by
  obtain ⟨n, member, holds⟩ := given
  exact ⟨n, List.mem_append_left _ member, holds⟩

theorem nullable_or (inherits : Inherits nodes node) :
    ∀ n ∈ nodes ++ [part], n.nullable → (node.nullable || part.nullable) := by
  intro n member nullable
  rcases List.mem_append.mp member with member | member
  · simp [inherits.nullable n member nullable]
  · simp [← List.mem_singleton.mp member, nullable]

/-- The properties and required names of an object part come in; a kind is all it may add besides. -/
theorem absorbObject (inherits : Inherits nodes node)
    (merges : SchemaNode.absorbObject node part = .ok merged) :
    Inherits (nodes ++ [part]) merged := by
  have property : ∀ e ∈ (part.properties.entries.foldl (fun m e => m.insert e.1 e.2)
      node.properties).entries, ∃ n ∈ nodes ++ [part], e ∈ n.properties.entries := by
    intro e member
    rcases OrderedMap.mem_entries_insertAll member with theirs | own
    · exact ⟨part, by simp, theirs⟩
    · exact further (inherits.property e own)
  have required : ∀ key ∈ (node.required.union part.required).names,
      ∃ n ∈ nodes ++ [part], key ∈ n.required.names := by
    intro key member
    rcases NameSet.mem_union.mp member with own | theirs
    · exact further (inherits.required key own)
    · exact ⟨part, by simp, theirs⟩
  have others : ∀ kind : SchemaKind,
      (∀ type, kind = .typed type → type ≠ .object → ∃ n ∈ nodes, n.kind = .typed type) →
      (kind = .union → ∃ n ∈ nodes, n.kind = .union ∧ n.variants ⊆ node.variants) →
      Inherits (nodes ++ [part]) { node with
        kind
        properties := part.properties.entries.foldl (fun m e => m.insert e.1 e.2) node.properties
        required := node.required.union part.required
        nullable := node.nullable || part.nullable } := fun kind typed union =>
    { kind := fun type same apart => further (typed type same apart)
      union := fun same => further (union same)
      property := property
      required := required
      items := inherits.items.kept rfl
      format := inherits.format.kept rfl
      pattern := inherits.pattern.kept rfl
      enumeration := inherits.enumeration.kept rfl
      minimum := inherits.minimum.kept rfl
      maximum := inherits.maximum.kept rfl
      minLength := inherits.minLength.kept rfl
      maxLength := inherits.maxLength.kept rfl
      nullable := inherits.nullable_or }
  unfold SchemaNode.absorbObject at merges
  split at merges
  · split at merges
    · cases merges
      exact others _ (fun type same apart => absurd (SchemaKind.typed.inj same).symm apart) nofun
    · cases merges
  · cases merges
    exact others _ inherits.kind inherits.union

/-- A part of another kind lends what is left open; the variants of both stand together. -/
theorem absorbOther (inherits : Inherits nodes node)
    (merges : SchemaNode.absorbOther node part = .ok merged) :
    Inherits (nodes ++ [part]) merged := by
  unfold SchemaNode.absorbOther at merges
  split at merges
  · cases merges
    exact {
      kind := fun type same _ => ⟨part, by simp, same⟩
      union := fun same => ⟨part, by simp, same, List.subset_append_right _ _⟩
      property := fun e member => further (inherits.property e member)
      required := fun key member => further (inherits.required key member)
      items := inherits.items.orElse rfl
      format := inherits.format.orElse rfl
      pattern := inherits.pattern.orElse rfl
      enumeration := inherits.enumeration.orElse rfl
      minimum := inherits.minimum.orElse rfl
      maximum := inherits.maximum.orElse rfl
      minLength := inherits.minLength.orElse rfl
      maxLength := inherits.maxLength.orElse rfl
      nullable := inherits.nullable_or }
  · cases merges

theorem named (name : Option String) (inherits : Inherits nodes node) :
    Inherits nodes { node with name } :=
  { inherits with }

theorem absorb (inherits : Inherits nodes node) (merges : node.absorb part = .ok merged) :
    Inherits (nodes ++ [part]) merged := by
  rw [absorb_eq] at merges
  split at merges
  · cases folded : SchemaNode.absorbObject node part with
    | error c => rw [folded] at merges; cases merges
    | ok inner =>
      rw [folded] at merges
      cases merges
      exact (inherits.absorbObject folded).named _
  · cases folded : SchemaNode.absorbOther node part with
    | error c => rw [folded] at merges; cases merges
    | ok inner =>
      rw [folded] at merges
      cases merges
      exact (inherits.absorbOther folded).named _

theorem dropObjectItems (inherits : Inherits nodes node) : Inherits nodes node.dropObjectItems := by
  unfold SchemaNode.dropObjectItems
  split
  · exact { inherits with items := nofun }
  · exact inherits

end Inherits

/-- What a merged node may ask of a number or of anything but an object that none of the nodes that
it was merged from asks for. -/
def Spares (node : SchemaNode) (v : Json) : Prop :=
  (v = .null ∧ node.nullable) ∨
    ((∀ x low, v.double? = some x → node.minimum = some low → node.exclusiveMinimum → low < x) ∧
      (∀ x high, v.double? = some x → node.maximum = some high → node.exclusiveMaximum → x < high) ∧
      (node.kind = .typed .object → v.type = .object))

/-- A merged node whose exclusive bounds are exclusive in one of the nodes that have them, and which
is an object only if one of the nodes is. -/
structure Faithful (nodes : List SchemaNode) (merged : SchemaNode) : Prop where
  minimum : ∀ low, merged.minimum = some low → merged.exclusiveMinimum →
    ∃ n ∈ nodes, n.minimum = some low ∧ n.exclusiveMinimum
  maximum : ∀ high, merged.maximum = some high → merged.exclusiveMaximum →
    ∃ n ∈ nodes, n.maximum = some high ∧ n.exclusiveMaximum
  object : merged.kind = .typed .object → ∃ n ∈ nodes, n.kind = .typed .object

section takes

variable {accepts : String → String → Prop} {child : SchemaId → Json → Prop} {v : Json}
  {x low high : Binary64}

theorem Meets.above (meets : node.Meets accepts child v) (number : v.double? = some x)
    (bound : node.minimum = some low) : if node.exclusiveMinimum then low < x else low ≤ x := by
  obtain ⟨y, same, within⟩ := (meets.range (Json.isNumeric_of_double number)).1 low bound
  cases number.symm.trans same
  exact within

theorem Meets.below (meets : node.Meets accepts child v) (number : v.double? = some x)
    (bound : node.maximum = some high) : if node.exclusiveMaximum then x < high else x ≤ high := by
  obtain ⟨y, same, within⟩ := (meets.range (Json.isNumeric_of_double number)).2 high bound
  cases number.symm.trans same
  exact within

theorem Meets.object (meets : node.Meets accepts child v) (kind : node.kind = .typed .object) :
    v.type = .object := by
  simpa [Json.HasType] using meets.kind .object kind

theorem Meets.spared (meets : node.Meets accepts child v) : node.Spares v := by
  refine Or.inr ⟨fun x low number bound exclusive => ?_, fun x high number bound exclusive => ?_,
    meets.object⟩
  · simpa [exclusive] using meets.above number bound
  · simpa [exclusive] using meets.below number bound

theorem Inherits.range (inherits : Inherits nodes node)
    (all : ∀ n ∈ nodes, n.Meets accepts child v)
    (least : ∀ x low, v.double? = some x → node.minimum = some low → node.exclusiveMinimum → low < x)
    (most : ∀ x high, v.double? = some x → node.maximum = some high → node.exclusiveMaximum → x < high)
    (numeric : v.type.isNumeric) :
    v.InRange node.minimum node.maximum node.exclusiveMinimum node.exclusiveMaximum := by
  constructor
  · intro low bound
    obtain ⟨n, member, given⟩ := inherits.minimum low bound
    obtain ⟨x, number, within⟩ := ((all n member).range numeric).1 low given
    refine ⟨x, number, ?_⟩
    split
    · next exclusive => exact least x low number bound exclusive
    · split at within
      · exact Int.le_of_lt within
      · exact within
  · intro high bound
    obtain ⟨n, member, given⟩ := inherits.maximum high bound
    obtain ⟨x, number, within⟩ := ((all n member).range numeric).2 high given
    refine ⟨x, number, ?_⟩
    split
    · next exclusive => exact most x high number bound exclusive
    · split at within
      · exact Int.le_of_lt within
      · exact within

theorem Inherits.length (inherits : Inherits nodes node)
    (all : ∀ n ∈ nodes, n.Meets accepts child v) (string : v.type = .string) :
    v.HasLength node.minLength node.maxLength := by
  obtain ⟨text, rfl⟩ := Json.exists_text string
  refine ⟨text, rfl, fun low bound => ?_, fun high bound => ?_⟩
  · obtain ⟨n, member, given⟩ := inherits.minLength low bound
    obtain ⟨other, same, least, -⟩ := (all n member).length rfl
    cases same
    exact least low given
  · obtain ⟨n, member, given⟩ := inherits.maxLength high bound
    obtain ⟨other, same, -, most⟩ := (all n member).length rfl
    cases same
    exact most high given

/-- What all the nodes take, the merged node takes unless an exclusive bound or its being an object
is in the way. -/
theorem Inherits.meets (inherits : Inherits nodes node)
    (all : ∀ n ∈ nodes, n.Meets accepts child v)
    (least : ∀ x low, v.double? = some x → node.minimum = some low → node.exclusiveMinimum → low < x)
    (most : ∀ x high, v.double? = some x → node.maximum = some high → node.exclusiveMaximum → x < high)
    (object : node.kind = .typed .object → v.type = .object) : node.Meets accepts child v where
  kind := fun type kind => by
    by_cases same : type = .object
    · subst same
      exact Or.inl (object kind)
    · obtain ⟨n, member, given⟩ := inherits.kind type kind same
      exact (all n member).kind type given
  listed := fun allowed listed => by
    obtain ⟨n, member, given⟩ := inherits.enumeration allowed listed
    exact (all n member).listed allowed given
  identifier := fun string identifier => by
    obtain ⟨n, member, given⟩ := inherits.format "uuid" (of_decide_eq_true identifier)
    exact (all n member).identifier string (decide_eq_true given)
  pattern := fun string p pattern => by
    obtain ⟨n, member, given⟩ := inherits.pattern p pattern
    exact (all n member).pattern string p given
  length := inherits.length all
  range := inherits.range all least most
  required := fun kind => by
    refine ⟨kind, fun key required => ?_⟩
    obtain ⟨n, member, given⟩ := inherits.required key required
    exact ((all n member).required kind).2 key given
  properties := fun key id w declared found => by
    obtain ⟨n, member, given⟩ := inherits.property (key, id) declared
    exact (all n member).properties key id w given found
  items := fun id vs w items elements inside => by
    obtain ⟨n, member, given⟩ := inherits.items id items
    exact (all n member).items id vs w given elements inside
  variant := fun union => by
    obtain ⟨n, member, kind, fewer⟩ := inherits.union union
    obtain ⟨variant, given, taken⟩ := (all n member).variant kind
    exact ⟨variant, fewer given, taken⟩

theorem Inherits.each_meets (inherits : Inherits nodes node)
    (all : ∀ n ∈ nodes, n.Takes accepts child v) (solid : ¬ (v = .null ∧ node.nullable)) :
    ∀ n ∈ nodes, n.Meets accepts child v := fun n member =>
  (all n member).resolve_left fun null => solid ⟨null.1, inherits.nullable n member null.2⟩

/-- Nothing else is in the way of a value that all the nodes take. -/
theorem Inherits.takes_iff (inherits : Inherits nodes node)
    (all : ∀ n ∈ nodes, n.Takes accepts child v) : node.Takes accepts child v ↔ node.Spares v := by
  constructor
  · rintro (null | meets)
    · exact Or.inl null
    · exact meets.spared
  · rintro (null | ⟨least, most, object⟩)
    · exact Or.inl null
    · by_cases null : v = .null ∧ node.nullable
      · exact Or.inl null
      · exact Or.inr (inherits.meets (inherits.each_meets all null) least most object)

theorem Faithful.spares (faithful : Faithful nodes node) (inherits : Inherits nodes node)
    (all : ∀ n ∈ nodes, n.Takes accepts child v) : node.Spares v := by
  by_cases null : v = .null ∧ node.nullable
  · exact Or.inl null
  · have each := inherits.each_meets all null
    refine Or.inr ⟨fun x low number bound exclusive => ?_, fun x high number bound exclusive => ?_,
      fun kind => ?_⟩
    · obtain ⟨n, member, given, strict⟩ := faithful.minimum low bound exclusive
      simpa [strict] using (each n member).above number given
    · obtain ⟨n, member, given, strict⟩ := faithful.maximum high bound exclusive
      simpa [strict] using (each n member).below number given
    · obtain ⟨n, member, given⟩ := faithful.object kind
      exact (each n member).object given

end takes

end SchemaNode

end HttpPlan
