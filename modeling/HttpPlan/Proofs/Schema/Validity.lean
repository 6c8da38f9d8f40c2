import HttpPlan.Proofs.Assertion.Conformance
import HttpPlan.Spec.Reference
import Mathlib.Logic.Relation

/-! Which values are valid for a schema of a document, by its keywords, and which a node of an arena
allows, by its fields. A keyword binds only the values of the type it speaks of, and patterns are
left to a predicate that says which texts they take. -/
namespace HttpPlan

variable (accepts : String → String → Prop)

namespace Json

/-- Null is taken by a flag, or as one of several types. -/
def AllowsNull (schema : Json) : Prop :=
  schema.field? "nullable" = some (.bool true) ∨
    ∃ names, schema.field? "type" = some (.array names) ∧ .string "null" ∈ names

/-- The type is the one declared or one of those listed; a list without a name declares nothing.
Where nothing is declared, the keywords of objects and of arrays tell the type. -/
def AllowsType (schema v : Json) : Prop :=
  match schema.field? "type" with
  | some (.string name) => ∃ type, JsonType.ofName? name = some type ∧ v.HasType type
  | some (.array names) =>
    (∃ name, .string name ∈ names) →
      ∃ name type, .string name ∈ names ∧ JsonType.ofName? name = some type ∧ v.HasType type
  | some _ => True
  | none =>
    if (schema.field? "properties").isSome then v.type = .object
    else (schema.field? "items").isSome → v.type = .array

/-- A bound on numbers: the plain keyword, which a flag makes exclusive, and the exclusive keyword
with a number of its own. -/
def Bounded (schema : Json) (plain exclusive : String) (reaches passes : Binary64 → Prop) : Prop :=
  ∀ limit,
    ((schema.field? plain >>= double?) = some limit →
      reaches limit ∧ (schema.field? exclusive = some (.bool true) → passes limit)) ∧
    ((schema.field? exclusive >>= double?) = some limit → passes limit)

/-- The keywords that need no other schema. -/
structure MeetsKeywords (schema v : Json) : Prop where
  type : schema.AllowsType v
  listed : ∀ allowed, schema.field? "enum" = some (.array allowed) → allowed ≠ [] → v ∈ allowed
  minimum : ∀ x, v.double? = some x →
    schema.Bounded "minimum" "exclusiveMinimum" (· ≤ x) (· < x)
  maximum : ∀ x, v.double? = some x →
    schema.Bounded "maximum" "exclusiveMaximum" (x ≤ ·) (x < ·)
  minLength : ∀ text length, v = .string text →
    (schema.field? "minLength" >>= word?) = some length → length ≤ text.length
  maxLength : ∀ text length, v = .string text →
    (schema.field? "maxLength" >>= word?) = some length → text.length ≤ length
  pattern : ∀ text p, v = .string text → schema.stringField? "pattern" = some p → accepts p text
  required : ∀ keys key, schema.field? "required" = some (.array keys) → .string key ∈ keys →
    v.type = .object → (v.field? key).isSome

/-- The keywords that list schemas of which one is to be met. -/
def alternativeKeywords : List String := ["oneOf", "anyOf"]

/-- The values that are valid for a schema of the document `root`. Beside a reference no keyword
counts. -/
inductive ValidFor (root : Json) : Json → Json → Prop
  | reference {schema target v : Json} {pointer : String}
      (follows : schema.reference? = some pointer) (found : root.lookup pointer = .ok target)
      (valid : ValidFor root target v) : ValidFor root schema v
  | null {schema : Json} (plain : schema.reference? = none) (allows : schema.AllowsNull) :
      ValidFor root schema .null
  | keywords {schema v : Json} (plain : schema.reference? = none)
      (meets : schema.MeetsKeywords accepts v)
      (properties : ∀ fields name part w, schema.field? "properties" = some (.object fields) →
        (name, part) ∈ fields → v.field? name = some w → ValidFor root part w)
      (items : ∀ part vs w, schema.field? "items" = some part → v.items? = some vs → w ∈ vs →
        ValidFor root part w)
      (chosen : String → Json)
      (given : ∀ keyword ∈ alternativeKeywords, ∀ parts,
        schema.field? keyword = some (.array parts) → chosen keyword ∈ parts)
      (alternatives : ∀ keyword ∈ alternativeKeywords, ∀ parts,
        schema.field? keyword = some (.array parts) → ValidFor root (chosen keyword) v) :
      ValidFor root schema v

/-- A schema leads to what it refers to, or else to the schemas under its keywords, save those that
it merges. -/
inductive LeadsTo (root : Json) : Json → Json → Prop
  | reference {schema target : Json} {pointer : String}
      (follows : schema.reference? = some pointer) (found : root.lookup pointer = .ok target) :
      LeadsTo root schema target
  | property {schema part : Json} {fields : List (String × Json)} {name : String}
      (plain : schema.reference? = none)
      (object : schema.field? "properties" = some (.object fields))
      (member : (name, part) ∈ fields) : LeadsTo root schema part
  | items {schema part : Json} (plain : schema.reference? = none)
      (given : schema.field? "items" = some part) : LeadsTo root schema part
  | alternative {schema part : Json} {keyword : String} {parts : List Json}
      (plain : schema.reference? = none) (known : keyword ∈ alternativeKeywords)
      (given : schema.field? keyword = some (.array parts)) (member : part ∈ parts) :
      LeadsTo root schema part

/-- No schema that can be reached merges parts. -/
def Unmerged (root schema : Json) : Prop :=
  ∀ part, Relation.ReflTransGen (LeadsTo root) schema part → part.reference? = none →
    ∀ parts, part.field? "allOf" ≠ some (.array parts)

variable {root schema part : Json}

theorem Unmerged.onward (unmerged : root.Unmerged schema) (leads : LeadsTo root schema part) :
    root.Unmerged part :=
  fun other reached => unmerged other (.head leads reached)

end Json

/-- The fields of a node that need no other node. -/
structure SchemaNode.Bears (node : SchemaNode) (v : Json) : Prop where
  kind : ∀ type, node.kind = .typed type → v.HasType type
  minimum : ∀ x low, v.double? = some x → node.minimum = some low →
    if node.exclusiveMinimum then low < x else low ≤ x
  maximum : ∀ x high, v.double? = some x → node.maximum = some high →
    if node.exclusiveMaximum then x < high else x ≤ high
  minLength : ∀ text length, v = .string text → node.minLength = some length →
    length ≤ text.length
  maxLength : ∀ text length, v = .string text → node.maxLength = some length →
    text.length ≤ length
  pattern : ∀ text p, v = .string text → node.pattern = some p → accepts p text
  required : ∀ key ∈ node.required.names, v.type = .object → (v.field? key).isSome

/-- A nullable node allows null, and one that lists values allows no others. Every other node goes
by all of its fields and, as a union, by one of its variants. -/
inductive SchemaArena.Allows (arena : SchemaArena) : SchemaId → Json → Prop
  | null {id : SchemaId} (nullable : (arena.node id).nullable) : Allows arena id .null
  | listed {id : SchemaId} {v : Json} {allowed : List Json}
      (listed : (arena.node id).enumeration = some allowed) (member : v ∈ allowed) :
      Allows arena id v
  | fields {id : SchemaId} {v : Json} (unlisted : (arena.node id).enumeration = none)
      (bears : (arena.node id).Bears accepts v)
      (properties : ∀ key child w, (key, child) ∈ (arena.node id).properties.entries →
        v.field? key = some w → Allows arena child w)
      (items : ∀ child vs w, (arena.node id).items = some child → v.items? = some vs → w ∈ vs →
        Allows arena child w)
      (chosen : SchemaId)
      (given : (arena.node id).kind = .union → chosen ∈ (arena.node id).variants)
      (variant : (arena.node id).kind = .union → Allows arena chosen v) : Allows arena id v

end HttpPlan
