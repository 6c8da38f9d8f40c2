import HttpPlan.BuildError
import HttpPlan.Schema.Arena

/-! The keywords of a schema object that need no other schema: type, format, enumeration, bounds
and documentation. -/
namespace HttpPlan

/-- What the `type` keyword asks for. -/
structure DeclaredType where
  kind : SchemaKind := .unknown
  nullable : Bool := false
  /-- More than one type: each becomes a variant. -/
  variants : List JsonType := []

namespace DeclaredType

def typeNamed (name : String) : Except Construct JsonType :=
  match JsonType.ofName? name with
  | some type => .ok type
  | none => .error (.typeName name)

/-- A list of types. `null` in it makes the schema nullable. -/
def ofTypes (types : List JsonType) : DeclaredType :=
  let nullable := types.contains .null
  match types.filter (· ≠ .null) with
  | [] => { kind := if nullable then .typed .null else .unknown, nullable }
  | [type] => { kind := .typed type, nullable }
  | variants => { kind := .union, nullable, variants }

def ofKeyword : Option Json → Except Construct DeclaredType
  | some (.string name) => do return { kind := .typed (← typeNamed name) }
  | some (.array names) => do return ofTypes (← (names.filterMap Json.string?).mapM typeNamed)
  | _ => .ok {}

end DeclaredType

namespace SchemaNode

/-- A bound and whether it is exclusive. The exclusive keyword is a flag on the plain bound, or
a number that takes its place. -/
def bound (plain exclusive : Option Json) : Option Binary64 × Bool :=
  match exclusive with
  | some (.bool flag) => (plain >>= Json.double?, flag)
  | some (.number n) => (n.toDouble?, true)
  | _ => (plain >>= Json.double?, false)

/-- The kind of a schema without the `type` keyword. -/
def inferredKind (schema : Json) (enumeration : Option (List Json)) : SchemaKind :=
  if (schema.field? "properties").isSome then .typed .object
  else if (schema.field? "items").isSome then .typed .array
  else
    match enumeration with
    | some (first :: _) => .typed first.type
    | _ => .unknown

def enumerationOf (schema : Json) : Option (List Json) :=
  (schema.field? "enum" >>= Json.items?).filter (!·.isEmpty)

def exampleOf (schema : Json) : Option Json :=
  schema.field? "example" <|> (schema.field? "examples" >>= Json.items? >>= List.head?)

/-- A node without children, and the variants that its type list calls for. -/
def ofKeywords (schema : Json) : Except Construct (SchemaNode × List JsonType) := do
  let declared ← DeclaredType.ofKeyword (schema.field? "type")
  let enumeration := enumerationOf schema
  let (minimum, exclusiveMinimum) :=
    bound (schema.field? "minimum") (schema.field? "exclusiveMinimum")
  let (maximum, exclusiveMaximum) :=
    bound (schema.field? "maximum") (schema.field? "exclusiveMaximum")
  let node : SchemaNode := {
    kind :=
      if (schema.field? "type").isNone then inferredKind schema enumeration else declared.kind
    nullable := declared.nullable || schema.field? "nullable" = some (.bool true)
    required := NameSet.ofList
      (((schema.field? "required" >>= Json.items?).getD []).filterMap Json.string?)
    format := schema.stringField? "format"
    pattern := schema.stringField? "pattern"
    description := schema.stringField? "description"
    exampleValue := exampleOf schema
    minLength := schema.field? "minLength" >>= Json.word?
    maxLength := schema.field? "maxLength" >>= Json.word?
    enumeration, minimum, maximum, exclusiveMinimum, exclusiveMaximum }
  return (node, declared.variants)

end SchemaNode

end HttpPlan
