import HttpPlan.BuildError
import HttpPlan.Schema.Arena

/-! Folding the parts of `allOf` into one node. Object parts add their properties and required
names; a part of another kind lends the node its kind and whatever the node leaves open. -/
namespace HttpPlan.SchemaNode

def isObjectLike (node : SchemaNode) : Bool :=
  node.kind = .typed .object || node.kind = .unknown

/-- Adds a part that is an object or unconstrained. -/
def absorbObject (node part : SchemaNode) : Except Construct SchemaNode :=
  let merged := { node with
    properties := part.properties.entries.foldl (fun m e => m.insert e.1 e.2) node.properties
    required := node.required.union part.required
    nullable := node.nullable || part.nullable }
  if part.kind = .typed .object || !part.properties.isEmpty then
    if node.isObjectLike then .ok { merged with kind := .typed .object }
    else .error .objectAndOtherParts
  else .ok merged

/-- Adds a part of another kind. What the node has already is kept. -/
def absorbOther (node part : SchemaNode) : Except Construct SchemaNode :=
  if node.kind = part.kind || (node.kind = .unknown && node.properties.isEmpty) then
    .ok { node with
      kind := part.kind
      items := node.items <|> part.items
      variants := node.variants ++ part.variants
      format := node.format <|> part.format
      pattern := node.pattern <|> part.pattern
      enumeration := node.enumeration <|> part.enumeration
      minimum := node.minimum <|> part.minimum
      maximum := node.maximum <|> part.maximum
      exclusiveMinimum := node.exclusiveMinimum || part.exclusiveMinimum
      exclusiveMaximum := node.exclusiveMaximum || part.exclusiveMaximum
      minLength := node.minLength <|> part.minLength
      maxLength := node.maxLength <|> part.maxLength
      nullable := node.nullable || part.nullable }
  else .error .incompatibleParts

def absorb (node part : SchemaNode) : Except Construct SchemaNode := do
  let merged ← if part.isObjectLike then absorbObject node part else absorbOther node part
  return { merged with name := merged.name <|> part.name }

/-- Objects have no element type. -/
def dropObjectItems (node : SchemaNode) : SchemaNode :=
  if node.kind = .typed .object then { node with items := none } else node

/-- Any of the node's variants, and nothing by itself. -/
def asUnion (node : SchemaNode) : SchemaNode :=
  { node with kind := .union, properties := ∅, items := none }

end HttpPlan.SchemaNode
