import HttpPlan.Schema.Keywords

/-! What is to be done to build the node of a schema object: the node that its own keywords give,
and then one step after another, each of which may need the place of a child. -/
namespace HttpPlan

/-- Where the place of a child comes from. -/
inductive Child where
  | fresh (node : SchemaNode)
  | walked (schema : Json) (location : String)

/-- What a child is to its node. -/
inductive Role where
  | variant
  | property (name : String)
  | items
  /-- A part of `allOf`, at its location. -/
  | part (location : String)
  /-- A part of `oneOf` or `anyOf`. -/
  | alternative

inductive Step where
  | refuse (error : BuildError)
  | child (role : Role) (child : Child)
  /-- Ends `allOf`. -/
  | settle
  /-- Ends `oneOf` or `anyOf`. -/
  | unite

namespace Step

/-- The children of a schema object by its own keywords: a variant for each of several types, the
properties in order, and the element type of an array, an unconstrained one where none is given. -/
def ofKeywords (schema : Json) (location : String) (kind : SchemaKind) (types : List JsonType) :
    List Step :=
  let variants := types.map fun type => child .variant (.fresh (.ofKind (.typed type)))
  let properties := ((schema.field? "properties" >>= Json.fields?).getD []).map fun (name, value) =>
    child (.property name) (.walked value (location ++ "/properties/" ++ name))
  let items :=
    if kind = .typed .array then
      [child .items
        (match schema.field? "items" with
          | some value => .walked value (location ++ "/items")
          | none => .fresh {})]
    else []
  variants ++ properties ++ items

def partLocation (location keyword : String) (index : Nat) : String :=
  location ++ "/" ++ keyword ++ "/" ++ toString index

def ofParts (location : String) : Option Json → List Step
  | some (.array parts) =>
    parts.zipIdx.map (fun (value, index) =>
      let location := partLocation location "allOf" index
      child (.part location) (.walked value location)) ++ [settle]
  | _ => []

def ofAlternatives (location keyword : String) : Option Json → List Step
  | some (.array []) => [refuse (.unsupportedConstruct location (.emptyAlternatives keyword))]
  | some (.array parts) =>
    parts.zipIdx.map (fun (value, index) =>
      child .alternative (.walked value (partLocation location keyword index))) ++ [unite]
  | _ => []

end Step

/-- The node that a schema's keywords give, and the steps that finish it. Anything but an object is
unconstrained. -/
def Json.blueprint (schema : Json) (location : String) : SchemaNode × List Step :=
  match schema with
  | .object _ =>
    if (schema.field? "not").isSome then
      ({}, [.refuse (.unsupportedConstruct location .negation)])
    else
      match SchemaNode.ofKeywords schema with
      | .error construct => ({}, [.refuse (.unsupportedConstruct location construct)])
      | .ok (node, types) =>
        (node,
          Step.ofKeywords schema location node.kind types ++
          Step.ofParts location (schema.field? "allOf") ++
          Step.ofAlternatives location "oneOf" (schema.field? "oneOf") ++
          Step.ofAlternatives location "anyOf" (schema.field? "anyOf"))
  | _ => ({}, [])

end HttpPlan
