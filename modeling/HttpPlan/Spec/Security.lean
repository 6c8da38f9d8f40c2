import HttpPlan.Spec.Document

/-! Security schemes and requirements of a document. -/
namespace HttpPlan

namespace SecurityScheme

/-- The scheme of HTTP authentication, whose name ignores ASCII case. -/
def ofHttp (scheme : Option String) : SecurityScheme :=
  match scheme.map String.toLower with
  | some "basic" => basic
  | some "bearer" => bearer
  | some name => other ("http " ++ name)
  | none => other "http"

def keyLocation (name : Option String) : KeyLocation :=
  match name with
  | some "query" => .query
  | some "cookie" => .cookie
  | _ => .header

def ofJson (v : Json) : SecurityScheme :=
  match (v.stringField? "type").getD "" with
  | "http" => ofHttp (v.stringField? "scheme")
  | "basic" => basic
  | "apiKey" =>
    apiKey (keyLocation (v.stringField? "in")) ((v.stringField? "name").getD "X-API-Key")
  | "oauth2" => oauth2
  | "openIdConnect" => openIdConnect
  | type => other type

/-- The declared schemes, from either generation of the format. -/
def declared (root : Json) : OrderedMap String SecurityScheme :=
  let schemes := root.field? "components" >>= (·.field? "securitySchemes")
  match (schemes <|> root.field? "securityDefinitions") >>= Json.fields? with
  | some fields => OrderedMap.ofList (fields.map fun (name, v) => (name, ofJson v))
  | none => ∅

end SecurityScheme

/-- Scheme names over all requirement alternatives, in order. An empty alternative makes
authentication optional, which counts as public. -/
def requiredSchemes (v : Json) : List String :=
  match v with
  | .array alternatives =>
    let alternatives := alternatives.filterMap Json.fields?
    if alternatives.any List.isEmpty then []
    else (alternatives.flatMap (·.map Prod.fst)).eraseDups
  | _ => []

end HttpPlan
