import HttpPlan.Json.Record
import HttpPlan.Json.Selection
import HttpPlan.OrderedMap

/-! Settings of a planning run. Every setting has a default. -/
namespace HttpPlan

/-- A well-formed web token that no server recognizes. -/
def unrecognizedToken : String :=
  "eyJhbGciOiJIUzI1NiIsInR5cCI6IkpXVCJ9." ++
    "eyJzdWIiOiJhcGlwbGFuLWludmFsaWQiLCJpYXQiOjB9." ++
    "aW52YWxpZC1zaWduYXR1cmUtZm9yLXRlc3Rpbmc"

/-- Credentials of the planned requests. The defaults are request-file variables, so that no
secret need stand in a plan. -/
structure Credentials where
  token : String := "\x7b\x7bauth_token\x7d\x7d"
  /-- Recognized, but lacking the scopes of the operation. -/
  limitedToken : String := "\x7b\x7blimited_token\x7d\x7d"
  invalidToken : String := unrecognizedToken
deriving DecidableEq

structure Config where
  /-- The API description to read. -/
  spec : String := "openapi.yaml"
  baseUrl : String := "http://localhost:8080"
  /-- Headers sent with every request. -/
  headers : OrderedMap String String := ∅
  /-- Fixed values of path parameters. -/
  pathParams : OrderedMap String String := ∅
  credentials : Credentials := {}
  /-- The identifier used where nothing is to be found. -/
  notFoundValue : Option String := none
deriving DecidableEq

/-- A format in which settings may be written. -/
class SettingFormat (α : Type) where
  text? : α → Option String
  isNull : α → Bool
  /-- The entries of a map, in their order. -/
  entries? : α → Option (List (String × α))
  /-- How to find the fields of a record with the given names. -/
  record? : List String → α → Option (String → Option α)

instance : SettingFormat Json where
  text? := Json.string?
  isNull v := v = .null
  entries? := Json.fields?
  record? := Json.record?

/-- A map from names to text. -/
def textMap? {α : Type} [SettingFormat α] (v : α) : Option (OrderedMap String String) := do
  return .ofList (← (← SettingFormat.entries? v).mapM fun (key, v) => do
    return (key, ← SettingFormat.text? v))

def OrderedMap.textJson (m : OrderedMap String String) : Json :=
  .object (m.entries.map fun (key, value) => (key, .string value))

namespace Credentials

def fieldNames : List String := ["token", "limited_token", "invalid_token"]

def read? {α : Type} [SettingFormat α] (v : α) : Option Credentials := do
  let field ← SettingFormat.record? fieldNames v
  let text (standard name : String) : Option String :=
    (field name).elim (some standard) SettingFormat.text?
  let standard : Credentials := {}
  return {
    token := ← text standard.token "token"
    limitedToken := ← text standard.limitedToken "limited_token"
    invalidToken := ← text standard.invalidToken "invalid_token" }

def toJson (c : Credentials) : Json :=
  .object [("token", .string c.token), ("limited_token", .string c.limitedToken),
    ("invalid_token", .string c.invalidToken)]

end Credentials

namespace Config

def fieldNames : List String :=
  ["spec", "base_url", "headers", "path_params", "credentials", "not_found_value"]

/-- The parts of a JSON value that settings are read from. -/
def selection : Json.Selection :=
  .record (fieldNames.map fun name => (name,
    if name = "credentials" then .record (Credentials.fieldNames.map (·, .whole)) else .whole))

def read? {α : Type} [SettingFormat α] (v : α) : Option Config := do
  let field ← SettingFormat.record? fieldNames v
  let setting {β : Type} (name : String) (standard : β) (read : α → Option β) : Option β :=
    (field name).elim (some standard) read
  let standard : Config := {}
  return {
    spec := ← setting "spec" standard.spec SettingFormat.text?
    baseUrl := ← setting "base_url" standard.baseUrl SettingFormat.text?
    headers := ← setting "headers" ∅ textMap?
    pathParams := ← setting "path_params" ∅ textMap?
    credentials := ← setting "credentials" {} Credentials.read?
    notFoundValue := ← setting "not_found_value" none fun v =>
      if SettingFormat.isNull v then some none else (SettingFormat.text? v).map some }

def toJson (c : Config) : Json :=
  .object [("spec", .string c.spec), ("base_url", .string c.baseUrl),
    ("headers", c.headers.textJson), ("path_params", c.pathParams.textJson),
    ("credentials", c.credentials.toJson),
    ("not_found_value", (c.notFoundValue.map .string).getD .null)]

/-- The settings file that a new project starts with. -/
def template : String :=
  "# apiplan configuration\n\n" ++
  "# OpenAPI / Swagger document (local file path, JSON or YAML)\n" ++
  "spec = \"openapi.yaml\"\n\n" ++
  "# Default for \x7b\x7bbase_url\x7d\x7d in generated .http files\n" ++
  "base_url = \"http://localhost:8080\"\n\n" ++
  "# Extra headers sent with every scenario\n" ++
  "[headers]\n" ++
  "# X-Tenant-Id = \"acme\"\n\n" ++
  "# Path parameters (entity IDs known to exist, used by success scenarios)\n" ++
  "[path_params]\n" ++
  "# user_id = \"1\"\n\n" ++
  "# Credentials for secured operations. Defaults are .http variables.\n" ++
  "[credentials]\n" ++
  "token = \"\x7b\x7bauth_token\x7d\x7d\"\n" ++
  "limited_token = \"\x7b\x7blimited_token\x7d\x7d\"\n" ++
  "# invalid_token = \"eyJhbGciOiJIUzI1NiJ9.e30.invalid\"\n\n" ++
  "# Value used by not-found scenarios (default: reserved sentinel)\n" ++
  "# not_found_value = \"does-not-exist\"\n"

end Config

end HttpPlan
