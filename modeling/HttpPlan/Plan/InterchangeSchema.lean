import HttpPlan.Json.Printer
import HttpPlan.Plan.Interchange

/-! A JSON Schema of the interchange format, for those who read plans with other tools. Each
alternative of a tagged record is listed under its tag, in the order of the tags. -/
namespace HttpPlan

namespace InterchangeSchema

def type (name : String) : Json := .object [("type", .string name)]

def extended (fields : List (String × Json)) (schema : Json) : Json :=
  .object ((schema.fields?.getD []) ++ fields)

def described (text : String) (schema : Json) : Json :=
  .object (("description", .string text) :: schema.fields?.getD [])

def text : Json := type "string"

def nullable (name : String) : Json :=
  .object [("type", .array [.string name, .string "null"])]

def word (width : String) (schema : Json) : Json :=
  extended [("format", .string width), ("minimum", .number (.int 0))] schema

def listOf (items : Json) : Json := extended [("items", items)] (type "array")

def textMap : Json := extended [("additionalProperties", text)] (type "object")

def definition (name : String) : Json := .object [("$ref", .string ("#/$defs/" ++ name))]

/-- A list that may be left out. -/
def optionalList (items : Json) : Json := extended [("default", .array [])] (listOf items)

def oneOfNames (names : List String) : Json :=
  extended [("enum", .array (names.map .string))] text

def constant (value : String) : Json := extended [("const", .string value)] text

def record (properties : List (String × Json)) (required : List String) : Json :=
  extended [("properties", .object properties), ("required", .array (required.map .string))]
    (type "object")

/-- An alternative under its tag. -/
def alternative (tagName tag : String) (properties : List (String × Json))
    (required : List String) : Json :=
  record ((tagName, constant tag) :: properties) (tagName :: required)

def scenarioKind (tag : String) : Json :=
  let kind := alternative "kind" tag
  match tag with
  | "missing_required_parameter" =>
    kind [("parameter", text), ("location", definition "ParamLocation")] ["parameter", "location"]
  | "not_found" => kind [("parameter", text)] ["parameter"]
  | _ => kind [] []

def check (tag : String) : Json :=
  let check := alternative "check" tag
  let body : String × Json := ("then", listOf (definition "Assertion"))
  match tag with
  | "is_type" =>
    described "Value is one of the listed types (`object` alone means non-null object)"
      (check [("types", listOf (definition "JsonType"))] ["types"])
  | "has_required_keys" => check [("keys", listOf text)] ["keys"]
  | "enum_membership" => check [("allowed", listOf (.bool true))] ["allowed"]
  | "matches_pattern" => check [("pattern", text)] ["pattern"]
  | "numeric_range" =>
    let bound := extended [("format", .string "double")] (nullable "number")
    check [("minimum", bound), ("maximum", bound), ("exclusive_minimum", type "boolean"),
      ("exclusive_maximum", type "boolean")] []
  | "length_bound" =>
    let bound := word "uint64" (nullable "integer")
    check [("min_length", bound), ("max_length", bound)] []
  | "if_present" =>
    described "Target is an object; run `then` only if it carries the optional `key`"
      (check [("key", text), body] ["key", "then"])
  | "is_nonempty_array_then_check_first_item" =>
    described "Target is an array; run `then` (addressed at index 0) only if it is non-empty"
      (check [body] ["then"])
  | _ =>
    described "Target is nullable; run `then` only if it is not null" (check [body] ["then"])

def operationPlan : Json :=
  described "Scenarios for one operation, in emission order." <|
    record
      [("operation", text),
        ("method", text),
        ("path", described "Path template" text),
        ("operation_id", nullable "string"),
        ("summary", described "Comment material only" (nullable "string")),
        ("tags", listOf text),
        ("scenarios", listOf (definition "ScenarioPlan"))]
      ["operation", "method", "path", "scenarios"]

def scenarioPlan : Json :=
  let status := extended [("maximum", .number (.int 65535))] (word "uint16" (type "integer"))
  described "One fully resolved test case." <|
    extended [("oneOf", .array (ScenarioKind.tags.map scenarioKind))] <|
      record
        [("operation", described "Operation label, e.g. \"GET /widgets/\x7bid\x7d\"" text),
          ("name", described "Test title: operation label + kind description" text),
          ("request", definition "RequestPlan"),
          ("expected_status", status),
          ("assertions", described "Body-shape checks; empty for negative scenarios"
            (listOf (definition "Assertion")))]
        ["operation", "name", "request", "expected_status"]

def requestPlan : Json :=
  described "A fully resolved HTTP request." <|
    record
      [("method", text),
        ("path", described "Resolved path, placeholders substituted and percent-encoded" text),
        ("query", textMap),
        ("headers", textMap),
        ("body", .bool true)]
      ["method", "path"]

def assertion : Json :=
  described "What to check at an assertion's target." <|
    extended [("oneOf", .array (Assertion.tags.map check))] <|
      record [("target", definition "Locator")] ["target"]

def locator : Json :=
  described ("Path into the response body; empty means the root.\n\n" ++
    "Serialized as a segment list (`[\"data\", 0, \"id\"]`), displayed as `$.data[0].id`.") <|
    listOf (definition "LocatorSegment")

def locatorSegment : Json :=
  .object
    [("description", .string "One step from a value into a child: object key or array index."),
      ("anyOf", .array [text, word "uint" (type "integer")])]

def skippedEntry : Json :=
  described "An operation left out of the plan and why." <|
    record [("operation", text), ("reason", text)] ["operation", "reason"]

def diagnostic : Json :=
  described "A single localized problem report." <|
    record
      [("severity", definition "Severity"),
        ("operation", described
          "Operation label (\"GET /widgets/\x7bid\x7d\"), absent for document-level findings"
          (nullable "string")),
        ("message", text)]
      ["severity", "message"]

def severity : Json :=
  let level (s : Severity) (meaning : String) := described meaning (constant s.name)
  .object
    [("description", .string "Diagnostic severity - maps directly to exit codes"),
      ("oneOf", .array
        [level .info "Informational, e.g. an ignored parameter location (exit 0)",
          level .warning
            "Best-effort value or partially honored construct (exit 0, or 1 if --strict)",
          level .error "Operation skipped (exit 1)"])]

def definitions : List (String × Json) :=
  [("OperationPlan", operationPlan),
    ("ScenarioPlan", scenarioPlan),
    ("ParamLocation", described "Where a parameter travels in the request."
      (oneOfNames ["path", "query", "header"])),
    ("RequestPlan", requestPlan),
    ("Assertion", assertion),
    ("Locator", locator),
    ("LocatorSegment", locatorSegment),
    ("JsonType", oneOfNames
      ["object", "array", "string", "number", "integer", "boolean", "null"]),
    ("SkippedEntry", skippedEntry),
    ("Diagnostic", diagnostic),
    ("Severity", severity)]

end InterchangeSchema

open InterchangeSchema in
/-- The schema of a whole plan. -/
def TestPlan.jsonSchema : Json :=
  let plan := record
    [("title", nullable "string"),
      ("version", nullable "string"),
      ("operations", listOf (definition "OperationPlan")),
      ("skipped", optionalList (definition "SkippedEntry")),
      ("diagnostics", optionalList (definition "Diagnostic"))]
    ["operations"]
  .object <|
    [("$schema", .string "https://json-schema.org/draft/2020-12/schema"),
      ("title", .string "TestPlan"),
      ("description", .string "Complete test plan for a document.")] ++
    plan.fields?.getD [] ++
    [("$defs", .object definitions)]

end HttpPlan
