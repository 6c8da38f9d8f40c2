import HttpPlan.Assertion
import HttpPlan.Json.Record

/-! Assertions in the interchange format: an object with the target, the tag of the check and the
fields of the check side by side. -/
namespace HttpPlan

namespace Check

def tag : Check → String
  | isType _ => "is_type"
  | hasRequiredKeys _ => "has_required_keys"
  | enumMembership _ => "enum_membership"
  | matchesPattern _ => "matches_pattern"
  | numericRange .. => "numeric_range"
  | lengthBound .. => "length_bound"

def fields : Check → List (String × Json)
  | isType types => [("types", .array (types.map fun t => .string t.name))]
  | hasRequiredKeys keys => [("keys", .array (keys.map .string))]
  | enumMembership allowed => [("allowed", .array allowed)]
  | matchesPattern pattern => [("pattern", .string pattern)]
  | numericRange minimum maximum exclusiveMinimum exclusiveMaximum =>
    (minimum.toList.map fun m => ("minimum", .number (.float m))) ++
      (maximum.toList.map fun m => ("maximum", .number (.float m))) ++
      (if exclusiveMinimum then [("exclusive_minimum", .bool true)] else []) ++
      (if exclusiveMaximum then [("exclusive_maximum", .bool true)] else [])
  | lengthBound minLength maxLength =>
    (minLength.toList.map fun n => ("min_length", .number (.int n))) ++
      (maxLength.toList.map fun n => ("max_length", .number (.int n)))

/-- Reads a check by its tag. -/
def ofFields? (tag : String) (field : String → Option Json) : Option Check :=
  match tag with
  | "is_type" => do
    let type? (v : Json) := v.alternative? true >>= JsonType.ofName?
    return isType (← (← field "types").listOf? type?)
  | "has_required_keys" => do return hasRequiredKeys (← (← field "keys").listOf? Json.string?)
  | "enum_membership" => do return enumMembership (← (← field "allowed").items?)
  | "matches_pattern" => do return matchesPattern (← (← field "pattern").string?)
  | "numeric_range" => do
    return numericRange
      (← Json.optional? Json.double? (field "minimum"))
      (← Json.optional? Json.double? (field "maximum"))
      (← Json.withDefault? false Json.bool? (field "exclusive_minimum"))
      (← Json.withDefault? false Json.bool? (field "exclusive_maximum"))
  | "length_bound" => do
    return lengthBound
      (← Json.optional? Json.word? (field "min_length"))
      (← Json.optional? Json.word? (field "max_length"))
  | _ => none

end Check

namespace Guard

def tag : Guard → String
  | ifPresent _ => "if_present"
  | ifNonEmptyArray => "is_nonempty_array_then_check_first_item"
  | ifNotNull => "if_not_null"

def fields : Guard → List (String × Json)
  | ifPresent key => [("key", .string key)]
  | _ => []

/-- Reads a guard by its tag. -/
def ofFields? (tag : String) (field : String → Option Json) : Option Guard :=
  match tag with
  | "if_present" => do return ifPresent (← (← field "key").string?)
  | "is_nonempty_array_then_check_first_item" => some ifNonEmptyArray
  | "if_not_null" => some ifNotNull
  | _ => none

end Guard

namespace Assertion

/-- All tags, in the order by which a number stands for one. -/
def tags : List String :=
  ["is_type", "has_required_keys", "enum_membership", "matches_pattern", "numeric_range",
    "length_bound", "if_present", "is_nonempty_array_then_check_first_item", "if_not_null"]

mutual
def toJson : Assertion → Json
  | check target c =>
    .object (("target", target.toJson) :: ("check", .string c.tag) :: c.fields)
  | guarded target guard body =>
    .object (("target", target.toJson) :: ("check", .string guard.tag) :: guard.fields ++
      [("then", .array (listToJson body))])
def listToJson : List Assertion → List Json
  | [] => []
  | a :: rest => toJson a :: listToJson rest
end

mutual
def ofJson? : Json → Option Assertion
  | .object fields => do
    let target ← fields.lookup "target" >>= Locator.ofJson?
    let tag ← fields.lookup "check" >>= Json.tag? tags
    let field (key : String) := fields.lookup key
    match Check.ofFields? tag field with
    | some c => return check target c
    | none => do
      let guard ← Guard.ofFields? tag field
      return guarded target guard (← bodyOf? fields)
  | _ => none
/-- The assertions under `then`. -/
def bodyOf? : List (String × Json) → Option (List Assertion)
  | [] => none
  | (key, v) :: rest =>
    if key = "then" then
      match v with
      | .array items => listOfJson? items
      | _ => none
    else bodyOf? rest
def listOfJson? : List Json → Option (List Assertion)
  | [] => some []
  | v :: rest => do return (← ofJson? v) :: (← listOfJson? rest)
end

end Assertion

end HttpPlan
