import HttpPlan.Json

/-! Reading records from JSON. A record is an object, or an array of its fields in their order,
from which fields may be missing at the end. Unknown fields of an object are ignored. -/
namespace HttpPlan.Json

/-- Whether some of the names is used twice. -/
def repeats (names : List String) (fields : List (String × Json)) : Bool :=
  names.any fun name => 1 < (fields.filter (·.1 = name)).length

/-- How to find the fields of a record with the given names. A field that is written twice, and
an element too many, make it no record. -/
def record? (names : List String) : Json → Option (String → Option Json)
  | object fields => if repeats names fields then none else some (List.lookup · fields)
  | array items =>
    if names.length < items.length then none else some (List.lookup · (names.zip items))
  | _ => none

/-- Reads a field that may be left out or null. -/
def optional? {α : Type} (read : Json → Option α) : Option Json → Option (Option α)
  | none | some null => some none
  | some v => (read v).map some

/-- Reads a field that may be left out, but is not null. -/
def withDefault? {α : Type} (default : α) (read : Json → Option α) : Option Json → Option α
  | none => some default
  | some v => read v

/-- A list of values of one form. -/
def listOf? {α : Type} (read : Json → Option α) (v : Json) : Option (List α) :=
  v.items? >>= (·.mapM read)

/-- The name of a plain alternative: a string, or an object with that one field holding null.
Inside a tagged record the field may also hold an empty object. -/
def alternative? (tagged : Bool) : Json → Option String
  | string name => some name
  | object [(name, null)] => some name
  | object [(name, object [])] => if tagged then some name else none
  | _ => none

/-- The tag of a tagged record: one of the names, or its position among them. -/
def tag? (names : List String) (v : Json) : Option String :=
  match v with
  | string name => if names.contains name then some name else none
  | v => v.word? >>= (names[·]?)

end HttpPlan.Json
