import HttpPlan.Binary64

/-! JSON values. Objects keep the order in which their fields were written. A number is an
integer when it was written as one and fits 64 bits, signed or unsigned, and a double otherwise. -/
namespace HttpPlan

inductive Number where
  | int (n : Int)
  | float (x : Binary64)
deriving DecidableEq

inductive Json where
  | null
  | bool (b : Bool)
  | number (n : Number)
  | string (s : String)
  | array (items : List Json)
  | object (fields : List (String × Json))

namespace Number

def isWord (n : Int) : Bool := Int64.minValue.toInt ≤ n && n < UInt64.size

/-- The nearest double; it exists for every integer of at most 64 bits. -/
def toDouble? : Number → Option Binary64
  | int n => Binary64.ofInt? n
  | float x => some x

end Number

namespace Json

instance : Inhabited Json := ⟨null⟩

mutual
def decEq : (a b : Json) → Decidable (a = b)
  | .null, .null => isTrue rfl
  | .bool a, .bool b =>
    if h : a = b then isTrue (h ▸ rfl) else isFalse (fun e => by cases e; exact h rfl)
  | .number a, .number b =>
    if h : a = b then isTrue (h ▸ rfl) else isFalse (fun e => by cases e; exact h rfl)
  | .string a, .string b =>
    if h : a = b then isTrue (h ▸ rfl) else isFalse (fun e => by cases e; exact h rfl)
  | .array a, .array b =>
    match decEqItems a b with
    | isTrue h => isTrue (h ▸ rfl)
    | isFalse h => isFalse (fun e => by cases e; exact h rfl)
  | .object a, .object b =>
    match decEqFields a b with
    | isTrue h => isTrue (h ▸ rfl)
    | isFalse h => isFalse (fun e => by cases e; exact h rfl)
  | .null, .bool _ | .null, .number _ | .null, .string _ | .null, .array _ | .null, .object _
  | .bool _, .null | .bool _, .number _ | .bool _, .string _ | .bool _, .array _
  | .bool _, .object _
  | .number _, .null | .number _, .bool _ | .number _, .string _ | .number _, .array _
  | .number _, .object _
  | .string _, .null | .string _, .bool _ | .string _, .number _ | .string _, .array _
  | .string _, .object _
  | .array _, .null | .array _, .bool _ | .array _, .number _ | .array _, .string _
  | .array _, .object _
  | .object _, .null | .object _, .bool _ | .object _, .number _ | .object _, .string _
  | .object _, .array _ => isFalse (fun e => by cases e)
def decEqItems : (a b : List Json) → Decidable (a = b)
  | [], [] => isTrue rfl
  | [], _ :: _ => isFalse (fun e => by cases e)
  | _ :: _, [] => isFalse (fun e => by cases e)
  | a :: as, b :: bs =>
    match decEq a b, decEqItems as bs with
    | isTrue h, isTrue hs => isTrue (h ▸ hs ▸ rfl)
    | isFalse h, _ => isFalse (fun e => by cases e; exact h rfl)
    | _, isFalse h => isFalse (fun e => by cases e; exact h rfl)
def decEqFields : (a b : List (String × Json)) → Decidable (a = b)
  | [], [] => isTrue rfl
  | [], _ :: _ => isFalse (fun e => by cases e)
  | _ :: _, [] => isFalse (fun e => by cases e)
  | (j, a) :: as, (k, b) :: bs =>
    if h : j = k then
      match decEq a b, decEqFields as bs with
      | isTrue ha, isTrue hs => isTrue (h ▸ ha ▸ hs ▸ rfl)
      | isFalse ha, _ => isFalse (fun e => by cases e; exact ha rfl)
      | _, isFalse hs => isFalse (fun e => by cases e; exact hs rfl)
    else isFalse (fun e => by cases e; exact h rfl)
end

instance : DecidableEq Json := decEq

def fields? : Json → Option (List (String × Json))
  | object fields => some fields
  | _ => none

def items? : Json → Option (List Json)
  | array items => some items
  | _ => none

def string? : Json → Option String
  | string s => some s
  | _ => none

def bool? : Json → Option Bool
  | bool b => some b
  | _ => none

/-- A number as a double. -/
def double? : Json → Option Binary64
  | number n => n.toDouble?
  | _ => none

/-- A whole number of at most 64 bits that is not negative. -/
def word? : Json → Option Nat
  | number (.int n) => if 0 ≤ n && n < UInt64.size then some n.toNat else none
  | _ => none

/-- The field of an object; anything else has no fields. -/
def field? (v : Json) (key : String) : Option Json :=
  match v with
  | object fields => fields.lookup key
  | _ => none

/-- The element of an array; anything else has no elements. -/
def item? (v : Json) (index : Nat) : Option Json :=
  match v with
  | array items => items[index]?
  | _ => none

def stringField? (v : Json) (key : String) : Option String := v.field? key >>= string?

/-- Sets a field: an existing key keeps its place and takes the new value. -/
def setField (key : String) (v : Json) : List (String × Json) → List (String × Json)
  | [] => [(key, v)]
  | (k, old) :: rest => if k = key then (k, v) :: rest else (k, old) :: setField key v rest

mutual
/-- Merges repeated keys at every level: the last value wins, at the place of the first. -/
def distinct : Json → Json
  | array items => array (distinctItems items)
  | object fields => object (distinctFields fields [])
  | v => v
def distinctItems : List Json → List Json
  | [] => []
  | v :: rest => distinct v :: distinctItems rest
def distinctFields : List (String × Json) → List (String × Json) → List (String × Json)
  | [], done => done
  | (key, v) :: rest, done => distinctFields rest (setField key (distinct v) done)
end

end Json

/-! The types of JSON values. An integer is told apart from other numbers. -/

inductive JsonType where
  | object
  | array
  | string
  | number
  | integer
  | boolean
  | null
deriving DecidableEq, Repr

namespace JsonType

def name : JsonType → String
  | object => "object"
  | array => "array"
  | string => "string"
  | number => "number"
  | integer => "integer"
  | boolean => "boolean"
  | null => "null"

def all : List JsonType := [object, array, string, number, integer, boolean, null]

def ofName? (s : String) : Option JsonType := all.find? (·.name = s)

def isNumeric : JsonType → Bool
  | number | integer => true
  | _ => false

end JsonType

/-- The narrowest type of a value. -/
def Json.type : Json → JsonType
  | null => .null
  | bool _ => .boolean
  | number (.int _) => .integer
  | number (.float _) => .number
  | string _ => .string
  | array _ => .array
  | object _ => .object

end HttpPlan
