import HttpPlan.Json
import HttpPlan.Text

/-! Reading JSON text. The grammar is the strict one: no comments, no trailing commas, no raw
control characters in strings, surrogate escapes in pairs only, and at most 127 containers inside
each other. `read?` keeps repeated keys as written. -/
namespace HttpPlan

namespace Binary64

/-- Scales by a power of ten in rounded steps, at most 308 places at a time. -/
def scaleTen? (x : Binary64) (exponent : Int) : Option Binary64 :=
  if 308 < exponent then (if x.units = 0 then some x else none)
  else if 0 ≤ exponent then ofDecimal? false 1 exponent >>= x.mul?
  else shrink (exponent.natAbs / 308) x exponent
where
  /-- Negative powers, `308` places for each of `rounds`. -/
  shrink : Nat → Binary64 → Int → Option Binary64
    | 0, x, exponent => ofDecimal? false 1 (-exponent) >>= x.div?
    | rounds + 1, x, exponent =>
      if -308 ≤ exponent then ofDecimal? false 1 (-exponent) >>= x.div?
      else if x.units = 0 then some x
      else do shrink rounds (← ofDecimal? false 1 308 >>= x.div?) (exponent + 308)

end Binary64

namespace Number

/-- Reads digits into a significand of at most 64 bits; gives it with the digits left over. -/
def significand : Nat → List Char → Nat × List Char
  | n, [] => (n, [])
  | n, c :: rest =>
    let next := n * 10 + (c.toNat - '0'.toNat)
    if next < UInt64.size then significand next rest else (n, c :: rest)

/-- The double of a literal: the leading digits that fit 64 bits are rounded to a double, which
is then scaled by the power of ten. -/
def decimal? (negative : Bool) (whole fraction : List Char) (exponent : Int) : Option Binary64 :=
  let (n, left) := significand 0 whole
  let (n, unread) := significand n fraction
  let places : Int := left.length - (fraction.length - unread.length : Nat)
  let scaled := do (← Binary64.ofInt? n).scaleTen? (exponent + places)
  scaled.map fun x => if negative then x.neg else x

/-- An integer that fits 64 bits stays one; a negative zero is a double. -/
def ofLiteral? (negative : Bool) (whole : List Char) (fraction : Option (List Char))
    (exponent : Option Int) : Option Number :=
  let n : Int := (significand 0 whole).1
  let signed := if negative then -n else n
  if fraction.isNone && exponent.isNone && (significand 0 whole).2.isEmpty &&
      isWord signed && !(negative && n = 0) then
    some (.int signed)
  else
    (decimal? negative whole (fraction.getD []) (exponent.getD 0)).map .float

end Number

namespace Json.Reader

def skipBlank (cs : List Char) : List Char :=
  cs.dropWhile fun c => c = ' ' || c = '\n' || c = '\t' || c = '\r'

/-- Decimal digits from the front. -/
def digits (cs : List Char) : List Char × List Char := cs.span Char.isDigit

def toNat (cs : List Char) : Nat := cs.foldl (fun n c => n * 10 + (c.toNat - '0'.toNat)) 0

def fractionPart : List Char → Option (Option (List Char) × List Char)
  | '.' :: rest =>
    match digits rest with
    | ([], _) => none
    | (ds, rest) => some (some ds, rest)
  | cs => some (none, cs)

def exponentDigits (negative : Bool) (cs : List Char) : Option (Option Int × List Char) :=
  match digits cs with
  | ([], _) => none
  | (ds, rest) => some (some (if negative then -(toNat ds : Int) else toNat ds), rest)

def exponentPart : List Char → Option (Option Int × List Char)
  | 'e' :: '-' :: rest | 'E' :: '-' :: rest => exponentDigits true rest
  | 'e' :: '+' :: rest | 'E' :: '+' :: rest => exponentDigits false rest
  | 'e' :: rest | 'E' :: rest => exponentDigits false rest
  | cs => some (none, cs)

/-- A number after its sign. A zero is not followed by further digits. -/
def number (negative : Bool) (cs : List Char) : Option (Number × List Char) :=
  match digits cs with
  | ([], _) => none
  | ('0' :: _ :: _, _) => none
  | (whole, rest) => do
    let (fraction, rest) ← fractionPart rest
    let (exponent, rest) ← exponentPart rest
    let n ← Number.ofLiteral? negative whole fraction exponent
    return (n, rest)

def hex4 : List Char → Option (Nat × List Char)
  | a :: b :: c :: d :: rest => (Radix.nat? 16 [a, b, c, d]).map (·, rest)
  | _ => none

/-- The character of a `\u` escape. A leading surrogate needs its trailing one at once. -/
def unicodeEscape (cs : List Char) : Option (Char × List Char) := do
  let (n, rest) ← hex4 cs
  if 0xD800 ≤ n ∧ n < 0xDC00 then
    match rest with
    | '\\' :: 'u' :: rest =>
      let (low, rest) ← hex4 rest
      if 0xDC00 ≤ low ∧ low < 0xE000 then
        return (Char.ofNat (0x10000 + (n - 0xD800) * 0x400 + (low - 0xDC00)), rest)
      else none
    | _ => none
  else if 0xDC00 ≤ n ∧ n < 0xE000 then none
  else return (Char.ofNat n, rest)

def simpleEscape : Char → Option Char
  | '"' => some '"'
  | '\\' => some '\\'
  | '/' => some '/'
  | 'b' => some '\x08'
  | 'f' => some '\x0c'
  | 'n' => some '\n'
  | 'r' => some '\r'
  | 't' => some '\t'
  | _ => none

/-- Adds the characters up to the closing quote to those of `done`, which is kept in reverse.
`fuel` bounds how many are read. -/
def chars : Nat → List Char → List Char → Option (List Char × List Char)
  | 0, _, _ => none
  | fuel + 1, done, cs =>
    match cs with
    | [] => none
    | '"' :: rest => some (done.reverse, rest)
    | '\\' :: 'u' :: rest =>
      match unicodeEscape rest with
      | some (c, rest) => chars fuel (c :: done) rest
      | none => none
    | '\\' :: e :: rest =>
      match simpleEscape e with
      | some c => chars fuel (c :: done) rest
      | none => none
    | c :: rest => if c.toNat < 32 ∨ c = '\\' then none else chars fuel (c :: done) rest

def text (cs : List Char) : Option (String × List Char) :=
  (chars (cs.length + 1) [] cs).map fun (s, rest) => (String.ofList s, rest)

mutual
/-- A value. `depth` is how many more containers may be opened; `fuel` bounds the values read. -/
def value : Nat → Nat → List Char → Option (Json × List Char)
  | 0, _, _ => none
  | fuel + 1, depth, cs =>
    match skipBlank cs with
    | 'n' :: 'u' :: 'l' :: 'l' :: rest => some (.null, rest)
    | 't' :: 'r' :: 'u' :: 'e' :: rest => some (.bool true, rest)
    | 'f' :: 'a' :: 'l' :: 's' :: 'e' :: rest => some (.bool false, rest)
    | '"' :: rest => (text rest).map fun (s, rest) => (.string s, rest)
    | '-' :: rest => (number true rest).map fun (n, rest) => (.number n, rest)
    | '[' :: rest =>
      if depth = 0 then none
      else match skipBlank rest with
        | ']' :: rest => some (.array [], rest)
        | rest => (items fuel (depth - 1) rest).map fun (vs, rest) => (.array vs, rest)
    | '\x7b' :: rest =>
      if depth = 0 then none
      else match skipBlank rest with
        | '\x7d' :: rest => some (.object [], rest)
        | rest => (fields fuel (depth - 1) rest).map fun (fs, rest) => (.object fs, rest)
    | rest => (number false rest).map fun (n, rest) => (.number n, rest)
/-- The values of an array up to its end. -/
def items : Nat → Nat → List Char → Option (List Json × List Char)
  | 0, _, _ => none
  | fuel + 1, depth, cs => do
    let (v, rest) ← value fuel depth cs
    match skipBlank rest with
    | ',' :: rest =>
      let (vs, rest) ← items fuel depth rest
      return (v :: vs, rest)
    | ']' :: rest => return ([v], rest)
    | _ => none
/-- The fields of an object up to its end. -/
def fields : Nat → Nat → List Char → Option (List (String × Json) × List Char)
  | 0, _, _ => none
  | fuel + 1, depth, cs =>
    match skipBlank cs with
    | '"' :: rest => do
      let (key, rest) ← text rest
      match skipBlank rest with
      | ':' :: rest =>
        let (v, rest) ← value fuel depth rest
        match skipBlank rest with
        | ',' :: rest =>
          let (fs, rest) ← fields fuel depth rest
          return ((key, v) :: fs, rest)
        | '\x7d' :: rest => return ([(key, v)], rest)
        | _ => none
      | _ => none
    | _ => none
end

end Json.Reader

namespace Json

/-- How many containers may stand inside each other. -/
def maxDepth : Nat := 127

/-- The value a text holds, with repeated keys as written. -/
def read? (s : String) : Option Json := do
  let cs := s.toList
  let (v, rest) ← Reader.value (2 * cs.length + 2) maxDepth cs
  if (Reader.skipBlank rest).isEmpty then some v else none

end Json

end HttpPlan
