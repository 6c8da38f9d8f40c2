import HttpPlan.Random
import HttpPlan.Diagnostic
import HttpPlan.Json.Printer
import HttpPlan.Placeholder.Phrase
import HttpPlan.Schema.Arena
import HttpPlan.Text

/-! Well-formed values of the common string formats. Only identifiers are drawn; the others are
fixed. -/
namespace HttpPlan.Format

/-- Lower-case hexadecimal digits, padded with zeros to a width. -/
def hex (width n : Nat) : List Char :=
  let digits := Nat.toDigits 16 n
  List.replicate (width - digits.length) '0' ++ digits

/-- A random identifier of version 4. -/
def uuid (r : Random) : String × Random :=
  let (a, r) := r.next32
  let (b, r) := r.next16
  let (c, r) := r.next16
  let (d, r) := r.next16
  let (e, r) := r.next
  let groups := [hex 8 a.toNat, hex 4 b.toNat, '4' :: hex 3 (c &&& 0xFFF).toNat,
    hex 4 ((d &&& 0x3FFF) ||| 0x8000).toNat, hex 12 (e &&& 0xFFFFFFFFFFFF).toNat]
  ("-".intercalate (groups.map String.ofList), r)

def fixed? : String → Option String
  | "date-time" => some "2024-01-15T12:00:00Z"
  | "date" => some "2024-01-15"
  | "time" => some "12:00:00"
  | "email" => some "user@example.com"
  | "uri" | "url" => some "https://example.com"
  | "hostname" => some "example.com"
  | "ipv4" => some "192.0.2.1"
  | "ipv6" => some "2001:db8::1"
  | "byte" => some "YXBpcGxhbg=="
  | _ => none

end HttpPlan.Format

/-! Placeholder values for schemas. A value depends on the schema and on the name it is made for,
which seeds the random source, so an unchanged document keeps its values. -/
namespace HttpPlan

/-- What is noticed while values are made, each for the operation then at work. -/
structure Synthesizer where
  operation : Option String := none
  notes : List Diagnostic := []

namespace Synthesizer

def note (s : Synthesizer) (severity : Severity) (message : String) : Synthesizer :=
  { s with notes := s.notes ++ [⟨severity, s.operation, message⟩] }

def warn (s : Synthesizer) (message : String) : Synthesizer := s.note .warning message

/-- Lengths beyond this are cut down to it. -/
def maxLength : Nat := 10000

def preferredLength : Nat := 12

/-- The length of a text within its bounds, the lower of which wins over the upper. -/
def textLength (node : SchemaNode) (name : String) (s : Synthesizer) : Nat × Synthesizer :=
  let low := min (node.minLength.getD 0) maxLength
  let high := min (node.maxLength.getD maxLength) maxLength
  if high < low then
    (low, s.warn ("'" ++ name ++ "': minLength " ++ toString low ++ " exceeds maxLength " ++
      toString high ++ ", using minLength"))
  else (max low (min preferredLength high), s)

def patternNote (node : SchemaNode) (name : String) (s : Synthesizer) : Synthesizer :=
  if node.pattern.isSome then
    s.note .info ("'" ++ name ++ "': pattern is not used for value synthesis")
  else s

def text (node : SchemaNode) (name : String) (r : Random) (s : Synthesizer) :
    String × Random × Synthesizer :=
  if node.isUuid then
    let (id, r) := Format.uuid r
    (id, r, s)
  else
    match node.format >>= Format.fixed? with
    | some value => (value, r, s)
    | none =>
      let (length, s) := textLength node name (patternNote node name s)
      let (phrase, r) := Phrase.draw length r
      (phrase, r, s)

/-- Bounds are confined to 64-bit integers, the one just above them included. -/
def confine (n : Int) : Int := max Int64.minValue.toInt (min n (Int64.maxValue.toInt + 1))

def leastInteger (node : SchemaNode) : Option Int :=
  node.minimum.map fun m =>
    if node.exclusiveMinimum then confine m.floor + 1 else confine m.ceil

def greatestInteger (node : SchemaNode) : Option Int :=
  node.maximum.map fun m =>
    if node.exclusiveMaximum then confine m.ceil - 1 else confine m.floor

def toWord (n : Int) : Int := max Int64.minValue.toInt (min n Int64.maxValue.toInt)

/-- The middle of a range, or the number next to 1 that a single bound admits. -/
def integer (node : SchemaNode) (name : String) (s : Synthesizer) : Int × Synthesizer :=
  match leastInteger node, greatestInteger node with
  | some low, some high =>
    if high < low then
      (toWord low, s.warn ("'" ++ name ++ "': integer range [" ++ toString low ++ ", " ++
        toString high ++ "] is empty, using " ++ toString low))
    else (toWord (low + (high - low) / 2), s)
  | some low, none => (toWord (max 1 low), s)
  | none, some high => (toWord (min 1 high), s)
  | none, none => (1, s)

/-- One and a half. -/
def preferredNumber : Binary64 :=
  ⟨false, 3 * (Binary64.scale / 2), by decide +kernel, 3, 1073, by decide, by decide +kernel⟩

/-- The middle of a range, or a number next to 1.5 that a single bound admits. -/
def number (node : SchemaNode) (name : String) (s : Synthesizer) : Option Binary64 × Synthesizer :=
  match node.minimum, node.maximum with
  | some low, some high =>
    if high < low ∨
        (low ≤ high ∧ high ≤ low ∧ (node.exclusiveMinimum || node.exclusiveMaximum)) then
      let lowText := boundLayout.write low
      (some low, s.warn ("'" ++ name ++ "': number range [" ++ lowText ++ ", " ++
        boundLayout.write high ++ "] is empty, using " ++ lowText))
    else (do (← low.half?).add? (← high.half?), s)
  | some low, none => (if low < preferredNumber then some preferredNumber else low.add? .one, s)
  | none, some high =>
    (if preferredNumber < high then some preferredNumber else high.add? Binary64.one.neg, s)
  | none, none => (some preferredNumber, s)
where
  boundLayout : Layout := ⟨none, false⟩

/-- A value that stands in for any further nesting in itself. -/
def cut (node : SchemaNode) : Json :=
  if node.kind = .typed .array then .array [] else .object []

/-- The value that a node documents: the first of those it lists, or its example. -/
def documented? (node : SchemaNode) : Option Json :=
  match node.enumeration with
  | some (first :: _) => some first
  | _ => node.exampleValue

/-- A value for the node at `id`. `inside` lists the nodes that the value will stand in; `fuel`
bounds their number. -/
def value (arena : SchemaArena) :
    Nat → List SchemaId → SchemaId → String → Random → Synthesizer → Json × Random × Synthesizer
  | 0, _, id, _, r, s => (cut (arena.node id), r, s)
  | fuel + 1, inside, id, name, r, s =>
    let node := arena.node id
    if id ∈ inside then (cut node, r, s)
    else
      match documented? node with
      | some documented => (documented, r, s)
      | none =>
        let child := value arena fuel (id :: inside)
        match node.kind with
        | .typed .string =>
          let (text, r, s) := text node name r s
          (.string text, r, s)
        | .typed .integer =>
          let (n, s) := integer node name s
          (.number (.int n), r, s)
        | .typed .number =>
          let (n, s) := number node name s
          (.number (match n with | some x => .float x | none => .int 0), r, s)
        | .typed .boolean => (.bool true, r, s)
        | .typed .null => (.null, r, s)
        | .typed .array =>
          match node.items with
          | none => (.array [], r, s)
          | some items =>
            let (item, r, s) := child items (name ++ "[0]") r s
            (.array [item], r, s)
        | .typed .object =>
          let required := node.properties.entries.filter (·.1 ∈ node.required)
          let (fields, r, s) := required.foldl (fun (fields, r, s) (key, id) =>
            let (v, r, s) := child id (name ++ "." ++ key) r s
            (fields ++ [(key, v)], r, s)) ([], r, s)
          (.object fields, r, s)
        | .union =>
          match node.variants.find? (fun v => (arena.node v).kind ≠ .typed .null) with
          | none => (.null, r, s)
          | some variant => child variant name r s
        | .unknown =>
          let (phrase, r) := Phrase.draw preferredLength r
          (.string phrase, r, s)

/-- A 64-bit hash of the bytes of a name (FNV-1a). -/
def seed (name : String) : UInt64 :=
  name.toUTF8.toList.foldl (fun hash b => (hash ^^^ b.toUInt64) * 0x100000001b3) 0xcbf29ce484222325

def synthesize (arena : SchemaArena) (id : SchemaId) (name : String) (s : Synthesizer) :
    Json × Synthesizer :=
  let (v, _, s) := value arena (arena.size + 1) [] id name (.ofSeed (seed name)) s
  (v, s)

/-- A value as text for one path segment. -/
def pathSegment (arena : SchemaArena) (id : SchemaId) (name : String) (s : Synthesizer) :
    String × Synthesizer :=
  let (v, s) := synthesize arena id name s
  (Percent.encode v.wireText, s)

end Synthesizer

end HttpPlan
