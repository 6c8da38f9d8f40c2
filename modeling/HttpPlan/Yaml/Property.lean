import HttpPlan.Text
import HttpPlan.Yaml.Cursor
import HttpPlan.Yaml.Node

/-! Anchors, aliases, tags and directives. -/
namespace HttpPlan.Yaml

namespace TagUri

def isUriChar (verbatim : Bool) (c : Char) : Bool :=
  isNameChar c || ";/?:@&=+$.!~*'()".contains c ||
    (verbatim && (c = ',' || c = '[' || c = ']'))

/-- An octet written as a percent sign and two digits. -/
def octet? : List Char → Option (Nat × List Char)
  | '%' :: a :: b :: rest => (Radix.nat? 16 [a, b]).map (·, rest)
  | _ => none

/-- The bits of a first octet, and how many octets follow it. -/
def leadingBits? (octet : Nat) : Option (Nat × Nat) :=
  if octet < 0x80 then some (octet, 0)
  else if octet / 0x20 = 6 then some (octet % 0x20, 1)
  else if octet / 0x10 = 14 then some (octet % 0x10, 2)
  else if octet / 8 = 30 then some (octet % 8, 3)
  else none

def followingBits? : Nat → Nat → List Char → Option (Char × List Char)
  | 0, code, cs => some (.ofNat code, cs)
  | n + 1, code, cs => do
    let (octet, rest) ← octet? cs
    if octet / 0x40 = 2 then followingBits? n (code * 0x40 + octet % 0x40) rest else none

/-- A character written as its octets. -/
def escaped? (cs : List Char) : Option (Char × List Char) := do
  let (octet, rest) ← octet? cs
  let (code, more) ← leadingBits? octet
  followingBits? more code rest

/-- Reads as far as the characters belong to a tag; `fuel` bounds them. -/
def read? (verbatim : Bool) : Nat → List Char → Option (List Char × List Char)
  | 0, _ => none
  | fuel + 1, cs =>
    match cs with
    | [] => some ([], [])
    | c :: rest =>
      if c = '%' then do
        let (c, rest) ← escaped? cs
        let (more, rest) ← read? verbatim fuel rest
        return (c :: more, rest)
      else if isUriChar verbatim c then do
        let (more, rest) ← read? verbatim fuel rest
        return (c :: more, rest)
      else some ([], cs)

end TagUri

namespace Cursor

def tagText? (verbatim : Bool) (cs : List Char) : Option (List Char × List Char) :=
  TagUri.read? verbatim (cs.length + 1) cs

/-- Tag text of one character at least. -/
def someTagText? (verbatim : Bool) (cs : List Char) : Option (String × List Char) := do
  let (text, rest) ← tagText? verbatim cs
  if text.isEmpty then none else some (.ofList text, rest)

/-- The name behind an ampersand or an asterisk. -/
def name? (c : Cursor) : Option (String × Cursor) :=
  let c := c.advance 1
  let name := c.rest.takeWhile isNameChar
  let next := c.advance name.length
  let ends := next.next?.all fun ch => isSpace ch || "?:,]\x7d%@\x60".contains ch
  if !name.isEmpty && ends then some (.ofList name, next) else none

/-- The handle and the suffix of a tag, with what follows. A lone exclamation mark has no handle. -/
def tagParts? : List Char → Option (String × String × List Char)
  | '!' :: '<' :: rest => do
    match ← someTagText? true rest with
    | (suffix, '>' :: rest) => return ("", suffix, rest)
    | _ => none
  | '!' :: rest =>
    let name := rest.takeWhile isNameChar
    match rest.dropWhile isNameChar with
    | '!' :: rest => do
      let (suffix, rest) ← someTagText? false rest
      return (.ofList ('!' :: name ++ ['!']), suffix, rest)
    | rest => do
      let (more, rest) ← tagText? false rest
      if name.isEmpty && more.isEmpty then return ("", "!", rest)
      else return ("!", .ofList (name ++ more), rest)
  | _ => none

def tag? (flow : Bool) (c : Cursor) : Option (Token × Cursor) := do
  let (handle, suffix, rest) ← tagParts? c.rest
  if endsWord rest.head? || (flow && rest.head? == some ',') then
    some (.tag handle suffix, c.moveTo rest)
  else none

/-- A part of a version number: nine digits at most. -/
def versionPart? (cs : List Char) : Option (Nat × List Char) := do
  let digits := cs.takeWhile Char.isDigit
  if 9 < digits.length then none
  return (← Radix.nat? 10 digits, cs.dropWhile Char.isDigit)

def version? (cs : List Char) : Option (Token × List Char) := do
  let (major, rest) ← versionPart? cs
  match rest with
  | '.' :: rest => do
    let (minor, rest) ← versionPart? rest
    return (.version major minor, rest)
  | _ => none

/-- A tag handle and, behind blanks, what it stands for. -/
def tagHandle? : List Char → Option (Token × List Char)
  | '!' :: rest => do
    let name := rest.takeWhile isNameChar
    let (handle, rest) ← match rest.dropWhile isNameChar with
      | '!' :: rest => some ('!' :: name ++ ['!'], rest)
      | rest => if name.isEmpty then some (['!'], rest) else none
    if !rest.head?.any isBlank then none
    let (expansion, rest) ← someTagText? true (rest.dropWhile isBlank)
    if endsWord rest.head? then return (.tagHandle (.ofList handle) expansion, rest)
    else none
  | _ => none

/-- A directive, which takes up its line. -/
def directive? (c : Cursor) : Option (Token × Cursor) := do
  let c := c.advance 1
  let name := c.rest.takeWhile isNameChar
  let c := c.advance name.length
  if !endsWord c.next? then none
  let operand := c.rest.dropWhile isBlank
  let (token, rest) ← match String.ofList name with
    | "YAML" => version? operand
    | "TAG" => tagHandle? operand
    | _ => none
  return (token, ← (c.moveTo rest).endLine?)

end Cursor

end HttpPlan.Yaml
