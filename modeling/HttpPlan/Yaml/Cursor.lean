
/-! The characters of YAML text. -/
namespace HttpPlan.Yaml

/-- Text is free of control characters, apart from tabs and line breaks. -/
def isAllowed (c : Char) : Bool :=
  let n := c.toNat
  n = 0x09 || n = 0x0A || n = 0x0D || n = 0x85 || (0x20 ≤ n && n ≤ 0x7E) ||
    (0xA0 ≤ n && n ≤ 0xFFFD && n != 0xFEFF) || 0x10000 ≤ n

/-- Writes every line break as a line feed, apart from the two separators of Unicode, which are
kept. -/
def unifyBreaks : List Char → List Char
  | [] => []
  | '\r' :: '\n' :: rest => '\n' :: unifyBreaks rest
  | c :: rest => (if c = '\r' || c = '\x85' then '\n' else c) :: unifyBreaks rest

/-- The characters of a text, without the byte order mark in front. -/
def characters? (s : String) : Option (List Char) :=
  let cs := match s.toList with
    | '\ufeff' :: rest => rest
    | cs => cs
  if cs.all isAllowed then some (unifyBreaks cs) else none

def isBreak (c : Char) : Bool := c = '\n' || c = '\u2028' || c = '\u2029'

def isBlank (c : Char) : Bool := c = ' ' || c = '\t'

def isSpace (c : Char) : Bool := isBlank c || isBreak c

/-- Whether a blank, a line break or the end of the text stands here. -/
def endsWord (next : Option Char) : Bool := next.all isSpace

/-- The characters of names. -/
def isNameChar (c : Char) : Bool := c.isAlphanum || c = '_' || c = '-'

/-- The characters that shape flow collections. -/
def isFlowIndicator (c : Char) : Bool :=
  c = ',' || c = '[' || c = ']' || c = '\x7b' || c = '\x7d'

/-! A place in a text, and the gaps of white space between words. -/

structure Cursor where
  rest : List Char
  line : Nat := 0
  column : Nat := 0

namespace Cursor

def atEnd (c : Cursor) : Bool := c.rest.isEmpty

def next? (c : Cursor) : Option Char := c.rest.head?

def startsWith (ch : Char) (c : Cursor) : Bool := c.next? == some ch

/-- Passes some characters of the line. -/
def advance (n : Nat) (c : Cursor) : Cursor := ⟨c.rest.drop n, c.line, c.column + n⟩

/-- Passes the characters before `rest`, which stands further on in the line. -/
def moveTo (rest : List Char) (c : Cursor) : Cursor := c.advance (c.rest.length - rest.length)

def skipWhile (p : Char → Bool) (c : Cursor) : Cursor := c.advance (c.rest.takeWhile p).length

/-- Passes a line break, if one stands here. -/
def passBreak (c : Cursor) : Cursor :=
  if c.next?.any isBreak then ⟨c.rest.tail, c.line + 1, 0⟩ else c

/-- Passes the rest of a line that holds nothing more than blanks and a comment. -/
def endLine? (c : Cursor) : Option Cursor :=
  let c := c.skipWhile isBlank
  let c := if c.startsWith '#' then c.skipWhile (!isBreak ·) else c
  if c.next?.all isBreak then some c.passBreak else none

/-- Whether a line that opens or closes a document stands here. -/
def atDocumentMark (c : Cursor) : Bool :=
  c.column = 0 && (c.rest.take 3 = ['-', '-', '-'] || c.rest.take 3 = ['.', '.', '.']) &&
    endsWord c.rest[3]?

end Cursor

/-- White space between two words. -/
structure Gap where
  /-- The blanks before the first line break. -/
  blanks : List Char := []
  breaks : List Char := []
  /-- The least column of a tab among the blanks that open a line. -/
  tabColumn : Option Nat := none

namespace Gap

def isEmpty (g : Gap) : Bool := g.blanks.isEmpty && g.breaks.isEmpty

def endsLine (g : Gap) : Bool := !g.breaks.isEmpty

/-- What a gap contributes to a scalar: a single line feed folds into a space, and a line feed
before further breaks is dropped. -/
def text (g : Gap) : List Char :=
  match g.breaks with
  | [] => g.blanks
  | ['\n'] => [' ']
  | '\n' :: further => further
  | breaks => breaks

def addBlank (ch : Char) (column : Nat) (g : Gap) : Gap :=
  if g.breaks.isEmpty then { g with blanks := g.blanks ++ [ch] }
  else if ch = '\t' then { g with tabColumn := some (g.tabColumn.elim column (min column)) }
  else g

/-- Reads a gap, of which `g` is already known. -/
def read (g : Gap) (line column : Nat) : List Char → Gap × Cursor
  | [] => (g, ⟨[], line, column⟩)
  | ch :: rest =>
    if isBreak ch then read { g with breaks := g.breaks ++ [ch] } (line + 1) 0 rest
    else if isBlank ch then read (g.addBlank ch column) line (column + 1) rest
    else (g, ⟨ch :: rest, line, column⟩)

end Gap

def Cursor.gap (c : Cursor) : Gap × Cursor := ({} : Gap).read c.line c.column c.rest

end HttpPlan.Yaml
