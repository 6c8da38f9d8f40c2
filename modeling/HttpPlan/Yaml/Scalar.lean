import HttpPlan.Yaml.Cursor
import HttpPlan.Text

/-! Plain scalars: words with gaps between them. A scalar ends before a comment, a document mark,
a colon that ends a word and, in a flow collection, an indicator of the collection. -/
namespace HttpPlan.Yaml

/-- A scalar that was read, and the place behind it. -/
structure Lexeme where
  text : List Char
  cursor : Cursor
  /-- Whether line breaks were passed behind the last word. -/
  endsLine : Bool := false

namespace PlainScalar

/-- The next word, possibly empty. In a flow collection a colon right before an indicator is
refused. -/
def word? (flow : Bool) : List Char → Option (List Char)
  | [] => some []
  | c :: rest =>
    if isSpace c || (c = ':' && endsWord rest.head?) || (flow && isFlowIndicator c) then some []
    else if flow && c = ':' && rest.head?.any (fun d => isFlowIndicator d || d = '?') then none
    else (word? flow rest).map (c :: ·)

/-- Reads on behind a gap. `done` holds what was read, in reverse. A continued line starts at
column `margin` at least, and is not indented by a tab before it; `fuel` bounds the words. -/
def read? (flow : Bool) (margin : Nat) : Nat → List Char → Gap → Cursor → Option Lexeme
  | 0, _, _, _ => none
  | fuel + 1, done, gap, c =>
    if c.atDocumentMark || c.startsWith '#' then some ⟨done.reverse, c, gap.endsLine⟩
    else do
      let word ← word? flow c.rest
      if word.isEmpty then some ⟨done.reverse, c, gap.endsLine⟩
      else
        let done := word.reverse ++ gap.text.reverse ++ done
        let (gap, next) := (c.advance word.length).gap
        if gap.isEmpty then some ⟨done.reverse, next, false⟩
        else if gap.tabColumn.any (· < margin) then none
        else if !flow && next.column < margin then some ⟨done.reverse, next, gap.endsLine⟩
        else read? flow margin fuel done gap next

end PlainScalar

def Cursor.plainScalar? (flow : Bool) (margin : Nat) (c : Cursor) : Option Lexeme :=
  PlainScalar.read? flow margin (c.rest.length + 1) [] {} c

/-! Quoted scalars. Gaps fold as in plain scalars. Between single quotes a doubled quote stands for
one; between double quotes a backslash starts an escape, or joins two lines. -/

namespace QuotedScalar

def simpleEscape? : Char → Option Char
  | '0' => some '\x00'
  | 'a' => some '\x07'
  | 'b' => some '\x08'
  | 't' | '\t' => some '\t'
  | 'n' => some '\n'
  | 'v' => some '\x0b'
  | 'f' => some '\x0c'
  | 'r' => some '\r'
  | 'e' => some '\x1b'
  | ' ' => some ' '
  | '"' => some '"'
  | '/' => some '/'
  | '\\' => some '\\'
  | 'N' => some '\x85'
  | '_' => some '\xa0'
  | 'L' => some '\u2028'
  | 'P' => some '\u2029'
  | _ => none

/-- How many hexadecimal digits follow the letter of an escape by code point. -/
def escapeDigits? : Char → Option Nat
  | 'x' => some 2
  | 'u' => some 4
  | 'U' => some 8
  | _ => none

/-- The character of an escape, and the length of the escape without its backslash. -/
def escape? : List Char → Option (Char × Nat)
  | [] => none
  | c :: rest =>
    match escapeDigits? c with
    | none => (simpleEscape? c).map (·, 1)
    | some digits => do
      if rest.length < digits then none
      let code ← Radix.nat? 16 (rest.take digits)
      if code.isValidChar then some (.ofNat code, digits + 1) else none

/-- Reads up to the closing quote. `done` holds what was read, in reverse; `fuel` bounds the
steps. -/
def read? (double : Bool) : Nat → List Char → Cursor → Option Lexeme
  | 0, _, _ => none
  | fuel + 1, done, c =>
    if c.atDocumentMark then none
    else match c.rest with
      | [] => none
      | ch :: rest =>
        if isSpace ch then
          let (gap, next) := c.gap
          read? double fuel (gap.text.reverse ++ done) next
        else if double && ch = '\\' then
          if rest.head?.any isBreak then
            let (gap, next) := (c.advance 1).passBreak.gap
            read? double fuel (gap.breaks.reverse ++ done) next
          else do
            let (e, length) ← escape? rest
            read? double fuel (e :: done) (c.advance (length + 1))
        else if !double && ch = '\'' && rest.head? == some '\'' then
          read? double fuel ('\'' :: done) (c.advance 2)
        else if ch = (if double then '"' else '\'') then some ⟨done.reverse, c.advance 1, false⟩
        else read? double fuel (ch :: done) (c.advance 1)

end QuotedScalar

/-- A quoted scalar, from its opening quote on. -/
def Cursor.quotedScalar? (c : Cursor) : Option Lexeme :=
  QuotedScalar.read? (c.startsWith '"') (c.rest.length + 1) [] (c.advance 1)

/-! Block scalars: the lines below an indicator, less their indentation. Folded scalars join
neighbouring lines by a space unless one of them starts with a blank. -/

namespace BlockScalar

/-- What becomes of the line breaks at the end. -/
inductive Chomping where
  | clip
  | strip
  | keep
deriving DecidableEq

structure Header where
  folded : Bool
  chomping : Chomping
  /-- The indentation in excess of that of the collection around the scalar. -/
  indentation : Option Nat

def takeChomping (c : Cursor) : Option Chomping × Cursor :=
  match c.next? with
  | some '+' => (some .keep, c.advance 1)
  | some '-' => (some .strip, c.advance 1)
  | _ => (none, c)

def takeIndentation (c : Cursor) : Option Nat × Cursor :=
  match c.next? >>= Radix.digit? 10 with
  | some (n + 1) => (some (n + 1), c.advance 1)
  | _ => (none, c)

/-- The line of the indicator: chomping and indentation may follow it in either order. -/
def header? (c : Cursor) : Option (Header × Cursor) := do
  let folded := c.startsWith '>'
  let (before, c) := takeChomping (c.advance 1)
  let (indentation, c) := takeIndentation c
  let (after, c) := if before.isSome then (none, c) else takeChomping c
  return (⟨folded, (before <|> after).getD .clip, indentation⟩, ← c.endLine?)

/-- Passes empty lines and the indentation of the line behind them. `indent` is the indentation
if it is known; a tab within it is refused. Gives the breaks and the greatest indentation met. -/
def indentation? (indent : Option Nat) (breaks : List Char) (widest line column : Nat) :
    List Char → Option (List Char × Nat × Cursor)
  | [] => some (breaks, max widest column, ⟨[], line, column⟩)
  | ch :: rest =>
    let within := indent.all (column < ·)
    if ch = ' ' && within then indentation? indent breaks widest line (column + 1) rest
    else if ch = '\t' && within then none
    else if isBreak ch then
      indentation? indent (breaks ++ [ch]) (max widest column) (line + 1) 0 rest
    else some (breaks, max widest column, ⟨ch :: rest, line, column⟩)

/-- A scalar up to some line: the text before it in reverse, and how the line is joined on. -/
structure Progress where
  text : List Char := []
  /-- The break that ends the last line. -/
  lineBreak : Option Char := none
  /-- The breaks of the empty lines behind it. -/
  breaks : List Char
  /-- Whether the last line starts with a blank. -/
  blank : Bool := false

namespace Progress

/-- What stands between the last line and the next one. -/
def joint (folded blank : Bool) (p : Progress) : List Char :=
  if folded && p.lineBreak == some '\n' && !p.blank && !blank then
    if p.breaks.isEmpty then [' '] else p.breaks
  else p.lineBreak.toList ++ p.breaks

def result (chomping : Chomping) (p : Progress) : List Char :=
  p.text.reverse ++
    match chomping with
    | .strip => []
    | .clip => p.lineBreak.toList
    | .keep => p.lineBreak.toList ++ p.breaks

end Progress

/-- Reads the lines at the indentation; `fuel` bounds them. -/
def lines? (h : Header) (indent : Nat) : Nat → Progress → Cursor → Option Lexeme
  | 0, _, _ => none
  | fuel + 1, p, c =>
    if c.column ≠ indent || c.atEnd then some ⟨p.result h.chomping, c, false⟩
    else do
      let blank := c.next?.any isBlank
      let line := c.rest.takeWhile (!isBreak ·)
      let text := line.reverse ++ (p.joint h.folded blank).reverse ++ p.text
      let c := c.advance line.length
      let after := c.passBreak
      let (breaks, _, next) ← indentation? (some indent) [] 0 after.line after.column after.rest
      lines? h indent fuel { text, lineBreak := c.next?, breaks, blank } next

end BlockScalar

/-- A block scalar from its indicator on, in a collection of which the content starts at column
`margin` at least. -/
def Cursor.blockScalar? (margin : Nat) (c : Cursor) : Option Lexeme := do
  let (header, c) ← BlockScalar.header? c
  let given := header.indentation.map (margin - 1 + ·)
  let (breaks, widest, next) ← BlockScalar.indentation? given [] 0 c.line c.column c.rest
  let indent := given.getD (max widest (max margin 1))
  BlockScalar.lines? header indent (c.rest.length + 1) { breaks } next

end HttpPlan.Yaml
