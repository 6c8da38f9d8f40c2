import HttpPlan.Yaml.Property
import HttpPlan.Yaml.Scalar

/-! From text to tokens. A key is known as one only when its colon is met, so the place where the
latest key could start is remembered, and its tokens are inserted there. -/
namespace HttpPlan.Yaml

/-- Something that turns out to be a key if a colon follows it on its line. -/
structure KeyCandidate where
  /-- How many tokens stand before it. -/
  place : Nat
  line : Nat
  column : Nat
  /-- Whether nothing but a key may stand there. -/
  required : Bool

structure Lexer where
  cursor : Cursor
  /-- The tokens so far, the latest first. -/
  tokens : List Token := []
  count : Nat := 0
  /-- For each open block collection, the innermost first, the column behind its first one. -/
  margins : List Nat := []
  keyAllowed : Bool := true
  candidate : Option KeyCandidate := none
  /-- The candidates outside each open flow collection, the innermost first. -/
  suspended : List (Option KeyCandidate) := []

namespace KeyCandidate

/-- Keys stay on one line and are at most 1024 characters long. -/
def isOver (c : Cursor) (k : KeyCandidate) : Bool := k.line < c.line || k.column + 1024 < c.column

/-- Forgets a candidate that is over, which a required one must not be. -/
def refresh? (c : Cursor) : Option KeyCandidate → Option (Option KeyCandidate)
  | some k => if !k.isOver c then some (some k) else if k.required then none else some none
  | none => some none

end KeyCandidate

namespace Lexer

def inFlow (l : Lexer) : Bool := !l.suspended.isEmpty

def margin (l : Lexer) : Nat := l.margins.headD 0

def insert (place : Nat) (t : Token) (l : Lexer) : Lexer :=
  { l with tokens := l.tokens.insertIdx (l.count - place) t, count := l.count + 1 }

def push (t : Token) (l : Lexer) : Lexer := l.insert l.count t

/-- Adds a token of a few characters. -/
def indicator (length : Nat) (t : Token) (l : Lexer) : Lexer :=
  { l.push t with cursor := l.cursor.advance length }

def allowKey (keyAllowed : Bool) (l : Lexer) : Lexer := { l with keyAllowed }

/-- Closes the block collections that start beyond some column. -/
def closeBlocks (margin : Nat) (l : Lexer) : Lexer :=
  if l.inFlow then l
  else
    let closed := l.margins.takeWhile (margin < ·)
    closed.foldl (fun l _ => l.push .blockEnd) { l with margins := l.margins.drop closed.length }

/-- Opens a block collection at a column, unless the innermost one starts there. -/
def openBlock (start : Token) (place column : Nat) (l : Lexer) : Lexer :=
  if !l.inFlow && l.margin ≤ column then
    { l.insert place start with margins := (column + 1) :: l.margins }
  else l

def openBlockHere (start : Token) (l : Lexer) : Lexer := l.openBlock start l.count l.cursor.column

def dropCandidate? (l : Lexer) : Option Lexer :=
  if l.candidate.any (·.required) then none else some { l with candidate := none }

/-- Remembers that a key could start here. -/
def saveCandidate? (l : Lexer) : Option Lexer := do
  if !l.keyAllowed then return l
  let required := !l.inFlow && l.margin = l.cursor.column + 1
  let l ← l.dropCandidate?
  return { l with candidate := some ⟨l.count, l.cursor.line, l.cursor.column, required⟩ }

def refreshCandidates? (l : Lexer) : Option Lexer := do
  return { l with
    candidate := ← KeyCandidate.refresh? l.cursor l.candidate
    suspended := ← l.suspended.mapM (KeyCandidate.refresh? l.cursor) }

/-- Passes white space and comments. A tab is no white space where a block key may start; a new
line of a block may start with a key. -/
def passSpace (flow : Bool) (comment keyAllowed : Bool) (line column : Nat) :
    List Char → Bool × Cursor
  | [] => (keyAllowed, ⟨[], line, column⟩)
  | c :: rest =>
    if isBreak c then passSpace flow false (keyAllowed || !flow) (line + 1) 0 rest
    else if comment || c = ' ' || (c = '\t' && (flow || !keyAllowed)) then
      passSpace flow comment keyAllowed line (column + 1) rest
    else if c = '#' then passSpace flow true keyAllowed line (column + 1) rest
    else (keyAllowed, ⟨c :: rest, line, column⟩)

def toNextToken? (l : Lexer) : Option Lexer := do
  let (keyAllowed, cursor) :=
    passSpace l.inFlow false l.keyAllowed l.cursor.line l.cursor.column l.cursor.rest
  let l ← { l with keyAllowed, cursor }.refreshCandidates?
  return l.closeBlocks (l.cursor.column + 1)

def directive? (l : Lexer) : Option Lexer := do
  let l ← (l.closeBlocks 0).dropCandidate?
  let (token, cursor) ← l.cursor.directive?
  return { (l.push token).allowKey false with cursor }

def documentMark? (t : Token) (l : Lexer) : Option Lexer := do
  return ((← (l.closeBlocks 0).dropCandidate?).indicator 3 t).allowKey false

def openFlow? (start : Token) (l : Lexer) : Option Lexer := do
  let l ← l.saveCandidate?
  let l := (l.indicator 1 start).allowKey true
  return { l with candidate := none, suspended := l.candidate :: l.suspended }

def closeFlow? (stop : Token) (l : Lexer) : Option Lexer := do
  let l := ((← l.dropCandidate?).indicator 1 stop).allowKey false
  match l.suspended with
  | candidate :: suspended => return { l with candidate, suspended }
  | [] => return l

def comma? (l : Lexer) : Option Lexer := do
  return ((← l.dropCandidate?).indicator 1 .comma).allowKey true

def entry? (l : Lexer) : Option Lexer := do
  if !l.inFlow && !l.keyAllowed then none
  return ((← (l.openBlockHere .blockSequence).dropCandidate?).indicator 1 .entry).allowKey true

def key? (l : Lexer) : Option Lexer := do
  if !l.inFlow && !l.keyAllowed then none
  let l ← (l.openBlockHere .blockMapping).dropCandidate?
  return (l.indicator 1 .key).allowKey (!l.inFlow)

/-- A colon makes a key of the candidate; without one it follows a key of several lines. -/
def value? (l : Lexer) : Option Lexer := do
  match l.candidate with
  | some k =>
    let l := (l.insert k.place .key).openBlock .blockMapping k.place k.column
    return ({ l with candidate := none }.indicator 1 .value).allowKey false
  | none =>
    if !l.inFlow && !l.keyAllowed then none
    let l := l.openBlockHere .blockMapping
    return (l.indicator 1 .value).allowKey (!l.inFlow)

/-- Adds a token that may be a key. -/
def node? (read : Cursor → Option (Token × Cursor)) (l : Lexer) : Option Lexer := do
  let l := (← l.saveCandidate?).allowKey false
  let (token, cursor) ← read l.cursor
  return { l.push token with cursor }

def named (token : String → Token) (c : Cursor) : Option (Token × Cursor) :=
  c.name?.map fun (name, c) => (token name, c)

def quoted? (c : Cursor) : Option (Token × Cursor) :=
  c.quotedScalar?.map fun s => (.scalar false (.ofList s.text), s.cursor)

/-- A plain scalar; a line that follows it may start with a key. -/
def plain? (l : Lexer) : Option Lexer := do
  let l ← l.saveCandidate?
  let s ← l.cursor.plainScalar? l.inFlow l.margin
  return { (l.push (.scalar true (.ofList s.text))).allowKey s.endsLine with cursor := s.cursor }

def block? (l : Lexer) : Option Lexer := do
  let l := (← l.dropCandidate?).allowKey true
  let s ← l.cursor.blockScalar? l.margin
  return { l.push (.scalar false (.ofList s.text)) with cursor := s.cursor }

/-- Adds the token that starts here, and those that its place brings about. -/
def step? (l : Lexer) : Option Lexer :=
  let c := l.cursor
  let alone := endsWord c.rest[1]?
  match c.next? with
  | none => none
  | some ch =>
    if c.column = 0 && ch = '%' then l.directive?
    else if c.atDocumentMark then
      l.documentMark? (if ch = '-' then .documentStart else .documentEnd)
    else match ch with
      | '[' => l.openFlow? .flowSequence
      | '\x7b' => l.openFlow? .flowMapping
      | ']' => l.closeFlow? .flowSequenceEnd
      | '\x7d' => l.closeFlow? .flowMappingEnd
      | ',' => l.comma?
      | '-' => if alone then l.entry? else l.plain?
      | '?' => if l.inFlow || alone then l.key? else l.plain?
      | ':' => if l.inFlow || alone then l.value? else l.plain?
      | '*' => l.node? (named .aliasOf)
      | '&' => l.node? (named .anchor)
      | '!' => l.node? (·.tag? l.inFlow)
      | '\'' | '"' => l.node? quoted?
      | '|' | '>' => if l.inFlow then none else l.block?
      | '\t' | '#' | '%' | '@' | '\x60' => none
      | _ => l.plain?

/-- Reads to the end of the text; `fuel` bounds the tokens that start. -/
def run? : Nat → Lexer → Option (List Token)
  | 0, _ => none
  | fuel + 1, l => do
    let l ← l.toNextToken?
    if l.cursor.atEnd then return (← (l.closeBlocks 0).dropCandidate?).tokens.reverse
    else run? fuel (← l.step?)

end Lexer

/-- The tokens of a text. -/
def Token.ofText? (s : String) : Option (List Token) := do
  let cs ← characters? s
  Lexer.run? (cs.length + 1) { cursor := ⟨cs, 0, 0⟩ }

end HttpPlan.Yaml
