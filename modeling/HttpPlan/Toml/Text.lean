import HttpPlan.Text

/-! The characters of TOML text, and what may stand between expressions. -/
namespace HttpPlan.Toml

def isBlank (c : Char) : Bool := c = ' ' || c = '\t'

/-- Text on one line is free of control characters other than tabs. -/
def isTextChar (c : Char) : Bool := c = '\t' || (0x20 ≤ c.toNat && c.toNat != 0x7F)

/-- The characters of keys without quotes. -/
def isKeyChar (c : Char) : Bool := c.isAlphanum || c = '_' || c = '-'

/-- The characters of numbers, booleans and dates. -/
def isBareChar (c : Char) : Bool := isKeyChar c || c = '+' || c = '.' || c = ':'

def skipBlanks (cs : List Char) : List Char := cs.dropWhile isBlank

def newline? : List Char → Option (List Char)
  | '\n' :: rest | '\r' :: '\n' :: rest => some rest
  | _ => none

/-- Passes a line that holds nothing more than blanks and a comment. -/
def endLine? (cs : List Char) : Option (List Char) :=
  let rest := match skipBlanks cs with
    | '#' :: comment => comment.dropWhile isTextChar
    | rest => rest
  if rest.isEmpty then some [] else newline? rest

/-- Passes blanks, line breaks and comments. -/
def passSpace? (comment : Bool) : List Char → Option (List Char)
  | [] => some []
  | '\r' :: '\n' :: rest => passSpace? false rest
  | c :: rest =>
    if c = '\n' then passSpace? false rest
    else if comment then if isTextChar c then passSpace? true rest else none
    else if isBlank c then passSpace? false rest
    else if c = '#' then passSpace? true rest
    else some (c :: rest)

/-! The four forms of TOML strings. Strings between single quotes are taken literally; threefold
quotes let a string run over several lines. -/

namespace Text

def simpleEscape? : Char → Option Char
  | 'b' => some '\x08'
  | 't' => some '\t'
  | 'n' => some '\n'
  | 'f' => some '\x0c'
  | 'r' => some '\r'
  | '"' => some '"'
  | '\\' => some '\\'
  | _ => none

def codePoint? (digits : List Char) : Option Char := do
  let code ← Radix.nat? 16 digits
  if code.isValidChar then some (.ofNat code) else none

/-- The character of an escape, from the letter behind the backslash on. -/
def escape? : List Char → Option (Char × List Char)
  | 'u' :: rest => if rest.length < 4 then none else (codePoint? (rest.take 4)).map (·, rest.drop 4)
  | 'U' :: rest => if rest.length < 8 then none else (codePoint? (rest.take 8)).map (·, rest.drop 8)
  | c :: rest => (simpleEscape? c).map (·, rest)
  | [] => none

/-- Whether a backslash here joins two lines; then the rest behind the white space. -/
def joinedLine? (cs : List Char) : Option (List Char) := do
  let rest ← newline? (skipBlanks cs)
  return rest.dropWhile fun c => isBlank c || c = '\n' || c = '\r'

/-- Reads a string of one line up to its closing quote. `done` holds what was read, in reverse;
`fuel` bounds the characters. -/
def line? (quote : Char) : Nat → List Char → List Char → Option (String × List Char)
  | 0, _, _ => none
  | _ + 1, _, [] => none
  | fuel + 1, done, c :: rest =>
    if c = quote then some (.ofList done.reverse, rest)
    else if quote = '"' && c = '\\' then do
      let (e, rest) ← escape? rest
      line? quote fuel (e :: done) rest
    else if isTextChar c then line? quote fuel (c :: done) rest
    else none

/-- Reads a string of several lines up to its closing quotes, which up to two quotes of its own
may precede. -/
def lines? (quote : Char) : Nat → List Char → List Char → Option (String × List Char)
  | 0, _, _ => none
  | _ + 1, _, [] => none
  | fuel + 1, done, c :: rest =>
    if c = quote then
      let quotes := (c :: rest).takeWhile (· = quote)
      let own := if quotes.length < 3 then quotes.length else min (quotes.length - 3) 2
      let done := quotes.take own ++ done
      if quotes.length < 3 then lines? quote fuel done ((c :: rest).drop own)
      else some (.ofList done.reverse, (c :: rest).drop (own + 3))
    else if quote = '"' && c = '\\' then
      match joinedLine? rest with
      | some rest => lines? quote fuel done rest
      | none => do
        let (e, rest) ← escape? rest
        lines? quote fuel (e :: done) rest
    else
      match newline? (c :: rest) with
      | some rest => lines? quote fuel ('\n' :: done) rest
      | none => if isTextChar c then lines? quote fuel (c :: done) rest else none

end Text

/-- A string of one line, behind its opening quote. -/
def lineText? (quote : Char) (cs : List Char) : Option (String × List Char) :=
  Text.line? quote (cs.length + 1) [] cs

/-- A string, behind its opening quote. A line break right behind threefold quotes is dropped. -/
def quotedText? (quote : Char) (cs : List Char) : Option (String × List Char) :=
  if cs.take 2 = [quote, quote] then
    let rest := cs.drop 2
    let rest := (newline? rest).getD rest
    Text.lines? quote (rest.length + 1) [] rest
  else lineText? quote cs

end HttpPlan.Toml
