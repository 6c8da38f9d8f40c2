import HttpPlan.Binary64
import HttpPlan.Toml.Datetime
import HttpPlan.Toml.Table
import HttpPlan.Toml.Text

/-! Reading TOML text, version 1.0. Integers have 64 bits; arrays and inline tables stand at most 79
deep inside each other, and dotted keys have at most 79 parts. -/
namespace HttpPlan.Toml

/-! ### Numbers, booleans and dates -/

/-- Digits, of which neighbours may have an underscore between them, without the underscores. -/
def joinDigits? (isDigit : Char → Bool) : List Char → Option (List Char)
  | [] => none
  | [d] => if isDigit d then some [d] else none
  | d :: '_' :: rest => if isDigit d then (joinDigits? isDigit rest).map (d :: ·) else none
  | d :: rest => if isDigit d then (joinDigits? isDigit rest).map (d :: ·) else none

def splitSign : List Char → Bool × List Char
  | '-' :: rest => (true, rest)
  | '+' :: rest => (false, rest)
  | cs => (false, cs)

/-- Decimal digits without a zero in front. -/
def decimal? (cs : List Char) : Option (List Char) :=
  match joinDigits? Char.isDigit cs with
  | some ('0' :: _ :: _) => none
  | digits => digits

def inWord? (n : Int) : Option Toml :=
  if Int64.minValue.toInt ≤ n && n ≤ Int64.maxValue.toInt then some (.integer n) else none

/-- An integer. One with a radix has no sign. -/
def integer? (cs : List Char) : Option Toml :=
  let radix (base : Nat) (digits : List Char) : Option Toml := do
    let digits ← joinDigits? (fun c => (Radix.digit? base c).isSome) digits
    inWord? (← Radix.nat? base digits)
  match cs with
  | '0' :: 'x' :: digits => radix 16 digits
  | '0' :: 'o' :: digits => radix 8 digits
  | '0' :: 'b' :: digits => radix 2 digits
  | cs => do
    let (negative, digits) := splitSign cs
    let n ← decimal? digits >>= Radix.nat? 10
    inWord? (if negative then -n else n)

/-- The digits behind a point, and what follows them. -/
def places? : List Char → Option (List Char × List Char)
  | '.' :: rest => do
    let isPart (c : Char) := c.isDigit || c = '_'
    return ('.' :: (← joinDigits? Char.isDigit (rest.takeWhile isPart)), rest.dropWhile isPart)
  | rest => some ([], rest)

def exponent? : List Char → Option (List Char)
  | [] => some []
  | c :: rest => do
    if c ≠ 'e' && c ≠ 'E' then none
    let (negative, digits) := splitSign rest
    return 'e' :: (if negative then ['-'] else []) ++ (← joinDigits? Char.isDigit digits)

/-- A float without its sign: an integer with a fraction, an exponent, or both. -/
def magnitude? (cs : List Char) : Option (List Char) := do
  let isPart (c : Char) := c.isDigit || c = '_'
  let whole ← decimal? (cs.takeWhile isPart)
  let (places, rest) ← places? (cs.dropWhile isPart)
  let exponent ← exponent? rest
  if places.isEmpty && exponent.isEmpty then none else some (whole ++ places ++ exponent)

/-- A float. A positive one that is too large is refused. -/
def float? (cs : List Char) : Option Toml :=
  let (negative, rest) := splitSign cs
  let sign := if negative then ['-'] else []
  if rest = ['i', 'n', 'f'] || rest = ['n', 'a', 'n'] then some (.float (.ofList (sign ++ rest)))
  else do
    let magnitude ← magnitude? rest
    if negative || (Binary64.ofLiteral? magnitude).isSome then
      some (.float (.ofList (sign ++ magnitude)))
    else none

def bare? (cs : List Char) : Option Toml :=
  if cs = "true".toList then some (.boolean true)
  else if cs = "false".toList then some (.boolean false)
  else (Datetime.text? cs).map .datetime <|> float? cs <|> integer? cs

/-- The extent of a value without quotes or brackets. A blank may stand between a date and a
time. -/
def bareExtent (cs : List Char) : List Char :=
  let first := cs.takeWhile isBareChar
  match Datetime.date? first, cs.drop first.length with
  | some (_, []), ' ' :: rest =>
    match rest with
    | h :: h' :: ':' :: _ =>
      if h.isDigit && h'.isDigit then first ++ ' ' :: rest.takeWhile isBareChar else first
    | _ => first
  | _, _ => first

/-! ### Keys and values -/

def maxDepth : Nat := 79

def simpleKey? : List Char → Option (String × List Char)
  | '"' :: rest => lineText? '"' rest
  | '\'' :: rest => lineText? '\'' rest
  | cs =>
    let name := cs.takeWhile isKeyChar
    if name.isEmpty then none else some (.ofList name, cs.drop name.length)

/-- The parts of a key: those before the last, and the last. `parts` bounds their number. -/
def key? : Nat → List Char → Option (List String × String × List Char)
  | 0, _ => none
  | parts + 1, cs => do
    let (name, rest) ← simpleKey? (skipBlanks cs)
    match skipBlanks rest with
    | '.' :: rest =>
      let (path, last, rest) ← key? parts rest
      return (name :: path, last, rest)
    | rest => return ([], name, rest)

/-- The key of a field and the place of its value. -/
def field? (cs : List Char) : Option (List String × String × List Char) := do
  match ← key? maxDepth cs with
  | (path, key, '=' :: rest) => return (path, key, skipBlanks rest)
  | _ => none

mutual
/-- A value. `depth` is how many more collections may be opened; `fuel` bounds the steps. -/
def value? : Nat → Nat → List Char → Option (Toml × List Char)
  | 0, _, _ => none
  | fuel + 1, depth, cs =>
    match cs with
    | '"' :: rest => (quotedText? '"' rest).map fun (s, rest) => (.string s, rest)
    | '\'' :: rest => (quotedText? '\'' rest).map fun (s, rest) => (.string s, rest)
    | '[' :: rest =>
      if depth = 0 then none
      else (items? fuel (depth - 1) rest).map fun (vs, rest) => (.array vs, rest)
    | '\x7b' :: rest =>
      if depth = 0 then none
      else match skipBlanks rest with
        | '\x7d' :: rest => some (.table [], rest)
        | rest =>
          (fields? fuel (depth - 1) [] rest).map fun (t, rest) => (.table (entriesToToml t), rest)
    | cs =>
      let extent := bareExtent cs
      (bare? extent).map (·, cs.drop extent.length)
/-- The values of an array up to its end. A comma may follow the last one. -/
def items? : Nat → Nat → List Char → Option (List Toml × List Char)
  | 0, _, _ => none
  | fuel + 1, depth, cs => do
    match ← passSpace? false cs with
    | ']' :: rest => return ([], rest)
    | cs =>
      let (v, rest) ← value? fuel depth cs
      match ← passSpace? false rest with
      | ',' :: rest =>
        let (vs, rest) ← items? fuel depth rest
        return (v :: vs, rest)
      | ']' :: rest => return ([v], rest)
      | _ => none
/-- The fields of an inline table up to its end, added to those read before. -/
def fields? : Nat → Nat → Table → List Char → Option (Table × List Char)
  | 0, _, _, _ => none
  | fuel + 1, depth, t, cs => do
    let (path, key, rest) ← field? cs
    let (v, rest) ← value? fuel depth rest
    let t ← t.assign? path key v
    match skipBlanks rest with
    | ',' :: rest => fields? fuel depth t rest
    | '\x7d' :: rest => return (t, rest)
    | _ => none
end

/-! ### Documents -/

/-- A document up to some line: its tables, and where those fields go that follow. -/
structure Document where
  root : Table := []
  heading : List String := []

namespace Document

def header? (d : Document) (cs : List Char) : Option (Document × List Char) := do
  match cs with
  | '[' :: rest =>
    match ← key? maxDepth rest with
    | (path, key, ']' :: ']' :: rest) =>
      return (⟨← d.root.append? path key, path ++ [key]⟩, rest)
    | _ => none
  | rest =>
    match ← key? maxDepth rest with
    | (path, key, ']' :: rest) => return (⟨← d.root.open? path key, path ++ [key]⟩, rest)
    | _ => none

def assign? (d : Document) (cs : List Char) : Option (Document × List Char) := do
  let (path, key, rest) ← field? cs
  let (v, rest) ← value? (2 * rest.length + 2) maxDepth rest
  let root ← Table.change? .path (fun _ t => t.assign? path key v) d.heading .header d.root
  return ({ d with root }, rest)

/-- Reads the remaining lines; `fuel` bounds them. -/
def read? : Nat → Document → List Char → Option Document
  | 0, _, _ => none
  | fuel + 1, d, cs =>
    match skipBlanks cs with
    | [] => some d
    | c :: rest => do
      let (d, rest) ←
        if c = '#' || c = '\n' || c = '\r' then some (d, c :: rest)
        else if c = '[' then d.header? rest
        else d.assign? (c :: rest)
      read? fuel d (← endLine? rest)

end Document

/-- The table that a text describes. A byte order mark may stand in front. -/
def read? (s : String) : Option Toml := do
  let cs := match s.toList with
    | '\ufeff' :: rest => rest
    | cs => cs
  let d ← Document.read? (cs.length + 1) {} cs
  return .table (entriesToToml d.root)

end HttpPlan.Toml
