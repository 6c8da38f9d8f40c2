import HttpPlan.Json
import HttpPlan.Binary64.Shortest

/-! JSON text. `compact` writes a value without any space; `prettyLines` writes it as lines, two
spaces deeper at each level. -/
namespace HttpPlan

/-- Doubles are positional from 0.00001 up to sixteen digits before the point, and always show
that they are not integers. -/
def Number.layout : Layout := ⟨some (-5, 15), true⟩

def Number.text : Number → String
  | .int n => toString n
  | .float x => layout.write x

namespace Json

def hexDigit (n : Nat) : Char := "0123456789abcdef".toList.getD n '0'

/-- Quotes, backslashes and control characters are escaped, and nothing else. -/
def escapeChar (c : Char) : List Char :=
  if c = '"' then ['\\', '"']
  else if c = '\\' then ['\\', '\\']
  else if c = '\x08' then ['\\', 'b']
  else if c = '\t' then ['\\', 't']
  else if c = '\n' then ['\\', 'n']
  else if c = '\x0c' then ['\\', 'f']
  else if c = '\r' then ['\\', 'r']
  else if c.toNat < 32 then
    ['\\', 'u', '0', '0', hexDigit (c.toNat / 16), hexDigit (c.toNat % 16)]
  else [c]

def quote (s : String) : String :=
  String.ofList ('"' :: s.toList.flatMap escapeChar ++ ['"'])

/-- The text of a value that holds no others. -/
def leafText : Json → String
  | null => "null"
  | bool true => "true"
  | bool false => "false"
  | number n => n.text
  | string s => quote s
  | array _ => "[]"
  | object _ => "\x7b\x7d"

mutual
def compact : Json → String
  | array items => "[" ++ ",".intercalate (compactItems items) ++ "]"
  | object fields => "\x7b" ++ ",".intercalate (compactFields fields) ++ "\x7d"
  | v => leafText v
def compactItems : List Json → List String
  | [] => []
  | v :: rest => compact v :: compactItems rest
def compactFields : List (String × Json) → List String
  | [] => []
  | (key, v) :: rest => (quote key ++ ":" ++ compact v) :: compactFields rest
end

/-- Puts `text` in front of the first line. -/
def leadWith (text : String) : List String → List String
  | [] => [text]
  | line :: rest => (text ++ line) :: rest

/-- Ends each block but the last with a comma, and moves all lines two spaces in. -/
def indentBlocks : List (List String) → List String
  | [] => []
  | [block] => block.map ("  " ++ ·)
  | block :: rest =>
    block.dropLast.map ("  " ++ ·) ++
      (block.getLast?.toList.map fun line => "  " ++ line ++ ",") ++ indentBlocks rest

mutual
def prettyLines : Json → List String
  | array [] => ["[]"]
  | array items => "[" :: indentBlocks (prettyItems items) ++ ["]"]
  | object [] => ["\x7b\x7d"]
  | object fields => "\x7b" :: indentBlocks (prettyFields fields) ++ ["\x7d"]
  | v => [leafText v]
def prettyItems : List Json → List (List String)
  | [] => []
  | v :: rest => prettyLines v :: prettyItems rest
def prettyFields : List (String × Json) → List (List String)
  | [] => []
  | (key, v) :: rest => leadWith (quote key ++ ": ") (prettyLines v) :: prettyFields rest
end

def pretty (v : Json) : String := "\n".intercalate (prettyLines v)

mutual
/-- How a parameter value travels: strings without quotes, arrays joined by commas, and nothing
for null. -/
def wireText : Json → String
  | string s => s
  | null => ""
  | array items => ",".intercalate (wireTexts items)
  | v => v.compact
def wireTexts : List Json → List String
  | [] => []
  | v :: rest => wireText v :: wireTexts rest
end

end Json

end HttpPlan
