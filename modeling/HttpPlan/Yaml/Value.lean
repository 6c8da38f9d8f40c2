import HttpPlan.Binary64
import HttpPlan.Json
import HttpPlan.Text
import HttpPlan.Yaml.Node
import HttpPlan.Yaml.Grammar
import HttpPlan.Yaml.Lexer

/-! The JSON value of a YAML node. Keys are the text of their scalars, whatever it looks like;
plain scalars in other places may be null, booleans or numbers. -/
namespace HttpPlan.Yaml

namespace Scalar

def isNull (s : String) : Bool := s = "null" || s = "Null" || s = "NULL" || s = "~"

def bool? (s : String) : Option Bool :=
  if s = "true" || s = "True" || s = "TRUE" then some true
  else if s = "false" || s = "False" || s = "FALSE" then some false
  else none

/-- Digits behind a leading zero are text, not a number. -/
def hasLeadingZero (cs : List Char) : Bool :=
  match cs.dropWhile (fun c => c = '+' || c = '-') with
  | '0' :: d :: rest => (d :: rest).all Char.isDigit
  | _ => false

def magnitude? : List Char → Option Nat
  | '0' :: 'x' :: digits => Radix.nat? 16 digits
  | '0' :: 'o' :: digits => Radix.nat? 8 digits
  | '0' :: 'b' :: digits => Radix.nat? 2 digits
  | digits => if hasLeadingZero digits then none else Radix.nat? 10 digits

def integer? : List Char → Option Int
  | '-' :: rest => (magnitude? rest).map fun n => -n
  | '+' :: rest => (magnitude? rest).map Int.ofNat
  | rest => (magnitude? rest).map Int.ofNat

/-- Whether a number fits 128 bits, signed or unsigned. -/
def isWide (n : Int) : Bool := -(1 <<< 127 : Nat) ≤ n && n < (1 <<< 128 : Nat)

/-- An integer; one that fits 128 bits but not 64 is refused. `otherwise` is for what is no
integer, which includes those that do not fit 128 bits. -/
def integerOr? (otherwise : Option Json) (s : String) : Option Json :=
  match integer? s.toList with
  | none => otherwise
  | some n =>
    if Number.isWord n then some (.number (.int n)) else if isWide n then none else otherwise

/-- Infinities and not-a-numbers have no JSON value. -/
def isSpecialFloat (s : String) : Bool :=
  let forms := [".inf", ".Inf", ".INF"]
  forms.contains s || (forms.map ("+" ++ ·)).contains s || (forms.map ("-" ++ ·)).contains s ||
    s = ".nan" || s = ".NaN" || s = ".NAN"

/-- A decimal float; a plus sign is not followed by another sign. -/
def float? (s : String) : Option Json :=
  if isSpecialFloat s then some .null
  else (Binary64.ofLiteral? s.toList).map fun x => .number (.float x)

/-- The value of a plain scalar without a tag. -/
def plain? (s : String) : Option Json :=
  if s.isEmpty || isNull s then some .null
  else match bool? s with
    | some b => some (.bool b)
    | none =>
      let text := Json.string s
      integerOr? (if hasLeadingZero s.toList then text else (float? s).getD text) s

/-- The value of a scalar. Tags of the document's own are refused. -/
def value? (tag : Option String) (plain : Bool) (s : String) : Option Json :=
  match tag with
  | none => if plain then plain? s else some (.string s)
  | some "tag:yaml.org,2002:null" => if isNull s then some .null else none
  | some "tag:yaml.org,2002:bool" => (bool? s).map .bool
  | some "tag:yaml.org,2002:int" => integerOr? none s
  | some "tag:yaml.org,2002:float" => float? s
  | some tag => if tag.startsWith "!" then none else some (.string s)

end Scalar

namespace Node

/-- Each alias that is followed costs one unit of the state. -/
abbrev Following := StateT Nat Option

/-- The node that an alias stands for: of those with its number, the last to begin. -/
def follow (root : Node Nat) : Node Nat → Following (Node Nat)
  | aliasOf n => do
    let budget ← get
    if budget = 0 then failure
    set (budget - 1)
    root.anchored.reverse.lookup n
  | v => return v

/-- The text of a key. -/
def keyText? : Node Nat → Option String
  | scalar _ _ text => some text
  | _ => none

def isPrivateTag (p : Properties Nat) : Bool := p.tag.any (·.startsWith "!")

/-- The value of a node that is no alias, with at most `depth` collections inside each other. -/
def value (root : Node Nat) : Nat → Node Nat → Following Json
  | _, aliasOf _ => failure
  | _, scalar p plain text => Scalar.value? p.tag plain text
  | 0, _ => failure
  | depth + 1, sequence p items => do
    if isPrivateTag p then failure
    return .array (← items.mapM fun v => do value root depth (← follow root v))
  | depth + 1, mapping p fields => do
    if isPrivateTag p then failure
    let fields ← fields.mapM fun (k, v) => do
      let key ← keyText? (← follow root k)
      return (key, ← value root depth (← follow root v))
    return .object (fields.foldl (fun done (key, v) => Json.setField key v done) [])

def maxDepth : Nat := 128

/-- The JSON value of a document. Aliases may be followed a hundred times for each mark of it. -/
def toJson? (root : Node String) : Option Json := do
  let root ← root.numbered?
  let (v, _) ← (root.value maxDepth root).run (100 * root.size)
  return v

end Node

/-- The JSON value of a text of one document. -/
def read? (s : String) : Option Json := Token.ofText? s >>= Node.ofTokens? >>= Node.toJson?

end HttpPlan.Yaml
