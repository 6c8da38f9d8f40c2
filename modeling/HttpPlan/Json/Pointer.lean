import HttpPlan.Json
import HttpPlan.Text

/-! JSON pointers: the empty one is the whole value, and each `/segment` goes one step down. -/
namespace HttpPlan.Json

/-- In a segment `~1` stands for `/` and `~0` for `~`. -/
def unescapeSegment : List Char → List Char
  | '~' :: '1' :: rest => '/' :: unescapeSegment rest
  | '~' :: '0' :: rest => '~' :: unescapeSegment rest
  | c :: rest => c :: unescapeSegment rest
  | [] => []

/-- An array index is written in digits without leading zeros. -/
def segmentIndex? (segment : List Char) : Option Nat :=
  match segment with
  | [] => none
  | '0' :: _ :: _ => none
  | ds =>
    if ds.all Char.isDigit then some (ds.foldl (fun n c => n * 10 + (c.toNat - '0'.toNat)) 0)
    else none

def descend (v : Json) (segment : List Char) : Option Json :=
  match v with
  | object fields => fields.lookup (String.ofList segment)
  | array items => segmentIndex? segment >>= (items[·]?)
  | _ => none

def pointer? (v : Json) (path : List Char) : Option Json :=
  match path with
  | [] => some v
  | '/' :: rest => ((Text.pieces '/' rest).map unescapeSegment).foldlM descend v
  | _ => none

end HttpPlan.Json
