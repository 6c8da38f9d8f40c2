/-! Text: white space of Unicode, comparison without regard to case, stretches between separators,
numbers in a radix, and percent encoding. -/
namespace HttpPlan.Text

/-- The characters with the property White_Space. -/
def isBlank (c : Char) : Bool :=
  let n := c.toNat
  (0x09 ≤ n && n ≤ 0x0D) || n = 0x20 || n = 0x85 || n = 0xA0 || n = 0x1680 ||
    (0x2000 ≤ n && n ≤ 0x200A) || n = 0x2028 || n = 0x2029 || n = 0x202F || n = 0x205F ||
    n = 0x3000

/-- Comparing text without regard to ASCII case, as header names are. -/
def sameIgnoringCase (a b : String) : Bool := a.toList.map Char.toLower = b.toList.map Char.toLower

section Caseless

variable {a b c : String}

@[simp] theorem sameIgnoringCase_self : sameIgnoringCase a a = true := by
  simp [sameIgnoringCase]

theorem sameIgnoringCase_comm : sameIgnoringCase a b = sameIgnoringCase b a := by
  simp [sameIgnoringCase, eq_comm]

theorem sameIgnoringCase_congr (same : sameIgnoringCase a b) :
    sameIgnoringCase a c = sameIgnoringCase b c := by
  have folded : a.toList.map Char.toLower = b.toList.map Char.toLower := by
    simpa [sameIgnoringCase] using same
  simp [sameIgnoringCase, folded]

end Caseless

/-- The stretches between separators; always at least one. -/
def pieces (separator : Char) : List Char → List (List Char)
  | [] => [[]]
  | c :: rest =>
    if c = separator then [] :: pieces separator rest
    else
      match pieces separator rest with
      | [] => [[c]]
      | first :: more => (c :: first) :: more

/-- What follows the last separator. -/
def lastPiece (separator : Char) (cs : List Char) : List Char :=
  (pieces separator cs).getLast?.getD []

end HttpPlan.Text

/-! Natural numbers written in a radix of at most 36. Letters of either case stand for the digits
from ten up. -/
namespace HttpPlan.Radix

def digit? (radix : Nat) (c : Char) : Option Nat :=
  let value :=
    if c.isDigit then c.toNat - '0'.toNat
    else if 'a' ≤ c ∧ c ≤ 'z' then c.toNat - 'a'.toNat + 10
    else if 'A' ≤ c ∧ c ≤ 'Z' then c.toNat - 'A'.toNat + 10
    else radix
  if value < radix then some value else none

/-- The number that some digits stand for; at least one is needed. -/
def nat? (radix : Nat) : List Char → Option Nat
  | [] => none
  | cs => cs.foldlM (fun n c => (digit? radix c).map (n * radix + ·)) 0

end HttpPlan.Radix

/-! Percent encoding of text as its UTF-8 bytes. Letters, digits, `-`, `.`, `_` and `~` stand for
themselves; every other byte is written as `%` and two upper-case hexadecimal digits. -/
namespace HttpPlan.Percent

def isUnreserved (b : UInt8) : Bool :=
  (48 ≤ b && b ≤ 57) || (65 ≤ b && b ≤ 90) || (97 ≤ b && b ≤ 122) ||
    b = 45 || b = 46 || b = 95 || b = 126

def hexDigit (n : Nat) : Char := "0123456789ABCDEF".toList.getD n '0'

def encodeByte (b : UInt8) : List Char :=
  if isUnreserved b then [Char.ofNat b.toNat]
  else ['%', hexDigit (b.toNat / 16), hexDigit (b.toNat % 16)]

def encodeBytes (bytes : List UInt8) : List Char := bytes.flatMap encodeByte

def encode (s : String) : String := String.ofList (encodeBytes s.toUTF8.toList)

end HttpPlan.Percent
