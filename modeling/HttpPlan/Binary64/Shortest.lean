import HttpPlan.Binary64

/-! Decimal text of a double: the fewest digits that read back as the same double and, of those,
the digits nearest to its exact value. `Layout` decides how such digits are written. -/
namespace HttpPlan

/-- The number `digits · 10 ^ exponent`. -/
structure Decimal where
  digits : Nat
  exponent : Int
deriving DecidableEq, Repr

namespace Decimal

def text (d : Decimal) : List Char := Nat.toDigits 10 d.digits

/-- The power of ten of the first digit. -/
def leading (d : Decimal) : Int := d.exponent + d.text.length - 1

/-- Drops zeros from the end of the digits; `count` bounds how many. -/
def strip : Nat → Decimal → Decimal
  | 0, d => d
  | count + 1, d =>
    if d.digits ≠ 0 ∧ d.digits % 10 = 0 then strip count ⟨d.digits / 10, d.exponent + 1⟩ else d

end Decimal

namespace Binary64

/-- The power of ten of the first digit of a positive count. -/
def leading (units : Nat) : Int :=
  if scale ≤ units then (Nat.toDigits 10 (units / scale)).length - 1
  else
    let places := (Nat.toDigits 10 (scale / units)).length
    if scale ≤ units * Nat.pow 10 (places - 1) then -(places - 1 : Nat) else -places

/-- Whether `digits · 10 ^ exponent` is rounded to the double of this positive count. All is
counted in quarters of the smallest double; the gap below a power of two is half as wide. -/
def reads (units digits : Nat) (exponent : Int) : Bool :=
  let gap := step units
  let low := 4 * units - (if units = gap <<< 52 ∧ 1 < gap then gap else 2 * gap)
  let high := 4 * units + 2 * gap
  let point := digits * Nat.pow 10 exponent.toNat * (4 * scale)
  let unit := Nat.pow 10 (-exponent).toNat
  if units / gap % 2 = 0 then low * unit ≤ point ∧ point ≤ high * unit
  else low * unit < point ∧ point < high * unit

/-- The neighbours of the exact value among the numbers with `count` digits that read back,
narrowed to the nearer one; a tie goes to the even one. -/
def shortestWith (units : Nat) (count : Nat) : Option Decimal :=
  let exponent := leading units - count + 1
  let num := units * Nat.pow 10 (-exponent).toNat
  let den := Nat.pow 10 exponent.toNat * scale
  let below := num / den
  match reads units below exponent, reads units (below + 1) exponent with
  | true, false => some ⟨below, exponent⟩
  | false, true => some ⟨below + 1, exponent⟩
  | false, false => none
  | true, true =>
    let twice := 2 * (num % den)
    if twice < den ∨ (twice = den ∧ below % 2 = 0) then some ⟨below, exponent⟩
    else some ⟨below + 1, exponent⟩

/-- Seventeen digits always read back. -/
def shortest (x : Binary64) : Decimal :=
  if x.units = 0 then ⟨0, 0⟩
  else
    match (List.range 17).findSome? (fun n => shortestWith x.units (n + 1)) with
    | some d => d.strip 17
    | none => ⟨0, 0⟩

end Binary64

/-- How the digits of a number are written: the leading powers of ten that are written
positionally (`none` for all), and whether a whole number keeps a fraction digit. -/
structure Layout where
  positional : Option (Int × Int)
  keepsFraction : Bool

namespace Layout

def isPositional (l : Layout) (leading : Int) : Bool :=
  match l.positional with
  | none => true
  | some (least, greatest) => least ≤ leading && leading ≤ greatest

/-- Digits with the point set after the digit of weight one. -/
def positionalText (l : Layout) (d : Decimal) : List Char :=
  let zeros (n : Nat) := List.replicate n '0'
  if 0 ≤ d.exponent then
    d.text ++ zeros d.exponent.toNat ++ (if l.keepsFraction then ['.', '0'] else [])
  else
    let places := (-d.exponent).toNat
    let padded := zeros (places + 1 - d.text.length) ++ d.text
    padded.take (padded.length - places) ++ '.' :: padded.drop (padded.length - places)

/-- One digit, a point if more digits follow, and the signed power of ten. -/
def scientificText (d : Decimal) : List Char :=
  let mark := if d.leading < 0 then ['e', '-'] else ['e', '+']
  let power := mark ++ Nat.toDigits 10 d.leading.natAbs
  match d.text with
  | [] => power
  | [digit] => digit :: power
  | digit :: more => digit :: '.' :: more ++ power

def write (l : Layout) (x : Binary64) : String :=
  let d := x.shortest
  let body := if l.isPositional d.leading then l.positionalText d else scientificText d
  String.ofList (if x.negative then '-' :: body else body)

end Layout

end HttpPlan
