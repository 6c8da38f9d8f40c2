import HttpPlan.Text

/-! Finite IEEE 754 doubles. A value is a signed count of the smallest positive double, so
comparison and rounding to an integer are exact integer arithmetic. The other operations form
an exact quotient and round it once, to the nearest double, a tie going to the even one. -/
namespace HttpPlan

namespace Binary64

/-- How many of the smallest positive double, 2⁻¹⁰⁷⁴, make one. -/
def scale : Nat := 1 <<< 1074

/-- The first count that is too large for a double: 2¹⁰²⁴. -/
def limit : Nat := 1 <<< 2098

/-- Counts that a double can hold: 53 significant bits, below `limit`. -/
def Representable (units : Nat) : Prop :=
  units < limit ∧ ∃ significand shift, significand ≤ 1 <<< 53 ∧ units = significand <<< shift

end Binary64

structure Binary64 where
  negative : Bool
  units : Nat
  representable : Binary64.Representable units
deriving DecidableEq

namespace Binary64

/-- The weight of the last of 53 bits in a count of this size. -/
def step (units : Nat) : Nat := 1 <<< (units.log2 - 52)

/-- The multiple of `step` nearest to `num / den`, a tie going to the even multiple. -/
def nearest (num den : Nat) : Nat :=
  let unit := den * step (num / den)
  let quotient := num / unit
  let twice := 2 * (num % unit)
  let up := unit < twice ∨ (unit = twice ∧ quotient % 2 = 1)
  (if up then quotient + 1 else quotient) * step (num / den)

theorem div_step_lt (units : Nat) : units / step units < 1 <<< 53 := by
  have bound := Nat.lt_log2_self (n := units)
  apply Nat.div_lt_of_lt_mul
  apply Nat.lt_of_lt_of_le bound
  rw [step, Nat.one_shiftLeft, Nat.one_shiftLeft, ← Nat.pow_add]
  exact Nat.pow_le_pow_right (by decide) (by omega)

theorem mul_step (quotient units : Nat) :
    quotient * step units = quotient <<< (units.log2 - 52) := by
  rw [step, Nat.one_shiftLeft, Nat.shiftLeft_eq]

theorem nearest_eq (num den : Nat) :
    ∃ significand shift, significand ≤ 1 <<< 53 ∧ nearest num den = significand <<< shift := by
  have small := div_step_lt (num / den)
  rw [Nat.div_div_eq_div_mul] at small
  refine ⟨_, (num / den).log2 - 52, ?_, mul_step _ _⟩
  split <;> omega

/-- The double nearest to `num / den`, or nothing when that is too large. -/
def ofQuotient? (negative : Bool) (num den : Nat) : Option Binary64 :=
  let units := nearest num den
  if small : units < limit then
    some ⟨negative, units, small, nearest_eq num den⟩
  else
    none

def zero (negative : Bool) : Binary64 :=
  ⟨negative, 0, by decide +kernel, 0, 0, by decide, rfl⟩

def one : Binary64 := ⟨false, scale, by decide +kernel, 1, 1074, by decide, by decide +kernel⟩

def ofInt? (n : Int) : Option Binary64 := ofQuotient? (n < 0) (n.natAbs * scale) 1

/-- The double nearest to `digits · 10 ^ exponent`. Exponents far outside the range are settled
without forming the power. -/
def ofDecimal? (negative : Bool) (digits : Nat) (exponent : Int) : Option Binary64 :=
  let magnitude := exponent + (Nat.toDigits 10 digits).length
  if digits = 0 ∨ magnitude < -400 then some (zero negative)
  else if 400 < magnitude then none
  else ofQuotient? negative (digits * Nat.pow 10 exponent.toNat * scale) (Nat.pow 10 (-exponent).toNat)

/-- The exact value, as a count of 2⁻¹⁰⁷⁴. -/
def value (x : Binary64) : Int := if x.negative then -x.units else x.units

instance : LT Binary64 := ⟨fun x y => x.value < y.value⟩
instance : LE Binary64 := ⟨fun x y => x.value ≤ y.value⟩
instance (x y : Binary64) : Decidable (x < y) := inferInstanceAs (Decidable (x.value < y.value))
instance (x y : Binary64) : Decidable (x ≤ y) := inferInstanceAs (Decidable (x.value ≤ y.value))

def floor (x : Binary64) : Int := x.value / scale
def ceil (x : Binary64) : Int := -(-x.value / scale)

def neg (x : Binary64) : Binary64 := { x with negative := !x.negative }

/-- A sum of zero is negative only when both terms are. -/
def add? (x y : Binary64) : Option Binary64 :=
  let sum := x.value + y.value
  let negative := if sum = 0 then x.negative && y.negative else sum < 0
  ofQuotient? negative sum.natAbs 1

def mul? (x y : Binary64) : Option Binary64 :=
  ofQuotient? (x.negative != y.negative) (x.units * y.units) scale

/-- Division by zero gives nothing, as a quotient that is too large does. -/
def div? (x y : Binary64) : Option Binary64 :=
  if y.units = 0 then none
  else ofQuotient? (x.negative != y.negative) (x.units * scale) y.units

def half? (x : Binary64) : Option Binary64 := ofQuotient? x.negative x.units 2

end Binary64

end HttpPlan

/-! Doubles from decimal literals: digits with at most one point among or around them, then
possibly an exponent. The literal is rounded once. -/
namespace HttpPlan.Binary64

/-- The exponent that a literal ends in, zero when there is none. -/
def exponent? : List Char → Option Int
  | [] => some 0
  | 'e' :: '-' :: digits | 'E' :: '-' :: digits => (Radix.nat? 10 digits).map fun n => -n
  | 'e' :: '+' :: digits | 'E' :: '+' :: digits => (Radix.nat? 10 digits).map Int.ofNat
  | 'e' :: digits | 'E' :: digits => (Radix.nat? 10 digits).map Int.ofNat
  | _ => none

/-- The digits after the point, with what follows them. -/
def fraction : List Char → List Char × List Char
  | '.' :: rest => rest.span Char.isDigit
  | rest => ([], rest)

/-- Reads a literal without a sign. Nothing comes of a malformed or too large one. -/
def ofMagnitude? (negative : Bool) (cs : List Char) : Option Binary64 := do
  let (whole, rest) := cs.span Char.isDigit
  let (places, rest) := fraction rest
  let digits ← Radix.nat? 10 (whole ++ places)
  ofDecimal? negative digits ((← exponent? rest) - places.length)

def ofLiteral? : List Char → Option Binary64
  | '-' :: rest => ofMagnitude? true rest
  | '+' :: rest => ofMagnitude? false rest
  | cs => ofMagnitude? false cs

end HttpPlan.Binary64
