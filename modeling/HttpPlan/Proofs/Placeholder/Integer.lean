import HttpPlan.Placeholder

/-! Placeholder integers and the bounds of their node, compared exactly. Bounds that are 64-bit
integers or lie between two of them are kept, save that nothing is below the least of them. -/
namespace HttpPlan

namespace Binary64

variable {x : Binary64} {n : Int}

theorem scale_pos : (0 : Int) < scale := by
  rw [scale, Nat.one_shiftLeft]
  exact Int.natCast_pos.mpr (Nat.two_pow_pos 1074)

theorem floor_lt : x.floor < n ↔ x.value < n * scale := Int.ediv_lt_iff_lt_mul scale_pos

theorem le_floor : n ≤ x.floor ↔ n * scale ≤ x.value := Int.le_ediv_iff_mul_le scale_pos

theorem ceil_le : x.ceil ≤ n ↔ x.value ≤ n * scale := by
  have negated : -n ≤ -x.value / scale ↔ -n * scale ≤ -x.value := Int.le_ediv_iff_mul_le scale_pos
  rw [Int.neg_mul, Int.neg_le_neg_iff] at negated
  rw [← negated, ceil]
  omega

theorem lt_ceil : n < x.ceil ↔ n * scale < x.value := by
  rw [← Int.not_le, ← Int.not_le, ceil_le]

/-- A double that is at least the least 64-bit integer and less than the one after the greatest. -/
def InWordRange (x : Binary64) : Prop :=
  -9223372036854775808 * (scale : Int) ≤ x.value ∧ x.value < 9223372036854775808 * (scale : Int)

theorem shiftLeft_coarse {significand shift place : Nat} (coarse : place < shift) :
    significand <<< shift = significand <<< (shift - (place + 1)) * 2 * 1 <<< place := by
  obtain ⟨more, rfl⟩ : ∃ more, shift = more + (place + 1) := ⟨shift - (place + 1), by omega⟩
  simp only [Nat.shiftLeft_eq, Nat.add_sub_cancel, Nat.pow_add, Nat.pow_one, Nat.one_mul]
  rw [Nat.mul_assoc, Nat.mul_assoc, Nat.mul_comm (2 ^ place) 2]

theorem shiftLeft_fine {significand shift place : Nat} (short : significand ≤ 9007199254740992)
    (fine : shift ≤ place) : significand <<< shift ≤ 9007199254740992 * 1 <<< place := by
  rw [Nat.shiftLeft_eq, Nat.one_shiftLeft]
  exact Nat.mul_le_mul short (Nat.pow_le_pow_right (by decide) fine)

/-- Doubles of this size are far apart: none lies between the greatest 64-bit integer and the next
integer. -/
theorem units_le_of_lt (below : x.units < 9223372036854775808 * scale) :
    x.units ≤ 9223372036854775806 * scale := by
  obtain ⟨-, significand, shift, short, units⟩ := x.representable
  rw [units] at below ⊢
  by_cases coarse : 1074 < shift
  · have even : significand <<< shift = significand <<< (shift - (1074 + 1)) * 2 * scale :=
      shiftLeft_coarse coarse
    rw [even] at below ⊢
    have fewer := Nat.lt_of_mul_lt_mul_right below
    exact Nat.mul_le_mul_right _ (by omega)
  · have fine : significand <<< shift ≤ 9007199254740992 * scale :=
      shiftLeft_fine short (Nat.le_of_not_lt coarse)
    omega

theorem value_le_of_lt (below : x.value < 9223372036854775808 * (scale : Int)) :
    x.value ≤ 9223372036854775806 * (scale : Int) := by
  have positive := scale_pos
  have sizes := units_le_of_lt (x := x)
  unfold value at below ⊢
  split
  · omega
  · next sign =>
    rw [if_neg sign] at below
    have counted : x.units < 9223372036854775808 * scale := by omega
    have less := sizes counted
    omega

end Binary64

namespace SchemaNode

/-- An integer within the bounds of a node. -/
structure AllowsInteger (node : SchemaNode) (n : Int) : Prop where
  low : ∀ m ∈ node.minimum,
    if node.exclusiveMinimum then m.value < n * Binary64.scale else m.value ≤ n * Binary64.scale
  high : ∀ m ∈ node.maximum,
    if node.exclusiveMaximum then n * Binary64.scale < m.value else n * Binary64.scale ≤ m.value

/-- Bounds that are 64-bit integers or lie between two of them. -/
def BoundedByWords (node : SchemaNode) : Prop :=
  (∀ m ∈ node.minimum, m.InWordRange) ∧ ∀ m ∈ node.maximum, m.InWordRange

/-- Every integer below the one bound is less than any 64-bit integer. -/
def BelowWords (node : SchemaNode) : Prop :=
  node.minimum = none ∧ node.exclusiveMaximum ∧
    ∃ m ∈ node.maximum, m.value = -9223372036854775808 * (Binary64.scale : Int)

end SchemaNode

namespace Synthesizer

open Binary64

variable {node : SchemaNode} {name : String} {s : Synthesizer} {m : Binary64} {low high n : Int}

theorem toWord_clamps : toWord n = max (-9223372036854775808) (min n 9223372036854775807) := by
  have lowest : Int64.minValue.toInt = -9223372036854775808 := by decide
  have highest : Int64.maxValue.toInt = 9223372036854775807 := by decide
  rw [toWord, lowest, highest]

theorem confine_eq (least : -9223372036854775808 ≤ n) (most : n ≤ 9223372036854775808) :
    confine n = n := by
  have lowest : Int64.minValue.toInt = -9223372036854775808 := by decide
  have highest : Int64.maxValue.toInt = 9223372036854775807 := by decide
  rw [confine, lowest, highest]
  omega

theorem toWord_eq (least : -9223372036854775808 ≤ n) (most : n ≤ 9223372036854775807) :
    toWord n = n := by
  rw [toWord_clamps]
  omega

theorem confine_floor (range : m.InWordRange) : confine m.floor = m.floor :=
  confine_eq (le_floor.mpr range.1) (Int.le_of_lt (floor_lt.mpr range.2))

theorem confine_ceil (range : m.InWordRange) : confine m.ceil = m.ceil := by
  have least : -9223372036854775809 < m.ceil := by
    have positive := scale_pos
    have above := range.1
    exact lt_ceil.mpr (by omega)
  exact confine_eq (by omega) (ceil_le.mpr (Int.le_of_lt range.2))

theorem leastInteger_le (bounded : node.minimum = some m) (range : m.InWordRange)
    (least : leastInteger node = some low) : low ≤ n ↔
      if node.exclusiveMinimum then m.value < n * scale else m.value ≤ n * scale := by
  simp only [leastInteger, bounded, Option.map_some, Option.some.injEq] at least
  by_cases exclusive : node.exclusiveMinimum
  · rw [if_pos exclusive, confine_floor range] at least
    rw [if_pos exclusive, ← floor_lt]
    omega
  · rw [if_neg exclusive, confine_ceil range] at least
    rw [if_neg exclusive, ← ceil_le, least]

theorem le_greatestInteger (bounded : node.maximum = some m) (range : m.InWordRange)
    (greatest : greatestInteger node = some high) : n ≤ high ↔
      if node.exclusiveMaximum then n * scale < m.value else n * scale ≤ m.value := by
  simp only [greatestInteger, bounded, Option.map_some, Option.some.injEq] at greatest
  by_cases exclusive : node.exclusiveMaximum
  · rw [if_pos exclusive, confine_ceil range] at greatest
    rw [if_pos exclusive, ← lt_ceil]
    omega
  · rw [if_neg exclusive, confine_floor range] at greatest
    rw [if_neg exclusive, ← le_floor, greatest]

/-- The least integer above a bound is a 64-bit integer. -/
theorem leastInteger_range (bounded : node.minimum = some m) (range : m.InWordRange)
    (least : leastInteger node = some low) :
    -9223372036854775808 ≤ low ∧ low ≤ 9223372036854775807 := by
  have positive := scale_pos
  have gap := value_le_of_lt range.2
  have start := range.1
  have above : low ≤ 9223372036854775807 := by
    rw [leastInteger_le bounded range least]
    split <;> omega
  have below : ¬ low ≤ -9223372036854775809 := by
    rw [leastInteger_le bounded range least]
    split <;> omega
  omega

/-- The greatest integer below a bound is a 64-bit integer, or there is none of those below it. -/
theorem greatestInteger_range (bounded : node.maximum = some m) (range : m.InWordRange)
    (greatest : greatestInteger node = some high) :
    high ≤ 9223372036854775807 ∧ (-9223372036854775808 ≤ high ∨
      node.exclusiveMaximum ∧ m.value = -9223372036854775808 * (scale : Int)) := by
  have positive := scale_pos
  have start := range.1
  have finish := range.2
  have above : ¬ 9223372036854775808 ≤ high := by
    rw [le_greatestInteger bounded range greatest]
    split <;> omega
  refine ⟨by omega, ?_⟩
  rw [le_greatestInteger bounded range greatest]
  by_cases exclusive : node.exclusiveMaximum
  · rw [if_pos exclusive]
    by_cases lowest : m.value = -9223372036854775808 * (scale : Int)
    · exact Or.inr ⟨exclusive, lowest⟩
    · exact Or.inl (by omega)
  · rw [if_neg exclusive]
    exact Or.inl start

theorem allowsInteger_iff (bounded : node.BoundedByWords) : node.AllowsInteger n ↔
    (∀ low, leastInteger node = some low → low ≤ n) ∧
      ∀ high, greatestInteger node = some high → n ≤ high := by
  constructor
  · rintro ⟨above, below⟩
    constructor
    · intro low least
      obtain ⟨m, bound, -⟩ := Option.map_eq_some_iff.mp least
      exact (leastInteger_le bound (bounded.1 m bound) least).mpr (above m bound)
    · intro high greatest
      obtain ⟨m, bound, -⟩ := Option.map_eq_some_iff.mp greatest
      exact (le_greatestInteger bound (bounded.2 m bound) greatest).mpr (below m bound)
  · rintro ⟨above, below⟩
    constructor
    · intro m bound
      have least : leastInteger node = some _ := congrArg (Option.map _) bound
      exact (leastInteger_le bound (bounded.1 m bound) least).mp (above _ least)
    · intro m bound
      have greatest : greatestInteger node = some _ := congrArg (Option.map _) bound
      exact (le_greatestInteger bound (bounded.2 m bound) greatest).mp (below _ greatest)

theorem least_of_some (bounded : node.BoundedByWords) (least : leastInteger node = some low) :
    -9223372036854775808 ≤ low ∧ low ≤ 9223372036854775807 := by
  obtain ⟨m, bound, -⟩ := Option.map_eq_some_iff.mp least
  exact leastInteger_range bound (bounded.1 m bound) least

theorem greatest_of_some (bounded : node.BoundedByWords)
    (greatest : greatestInteger node = some high) :
    high ≤ 9223372036854775807 ∧ (leastInteger node = none →
      (-9223372036854775808 ≤ high ↔ ¬ node.BelowWords)) := by
  obtain ⟨m, bound, -⟩ := Option.map_eq_some_iff.mp greatest
  obtain ⟨most, least⟩ := greatestInteger_range bound (bounded.2 m bound) greatest
  refine ⟨most, fun unbounded => ?_⟩
  have no_minimum : node.minimum = none := Option.map_eq_none_iff.mp unbounded
  constructor
  · rintro inside ⟨-, exclusive, other, same, lowest⟩
    cases bound.symm.trans same
    rw [le_greatestInteger bound (bounded.2 m bound) greatest, if_pos exclusive, lowest] at inside
    exact Int.lt_irrefl _ inside
  · intro within
    rcases least with inside | ⟨exclusive, lowest⟩
    · exact inside
    · exact absurd ⟨no_minimum, exclusive, m, bound, lowest⟩ within

/-- Unless it is noted that the bounds leave no integer, the placeholder is within them; the one
exception is a node with no lower bound that leaves nothing but integers of more than 64 bits. -/
theorem integer_allowed (bounded : node.BoundedByWords)
    (quiet : (integer node name s).2.notes = s.notes) :
    node.AllowsInteger (integer node name s).1 ↔ ¬ node.BelowWords := by
  rw [allowsInteger_iff bounded]
  unfold integer at quiet ⊢
  cases least : leastInteger node with
  | some low =>
    have lows := least_of_some bounded least
    have covered : ¬ node.BelowWords := by
      rintro ⟨unbounded, -⟩
      simp [leastInteger, unbounded] at least
    cases greatest : greatestInteger node with
    | some high =>
      have highs := greatest_of_some bounded greatest
      rw [least, greatest] at quiet
      by_cases empty : high < low
      · simp [empty, warn, note] at quiet
      · simp only [empty, if_false]
        rw [toWord_eq (by omega) (by omega)]
        simp only [Option.some.injEq, forall_eq', covered, not_false_eq_true, iff_true]
        omega
    | none =>
      dsimp only
      rw [toWord_eq (by omega) (by omega)]
      simp only [Option.some.injEq, forall_eq', covered, not_false_eq_true, iff_true]
      refine ⟨by omega, nofun⟩
  | none =>
    cases greatest : greatestInteger node with
    | some high =>
      obtain ⟨most, lone⟩ := greatest_of_some bounded greatest
      rw [← lone least]
      simp only [toWord_clamps, Option.some.injEq, forall_eq', reduceCtorEq, false_implies,
        implies_true, true_and]
      omega
    | none =>
      have unbounded : ¬ node.BelowWords := by
        rintro ⟨-, -, m, bound, -⟩
        have found : node.maximum = some m := bound
        simp [greatestInteger, found] at greatest
      simp [unbounded]

end Synthesizer

end HttpPlan
