import HttpPlan.Proofs.Placeholder.Conformance

/-! The placeholder of an integer node. It is always a 64-bit integer, and the arithmetic that leads
to it stays well inside 128 bits. Where the bounds are in the range of 64-bit integers it is one that
they allow, if there is any, and a warning says just when two bounds leave no integer between them. -/
namespace HttpPlan

def IsWord (n : Int) : Prop := Int64.minValue.toInt ≤ n ∧ n ≤ Int64.maxValue.toInt

instance : DecidablePred IsWord := fun n =>
  inferInstanceAs (Decidable (Int64.minValue.toInt ≤ n ∧ n ≤ Int64.maxValue.toInt))

/-- The signed integers of 128 bits. -/
def IsDoubleWord (n : Int) : Prop :=
  -170141183460469231731687303715884105728 ≤ n ∧ n < 170141183460469231731687303715884105728

theorem isWord_iff {n : Int} :
    IsWord n ↔ -9223372036854775808 ≤ n ∧ n ≤ 9223372036854775807 := by
  have lowest : Int64.minValue.toInt = -9223372036854775808 := by decide
  have highest : Int64.maxValue.toInt = 9223372036854775807 := by decide
  rw [IsWord, lowest, highest]

namespace Synthesizer

variable {arena : SchemaArena} {node : SchemaNode} {id : SchemaId} {name : String} {r : Random}
  {s t : Synthesizer} {inside : List SchemaId} {low high n : Int} {fuel : Nat}

/-- All that is noted between two states is one warning about the value of a name. -/
def Warns (name : String) (s t : Synthesizer) : Prop :=
  ∃ reason, t = s.warn ("'" ++ name ++ "'" ++ reason)

theorem not_warns_self : ¬ Warns name s s := by
  rintro ⟨reason, same⟩
  have notes := congrArg Synthesizer.notes same
  simp [warn, note] at notes

/-- What the middle of a range is worked out from, and the middle. -/
def midpointTerms (low high : Int) : List Int :=
  [high - low, (high - low) / 2, low + (high - low) / 2]

theorem confine_clamps : confine n = max (-9223372036854775808) (min n 9223372036854775808) := by
  have lowest : Int64.minValue.toInt = -9223372036854775808 := by decide
  have highest : Int64.maxValue.toInt = 9223372036854775807 := by decide
  rw [confine, lowest, highest]
  rfl

theorem isDoubleWord_confine : IsDoubleWord (confine n) := by
  rw [confine_clamps, IsDoubleWord]
  omega

theorem isWord_toWord : IsWord (toWord n) := by
  rw [isWord_iff, toWord_clamps]
  omega

theorem integer_between (least : leastInteger node = some low)
    (greatest : greatestInteger node = some high) : (integer node name s).1 =
      toWord (if high < low then low else low + (high - low) / 2) := by
  simp only [integer, least, greatest]
  split <;> rfl

/-- Between two bounds that leave an integer, the placeholder is the last of the terms. -/
theorem integer_midpoint (least : leastInteger node = some low)
    (greatest : greatestInteger node = some high) (ordered : low ≤ high) :
    (midpointTerms low high).getLast?.map toWord = some (integer node name s).1 := by
  rw [integer_between least greatest, if_neg (Int.not_lt.mpr ordered)]
  rfl

theorem isWord_integer : IsWord (integer node name s).1 := by
  unfold integer
  split
  · split <;> exact isWord_toWord
  · exact isWord_toWord
  · exact isWord_toWord
  · exact isWord_iff.mpr ⟨by omega, by omega⟩

/-- However large a bound is, the least integer above it is next to a 64-bit one at most. -/
theorem leastInteger_near (least : leastInteger node = some low) :
    -9223372036854775808 ≤ low ∧ low ≤ 9223372036854775809 := by
  obtain ⟨m, -, rfl⟩ := Option.map_eq_some_iff.mp least
  rw [confine_clamps, confine_clamps]
  split <;> omega

theorem greatestInteger_near (greatest : greatestInteger node = some high) :
    -9223372036854775809 ≤ high ∧ high ≤ 9223372036854775808 := by
  obtain ⟨m, -, rfl⟩ := Option.map_eq_some_iff.mp greatest
  rw [confine_clamps, confine_clamps]
  split <;> omega

theorem isDoubleWord_midpointTerms (least : leastInteger node = some low)
    (greatest : greatestInteger node = some high) :
    ∀ k ∈ midpointTerms low high, IsDoubleWord k := by
  have lows := leastInteger_near least
  have highs := greatestInteger_near greatest
  intro k member
  rw [IsDoubleWord]
  simp only [midpointTerms, List.mem_cons, List.not_mem_nil, or_false] at member
  omega

/-- Two bounds that leave no integer between them. -/
def Excludes (node : SchemaNode) : Prop :=
  ∃ low high, leastInteger node = some low ∧ greatestInteger node = some high ∧ high < low

/-- A warning is noted just where two bounds exclude each other, and otherwise nothing is. -/
theorem warns_integer : (Warns name s (integer node name s).2 ↔ Excludes node) ∧
    (Warns name s (integer node name s).2 ∨ (integer node name s).2 = s) := by
  unfold integer
  split
  · next low high least greatest =>
    have only : Excludes node ↔ high < low := by
      simp [Excludes, least, greatest]
    by_cases empty : high < low
    · rw [if_pos empty, only]
      have warned : Warns name s (s.warn ("'" ++ name ++ "': integer range [" ++ toString low ++
          ", " ++ toString high ++ "] is empty, using " ++ toString low)) :=
        ⟨": integer range [" ++ toString low ++ ", " ++ toString high ++ "] is empty, using " ++
          toString low, by simp only [String.append_assoc]; rfl⟩
      exact ⟨iff_of_true warned empty, Or.inl warned⟩
    · rw [if_neg empty, only]
      exact ⟨iff_of_false not_warns_self empty, Or.inr rfl⟩
  all_goals
    refine ⟨iff_of_false not_warns_self ?_, Or.inr rfl⟩
    rintro ⟨low, high, one, two, -⟩
    simp_all

theorem excludes_iff (bounded : node.BoundedByWords) : Excludes node ↔
    node.minimum.isSome ∧ node.maximum.isSome ∧ ∀ k, ¬ node.AllowsInteger k := by
  simp only [allowsInteger_iff bounded]
  constructor
  · rintro ⟨low, high, least, greatest, empty⟩
    obtain ⟨m, minimum, -⟩ := Option.map_eq_some_iff.mp least
    obtain ⟨M, maximum, -⟩ := Option.map_eq_some_iff.mp greatest
    refine ⟨by simp [minimum], by simp [maximum], fun k within => ?_⟩
    have above := within.1 low least
    have below := within.2 high greatest
    omega
  · rintro ⟨minimum, maximum, none⟩
    obtain ⟨low, least⟩ : ∃ low, leastInteger node = some low :=
      Option.isSome_iff_exists.mp (by simp [leastInteger, minimum])
    obtain ⟨high, greatest⟩ : ∃ high, greatestInteger node = some high :=
      Option.isSome_iff_exists.mp (by simp [greatestInteger, maximum])
    refine ⟨low, high, least, greatest, Classical.byContradiction fun ordered => none low ?_⟩
    simp only [least, greatest, Option.some.injEq, forall_eq']
    omega

/-- If the bounds allow some 64-bit integer, they allow the placeholder. -/
theorem integer_within (bounded : node.BoundedByWords)
    (possible : ∃ k, IsWord k ∧ node.AllowsInteger k) :
    node.AllowsInteger (integer node name s).1 := by
  obtain ⟨k, word, within⟩ := possible
  have quiet : (integer node name s).2 = s := by
    refine warns_integer.2.resolve_left fun warned => ?_
    exact ((excludes_iff bounded).mp (warns_integer.1.mp warned)).2.2 k within
  refine (integer_allowed bounded (congrArg Synthesizer.notes quiet)).mpr ?_
  rintro ⟨-, exclusive, m, bound, lowest⟩
  have below := within.high m bound
  rw [if_pos exclusive, lowest] at below
  have less := Int.lt_of_mul_lt_mul_right below (Int.le_of_lt Binary64.scale_pos)
  have least := (isWord_iff.mp word).1
  omega

/-- The placeholder of an integer node that documents no value. Whatever the bounds are, it is a
64-bit integer, the middle between two of them that are in order, and nothing that it is worked out
from leaves 128 bits. Bounds in the range of 64-bit
integers, between two of them or not, allow it if they allow any 64-bit integer; a warning is noted
just where both are given and no integer is between them, and otherwise nothing is noted. -/
theorem value_integer (entered : id ∉ inside) (undocumented : documented? (arena.node id) = none)
    (kind : (arena.node id).kind = .typed .integer) :
    ∃ n t, value arena (fuel + 1) inside id name r s = (.number (.int n), r, t) ∧
      ((arena.node id).BoundedByWords →
        (Warns name s t ↔ (arena.node id).minimum.isSome ∧ (arena.node id).maximum.isSome ∧
          ∀ k, ¬ (arena.node id).AllowsInteger k) ∧
        (Warns name s t ∨ t = s) ∧
        ((∃ k, IsWord k ∧ (arena.node id).AllowsInteger k) → (arena.node id).AllowsInteger n)) ∧
      IsWord n ∧ (∀ bound, IsDoubleWord (confine bound)) ∧
      (∀ low, leastInteger (arena.node id) = some low → IsDoubleWord low) ∧
      (∀ high, greatestInteger (arena.node id) = some high → IsDoubleWord high) ∧
      ∀ low high, leastInteger (arena.node id) = some low →
        greatestInteger (arena.node id) = some high →
          (∀ k ∈ midpointTerms low high, IsDoubleWord k) ∧
          (low ≤ high → (midpointTerms low high).getLast?.map toWord = some n) := by
  refine ⟨(integer (arena.node id) name s).1, (integer (arena.node id) name s).2, ?_, ?_, ?_,
    fun bound => isDoubleWord_confine, fun low least => ?_, fun high greatest => ?_,
    fun low high least greatest =>
      ⟨isDoubleWord_midpointTerms least greatest, integer_midpoint least greatest⟩⟩
  · exact value_of_integer entered undocumented kind
  · intro bounded
    exact ⟨warns_integer.1.trans (excludes_iff bounded), warns_integer.2, integer_within bounded⟩
  · exact isWord_integer
  · have near := leastInteger_near least
    rw [IsDoubleWord]
    omega
  · have near := greatestInteger_near greatest
    rw [IsDoubleWord]
    omega

/-- An integer above minus one and a half that is at most one and a half. -/
def fractional : SchemaArena := ⟨[{
  kind := .typed .integer
  minimum := some preferredNumber.neg
  exclusiveMinimum := true
  maximum := some preferredNumber }]⟩

theorem value_integer_fractional :
    (fractional.node 0).BoundedByWords ∧ (fractional.node 0).AllowsInteger 1 ∧
      ∃ n t, value fractional 2 [] 0 "n" (.ofSeed 0) {} = (.number (.int n), .ofSeed 0, t) ∧
        ¬ Warns "n" {} t ∧ (fractional.node 0).AllowsInteger n := by
  have bounded : (fractional.node 0).BoundedByWords := by
    constructor
    · rintro m ⟨⟩
      constructor <;> decide +kernel
    · rintro m ⟨⟩
      constructor <;> decide +kernel
  have possible : (fractional.node 0).AllowsInteger 1 := by
    constructor
    · rintro m ⟨⟩
      decide +kernel
    · rintro m ⟨⟩
      decide +kernel
  obtain ⟨n, t, made, exact, -⟩ := @value_integer fractional 0 "n" (.ofSeed 0) {} [] 1 (by decide) rfl rfl
  obtain ⟨warned, -, within⟩ := exact bounded
  refine ⟨bounded, possible, n, t, made, fun noted => ?_, within ⟨1, by decide, possible⟩⟩
  exact (warned.mp noted).2.2 1 possible

/-- The least 64-bit integer. -/
def lowest : Binary64 := ⟨true, 1 <<< 1137, by decide +kernel, 1, 1137, by decide, rfl⟩

/-- An integer below all those of 64 bits. -/
def underflowing : SchemaArena := ⟨[{
  kind := .typed .integer
  maximum := some lowest
  exclusiveMaximum := true }]⟩

/-- Below the least 64-bit integer there are integers, but the placeholder is none of them. -/
theorem below_words_missed : (underflowing.node 0).BoundedByWords ∧
    (underflowing.node 0).AllowsInteger (-9223372036854775809) ∧
    ({} : Synthesizer).synthesize underflowing 0 "n" =
      (.number (.int (-9223372036854775808)), {}) ∧
    ¬ (underflowing.node 0).AllowsInteger (-9223372036854775808) := by
  have unbounded : ∀ m, m ∉ (underflowing.node 0).minimum := by
    rintro m ⟨⟩
  refine ⟨⟨fun m given => absurd given (unbounded m), ?_⟩,
    ⟨fun m given => absurd given (unbounded m), ?_⟩, ?_, fun allows => ?_⟩
  · rintro m ⟨⟩
    constructor <;> decide +kernel
  · rintro m ⟨⟩
    decide +kernel
  · have high : greatestInteger (underflowing.node 0) = some (-9223372036854775809) := by
      decide +kernel
    have made : integer (underflowing.node 0) "n" {} = (-9223372036854775808, {}) := by
      unfold integer
      rw [high]
      rfl
    have entered : value underflowing 2 [] 0 "n" (.ofSeed (seed "n")) {} =
        (.number (.int (integer (underflowing.node 0) "n" {}).1), .ofSeed (seed "n"),
          (integer (underflowing.node 0) "n" {}).2) := rfl
    unfold synthesize
    rw [show underflowing.size + 1 = 2 from rfl, entered, made]
  · exact absurd (allows.high lowest rfl) (by decide +kernel)

end Synthesizer

end HttpPlan
