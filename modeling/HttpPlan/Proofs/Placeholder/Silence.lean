import HttpPlan.Proofs.Placeholder.Midpoint
import HttpPlan.Proofs.Placeholder.Visit
import Mathlib.Data.Nat.Digits.Defs

/-! Texts and integers that violate the bounds of their node. A warning names each of them, except
where the bounds are not looked at, for the fixed texts of a format, or are no longer what they were
when they are compared: lengths are cut at `maxLength`, and integers at 64 bits. -/
namespace HttpPlan

open Relation (ReflTransGen)

namespace Format

variable {n width : Nat} {r : Random}

theorem length_hex (some_digit : 0 < width) (small : n < 16 ^ width) : (hex width n).length = width := by
  have short := Nat.toDigits_length 16 n width some_digit small
  simp only [hex, List.length_append, List.length_replicate]
  omega

theorem length_hex_and {mask : Nat} (some_digit : 0 < width) (small : mask < 16 ^ width) :
    (hex width (n &&& mask)).length = width :=
  length_hex some_digit (Nat.lt_of_le_of_lt Nat.and_le_right small)

theorem length_uuid : (uuid r).1.length = 36 := by
  have eight : ∀ n : UInt32, (hex 8 n.toNat).length = 8 := fun n => length_hex (by decide) n.toNat_lt
  have four : ∀ n : UInt16, (hex 4 n.toNat).length = 4 := fun n => length_hex (by decide) n.toNat_lt
  have three : ∀ n : UInt16, (hex 3 (n.toNat &&& 4095)).length = 3 :=
    fun n => length_hex_and (by decide) (by decide)
  have twelve : ∀ n : UInt64, (hex 12 (n.toNat &&& 281474976710655)).length = 12 :=
    fun n => length_hex_and (by decide) (by decide)
  have one : "-".length = 1 ∧ "4".length = 1 := ⟨rfl, rfl⟩
  simp [uuid, eight, four, three, twelve, one, -UInt16.toNat_or]

/-- The length of the texts of a format that has texts of its own. -/
def length? (format : String) : Option Nat :=
  if format = "uuid" then some 36 else (fixed? format).map String.length

end Format

namespace SchemaNode

/-- A text of a string node, or an integer of an integer node, is within its bounds. -/
structure WithinBounds (node : SchemaNode) (v : Json) : Prop where
  length : ∀ text, v = .string text → node.AllowsLength text.length
  range : ∀ n, v = .number (.int n) → node.AllowsInteger n

theorem withinBounds_string {node : SchemaNode} {text : String} :
    node.WithinBounds (.string text) ↔ node.AllowsLength text.length := by
  constructor
  · exact fun within => within.length text rfl
  · refine fun allows => ⟨?_, nofun⟩
    rintro other ⟨⟩
    exact allows

theorem withinBounds_int {node : SchemaNode} {n : Int} :
    node.WithinBounds (.number (.int n)) ↔ node.AllowsInteger n := by
  constructor
  · exact fun within => within.range n rfl
  · refine fun allows => ⟨nofun, ?_⟩
    rintro other ⟨⟩
    exact allows

/-- The texts of the node's format have a length that its bounds exclude, or the node asks for texts
of more than `maxLength` characters, and its upper bound does not turn down one of `maxLength`. -/
def LengthUnheeded (node : SchemaNode) : Prop :=
  match node.format >>= Format.length? with
  | some length => ¬ node.AllowsLength length
  | none => Synthesizer.maxLength < node.minLength.getD 0 ∧
      Synthesizer.maxLength ≤ node.maxLength.getD Synthesizer.maxLength

/-- The lower bound is above all 64-bit integers, and so is the upper one, if there is one. Both are
then taken for the first integer above them. -/
def AboveWords (node : SchemaNode) : Prop :=
  ∃ m ∈ node.minimum, 9223372036854775808 * (Binary64.scale : Int) ≤ m.value ∧
    ∀ M ∈ node.maximum, 9223372036854775808 * (Binary64.scale : Int) ≤ M.value ∧
      ¬ node.exclusiveMinimum ∧ ¬ node.exclusiveMaximum

/-- The upper bound is below all 64-bit integers, and the lower one, if there is one, leaves out none
of them. Both are then taken for the least of them. -/
def UnderWords (node : SchemaNode) : Prop :=
  ∃ M ∈ node.maximum, (if node.exclusiveMaximum then
      M.value ≤ -9223372036854775808 * (Binary64.scale : Int)
    else M.value < -9223372036854775808 * (Binary64.scale : Int)) ∧
    ∀ m ∈ node.minimum, m.value ≤ -9223372036854775808 * (Binary64.scale : Int) ∧
      ¬ node.exclusiveMinimum ∧ ¬ node.exclusiveMaximum

/-- Bounds that the placeholder of the node violates, though no warning says so. -/
def Unheeded (node : SchemaNode) : Prop :=
  if node.kind = .typed .string then node.LengthUnheeded else node.AboveWords ∨ node.UnderWords

end SchemaNode

/-- A warning about the value of a name. -/
def Diagnostic.Names (name : String) (d : Diagnostic) : Prop :=
  d.severity = .warning ∧ ∃ reason, d.message = "'" ++ name ++ "'" ++ reason

namespace Synthesizer

variable {node : SchemaNode} {name : String} {r : Random} {s u : Synthesizer} {length : Nat}

theorem text_formatted (formatted : node.format >>= Format.length? = some length) :
    (text node name r s).1.length = length ∧ (text node name r s).2.2 = s := by
  obtain ⟨format, given, known⟩ := Option.bind_eq_some_iff.mp formatted
  unfold Format.length? at known
  unfold text
  by_cases identifier : format = "uuid"
  · rw [if_pos identifier] at known
    cases known
    simp [SchemaNode.isUuid, given, identifier, Format.length_uuid]
  · rw [if_neg identifier] at known
    obtain ⟨sample, fixed, rfl⟩ := Option.map_eq_some_iff.mp known
    simp [SchemaNode.isUuid, given, identifier, fixed]

theorem text_unformatted (unformatted : node.format >>= Format.length? = none) :
    (text node name r s).1.length = (textLength node name (patternNote node name s)).1 ∧
      (text node name r s).2.2 = (textLength node name (patternNote node name s)).2 := by
  have free : node.isUuid = false ∧ node.format >>= Format.fixed? = none := by
    cases given : node.format with
    | none => simp [SchemaNode.isUuid, given]
    | some format =>
      simp only [given, Option.bind_eq_bind, Option.bind_some, Format.length?] at unformatted
      split at unformatted
      · cases unformatted
      · next other =>
        simpa [SchemaNode.isUuid, given, other] using unformatted
  unfold text
  simp only [free.1, free.2, Bool.false_eq_true, if_false]
  exact ⟨Phrase.length_draw _ _, trivial⟩

/-- One of the notes between two states warns about the value of a name. -/
def Reports (name : String) (s t : Synthesizer) : Prop :=
  ∃ d ∈ t.notes.drop s.notes.length, d.Names name

theorem not_reports_self : ¬ Reports name s s := by
  simp [Reports]

theorem not_reports_info {message : String} : ¬ Reports name s (s.note .info message) := by
  simp [Reports, note, Diagnostic.Names]

theorem reports_of_warns {t : Synthesizer} (grown : s.notes <+: t.notes) (warns : Warns name t u) :
    Reports name s u := by
  obtain ⟨reason, rfl⟩ := warns
  obtain ⟨added, notes⟩ := grown
  refine ⟨⟨.warning, t.operation, "'" ++ name ++ "'" ++ reason⟩, ?_, rfl, reason, rfl⟩
  simp [warn, note, ← notes]

theorem not_reports_patternNote : ¬ Reports name s (patternNote node name s) := by
  unfold patternNote
  split
  · exact not_reports_info
  · exact not_reports_self

/-- Lengths are compared after they are cut. -/
theorem textLength_eq_of_ordered
    (ordered : min (node.minLength.getD 0) maxLength ≤ min (node.maxLength.getD maxLength) maxLength) :
    textLength node name s = (max (min (node.minLength.getD 0) maxLength)
      (min preferredLength (min (node.maxLength.getD maxLength) maxLength)), s) := by
  unfold textLength
  exact if_neg (Nat.not_lt.mpr ordered)

theorem warns_textLength
    (inverted : min (node.maxLength.getD maxLength) maxLength < min (node.minLength.getD 0) maxLength) :
    Warns name s (textLength node name s).2 := by
  unfold textLength
  dsimp only
  rw [if_pos inverted]
  refine ⟨": minLength " ++ toString (min (node.minLength.getD 0) maxLength) ++
    " exceeds maxLength " ++ toString (min (node.maxLength.getD maxLength) maxLength) ++
      ", using minLength", ?_⟩
  simp only [String.append_assoc]
  rfl

theorem notes_patternNote : s.notes <+: (patternNote node name s).notes := by
  rw [patternNote_eq]
  exact List.prefix_append _ _

theorem allowsLength_iff (short : length ≤ maxLength) : node.AllowsLength length ↔
    node.minLength.getD 0 ≤ length ∧ length ≤ node.maxLength.getD maxLength := by
  unfold SchemaNode.AllowsLength
  cases node.minLength <;> cases node.maxLength <;> simp [short]

/-- The text of a node violates its bounds without a warning just where they are not heeded. -/
theorem text_unheeded : (¬ node.AllowsLength (text node name r s).1.length ∧
    ¬ Reports name s (text node name r s).2.2) ↔ node.LengthUnheeded := by
  unfold SchemaNode.LengthUnheeded
  split
  · next length formatted =>
    obtain ⟨exact, same⟩ : (text node name r s).1.length = length ∧ (text node name r s).2.2 = s :=
      text_formatted formatted
    rw [exact, same]
    exact and_iff_left not_reports_self
  · next unformatted =>
    obtain ⟨exact, same⟩ : (text node name r s).1.length =
          (textLength node name (patternNote node name s)).1 ∧
        (text node name r s).2.2 = (textLength node name (patternNote node name s)).2 :=
      text_unformatted unformatted
    rw [exact, same]
    by_cases inverted : min (node.maxLength.getD maxLength) maxLength <
        min (node.minLength.getD 0) maxLength
    · refine iff_of_false (fun silent => silent.2 ?_) (by omega)
      exact reports_of_warns notes_patternNote (warns_textLength inverted)
    · rw [Nat.not_lt] at inverted
      have preferred : preferredLength ≤ maxLength := by decide
      rw [textLength_eq_of_ordered inverted, allowsLength_iff (by omega)]
      refine (and_iff_left not_reports_patternNote).trans ?_
      omega

theorem allowsInteger_rounded {n : Int} : node.AllowsInteger n ↔
    (∀ m ∈ node.minimum, if node.exclusiveMinimum then m.floor < n else m.ceil ≤ n) ∧
      ∀ M ∈ node.maximum, if node.exclusiveMaximum then n < M.ceil else n ≤ M.floor := by
  simp only [Binary64.floor_lt, Binary64.ceil_le, Binary64.lt_ceil, Binary64.le_floor]
  exact ⟨fun allows => ⟨allows.low, allows.high⟩, fun both => ⟨both.1, both.2⟩⟩

theorem aboveWords_rounded : node.AboveWords ↔ ∃ m ∈ node.minimum, 9223372036854775808 ≤ m.floor ∧
    ∀ M ∈ node.maximum, 9223372036854775808 ≤ M.floor ∧
      ¬ node.exclusiveMinimum ∧ ¬ node.exclusiveMaximum := by
  simp only [SchemaNode.AboveWords, Binary64.le_floor]

theorem underWords_rounded : node.UnderWords ↔ ∃ M ∈ node.maximum,
    (if node.exclusiveMaximum then M.ceil ≤ -9223372036854775808
      else M.floor < -9223372036854775808) ∧
    ∀ m ∈ node.minimum, m.ceil ≤ -9223372036854775808 ∧
      ¬ node.exclusiveMinimum ∧ ¬ node.exclusiveMaximum := by
  simp only [SchemaNode.UnderWords, Binary64.ceil_le, Binary64.floor_lt]

theorem reports_integer : Reports name s (integer node name s).2 ↔ Excludes node := by
  have warned : Warns name s (integer node name s).2 ↔ Excludes node := warns_integer.1
  rw [← warned]
  constructor
  · intro reports
    refine warns_integer.2.resolve_right fun same => ?_
    rw [same] at reports
    exact not_reports_self reports
  · exact reports_of_warns List.prefix_rfl

/-- No double rounds up to the greatest 64-bit integer without being greater. -/
theorem rounded_near (m : Binary64) : m.floor ≤ m.ceil ∧ m.ceil ≤ m.floor + 1 ∧
    (9223372036854775807 ≤ m.ceil → 9223372036854775808 ≤ m.floor) := by
  have scale := Binary64.scale_pos
  have down := (Binary64.le_floor (x := m)).mp (Int.le_refl _)
  have up := (Binary64.floor_lt (x := m)).mp (Int.lt_succ _)
  refine ⟨?_, Binary64.ceil_le.mpr (Int.le_of_lt up), fun large => Classical.byContradiction fun small => ?_⟩
  · refine Int.not_lt.mp fun less => ?_
    have below := Binary64.ceil_le.mp (Int.le_sub_one_of_lt less)
    rw [Int.sub_mul] at below
    omega
  · have gap := Binary64.value_le_of_lt (Binary64.floor_lt.mp (Int.not_le.mp small))
    have less := Binary64.ceil_le.mpr gap
    omega

theorem leastInteger_rounded {m : Binary64} (bound : node.minimum = some m) :
    leastInteger node = some (max (-9223372036854775808) (min (if node.exclusiveMinimum then m.floor
      else m.ceil) 9223372036854775808) + if node.exclusiveMinimum then 1 else 0) := by
  cases exclusive : node.exclusiveMinimum <;> simp [leastInteger, bound, exclusive, confine_clamps]

theorem greatestInteger_rounded {M : Binary64} (bound : node.maximum = some M) :
    greatestInteger node = some (max (-9223372036854775808) (min (if node.exclusiveMaximum then M.ceil
      else M.floor) 9223372036854775808) - if node.exclusiveMaximum then 1 else 0) := by
  cases exclusive : node.exclusiveMaximum <;> simp [greatestInteger, bound, exclusive, confine_clamps]

theorem excludes_between {low high : Int} (least : leastInteger node = some low)
    (greatest : greatestInteger node = some high) : Excludes node ↔ high < low := by
  simp [Excludes, least, greatest]

/-- The integer of a node violates its bounds without a warning just where they are not heeded. -/
theorem integer_unheeded : (¬ node.AllowsInteger (integer node name s).1 ∧
    ¬ Reports name s (integer node name s).2) ↔ node.AboveWords ∨ node.UnderWords := by
  rw [reports_integer, allowsInteger_rounded, aboveWords_rounded, underWords_rounded]
  cases least : node.minimum with
  | none =>
    have unbounded : leastInteger node = none := by simp [leastInteger, least]
    cases greatest : node.maximum with
    | none =>
      simp
    | some M =>
      have near := rounded_near M
      have quiet : ¬ Excludes node := by simp [Excludes, unbounded]
      simp only [integer, unbounded, greatestInteger_rounded greatest, toWord_clamps, quiet,
        Option.mem_def, Option.some.injEq, reduceCtorEq, forall_eq', exists_eq_left',
        IsEmpty.forall_iff, implies_true, false_and, exists_false, true_and, and_true, false_or,
        not_false_eq_true]
      cases node.exclusiveMaximum <;> simp only [Bool.false_eq_true, if_true, if_false] <;> omega
  | some m =>
    have near := rounded_near m
    cases greatest : node.maximum with
    | none =>
      have quiet : ¬ Excludes node := by simp [Excludes, greatestInteger, greatest]
      have unbounded : greatestInteger node = none := by simp [greatestInteger, greatest]
      simp only [integer, unbounded, leastInteger_rounded least, toWord_clamps, quiet,
        Option.mem_def, Option.some.injEq, reduceCtorEq, forall_eq', exists_eq_left',
        IsEmpty.forall_iff, implies_true, false_and, exists_false, and_true, or_false,
        not_false_eq_true]
      cases node.exclusiveMinimum <;> simp only [Bool.false_eq_true, if_true, if_false] <;> omega
    | some M =>
      have also := rounded_near M
      have low := leastInteger_rounded least
      have high := greatestInteger_rounded greatest
      rw [excludes_between low high, integer_between low high, toWord_clamps]
      simp only [Option.mem_some, forall_eq', exists_eq_left']
      cases node.exclusiveMinimum <;> cases node.exclusiveMaximum <;>
        simp only [Bool.false_eq_true, if_true, if_false, not_false_eq_true, not_true_eq_false,
          and_true, and_false, or_self, iff_false] <;> split <;> omega

section visits

variable {arena : SchemaArena} {root : SchemaId} {v : Visit}

theorem outcome_string (enters : v.Enters arena) (kind : (arena.node v.id).kind = .typed .string) :
    v.outcome arena = (.string (text (arena.node v.id) v.name v.random v.state).1,
      (text (arena.node v.id) v.name v.random v.state).2) := by
  obtain ⟨fuel, spare⟩ := Nat.exists_eq_succ_of_ne_zero enters.fuel
  rw [Visit.outcome, spare, value_of_string enters.fresh enters.undocumented kind]

theorem outcome_integer (enters : v.Enters arena) (kind : (arena.node v.id).kind = .typed .integer) :
    v.outcome arena = (.number (.int (integer (arena.node v.id) v.name v.state).1), v.random,
      (integer (arena.node v.id) v.name v.state).2) := by
  obtain ⟨fuel, spare⟩ := Nat.exists_eq_succ_of_ne_zero enters.fuel
  rw [Visit.outcome, spare, value_of_integer enters.fresh enters.undocumented kind]

theorem visit_unheeded (enters : v.Enters arena) (kind : (arena.node v.id).kind = .typed .string ∨
    (arena.node v.id).kind = .typed .integer) :
    (¬ (arena.node v.id).WithinBounds (v.result arena) ∧
      ¬ Reports v.name v.state (v.outcome arena).2.2) ↔ (arena.node v.id).Unheeded := by
  rw [Visit.result, SchemaNode.Unheeded]
  rcases kind with string | integer
  · rw [outcome_string enters string, if_pos string, SchemaNode.withinBounds_string]
    exact text_unheeded
  · rw [outcome_integer enters integer, integer, if_neg (by decide), SchemaNode.withinBounds_int]
    exact integer_unheeded

/-- While a placeholder is made, an undocumented text or integer on the way violates the bounds of
its node without a warning about it just where these are not heeded. What its call notes is noted by
the whole. -/
theorem synthesize_unheeded (closed : arena.Closed) (bound : root < arena.size)
    (reached : ReflTransGen (Visit.Makes arena) (Visit.root arena root name s) v)
    (undocumented : documented? (arena.node v.id) = none)
    (kind : (arena.node v.id).kind = .typed .string ∨ (arena.node v.id).kind = .typed .integer) :
    (∃ before after, (s.synthesize arena root name).2.notes =
      s.notes ++ (before ++ v.noted arena ++ after)) ∧
    ((arena.node v.id).kind = .typed .string → ∃ text, v.result arena = .string text) ∧
    ((arena.node v.id).kind = .typed .integer → ∃ n, v.result arena = .number (.int n)) ∧
    ((¬ (arena.node v.id).WithinBounds (v.result arena) ∧ ∀ d ∈ v.noted arena, ¬ d.Names v.name) ↔
      (arena.node v.id).Unheeded) := by
  have fuelled := Visit.fuelled_of_reached closed (Visit.fuelled_root bound) reached
  -- No call stands in one for a text or an integer, so this one is not cut short.
  have fresh : v.id ∉ v.inside := fun inside => by
    have nests := Visit.nests_of_reached reached v.id inside
    rcases kind with string | integer
    · simp [string] at nests
    · simp [integer] at nests
  have enters := fuelled.enters fresh undocumented
  refine ⟨?_, fun string => ⟨_, congrArg Prod.fst (outcome_string enters string)⟩,
    fun integer => ⟨_, congrArg Prod.fst (outcome_integer enters integer)⟩, ?_⟩
  · obtain ⟨before, after, whole⟩ := Visit.noted_infix reached
    refine ⟨before, after, ?_⟩
    rw [whole, Visit.synthesize_eq_root]
    exact Visit.notes_outcome
  · rw [← visit_unheeded enters kind, Reports]
    simp only [not_exists, not_and]
    rfl

end visits

/-- A text of at least thirty thousand characters and at most twenty thousand. -/
def contradictory : SchemaArena :=
  ⟨[{ kind := .typed .string, minLength := some 30000, maxLength := some 20000 }]⟩

/-- Bounds that exclude each other go unnoticed when both are cut to the same length. -/
theorem contradiction_unnoticed : (∀ length, ¬ (contradictory.node 0).AllowsLength length) ∧
    ∃ text, ({} : Synthesizer).synthesize contradictory 0 "n" = (.string text, {}) := by
  constructor
  · rintro length ⟨least, most⟩
    have low := least 30000 rfl
    have high := most 20000 rfl
    omega
  · have quiet : ∀ r, (text (contradictory.node 0) "n" r {}).2.2 = {} := by
      intro r
      rw [(text_unformatted rfl).2, textLength_eq_of_ordered (by decide)]
      rfl
    refine ⟨(text (contradictory.node 0) "n" (.ofSeed (seed "n")) {}).1, ?_⟩
    exact congrArg (Prod.mk _) (quiet (.ofSeed (seed "n")))

/-- A body whose name is to have eight characters at least and two at most. -/
def inverted : SchemaArena :=
  ⟨[{ kind := .typed .object, properties := .ofList [("name", 1)], required := .ofList ["name"] },
    { kind := .typed .string, minLength := some 8, maxLength := some 2 }]⟩

theorem synthesize_unheeded_inverted : inverted.Closed ∧ ∃ v : Visit, v.name = "body.name" ∧
    ReflTransGen (Visit.Makes inverted) (Visit.root inverted 0 "body" {}) v ∧
      documented? (inverted.node v.id) = none ∧
        (inverted.node v.id).kind = .typed .string ∧
          ∃ d ∈ (({} : Synthesizer).synthesize inverted 0 "body").2.notes, d.Names "body.name" := by
  have closed : inverted.Closed := by
    unfold SchemaArena.Closed SchemaNode.Below
    decide
  have enters : (Visit.root inverted 0 "body" {}).Enters inverted := ⟨by decide, by decide, rfl⟩
  have makes : Visit.Makes inverted (Visit.root inverted 0 "body" {})
      ((Visit.root inverted 0 "body" {}).inner 1 "body.name" (.ofSeed (seed "body")) {}) :=
    @Visit.Makes.field inverted (Visit.root inverted 0 "body" {}) [] [] "name" 1 enters rfl rfl
  obtain ⟨⟨before, after, notes⟩, made, -, unheeded⟩ :=
    @synthesize_unheeded "body" {} inverted 0 _ closed (by decide) (.single makes) rfl
      (Or.inl rfl)
  refine ⟨closed, _, rfl, .single makes, rfl, rfl, ?_⟩
  have heeded : ¬ (inverted.node 1).Unheeded := by
    rintro ⟨long, -⟩
    exact absurd long (by decide)
  have outside : ∀ text, ¬ (inverted.node 1).WithinBounds (.string text) := by
    intro text within
    have least := (within.length text rfl).1 8 rfl
    have most := (within.length text rfl).2 2 rfl
    omega
  by_contra silent
  refine heeded (unheeded.mp ⟨?_, fun d member names => silent ⟨d, ?_, names⟩⟩)
  · obtain ⟨text, same⟩ := made rfl
    rw [same]
    exact outside text
  · rw [notes]
    simp [member]

end Synthesizer

end HttpPlan
