import HttpPlan.Proofs.Json.Record

/-! Assertions read back as they were written, as long as their positions and lengths fit the
64-bit words that numbers are read as. -/
namespace HttpPlan

def LocatorSegment.InWord : LocatorSegment → Prop
  | key _ => True
  | index position => position < UInt64.size

def Locator.InWords (l : Locator) : Prop := ∀ segment ∈ l.segments, segment.InWord

def Check.InWords : Check → Prop
  | lengthBound low high => (∀ n ∈ low, n < UInt64.size) ∧ ∀ n ∈ high, n < UInt64.size
  | _ => True

namespace Assertion

mutual
def InWords : Assertion → Prop
  | check target c => target.InWords ∧ c.InWords
  | guarded target _ body => target.InWords ∧ AllInWords body
def AllInWords : List Assertion → Prop
  | [] => True
  | a :: rest => InWords a ∧ AllInWords rest
end

theorem allInWords_iff {list : List Assertion} : AllInWords list ↔ ∀ a ∈ list, InWords a := by
  induction list with
  | nil => simp [AllInWords]
  | cons a rest ih => simp [AllInWords, ih]

end Assertion

theorem Json.word?_int {n : Nat} (small : n < UInt64.size) :
    (number (.int n)).word? = some n := by
  have bound : (n : Int) < (UInt64.size : Int) := Int.ofNat_lt.mpr small
  simp only [word?, Int.natCast_nonneg, decide_true, bound, Bool.and_self, if_true, Int.toNat_natCast]

theorem Locator.ofJson?_toJson {l : Locator} (inWords : l.InWords) : ofJson? l.toJson = some l := by
  have segments : (l.segments.map LocatorSegment.toJson).mapM LocatorSegment.ofJson? =
      some (l.segments.map id) := Json.mapM_map fun segment member => by
    cases segment with
    | key name => rfl
    | index position =>
      have small : position < UInt64.size := inWords _ member
      simp [LocatorSegment.toJson, LocatorSegment.ofJson?, Json.word?_int small]
  simp [ofJson?, toJson, Json.items?, segments]

theorem JsonType.ofName?_name (type : JsonType) : JsonType.ofName? type.name = some type := by
  cases type <;> decide

/-- Fields beside those of the record that holds them. -/
def Beside (fields : List (String × Json)) (field : String → Option Json) : Prop :=
  ∀ key, key ≠ "target" → key ≠ "check" → key ≠ "then" → field key = fields.lookup key

namespace Check

theorem ofFields?_fields {c : Check} {field : String → Option Json} (inWords : c.InWords)
    (beside : Beside c.fields field) : ofFields? c.tag field = some c := by
  unfold Beside at beside
  cases c with
  | isType types =>
    have names := Json.listOf?_map (fun v => v.alternative? true >>= JsonType.ofName?)
      (fun type => .string type.name) id fun type (_ : type ∈ types) => JsonType.ofName?_name type
    simp only [List.map_id, Option.bind_eq_bind] at names
    simp [tag, fields, ofFields?, beside, names]
  | hasRequiredKeys keys =>
    have names := Json.listOf?_map Json.string? .string id fun key (_ : key ∈ keys) => rfl
    simp [tag, fields, ofFields?, beside, names]
  | enumMembership allowed => simp [tag, fields, ofFields?, beside, Json.items?]
  | matchesPattern pattern => simp [tag, fields, ofFields?, beside, Json.string?]
  | numericRange minimum maximum exclusiveMinimum exclusiveMaximum =>
    have reads : ∀ bound : Option Binary64,
        Json.optional? Json.double? (bound.map fun m => .number (.float m)) = some bound :=
      fun bound => Json.optional?_map _ _ bound (fun _ _ => rfl) fun _ same => by cases same
    cases exclusiveMinimum <;> cases exclusiveMaximum <;>
      simp [tag, fields, ofFields?, beside, List.lookup_append, List.lookup_cons, lookup_present,
        reads, Json.withDefault?, Json.bool?]
  | lengthBound low high =>
    obtain ⟨shortest, longest⟩ := inWords
    have reads : ∀ bound : Option Nat, (∀ n ∈ bound, n < UInt64.size) →
        Json.optional? Json.word? (bound.map fun n : Nat => .number (.int n)) = some bound :=
      fun bound small => Json.optional?_map _ _ bound (fun n inside => Json.word?_int (small n inside))
        fun _ same => by cases same
    simp [tag, fields, ofFields?, beside, List.lookup_append, lookup_present, reads low shortest,
      reads high longest]

end Check

namespace Guard

theorem ofFields?_fields {guard : Guard} {field : String → Option Json}
    (beside : Beside guard.fields field) : ofFields? guard.tag field = some guard := by
  unfold Beside at beside
  cases guard <;> simp [tag, fields, ofFields?, beside, Json.string?]

/-- No check goes by the tag of a guard. -/
theorem not_check (guard : Guard) (field : String → Option Json) :
    Check.ofFields? guard.tag field = none := by
  cases guard <;> rfl

end Guard

namespace Assertion

theorem beside_check (target tag : Json) (fields : List (String × Json)) :
    Beside fields ((("target", target) :: ("check", tag) :: fields).lookup ·) := by
  intro key other another _
  simp [List.lookup_cons, beq_eq_false_iff_ne.mpr other, beq_eq_false_iff_ne.mpr another]

theorem beside_guard (target tag body : Json) (fields : List (String × Json)) :
    Beside fields
      ((("target", target) :: ("check", tag) :: fields ++ [("then", body)]).lookup ·) := by
  intro key other another last
  simp [List.lookup_cons, List.lookup_append, beq_eq_false_iff_ne.mpr other,
    beq_eq_false_iff_ne.mpr another, beq_eq_false_iff_ne.mpr last]

theorem lookup_check (target tag : Json) (fields : List (String × Json)) :
    (("target", target) :: ("check", tag) :: fields).lookup "check" = some tag := by
  simp [List.lookup_cons]

theorem ofJson?_check {target : Locator} {c : Check} (inWords : (check target c).InWords) :
    ofJson? (check target c).toJson = some (check target c) := by
  obtain ⟨place, lengths⟩ := inWords
  have tagged : (Json.string c.tag).tag? tags = some c.tag := by cases c <;> rfl
  have own := Check.ofFields?_fields lengths
    (beside_check target.toJson (.string c.tag) c.fields)
  simp only [toJson, ofJson?]
  simp [lookup_check, Locator.ofJson?_toJson place, tagged, own]

theorem bodyOf?_guarded (target : Locator) (guard : Guard) (items : List Json) :
    bodyOf? (("target", target.toJson) :: ("check", .string guard.tag) :: guard.fields ++
      [("then", .array items)]) = listOfJson? items := by
  cases guard <;> simp [bodyOf?, Guard.fields]

theorem ofJson?_guarded {target : Locator} {guard : Guard} {body : List Assertion}
    (place : target.InWords) (reads : listOfJson? (listToJson body) = some body) :
    ofJson? (guarded target guard body).toJson = some (guarded target guard body) := by
  have tagged : (Json.string guard.tag).tag? tags = some guard.tag := by cases guard <;> rfl
  have own := Guard.ofFields?_fields
    (beside_guard target.toJson (.string guard.tag) (.array (listToJson body)) guard.fields)
  have filled := bodyOf?_guarded target guard (listToJson body)
  simp only [List.cons_append] at own filled
  simp only [toJson, ofJson?, List.cons_append]
  simp [lookup_check, Locator.ofJson?_toJson place, tagged, Guard.not_check, own, filled, reads]

mutual
theorem ofJson?_toJson : ∀ a : Assertion, a.InWords → ofJson? a.toJson = some a
  | check _ _, inWords => ofJson?_check inWords
  | guarded _ _ body, inWords => ofJson?_guarded inWords.1 (listOfJson?_listToJson body inWords.2)
theorem listOfJson?_listToJson :
    ∀ list : List Assertion, AllInWords list → listOfJson? (listToJson list) = some list
  | [], _ => rfl
  | a :: rest, inWords => by
    rw [listToJson, listOfJson?, ofJson?_toJson a inWords.1, listOfJson?_listToJson rest inWords.2]
    rfl
end

end Assertion

end HttpPlan
