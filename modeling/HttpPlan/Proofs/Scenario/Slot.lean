import HttpPlan.Proofs.OrderedMap
import HttpPlan.Scenario

/-! What stands in the credential slot of a request. A documented parameter gets there only where
the slot is a cookie: a parameter named like the cookie header is not recognized as standing in it. -/
namespace HttpPlan

/-- The parts of a request that carry named text. -/
def RequestPlan.carriage (request : RequestPlan) : Carriage := ⟨request.query, request.headers⟩

/-- The headers of a name, in whatever case. -/
def Carriage.headersNamed (c : Carriage) (name : String) : OrderedMap String String :=
  c.headers.filterKeys (Text.sameIgnoringCase · name)

variable {slot : CredentialSlot} {c : Carriage} {change : Departure} {bound : List Bound}
  {b : Bound} {p : Parameter} {place : ParameterLocation} {token name : String}
  {base : RequestBase} {credential : Option String}

namespace CredentialSlot

def content (slot : CredentialSlot) (c : Carriage) : OrderedMap String String :=
  match slot with
  | header name _ => c.headersNamed name
  | query name => c.query.filterKeys (· = name)
  | cookie _ => c.headersNamed "Cookie"

/-- The entry that a credential travels in. -/
def entry (slot : CredentialSlot) (token : String) : String × String :=
  match slot with
  | header name lead => (name, lead ++ token)
  | query name => (name, token)
  | cookie name => ("Cookie", name ++ "=" ++ token)

/-- Whether text of the name and place stands in the slot. -/
def covers (slot : CredentialSlot) (place : ParameterLocation) (name : String) : Bool :=
  match slot, place with
  | header own _, .header => Text.sameIgnoringCase name own
  | query own, .query => name = own
  | cookie _, .header => Text.sameIgnoringCase name "Cookie"
  | _, _ => false

theorem content_clear : slot.content (slot.clear c) = ∅ := by
  cases slot with
  | header name lead =>
    exact OrderedMap.filterKeys_dropped (Text.sameIgnoringCase · name)
  | cookie name =>
    exact OrderedMap.filterKeys_dropped (Text.sameIgnoringCase · "Cookie")
  | query name =>
    have erased : c.query.erase name = c.query.filterKeys fun key => !decide (key = name) := by
      simp [OrderedMap.erase]
    rw [clear, content, erased]
    exact OrderedMap.filterKeys_dropped fun key => decide (key = name)

theorem content_fill : slot.content (slot.fill token c) =
    (slot.content c).insert (slot.entry token).1 (slot.entry token).2 := by
  cases slot <;>
    simp [content, fill, entry, Carriage.headersNamed, OrderedMap.filterKeys_insert]

/-- A cookie is the one slot in which a parameter can stand unnoticed. -/
theorem covers_iff : slot.covers p.location p.name ↔ slot.occupiedBy p ∨
    (∃ own, slot = cookie own) ∧ p.location = .header ∧ Text.sameIgnoringCase p.name "Cookie" := by
  cases slot with
  | header own lead =>
    have flipped : Text.sameIgnoringCase p.name own = Text.sameIgnoringCase own p.name :=
      Text.sameIgnoringCase_comm
    cases place : p.location <;> simp [covers, occupiedBy, place, flipped]
  | query own =>
    have flipped : p.name = own ↔ own = p.name := eq_comm
    cases place : p.location <;> simp [covers, occupiedBy, place, flipped]
  | cookie own =>
    cases p.location <;> simp [covers, occupiedBy]

end CredentialSlot

namespace RequestBase

open CredentialSlot

/-- The named text that parameters bring to a place. -/
def brought (slot : Option CredentialSlot) (change : Departure) (place : ParameterLocation)
    (bound : List Bound) : List (String × String) :=
  bound.filterMap fun b =>
    if slot.any (·.occupiedBy b.param) || b.param.location ≠ place then none
    else (change.valueOf? b).map (b.param.name, ·)

theorem foldl_carry {slot : Option CredentialSlot} : bound.foldl (carry slot change) c =
    { query := c.query.insertAll (brought slot change .query bound)
      headers := c.headers.insertAll (brought slot change .header bound) } := by
  induction bound generalizing c with
  | nil => rfl
  | cons b rest ih =>
    rw [List.foldl_cons, ih]
    simp only [brought, List.filterMap_cons, carry]
    by_cases occupied : slot.any (·.occupiedBy b.param)
    · simp [occupied]
    · cases change.valueOf? b <;> cases location : b.param.location <;>
        simp [occupied, OrderedMap.insertAll]

theorem mem_brought {slot : Option CredentialSlot} {e : String × String} :
    e ∈ brought slot change place bound ↔ ∃ b ∈ bound, slot.any (·.occupiedBy b.param) = false ∧
      b.param.location = place ∧ b.param.name = e.1 ∧ change.valueOf? b = some e.2 := by
  obtain ⟨name, value⟩ := e
  simp only [brought, List.mem_filterMap]
  refine exists_congr fun b => and_congr_right fun _ => ?_
  split
  · next left => simp only [reduceCtorEq, false_iff]; grind
  · next kept => simp only [Option.map_eq_some_iff, Prod.mk.injEq]; grind

/-- The parameters that a request brings to a slot, though the slot is not theirs. -/
def stowaways (slot : CredentialSlot) (change : Departure) (bound : List Bound) :
    List (String × String) :=
  match slot with
  | .cookie _ =>
    (brought (some slot) change .header bound).filter (Text.sameIgnoringCase ·.1 "Cookie")
  | _ => []

theorem content_foldl_carry : slot.content (bound.foldl (carry (some slot) change) c) =
    (slot.content c).insertAll (stowaways slot change bound) := by
  rw [foldl_carry]
  cases slot with
  | header name lead =>
    have none_there : (brought (some (.header name lead)) change .header bound).filter
        (Text.sameIgnoringCase ·.1 name) = [] := by
      rw [List.filter_eq_nil_iff]
      intro e member
      obtain ⟨b, -, apart, place, own, -⟩ := mem_brought.mp member
      simpa [occupiedBy, place, own, Text.sameIgnoringCase_comm (b := name)] using apart
    simp only [content, Carriage.headersNamed, OrderedMap.filterKeys_insertAll, stowaways,
      none_there]
  | query name =>
    have none_there : (brought (some (.query name)) change .query bound).filter
        (fun e => decide (e.1 = name)) = [] := by
      rw [List.filter_eq_nil_iff]
      intro e member
      obtain ⟨b, -, apart, place, own, -⟩ := mem_brought.mp member
      have other : name ≠ e.1 := by simpa [occupiedBy, place, own] using apart
      simpa using other.symm
    simp only [content, OrderedMap.filterKeys_insertAll, stowaways, none_there]
  | cookie name =>
    simp only [content, Carriage.headersNamed, OrderedMap.filterKeys_insertAll, stowaways]

theorem content_carriage (secured : base.slot = some slot) :
    slot.content (base.carriage change credential) =
      ((∅ : OrderedMap String String).insertAll (stowaways slot change base.bound)).insertAll
        (((if change.dropsSlot slot then none else credential).map slot.entry).toList) := by
  have start : slot.content (base.clearSlot { headers := base.headers }) = ∅ := by
    rw [clearSlot, secured]
    exact content_clear
  have carried : slot.content (base.bound.foldl (carry (some slot) change)
      (base.clearSlot { headers := base.headers })) = _ := content_foldl_carry
  rw [start] at carried
  cases credential with
  | none => simp [carriage, fillSlot, secured, carried, OrderedMap.insertAll]
  | some token =>
    simp only [carriage, fillSlot, secured]
    split
    · simp [carried, OrderedMap.insertAll]
    · rw [content_fill, carried]; rfl

end RequestBase

end HttpPlan
