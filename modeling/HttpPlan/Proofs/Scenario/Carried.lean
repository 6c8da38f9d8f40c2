import HttpPlan.Proofs.Scenario.Slot

/-! What a request carries under a name that is not that of its credential slot: the configured
header, or the parameter. The slot leaves such names alone. -/
namespace HttpPlan

/-- The named text of a request in one place. -/
def Carriage.text (c : Carriage) : ParameterLocation → OrderedMap String String
  | .path => ∅
  | .query => c.query
  | .header => c.headers

variable {slot : CredentialSlot} {c : Carriage} {change : Departure} {bound : List Bound}
  {b : Bound} {p : Parameter} {place : ParameterLocation} {key name token value : String}
  {base : RequestBase} {credential : Option String}

namespace CredentialSlot

theorem get?_clear (apart : slot.covers place name = false) :
    ((slot.clear c).text place).get? name = (c.text place).get? name := by
  cases slot <;> cases place <;> simp only [covers, decide_eq_false_iff_not] at apart <;>
    simp [clear, Carriage.text, OrderedMap.erase, OrderedMap.get?_filterKeys, apart]

theorem get?_fill (apart : slot.covers place name = false) :
    ((slot.fill token c).text place).get? name = (c.text place).get? name := by
  have renamed {own : String} (differs : Text.sameIgnoringCase name own = false) : name ≠ own :=
    fun same => by simp [same] at differs
  cases slot <;> cases place <;> simp only [covers, decide_eq_false_iff_not] at apart <;>
    simp [fill, Carriage.text, OrderedMap.get?_insert, renamed, apart]

theorem mem_keys_content (covers : slot.covers place key) (held : key ∈ (c.text place).keys) :
    key ∈ (slot.content c).keys := by
  cases slot <;> cases place <;> simp [CredentialSlot.covers] at covers <;>
    simpa [content, Carriage.headersNamed, Carriage.text, OrderedMap.mem_keys_filterKeys, covers]
      using held

theorem covers_congr (same : Text.sameIgnoringCase key name) :
    slot.covers .header key = slot.covers .header name := by
  cases slot <;> simp [covers, Text.sameIgnoringCase_congr same]

end CredentialSlot

namespace RequestBase

/-- Whether a name stands in the credential slot, if there is one. -/
def secures (base : RequestBase) (place : ParameterLocation) (name : String) : Bool :=
  base.slot.any (·.covers place name)

theorem unoccupied {p : Parameter} (apart : base.secures p.location p.name = false) :
    base.slot.any (·.occupiedBy p) = false := by
  unfold secures at apart
  cases given : base.slot with
  | none => rfl
  | some slot =>
    rw [given, Option.any_some, Bool.eq_false_iff] at apart
    exact Bool.eq_false_iff.mpr fun occupied => apart (CredentialSlot.covers_iff.mpr (Or.inl occupied))

/-- Under a name apart from the slot stands what the parameters put on top of the configured
headers. -/
theorem get?_carriage (apart : base.secures place name = false) (inside : place ≠ .path) :
    ((base.carriage change credential).text place).get? name =
      ((({ headers := base.headers } : Carriage).text place).insertAll
        (brought base.slot change place base.bound)).get? name := by
  have filled {c : Carriage} : ((base.fillSlot change credential c).text place).get? name =
      (c.text place).get? name := by
    unfold fillSlot
    split
    · next slot token given =>
      split
      · rfl
      · exact CredentialSlot.get?_fill (by simpa [secures, given] using apart)
    · rfl
  have cleared {c : Carriage} : ((base.clearSlot c).text place).get? name =
      (c.text place).get? name := by
    unfold clearSlot
    split
    · next slot given => exact CredentialSlot.get?_clear (by simpa [secures, given] using apart)
    · rfl
  have carried {c : Carriage} : (base.bound.foldl (carry base.slot change) c).text place =
      (c.text place).insertAll (brought base.slot change place base.bound) := by
    rw [foldl_carry]
    cases place with
    | path => exact absurd rfl inside
    | query => rfl
    | header => rfl
  rw [carriage, filled, carried]
  exact OrderedMap.get?_insertAll_congr cleared

theorem mem_keys_carriage (apart : base.secures place name = false) (inside : place ≠ .path) :
    name ∈ ((base.carriage change credential).text place).keys ↔
      (place = .header ∧ name ∈ base.headers.keys) ∨ ∃ b ∈ base.bound, b.param.location = place ∧
        b.param.name = name ∧ (change.valueOf? b).isSome := by
  have configured : name ∈ (({ headers := base.headers } : Carriage).text place).keys ↔
      place = .header ∧ name ∈ base.headers.keys := by
    cases place <;> simp [Carriage.text, OrderedMap.keys]
  have parameters : name ∈ (brought base.slot change place base.bound).map Prod.fst ↔
      ∃ b ∈ base.bound, b.param.location = place ∧ b.param.name = name ∧
        (change.valueOf? b).isSome := by
    simp only [List.mem_map, mem_brought]
    constructor
    · rintro ⟨e, ⟨b, member, -, here, named, sent⟩, same⟩
      exact ⟨b, member, here, named.trans same, by simp [sent]⟩
    · rintro ⟨b, member, here, named, sent⟩
      obtain ⟨value, sent⟩ := Option.isSome_iff_exists.mp sent
      have free : base.slot.any (·.occupiedBy b.param) = false :=
        unoccupied (by rw [here, named]; exact apart)
      exact ⟨(name, value), ⟨b, member, free, here, named, sent⟩, rfl⟩
  rw [OrderedMap.mem_keys_iff]
  simp only [get?_carriage apart inside]
  rw [← OrderedMap.mem_keys_iff, OrderedMap.mem_keys_insertAll, configured, parameters, or_comm]

theorem nodup_brought {slot : Option CredentialSlot}
    (distinct : (bound.map fun b => (b.param.name, b.param.location)).Nodup) :
    ((brought slot change place bound).map Prod.fst).Nodup := by
  rw [List.nodup_iff_pairwise_ne, List.pairwise_map] at distinct ⊢
  refine List.pairwise_filterMap.mpr (distinct.imp fun {a b} differ e first f second same => ?_)
  have origin {b : Bound} {e : String × String}
      (brings : (if slot.any (·.occupiedBy b.param) || b.param.location ≠ place then none
        else (change.valueOf? b).map (b.param.name, ·)) = some e) :
      b.param.name = e.1 ∧ b.param.location = place := by
    split at brings
    · cases brings
    · next kept =>
      obtain ⟨value, -, rfl⟩ := Option.map_eq_some_iff.mp brings
      simp only [Bool.or_eq_true, decide_eq_true_eq, not_or, Classical.not_not] at kept
      exact ⟨rfl, kept.2⟩
  have one := origin first
  have other := origin second
  exact differ (Prod.ext (one.1.trans (same.trans other.1.symm)) (one.2.trans other.2.symm))

theorem get?_carriage_of_bound
    (distinct : (base.bound.map fun b => (b.param.name, b.param.location)).Nodup)
    (member : b ∈ base.bound) (apart : base.secures b.param.location b.param.name = false)
    (inside : b.param.location ≠ .path) (sent : change.valueOf? b = some value) :
    ((base.carriage change credential).text b.param.location).get? b.param.name = some value := by
  rw [get?_carriage apart inside]
  exact OrderedMap.get?_insertAll (nodup_brought distinct)
    (mem_brought.mpr ⟨b, member, unoccupied apart, rfl, rfl, sent⟩)

/-- Leaving out the parameter that is the credential vacates the slot. -/
theorem vacated (given : base.slot = some slot) (occupied : slot.occupiedBy p)
    (covers : slot.covers place key) :
    key ∉ ((base.carriage (.without p) credential).text place).keys := by
  intro held
  have alone : stowaways slot (.without p) base.bound = [] := by
    cases slot <;> simp_all [CredentialSlot.occupiedBy, stowaways]
  have inside := CredentialSlot.mem_keys_content covers held
  rw [content_carriage given, alone, Departure.dropsSlot, if_pos occupied] at inside
  cases inside

/-- A cookie is sent with every credential. -/
theorem cookie_sent {own : String} (given : base.slot = some (.cookie own)) :
    "Cookie" ∈ ((base.carriage (.without p) (some token)).text .header).keys := by
  have kept : Departure.dropsSlot (.without p) (.cookie own) = false := by
    cases p with
    | mk name location => cases location <;> rfl
  have inside : "Cookie" ∈ ((CredentialSlot.cookie own).content
      (base.carriage (.without p) (some token))).keys := by
    rw [content_carriage given, kept, OrderedMap.mem_keys_insertAll]
    simp [CredentialSlot.entry]
  exact (OrderedMap.mem_keys_filterKeys.mp inside).1

theorem tokenValue?_without : (base.tokenValue? (.without p) token).getD "" =
    if p.location = .path ∧ token = p.name then "" else (base.tokenValue? .none token).getD "" := by
  unfold tokenValue?
  cases found : base.bound.find? fun b => b.param.location = .path && b.param.name = token with
  | none => simp
  | some b =>
    have here := List.find?_some found
    simp only [Bool.and_eq_true, decide_eq_true_eq] at here
    simp only [Option.bind_eq_bind, Option.bind_some, Departure.valueOf?, Departure.concerns, here]
    grind

theorem secures_iff : base.secures place name ↔
    ∃ slot, base.slot = some slot ∧ slot.covers place name := by
  unfold secures
  cases base.slot <;> simp

theorem valueOf?_without : (Departure.valueOf? (.without p) b).isSome ↔
    ¬ Departure.concerns p b.param := by
  simp only [Departure.valueOf?]
  split <;> simp_all

theorem query_omitted (inQuery : p.location = .query) :
    p.name ∉ ((base.carriage (.without p) credential).text .query).keys := by
  intro held
  by_cases covered : base.secures .query p.name
  · obtain ⟨slot, given, covers⟩ := secures_iff.mp covered
    rw [← inQuery] at covers held
    rcases CredentialSlot.covers_iff.mp covers with occupied | ⟨-, inHeader, -⟩
    · exact vacated given occupied covers held
    · cases inQuery.symm.trans inHeader
  · rcases (mem_keys_carriage (Bool.eq_false_iff.mpr covered) (by decide)).mp held with
      ⟨inHeader, -⟩ | ⟨b, -, here, named, sent⟩
    · cases inHeader
    · exact valueOf?_without.mp sent (by simp [Departure.concerns, here, named, inQuery])

/-- Where the slot covers a header parameter, the header is gone without it, unless the slot is a
cookie. -/
theorem header_omitted_of_secured (inHeader : p.location = .header)
    (covered : base.secures .header p.name) :
    (∀ key ∈ ((base.carriage (.without p) (some token)).text .header).keys,
      ¬ Text.sameIgnoringCase key p.name) ↔ ¬ ∃ own, base.slot = some (.cookie own) := by
  obtain ⟨slot, given, covers⟩ := secures_iff.mp covered
  constructor
  · rintro omitted ⟨own, same⟩
    cases given.symm.trans same
    refine omitted "Cookie" (cookie_sent same) ?_
    rw [Text.sameIgnoringCase_comm]
    exact covers
  · intro other key held same
    have occupied : slot.occupiedBy p := by
      rw [← inHeader] at covers
      rcases CredentialSlot.covers_iff.mp covers with occupied | ⟨⟨own, cookie⟩, -⟩
      · exact occupied
      · exact absurd ⟨own, cookie ▸ given⟩ other
    exact vacated given occupied ((CredentialSlot.covers_congr same).trans covers) held

/-- Elsewhere it is gone, unless it is configured or another parameter has its name. -/
theorem header_omitted_of_apart (apart : base.secures .header p.name = false) :
    (∀ key ∈ ((base.carriage (.without p) credential).text .header).keys,
      ¬ Text.sameIgnoringCase key p.name) ↔
    ¬ ((∃ key ∈ base.headers.keys, Text.sameIgnoringCase key p.name) ∨
      ∃ b ∈ base.bound, ¬ Departure.concerns p b.param ∧ b.param.location = .header ∧
        Text.sameIgnoringCase b.param.name p.name) := by
  have held {key : String} (same : Text.sameIgnoringCase key p.name) :
      key ∈ ((base.carriage (.without p) credential).text .header).keys ↔ _ :=
    mem_keys_carriage
      (by rw [← apart]; simp only [secures, CredentialSlot.covers_congr same]) (by decide)
  constructor
  · rintro omitted (⟨key, configured, same⟩ | ⟨b, member, kept, here, same⟩)
    · exact omitted key ((held same).mpr (Or.inl ⟨rfl, configured⟩)) same
    · exact omitted b.param.name
        ((held same).mpr (Or.inr ⟨b, member, here, rfl, valueOf?_without.mpr kept⟩)) same
  · intro free key stands same
    rcases (held same).mp stands with ⟨-, configured⟩ | ⟨b, member, here, named, sent⟩
    · exact free (Or.inl ⟨key, configured, same⟩)
    · exact free (Or.inr ⟨b, member, valueOf?_without.mp sent, here, named ▸ same⟩)

end RequestBase

end HttpPlan
