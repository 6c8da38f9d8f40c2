import HttpPlan.Proofs.Assertion.Conformance

/-! What a single visit writes. A node calls for checks at its own place; the visits that lie below
it are queued or deferred, and a union with one variant beside null comes down to a visit to that
variant. -/
namespace HttpPlan

namespace Derivation

variable {accepts : String → String → Prop} {arena : SchemaArena} {node : SchemaNode}
  {id other child : SchemaId} {v : Json} {place : Locator} {typed : Bool} {type : JsonType}
  {slot : List Nat} {d : Draft} {fuel : Nat}

def checkIf (condition : Bool) (check : Check) : List Check := if condition then [check] else []

/-- The checks of a node of one type besides that of the type. -/
def valueChecks (node : SchemaNode) : JsonType → List Check
  | .object => checkIf (!node.required.isEmpty) (.hasRequiredKeys node.required.names)
  | .string => node.pattern.toList.map .matchesPattern ++
      checkIf (node.minLength.isSome || node.maxLength.isSome)
        (.lengthBound node.minLength node.maxLength)
  | .integer | .number => checkIf (node.minimum.isSome || node.maximum.isSome)
      (.numericRange node.minimum node.maximum node.exclusiveMinimum node.exclusiveMaximum)
  | .array | .boolean | .null => []

/-- The checks of a node on the value at its own place. -/
def nodeChecks (node : SchemaNode) (typed : Bool) : List Check :=
  match node.enumeration, node.kind with
  | some allowed, _ => [.enumMembership allowed]
  | none, .typed type =>
    if type = .string && node.isUuid then [.matchesPattern uuidPattern]
    else checkIf (!typed) (.isType [type]) ++ valueChecks node type
  | none, _ => []

/-- The checks that a visit starts with where null is accepted beside other values. -/
def typesChecks (types : Option (List JsonType)) : List Check := types.toList.map .isType

/-- The one variant that a union has beside null. -/
def soleVariant? (arena : SchemaArena) (node : SchemaNode) : Option SchemaId :=
  match node.enumeration, node.kind, concreteVariants arena node with
  | none, .union, [variant] => some variant
  | _, _, _ => none

theorem soleVariant?_eq_some : soleVariant? arena node = some child ↔
    node.enumeration = none ∧ node.kind = .union ∧ concreteVariants arena node = [child] := by
  unfold soleVariant?
  split
  · next unlisted kind sole => simp [unlisted, kind, sole]
  · next other =>
    refine ⟨nofun, ?_⟩
    rintro ⟨unlisted, kind, sole⟩
    exact (other child unlisted kind sole).elim

/-- The check of a node that has been expanded before, and of a union of several variants. -/
def shallowChecks (arena : SchemaArena) (node : SchemaNode) (typed : Bool) : List Check :=
  if typed then [] else typesChecks (arena.acceptedTypes? node)

/-- The checks that an expansion writes at the place of its node; one that comes down to a variant
leaves them to the variant. -/
def ownChecks (arena : SchemaArena) (node : SchemaNode) (typed : Bool) : List Check :=
  match node.enumeration, node.kind with
  | none, .union => if (soleVariant? arena node).isSome then [] else shallowChecks arena node typed
  | _, _ => nodeChecks node typed

theorem ownChecks_of_sole (sole : soleVariant? arena node = some child) :
    ownChecks arena node typed = [] := by
  obtain ⟨unlisted, kind, -⟩ := soleVariant?_eq_some.mp sole
  simp only [ownChecks, unlisted, kind, sole, Option.isSome_some, if_true]

theorem ownChecks_of_several (unlisted : node.enumeration = none) (kind : node.kind = .union)
    (ends : soleVariant? arena node = none) :
    ownChecks arena node typed = shallowChecks arena node typed := by
  simp only [ownChecks, unlisted, kind, ends, Option.isSome_none, Bool.false_eq_true, if_false]

theorem ownChecks_of_single (single : node.enumeration = none → node.kind ≠ .union) :
    ownChecks arena node typed = nodeChecks node typed := by
  unfold ownChecks
  split
  · next unlisted kind => exact absurd kind (single unlisted)
  · rfl

theorem checkIf_holds {condition : Bool} {check : Check} :
    (∀ one ∈ checkIf condition check, one.Holds accepts v) ↔
      (condition → check.Holds accepts v) := by
  cases condition <;> simp [checkIf]

theorem keyChecks_hold (object : v.type = .object) :
    (∀ check ∈ valueChecks node .object, check.Holds accepts v) ↔
      v.HasKeys node.required.names := by
  refine checkIf_holds.trans ⟨fun keys => ?_, fun keys _ => keys⟩
  cases empty : node.required.isEmpty with
  | false => exact keys (by rw [empty]; rfl)
  | true =>
    rw [List.isEmpty_iff.mp empty]
    exact ⟨object, nofun⟩

theorem lengthChecks_hold {least most : Option Nat} (string : v.type = .string) :
    (∀ check ∈ checkIf (least.isSome || most.isSome) (.lengthBound least most),
      check.Holds accepts v) ↔ v.HasLength least most := by
  refine checkIf_holds.trans ⟨fun length => ?_, fun length _ => length⟩
  cases least with
  | some low => exact length rfl
  | none =>
    cases most with
    | some high => exact length rfl
    | none =>
      cases v with
      | string text => exact ⟨text, rfl, nofun, nofun⟩
      | number n => cases n <;> cases string
      | _ => cases string

theorem rangeChecks_hold {low high : Option Binary64} {above below : Bool} :
    (∀ check ∈ checkIf (low.isSome || high.isSome) (.numericRange low high above below),
      check.Holds accepts v) ↔ v.InRange low high above below := by
  refine checkIf_holds.trans ⟨fun range => ?_, fun range _ => range⟩
  cases low with
  | some _ => exact range rfl
  | none =>
    cases high with
    | some _ => exact range rfl
    | none => exact ⟨fun _ bound => (by cases bound), fun _ bound => (by cases bound)⟩

theorem patternChecks_hold {pattern : Option String} :
    (∀ check ∈ pattern.toList.map Check.matchesPattern, check.Holds accepts v) ↔
      ∀ p, pattern = some p → v.IsText (accepts p) := by
  cases pattern <;> simp [Check.Holds]

/-- The checks on a value of the right type say what the keywords of its type say. -/
theorem valueChecks_hold (has : v.HasType type) :
    (∀ check ∈ valueChecks node type, check.Holds accepts v) ↔
      (type = .string → ∀ p, node.pattern = some p → v.IsText (accepts p)) ∧
      (type = .string → v.HasLength node.minLength node.maxLength) ∧
      (type.isNumeric → v.InRange node.minimum node.maximum node.exclusiveMinimum
        node.exclusiveMaximum) ∧
      (type = .object → v.HasKeys node.required.names) := by
  cases type with
  | object =>
    rw [keyChecks_hold (has.type_eq (by decide))]
    simp [JsonType.isNumeric]
  | string =>
    rw [valueChecks, List.forall_mem_append, patternChecks_hold,
      lengthChecks_hold (has.type_eq (by decide))]
    simp [JsonType.isNumeric]
  | integer =>
    rw [valueChecks, rangeChecks_hold]
    simp [JsonType.isNumeric]
  | number =>
    rw [valueChecks, rangeChecks_hold]
    simp [JsonType.isNumeric]
  | array => simp [valueChecks, JsonType.isNumeric]
  | boolean => simp [valueChecks, JsonType.isNumeric]
  | null => simp [valueChecks, JsonType.isNumeric]

theorem nodeChecks_hold (unlisted : node.enumeration = none) (kind : node.kind = .typed type)
    (plain : type = .string → ¬ node.isUuid) (checked : typed → v.HasType type) :
    (∀ check ∈ nodeChecks node typed, check.Holds accepts v) ↔
      v.HasType type ∧ ∀ check ∈ valueChecks node type, check.Holds accepts v := by
  have other : ¬ (decide (type = .string) && node.isUuid) = true := by
    rwa [Bool.and_eq_true, decide_eq_true_eq, not_and]
  simp only [nodeChecks, unlisted, kind, if_neg other]
  rw [List.forall_mem_append, checkIf_holds]
  refine and_congr_left fun _ => ?_
  cases typed with
  | true => exact ⟨fun _ => checked rfl, fun _ => nofun⟩
  | false =>
    constructor
    · intro has
      obtain ⟨_, member, has⟩ := has rfl
      rwa [List.mem_singleton.mp member] at has
    · exact fun has _ => ⟨type, List.mem_singleton.mpr rfl, has⟩

theorem typesChecks_hold {types : Option (List JsonType)} :
    (∀ check ∈ typesChecks types, check.Holds accepts v) ↔
      ∀ list, types = some list → v.HasOneOf list := by
  cases types <;> simp [typesChecks, Check.Holds]

namespace Draft

/-- A draft with further checks of one place. -/
def check (d : Draft) (place : Locator) (checks : List Check) : Draft :=
  { d with out := d.out ++ checks.map (.check place) }

def mark (d : Draft) (id : SchemaId) : Draft := { d with visited := id :: d.visited }

/-- The draft of a body, for which nothing is written or queued yet. -/
def inner (d : Draft) : Draft := { d with out := [], queue := [] }

/-- A finished body in a guard against null, behind the list that it belongs to. -/
def wrap (d body : Draft) (place : Locator) : Draft :=
  { body with out := d.out ++ [.guarded place .ifNotNull body.out], queue := d.queue }

end Draft

theorem check_nil : d.check place [] = d := by simp [Draft.check]

theorem check_append {checks more : List Check} :
    d.check place (checks ++ more) = (d.check place checks).check place more := by
  simp [Draft.check]

theorem emitIf_eq {condition : Bool} {check : Check} :
    d.emitIf condition place check = d.check place (checkIf condition check) := by
  cases condition <;> simp [Draft.emitIf, Draft.emit, Draft.check, checkIf]

theorem stringChecks_eq :
    stringChecks node place d = d.check place (valueChecks node .string) := by
  unfold stringChecks
  simp only [emitIf_eq, valueChecks, check_append]
  cases node.pattern <;> simp [Draft.emit, Draft.check]

theorem emitTypes_eq {types : Option (List JsonType)} :
    d.emitTypes place types = d.check place (typesChecks types) := by
  cases types <;> simp [Draft.emitTypes, Draft.emit, Draft.check, typesChecks]

/-- Queues or defers the visits that a node calls for. -/
def openBranches (node : SchemaNode) (slot : List Nat) (place : Locator) (d : Draft) : Draft :=
  match node.enumeration, node.kind with
  | none, .typed .object => node.properties.entries.foldl (property node slot place) d
  | none, .typed .array =>
    match node.items with
    | some items => d.defer slot place .ifNonEmptyArray items (place.index 0)
    | none => d
  | _, _ => d

theorem visited_property {entry : String × SchemaId} :
    (property node slot place d entry).visited = d.visited := by
  unfold property
  dsimp only
  split <;> rfl

theorem visited_openBranches :
    (openBranches node slot place d).visited = d.visited := by
  have fold : ∀ entries : List (String × SchemaId),
      (entries.foldl (property node slot place) d).visited = d.visited := fun entries =>
    List.foldlRecOn (motive := fun e : Draft => e.visited = d.visited) entries _ rfl
      fun _ same _ _ => visited_property.trans same
  unfold openBranches
  split
  · exact fold _
  · split <;> rfl
  · rfl

/-- The draft after the expansion of a node that does not come down to one variant. -/
def expandHere (arena : SchemaArena) (id : SchemaId) (place : Locator) (typed : Bool)
    (slot : List Nat) (d : Draft) : Draft :=
  openBranches (arena.node id) slot place
    ((d.mark id).check place (ownChecks arena (arena.node id) typed))

theorem visit_again (seen : id ∈ d.visited) : visit arena (fuel + 1) id place typed slot d =
    d.check place (shallowChecks arena (arena.node id) typed) := by
  unfold visit shallowChecks
  simp only [seen, if_true, emitTypes_eq]
  cases typed <;> simp [check_nil]

/-- A visit that guards against null writes the body of the guard at once. -/
theorem visit_guarded (fresh : id ∉ d.visited)
    (guarded : arena.acceptsNull (arena.node id) = true) :
    visit arena (fuel + 1) id place false slot d =
      let start := d.check place (shallowChecks arena (arena.node id) false)
      let inside := slot ++ [start.out.length]
      start.wrap (drain arena fuel inside (visit arena fuel id place true inside start.inner))
        place := by
  rw [visit]
  simp only [fresh, if_false, guarded, Bool.not_false, Bool.and_self, if_true, emitTypes_eq]
  rfl

/-- A visit guards against null only where that has not been done. -/
theorem unguarded_of_solid
    (solid : typed ∨ arena.acceptsNull (arena.node id) = false) :
    (!typed && arena.acceptsNull (arena.node id)) = false := by
  rcases solid with rfl | closed
  · rfl
  · rw [closed, Bool.and_false]

/-- A visit that does not have to guard against null writes the checks of its node, and leaves what
lies below for later. -/
theorem visit_solid (fresh : id ∉ d.visited)
    (solid : typed ∨ arena.acceptsNull (arena.node id) = false)
    (single : (arena.node id).enumeration = none → (arena.node id).kind ≠ .union) :
    visit arena (fuel + 1) id place typed slot d = openBranches (arena.node id) slot place
      ((d.mark id).check place (nodeChecks (arena.node id) typed)) := by
  unfold visit
  simp only [fresh, if_false, unguarded_of_solid solid, Bool.false_eq_true]
  unfold openBranches nodeChecks Draft.mark
  cases listed : (arena.node id).enumeration with
  | some allowed => rfl
  | none =>
    cases kind : (arena.node id).kind with
    | union => exact absurd kind (single listed)
    | unknown => exact check_nil.symm
    | typed type =>
      dsimp only
      unfold typeChecks
      by_cases uuid : (decide (type = .string) && (arena.node id).isUuid) = true
      · rw [if_pos uuid, if_pos uuid]
        rw [Bool.and_eq_true, decide_eq_true_eq] at uuid
        rw [uuid.1]
        rfl
      · rw [if_neg uuid, if_neg uuid, emitIf_eq, check_append]
        cases type with
        | object => simp only [objectChecks, emitIf_eq, valueChecks]
        | string => exact stringChecks_eq
        | integer => simp only [rangeChecks, emitIf_eq, valueChecks]
        | number => simp only [rangeChecks, emitIf_eq, valueChecks]
        | array => cases (arena.node id).items <;> simp only [valueChecks, check_nil]
        | boolean => simp only [valueChecks, check_nil]
        | null => simp only [valueChecks, check_nil]

theorem visit_variant (fresh : id ∉ d.visited)
    (solid : typed ∨ arena.acceptsNull (arena.node id) = false)
    (sole : soleVariant? arena (arena.node id) = some other) :
    visit arena (fuel + 1) id place typed slot d =
      visit arena fuel other place typed slot (d.mark id) := by
  obtain ⟨unlisted, kind, alone⟩ := soleVariant?_eq_some.mp sole
  rw [visit]
  simp only [fresh, if_false, unguarded_of_solid solid, Bool.false_eq_true, unlisted, kind, alone]
  rfl

theorem visit_plain (fresh : id ∉ d.visited)
    (solid : typed ∨ arena.acceptsNull (arena.node id) = false)
    (ends : soleVariant? arena (arena.node id) = none) :
    visit arena (fuel + 1) id place typed slot d = expandHere arena id place typed slot d := by
  by_cases union : (arena.node id).enumeration = none ∧ (arena.node id).kind = .union
  · obtain ⟨unlisted, kind⟩ := union
    have several : ∀ variant, concreteVariants arena (arena.node id) ≠ [variant] :=
      fun variant alone => by
        cases ends.symm.trans (soleVariant?_eq_some.mpr ⟨unlisted, kind, alone⟩)
    have rest : visit arena (fuel + 1) id place typed slot d =
        if typed then d.mark id
        else (d.mark id).emitTypes place (arena.acceptedTypes? (arena.node id)) := by
      rw [visit]
      simp only [fresh, if_false, unguarded_of_solid solid, Bool.false_eq_true, unlisted, kind]
      rcases variants : concreteVariants arena (arena.node id) with _ | ⟨variant, _ | _⟩
      · rfl
      · exact absurd variants (several variant)
      · rfl
    rw [rest, expandHere, ownChecks_of_several unlisted kind ends, openBranches, shallowChecks]
    simp only [unlisted, kind, emitTypes_eq]
    cases typed <;> simp [check_nil]
  · have single := fun unlisted kind => union ⟨unlisted, kind⟩
    rw [visit_solid fresh solid single, expandHere, ownChecks_of_single single]

end Derivation

end HttpPlan
