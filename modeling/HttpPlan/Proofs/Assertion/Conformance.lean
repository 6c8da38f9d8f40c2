import HttpPlan.Assertion.Derivation

/-! Which values conform to a node of an arena, and when an assertion holds of a value. Patterns are
left to a predicate `accepts`, which says of a pattern which texts it takes. A list of accepted
types covers what conforms to its node if and only if the values that the node or a variant of it
lists have accepted types, and null is one of them if a variant is nullable. -/
namespace HttpPlan

namespace Json

/-- An integer is a number too. -/
def HasType (v : Json) (type : JsonType) : Prop :=
  v.type = type ∨ (v.type = .integer ∧ type = .number)

def HasOneOf (v : Json) (types : List JsonType) : Prop := ∃ type ∈ types, v.HasType type

/-- Bounds on a number, which is compared as a double. -/
def InRange (v : Json) (minimum maximum : Option Binary64)
    (exclusiveMinimum exclusiveMaximum : Bool) : Prop :=
  (∀ low, minimum = some low →
    ∃ x, v.double? = some x ∧ if exclusiveMinimum then low < x else low ≤ x) ∧
  (∀ high, maximum = some high →
    ∃ x, v.double? = some x ∧ if exclusiveMaximum then x < high else x ≤ high)

def HasLength (v : Json) (minLength maxLength : Option Nat) : Prop :=
  ∃ text, v = .string text ∧ (∀ low, minLength = some low → low ≤ text.length) ∧
    (∀ high, maxLength = some high → text.length ≤ high)

def HasKeys (v : Json) (keys : List String) : Prop :=
  v.type = .object ∧ ∀ key ∈ keys, (v.field? key).isSome

def IsText (v : Json) (accepts : String → Prop) : Prop := ∃ text, v = .string text ∧ accepts text

variable {v : Json} {type : JsonType} {types : List JsonType}

theorem HasType.type_eq (has : v.HasType type) (plain : type ≠ .number) : v.type = type :=
  has.elim (fun same => same) fun wider => absurd wider.2 plain

theorem HasType.eq_null (has : v.HasType .null) : v = .null := by
  have same := has.type_eq (by decide)
  cases v with
  | null => rfl
  | number n => cases n <;> cases same
  | _ => cases same

theorem hasKeys_object {fields : List (String × Json)} {keys : List String} :
    (object fields).HasKeys keys ↔ ∀ key ∈ keys, key ∈ fields.map Prod.fst := by
  constructor
  · intro has key member
    obtain ⟨field, inside, same⟩ := List.lookup_isSome_iff.mp (has.2 key member)
    exact List.mem_map.mpr ⟨field, inside, (beq_iff_eq.mp same).symm⟩
  · intro present
    refine ⟨rfl, fun key member => ?_⟩
    obtain ⟨field, inside, same⟩ := List.mem_map.mp (present key member)
    exact List.lookup_isSome_iff.mpr ⟨field, inside, beq_iff_eq.mpr same.symm⟩

theorem hasOneOf_null : Json.null.HasOneOf types ↔ .null ∈ types := by
  constructor
  · rintro ⟨_, member, rfl | ⟨impossible, -⟩⟩
    · exact member
    · cases impossible
  · exact fun member => ⟨.null, member, Or.inl rfl⟩

end Json

variable (accepts : String → String → Prop)

/-- The constraints of a node on strings and numbers. -/
structure SchemaNode.Admits (node : SchemaNode) (v : Json) : Prop where
  identifier : node.kind = .typed .string → node.isUuid → v.IsText (accepts uuidPattern)
  pattern : node.kind = .typed .string → ∀ p, node.pattern = some p → v.IsText (accepts p)
  length : node.kind = .typed .string → v.HasLength node.minLength node.maxLength
  range : node.kind.isNumeric →
    v.InRange node.minimum node.maximum node.exclusiveMinimum node.exclusiveMaximum

theorem SchemaNode.admits_of_other {accepts : String → String → Prop} {node : SchemaNode} {v : Json}
    {type : JsonType} (kind : node.kind = .typed type) (textless : type ≠ .string)
    (other : ¬ type.isNumeric) : node.Admits accepts v where
  identifier := fun string => absurd (SchemaKind.typed.inj (kind.symm.trans string)) textless
  pattern := fun string => absurd (SchemaKind.typed.inj (kind.symm.trans string)) textless
  length := fun string => absurd (SchemaKind.typed.inj (kind.symm.trans string)) textless
  range := fun numeric => absurd (by rwa [kind] at numeric) other

/-- Null conforms to a nullable node, and the values that a node lists conform to it whatever its
kind; otherwise the kind decides. -/
inductive SchemaArena.Conforms (arena : SchemaArena) : SchemaId → Json → Prop
  | null {id : SchemaId} (nullable : (arena.node id).nullable) : Conforms arena id .null
  | listed {id : SchemaId} {v : Json} {allowed : List Json}
      (listed : (arena.node id).enumeration = some allowed) (member : v ∈ allowed) :
      Conforms arena id v
  | typed {id : SchemaId} {v : Json} {type : JsonType}
      (unlisted : (arena.node id).enumeration = none) (kind : (arena.node id).kind = .typed type)
      (typed : v.HasType type) (admits : (arena.node id).Admits accepts v)
      (keys : type = .object → v.HasKeys (arena.node id).required.names)
      (properties : type = .object → ∀ key child w,
        (key, child) ∈ (arena.node id).properties.entries → v.field? key = some w →
          Conforms arena child w)
      (items : type = .array → ∀ child vs w,
        (arena.node id).items = some child → v.items? = some vs → w ∈ vs → Conforms arena child w) :
      Conforms arena id v
  | union {id : SchemaId} {v : Json} {variant : SchemaId}
      (unlisted : (arena.node id).enumeration = none) (kind : (arena.node id).kind = .union)
      (member : variant ∈ (arena.node id).variants) (conforms : Conforms arena variant v) :
      Conforms arena id v
  | unknown {id : SchemaId} {v : Json} (unlisted : (arena.node id).enumeration = none)
      (kind : (arena.node id).kind = .unknown) : Conforms arena id v

def Check.Holds (v : Json) : Check → Prop
  | .isType types => v.HasOneOf types
  | .hasRequiredKeys keys => v.HasKeys keys
  | .enumMembership allowed => v ∈ allowed
  | .matchesPattern pattern => v.IsText (accepts pattern)
  | .numericRange minimum maximum exclusiveMinimum exclusiveMaximum =>
    v.InRange minimum maximum exclusiveMinimum exclusiveMaximum
  | .lengthBound minLength maxLength => v.HasLength minLength maxLength

namespace Guard

/-- What the target of a guard has to be for the guard to make sense. -/
def Applies (v : Json) : Guard → Prop
  | .ifPresent _ => v.type = .object
  | .ifNonEmptyArray => v.type = .array
  | .ifNotNull => True

/-- When the body of a guard is run. -/
def Met (v : Json) : Guard → Prop
  | .ifPresent key => (v.field? key).isSome
  | .ifNonEmptyArray => (v.item? 0).isSome
  | .ifNotNull => v ≠ .null

end Guard

namespace Assertion

mutual
/-- Whether an assertion holds of a body: its target is there, and the check or guard is true of
what it leads to. -/
def Holds (body : Json) : Assertion → Prop
  | check target c => ∃ v, target.resolve? body = some v ∧ c.Holds accepts v
  | guarded target guard inner =>
    ∃ v, target.resolve? body = some v ∧ guard.Applies v ∧ (guard.Met v → AllHold body inner)
def AllHold (body : Json) : List Assertion → Prop
  | [] => True
  | a :: rest => Holds body a ∧ AllHold body rest
end

variable {accepts : String → String → Prop} {body : Json} {list more : List Assertion}

theorem allHold_iff : AllHold accepts body list ↔ ∀ a ∈ list, a.Holds accepts body := by
  induction list with
  | nil => simp [AllHold]
  | cons a rest ih => simp [AllHold, ih]

theorem allHold_append :
    AllHold accepts body (list ++ more) ↔ AllHold accepts body list ∧ AllHold accepts body more := by
  simp only [allHold_iff, List.mem_append]
  exact ⟨fun all => ⟨fun a member => all a (Or.inl member), fun a member => all a (Or.inr member)⟩,
    fun both a member => member.elim (both.1 a) (both.2 a)⟩

end Assertion

namespace SchemaArena

variable {accepts : String → String → Prop} {arena : SchemaArena} {id : SchemaId} {v : Json}
  {types : List JsonType}

/-- A node whose list of accepted types, where it has one, leaves nothing out that conforms. -/
structure ListsTypes (arena : SchemaArena) (id : SchemaId) : Prop where
  /-- The values that the node lists have accepted types. -/
  listed : ∀ allowed types, (arena.node id).enumeration = some allowed →
    arena.acceptedTypes? (arena.node id) = some types → ∀ v ∈ allowed, v.HasOneOf types
  /-- So does what the variants of a union let in beside values of their own type: null and the
  values that they list. -/
  variants : ∀ types, (arena.node id).kind = .union → (arena.node id).enumeration = none →
    arena.acceptedTypes? (arena.node id) = some types → ∀ variant ∈ (arena.node id).variants,
      ((arena.node variant).nullable → .null ∈ types) ∧
      ∀ allowed, (arena.node variant).enumeration = some allowed → ∀ v ∈ allowed, v.HasOneOf types

theorem listsTypes_of_plain (unlisted : (arena.node id).enumeration = none)
    (single : (arena.node id).kind ≠ .union) : arena.ListsTypes id where
  listed := fun _ _ enumerated => by cases unlisted.symm.trans enumerated
  variants := fun _ union => absurd union single

theorem mem_of_mapM {α β : Type} {f : α → Option β} {as : List α} {bs : List β} {a : α}
    (mapped : as.mapM f = some bs) (member : a ∈ as) : ∃ b ∈ bs, f a = some b := by
  induction as generalizing bs with
  | nil => cases member
  | cons first rest ih =>
    rw [List.mapM_cons] at mapped
    obtain ⟨b, here, mapped⟩ := Option.bind_eq_some_iff.mp mapped
    obtain ⟨others, later, mapped⟩ := Option.bind_eq_some_iff.mp mapped
    cases mapped
    rcases List.mem_cons.mp member with rfl | member
    · exact ⟨b, by simp, here⟩
    · obtain ⟨c, inside, found⟩ := ih later member
      exact ⟨c, by simp [inside], found⟩

theorem acceptedTypes?_typed {type : JsonType} (kind : (arena.node id).kind = .typed type) :
    arena.acceptedTypes? (arena.node id) =
      some (if (arena.node id).nullable && !([type].contains .null) then [type, .null] else [type]) := by
  simp only [acceptedTypes?, kind, typeOf?, Option.map_some, Option.bind_eq_bind, Option.bind_some]
  split <;> simp_all

theorem acceptedTypes?_union (kind : (arena.node id).kind = .union)
    (accepted : arena.acceptedTypes? (arena.node id) = some types) :
    ((arena.node id).nullable → .null ∈ types) ∧
    ∀ variant ∈ (arena.node id).variants,
      ∃ type, (arena.node variant).kind = .typed type ∧ type ∈ types := by
  simp only [acceptedTypes?, kind, Option.bind_eq_bind, Option.bind_eq_some_iff,
    Option.map_eq_some_iff] at accepted
  obtain ⟨union, ⟨all, mapped, rfl⟩, accepted⟩ := accepted
  have kept : ∀ type ∈ all, type ∈ types := by
    intro type member
    have inside : type ∈ all.eraseDups := List.mem_eraseDups.mpr member
    split at accepted <;> cases accepted <;> simp [inside]
  refine ⟨fun nullable => ?_, fun variant member => ?_⟩
  · split at accepted
    · cases accepted; simp
    · next condition =>
      cases accepted
      simpa [nullable] using condition
  · obtain ⟨type, inside, found⟩ := mem_of_mapM mapped member
    refine ⟨type, ?_, kept type inside⟩
    cases variantKind : (arena.node variant).kind with
    | typed other => rw [variantKind] at found; cases found; rfl
    | _ => rw [variantKind] at found; cases found

/-- Null is among the accepted types of a nullable node. -/
theorem null_mem_acceptedTypes? (accepted : arena.acceptedTypes? (arena.node id) = some types)
    (nullable : (arena.node id).nullable) : .null ∈ types := by
  cases kind : (arena.node id).kind with
  | typed type =>
    rw [acceptedTypes?_typed kind] at accepted
    cases accepted
    split
    · simp
    · next listed => simpa [nullable] using listed
  | union => exact (acceptedTypes?_union kind accepted).1 nullable
  | unknown => simp [acceptedTypes?, kind, typeOf?] at accepted

theorem mem_acceptedTypes? {type : JsonType} (kind : (arena.node id).kind = .typed type)
    (accepted : arena.acceptedTypes? (arena.node id) = some types) : type ∈ types := by
  rw [acceptedTypes?_typed kind] at accepted
  cases accepted
  split <;> simp

/-- A value that conforms to a node of one type has that type, or is null where null is accepted, or
is one of those that the node lists. -/
theorem Conforms.cases_typed {type : JsonType} (conforms : arena.Conforms accepts id v)
    (kind : (arena.node id).kind = .typed type) :
    v.HasType type ∨ (v = .null ∧ (arena.node id).nullable) ∨
      ∃ allowed, (arena.node id).enumeration = some allowed ∧ v ∈ allowed := by
  cases conforms with
  | null nullable => exact Or.inr (Or.inl ⟨rfl, nullable⟩)
  | listed enumerated member => exact Or.inr (Or.inr ⟨_, enumerated, member⟩)
  | typed _ other has =>
    cases kind.symm.trans other
    exact Or.inl has
  | union _ other => cases kind.symm.trans other
  | unknown _ other => cases kind.symm.trans other

/-- Whatever conforms to a node has one of its accepted types. -/
theorem Conforms.hasOneOf (conforms : arena.Conforms accepts id v) (lists : arena.ListsTypes id)
    (accepted : arena.acceptedTypes? (arena.node id) = some types) : v.HasOneOf types := by
  cases conforms with
  | null nullable => exact Json.hasOneOf_null.mpr (null_mem_acceptedTypes? accepted nullable)
  | listed enumerated member => exact lists.listed _ _ enumerated accepted v member
  | typed _ kind has => exact ⟨_, mem_acceptedTypes? kind accepted, has⟩
  | union unlisted kind member inner =>
    obtain ⟨null, listed⟩ := lists.variants types kind unlisted accepted _ member
    obtain ⟨type, typed, inside⟩ := (acceptedTypes?_union kind accepted).2 _ member
    rcases inner.cases_typed typed with has | ⟨rfl, nullable⟩ | ⟨allowed, enumerated, member⟩
    · exact ⟨type, inside, has⟩
    · exact Json.hasOneOf_null.mpr (null nullable)
    · exact listed allowed enumerated v member
  | unknown _ kind => simp [acceptedTypes?, kind, typeOf?] at accepted

/-- A node lists all types that it accepts just if all that conforms to it has one of them. -/
theorem listsTypes_iff (accepts : String → String → Prop) : arena.ListsTypes id ↔
    ∀ types, arena.acceptedTypes? (arena.node id) = some types →
      ∀ v, arena.Conforms accepts id v → v.HasOneOf types := by
  constructor
  · exact fun lists types accepted v conforms => conforms.hasOneOf lists accepted
  · intro covers
    constructor
    · exact fun allowed types enumerated accepted v member =>
        covers types accepted v (.listed enumerated member)
    · intro types kind unlisted accepted variant member
      refine ⟨fun nullable => ?_, fun allowed enumerated v inside => ?_⟩
      · exact Json.hasOneOf_null.mp
          (covers types accepted .null (.union unlisted kind member (.null nullable)))
      · exact covers types accepted v (.union unlisted kind member (.listed enumerated inside))

end SchemaArena

end HttpPlan
