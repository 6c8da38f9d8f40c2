import HttpPlan.Proofs.Assertion.Conformance
import HttpPlan.Proofs.OrderedMap
import HttpPlan.Proofs.Placeholder.Integer
import HttpPlan.Proofs.Placeholder.Notes
import HttpPlan.Proofs.Placeholder.Phrase
import HttpPlan.Proofs.Schema.Merge
import Mathlib.Data.List.Perm.Subperm
import Mathlib.Logic.Relation

/-! A placeholder conforms to its node as long as nothing was noted while it was made and no node on
the way asks for what its own keywords do not provide: a required property that it does not declare,
an integer below the least of 64 bits, or a union of nulls none of which takes null. -/
namespace HttpPlan

open Relation (ReflTransGen TransGen)

def SchemaNode.AllowsLength (node : SchemaNode) (length : Nat) : Prop :=
  (∀ low ∈ node.minLength, low ≤ length) ∧ ∀ high ∈ node.maxLength, length ≤ high

/-- A node without an example, an empty list of values, a pattern or a format that is made up, and
whose integer bounds fit in 64 bits. -/
structure SchemaNode.Plain (node : SchemaNode) : Prop where
  example_free : node.exampleValue = none
  values : node.enumeration ≠ some []
  texts : node.kind = .typed .string → node.pattern = none ∧ node.isUuid = false ∧
    (node.format >>= Format.fixed?) = none ∧ ∀ low ∈ node.minLength, low ≤ Synthesizer.maxLength
  integers : node.kind = .typed .integer → node.BoundedByWords

/-- Values that conform to a node as far as its kind, lengths, integer bounds, keys and children go.
Patterns, formats and the range of other numbers are left out. -/
inductive SchemaArena.Accepts (arena : SchemaArena) : SchemaId → Json → Prop
  | listed {id : SchemaId} {v : Json} {allowed : List Json}
      (listed : (arena.node id).enumeration = some allowed) (member : v ∈ allowed) :
      Accepts arena id v
  | typed {id : SchemaId} {v : Json} {type : JsonType}
      (unlisted : (arena.node id).enumeration = none) (kind : (arena.node id).kind = .typed type)
      (typed : v.HasType type)
      (length : ∀ text, type = .string → v = .string text →
        (arena.node id).AllowsLength text.length)
      (range : ∀ n, type = .integer → v = .number (.int n) → (arena.node id).AllowsInteger n)
      (keys : type = .object → v.HasKeys (arena.node id).required.names)
      (properties : type = .object → ∀ key child w,
        (key, child) ∈ (arena.node id).properties.entries → v.field? key = some w →
          Accepts arena child w)
      (items : type = .array → ∀ child vs w,
        (arena.node id).items = some child → v.items? = some vs → w ∈ vs → Accepts arena child w) :
      Accepts arena id v
  | union {id : SchemaId} {v : Json} {variant : SchemaId}
      (unlisted : (arena.node id).enumeration = none) (kind : (arena.node id).kind = .union)
      (member : variant ∈ (arena.node id).variants) (accepts : Accepts arena variant v) :
      Accepts arena id v
  | unknown {id : SchemaId} {v : Json} (unlisted : (arena.node id).enumeration = none)
      (kind : (arena.node id).kind = .unknown) : Accepts arena id v

namespace SchemaArena.Accepts

variable {arena : SchemaArena} {id : SchemaId} {v : Json} {type : JsonType}

theorem plain (unlisted : (arena.node id).enumeration = none)
    (kind : (arena.node id).kind = .typed type) (bare : type ∈ [.null, .boolean, .number])
    (has : v.HasType type) : arena.Accepts id v :=
  .typed unlisted kind has (fun _ same => absurd (same ▸ bare) (by decide))
    (fun _ same => absurd (same ▸ bare) (by decide)) (fun same => absurd (same ▸ bare) (by decide))
    (fun same => absurd (same ▸ bare) (by decide)) fun same => absurd (same ▸ bare) (by decide)

theorem text {text : String} (unlisted : (arena.node id).enumeration = none)
    (kind : (arena.node id).kind = .typed .string)
    (length : (arena.node id).AllowsLength text.length) : arena.Accepts id (.string text) := by
  refine .typed unlisted kind (Or.inl rfl) ?_ nofun nofun nofun nofun
  rintro other - same
  cases same
  exact length

theorem integer {n : Int} (unlisted : (arena.node id).enumeration = none)
    (kind : (arena.node id).kind = .typed .integer) (range : (arena.node id).AllowsInteger n) :
    arena.Accepts id (.number (.int n)) := by
  refine .typed unlisted kind (Or.inl rfl) nofun ?_ nofun nofun nofun
  rintro other - same
  cases same
  exact range

theorem list {vs : List Json} (unlisted : (arena.node id).enumeration = none)
    (kind : (arena.node id).kind = .typed .array)
    (items : ∀ child, (arena.node id).items = some child → ∀ w ∈ vs, arena.Accepts child w) :
    arena.Accepts id (.array vs) := by
  refine .typed unlisted kind (Or.inl rfl) nofun nofun nofun nofun ?_
  rintro - child others w same elements member
  cases elements
  exact items child same w member

end SchemaArena.Accepts

namespace SchemaArena

open Synthesizer (documented?)

/-- The first variant that is not null itself. -/
def concrete? (arena : SchemaArena) (id : SchemaId) : Option SchemaId :=
  (arena.node id).variants.find? fun v => (arena.node v).kind ≠ .typed .null

/-- Where the placeholder of a node takes parts of its value from. -/
inductive Follows (arena : SchemaArena) (id : SchemaId) : SchemaId → Prop
  | property {key : String} {child : SchemaId} (undocumented : documented? (arena.node id) = none)
      (kind : (arena.node id).kind = .typed .object)
      (declared : (key, child) ∈ (arena.node id).properties.entries)
      (required : key ∈ (arena.node id).required) : Follows arena id child
  | items {child : SchemaId} (undocumented : documented? (arena.node id) = none)
      (kind : (arena.node id).kind = .typed .array) (items : (arena.node id).items = some child) :
      Follows arena id child
  | variant {child : SchemaId} (undocumented : documented? (arena.node id) = none)
      (kind : (arena.node id).kind = .union) (first : arena.concrete? id = some child) :
      Follows arena id child

theorem Follows.mem_children {arena : SchemaArena} {id child : SchemaId}
    (follows : arena.Follows id child) : child ∈ (arena.node id).children := by
  rw [SchemaNode.mem_children]
  cases follows with
  | property _ _ declared _ => exact Or.inl (List.mem_map_of_mem declared)
  | items _ _ items => exact Or.inr (Or.inl items)
  | variant _ _ first => exact Or.inr (Or.inr (List.mem_of_find?_eq_some first))

/-- A root below which placeholders are made from bounds alone and never come back to a node that
they stand in. -/
structure Plain (arena : SchemaArena) (root : SchemaId) : Prop where
  acyclic : ∀ id, ReflTransGen arena.Follows root id → ¬ TransGen arena.Follows id id
  nodes : ∀ id, ReflTransGen arena.Follows root id → (arena.node id).Plain

/-- A node that does not ask for what its own keywords do not provide. -/
structure Coherent (arena : SchemaArena) (id : SchemaId) : Prop where
  keys : documented? (arena.node id) = none → (arena.node id).kind = .typed .object →
    ∀ key ∈ (arena.node id).required, key ∈ (arena.node id).properties.keys
  integer : documented? (arena.node id) = none → (arena.node id).kind = .typed .integer →
    ¬ (arena.node id).BelowWords
  union : documented? (arena.node id) = none → (arena.node id).kind = .union →
    arena.concrete? id = none → ∃ variant ∈ (arena.node id).variants, arena.Accepts variant .null

end SchemaArena

namespace Synthesizer

variable {arena : SchemaArena} {node : SchemaNode} {id root child : SchemaId} {name : String}
  {r : Random} {s : Synthesizer} {inside : List SchemaId}

theorem text_allowed (unpatterned : node.pattern = none) (other : node.isUuid = false)
    (unfixed : (node.format >>= Format.fixed?) = none)
    (short : ∀ low ∈ node.minLength, low ≤ maxLength)
    (quiet : (text node name r s).2.2.notes = s.notes) :
    node.AllowsLength (text node name r s).1.length := by
  unfold text at quiet ⊢
  simp only [other, unfixed, Bool.false_eq_true, if_false, patternNote, unpatterned,
    Option.isSome_none] at quiet ⊢
  unfold textLength at quiet ⊢
  dsimp only at quiet ⊢
  split
  · next inverted => simp [inverted, warn, note] at quiet
  · next ordered =>
    simp only [Phrase.length_draw]
    constructor
    · intro low least
      have lower := short low least
      have given : node.minLength = some low := least
      simp only [given, Option.getD_some]
      omega
    · intro high greatest
      have given : node.maxLength = some high := greatest
      simp only [given, Option.getD_some] at ordered ⊢
      omega

/-- Notes only come behind the earlier ones. -/
theorem notes_value (fuel : Nat) :
    s.notes <+: (value arena fuel inside id name r s).2.2.notes := by
  rw [value_eq]
  exact List.prefix_append _ _

/-- What has gone before a node on the way to its placeholder. -/
structure Path (arena : SchemaArena) (root : SchemaId) (inside : List SchemaId) (id : SchemaId) :
    Prop where
  reached : ReflTransGen arena.Follows root id
  above : ∀ a ∈ inside, TransGen arena.Follows a id
  distinct : inside.Nodup
  bound : ∀ a ∈ inside, a < arena.size

theorem Path.fresh (plain : arena.Plain root) (path : Path arena root inside id) : id ∉ inside :=
  fun member => plain.acyclic id path.reached (path.above id member)

theorem Path.step (plain : arena.Plain root) (path : Path arena root inside id)
    (bound : id < arena.size) (follows : arena.Follows id child) :
    Path arena root (id :: inside) child where
  reached := path.reached.tail follows
  above := fun a member => by
    rcases List.mem_cons.mp member with rfl | member
    · exact .single follows
    · exact (path.above a member).tail follows
  distinct := List.nodup_cons.mpr ⟨path.fresh plain, path.distinct⟩
  bound := fun a member => by
    rcases List.mem_cons.mp member with rfl | member
    · exact bound
    · exact path.bound a member

/-- Distinct places of the arena are no more than it has. -/
theorem Path.length_le (path : Path arena root inside id) : inside.length ≤ arena.size := by
  have subset : inside ⊆ List.range arena.size :=
    fun a member => List.mem_range.mpr (path.bound a member)
  simpa using (path.distinct.subperm subset).length_le

/-- Makes one field after another, as `value` does for an object. -/
def addField (child : SchemaId → String → Random → Synthesizer → Json × Random × Synthesizer)
    (name : String) (made : List (String × Json) × Random × Synthesizer)
    (entry : String × SchemaId) : List (String × Json) × Random × Synthesizer :=
  let part := child entry.2 (name ++ "." ++ entry.1) made.2.1 made.2.2
  (made.1 ++ [(entry.1, part.1)], part.2.1, part.2.2)

section fields

variable {part : SchemaId → String → Random → Synthesizer → Json × Random × Synthesizer}
  {entries : List (String × SchemaId)}
  {made : List (String × Json) × Random × Synthesizer}

theorem notes_fields (grows : ∀ id name r s, s.notes <+: (part id name r s).2.2.notes) :
    made.2.2.notes <+: (entries.foldl (addField part name) made).2.2.notes := by
  induction entries generalizing made with
  | nil => exact List.prefix_rfl
  | cons entry rest ih =>
    have first : made.2.2.notes <+: (addField part name made entry).2.2.notes := grows _ _ _ _
    exact first.trans ih

theorem keys_fields : (entries.foldl (addField part name) made).1.map Prod.fst =
    made.1.map Prod.fst ++ entries.map Prod.fst := by
  induction entries generalizing made with
  | nil => simp
  | cons entry rest ih =>
    rw [List.foldl_cons, ih]
    simp [addField]

theorem mem_keys_fields {key : String} :
    key ∈ (entries.foldl (addField part name) ([], r, s)).1.map Prod.fst ↔
      key ∈ entries.map Prod.fst := by
  rw [keys_fields, List.map_nil, List.nil_append]

/-- Fields made without a note are good if each of them is when it is made without one. -/
theorem fields_good (good : SchemaId → Json → Prop)
    (grows : ∀ id name r s, s.notes <+: (part id name r s).2.2.notes)
    (each : ∀ entry ∈ entries, ∀ name r s, (part entry.2 name r s).2.2.notes = s.notes →
      good entry.2 (part entry.2 name r s).1)
    (quiet : (entries.foldl (addField part name) made).2.2.notes = made.2.2.notes) :
    ∀ field ∈ (entries.foldl (addField part name) made).1,
      field ∈ made.1 ∨ ∃ entry ∈ entries, entry.1 = field.1 ∧ good entry.2 field.2 := by
  induction entries generalizing made with
  | nil => exact fun field member => Or.inl member
  | cons entry rest ih =>
    have first : made.2.2.notes <+: (addField part name made entry).2.2.notes := grows _ _ _ _
    have later : (addField part name made entry).2.2.notes <+: made.2.2.notes :=
      quiet ▸ notes_fields grows
    have silent : (addField part name made entry).2.2.notes = made.2.2.notes :=
      later.eq_of_length_le first.length_le
    have now := each entry List.mem_cons_self _ _ _ silent
    intro field member
    rcases ih (fun e inside => each e (List.mem_cons_of_mem _ inside)) (by rw [silent]; exact quiet)
      field member with early | ⟨e, inside, same, holds⟩
    · rcases List.mem_append.mp early with before | here
      · exact Or.inl before
      · rw [List.mem_singleton.mp here]
        exact Or.inr ⟨entry, List.mem_cons_self, rfl, now⟩
    · exact Or.inr ⟨e, List.mem_cons_of_mem _ inside, same, holds⟩

end fields

/-- The documented value of a node without an example is one of those that it lists. -/
theorem listed_of_documented {v : Json} (documented : documented? node = some v)
    (unillustrated : node.exampleValue = none) :
    ∃ allowed, node.enumeration = some allowed ∧ v ∈ allowed := by
  unfold documented? at documented
  split at documented
  · next first rest listed =>
    cases documented
    exact ⟨_, listed, List.mem_cons_self⟩
  · rw [unillustrated] at documented
    cases documented

theorem unlisted_of_undocumented (undocumented : documented? node = none)
    (filled : node.enumeration ≠ some []) : node.enumeration = none := by
  unfold documented? at undocumented
  split at undocumented
  · cases undocumented
  · next other =>
    cases listed : node.enumeration with
    | none => rfl
    | some allowed =>
      cases allowed with
      | nil => exact absurd listed filled
      | cons first rest => exact absurd listed (other first rest)

/-- What the placeholder of a child comes to, with the notes before and after it. -/
def Faithful (arena : SchemaArena)
    (part : SchemaId → String → Random → Synthesizer → Json × Random × Synthesizer)
    (child : SchemaId) : Prop :=
  ∀ name r s, (part child name r s).2.2.notes = s.notes →
    arena.Accepts child (part child name r s).1

/-! ### The value of a node that documents none, kind by kind -/

section kinds

variable {fuel : Nat} (fresh : id ∉ inside) (undocumented : documented? (arena.node id) = none)

include fresh undocumented

theorem value_of_null (kind : (arena.node id).kind = .typed .null) :
    value arena (fuel + 1) inside id name r s = (.null, r, s) := by
  simp only [value, if_neg fresh, undocumented, kind]

theorem value_of_boolean (kind : (arena.node id).kind = .typed .boolean) :
    value arena (fuel + 1) inside id name r s = (.bool true, r, s) := by
  simp only [value, if_neg fresh, undocumented, kind]

theorem value_of_string (kind : (arena.node id).kind = .typed .string) :
    value arena (fuel + 1) inside id name r s =
      (.string (text (arena.node id) name r s).1, (text (arena.node id) name r s).2) := by
  simp only [value, if_neg fresh, undocumented, kind]

theorem value_of_integer (kind : (arena.node id).kind = .typed .integer) :
    value arena (fuel + 1) inside id name r s =
      (.number (.int (integer (arena.node id) name s).1), r,
        (integer (arena.node id) name s).2) := by
  simp only [value, if_neg fresh, undocumented, kind]

theorem value_of_number (kind : (arena.node id).kind = .typed .number) :
    value arena (fuel + 1) inside id name r s =
      (.number (((number (arena.node id) name s).1.map .float).getD (.int 0)), r,
        (number (arena.node id) name s).2) := by
  simp only [value, if_neg fresh, undocumented, kind]
  cases (number (arena.node id) name s).1 <;> rfl

theorem value_of_nothing (kind : (arena.node id).kind = .typed .array)
    (items : (arena.node id).items = none) :
    value arena (fuel + 1) inside id name r s = (.array [], r, s) := by
  simp only [value, if_neg fresh, undocumented, kind, items]

theorem value_of_items (kind : (arena.node id).kind = .typed .array)
    (items : (arena.node id).items = some child) :
    value arena (fuel + 1) inside id name r s =
      (.array [(value arena fuel (id :: inside) child (name ++ "[0]") r s).1],
        (value arena fuel (id :: inside) child (name ++ "[0]") r s).2) := by
  simp only [value, if_neg fresh, undocumented, kind, items]

theorem value_of_object (kind : (arena.node id).kind = .typed .object) :
    value arena (fuel + 1) inside id name r s =
      let made :=
        ((arena.node id).properties.entries.filter (·.1 ∈ (arena.node id).required)).foldl
          (addField (value arena fuel (id :: inside)) name) ([], r, s)
      (.object made.1, made.2) := by
  simp only [value, if_neg fresh, undocumented, kind]
  rfl

theorem value_of_nulls (kind : (arena.node id).kind = .union) (first : arena.concrete? id = none) :
    value arena (fuel + 1) inside id name r s = (.null, r, s) := by
  unfold SchemaArena.concrete? at first
  simp only [value, if_neg fresh, undocumented, kind, first]

theorem value_of_variant (kind : (arena.node id).kind = .union)
    (first : arena.concrete? id = some child) :
    value arena (fuel + 1) inside id name r s =
      value arena fuel (id :: inside) child name r s := by
  unfold SchemaArena.concrete? at first
  simp only [value, if_neg fresh, undocumented, kind, first]

variable (unlisted : (arena.node id).enumeration = none)

include unlisted

theorem text_accepted (plain : (arena.node id).Plain)
    (kind : (arena.node id).kind = .typed .string)
    (quiet : (value arena (fuel + 1) inside id name r s).2.2.notes = s.notes) :
    arena.Accepts id (value arena (fuel + 1) inside id name r s).1 := by
  rw [value_of_string fresh undocumented kind] at quiet ⊢
  obtain ⟨unpatterned, other, unfixed, short⟩ := plain.texts kind
  exact .text unlisted kind (text_allowed unpatterned other unfixed short quiet)

theorem integer_accepted (plain : (arena.node id).Plain) (coherent : arena.Coherent id)
    (kind : (arena.node id).kind = .typed .integer)
    (quiet : (value arena (fuel + 1) inside id name r s).2.2.notes = s.notes) :
    arena.Accepts id (value arena (fuel + 1) inside id name r s).1 := by
  rw [value_of_integer fresh undocumented kind] at quiet ⊢
  have allowed := (integer_allowed (plain.integers kind) quiet).mpr
    (coherent.integer undocumented kind)
  exact .integer unlisted kind allowed

theorem number_accepted (kind : (arena.node id).kind = .typed .number) :
    arena.Accepts id (value arena (fuel + 1) inside id name r s).1 := by
  rw [value_of_number fresh undocumented kind]
  refine .plain unlisted kind (by decide) ?_
  cases (number (arena.node id) name s).1 with
  | none => exact Or.inr ⟨rfl, rfl⟩
  | some x => exact Or.inl rfl

variable (children : ∀ child, arena.Follows id child →
  Faithful arena (value arena fuel (id :: inside)) child)

include children

theorem list_accepted (kind : (arena.node id).kind = .typed .array)
    (quiet : (value arena (fuel + 1) inside id name r s).2.2.notes = s.notes) :
    arena.Accepts id (value arena (fuel + 1) inside id name r s).1 := by
  cases items : (arena.node id).items with
  | none =>
    rw [value_of_nothing fresh undocumented kind items]
    exact .list unlisted kind fun child other => by cases items.symm.trans other
  | some child =>
    rw [value_of_items fresh undocumented kind items] at quiet ⊢
    refine .list unlisted kind fun other same w member => ?_
    cases items.symm.trans same
    rw [List.mem_singleton.mp member]
    exact children child (.items undocumented kind items) _ r s quiet

theorem union_accepted (coherent : arena.Coherent id) (kind : (arena.node id).kind = .union)
    (quiet : (value arena (fuel + 1) inside id name r s).2.2.notes = s.notes) :
    arena.Accepts id (value arena (fuel + 1) inside id name r s).1 := by
  cases first : arena.concrete? id with
  | none =>
    obtain ⟨variant, member, accepts⟩ := coherent.union undocumented kind first
    rw [value_of_nulls fresh undocumented kind first]
    exact .union unlisted kind member accepts
  | some variant =>
    rw [value_of_variant fresh undocumented kind first] at quiet ⊢
    exact .union unlisted kind (List.mem_of_find?_eq_some first)
      (children variant (.variant undocumented kind first) name r s quiet)

theorem object_accepted (coherent : arena.Coherent id)
    (kind : (arena.node id).kind = .typed .object)
    (quiet : (value arena (fuel + 1) inside id name r s).2.2.notes = s.notes) :
    arena.Accepts id (value arena (fuel + 1) inside id name r s).1 := by
  rw [value_of_object fresh undocumented kind] at quiet ⊢
  have grows : ∀ child name r s,
      s.notes <+: (value arena fuel (id :: inside) child name r s).2.2.notes :=
    fun _ _ _ _ => notes_value fuel
  have goods := fields_good arena.Accepts grows (fun entry member => by
    obtain ⟨declared, required⟩ := List.mem_filter.mp member
    exact children entry.2
      (.property undocumented kind declared (of_decide_eq_true required))) quiet
  refine .typed unlisted kind (Or.inl rfl) nofun nofun ?_ ?_ nofun
  · refine fun _ => Json.hasKeys_object.mpr fun key required => mem_keys_fields.mpr ?_
    have declared := coherent.keys undocumented kind key required
    obtain ⟨child, found⟩ := OrderedMap.mem_keys_iff.mp declared
    exact List.mem_map.mpr ⟨(key, child), List.mem_filter.mpr
      ⟨OrderedMap.get?_eq_some_iff.mp found, decide_eq_true required⟩, rfl⟩
  · intro _ key child w declared found
    obtain ⟨before, after, split, -⟩ := List.lookup_eq_some_iff.mp found
    obtain outside | ⟨entry, member, name, accepts⟩ := goods (key, w) (by rw [split]; simp)
    · cases outside
    · obtain ⟨other, twin⟩ := entry
      cases name
      have shared := OrderedMap.get?_of_mem (List.mem_filter.mp member).1
      rw [OrderedMap.get?_of_mem declared] at shared
      cases shared
      exact accepts

end kinds

theorem value_accepted (closed : arena.Closed) (plain : arena.Plain root)
    (coherent : ∀ id, ReflTransGen arena.Follows root id → arena.Coherent id) {fuel : Nat}
    (path : Path arena root inside id) (bound : id < arena.size)
    (room : arena.size < fuel + inside.length)
    (quiet : (value arena fuel inside id name r s).2.2.notes = s.notes) :
    arena.Accepts id (value arena fuel inside id name r s).1 := by
  induction fuel generalizing inside id name r s with
  | zero =>
    have few := path.length_le
    omega
  | succ fuel ih =>
    have below := closed.below_node id
    have fresh := path.fresh plain
    have own := coherent id path.reached
    have node := plain.nodes id path.reached
    have children : ∀ child, arena.Follows id child →
        Faithful arena (value arena fuel (id :: inside)) child := by
      intro child follows name r s quiet
      refine ih (path.step plain bound follows) (below child follows.mem_children) ?_ quiet
      simp only [List.length_cons]
      omega
    cases documented : documented? (arena.node id) with
    | some v =>
      obtain ⟨allowed, listed, member⟩ := listed_of_documented documented node.example_free
      have made : value arena (fuel + 1) inside id name r s = (v, r, s) := by
        simp only [value, if_neg fresh, documented]
      rw [made]
      exact .listed listed member
    | none =>
      have unlisted := unlisted_of_undocumented documented node.values
      cases kind : (arena.node id).kind with
      | unknown => exact .unknown unlisted kind
      | union => exact union_accepted fresh documented unlisted children own kind quiet
      | typed type =>
        cases type with
        | null =>
          rw [value_of_null fresh documented kind]
          exact .plain unlisted kind (by decide) (Or.inl rfl)
        | boolean =>
          rw [value_of_boolean fresh documented kind]
          exact .plain unlisted kind (by decide) (Or.inl rfl)
        | string => exact text_accepted fresh documented unlisted node kind quiet
        | integer => exact integer_accepted fresh documented unlisted node own kind quiet
        | number => exact number_accepted fresh documented unlisted kind
        | array => exact list_accepted fresh documented unlisted children kind quiet
        | object => exact object_accepted fresh documented unlisted children own kind quiet

/-- The placeholder of a node that asks for more than its own keywords provide is turned down by
that node. -/
theorem not_accepted_of_incoherent (plain : arena.Plain root) {fuel : Nat}
    (incoherent : ¬ arena.Coherent root)
    (quiet : (value arena (fuel + 1) [] root name r s).2.2.notes = s.notes) :
    ¬ arena.Accepts root (value arena (fuel + 1) [] root name r s).1 := by
  intro accepts
  have filled := (plain.nodes root .refl).values
  have fresh : root ∉ [] := List.not_mem_nil
  refine incoherent ⟨fun documented kind => ?_, fun documented kind => ?_,
    fun documented kind first => ?_⟩
  all_goals
    have unlisted := unlisted_of_undocumented documented filled
  · intro key required
    rw [value_of_object fresh documented kind] at accepts
    cases accepts with
    | listed listed => cases unlisted.symm.trans listed
    | union _ other => cases kind.symm.trans other
    | unknown _ other => cases kind.symm.trans other
    | typed _ other _ _ _ keys =>
      cases kind.symm.trans other
      have present := mem_keys_fields.mp (Json.hasKeys_object.mp (keys rfl) key required)
      obtain ⟨entry, kept, rfl⟩ := List.mem_map.mp present
      exact List.mem_map_of_mem (List.mem_filter.mp kept).1
  · rw [value_of_integer fresh documented kind] at quiet accepts
    cases accepts with
    | listed listed => cases unlisted.symm.trans listed
    | union _ other => cases kind.symm.trans other
    | unknown _ other => cases kind.symm.trans other
    | typed _ other _ _ range =>
      cases kind.symm.trans other
      exact (integer_allowed ((plain.nodes root .refl).integers kind) quiet).mp (range _ rfl rfl)
  · rw [value_of_nulls fresh documented kind first] at accepts
    cases accepts with
    | listed listed => cases unlisted.symm.trans listed
    | typed _ other => cases kind.symm.trans other
    | unknown _ other => cases kind.symm.trans other
    | union _ _ member accepts => exact ⟨_, member, accepts⟩

/-- A placeholder made without a note conforms to its node if no node on the way asks for more than
its own keywords provide. If the node itself does, its placeholder does not conform to it. -/
theorem synthesize_accepted (closed : arena.Closed) (bound : root < arena.size)
    (plain : arena.Plain root) (quiet : (s.synthesize arena root name).2.notes = s.notes) :
    ((∀ id, ReflTransGen arena.Follows root id → arena.Coherent id) →
      arena.Accepts root (s.synthesize arena root name).1) ∧
    (¬ arena.Coherent root → ¬ arena.Accepts root (s.synthesize arena root name).1) := by
  constructor
  · intro coherent
    have path : Path arena root [] root := ⟨.refl, nofun, .nil, nofun⟩
    exact value_accepted closed plain coherent path bound (Nat.lt_succ_self _) quiet
  · intro incoherent
    exact not_accepted_of_incoherent plain incoherent quiet

section examples

theorem acyclic_of_forward (forward : ∀ id child, arena.Follows id child → id < child)
    (id : SchemaId) : ¬ TransGen arena.Follows id id := by
  have further : ∀ other, TransGen arena.Follows id other → id < other := by
    intro other chain
    induction chain with
    | single follows => exact forward _ _ follows
    | tail _ follows ih => exact Nat.lt_trans ih (forward _ _ follows)
  exact fun cycle => Nat.lt_irrefl id (further id cycle)

theorem plain_empty : ({} : SchemaNode).Plain := ⟨rfl, nofun, nofun, nofun⟩

/-- An object with a name of at least three characters. -/
def named : SchemaArena :=
  ⟨[{ kind := .typed .object, properties := .ofList [("name", 1)], required := .ofList ["name"] },
    { kind := .typed .string, minLength := some 3 }]⟩

theorem synthesize_accepted_named :
    named.Closed ∧ 0 < named.size ∧ named.Plain 0 ∧
      (({} : Synthesizer).synthesize named 0 "body").2.notes = [] ∧
        named.Accepts 0 (({} : Synthesizer).synthesize named 0 "body").1 := by
  have closed : named.Closed := by
    unfold SchemaArena.Closed SchemaNode.Below
    decide
  have forward : ∀ id child, named.Follows id child → id < child := by
    intro id child follows
    have member := follows.mem_children
    match id with
    | 0 => rw [List.mem_singleton.mp (member : child ∈ [1])]; decide
    | 1 => exact absurd member List.not_mem_nil
    | _ + 2 => exact absurd member List.not_mem_nil
  have plain : named.Plain 0 := by
    refine ⟨fun id _ => acyclic_of_forward forward id,
      fun id _ => SchemaArena.forall_node plain_empty ?_ id⟩
    intro node member
    rcases List.mem_cons.mp member with rfl | member
    · exact ⟨rfl, nofun, nofun, nofun⟩
    · rw [List.mem_singleton.mp member]
      exact ⟨rfl, nofun, fun _ => ⟨rfl, rfl, rfl, by decide⟩, nofun⟩
  have quiet : (({} : Synthesizer).synthesize named 0 "body").2.notes = [] := by decide +kernel
  have coherent : ∀ id, ReflTransGen named.Follows 0 id → named.Coherent id := by
    intro id _
    match id with
    | 0 => exact ⟨fun _ _ => by decide, nofun, nofun⟩
    | 1 => exact ⟨nofun, nofun, nofun⟩
    | _ + 2 => exact ⟨nofun, nofun, nofun⟩
  exact ⟨closed, by decide, plain, quiet,
    (@synthesize_accepted named 0 "body" {} closed (by decide) plain quiet).1 coherent⟩

/-- An object that asks for a property without declaring it. -/
def undeclared : SchemaArena := ⟨[{ kind := .typed .object, required := .ofList ["id"] }]⟩

/-- A required property that is not declared is left out, and nothing is noted. -/
theorem undeclared_property_missing :
    undeclared.Closed ∧ 0 < undeclared.size ∧ undeclared.Plain 0 ∧
      ({} : Synthesizer).synthesize undeclared 0 "body" = (.object [], {}) ∧
        ¬ undeclared.Accepts 0 (.object []) := by
  have childless : ∀ node ∈ undeclared.nodes, node.children = [] := by decide
  have forward : ∀ id child, undeclared.Follows id child → id < child := by
    intro id child follows
    have member := follows.mem_children
    rw [SchemaArena.forall_node (P := (·.children = [])) rfl childless id] at member
    cases member
  have plain : undeclared.Plain 0 := by
    refine ⟨fun id _ => acyclic_of_forward forward id,
      fun id _ => SchemaArena.forall_node plain_empty ?_ id⟩
    intro node member
    rw [List.mem_singleton.mp member]
    exact ⟨rfl, nofun, nofun, nofun⟩
  have closed : undeclared.Closed :=
    fun node member => SchemaNode.below_of_childless (childless node member) _
  refine ⟨closed, by decide, plain, rfl, fun accepts => ?_⟩
  cases accepts with
  | listed listed => cases listed
  | union _ kind => cases kind
  | unknown _ kind => cases kind
  | typed _ kind _ _ _ keys =>
    cases kind
    exact absurd (Json.hasKeys_object.mp (keys rfl) "id" (by decide)) List.not_mem_nil

end examples

end Synthesizer

end HttpPlan
