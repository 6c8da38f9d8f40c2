import HttpPlan.Proofs.Assertion.Chunk

/-! What a visit writes, to the letter. The assertions that it adds, the bodies that it owes and the
visits that it queues say together what was to be said of its place, neither more nor less. -/
namespace HttpPlan

/-- Null suits a nullable node, and a node that lists values is suited by just those. Otherwise the
kind decides: an identifier is a text of that pattern, and only the first item of an array counts. -/
inductive SchemaArena.Suits (accepts : String → String → Prop) (arena : SchemaArena) :
    SchemaId → Json → Prop
  | null {id : SchemaId} (nullable : (arena.node id).nullable) : Suits accepts arena id .null
  | listed {id : SchemaId} {v : Json} {allowed : List Json}
      (listed : (arena.node id).enumeration = some allowed) (member : v ∈ allowed) :
      Suits accepts arena id v
  | identifier {id : SchemaId} {v : Json} (unlisted : (arena.node id).enumeration = none)
      (kind : (arena.node id).kind = .typed .string) (uuid : (arena.node id).isUuid)
      (text : v.IsText (accepts uuidPattern)) : Suits accepts arena id v
  | typed {id : SchemaId} {v : Json} {type : JsonType}
      (unlisted : (arena.node id).enumeration = none) (kind : (arena.node id).kind = .typed type)
      (other : type = .string → ¬ (arena.node id).isUuid) (typed : v.HasType type)
      (pattern : type = .string → ∀ p, (arena.node id).pattern = some p → v.IsText (accepts p))
      (length : type = .string → v.HasLength (arena.node id).minLength (arena.node id).maxLength)
      (range : type.isNumeric → v.InRange (arena.node id).minimum (arena.node id).maximum
        (arena.node id).exclusiveMinimum (arena.node id).exclusiveMaximum)
      (keys : type = .object → v.HasKeys (arena.node id).required.names)
      (properties : type = .object → ∀ key child w,
        (key, child) ∈ (arena.node id).properties.entries → v.field? key = some w →
          Suits accepts arena child w)
      (first : type = .array → ∀ child w, (arena.node id).items = some child →
        v.item? 0 = some w → Suits accepts arena child w) :
      Suits accepts arena id v
  | unknown {id : SchemaId} {v : Json} (unlisted : (arena.node id).enumeration = none)
      (kind : (arena.node id).kind = .unknown) : Suits accepts arena id v

namespace Derivation

open Assertion

variable {added more : List Assertion} {owed further : List Deferred} {δ : Deferred}

/-- The visit that writes an owed body. -/
def Deferred.entry (δ : Deferred) : SchemaId × Locator := (δ.schema, δ.place)

namespace Subject

variable (c : Subject)

/-- The place is there, with a value of some property. -/
def Has (place : Locator) (holds : Json → Prop) : Prop :=
  ∃ v, place.resolve? c.body = some v ∧ holds v

def Present (place : Locator) : Prop := ∃ v, place.resolve? c.body = some v

/-- The value at a place, where there is one, suits a node. -/
def Suitable (entry : SchemaId × Locator) : Prop :=
  ∀ v, entry.2.resolve? c.body = some v → c.arena.Suits c.accepts entry.1 v

/-- What assertions, owed bodies and queued visits say together. -/
structure Means (firm : Prop) (added : List Assertion) (owed : List Deferred)
    (queued : List (SchemaId × Locator)) : Prop where
  all : AllPass firm c.accepts c.body added
  owed : ∀ δ ∈ owed, Reached c.body δ.slot added → c.Suitable δ.entry
  queued : ∀ entry ∈ queued, c.Suitable entry

/-- Assertions, owed bodies and queued visits that say under a premise just what is demanded. A
place is there when it is its turn to be visited. -/
structure Exact (firm premise demand : Prop) (added : List Assertion) (owed : List Deferred)
    (queued : List (SchemaId × Locator)) : Prop where
  layout : Layout added owed
  opens : ∀ δ ∈ owed, Reached c.body δ.slot added → c.Present δ.place
  ahead : premise → AllPass firm c.accepts c.body added → ∀ entry ∈ queued, c.Present entry.2
  exact : premise → (demand ↔ c.Means firm added owed queued)

variable {c} {firm premise demand : Prop} {queued later : List (SchemaId × Locator)}
  {place : Locator} {schema : SchemaId} {d e f : Draft} {slot : List Nat}

theorem Exact.weaken {stronger : Prop} (exact : c.Exact firm premise demand added owed queued)
    (stronger_than : stronger → premise) : c.Exact firm stronger demand added owed queued where
  layout := exact.layout
  opens := exact.opens
  ahead := fun given => exact.ahead (stronger_than given)
  exact := fun given => exact.exact (stronger_than given)

theorem Exact.congr {other : Prop} (exact : c.Exact firm premise demand added owed queued)
    (same : premise → (other ↔ demand)) : c.Exact firm premise other added owed queued where
  layout := exact.layout
  opens := exact.opens
  ahead := exact.ahead
  exact := fun given => (same given).trans (exact.exact given)

theorem exact_nil : c.Exact firm premise True [] [] [] :=
  ⟨layout_nil, nofun, nofun, fun _ => ⟨fun _ => ⟨trivial, nofun, nofun⟩, fun _ => trivial⟩⟩

theorem opens_append (leads : SchemaId × Locator → Prop) (first : Layout added owed)
    (last : Layout more further) :
    (∀ δ ∈ owed ++ further.map (.moved [] added.length),
      Reached c.body δ.slot (added ++ more) → leads δ.entry) ↔
      (∀ δ ∈ owed, Reached c.body δ.slot added → leads δ.entry) ∧
        ∀ δ ∈ further, Reached c.body δ.slot more → leads δ.entry := by
  constructor
  · intro all
    refine ⟨fun δ member reached => ?_, fun δ member reached => ?_⟩
    · exact all δ (List.mem_append_left _ member) ((reached_left _ first member).mpr reached)
    · have moved := List.mem_map_of_mem (f := Deferred.moved [] added.length) member
      exact all (δ.moved [] added.length) (List.mem_append_right _ moved)
        ((reached_right _ last member).mpr reached)
  · rintro ⟨before, behind⟩ δ member reached
    rcases List.mem_append.mp member with old | new
    · exact before δ old ((reached_left _ first old).mp reached)
    · obtain ⟨ε, known, rfl⟩ := List.mem_map.mp new
      exact behind ε known ((reached_right _ last known).mp reached)

theorem means_written (first : Layout added owed) (last : Layout more further) :
    c.Means firm (added ++ more) (owed ++ further.map (.moved [] added.length)) [] ↔
      c.Means firm added owed [] ∧ c.Means firm more further [] := by
  constructor
  · rintro ⟨all, owed, -⟩
    obtain ⟨before, behind⟩ := allPass_append.mp all
    obtain ⟨early, late⟩ := (opens_append c.Suitable first last).mp owed
    exact ⟨⟨before, early, nofun⟩, ⟨behind, late, nofun⟩⟩
  · rintro ⟨⟨before, early, -⟩, ⟨behind, late, -⟩⟩
    exact ⟨allPass_append.mpr ⟨before, behind⟩,
      (opens_append c.Suitable first last).mpr ⟨early, late⟩, nofun⟩

theorem means_queued : c.Means firm added owed queued ↔
    c.Means firm added owed [] ∧ ∀ entry ∈ queued, c.Suitable entry :=
  ⟨fun means => ⟨⟨means.all, means.owed, nofun⟩, means.queued⟩,
    fun ⟨means, queue⟩ => ⟨means.all, means.owed, queue⟩⟩

theorem means_append (first : Layout added owed) (last : Layout more further) :
    c.Means firm (added ++ more) (owed ++ further.map (.moved [] added.length)) (queued ++ later) ↔
      c.Means firm added owed queued ∧ c.Means firm more further later := by
  rw [means_queued, means_written first last, List.forall_mem_append, and_and_and_comm,
    ← means_queued, ← means_queued]

/-- Assertions of which the later ones may count on the earlier ones. -/
theorem Exact.append {other : Prop} (first : c.Exact firm premise demand added owed queued)
    (last : c.Exact firm (premise ∧ AllPass firm c.accepts c.body added) other more further later) :
    c.Exact firm premise (demand ∧ other) (added ++ more)
      (owed ++ further.map (.moved [] added.length)) (queued ++ later) where
  layout := first.layout.append last.layout
  opens := (opens_append (fun entry => c.Present entry.2) first.layout last.layout).mpr
    ⟨first.opens, last.opens⟩
  ahead := fun given all entry member => by
    obtain ⟨before, behind⟩ := allPass_append.mp all
    exact (List.mem_append.mp member).elim (first.ahead given before entry)
      (last.ahead ⟨given, before⟩ behind entry)
  exact := fun given => by
    rw [means_append first.layout last.layout, first.exact given]
    exact and_congr_right fun means => last.exact ⟨given, means.all⟩

/-- Checks that stand alone. -/
theorem exact_checks {checks : List Assertion} :
    c.Exact firm premise (AllPass firm c.accepts c.body checks) checks [] [] where
  layout := layout_nil
  opens := nofun
  ahead := nofun
  exact := fun _ => ⟨fun all => ⟨all, nofun, nofun⟩, fun means => means.all⟩

theorem exact_enqueue (present : premise → c.Present place) :
    c.Exact firm premise (c.Suitable (schema, place)) [] [] [(schema, place)] where
  layout := layout_nil
  opens := nofun
  ahead := fun given _ entry member => by
    rw [List.mem_singleton.mp member]
    exact present given
  exact := fun _ => by
    refine ⟨fun suitable => ⟨trivial, nofun, fun entry member => ?_⟩, fun means => ?_⟩
    · rw [List.mem_singleton.mp member]
      exact suitable
    · exact means.queued _ List.mem_cons_self

/-- A guard that is met where the place below it is there. -/
theorem exact_defer {guard : Guard} {inside : Locator}
    (applies : premise → c.Has place guard.Applies)
    (met : c.Has place guard.Met ↔ c.Present inside) :
    c.Exact firm premise (c.Suitable (schema, inside)) [.guarded place guard []]
      [⟨[0], schema, inside⟩] [] := by
  have reached : Reached c.body [0] [.guarded place guard []] ↔ c.Present inside := by
    rw [reached_cons rfl, ← met]
    exact exists_congr fun v => ⟨fun h => ⟨h.1, h.2.1⟩, fun h => ⟨h.1, h.2, trivial⟩⟩
  constructor
  · exact layout_defer
  · intro δ member
    rw [List.mem_singleton.mp member]
    exact reached.mp
  · nofun
  · intro given
    constructor
    · refine fun suitable => ⟨⟨⟨fun _ => applies given, fun _ _ _ => trivial⟩, trivial⟩,
        fun δ member _ => ?_, nofun⟩
      rw [List.mem_singleton.mp member]
      exact suitable
    · intro means v found
      exact means.owed _ List.mem_cons_self (reached.mpr ⟨v, found⟩) v found

/-- A body that is written at once, in a guard against null. -/
theorem Exact.nest
    (inner : c.Exact firm (premise ∧ c.Has place (· ≠ .null)) demand added owed [])
    (present : premise → c.Present place) :
    c.Exact firm premise (c.Has place (· ≠ .null) → demand) [.guarded place .ifNotNull added]
      (owed.map fun δ => { δ with slot := 0 :: δ.slot }) [] := by
  have reached : ∀ δ : Deferred, Reached c.body (0 :: δ.slot) [.guarded place .ifNotNull added] ↔
      c.Has place (· ≠ .null) ∧ Reached c.body δ.slot added := by
    intro δ
    rw [reached_cons rfl]
    exact ⟨fun ⟨v, found, filled, further⟩ => ⟨⟨v, found, filled⟩, further⟩,
      fun ⟨⟨v, found, filled⟩, further⟩ => ⟨v, found, filled, further⟩⟩
  constructor
  · exact inner.layout.nest ..
  · intro δ member
    obtain ⟨ε, known, rfl⟩ := List.mem_map.mp member
    exact fun far => inner.opens ε known ((reached ε).mp far).2
  · nofun
  · intro given
    constructor
    · intro demanded
      refine ⟨⟨⟨fun _ => ?_, fun v found filled => ?_⟩, trivial⟩, fun δ member far => ?_, nofun⟩
      · obtain ⟨v, found⟩ := present given
        exact ⟨v, found, trivial⟩
      · have solid : c.Has place (· ≠ .null) := ⟨v, found, filled⟩
        exact ((inner.exact ⟨given, solid⟩).mp (demanded solid)).all
      · obtain ⟨ε, known, rfl⟩ := List.mem_map.mp member
        obtain ⟨solid, further⟩ := (reached ε).mp far
        exact ((inner.exact ⟨given, solid⟩).mp (demanded solid)).owed ε known further
    · intro means solid
      refine (inner.exact ⟨given, solid⟩).mpr ⟨?_, fun δ member further => ?_, nofun⟩
      · obtain ⟨v, found, filled⟩ := solid
        exact means.all.1.2 v found filled
      · exact means.owed { δ with slot := 0 :: δ.slot } (List.mem_map.mpr ⟨δ, member, rfl⟩)
          ((reached δ).mpr ⟨solid, further⟩)

/-- Visits that were queued are made, together with others that were queued before. -/
theorem Exact.drain (first : c.Exact firm premise demand added owed queued)
    (last : c.Exact firm (premise ∧ AllPass firm c.accepts c.body added)
      (∀ entry ∈ later ++ queued, c.Suitable entry) more further []) :
    c.Exact firm premise (demand ∧ ∀ entry ∈ later, c.Suitable entry) (added ++ more)
      (owed ++ further.map (.moved [] added.length)) [] where
  layout := first.layout.append last.layout
  opens := (opens_append (fun entry => c.Present entry.2) first.layout last.layout).mpr
    ⟨first.opens, last.opens⟩
  ahead := nofun
  exact := fun given => by
    rw [means_written first.layout last.layout, first.exact given]
    constructor
    · rintro ⟨⟨all, owes, queue⟩, before⟩
      refine ⟨⟨all, owes, nofun⟩, (last.exact ⟨given, all⟩).mp fun entry member => ?_⟩
      exact (List.mem_append.mp member).elim (before entry) (queue entry)
    · rintro ⟨⟨all, owes, -⟩, means⟩
      have every := (last.exact ⟨given, all⟩).mpr means
      exact ⟨⟨all, owes, fun entry member => every entry (List.mem_append_right _ member)⟩,
        fun entry member => every entry (List.mem_append_left _ member)⟩

end Subject

end Derivation

end HttpPlan
