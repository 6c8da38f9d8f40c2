import HttpPlan.Proofs.Assertion.Layout
import HttpPlan.Proofs.Assertion.Visit

/-! What a visit writes. It adds assertions that are true as they stand, and guards whose bodies are
owed; an owed body is about a value that conforms to its schema whenever the guard is reached. -/
namespace HttpPlan

/-- The nodes that a schema is followed to, with the places that they describe: properties, items
and the one variant of a union beside null. -/
inductive SchemaArena.Stands (arena : SchemaArena) (root : SchemaId) : SchemaId → Locator → Prop
  | root : Stands arena root root .root
  | property {id child : SchemaId} {place : Locator} {key : String}
      (above : Stands arena root id place) (unlisted : (arena.node id).enumeration = none)
      (kind : (arena.node id).kind = .typed .object)
      (declared : (key, child) ∈ (arena.node id).properties.entries) :
      Stands arena root child (place.key key)
  | item {id child : SchemaId} {place : Locator}
      (above : Stands arena root id place) (unlisted : (arena.node id).enumeration = none)
      (kind : (arena.node id).kind = .typed .array) (items : (arena.node id).items = some child) :
      Stands arena root child (place.index 0)
  | variant {id child : SchemaId} {place : Locator} (above : Stands arena root id place)
      (sole : Derivation.soleVariant? arena (arena.node id) = some child) :
      Stands arena root child place

namespace Derivation

open Assertion

/-- A response body and the schema that it is held against. -/
structure Subject where
  accepts : String → String → Prop
  arena : SchemaArena
  root : SchemaId
  body : Json

namespace Subject

variable (c : Subject)

/-- The place leads to a value that conforms to a schema that describes it. -/
def Leads (id : SchemaId) (place : Locator) : Prop :=
  c.arena.Stands c.root id place ∧
    ∃ v, place.resolve? c.body = some v ∧ c.arena.Conforms c.accepts id v

/-- Assertions that hold under a premise, with guards whose bodies are owed. -/
structure Chunk (premise : Prop) (added : List Assertion) (owed : List Deferred) : Prop where
  layout : Layout added owed
  holds : premise → AllHold c.accepts c.body added
  leads : premise → ∀ δ ∈ owed, Reached c.body δ.slot added → c.Leads δ.schema δ.place

variable {c} {premise : Prop} {added more : List Assertion} {owed further : List Deferred}
  {slot : List Nat} {d e f : Draft} {place : Locator}

theorem chunk_nil (c : Subject) (premise : Prop) : c.Chunk premise [] [] :=
  ⟨layout_nil, fun _ => trivial, fun _ _ member => absurd member List.not_mem_nil⟩

/-- Assertions without a guard to be filled. -/
theorem chunk_of_holds (holds : premise → AllHold c.accepts c.body added) :
    c.Chunk premise added [] :=
  ⟨layout_nil, holds, fun _ _ member => absurd member List.not_mem_nil⟩

theorem Chunk.append (first : c.Chunk premise added owed) (last : c.Chunk premise more further) :
    c.Chunk premise (added ++ more) (owed ++ further.map (.moved [] added.length)) where
  layout := first.layout.append last.layout
  holds := fun given => allHold_append.mpr ⟨first.holds given, last.holds given⟩
  leads := fun given δ member reached => by
    rcases List.mem_append.mp member with member | member
    · exact first.leads given δ member ((reached_left _ first.layout member).mp reached)
    · obtain ⟨ε, old, rfl⟩ := List.mem_map.mp member
      exact last.leads given ε old ((reached_right _ last.layout old).mp reached)

/-- Filling the guard of an owed body, with a chunk that holds where the guard is reached. -/
theorem Chunk.fill {out : List Assertion} {next : Deferred} {deferred : List Deferred}
    (chunk : c.Chunk True out (next :: deferred))
    (inner : c.Chunk (Reached c.body next.slot out) added owed) :
    c.Chunk True (install added next.slot out) (deferred ++ owed.map (.moved next.slot 0)) where
  layout := chunk.layout.fill inner.layout
  holds := fun given => install_allHold (chunk.holds given) inner.holds
  leads := fun given δ member reached => by
    have vacant := chunk.layout.vacant next List.mem_cons_self
    rcases List.mem_append.mp member with old | new
    · refine chunk.leads given δ (List.mem_cons_of_mem _ old) (reached_install_apart ?_ reached)
      exact (List.pairwise_cons.mp chunk.layout.apart).1 δ old
    · obtain ⟨ε, old, rfl⟩ := List.mem_map.mp new
      rw [moved_inside inner.layout old] at reached
      obtain ⟨onward, further⟩ := (reached_install_inside_iff vacant).mp reached
      exact inner.leads onward ε old further

/-- One draft adds a chunk to another, in the list at `slot`. -/
def Adds (c : Subject) (premise : Prop) (slot : List Nat) (d e : Draft) : Prop :=
  ∃ added owed, c.Chunk premise added owed ∧ e.out = d.out ++ added ∧
    e.deferred = d.deferred ++ owed.map (.moved slot d.out.length)

/-- One draft queues visits beyond those of another. -/
def Queues (c : Subject) (premise : Prop) (d e : Draft) : Prop :=
  ∃ queued, e.queue = d.queue ++ queued ∧
    ∀ entry ∈ queued, premise → c.Leads entry.1 entry.2

/-- What a visit does to a draft. -/
structure Writes (c : Subject) (premise : Prop) (slot : List Nat) (d e : Draft) : Prop where
  adds : c.Adds premise slot d e
  queues : c.Queues premise d e

theorem Adds.refl (c : Subject) (premise : Prop) (slot : List Nat) (d : Draft) :
    c.Adds premise slot d d := ⟨[], [], chunk_nil c premise, by simp, by simp⟩

theorem Adds.trans (first : c.Adds premise slot d e) (last : c.Adds premise slot e f) :
    c.Adds premise slot d f := by
  obtain ⟨added, owed, chunk, out, deferred⟩ := first
  obtain ⟨more, further, onward, out', deferred'⟩ := last
  refine ⟨added ++ more, _, chunk.append onward, by simp [out', out], ?_⟩
  rw [deferred', deferred, out, List.append_assoc, List.map_append, moved_moved onward.layout,
    List.length_append]

theorem Adds.out (adds : c.Adds premise slot d e) : d.out <+: e.out := by
  obtain ⟨added, -, -, out, -⟩ := adds
  exact ⟨added, out.symm⟩

theorem Queues.refl (c : Subject) (premise : Prop) (d : Draft) : c.Queues premise d d :=
  ⟨[], by simp, fun _ member => by cases member⟩

theorem Queues.trans (first : c.Queues premise d e) (last : c.Queues premise e f) :
    c.Queues premise d f := by
  obtain ⟨queued, queue, leads⟩ := first
  obtain ⟨later, queue', onward⟩ := last
  refine ⟨queued ++ later, by simp [queue', queue], fun entry member => ?_⟩
  exact (List.mem_append.mp member).elim (leads entry) (onward entry)

theorem Writes.refl (c : Subject) (premise : Prop) (slot : List Nat) (d : Draft) :
    c.Writes premise slot d d := ⟨.refl .., .refl ..⟩

theorem Writes.trans (first : c.Writes premise slot d e)
    (last : c.Writes premise slot e f) : c.Writes premise slot d f :=
  ⟨first.adds.trans last.adds, first.queues.trans last.queues⟩

theorem Writes.check {checks : List Check}
    (holds : premise → ∀ check ∈ checks, ∃ v, place.resolve? c.body = some v ∧
      check.Holds c.accepts v) :
    c.Writes premise slot d (d.check place checks) := by
  refine ⟨⟨checks.map (.check place), [], chunk_of_holds fun given => ?_, rfl,
    (List.append_nil _).symm⟩, .refl ..⟩
  exact allHold_iff.mpr (List.forall_mem_map.mpr (holds given))

theorem Writes.defer {guard : Guard} {schema : SchemaId} {inside : Locator}
    (leads : premise → ∃ v, place.resolve? c.body = some v ∧ guard.Applies v ∧
      (guard.Met v → c.Leads schema inside)) :
    c.Writes premise slot d (d.defer slot place guard schema inside) := by
  refine ⟨⟨[.guarded place guard []], [⟨[0], schema, inside⟩], ⟨layout_defer, fun given => ?_,
    fun given δ member reached => ?_⟩, rfl, rfl⟩, .refl ..⟩
  · obtain ⟨v, found, applies, -⟩ := leads given
    exact ⟨⟨v, found, applies, fun _ => trivial⟩, trivial⟩
  · obtain ⟨v, found, -, onward⟩ := leads given
    rw [List.mem_singleton.mp member] at reached ⊢
    obtain ⟨w, resolves, met, -⟩ := (reached_cons rfl).mp reached
    cases found.symm.trans resolves
    exact onward met

theorem Writes.enqueue {schema : SchemaId} {inside : Locator}
    (leads : premise → c.Leads schema inside) :
    c.Writes premise slot d (d.enqueue schema inside) := by
  refine ⟨⟨[], [], chunk_nil c premise, by simp [Draft.enqueue], by simp [Draft.enqueue]⟩,
    [(schema, inside)], rfl, fun entry queued given => ?_⟩
  rw [List.mem_singleton.mp queued]
  exact leads given

/-- A body that is written at once, in a guard against null. -/
theorem Writes.nest (inner : c.Adds
      (premise ∧ ∀ v, place.resolve? c.body = some v → v ≠ .null) (slot ++ [d.out.length])
      d.inner e)
    (leads : premise → ∃ v, place.resolve? c.body = some v) :
    c.Writes premise slot d (d.wrap e place) := by
  obtain ⟨added, owed, chunk, out, deferred⟩ := inner
  have written : e.out = added := out
  subst written
  have under : premise → ∀ v, place.resolve? c.body = some v → v ≠ .null →
      premise ∧ ∀ w, place.resolve? c.body = some w → w ≠ .null := by
    intro given v found filled
    refine ⟨given, fun w other => ?_⟩
    cases found.symm.trans other
    exact filled
  refine ⟨⟨[.guarded place .ifNotNull e.out], owed.map fun δ => { δ with slot := 0 :: δ.slot },
    ⟨chunk.layout.nest .., fun given => ?_, fun given δ member reached => ?_⟩, rfl, ?_⟩, .refl ..⟩
  · obtain ⟨v, found⟩ := leads given
    exact ⟨⟨v, found, trivial, fun filled => chunk.holds (under given v found filled)⟩, trivial⟩
  · obtain ⟨ε, old, rfl⟩ := List.mem_map.mp member
    obtain ⟨v, found, met, further⟩ := (reached_cons rfl).mp reached
    exact chunk.leads (under given v found met) ε old further
  · rw [moved_nest chunk.layout]
    exact deferred

theorem resolve?_key {v w : Json} {key : String} (found : place.resolve? c.body = some v)
    (field : v.field? key = some w) : (place.key key).resolve? c.body = some w := by
  simp only [Locator.resolve?, Locator.key, List.foldlM_append] at found ⊢
  simp [found, LocatorSegment.step, field]

theorem resolve?_index {v w : Json} {position : Nat} (found : place.resolve? c.body = some v)
    (item : v.item? position = some w) : (place.index position).resolve? c.body = some w := by
  simp only [Locator.resolve?, Locator.index, List.foldlM_append] at found ⊢
  simp [found, LocatorSegment.step, item]

theorem item?_of_nonEmpty {v : Json} (present : (v.item? 0).isSome) :
    ∃ vs w, v.items? = some vs ∧ w ∈ vs ∧ v.item? 0 = some w := by
  obtain ⟨w, first⟩ := Option.isSome_iff_exists.mp present
  cases v with
  | array items => exact ⟨items, w, rfl, List.mem_of_getElem? first, first⟩
  | _ => cases first

/-- A value that conforms to a node by the node's one type. -/
structure Fulfils (c : Subject) (id : SchemaId) (type : JsonType) (v : Json) : Prop where
  unlisted : (c.arena.node id).enumeration = none
  kind : (c.arena.node id).kind = .typed type
  typed : v.HasType type
  admits : (c.arena.node id).Admits c.accepts v
  keys : type = .object → v.HasKeys (c.arena.node id).required.names
  properties : type = .object → ∀ key child w,
    (key, child) ∈ (c.arena.node id).properties.entries → v.field? key = some w →
      c.arena.Conforms c.accepts child w
  items : type = .array → ∀ child vs w,
    (c.arena.node id).items = some child → v.items? = some vs → w ∈ vs →
      c.arena.Conforms c.accepts child w

/-- A place that leads to a value of the node's own type. -/
def Meets (c : Subject) (id : SchemaId) (type : JsonType) (place : Locator) : Prop :=
  c.arena.Stands c.root id place ∧ ∃ v, place.resolve? c.body = some v ∧ c.Fulfils id type v

variable {id : SchemaId} {type : JsonType} {v : Json}

/-- A value of the node's own type passes the checks that its keywords call for. -/
theorem Fulfils.checks {typed : Bool} (fulfils : c.Fulfils id type v) :
    ∀ check ∈ nodeChecks (c.arena.node id) typed, check.Holds c.accepts v := by
  obtain ⟨unlisted, kind, has, admits, keys, -, -⟩ := fulfils
  by_cases uuid : type = .string ∧ (c.arena.node id).isUuid = true
  · obtain ⟨rfl, uuid⟩ := uuid
    simp only [nodeChecks, unlisted, kind, uuid, decide_true, Bool.and_self, if_true]
    exact List.forall_mem_singleton.mpr (admits.identifier kind uuid)
  · refine (nodeChecks_hold unlisted kind (not_and.mp uuid) fun _ => has).mpr ⟨has, ?_⟩
    refine (valueChecks_hold has).mpr ⟨?_, ?_, ?_, keys⟩
    · rintro rfl
      exact admits.pattern kind
    · rintro rfl
      exact admits.length kind
    · exact fun numeric => admits.range (by rw [kind]; exact numeric)

theorem Writes.property {entry : String × SchemaId}
    (member : entry ∈ (c.arena.node id).properties.entries)
    (meets : premise → c.Meets id .object place) :
    c.Writes premise slot d (property (c.arena.node id) slot place d entry) := by
  obtain ⟨key, child⟩ := entry
  have onward : ∀ v w, premise → place.resolve? c.body = some v → c.Fulfils id .object v →
      v.field? key = some w → c.Leads child (place.key key) := fun v w given found fulfils field =>
    ⟨.property (meets given).1 fulfils.unlisted fulfils.kind member, w,
      resolve?_key found field, fulfils.properties rfl key child w member field⟩
  unfold Derivation.property
  dsimp only
  split
  · next required =>
    refine .enqueue fun given => ?_
    obtain ⟨v, found, fulfils⟩ := (meets given).2
    obtain ⟨w, field⟩ := Option.isSome_iff_exists.mp ((fulfils.keys rfl).2 key required)
    exact onward v w given found fulfils field
  · refine .defer fun given => ?_
    obtain ⟨v, found, fulfils⟩ := (meets given).2
    refine ⟨v, found, fulfils.typed.type_eq (by decide), fun present => ?_⟩
    obtain ⟨w, field⟩ := Option.isSome_iff_exists.mp present
    exact onward v w given found fulfils field

theorem Writes.properties {entries : List (String × SchemaId)}
    (members : entries ⊆ (c.arena.node id).properties.entries)
    (meets : premise → c.Meets id .object place) :
    c.Writes premise slot d
      (entries.foldl (Derivation.property (c.arena.node id) slot place) d) := by
  induction entries generalizing d with
  | nil => exact .refl ..
  | cons entry rest ih =>
    exact (Writes.property (members List.mem_cons_self) meets).trans
      (ih fun e member => members (List.mem_cons_of_mem _ member))

theorem Writes.items {child : SchemaId} (element : (c.arena.node id).items = some child)
    (meets : premise → c.Meets id .array place) :
    c.Writes premise slot d (d.defer slot place .ifNonEmptyArray child (place.index 0)) := by
  refine .defer fun given => ?_
  obtain ⟨v, found, fulfils⟩ := (meets given).2
  refine ⟨v, found, fulfils.typed.type_eq (by decide), fun present => ?_⟩
  obtain ⟨vs, w, items, member, first⟩ := item?_of_nonEmpty present
  exact ⟨.item (meets given).1 fulfils.unlisted fulfils.kind element, w,
    resolve?_index found first, fulfils.items rfl child vs w element items member⟩

/-- What lies below a value of the node's own type conforms to the nodes that describe it. -/
theorem Writes.branches (meets : premise → ∀ type, (c.arena.node id).enumeration = none →
      (c.arena.node id).kind = .typed type → c.Meets id type place) :
    c.Writes premise slot d (openBranches (c.arena.node id) slot place d) := by
  unfold openBranches
  split
  · next unlisted kind =>
    exact .properties (fun _ member => member) fun given => meets given .object unlisted kind
  · next unlisted kind =>
    split
    · next child element => exact .items element fun given => meets given .array unlisted kind
    · exact .refl ..
  · exact .refl ..

end Subject

end Derivation

end HttpPlan
