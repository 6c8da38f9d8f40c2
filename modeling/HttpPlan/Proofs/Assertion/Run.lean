import HttpPlan.Proofs.Assertion.Checks
import HttpPlan.Proofs.Assertion.Tree

/-! The derivation as a relation between drafts: one rule for each way in which a visit can go, and
no bound on the steps. A run comes with the nodes that it expands, in their order. -/
namespace HttpPlan

namespace SchemaArena

variable {arena : SchemaArena} {id child : SchemaId}

/-- What an expansion goes on to without a guard: required properties, and the one variant that a
union has beside null. -/
inductive Needs (arena : SchemaArena) (id child : SchemaId) : Prop
  | property {key : String} (unlisted : (arena.node id).enumeration = none)
      (kind : (arena.node id).kind = .typed .object)
      (declared : (key, child) ∈ (arena.node id).properties.entries)
      (required : key ∈ (arena.node id).required)
  | variant (unlisted : (arena.node id).enumeration = none) (kind : (arena.node id).kind = .union)
      (sole : Derivation.concreteVariants arena (arena.node id) = [child])

/-- What an expansion goes on to inside a guard for presence: optional properties and items. -/
inductive Defers (arena : SchemaArena) (id child : SchemaId) : Prop
  | property {key : String} (unlisted : (arena.node id).enumeration = none)
      (kind : (arena.node id).kind = .typed .object)
      (declared : (key, child) ∈ (arena.node id).properties.entries)
      (optional : key ∉ (arena.node id).required)
  | item (unlisted : (arena.node id).enumeration = none)
      (kind : (arena.node id).kind = .typed .array) (items : (arena.node id).items = some child)

theorem Needs.child_mem (needs : arena.Needs id child) : child ∈ (arena.node id).children := by
  rw [SchemaNode.mem_children]
  rcases needs with ⟨-, -, declared, -⟩ | ⟨-, -, sole⟩
  · exact Or.inl (List.mem_map_of_mem declared)
  · have member : child ∈ Derivation.concreteVariants arena (arena.node id) := by simp [sole]
    exact Or.inr (Or.inr (List.mem_filter.mp member).1)

theorem Defers.child_mem (defers : arena.Defers id child) : child ∈ (arena.node id).children := by
  rw [SchemaNode.mem_children]
  rcases defers with ⟨-, -, declared, -⟩ | ⟨-, -, items⟩
  · exact Or.inl (List.mem_map_of_mem declared)
  · exact Or.inr (Or.inl items)

end SchemaArena

namespace Derivation

open Assertion

variable {arena : SchemaArena} {node : SchemaNode} {id child : SchemaId} {place : Locator}
  {typed : Bool} {slot : List Nat} {d e f : Draft} {fuel : Nat}

/-- The visits to required properties, which come at the next level. -/
def nextVisits (node : SchemaNode) (place : Locator) : List (SchemaId × Locator) :=
  match node.enumeration, node.kind with
  | none, .typed .object =>
    (node.properties.entries.filter (·.1 ∈ node.required)).map fun entry =>
      (entry.2, place.key entry.1)
  | _, _ => []

/-- The visits that are left for the bodies of guards. -/
def laterVisits (node : SchemaNode) (place : Locator) : List (SchemaId × Locator) :=
  match node.enumeration, node.kind with
  | none, .typed .object =>
    (node.properties.entries.filter (·.1 ∉ node.required)).map fun entry =>
      (entry.2, place.key entry.1)
  | none, .typed .array => node.items.toList.map fun child => (child, place.index 0)
  | _, _ => []

theorem needs_iff (place : Locator) :
    arena.Needs id child ↔ soleVariant? arena (arena.node id) = some child ∨
    ∃ entry ∈ nextVisits (arena.node id) place, entry.1 = child := by
  constructor
  · rintro (@⟨key, unlisted, kind, declared, required⟩ | ⟨unlisted, kind, sole⟩)
    · refine Or.inr ⟨(child, place.key key), ?_, rfl⟩
      simp only [nextVisits, unlisted, kind]
      exact List.mem_map_of_mem (List.mem_filter.mpr ⟨declared, decide_eq_true required⟩)
    · exact Or.inl (soleVariant?_eq_some.mpr ⟨unlisted, kind, sole⟩)
  · rintro (sole | ⟨entry, member, rfl⟩)
    · obtain ⟨unlisted, kind, sole⟩ := soleVariant?_eq_some.mp sole
      exact .variant unlisted kind sole
    · unfold nextVisits at member
      split at member
      · next unlisted kind =>
        obtain ⟨property, inside, rfl⟩ := List.mem_map.mp member
        obtain ⟨declared, required⟩ := List.mem_filter.mp inside
        exact .property unlisted kind declared (of_decide_eq_true required)
      · cases member

theorem defers_iff (place : Locator) : arena.Defers id child ↔
    ∃ entry ∈ laterVisits (arena.node id) place, entry.1 = child := by
  constructor
  · rintro (@⟨key, unlisted, kind, declared, optional⟩ | ⟨unlisted, kind, items⟩)
    · refine ⟨(child, place.key key), ?_, rfl⟩
      simp only [laterVisits, unlisted, kind]
      exact List.mem_map_of_mem (List.mem_filter.mpr ⟨declared, decide_eq_true optional⟩)
    · refine ⟨(child, place.index 0), ?_, rfl⟩
      simp only [laterVisits, unlisted, kind]
      exact List.mem_map_of_mem (Option.mem_toList.mpr items)
  · rintro ⟨entry, member, rfl⟩
    unfold laterVisits at member
    split at member
    · next unlisted kind =>
      obtain ⟨property, inside, rfl⟩ := List.mem_map.mp member
      obtain ⟨declared, optional⟩ := List.mem_filter.mp inside
      exact .property unlisted kind declared (of_decide_eq_true optional)
    · next unlisted kind =>
      obtain ⟨item, inside, rfl⟩ := List.mem_map.mp member
      exact .item unlisted kind (Option.mem_toList.mp inside)
    · cases member

theorem visits_length (node : SchemaNode) (place : Locator) :
    (nextVisits node place).length + (laterVisits node place).length ≤ node.branches.length := by
  unfold nextVisits laterVisits SchemaNode.branches
  cases node.enumeration with
  | some allowed => exact Nat.zero_le _
  | none =>
    cases node.kind with
    | union => exact Nat.zero_le _
    | unknown => exact Nat.zero_le _
    | typed type =>
      cases type with
      | object =>
        have parts := List.length_eq_length_filter_add
          (l := node.properties.entries) (fun entry => decide (entry.1 ∈ node.required))
        simp only [List.length_map, decide_not]
        omega
      | array => simp
      | _ => exact Nat.zero_le _

/-- A draft with empty guards of one place behind it, and with further visits. -/
structure Opens (place : Locator) (next later : List (SchemaId × Locator)) (d e : Draft) :
    Prop where
  visited : e.visited = d.visited
  queue : e.queue = d.queue ++ next
  out : ∃ guards : List Guard, e.out = d.out ++ guards.map (.guarded place · []) ∧
    guards.length = later.length
  deferred : ∃ owed, e.deferred = d.deferred ++ owed ∧ owed.map Deferred.entry = later

theorem opens_refl : Opens place [] [] d d :=
  ⟨rfl, by simp, ⟨[], by simp⟩, [], by simp⟩

theorem Opens.trans {next later onward behind : List (SchemaId × Locator)}
    (first : Opens place next later d e) (last : Opens place onward behind e f) :
    Opens place (next ++ onward) (later ++ behind) d f := by
  obtain ⟨guards, out, size⟩ := first.out
  obtain ⟨more, out', size'⟩ := last.out
  obtain ⟨owed, deferred, same⟩ := first.deferred
  obtain ⟨further, deferred', same'⟩ := last.deferred
  exact ⟨last.visited.trans first.visited, by rw [last.queue, first.queue, List.append_assoc],
    ⟨guards ++ more, by simp [out', out], by simp [size, size']⟩,
    ⟨owed ++ further, by simp [deferred', deferred], by simp [same, same']⟩⟩

theorem opens_property (node : SchemaNode) (slot : List Nat) (d : Draft)
    (entry : String × SchemaId) :
    Opens place (if entry.1 ∈ node.required then [(entry.2, place.key entry.1)] else [])
      (if entry.1 ∉ node.required then [(entry.2, place.key entry.1)] else []) d
      (property node slot place d entry) := by
  unfold property
  dsimp only
  by_cases required : entry.1 ∈ node.required
  · simp only [required, if_true, not_true, if_false]
    exact ⟨rfl, rfl, ⟨[], by simp [Draft.enqueue]⟩, [], by simp [Draft.enqueue]⟩
  · simp only [required, if_false, not_false_eq_true, if_true]
    exact ⟨rfl, by simp [Draft.defer], ⟨[_], rfl, rfl⟩, [_], rfl, rfl⟩

theorem opens_properties {entries : List (String × SchemaId)} :
    Opens place
      ((entries.filter (·.1 ∈ node.required)).map fun entry => (entry.2, place.key entry.1))
      ((entries.filter (·.1 ∉ node.required)).map fun entry => (entry.2, place.key entry.1)) d
      (entries.foldl (property node slot place) d) := by
  induction entries generalizing d with
  | nil => exact opens_refl
  | cons entry rest ih =>
    have step := (opens_property node slot d entry).trans (ih (d := property node slot place d entry))
    by_cases required : entry.1 ∈ node.required
    · simpa [required] using step
    · simpa [required] using step

theorem opens_branches :
    Opens place (nextVisits node place) (laterVisits node place) d
      (openBranches node slot place d) := by
  unfold openBranches nextVisits laterVisits
  cases node.enumeration with
  | some allowed => exact opens_refl
  | none =>
    cases node.kind with
    | union => exact opens_refl
    | unknown => exact opens_refl
    | typed type =>
      cases type with
      | object => exact opens_properties
      | array =>
        cases node.items with
        | none => exact opens_refl
        | some items => exact ⟨rfl, by simp [Draft.defer], ⟨[_], rfl, rfl⟩, [_], rfl, rfl⟩
      | _ => exact opens_refl

namespace Draft

end Draft

theorem opens_here (arena : SchemaArena) (id : SchemaId) (place : Locator) (typed : Bool)
    (slot : List Nat) (d : Draft) :
    Opens place (nextVisits (arena.node id) place) (laterVisits (arena.node id) place)
      ((d.mark id).check place (ownChecks arena (arena.node id) typed))
      (expandHere arena id place typed slot d) := opens_branches

/-- A node expanded in full at a place, for the list at a position. -/
structure Expansion where
  schema : SchemaId
  place : Locator
  slot : List Nat
  /-- Whether the type of the place has been checked before. -/
  typed : Bool

inductive Task where
  | visit (id : SchemaId) (place : Locator) (typed : Bool)
  | drain

/-- A task leads from one draft to another and expands the listed nodes on its way. -/
inductive Run (arena : SchemaArena) : Task → List Nat → Draft → Draft → List Expansion → Prop
  | again {id : SchemaId} {place : Locator} {typed : Bool} {slot : List Nat} {d : Draft}
      (seen : id ∈ d.visited) :
      Run arena (.visit id place typed) slot d
        (d.check place (shallowChecks arena (arena.node id) typed)) []
  | guarded {id : SchemaId} {place : Locator} {slot : List Nat} {d start opened body : Draft}
      {first later : List Expansion} (fresh : id ∉ d.visited)
      (nullable : arena.acceptsNull (arena.node id) = true)
      (begun : start = d.check place (shallowChecks arena (arena.node id) false))
      (visit : Run arena (.visit id place true) (slot ++ [start.out.length]) start.inner opened
        first)
      (drain : Run arena .drain (slot ++ [start.out.length]) opened body later) :
      Run arena (.visit id place false) slot d (start.wrap body place) (first ++ later)
  | plain {id : SchemaId} {place : Locator} {typed : Bool} {slot : List Nat} {d : Draft}
      (fresh : id ∉ d.visited) (solid : typed ∨ arena.acceptsNull (arena.node id) = false)
      (ends : soleVariant? arena (arena.node id) = none) :
      Run arena (.visit id place typed) slot d (expandHere arena id place typed slot d)
        [⟨id, place, slot, typed⟩]
  | variant {id other : SchemaId} {place : Locator} {typed : Bool} {slot : List Nat} {d e : Draft}
      {log : List Expansion} (fresh : id ∉ d.visited)
      (solid : typed ∨ arena.acceptsNull (arena.node id) = false)
      (sole : soleVariant? arena (arena.node id) = some other)
      (visit : Run arena (.visit other place typed) slot (d.mark id) e log) :
      Run arena (.visit id place typed) slot d e (⟨id, place, slot, typed⟩ :: log)
  | done {slot : List Nat} {d : Draft} (empty : d.queue = []) : Run arena .drain slot d d []
  | next {id : SchemaId} {place : Locator} {queue : List (SchemaId × Locator)} {slot : List Nat}
      {d e f : Draft} {first later : List Expansion} (ahead : d.queue = (id, place) :: queue)
      (visit : Run arena (.visit id place false) slot { d with queue } e first)
      (drain : Run arena .drain slot e f later) : Run arena .drain slot d f (first ++ later)

/-- The bodies of all deferred guards are written, oldest first. -/
inductive Settles (arena : SchemaArena) :
    List Assertion → Draft → List Assertion → List Expansion → Prop
  | done {out : List Assertion} {d : Draft} (empty : d.deferred = []) : Settles arena out d out []
  | next {out settled : List Assertion} {next : Deferred} {deferred : List Deferred} {d e : Draft}
      {first later : List Expansion} (ahead : d.deferred = next :: deferred)
      (body : Run arena .drain next.slot { d with deferred, out := [], queue := [next.entry] } e
        first)
      (rest : Settles arena (install e.out next.slot out) e settled later) :
      Settles arena out d settled (first ++ later)

/-- The assertions of a schema, with the nodes expanded before any deferred body is written, and
with those expanded later. -/
def Derives (arena : SchemaArena) (root : SchemaId) (list : List Assertion)
    (first later : List Expansion) : Prop :=
  ∃ d settled, Run arena .drain [] { queue := [(root, .root)] } d first ∧
    Settles arena d.out d settled later ∧ list = prune settled

variable {task : Task} {log : List Expansion}

/-- What a task must leave in the queue. -/
def Task.keeps : Task → List (SchemaId × Locator) → List (SchemaId × Locator)
  | .visit _ _ _, queue => queue
  | .drain, _ => []

/-- Whether the node that a task starts at has a property. -/
def Task.Meets (P : SchemaId → Prop) : Task → Prop
  | .visit id _ _ => P id
  | .drain => True

/-- What has been visited in the end is what had been before and what was expanded. -/
theorem Run.visited (run : Run arena task slot d e log) :
    e.visited = (log.map (·.schema)).reverse ++ d.visited := by
  induction run with
  | again => rfl
  | guarded _ _ begun _ _ inside behind =>
    subst begun
    show Draft.visited _ = _
    rw [Draft.wrap, behind, inside]
    simp [Draft.inner, Draft.check]
  | plain => exact (opens_here ..).visited
  | variant _ _ _ _ inside => simp [inside, Draft.mark]
  | done => rfl
  | next _ _ _ inside behind => rw [behind, inside]; simp

theorem Run.mem_visited (run : Run arena task slot d e log) :
    id ∈ e.visited ↔ (∃ x ∈ log, x.schema = id) ∨ id ∈ d.visited := by
  rw [run.visited, List.mem_append, List.mem_reverse, List.mem_map]

theorem Run.visited_subset (run : Run arena task slot d e log) (seen : id ∈ d.visited) :
    id ∈ e.visited := run.mem_visited.mpr (Or.inr seen)

theorem Run.nodup (run : Run arena task slot d e log) (distinct : d.visited.Nodup) :
    e.visited.Nodup := by
  induction run with
  | again => exact distinct
  | guarded _ _ begun _ _ inside behind => exact behind (inside (begun ▸ distinct))
  | plain fresh =>
    rw [(opens_here ..).visited]
    exact List.nodup_cons.mpr ⟨fresh, distinct⟩
  | variant fresh _ _ _ inside => exact inside (List.nodup_cons.mpr ⟨fresh, distinct⟩)
  | done => exact distinct
  | next _ _ _ inside behind => exact behind (inside distinct)

theorem Run.fresh (run : Run arena task slot d e log) : ∀ x ∈ log, x.schema ∉ d.visited := by
  induction run with
  | again => exact nofun
  | guarded _ _ begun visit _ inside behind =>
    subst begun
    exact List.forall_mem_append.mpr ⟨inside, fun x member seen =>
      behind x member (visit.visited_subset seen)⟩
  | plain fresh => exact List.forall_mem_singleton.mpr fresh
  | variant fresh _ _ _ inside =>
    exact List.forall_mem_cons.mpr ⟨fresh, fun x member seen =>
      inside x member (List.mem_cons_of_mem _ seen)⟩
  | done => exact nofun
  | next _ visit _ inside behind =>
    exact List.forall_mem_append.mpr ⟨inside, fun x member seen =>
      behind x member (visit.visited_subset seen)⟩

theorem Run.deferred (run : Run arena task slot d e log) : d.deferred <+: e.deferred := by
  induction run with
  | again => exact List.prefix_rfl
  | guarded _ _ begun _ _ inside behind => exact (begun ▸ inside).trans behind
  | @plain id place typed slot d =>
    obtain ⟨owed, grown, -⟩ := (opens_here arena id place typed slot d).deferred
    exact ⟨owed, grown.symm⟩
  | variant _ _ _ _ inside => exact inside
  | done => exact List.prefix_rfl
  | next _ _ _ inside behind => exact inside.trans behind

theorem Run.queue (run : Run arena task slot d e log) :
    task.keeps d.queue <+: e.queue ∧ (task = .drain → e.queue = []) := by
  induction run with
  | again => exact ⟨List.prefix_rfl, nofun⟩
  | guarded _ _ begun => exact ⟨begun ▸ List.prefix_rfl, nofun⟩
  | @plain id place typed slot d =>
    exact ⟨⟨_, (opens_here arena id place typed slot d).queue.symm⟩, nofun⟩
  | variant _ _ _ _ inside => exact ⟨inside.1, nofun⟩
  | done empty => exact ⟨List.nil_prefix, fun _ => empty⟩
  | next _ _ _ _ behind => exact ⟨List.nil_prefix, fun _ => behind.2 rfl⟩

theorem Run.drained (run : Run arena .drain slot d e log) : e.queue = [] := run.queue.2 rfl

/-- A run stays within what its start leads to. -/
theorem Run.within {P Q : SchemaId → Prop}
    (onward : ∀ id child, P id → arena.Needs id child → P child)
    (aside : ∀ id child, P id → arena.Defers id child → Q child)
    (run : Run arena task slot d e log) (here : task.Meets P) (queue : ∀ entry ∈ d.queue, P entry.1)
    (deferred : ∀ δ ∈ d.deferred, Q δ.schema) :
    (∀ x ∈ log, P x.schema) ∧ (∀ entry ∈ e.queue, P entry.1) ∧ ∀ δ ∈ e.deferred, Q δ.schema := by
  induction run with
  | again => exact ⟨nofun, queue, deferred⟩
  | guarded _ _ begun _ _ inside behind =>
    subst begun
    obtain ⟨logged, queued, owed⟩ := inside here nofun deferred
    obtain ⟨logged', -, owed'⟩ := behind trivial queued owed
    exact ⟨List.forall_mem_append.mpr ⟨logged, logged'⟩, queue, owed'⟩
  | @plain id place typed slot d =>
    have opens := opens_here arena id place typed slot d
    refine ⟨List.forall_mem_singleton.mpr here, ?_, ?_⟩
    · rw [opens.queue]
      refine List.forall_mem_append.mpr ⟨queue, fun entry member => ?_⟩
      exact onward id _ here ((needs_iff place).mpr (Or.inr ⟨entry, member, rfl⟩))
    · obtain ⟨owed, grown, same⟩ := opens.deferred
      rw [grown]
      refine List.forall_mem_append.mpr ⟨deferred, fun δ member => ?_⟩
      exact aside id _ here ((defers_iff place).mpr ⟨δ.entry, same ▸ List.mem_map_of_mem member, rfl⟩)
  | @variant id _ _ _ _ _ _ _ _ _ sole _ inside =>
    have other := onward id _ here ((needs_iff .root).mpr (Or.inl sole))
    obtain ⟨logged, rest⟩ := inside other queue deferred
    exact ⟨List.forall_mem_cons.mpr ⟨here, logged⟩, rest⟩
  | done => exact ⟨nofun, queue, deferred⟩
  | next ahead _ _ inside behind =>
    rw [ahead, List.forall_mem_cons] at queue
    obtain ⟨logged, queued, owed⟩ := inside queue.1 queue.2 deferred
    obtain ⟨logged', rest⟩ := behind trivial queued owed
    exact ⟨List.forall_mem_append.mpr ⟨logged, logged'⟩, rest⟩

/-- A visit expands its node unless that has been done, and draining visits all that is queued. -/
theorem Run.reaches (run : Run arena task slot d e log) : task.Meets (· ∈ e.visited) ∧
    (task = .drain → ∀ entry ∈ d.queue, entry.1 ∈ e.visited) := by
  induction run with
  | again seen => exact ⟨seen, nofun⟩
  | guarded _ _ _ _ drain inside => exact ⟨drain.visited_subset inside.1, nofun⟩
  | plain =>
    refine ⟨?_, nofun⟩
    show _ ∈ Draft.visited _
    rw [(opens_here ..).visited]
    exact List.mem_cons_self
  | variant _ _ _ visit => exact ⟨visit.visited_subset List.mem_cons_self, nofun⟩
  | done empty => exact ⟨trivial, fun _ => by rw [empty]; exact nofun⟩
  | next ahead visit drain inside behind =>
    refine ⟨trivial, fun _ => ?_⟩
    rw [ahead]
    refine List.forall_mem_cons.mpr ⟨drain.visited_subset inside.1, fun entry member => ?_⟩
    exact behind.2 rfl entry (visit.queue.1.subset member)

theorem Run.exhausts (run : Run arena .drain slot d e log)
    (pending : child ∈ d.visited ∨ ∃ entry ∈ d.queue, entry.1 = child) : child ∈ e.visited := by
  rcases pending with seen | ⟨entry, member, rfl⟩
  · exact run.visited_subset seen
  · exact run.reaches.2 rfl entry member

/-- What an expansion goes on to without a guard is visited or queued. -/
theorem Run.needs (run : Run arena task slot d e log) :
    ∀ x ∈ log, ∀ child, arena.Needs x.schema child →
      child ∈ e.visited ∨ ∃ entry ∈ e.queue, entry.1 = child := by
  induction run with
  | again => exact nofun
  | guarded _ _ _ _ drain inside behind =>
    refine List.forall_mem_append.mpr
      ⟨fun x member child needs => ?_, fun x member child needs => ?_⟩
    · exact Or.inl (drain.exhausts (inside x member child needs))
    · rcases behind x member child needs with seen | ⟨entry, queued, -⟩
      · exact Or.inl seen
      · rw [drain.drained] at queued
        cases queued
  | @plain id place typed slot d _ _ ends =>
    refine List.forall_mem_singleton.mpr fun child needs => Or.inr ?_
    rcases (needs_iff place).mp needs with sole | ⟨entry, member, same⟩
    · cases ends.symm.trans sole
    · refine ⟨entry, ?_, same⟩
      rw [(opens_here arena id place typed slot d).queue]
      exact List.mem_append_right _ member
  | variant _ _ sole visit inside =>
    refine List.forall_mem_cons.mpr ⟨?_, inside⟩
    obtain ⟨-, union, alone⟩ := soleVariant?_eq_some.mp sole
    rintro child (⟨-, kind⟩ | ⟨-, -, twin⟩)
    · cases kind.symm.trans union
    · cases alone.symm.trans twin
      exact Or.inl visit.reaches.1
  | done => exact nofun
  | next _ _ drain inside behind =>
    refine List.forall_mem_append.mpr ⟨fun x member child needs => ?_, behind⟩
    exact Or.inl (drain.exhausts (inside x member child needs))

/-- Draining leaves nothing that an expansion goes on to without a guard. -/
theorem Run.needs_visited (run : Run arena .drain slot d e log) {x : Expansion} (member : x ∈ log)
    (needs : arena.Needs x.schema child) : child ∈ e.visited := by
  rcases run.needs x member child needs with seen | ⟨entry, queued, -⟩
  · exact seen
  · rw [run.drained] at queued
    cases queued

/-- The variant that an expansion comes down to is visited at once. -/
theorem Run.variants (run : Run arena task slot d e log) :
    ∀ x ∈ log, ∀ child, soleVariant? arena (arena.node x.schema) = some child →
      child ∈ e.visited := by
  induction run with
  | again => exact nofun
  | guarded _ _ _ _ drain inside behind =>
    refine List.forall_mem_append.mpr ⟨fun x member child sole => ?_, behind⟩
    exact drain.visited_subset (inside x member child sole)
  | plain _ _ ends =>
    refine List.forall_mem_singleton.mpr fun child sole => ?_
    cases ends.symm.trans sole
  | variant _ _ sole visit inside =>
    refine List.forall_mem_cons.mpr ⟨fun child twin => ?_, inside⟩
    cases sole.symm.trans twin
    exact visit.reaches.1
  | done => exact nofun
  | next _ _ drain inside behind =>
    refine List.forall_mem_append.mpr ⟨fun x member child sole => ?_, behind⟩
    exact drain.visited_subset (inside x member child sole)

/-- What an expansion goes on to in a guard for presence is deferred. -/
theorem Run.defers (run : Run arena task slot d e log) :
    ∀ x ∈ log, ∀ child, arena.Defers x.schema child → ∃ δ ∈ e.deferred, δ.schema = child := by
  induction run with
  | again => exact nofun
  | guarded _ _ _ _ drain inside behind =>
    refine List.forall_mem_append.mpr ⟨fun x member child defers => ?_, behind⟩
    obtain ⟨δ, owed, same⟩ := inside x member child defers
    exact ⟨δ, drain.deferred.subset owed, same⟩
  | @plain id place typed slot d =>
    refine List.forall_mem_singleton.mpr fun child defers => ?_
    obtain ⟨owed, grown, entries⟩ := (opens_here arena id place typed slot d).deferred
    obtain ⟨entry, member, same⟩ := (defers_iff place).mp defers
    rw [← entries] at member
    obtain ⟨δ, inside, rfl⟩ := List.mem_map.mp member
    exact ⟨δ, grown ▸ List.mem_append_right _ inside, same⟩
  | variant _ _ sole _ inside =>
    refine List.forall_mem_cons.mpr ⟨?_, inside⟩
    obtain ⟨-, union, -⟩ := soleVariant?_eq_some.mp sole
    rintro child (⟨-, kind⟩ | ⟨-, kind⟩)
    · cases kind.symm.trans union
    · cases kind.symm.trans union
  | done => exact nofun
  | next _ _ drain inside behind =>
    refine List.forall_mem_append.mpr ⟨fun x member child defers => ?_, behind⟩
    obtain ⟨δ, owed, same⟩ := inside x member child defers
    exact ⟨δ, drain.deferred.subset owed, same⟩

/-- A run only adds to the list that it writes. -/
theorem Run.out (run : Run arena task slot d e log) : d.out <+: e.out := by
  induction run with
  | again => exact List.prefix_append _ _
  | guarded _ _ begun =>
    subst begun
    exact ⟨_, (List.append_assoc _ _ _).symm⟩
  | @plain id place typed slot d =>
    obtain ⟨guards, wrote, -⟩ := (opens_here arena id place typed slot d).out
    exact ⟨_, (List.append_assoc _ _ _).symm.trans wrote.symm⟩
  | variant _ _ _ _ inside => exact inside
  | done => exact List.prefix_rfl
  | next _ _ _ inside behind => exact inside.trans behind

/-- Each expansion writes for the list that the run writes, or for the body of a guard in it. -/
theorem Run.slots (run : Run arena task slot d e log) : ∀ x ∈ log, slot <+: x.slot := by
  induction run with
  | again => exact nofun
  | guarded _ _ _ _ _ inside behind =>
    refine List.forall_mem_append.mpr ⟨fun x member => ?_, fun x member => ?_⟩
    · exact (List.prefix_append _ _).trans (inside x member)
    · exact (List.prefix_append _ _).trans (behind x member)
  | plain => exact List.forall_mem_singleton.mpr List.prefix_rfl
  | variant _ _ _ _ inside => exact List.forall_mem_cons.mpr ⟨List.prefix_rfl, inside⟩
  | done => exact nofun
  | next _ _ _ inside behind => exact List.forall_mem_append.mpr ⟨inside, behind⟩

/-- An expansion for the list that the run writes puts the checks of its node into that list. -/
theorem Run.writes (run : Run arena task slot d e log) : ∀ x ∈ log, x.slot = slot →
    ∀ check ∈ ownChecks arena (arena.node x.schema) x.typed, .check x.place check ∈ e.out := by
  induction run with
  | again => exact nofun
  | @guarded id place slot d start opened body first later _ _ _ visit drain =>
    intro x member same
    have inside : slot ++ [start.out.length] <+: x.slot := by
      rcases List.mem_append.mp member with early | late
      · exact visit.slots x early
      · exact drain.slots x late
    have long := inside.length_le
    rw [same, List.length_append, List.length_singleton] at long
    omega
  | @plain id place typed slot d =>
    refine List.forall_mem_singleton.mpr fun _ check member => ?_
    obtain ⟨guards, wrote, -⟩ := (opens_here arena id place typed slot d).out
    rw [wrote]
    exact List.mem_append_left _ (List.mem_append_right _ (List.mem_map_of_mem member))
  | variant _ _ sole _ inside =>
    refine List.forall_mem_cons.mpr ⟨fun _ check member => ?_, inside⟩
    rw [ownChecks_of_sole sole] at member
    cases member
  | done => exact nofun
  | next _ _ drain inside behind =>
    refine List.forall_mem_append.mpr ⟨fun x member same check own => ?_, behind⟩
    exact drain.out.subset (inside x member same check own)

/-- Where a run leads and what it expands is decided by where it starts. -/
theorem Run.unique {other : List Expansion} (run : Run arena task slot d e log)
    (twin : Run arena task slot d f other) : e = f ∧ log = other := by
  induction run generalizing f other with
  | again seen => cases twin <;> first | exact ⟨rfl, rfl⟩ | contradiction
  | guarded fresh nullable begun _ _ inside behind =>
    cases twin with
    | again seen => contradiction
    | guarded _ _ begun' visit drain =>
      subst begun begun'
      obtain ⟨rfl, rfl⟩ := inside visit
      obtain ⟨rfl, rfl⟩ := behind drain
      exact ⟨rfl, rfl⟩
    | plain _ solid => simp [nullable] at solid
    | variant _ solid => simp [nullable] at solid
  | plain fresh solid ends =>
    cases twin with
    | again seen => contradiction
    | guarded _ nullable => simp [nullable] at solid
    | plain => exact ⟨rfl, rfl⟩
    | variant _ _ sole => cases ends.symm.trans sole
  | variant fresh solid sole _ inside =>
    cases twin with
    | again seen => contradiction
    | guarded _ nullable => simp [nullable] at solid
    | plain _ _ ends => cases ends.symm.trans sole
    | variant _ _ sole' visit =>
      cases sole.symm.trans sole'
      obtain ⟨rfl, rfl⟩ := inside visit
      exact ⟨rfl, rfl⟩
  | done empty =>
    cases twin with
    | done => exact ⟨rfl, rfl⟩
    | next ahead => cases empty.symm.trans ahead
  | next ahead _ _ inside behind =>
    cases twin with
    | done empty => cases empty.symm.trans ahead
    | next ahead' visit drain =>
      cases ahead.symm.trans ahead'
      obtain ⟨rfl, rfl⟩ := inside visit
      obtain ⟨rfl, rfl⟩ := behind drain
      exact ⟨rfl, rfl⟩

theorem Settles.unique {out settled whole : List Assertion} {other : List Expansion}
    (settles : Settles arena out d settled log) (twin : Settles arena out d whole other) :
    settled = whole ∧ log = other := by
  induction settles generalizing whole other with
  | done empty =>
    cases twin with
    | done => exact ⟨rfl, rfl⟩
    | next ahead => cases empty.symm.trans ahead
  | next ahead body _ behind =>
    cases twin with
    | done empty => cases empty.symm.trans ahead
    | next ahead' body' rest =>
      cases ahead.symm.trans ahead'
      obtain ⟨rfl, rfl⟩ := body.unique body'
      obtain ⟨rfl, rfl⟩ := behind rest
      exact ⟨rfl, rfl⟩

theorem Derives.unique {root : SchemaId} {list whole : List Assertion}
    {first later once again : List Expansion} (derives : Derives arena root list first later)
    (twin : Derives arena root whole once again) :
    list = whole ∧ first = once ∧ later = again := by
  obtain ⟨d, settled, run, settles, rfl⟩ := derives
  obtain ⟨e, other, run', settles', rfl⟩ := twin
  obtain ⟨rfl, rfl⟩ := run.unique run'
  obtain ⟨rfl, rfl⟩ := settles.unique settles'
  exact ⟨rfl, rfl, rfl⟩

end Derivation

end HttpPlan
