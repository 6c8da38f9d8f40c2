import HttpPlan.Proofs.Assertion.Checks
import HttpPlan.Proofs.Assertion.Tree

/-! The assertions derived from a schema without shared parts and without unions hold of just the
values that suit it. Each visit meets its node for the first time, so none of them comes down to a
type check; and the steps that are granted last until nothing is left to visit. -/
namespace HttpPlan

namespace Derivation

open Assertion

variable {more : List Assertion} {further : List Deferred} {slot : List Nat} {d e f : Draft}
  {place : Locator}

namespace Subject

variable {c : Subject} {firm premise demand other : Prop} {id : SchemaId} {v : Json}
  {typed : Bool} {type : JsonType} {fuel : Nat} {entries later others : List (SchemaId × Locator)}

/-- One draft adds to another what says just what is demanded, with visits to be made later. -/
def Turns (c : Subject) (firm premise demand : Prop) (slot : List Nat) (d e : Draft)
    (entries : List (SchemaId × Locator)) : Prop :=
  ∃ added owed queued, c.Exact firm premise demand added owed queued ∧ e.out = d.out ++ added ∧
    e.deferred = d.deferred ++ owed.map (.moved slot d.out.length) ∧ e.queue = d.queue ++ queued ∧
      (queued ++ owed.map Deferred.entry).Perm entries

theorem turns_refl : c.Turns firm premise True slot d d [] :=
  ⟨[], [], [], exact_nil, by simp, by simp, by simp, .nil⟩

theorem Turns.congr (turns : c.Turns firm premise demand slot d e entries)
    (same : premise → (other ↔ demand)) : c.Turns firm premise other slot d e entries := by
  obtain ⟨added, owed, queued, exact, rest⟩ := turns
  exact ⟨added, owed, queued, exact.congr same, rest⟩

theorem turns_none : c.Turns firm premise
    (∀ entry ∈ ([] : List (SchemaId × Locator)), c.Suitable entry) slot d d [] :=
  turns_refl.congr fun _ => ⟨fun _ => trivial, fun _ _ member => absurd member List.not_mem_nil⟩

theorem entries_moved {owed : List Deferred} {slot : List Nat} {shift : Nat} :
    (owed.map (Deferred.moved slot shift)).map Deferred.entry = owed.map Deferred.entry := by
  rw [List.map_map]
  rfl

theorem entries_append {owed further : List Deferred} {queued ahead : List (SchemaId × Locator)}
    {shift : Nat} (first : (queued ++ owed.map Deferred.entry).Perm entries)
    (last : (ahead ++ further.map Deferred.entry).Perm later) :
    (queued ++ ahead ++ (owed ++ further.map (Deferred.moved [] shift)).map Deferred.entry).Perm
      (entries ++ later) := by
  rw [List.map_append, entries_moved, List.append_assoc]
  refine List.Perm.trans ?_ (first.append last)
  rw [List.append_assoc]
  exact (List.perm_append_comm_assoc _ _ _).append_left queued

theorem Turns.append (first : c.Turns firm premise demand slot d e entries)
    (last : c.Turns firm premise other slot e f later) :
    c.Turns firm premise (demand ∧ other) slot d f (entries ++ later) := by
  obtain ⟨added, owed, queued, exact, out, deferred, queue, same⟩ := first
  obtain ⟨more, further, ahead, onward, out', deferred', queue', same'⟩ := last
  refine ⟨_, _, _, exact.append (onward.weaken And.left), by simp [out', out], ?_,
    by simp [queue', queue], entries_append same same'⟩
  rw [deferred', deferred, List.map_append, moved_moved onward.layout, out, List.length_append,
    List.append_assoc]

/-- What comes after checks may count on them. -/
theorem turns_checks {checks : List Check}
    (last : c.Turns firm (premise ∧ AllPass firm c.accepts c.body (checks.map (.check place)))
      demand slot (d.check place checks) e entries) :
    c.Turns firm premise (AllPass firm c.accepts c.body (checks.map (.check place)) ∧ demand)
      slot d e entries := by
  obtain ⟨added, owed, queued, exact, out, deferred, queue, same⟩ := last
  refine ⟨_, _, _, exact_checks.append exact, by simp [out, Draft.check], ?_, queue, ?_⟩
  · rw [deferred, List.nil_append, moved_moved exact.layout, Draft.check, List.length_append]
  · rwa [List.nil_append, List.nil_append, entries_moved]

theorem has_step {segment : LocatorSegment} :
    c.Has place (fun v => (LocatorSegment.step v segment).isSome) ↔
      c.Present (place.extend segment) := by
  unfold Has Present
  rw [Locator.resolve?_extend]
  constructor
  · rintro ⟨v, found, step⟩
    obtain ⟨w, step⟩ := Option.isSome_iff_exists.mp step
    exact ⟨w, Option.bind_eq_some_iff.mpr ⟨v, found, step⟩⟩
  · rintro ⟨w, found⟩
    obtain ⟨v, found, step⟩ := Option.bind_eq_some_iff.mp found
    exact ⟨v, found, Option.isSome_iff_exists.mpr ⟨w, step⟩⟩

theorem turns_defer {guard : Guard} {segment : LocatorSegment} {child : SchemaId}
    (applies : premise → c.Has place guard.Applies)
    (met : ∀ v, guard.Met v ↔ (LocatorSegment.step v segment).isSome) :
    c.Turns firm premise (c.Suitable (child, place.extend segment)) slot d
      (d.defer slot place guard child (place.extend segment)) [(child, place.extend segment)] := by
  have opens : c.Has place guard.Met ↔ c.Present (place.extend segment) := by
    rw [← has_step]
    exact exists_congr fun v => and_congr_right fun _ => met v
  exact ⟨_, _, _, exact_defer applies opens, rfl, rfl, by simp [Draft.defer], .refl _⟩

theorem turns_property {node : SchemaNode} {entry : String × SchemaId}
    (keys : premise → c.Has place (·.HasKeys node.required.names)) :
    c.Turns firm premise (c.Suitable (entry.2, place.key entry.1)) slot d
      (property node slot place d entry) [(entry.2, place.key entry.1)] := by
  obtain ⟨key, child⟩ := entry
  unfold property
  dsimp only
  split
  · next required =>
    have present : premise → c.Present (place.key key) := fun given => by
      obtain ⟨v, found, keys⟩ := keys given
      exact has_step.mp ⟨v, found, keys.2 key required⟩
    exact ⟨[], [], [_], exact_enqueue present, by simp [Draft.enqueue], by simp [Draft.enqueue],
      rfl, .refl _⟩
  · refine turns_defer (fun given => ?_) fun v => Iff.rfl
    obtain ⟨v, found, keys⟩ := keys given
    exact ⟨v, found, keys.1⟩

theorem turns_properties {node : SchemaNode} {properties : List (String × SchemaId)}
    (keys : premise → c.Has place (·.HasKeys node.required.names)) :
    c.Turns firm premise (∀ entry ∈ properties, c.Suitable (entry.2, place.key entry.1)) slot d
      (properties.foldl (property node slot place) d)
      (properties.map fun entry => (entry.2, place.key entry.1)) := by
  induction properties generalizing d with
  | nil =>
    exact turns_refl.congr fun _ =>
      ⟨fun _ => trivial, fun _ _ member => absurd member List.not_mem_nil⟩
  | cons entry rest ih =>
    exact ((turns_property keys).append ih).congr fun _ => List.forall_mem_cons

/-- What lies right below a place is left for later, given that the place has been checked. -/
theorem turns_branches {node : SchemaNode}
    (keys : premise → node.enumeration = none → node.kind = .typed .object →
      c.Has place (·.HasKeys node.required.names))
    (array : premise → node.enumeration = none → node.kind = .typed .array →
      c.Has place (·.type = .array)) :
    c.Turns firm premise (∀ entry ∈ visitsOf node place, c.Suitable entry) slot d
      (openBranches node slot place d) (visitsOf node place) := by
  unfold openBranches visitsOf SchemaNode.branches
  cases unlisted : node.enumeration with
  | some allowed => exact turns_none
  | none =>
    cases kind : node.kind with
    | union => exact turns_none
    | unknown => exact turns_none
    | typed type =>
      cases type with
      | object =>
        dsimp only
        rw [List.map_map]
        refine (turns_properties fun given => keys given unlisted kind).congr fun _ => ?_
        exact List.forall_mem_map
      | array =>
        dsimp only
        cases node.items with
        | none => exact turns_none
        | some child =>
          refine Turns.congr ?_ fun _ => List.forall_mem_singleton
          exact @turns_defer slot d place c firm premise .ifNonEmptyArray (.index 0) child
            (fun given => array given unlisted kind) fun _ => Iff.rfl
      | string => exact turns_none
      | number => exact turns_none
      | integer => exact turns_none
      | boolean => exact turns_none
      | null => exact turns_none

theorem checks_pass {checks : List Check} (found : place.resolve? c.body = some v) :
    AllPass firm c.accepts c.body (checks.map (.check place)) ↔
      ∀ check ∈ checks, check.Holds c.accepts v := by
  induction checks with
  | nil => exact ⟨fun _ _ member => absurd member List.not_mem_nil, fun _ => trivial⟩
  | cons check rest ih =>
    rw [List.map_cons, List.forall_mem_cons, AllPass, ih]
    refine and_congr_left fun _ => ⟨?_, fun holds => ⟨v, found, holds⟩⟩
    rintro ⟨w, other, holds⟩
    cases found.symm.trans other
    exact holds

theorem suitable_iff (found : place.resolve? c.body = some v) :
    c.Suitable (id, place) ↔ c.arena.Suits c.accepts id v := by
  refine ⟨fun suitable => suitable v found, fun suits w other => ?_⟩
  cases found.symm.trans other
  exact suits

theorem branchesSuitable_iff (found : place.resolve? c.body = some v) :
    (∀ entry ∈ visitsOf (c.arena.node id) place, c.Suitable entry) ↔ c.BranchesSuit id v := by
  unfold visitsOf BranchesSuit Suitable
  rw [List.forall_mem_map]
  refine forall_congr' fun branch => forall_congr' fun _ => forall_congr' fun w => ?_
  rw [Locator.resolve?_extend, found]
  rfl

/-- What is known of a place before a visit that does not have to guard it against null. -/
def Cleared (c : Subject) (id : SchemaId) (place : Locator) (typed : Bool) : Prop :=
  ∃ v, place.resolve? c.body = some v ∧ c.Solid id v ∧
    (typed → ∀ type, (c.arena.node id).kind = .typed type → v.HasType type)

theorem checks_ready (cleared : c.Cleared id place typed)
    (pass : AllPass firm c.accepts c.body
      ((nodeChecks (c.arena.node id) typed).map (.check place)))
    (unlisted : (c.arena.node id).enumeration = none)
    (kind : (c.arena.node id).kind = .typed type) (plain : type ≠ .string) :
    c.Has place fun v => v.HasType type ∧
      ∀ check ∈ valueChecks (c.arena.node id) type, check.Holds c.accepts v := by
  obtain ⟨v, found, -, checked⟩ := cleared
  refine ⟨v, found, ?_⟩
  rw [checks_pass found] at pass
  exact (nodeChecks_hold unlisted kind (fun string => absurd string plain)
    fun given => checked given type kind).mp pass

/-- The first visit to a node, where null beside other values has been dealt with. -/
theorem turns_solid (tree : c.Treelike) (fresh : id ∉ d.visited)
    (solid : typed ∨ c.arena.acceptsNull (c.arena.node id) = false)
    (cleared : premise → c.Cleared id place typed) :
    c.Turns firm premise (c.Suitable (id, place)) slot d
      (visit c.arena (fuel + 1) id place typed slot d) (visitsOf (c.arena.node id) place) := by
  rw [visit_solid fresh solid fun _ => tree.single id]
  have marked : c.Turns firm premise (AllPass firm c.accepts c.body
      ((nodeChecks (c.arena.node id) typed).map (.check place)) ∧
        ∀ entry ∈ visitsOf (c.arena.node id) place, c.Suitable entry) slot
      { d with visited := id :: d.visited } _ _ :=
    turns_checks (turns_branches (fun given unlisted kind => ?_) fun given unlisted kind => ?_)
  · refine Turns.congr marked fun given => ?_
    obtain ⟨v, found, solid, checked⟩ := cleared given
    rw [suitable_iff found, checks_pass found, branchesSuitable_iff found]
    exact suits_iff tree solid checked
  · obtain ⟨v, found, has, checks⟩ :=
      checks_ready (cleared given.1) given.2 unlisted kind (by decide)
    exact ⟨v, found, (keyChecks_hold (has.type_eq (by decide))).mp checks⟩
  · obtain ⟨v, found, has, -⟩ := checks_ready (cleared given.1) given.2 unlisted kind (by decide)
    exact ⟨v, found, has.type_eq (by decide)⟩

theorem visited_solid (tree : c.Treelike) (fresh : id ∉ d.visited)
    (solid : typed ∨ c.arena.acceptsNull (c.arena.node id) = false) :
    (visit c.arena (fuel + 1) id place typed slot d).visited = id :: d.visited := by
  rw [visit_solid fresh solid fun _ => tree.single id, visited_openBranches]
  rfl

theorem acceptedTypes?_guarded (kind : (c.arena.node id).kind = .typed type)
    (guarded : c.arena.acceptsNull (c.arena.node id)) :
    c.arena.acceptedTypes? (c.arena.node id) = some [type, .null] ∧ (c.arena.node id).nullable := by
  have nullable : (c.arena.node id).nullable ∧ type ≠ .null := by
    cases type <;> simp_all [SchemaArena.acceptsNull]
  have apart : JsonType.null ≠ type := nullable.2.symm
  rw [SchemaArena.acceptedTypes?_typed kind]
  simp [nullable.1, apart]

/-- A value that may be null suits its node if its type is accepted and, unless it is null, it
suits. -/
theorem suits_guarded (tree : c.Treelike) (guarded : c.arena.acceptsNull (c.arena.node id)) :
    c.arena.Suits c.accepts id v ↔
      (∀ check ∈ typesChecks (c.arena.acceptedTypes? (c.arena.node id)), check.Holds c.accepts v) ∧
        (v ≠ .null → c.arena.Suits c.accepts id v) := by
  rw [typesChecks_hold]
  cases kind : (c.arena.node id).kind with
  | union => exact absurd kind (tree.single id)
  | unknown =>
    have nullable : (c.arena.node id).nullable := by
      simpa [SchemaArena.acceptsNull, kind] using guarded
    have unconfined : c.arena.acceptedTypes? (c.arena.node id) = none := by
      simp [SchemaArena.acceptedTypes?, kind, SchemaArena.typeOf?]
    rw [unconfined]
    constructor
    · intro suits
      exact ⟨fun list same => (by cases same), fun _ => suits⟩
    · rintro ⟨-, suits⟩
      by_cases null : v = .null
      · exact null ▸ .null nullable
      · exact suits null
  | typed type =>
    obtain ⟨accepted, nullable⟩ := acceptedTypes?_guarded kind guarded
    rw [accepted]
    constructor
    · intro suits
      refine ⟨fun list same => ?_, fun _ => suits⟩
      cases same
      cases suits with
      | null => exact ⟨.null, by simp, Or.inl rfl⟩
      | listed listed member =>
        exact ⟨type, by simp, (tree.values id _ listed).2 v member type kind⟩
      | identifier _ other _ text =>
        cases kind.symm.trans other
        obtain ⟨text, rfl, -⟩ := text
        exact ⟨.string, by simp, Or.inl rfl⟩
      | typed _ other _ has =>
        cases kind.symm.trans other
        exact ⟨type, by simp, has⟩
      | unknown _ other => cases kind.symm.trans other
    · rintro ⟨-, suits⟩
      by_cases null : v = .null
      · exact null ▸ .null nullable
      · exact suits null

/-- Once its type has been accepted, a value that is not null is of its node's own type. -/
theorem cleared_of_guarded (guarded : c.arena.acceptsNull (c.arena.node id))
    (types : AllPass firm c.accepts c.body
      ((typesChecks (c.arena.acceptedTypes? (c.arena.node id))).map (.check place)))
    (filled : c.Has place (· ≠ .null)) : c.Cleared id place true := by
  obtain ⟨v, found, filled⟩ := filled
  refine ⟨v, found, Or.inl filled, fun _ type kind => ?_⟩
  rw [checks_pass found, typesChecks_hold, (acceptedTypes?_guarded kind guarded).1] at types
  obtain ⟨chosen, member, has⟩ := types _ rfl
  rcases List.mem_cons.mp member with rfl | member
  · exact has
  · rw [List.mem_singleton.mp member] at has
    exact absurd has.eq_null filled

/-- One draft comes after another, all that was queued having been visited, with what says just what
is demanded. Visits that are still to come keep their places to themselves, and what they may cost
is covered by `cost`. -/
def Finishes (c : Subject) (firm premise demand : Prop) (slot : List Nat) (d e : Draft)
    (others : List (SchemaId × Locator)) (cost : Nat) : Prop :=
  ∃ added owed, c.Exact firm premise demand added owed [] ∧ e.out = d.out ++ added ∧
    e.deferred = d.deferred ++ owed.map (.moved slot d.out.length) ∧
      Frontier c.arena c.root e.visited (owed.map Deferred.entry ++ others) ∧
        unspent c.arena e.visited + owed.length ≤ cost

/-- What visits do to a tree, with enough steps for what has not been visited. -/
structure Clears (c : Subject) (firm : Prop) (fuel : Nat) : Prop where
  visit : ∀ premise id place slot d others, (premise → c.Present place) →
    Frontier c.arena c.root d.visited ((id, place) :: others) →
      unspent c.arena d.visited ≤ fuel → ∃ entries,
        c.Turns firm premise (c.Suitable (id, place)) slot d
          (visit c.arena fuel id place false slot d) entries ∧
        Frontier c.arena c.root (Derivation.visit c.arena fuel id place false slot d).visited
          (entries ++ others) ∧
        unspent c.arena (Derivation.visit c.arena fuel id place false slot d).visited +
          entries.length ≤ unspent c.arena d.visited
  drain : ∀ premise slot d others, (premise → ∀ entry ∈ d.queue, c.Present entry.2) →
    Frontier c.arena c.root d.visited (d.queue ++ others) →
      unspent c.arena d.visited + d.queue.length + 1 ≤ fuel →
        c.Finishes firm premise (∀ entry ∈ d.queue, c.Suitable entry) slot d
          (drain c.arena fuel slot d) others (unspent c.arena d.visited)

theorem Turns.finish (clears : c.Clears firm fuel)
    (first : c.Turns firm premise demand slot d e entries)
    (present : premise → ∀ entry ∈ d.queue, c.Present entry.2)
    (frontier : Frontier c.arena c.root e.visited (entries ++ (d.queue ++ others)))
    (enough : unspent c.arena e.visited + entries.length + d.queue.length + 1 ≤ fuel) :
    c.Finishes firm premise (demand ∧ ∀ entry ∈ d.queue, c.Suitable entry) slot d
      (drain c.arena fuel slot e) others (unspent c.arena e.visited + entries.length) := by
  obtain ⟨added, owed, queued, exact, out, deferred, queue, same⟩ := first
  have size := same.length_eq
  rw [List.length_append, List.length_map] at size
  have ahead : premise ∧ AllPass firm c.accepts c.body added →
      ∀ entry ∈ e.queue, c.Present entry.2 := by
    rw [queue]
    intro given entry member
    rcases List.mem_append.mp member with old | new
    · exact present given.1 entry old
    · exact exact.ahead given.1 given.2 entry new
  have order : (entries ++ (d.queue ++ others)).Perm
      (e.queue ++ (owed.map Deferred.entry ++ others)) := by
    refine (same.symm.append_right _).trans ?_
    rw [queue, List.append_assoc, List.append_assoc]
    exact ((List.perm_append_comm_assoc _ _ _).append_left queued).trans
      (List.perm_append_comm_assoc _ _ _)
  have fits : unspent c.arena e.visited + e.queue.length + 1 ≤ fuel := by
    rw [queue, List.length_append]
    omega
  obtain ⟨more, further, last, out', deferred', onward, cost⟩ :=
    clears.drain _ slot e _ ahead (frontier.perm order) fits
  rw [queue] at last
  refine ⟨_, _, exact.drain last, by rw [out', out, List.append_assoc], ?_, ?_, ?_⟩
  · rw [deferred', deferred, List.map_append, moved_moved last.layout, out, List.length_append,
      List.append_assoc]
  · refine onward.perm ?_
    rw [List.map_append, entries_moved, List.append_assoc]
    exact List.perm_append_comm_assoc _ _ _
  · rw [List.length_append, List.length_map]
    omega

theorem drain_finishes (clears : c.Clears firm fuel)
    (present : premise → ∀ entry ∈ d.queue, c.Present entry.2)
    (frontier : Frontier c.arena c.root d.visited (d.queue ++ others))
    (enough : unspent c.arena d.visited + d.queue.length + 1 ≤ fuel + 1) :
    c.Finishes firm premise (∀ entry ∈ d.queue, c.Suitable entry) slot d
      (drain c.arena (fuel + 1) slot d) others (unspent c.arena d.visited) := by
  cases pending : d.queue with
  | nil =>
    simp only [drain, pending]
    rw [pending] at frontier
    refine ⟨[], [], exact_nil.congr fun _ => ?_, by simp, by simp, frontier, Nat.le_refl _⟩
    exact ⟨fun _ => trivial, fun _ _ member => absurd member List.not_mem_nil⟩
  | cons entry queue =>
    obtain ⟨id, place⟩ := entry
    simp only [drain, pending]
    rw [pending] at frontier present enough
    rw [List.length_cons] at enough
    obtain ⟨entries, first, onward, cost⟩ := clears.visit premise id place slot { d with queue }
      (queue ++ others) (fun given => present given _ List.mem_cons_self) frontier (by
        show unspent c.arena d.visited ≤ fuel
        omega)
    have later : premise → ∀ entry ∈ queue, c.Present entry.2 :=
      fun given entry member => present given entry (List.mem_cons_of_mem _ member)
    obtain ⟨added, owed, exact, out, deferred, onward, less⟩ :=
      first.finish clears later onward (by
        show _ + _ + queue.length + 1 ≤ fuel
        have : unspent c.arena d.visited = unspent c.arena ({ d with queue } : Draft).visited := rfl
        omega)
    exact ⟨added, owed, exact.congr fun _ => List.forall_mem_cons, out, deferred, onward,
      Nat.le_trans less cost⟩

/-- A body that was written at once goes into a guard against null behind the checks before it. -/
theorem Finishes.guard {checks : List Check} {start : Draft} {cost : Nat}
    (begun : start = d.check place checks)
    (finished : c.Finishes firm ((premise ∧
      AllPass firm c.accepts c.body (checks.map (.check place))) ∧ c.Has place (· ≠ .null)) demand
      (slot ++ [start.out.length]) { start with out := [], queue := [] } e others cost)
    (present : premise → c.Present place) : ∃ entries,
      c.Turns firm premise (AllPass firm c.accepts c.body (checks.map (.check place)) ∧
        (c.Has place (· ≠ .null) → demand)) slot d
        { e with out := start.out ++ [.guarded place .ifNotNull e.out], queue := start.queue }
        entries ∧
      Frontier c.arena c.root e.visited (entries ++ others) ∧
        unspent c.arena e.visited + entries.length ≤ cost := by
  subst begun
  obtain ⟨added, owed, exact, out, deferred, onward, less⟩ := finished
  rw [List.nil_append] at out
  have nested := exact_checks.append (exact.nest fun given => present given.1)
  refine ⟨owed.map Deferred.entry, ⟨_, _, _, nested, ?_, ?_, ?_, ?_⟩, onward, ?_⟩
  · rw [out, ← List.append_assoc]
    rfl
  · rw [List.nil_append, moved_moved (exact.layout.nest place .ifNotNull), moved_nest exact.layout]
    simpa only [Draft.check, List.length_append, List.length_nil] using deferred
  · rw [List.append_nil, List.append_nil]
    rfl
  · simp only [List.nil_append, List.map_map]
    exact .refl _
  · rwa [List.length_map]

/-- The first visit to a node. -/
theorem visit_turns (tree : c.Treelike) (clears : c.Clears firm fuel)
    (present : premise → c.Present place)
    (frontier : Frontier c.arena c.root d.visited ((id, place) :: others))
    (enough : unspent c.arena d.visited ≤ fuel + 1) : ∃ entries,
      c.Turns firm premise (c.Suitable (id, place)) slot d
        (visit c.arena (fuel + 1) id place false slot d) entries ∧
      Frontier c.arena c.root (visit c.arena (fuel + 1) id place false slot d).visited
        (entries ++ others) ∧
      unspent c.arena (visit c.arena (fuel + 1) id place false slot d).visited +
        entries.length ≤ unspent c.arena d.visited := by
  have fresh := frontier.unvisited
  have bound : id < c.arena.size :=
    (frontier.sited _ List.mem_cons_self).lt tree.closed tree.bound
  have opened := frontier.visit tree.unshared
  have spent := unspent_visit bound fresh
  have few : (visitsOf (c.arena.node id) place).length ≤ (c.arena.node id).properties.size + 1 := by
    rw [visitsOf, List.length_map]
    exact SchemaNode.branches_length
  cases guarded : c.arena.acceptsNull (c.arena.node id) with
  | false =>
    refine ⟨_, turns_solid tree fresh (Or.inr guarded) fun given => ?_, ?_, ?_⟩
    · obtain ⟨v, found⟩ := present given
      exact ⟨v, found, Or.inr guarded, nofun⟩
    · rw [visited_solid tree fresh (Or.inr guarded)]
      exact opened
    · rw [visited_solid tree fresh (Or.inr guarded)]
      omega
  | true =>
    obtain ⟨steps, rfl⟩ : ∃ steps, fuel = steps + 1 := ⟨fuel - 1, by omega⟩
    let checks := typesChecks (c.arena.acceptedTypes? (c.arena.node id))
    let start := d.check place checks
    let body : Draft := { start with out := [], queue := [] }
    let after := visit c.arena (steps + 1) id place true (slot ++ [start.out.length]) body
    have typed : c.Turns firm ((premise ∧
        AllPass firm c.accepts c.body (checks.map (.check place))) ∧ c.Has place (· ≠ .null))
        (c.Suitable (id, place)) (slot ++ [start.out.length]) body after _ :=
      turns_solid tree fresh (Or.inl rfl) fun given => cleared_of_guarded guarded given.1.2 given.2
    have marked : after.visited = id :: d.visited := visited_solid tree fresh (Or.inl rfl)
    have finished := typed.finish clears (fun _ _ member => absurd member List.not_mem_nil)
      (by rw [marked]; exact opened) (by
        rw [marked]
        show _ + _ + 0 + 1 ≤ _
        omega)
    obtain ⟨entries, turns, onward, less⟩ := finished.guard rfl present
    rw [marked] at less
    rw [visit_guarded fresh guarded]
    refine ⟨entries, turns.congr fun given => ?_, onward, Nat.le_trans less (by omega)⟩
    obtain ⟨v, found⟩ := present given
    rw [suitable_iff found, checks_pass found]
    refine (suits_guarded tree guarded).trans (and_congr_right fun _ => ?_)
    refine ⟨fun suits filled => ?_, fun suits filled => ?_⟩
    · obtain ⟨w, other, filled⟩ := filled
      cases found.symm.trans other
      exact ⟨suits filled, fun _ member => absurd member List.not_mem_nil⟩
    · exact (suits ⟨v, found, filled⟩).1

/-- With enough steps, visits to a tree say just what is demanded of their places. -/
theorem clears (tree : c.Treelike) (firm : Prop) (fuel : Nat) : c.Clears firm fuel := by
  induction fuel with
  | zero =>
    refine ⟨fun premise id place slot d others present frontier enough => ?_,
      fun premise slot d others present frontier enough => absurd enough (Nat.not_succ_le_zero _)⟩
    have bound : id < c.arena.size :=
      (frontier.sited _ List.mem_cons_self).lt tree.closed tree.bound
    have spent := unspent_visit bound frontier.unvisited
    omega
  | succ fuel ih =>
    exact ⟨fun premise id place slot d others present frontier enough =>
        visit_turns tree ih present frontier enough,
      fun premise slot d others present frontier enough =>
        drain_finishes ih present frontier enough⟩

/-- The state between two guards that are filled: each of those that are left leads to a place of
its own that has not been visited. -/
structure Pending (c : Subject) (out : List Assertion) (d : Draft) : Prop where
  layout : Layout out d.deferred
  opens : ∀ δ ∈ d.deferred, Reached c.body δ.slot out → c.Present δ.place
  frontier : Frontier c.arena c.root d.visited (d.deferred.map Deferred.entry)

/-- A guard that is filled with what is demanded where it is reached changes nothing about what is
said in all. -/
theorem means_fill {out added : List Assertion} {next : Deferred} {deferred owed : List Deferred}
    (layout : Layout out (next :: deferred))
    (inner : c.Exact firm (Reached c.body next.slot out) (c.Suitable next.entry) added owed []) :
    c.Means firm (install added next.slot out) (deferred ++ owed.map (.moved next.slot 0)) [] ↔
      c.Means firm out (next :: deferred) [] := by
  have filled := layout.vacant next List.mem_cons_self
  have apart := (List.pairwise_cons.mp layout.apart).1
  have inside : ∀ δ ∈ owed,
      Reached c.body (δ.moved next.slot 0).slot (install added next.slot out) ↔
        Reached c.body next.slot out ∧ Reached c.body δ.slot added := fun δ member => by
    rw [moved_inside inner.layout member]
    exact reached_install_inside_iff filled
  constructor
  · rintro ⟨all, owes, -⟩
    obtain ⟨before, body⟩ := (install_allPass filled).mp all
    refine ⟨before, fun δ member reached => ?_, nofun⟩
    rcases List.mem_cons.mp member with rfl | later
    · refine (inner.exact reached).mpr ⟨body reached, fun δ member further => ?_, nofun⟩
      exact owes (δ.moved _ 0) (List.mem_append_right _ (List.mem_map_of_mem member))
        ((inside δ member).mpr ⟨reached, further⟩)
    · exact owes δ (List.mem_append_left _ later)
        ((reached_install_apart_iff (apart δ later) filled).mpr reached)
  · rintro ⟨all, owes, -⟩
    have body : Reached c.body next.slot out → c.Means firm added owed [] := fun reached =>
      (inner.exact reached).mp (owes next List.mem_cons_self reached)
    refine ⟨(install_allPass filled).mpr ⟨all, fun reached => (body reached).all⟩,
      fun δ member reached => ?_, nofun⟩
    rcases List.mem_append.mp member with old | new
    · exact owes δ (List.mem_cons_of_mem _ old)
        ((reached_install_apart_iff (apart δ old) filled).mp reached)
    · obtain ⟨ε, known, rfl⟩ := List.mem_map.mp new
      obtain ⟨outer, further⟩ := (inside ε known).mp reached
      exact (body outer).owed ε known further

theorem opens_fill {out added : List Assertion} {next : Deferred} {deferred owed : List Deferred}
    (layout : Layout out (next :: deferred)) (inner : Layout added owed)
    (outer_opens : ∀ δ ∈ deferred, Reached c.body δ.slot out → c.Present δ.place)
    (inner_opens : ∀ δ ∈ owed, Reached c.body δ.slot added → c.Present δ.place) :
    ∀ δ ∈ deferred ++ owed.map (Deferred.moved next.slot 0),
      Reached c.body δ.slot (install added next.slot out) → c.Present δ.place := by
  have filled := layout.vacant next List.mem_cons_self
  intro δ member reached
  rcases List.mem_append.mp member with old | new
  · have apart := (List.pairwise_cons.mp layout.apart).1 δ old
    exact outer_opens δ old ((reached_install_apart_iff apart filled).mp reached)
  · obtain ⟨ε, known, rfl⟩ := List.mem_map.mp new
    rw [moved_inside inner known] at reached
    exact inner_opens ε known ((reached_install_inside_iff filled).mp reached).2

theorem settle_step (tree : c.Treelike) {steps : Nat} {out : List Assertion} {next : Deferred}
    {deferred : List Deferred} (given : d.deferred = next :: deferred) (pending : c.Pending out d)
    (enough : unspent c.arena d.visited + 2 ≤ steps) :
    let e := expand c.arena steps next.schema next.place next.slot { d with deferred }
    c.Pending (install e.out next.slot out) e ∧
      (c.Means firm (install e.out next.slot out) e.deferred [] ↔ c.Means firm out d.deferred []) ∧
        unspent c.arena e.visited ≤ unspent c.arena d.visited ∧
          unspent c.arena e.visited + e.deferred.length + 1 ≤
            unspent c.arena d.visited + d.deferred.length := by
  intro e
  obtain ⟨layout, opens, frontier⟩ := pending
  rw [given] at layout opens frontier ⊢
  obtain ⟨added, owed, exact, wrote, deferred', onward, cost⟩ :=
    (clears tree firm steps).drain (Reached c.body next.slot out) next.slot
      { d with deferred, out := [], queue := [next.entry] } (deferred.map Deferred.entry)
      (fun reached entry member => by
        rw [List.mem_singleton.mp member]
        exact opens next List.mem_cons_self reached) frontier enough
  have less : unspent c.arena e.visited + owed.length ≤ unspent c.arena d.visited := cost
  have written : e.out = added := wrote
  have left : e.deferred = deferred ++ owed.map (.moved next.slot 0) := deferred'
  have suitable := exact.congr fun _ => (List.forall_mem_singleton (p := c.Suitable)).symm
  rw [written, left]
  refine ⟨⟨?_, ?_, ?_⟩, ?_, by omega, ?_⟩
  · rw [left]
    exact layout.fill exact.layout
  · rw [left]
    exact opens_fill layout exact.layout (fun δ member => opens δ (List.mem_cons_of_mem _ member))
      exact.opens
  · rw [left, List.map_append, entries_moved]
    exact onward.perm List.perm_append_comm
  · exact means_fill layout suitable
  · simp only [List.length_append, List.length_map, List.length_cons]
    omega

theorem means_nil {out : List Assertion} :
    c.Means firm out [] [] ↔ AllPass firm c.accepts c.body out :=
  ⟨fun means => means.all, fun all => ⟨all, nofun, nofun⟩⟩

/-- Once all guards are filled, the assertions say what they and the bodies owed said before. -/
theorem settle_exact (tree : c.Treelike) {steps : Nat} {out : List Assertion}
    (pending : c.Pending out d) (enough : unspent c.arena d.visited + 2 ≤ steps)
    (room : unspent c.arena d.visited + d.deferred.length ≤ fuel) :
    AllPass firm c.accepts c.body (settle c.arena steps fuel out d) ↔
      c.Means firm out d.deferred [] := by
  induction fuel generalizing out d with
  | zero =>
    have none : d.deferred = [] := List.length_eq_zero_iff.mp (by omega)
    rw [settle, none, means_nil]
  | succ fuel ih =>
    cases given : d.deferred with
    | nil =>
      simp only [settle, given]
      exact means_nil.symm
    | cons next deferred =>
      obtain ⟨onward, same, fewer, less⟩ := settle_step tree given pending enough
      simp only [settle, given]
      rw [← given, ← same]
      exact ih onward (by omega) (by omega)

/-- The assertions of a tree, read firmly or not, hold of just what suits it. -/
theorem settled_exact (tree : c.Treelike) (firm : Prop) :
    let d := expand c.arena (budget c.arena) c.root .root [] {}
    AllPass firm c.accepts c.body (settle c.arena (budget c.arena) (budget c.arena) d.out d) ↔
      c.arena.Suits c.accepts c.root c.body := by
  intro d
  have steps : budget c.arena = unspent c.arena [] + 4 := budget_eq
  have here : c.Present .root := ⟨c.body, rfl⟩
  obtain ⟨added, owed, exact, wrote, deferred, onward, cost⟩ :=
    (clears tree firm (budget c.arena)).drain True []
      { out := [], queue := [(c.root, .root)] } [] (fun _ entry member => by
        rw [List.mem_singleton.mp member]
        exact here) .start (by
          show unspent c.arena [] + 1 + 1 ≤ _
          omega)
  have written : d.out = added := wrote
  have left : d.deferred = owed := deferred.trans (moved_start exact.layout)
  have less : unspent c.arena d.visited + owed.length ≤ unspent c.arena [] := cost
  have pending : c.Pending d.out d := by
    refine ⟨?_, ?_, ?_⟩ <;> rw [left]
    · rw [written]
      exact exact.layout
    · rw [written]
      exact exact.opens
    · exact (List.append_nil _ ▸ onward : _)
  rw [settle_exact tree pending (by omega) (by rw [left]; omega), written, left,
    ← exact.exact trivial, List.forall_mem_singleton]
  exact suitable_iff rfl

end Subject

end Derivation

namespace SchemaArena

open HttpPlan.Derivation

variable {accepts : String → String → Prop} {arena : SchemaArena} {root : SchemaId} {v : Json}

/-- Derived assertions hold of just the values that suit the schema, where one path at most leads to
each node, there are no unions, and listed values have the type of their node. -/
theorem assertions_exact (closed : arena.Closed) (bound : root < arena.size)
    (unshared : arena.Unshared root) (single : ∀ node ∈ arena.nodes, node.kind ≠ .union)
    (values : ∀ node ∈ arena.nodes, ∀ allowed, node.enumeration = some allowed → allowed ≠ [] ∧
      ∀ v ∈ allowed, ∀ type, node.kind = .typed type → v.HasType type) :
    (∀ a ∈ arena.assertions root, a.Holds accepts v) ↔ arena.Suits accepts root v := by
  have tree : Subject.Treelike ⟨accepts, arena, root, v⟩ :=
    ⟨closed, bound, unshared, forall_node (P := (·.kind ≠ .union)) nofun single,
      forall_node (P := fun node => ∀ allowed, node.enumeration = some allowed → allowed ≠ [] ∧
        ∀ v ∈ allowed, ∀ type, node.kind = .typed type → v.HasType type) nofun values⟩
  rw [← Assertion.allHold_iff]
  constructor
  · intro holds
    exact (Subject.settled_exact tree False).mp
      (allPass_prune _ |>.mp (Assertion.allPass_of_allHold _ holds))
  · intro suits
    exact prune_allHold _ (Assertion.allPass_firm v _ |>.mp
      ((Subject.settled_exact tree True).mpr suits))

/-- A name, which may be null, and an optional list of identifiers. -/
def labelled : SchemaArena :=
  ⟨[{ kind := .typed .object, properties := .ofList [("name", 1), ("ids", 2)],
      required := .ofList ["name"] },
    { kind := .typed .string, nullable := true, minLength := some 2 },
    { kind := .typed .array, items := some 3 },
    { kind := .typed .string, format := some "uuid", maxLength := some 3 }]⟩

theorem assertions_exact_labelled :
    labelled.Closed ∧ labelled.Unshared 0 ∧
      ∀ a ∈ labelled.assertions 0, a.Holds (fun _ text => text = "a")
        (.object [("name", .null), ("ids", .array [.string "a", .bool true])]) := by
  have closed : labelled.Closed := by
    unfold Closed SchemaNode.Below
    decide
  have unshared : labelled.Unshared 0 := by
    refine unshared_of_located closed (by decide) (fun
      | 0 => .root
      | 1 => ⟨[.key "name"]⟩
      | 2 => ⟨[.key "ids"]⟩
      | _ => ⟨[.key "ids", .index 0]⟩) rfl ?_
    decide
  have unlisted : ∀ node ∈ labelled.nodes, node.enumeration = none := by decide
  refine ⟨closed, unshared, (assertions_exact closed (by decide) unshared (by decide) ?_).mpr ?_⟩
  · intro node member allowed listed
    cases (unlisted node member).symm.trans listed
  · have name : labelled.Suits (fun _ text => text = "a") 1 .null := .null rfl
    have identifier : labelled.Suits (fun _ text => text = "a") 3 (.string "a") :=
      .identifier rfl rfl rfl ⟨"a", rfl, rfl⟩
    have ids : labelled.Suits (fun _ text => text = "a") 2 (.array [.string "a", .bool true]) := by
      refine .typed rfl rfl nofun (Or.inl rfl) nofun nofun nofun nofun nofun ?_
      rintro - child w items first
      cases items
      cases first
      exact identifier
    refine .typed rfl rfl nofun (Or.inl rfl) nofun nofun nofun (fun _ => ⟨rfl, by decide⟩) ?_ nofun
    rintro - key child w declared field
    rcases List.mem_cons.mp declared with same | declared
    · cases same
      cases field
      exact name
    · cases List.mem_singleton.mp declared
      cases field
      exact ids

end SchemaArena

end HttpPlan
