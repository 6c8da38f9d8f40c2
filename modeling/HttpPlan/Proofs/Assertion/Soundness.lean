import HttpPlan.Proofs.Assertion.Chunk
import HttpPlan.Proofs.Assertion.Position

/-! Derived assertions hold of every value that conforms to the schema they were derived from, as
long as the lists of types among them leave nothing out. A node whose types are not asserted anywhere
may list what it likes. -/
namespace HttpPlan

open HttpPlan.Derivation Assertion in
/-- What a schema has to see to for a list of assertions to hold of all that conforms to it. -/
structure SchemaArena.WellListed (accepts : String → String → Prop) (arena : SchemaArena)
    (root : SchemaId) (list : List Assertion) : Prop where
  /-- Where the types of a node are asserted, they leave nothing out. -/
  types : ∀ id place types, arena.Stands root id place →
    Occurs list (.check place (.isType types)) →
      arena.acceptedTypes? (arena.node id) = some types → arena.ListsTypes id
  /-- A nullable node of kind null has null among the values that it lists. -/
  nulls : ∀ id place allowed, arena.Stands root id place →
    (arena.node id).kind = .typed .null → (arena.node id).nullable →
      (arena.node id).enumeration = some allowed → .null ∈ allowed
  /-- What a variant of kind null lists, the one variant beside it takes as well, null apart. -/
  beside : ∀ id place child variant allowed v, arena.Stands root id place →
    soleVariant? arena (arena.node id) = some child → variant ∈ (arena.node id).variants →
      arena.isNull variant → (arena.node variant).enumeration = some allowed → v ∈ allowed →
        v = .null ∨ arena.Conforms accepts child v

theorem SchemaArena.WellListed.anti {accepts : String → String → Prop} {arena : SchemaArena}
    {root : SchemaId} {list more : List Assertion} (lists : arena.WellListed accepts root more)
    (inside : ∀ target check, Assertion.Occurs list (.check target check) →
      Assertion.Occurs more (.check target check)) : arena.WellListed accepts root list where
  types := fun id place types stands asserted =>
    lists.types id place types stands (inside place _ asserted)
  nulls := lists.nulls
  beside := lists.beside

namespace Derivation

open Assertion

namespace Subject

variable {c : Subject} {premise : Prop} {slot : List Nat} {d e : Draft} {place : Locator}
  {id variant : SchemaId} {type : JsonType} {typed : Bool} {v : Json} {list : List Assertion}
  {fuel : Nat}

def WellListed (c : Subject) (list : List Assertion) : Prop :=
  c.arena.WellListed c.accepts c.root list

/-- A value that is no null let in beside others. -/
def Solid (c : Subject) (id : SchemaId) (v : Json) : Prop :=
  v ≠ .null ∨ c.arena.acceptsNull (c.arena.node id) = false

theorem Solid.kind (solid : c.Solid id .null) (nullable : (c.arena.node id).nullable) :
    (c.arena.node id).kind = .typed .null := by
  rcases solid with apart | closed
  · exact absurd rfl apart
  · cases kind : (c.arena.node id).kind with
    | typed type => cases type <;> simp_all [SchemaArena.acceptsNull]
    | _ => simp_all [SchemaArena.acceptsNull]

theorem mem_of_listed {allowed : List Json} (lists : c.WellListed list)
    (stands : c.arena.Stands c.root id place) (conforms : c.arena.Conforms c.accepts id v)
    (enumerated : (c.arena.node id).enumeration = some allowed) (solid : c.Solid id v) :
    v ∈ allowed := by
  cases conforms with
  | listed other member => cases enumerated.symm.trans other; exact member
  | null nullable =>
    exact lists.nulls id place allowed stands (solid.kind nullable) nullable enumerated
  | typed unlisted => cases enumerated.symm.trans unlisted
  | union unlisted => cases enumerated.symm.trans unlisted
  | unknown unlisted => cases enumerated.symm.trans unlisted

theorem fulfils_of_typed (conforms : c.arena.Conforms c.accepts id v)
    (unlisted : (c.arena.node id).enumeration = none) (kind : (c.arena.node id).kind = .typed type)
    (solid : c.Solid id v) : c.Fulfils id type v := by
  cases conforms with
  | null nullable =>
    cases kind.symm.trans (solid.kind nullable)
    exact ⟨unlisted, kind, Or.inl rfl, SchemaNode.admits_of_other kind nofun nofun, nofun, nofun, nofun⟩
  | listed other => cases unlisted.symm.trans other
  | typed _ other has admits keys properties items =>
    cases kind.symm.trans other
    exact ⟨unlisted, kind, has, admits, keys, properties, items⟩
  | union _ other => cases kind.symm.trans other
  | unknown _ other => cases kind.symm.trans other

/-- A value of a union with one variant beside null conforms to that variant. -/
theorem conforms_of_sole (lists : c.WellListed list) (stands : c.arena.Stands c.root id place)
    (conforms : c.arena.Conforms c.accepts id v) (solid : c.Solid id v)
    (sole : soleVariant? c.arena (c.arena.node id) = some variant) :
    c.arena.Conforms c.accepts variant v := by
  obtain ⟨unlisted, kind, alone⟩ := soleVariant?_eq_some.mp sole
  cases conforms with
  | null nullable => cases kind.symm.trans (solid.kind nullable)
  | listed other => cases unlisted.symm.trans other
  | typed _ other => cases kind.symm.trans other
  | unknown _ other => cases kind.symm.trans other
  | @union _ _ chosen _ _ member inner =>
    by_cases null : c.arena.isNull chosen = true
    · have chosenKind : (c.arena.node chosen).kind = .typed .null := by
        simpa [SchemaArena.isNull] using null
      -- a variant of kind null lets null in, so null itself has been dealt with
      have filled : v ≠ .null := solid.resolve_right fun closed => by
        simp only [SchemaArena.acceptsNull, kind, Bool.or_eq_false_iff] at closed
        exact absurd null (by simpa using List.any_eq_false.mp closed.2 chosen member)
      rcases inner.cases_typed chosenKind with has | ⟨same, -⟩ | ⟨allowed, enumerated, inside⟩
      · exact absurd has.eq_null filled
      · exact absurd same filled
      · exact (lists.beside id place variant chosen allowed v stands sole member null enumerated
          inside).resolve_left filled
    · have inside : chosen ∈ concreteVariants c.arena (c.arena.node id) :=
        List.mem_filter.mpr ⟨member, by simpa using null⟩
      rw [alone, List.mem_singleton] at inside
      exact inside ▸ inner

/-- A visit to a value that conforms, and that is not null once its type has been checked. -/
def Expects (c : Subject) (premise : Prop) (id : SchemaId) (place : Locator) (typed : Bool) : Prop :=
  premise → c.Leads id place ∧ (typed → ∀ v, place.resolve? c.body = some v → v ≠ .null)

theorem Expects.solid (expects : c.Expects premise id place typed) (given : premise)
    (unguarded : typed ∨ c.arena.acceptsNull (c.arena.node id) = false) :
    ∃ v, place.resolve? c.body = some v ∧ c.arena.Conforms c.accepts id v ∧ c.Solid id v := by
  obtain ⟨⟨-, v, found, conforms⟩, filled⟩ := expects given
  exact ⟨v, found, conforms, unguarded.imp (fun typed => filled typed v found) fun closed => closed⟩

/-- The types of a node hold of what conforms to it where they are asserted. -/
theorem shallow_holds (lists : c.WellListed list) (leads : c.Leads id place)
    (asserted : ∀ check ∈ shallowChecks c.arena (c.arena.node id) typed,
      Occurs list (.check place check)) :
    ∀ check ∈ shallowChecks c.arena (c.arena.node id) typed,
      ∃ v, place.resolve? c.body = some v ∧ check.Holds c.accepts v := by
  obtain ⟨stands, v, found, conforms⟩ := leads
  intro check member
  refine ⟨v, found, ?_⟩
  have occurs := asserted check member
  unfold shallowChecks at member
  split at member
  · cases member
  · obtain ⟨types, accepted, rfl⟩ := List.mem_map.mp member
    have accepted := Option.mem_toList.mp accepted
    exact conforms.hasOneOf (lists.types id place types stands occurs accepted) accepted

/-- So do the other checks of a node where null has been dealt with. -/
theorem own_holds (lists : c.WellListed list) (leads : c.Leads id place)
    (solid : ∃ v, place.resolve? c.body = some v ∧ c.arena.Conforms c.accepts id v ∧ c.Solid id v)
    (ends : soleVariant? c.arena (c.arena.node id) = none)
    (asserted : ∀ check ∈ ownChecks c.arena (c.arena.node id) typed,
      Occurs list (.check place check)) :
    ∀ check ∈ ownChecks c.arena (c.arena.node id) typed,
      ∃ v, place.resolve? c.body = some v ∧ check.Holds c.accepts v := by
  by_cases union : (c.arena.node id).enumeration = none ∧ (c.arena.node id).kind = .union
  · rw [ownChecks_of_several union.1 union.2 ends] at asserted ⊢
    exact shallow_holds lists leads asserted
  · rw [ownChecks_of_single fun unlisted kind => union ⟨unlisted, kind⟩]
    obtain ⟨v, found, conforms, solid⟩ := solid
    intro check member
    refine ⟨v, found, ?_⟩
    cases enumerated : (c.arena.node id).enumeration with
    | some allowed =>
      rw [nodeChecks, enumerated] at member
      rw [List.mem_singleton.mp member]
      exact mem_of_listed lists leads.1 conforms enumerated solid
    | none =>
      cases kind : (c.arena.node id).kind with
      | typed type => exact (fulfils_of_typed conforms enumerated kind solid).checks check member
      | unknown => rw [nodeChecks, enumerated, kind] at member; cases member
      | union => exact absurd ⟨enumerated, kind⟩ union

/-- What visits write, whatever the premise. A premise that is false still tells where the owed
bodies go. -/
structure Visits (c : Subject) (fuel : Nat) : Prop where
  visit : ∀ premise id place typed slot d,
    (premise → c.WellListed (visit c.arena fuel id place typed slot d).out) →
      c.Expects premise id place typed →
        c.Writes premise slot d (visit c.arena fuel id place typed slot d)
  drain : ∀ premise slot d, (premise → c.WellListed (drain c.arena fuel slot d).out) →
    (∀ entry ∈ d.queue, premise → c.Leads entry.1 entry.2) →
      c.Adds premise slot d (drain c.arena fuel slot d)

theorem out_drain (visits : c.Visits fuel) (slot : List Nat) (d : Draft) :
    d.out <+: (drain c.arena fuel slot d).out :=
  (visits.drain False slot d False.elim fun _ _ => False.elim).out

theorem drain_adds (lists : premise → c.WellListed (drain c.arena (fuel + 1) slot d).out)
    (visits : c.Visits fuel) (leads : ∀ entry ∈ d.queue, premise → c.Leads entry.1 entry.2) :
    c.Adds premise slot d (drain c.arena (fuel + 1) slot d) := by
  rw [drain] at lists ⊢
  cases pending : d.queue with
  | nil => exact .refl ..
  | cons entry queue =>
    obtain ⟨id, place⟩ := entry
    simp only [pending] at lists ⊢
    have first : c.Writes premise slot { d with queue }
        (visit c.arena fuel id place false slot { d with queue }) := by
      refine visits.visit premise id place false slot _ (fun given => ?_) fun given =>
        ⟨leads (id, place) (by simp [pending]) given, nofun⟩
      exact (lists given).anti fun _ _ => Occurs.mono (out_drain visits slot _).subset
    refine first.adds.trans (visits.drain premise slot _ lists fun entry member given => ?_)
    obtain ⟨queued, same, later⟩ := first.queues
    rw [same] at member
    rcases List.mem_append.mp member with old | new
    · exact leads entry (by simp [pending, old]) given
    · exact later entry new given

/-- The checks at a place, as they stand in the list that they were written to. -/
theorem occurs_checks {checks : List Check} (inside : (d.check place checks).out ⊆ list) :
    ∀ check ∈ checks, Occurs list (.check place check) := fun _ member =>
  .top (inside (List.mem_append_right _ (List.mem_map_of_mem member)))

theorem writes_again
    (lists : premise → c.WellListed
      (d.check place (shallowChecks c.arena (c.arena.node id) typed)).out)
    (leads : premise → c.Leads id place) :
    c.Writes premise slot d (d.check place (shallowChecks c.arena (c.arena.node id) typed)) :=
  .check fun given =>
    shallow_holds (lists given) (leads given) (occurs_checks fun _ member => member)

theorem writes_guarded (visits : c.Visits fuel)
    (start : d.check place (shallowChecks c.arena (c.arena.node id) false) = e)
    (lists : premise → c.WellListed (e.wrap (drain c.arena fuel (slot ++ [e.out.length])
      (visit c.arena fuel id place true (slot ++ [e.out.length]) e.inner)) place).out)
    (leads : premise → c.Leads id place) :
    c.Writes premise slot d (e.wrap (drain c.arena fuel (slot ++ [e.out.length])
      (visit c.arena fuel id place true (slot ++ [e.out.length]) e.inner)) place) := by
  have first : c.Writes premise slot d e := by
    rw [← start]
    refine .check fun given => ?_
    refine shallow_holds (lists given) (leads given) (occurs_checks (d := d) ?_)
    rw [start]
    exact List.subset_append_left ..
  refine first.trans (Writes.nest ?_ fun given => ?_)
  · have inside : (premise ∧ ∀ v, place.resolve? c.body = some v → v ≠ .null) →
        c.WellListed (drain c.arena fuel (slot ++ [e.out.length])
          (visit c.arena fuel id place true (slot ++ [e.out.length]) e.inner)).out := fun given =>
      (lists given.1).anti fun _ _ => Occurs.deeper
        (.top (List.mem_append_right _ (List.mem_singleton_self _)))
    have body := visits.visit (premise ∧ ∀ v, place.resolve? c.body = some v → v ≠ .null) id place
      true (slot ++ [e.out.length]) e.inner
      (fun given => (inside given).anti fun _ _ => Occurs.mono (out_drain visits ..).subset)
      fun given => ⟨leads given.1, fun _ => given.2⟩
    refine body.adds.trans (visits.drain _ _ _ inside fun entry member given => ?_)
    obtain ⟨queued, same, later⟩ := body.queues
    rw [same] at member
    exact later entry member given
  · obtain ⟨v, found, -⟩ := (leads given).2
    exact ⟨v, found⟩

theorem writes_mark : c.Writes premise slot d (d.mark id) := ⟨.refl .., .refl ..⟩

theorem writes_variant (visits : c.Visits fuel)
    (unguarded : typed ∨ c.arena.acceptsNull (c.arena.node id) = false)
    (sole : soleVariant? c.arena (c.arena.node id) = some variant)
    (lists : premise → c.WellListed
      (visit c.arena fuel variant place typed slot (d.mark id)).out)
    (expects : c.Expects premise id place typed) :
    c.Writes premise slot d (visit c.arena fuel variant place typed slot (d.mark id)) := by
  refine writes_mark.trans (visits.visit premise variant place typed slot _ lists fun given => ?_)
  obtain ⟨v, found, conforms, solid⟩ := expects.solid given unguarded
  obtain ⟨⟨stands, -⟩, filled⟩ := expects given
  exact ⟨⟨.variant stands sole, v, found, conforms_of_sole (lists given) stands conforms solid sole⟩,
    filled⟩

theorem writes_plain (ends : soleVariant? c.arena (c.arena.node id) = none)
    (unguarded : typed ∨ c.arena.acceptsNull (c.arena.node id) = false)
    (lists : premise → c.WellListed (expandHere c.arena id place typed slot d).out)
    (expects : c.Expects premise id place typed) :
    c.Writes premise slot d (expandHere c.arena id place typed slot d) := by
  have branches : ∀ premise : Prop, (premise → ∀ type, (c.arena.node id).enumeration = none →
      (c.arena.node id).kind = .typed type → c.Meets id type place) →
        c.Writes premise slot ((d.mark id).check place
          (ownChecks c.arena (c.arena.node id) typed)) (expandHere c.arena id place typed slot d) :=
    fun _ meets => .branches meets
  have front := (branches False False.elim).adds.out.subset
  refine (writes_mark.trans (.check fun given => ?_)).trans (branches premise fun given => ?_)
  · exact own_holds (lists given) (expects given).1 (expects.solid given unguarded) ends
      (occurs_checks front)
  · intro type unlisted kind
    obtain ⟨v, found, conforms, solid⟩ := expects.solid given unguarded
    exact ⟨(expects given).1.1, v, found, fulfils_of_typed conforms unlisted kind solid⟩

theorem visit_writes (visits : c.Visits fuel)
    (lists : premise → c.WellListed (visit c.arena (fuel + 1) id place typed slot d).out)
    (expects : c.Expects premise id place typed) :
    c.Writes premise slot d (visit c.arena (fuel + 1) id place typed slot d) := by
  by_cases seen : id ∈ d.visited
  · rw [visit_again seen] at lists ⊢
    exact writes_again lists fun given => (expects given).1
  by_cases unguarded : typed ∨ c.arena.acceptsNull (c.arena.node id) = false
  · cases sole : soleVariant? c.arena (c.arena.node id) with
    | none =>
      rw [visit_plain seen unguarded sole] at lists ⊢
      exact writes_plain sole unguarded lists expects
    | some variant =>
      rw [visit_variant seen unguarded sole] at lists ⊢
      exact writes_variant visits unguarded sole lists expects
  · obtain ⟨untyped, nullable⟩ := not_or.mp unguarded
    rw [Bool.not_eq_true] at untyped
    subst untyped
    rw [visit_guarded seen (Bool.not_eq_false _ |>.mp nullable)] at lists ⊢
    exact writes_guarded visits rfl lists fun given => (expects given).1

theorem visits (c : Subject) (fuel : Nat) : c.Visits fuel := by
  induction fuel with
  | zero =>
    exact ⟨fun _ _ _ _ _ _ _ _ => by unfold visit; exact .refl ..,
      fun _ _ _ _ _ => by unfold drain; exact .refl ..⟩
  | succ fuel ih =>
    exact ⟨fun _ _ _ _ _ _ lists expects => visit_writes ih lists expects,
      fun _ _ _ lists leads => drain_adds lists ih leads⟩

theorem expand_adds (lists : premise → c.WellListed (expand c.arena fuel id place slot d).out)
    (leads : premise → c.Leads id place) :
    c.Adds premise slot { d with out := [] } (expand c.arena fuel id place slot d) := by
  refine (visits c fuel).drain premise slot _ lists fun entry member given => ?_
  rw [List.mem_singleton.mp member]
  exact leads given

/-- A list that is expanded from nothing is the chunk that it adds. -/
theorem expand_chunk (lists : premise → c.WellListed (expand c.arena fuel id place slot d).out)
    (leads : premise → c.Leads id place) :
    ∃ owed, c.Chunk premise (expand c.arena fuel id place slot d).out owed ∧
      (expand c.arena fuel id place slot d).deferred =
        d.deferred ++ owed.map (.moved slot 0) := by
  obtain ⟨added, owed, chunk, out, deferred⟩ := expand_adds lists leads
  have written : (expand c.arena fuel id place slot d).out = added := out
  subst written
  exact ⟨owed, chunk, deferred⟩

end Subject

variable {arena : SchemaArena} {id : SchemaId} {place : Locator} {slot : List Nat} {d : Draft}
  {list : List Assertion} {steps fuel : Nat}

/-- Where the bodies go that an expansion owes, whatever it is about. -/
theorem expand_layout (arena : SchemaArena) (steps : Nat) (id : SchemaId) (place : Locator)
    (slot : List Nat) (d : Draft) :
    ∃ owed, Layout (expand arena steps id place slot d).out owed ∧
      (expand arena steps id place slot d).deferred = d.deferred ++ owed.map (.moved slot 0) := by
  -- Nothing is asked of the list, so any subject will do.
  let c : Subject := ⟨fun _ _ => True, arena, 0, .null⟩
  have lists : False → c.WellListed (expand c.arena steps id place slot d).out := False.elim
  obtain ⟨owed, chunk, deferred⟩ := Subject.expand_chunk lists False.elim
  exact ⟨owed, chunk.layout, deferred⟩

/-- Settling only adds bodies, each in the guard that it is owed for. -/
theorem settle_grown (layout : Layout list d.deferred) :
    AllGrown list (settle arena steps fuel list d) := by
  induction fuel generalizing list d with
  | zero => exact allGrown_refl list
  | succ fuel ih =>
    rw [settle]
    cases pending : d.deferred with
    | nil => exact allGrown_refl list
    | cons next deferred =>
      rw [pending] at layout
      obtain ⟨owed, inner, later⟩ :=
        expand_layout arena steps next.schema next.place next.slot { d with deferred }
      refine ((layout.vacant next List.mem_cons_self).grown _).trans (ih ?_)
      rw [later]
      exact layout.fill inner

namespace Subject

variable {c : Subject}

theorem settle_allHold {out : List Assertion}
    (lists : c.WellListed (settle c.arena steps fuel out d))
    (chunk : c.Chunk True out d.deferred) :
    AllHold c.accepts c.body (settle c.arena steps fuel out d) := by
  induction fuel generalizing out d with
  | zero => exact chunk.holds trivial
  | succ fuel ih =>
    rw [settle] at lists ⊢
    cases pending : d.deferred with
    | nil => exact chunk.holds trivial
    | cons next deferred =>
      rw [pending] at chunk
      simp only [pending] at lists ⊢
      -- what the body asserts is found in it still when all bodies have been written
      have kept : c.WellListed
          (expand c.arena steps next.schema next.place next.slot { d with deferred }).out := by
        obtain ⟨owed, inner, later⟩ :=
          expand_layout c.arena steps next.schema next.place next.slot { d with deferred }
        refine lists.anti fun target check occurs => ?_
        refine (settle_grown (later ▸ chunk.layout.fill inner)).occurs_check ?_
        exact (chunk.layout.vacant next List.mem_cons_self).occurs occurs
      obtain ⟨owed, inner, later⟩ := expand_chunk (fun _ => kept)
        (chunk.leads trivial next List.mem_cons_self)
      refine ih lists ?_
      rw [later]
      exact chunk.fill inner

/-- Every derived assertion holds of a body that conforms. -/
theorem assertions_allHold (lists : c.WellListed (c.arena.assertions c.root))
    (conforms : c.arena.Conforms c.accepts c.root c.body) :
    AllHold c.accepts c.body (c.arena.assertions c.root) := by
  let start := expand c.arena (budget c.arena) c.root .root [] {}
  have settled : c.WellListed (settle c.arena (budget c.arena) (budget c.arena) start.out start) :=
    lists.anti fun _ _ occurs => occurs_pruned occurs (List.mem_singleton_self _)
  have layout : Layout start.out start.deferred := by
    obtain ⟨owed, layout, later⟩ := expand_layout c.arena (budget c.arena) c.root .root [] {}
    rw [later, moved_start layout]
    exact layout
  have leads : True → c.Leads c.root .root := fun _ => ⟨.root, c.body, rfl, conforms⟩
  obtain ⟨owed, chunk, later⟩ := expand_chunk (fun _ => settled.anti fun _ _ =>
    (settle_grown layout).occurs_check) leads
  refine prune_allHold _ (settle_allHold settled ?_)
  rw [later, moved_start chunk.layout]
  exact chunk

end Subject

theorem mem_settle {target : Locator} {check : Check} (member : .check target check ∈ list) :
    .check target check ∈ settle arena steps fuel list d := by
  induction fuel generalizing list d with
  | zero => exact member
  | succ fuel ih =>
    unfold settle
    split
    · exact member
    · exact ih (mem_install member)

end Derivation

end HttpPlan
