import HttpPlan.Proofs.Assertion.Settling
import HttpPlan.Proofs.Assertion.Soundness

/-! Derived assertions hold of every value that conforms to the schema they were derived from if and,
as far as the types asserted go, only if these leave nothing out. Whatever conforms to a node can be
put where the node stands in a value that conforms to the root, and no guard keeps a check of types
from being run on it: a guard against null is never around the types of its own place. -/
namespace HttpPlan

namespace Locator

variable {place outer : Locator} {v w : Json}

theorem Within.antisymm (inside : place.Within outer) (around : outer.Within place) :
    place = outer := by
  obtain ⟨segments⟩ := place
  exact congrArg Locator.mk (List.IsPrefix.eq_of_length_le around (List.IsPrefix.length_le inside))

/-- What is found at a place is found by way of every place around it. -/
theorem resolve?_within (inside : place.Within outer) (found : place.resolve? v = some w) :
    ∃ x rest, outer.resolve? v = some x ∧ place.segments = outer.segments ++ rest ∧
      rest.foldlM LocatorSegment.step x = some w := by
  obtain ⟨rest, whole⟩ := inside
  rw [resolve?, ← whole, List.foldlM_append] at found
  obtain ⟨x, above, below⟩ := Option.bind_eq_some_iff.mp found
  exact ⟨x, rest, above, whole.symm, below⟩

/-- Something that is not null stands around a place. -/
theorem ne_null_of_within (inside : place.Within outer) (apart : outer ≠ place)
    (found : place.resolve? v = some w) (around : outer.resolve? v = some .null) : False := by
  obtain ⟨x, rest, above, whole, below⟩ := resolve?_within inside found
  cases around.symm.trans above
  cases rest with
  | nil => exact apart (congrArg Locator.mk (whole.trans (List.append_nil _)).symm)
  | cons segment rest =>
    obtain ⟨y, step, -⟩ := Option.bind_eq_some_iff.mp below
    cases segment <;> cases step

end Locator

namespace Assertion

/-- Neither a check of the types of a place nor a guard against null around it. -/
def Bare (place : Locator) : Assertion → Prop
  | check target (.isType _) => target ≠ place
  | check _ _ => True
  | guarded target .ifNotNull _ => target ≠ place
  | guarded _ _ _ => True

mutual
/-- Whether no guard against null, at any depth, has a check of the types of its own place or such a
guard again in its body. -/
def Tidy : Assertion → Prop
  | check _ _ => True
  | guarded target guard body => (guard = .ifNotNull → ∀ a ∈ body, a.Bare target) ∧ AllTidy body
def AllTidy : List Assertion → Prop
  | [] => True
  | a :: rest => Tidy a ∧ AllTidy rest
end

/-- What has to hold for the types of a place to be checked in turn. -/
def LeadsTo (place : Locator) : Assertion → Prop
  | check target (.isType _) => target = place
  | check _ _ => False
  | guarded target guard _ => place.Within (guard.scope target)

variable {accepts : String → String → Prop} {list more inner body : List Assertion}
  {slot : List Nat} {a b : Assertion} {target place : Locator} {guard : Guard} {v w : Json}

theorem allTidy_iff : AllTidy list ↔ ∀ a ∈ list, a.Tidy := by
  induction list with
  | nil => simp [AllTidy]
  | cons a rest ih => rw [AllTidy, ih, List.forall_mem_cons]

theorem allTidy_append : AllTidy (list ++ more) ↔ AllTidy list ∧ AllTidy more := by
  simp only [allTidy_iff, List.forall_mem_append]

theorem AllTidy.occurs (tidy : AllTidy list) (occurs : Occurs list a) : a.Tidy := by
  induction occurs with
  | top member => exact allTidy_iff.mp tidy _ member
  | inner _ member ih => exact allTidy_iff.mp ih.2 _ member

theorem tidy_checks {checks : List Check} : AllTidy (checks.map (.check place)) := by
  refine allTidy_iff.mpr fun a member => ?_
  obtain ⟨c, -, rfl⟩ := List.mem_map.mp member
  trivial

theorem tidy_empty {guards : List Guard} : AllTidy (guards.map (.guarded place · [])) := by
  refine allTidy_iff.mpr fun a member => ?_
  obtain ⟨kind, -, rfl⟩ := List.mem_map.mp member
  exact ⟨fun _ _ none => absurd none List.not_mem_nil, trivial⟩

theorem Grown.bare (grown : Grown a b) (bare : a.Bare place) : b.Bare place := by
  cases grown with
  | check => exact bare
  | @filled _ guard => cases guard <;> exact bare
  | @inside _ guard => cases guard <;> exact bare

theorem AllGrown.bare : ∀ {list more : List Assertion}, AllGrown list more →
    (∀ a ∈ list, a.Bare place) → ∀ a ∈ more, a.Bare place
  | _, _, .nil, bare => bare
  | _, _, .cons first others, bare => by
    obtain ⟨here, rest⟩ := List.forall_mem_cons.mp bare
    exact List.forall_mem_cons.mpr ⟨first.bare here, others.bare rest⟩

/-- The heads of a list in which a guard for presence gets its body are as bare as before. -/
theorem tidy_filled (sits : Sits list slot (.guarded target guard [])) (presence : guard ≠ .ifNotNull)
    (tidy : AllTidy list) (below : AllTidy inner) :
    AllTidy (Derivation.install inner slot list) := by
  generalize same : Assertion.guarded target guard [] = whole at sits
  induction sits with
  | here found =>
    subst same
    obtain ⟨before, after, rfl, filled⟩ := Derivation.install_here found
    obtain ⟨early, -, late⟩ := allTidy_append.mp tidy
    rw [filled]
    exact allTidy_append.mpr ⟨early, ⟨fun null => absurd null presence, below⟩, late⟩
  | inside found further ih =>
    subst same
    obtain ⟨before, after, rfl, filled⟩ := Derivation.install_deeper found further.vacant
    obtain ⟨early, ⟨bare, deep⟩, late⟩ := allTidy_append.mp tidy
    rw [filled]
    exact allTidy_append.mpr ⟨early, ⟨fun null => (Derivation.grown_filled further).bare (bare null),
      ih deep rfl⟩, late⟩

theorem bare_of_pruneOne (left : a ∈ Derivation.pruneOne b) (bare : b.Bare place) :
    a.Bare place := by
  cases b with
  | check target c =>
    cases List.mem_singleton.mp left
    exact bare
  | guarded target guard inner =>
    rw [Derivation.pruneOne] at left
    split at left
    · cases left
    · cases List.mem_singleton.mp left
      cases guard <;> exact bare

/-- Dropping guards without a body leaves a list tidy. -/
theorem prune_bare (tidy : AllTidy list)
    (occurs : Occurs (Derivation.prune list) (.guarded target .ifNotNull body)) :
    ∀ a ∈ body, a.Bare target := by
  obtain ⟨b, there, left⟩ := Derivation.occurs_prune occurs
  obtain ⟨-, inner, rfl, rfl⟩ := (Derivation.mem_pruneOne left).2 _ _ _ rfl
  intro a member
  obtain ⟨c, inside, kept⟩ := Derivation.mem_prune_iff.mp member
  exact bare_of_pruneOne kept ((tidy.occurs there).1 rfl c inside)

theorem LeadsTo.within (leads : a.LeadsTo place) : place.Within a.target := by
  cases a with
  | check target c =>
    cases c with
    | isType => exact leads ▸ Locator.within_refl _
    | _ => exact leads.elim
  | guarded target guard body => exact Locator.Within.trans leads (guard.scope_within target)

/-- What leads to the types of a place cannot stand bare in a guard against null around it. -/
theorem LeadsTo.not_bare (leads : a.LeadsTo place) (inside : a.target.Within place) :
    ¬ a.Bare place := by
  cases a with
  | check target c =>
    cases c with
    | isType => exact fun apart => apart leads
    | _ => exact leads.elim
  | guarded target guard body =>
    have around : target.Within (guard.scope target) := Locator.Within.trans inside leads
    cases guard with
    | ifNotNull => exact fun apart => apart (Locator.Within.antisymm inside leads)
    | ifPresent key => exact absurd around Locator.not_within_extend
    | ifNonEmptyArray => exact absurd around Locator.not_within_extend

/-- A guard is met on the way to something that is there. -/
theorem met_of_within {x : Json} (found : place.resolve? v = some w)
    (there : target.resolve? v = some x) (reaches : place.Within (guard.scope target))
    (apart : guard = .ifNotNull → target ≠ place) : guard.Met x := by
  obtain ⟨y, -, above, -, -⟩ := Locator.resolve?_within reaches found
  cases guard with
  | ifPresent key =>
    have field : (target.resolve? v).bind (LocatorSegment.step · (.key key)) = some y :=
      Locator.resolve?_extend.symm.trans above
    rw [there] at field
    exact Option.isSome_iff_exists.mpr ⟨y, field⟩
  | ifNonEmptyArray =>
    have item : (target.resolve? v).bind (LocatorSegment.step · (.index 0)) = some y :=
      Locator.resolve?_extend.symm.trans above
    rw [there] at item
    exact Option.isSome_iff_exists.mpr ⟨y, item⟩
  | ifNotNull =>
    rintro rfl
    exact Locator.ne_null_of_within reaches (apart rfl) found there

/-- In a true list, what leads to the types of a place holds if something is there. -/
theorem holds_of_occurs (all : AllHold accepts v list) (found : place.resolve? v = some w)
    (proper : ∀ target guard body, Occurs list (.guarded target guard body) →
      ∀ a, Occurs body a → a.target.Within (guard.scope target))
    (tidy : ∀ target body, Occurs list (.guarded target .ifNotNull body) → ∀ a ∈ body, a.Bare target)
    (occurs : Occurs list a) (leads : a.LeadsTo place) : a.Holds accepts v := by
  induction occurs with
  | top member => exact allHold_iff.mp all _ member
  | @inner target guard body a outer member ih =>
    have inside : a.target.Within (guard.scope target) := proper _ _ _ outer a (.top member)
    have reaches : place.Within (guard.scope target) := leads.within.trans inside
    obtain ⟨x, there, -, runs⟩ := ih reaches
    refine allHold_iff.mp (runs (met_of_within found there reaches ?_)) a member
    rintro rfl rfl
    exact leads.not_bare inside (tidy _ _ outer a member)

end Assertion

namespace Derivation

open Assertion

variable {arena : SchemaArena} {root : SchemaId} {place : Locator} {slot : List Nat}
  {d e : Draft} {task : Task} {log : List Expansion} {out : List Assertion}
  {filled : List (Deferred × List Assertion)}

/-- A visit below a place, or one there whose types have been checked. -/
def Task.Quiet (place : Locator) : Task → Prop
  | .visit _ here typed => here.Within place ∧ (here = place → typed = true)
  | .drain => True

/-- Visits that lie further inside than a place. -/
def AllBelow (place : Locator) (queue : List (SchemaId × Locator)) : Prop :=
  ∀ entry ∈ queue, entry.2.Within place ∧ entry.2 ≠ place

theorem nextVisits_below {node : SchemaNode} {here : Locator} (inside : here.Within place) :
    AllBelow place (nextVisits node here) := by
  intro entry member
  unfold nextVisits at member
  split at member
  · obtain ⟨property, -, rfl⟩ := List.mem_map.mp member
    refine ⟨Locator.extend_within.trans inside, fun same => ?_⟩
    exact Locator.not_within_extend (same ▸ inside)
  · cases member

theorem bare_checks {checks : List Check} {here : Locator}
    (bare : ∀ a ∈ d.out, a.Bare place)
    (plain : here = place → ∀ types, .isType types ∉ checks) :
    ∀ a ∈ (d.check here checks).out, a.Bare place := by
  refine List.forall_mem_append.mpr ⟨bare, fun a member => ?_⟩
  obtain ⟨c, written, rfl⟩ := List.mem_map.mp member
  cases c with
  | isType types => exact fun same => plain same types written
  | _ => trivial

/-- Where the types of a place have been checked already, its node does not call for it again. -/
theorem isType_not_mem_ownChecks {node : SchemaNode} (types : List JsonType) :
    .isType types ∉ ownChecks arena node true := by
  have values : ∀ type, .isType types ∉ valueChecks node type := by
    intro type
    cases type <;> simp [valueChecks, checkIf]
  have own : .isType types ∉ nodeChecks node true := by
    unfold nodeChecks
    split
    · simp
    · split
      · simp
      · exact fun member => (List.mem_append.mp member).elim List.not_mem_nil (values _)
    · exact List.not_mem_nil
  unfold ownChecks
  split
  · split <;> exact List.not_mem_nil
  · exact own

theorem bare_property {node : SchemaNode} {here : Locator} {entry : String × SchemaId}
    (bare : ∀ a ∈ d.out, a.Bare place) :
    ∀ a ∈ (property node slot here d entry).out, a.Bare place := by
  unfold property
  dsimp only
  split
  · exact bare
  · exact List.forall_mem_append.mpr ⟨bare, List.forall_mem_singleton.mpr trivial⟩

theorem bare_branches {node : SchemaNode} {here : Locator} (bare : ∀ a ∈ d.out, a.Bare place) :
    ∀ a ∈ (openBranches node slot here d).out, a.Bare place := by
  unfold openBranches
  split
  · exact List.foldlRecOn (motive := fun e : Draft => ∀ a ∈ e.out, a.Bare place) _ _ bare
      fun _ kept _ _ => bare_property kept
  · split
    · exact List.forall_mem_append.mpr ⟨bare, List.forall_mem_singleton.mpr trivial⟩
    · exact bare
  · exact bare

/-- Visits that do not start at a place whose types are still to be checked write nothing there that
is not bare. -/
theorem Run.bare (run : Run arena task slot d e log) (quiet : task.Quiet place)
    (queue : AllBelow place d.queue) (bare : ∀ a ∈ d.out, a.Bare place) :
    (∀ a ∈ e.out, a.Bare place) ∧ AllBelow place e.queue := by
  induction run with
  | again =>
    refine ⟨bare_checks bare fun same types => ?_, queue⟩
    rw [quiet.2 same]
    exact List.not_mem_nil
  | guarded _ _ begun =>
    subst begun
    have apart : _ ≠ place := fun same => Bool.false_ne_true (quiet.2 same)
    refine ⟨List.forall_mem_append.mpr ⟨?_, List.forall_mem_singleton.mpr apart⟩, queue⟩
    exact bare_checks bare fun same => absurd same apart
  | @plain id here typed slot d =>
    refine ⟨bare_branches (bare_checks bare fun same types => ?_), ?_⟩
    · rw [quiet.2 same]
      exact isType_not_mem_ownChecks types
    · rw [(opens_here ..).queue]
      exact List.forall_mem_append.mpr ⟨queue, nextVisits_below quiet.1⟩
  | variant _ _ _ _ inside => exact inside quiet queue bare
  | done => exact ⟨bare, queue⟩
  | next ahead _ _ inside behind =>
    obtain ⟨⟨within, apart⟩, others⟩ := List.forall_mem_cons.mp (ahead ▸ queue)
    obtain ⟨visited, queued⟩ := inside ⟨within, fun same => absurd same apart⟩ others bare
    exact behind trivial queued visited

/-- Runs leave lists tidy. -/
theorem Run.tidy (run : Run arena task slot d e log) (tidy : AllTidy d.out) : AllTidy e.out := by
  induction run with
  | again => exact allTidy_append.mpr ⟨tidy, tidy_checks⟩
  | @guarded id here slot d start opened body first later _ _ begun visit drain inside behind =>
    subst begun
    have quiet : (Task.visit id here true).Quiet here := ⟨Locator.within_refl here, fun _ => rfl⟩
    obtain ⟨visited, queued⟩ := visit.bare quiet (List.forall_mem_nil _) (List.forall_mem_nil _)
    have bare := (drain.bare trivial queued visited).1
    have below : AllTidy body.out := behind (inside trivial)
    exact allTidy_append.mpr ⟨allTidy_append.mpr ⟨tidy, tidy_checks⟩, ⟨fun _ => bare, below⟩, trivial⟩
  | @plain id here typed slot d =>
    obtain ⟨guards, written, -⟩ := (opens_here arena id here typed slot d).out
    rw [written]
    exact allTidy_append.mpr ⟨allTidy_append.mpr ⟨tidy, tidy_checks⟩, tidy_empty⟩
  | variant _ _ _ _ inside => exact inside tidy
  | done => exact tidy
  | next _ _ _ inside behind => exact behind (inside tidy)

/-- Writing the bodies that are owed leaves the list tidy. -/
theorem Settling.tidy (closed : arena.Closed) (bound : root < arena.size)
    (settling : Settling arena root filled out d) : AllTidy out := by
  induction settling with
  | start =>
    obtain ⟨log, run, -⟩ := start_traced closed bound rfl
    exact run.tidy trivial
  | next settling ahead body ih =>
    have orderly := settling.orderly closed bound
    obtain ⟨log, run, -⟩ := body_traced closed orderly.inRange orderly.enough ahead body
    obtain ⟨target, guard, sits, presence, -⟩ := orderly.matched.owed _ (ahead ▸ List.mem_cons_self)
    exact tidy_filled sits presence ih (run.tidy trivial)

end Derivation

namespace SchemaArena

open HttpPlan.Derivation

variable {accepts : String → String → Prop} {arena : SchemaArena} {root id child : SchemaId}
  {place : Locator} {w : Json}

/-- Each node that a value can be followed to takes some value. -/
def Satisfiable (accepts : String → String → Prop) (arena : SchemaArena) (root : SchemaId) : Prop :=
  ∀ id place, arena.Stands root id place → ∃ v, arena.Conforms accepts id v

/-- An object with some keys, whose values are chosen by name. -/
theorem exists_fields (fill : String → Json) (keys : List String) :
    ∃ fields, (Json.object fields).HasKeys keys ∧
      ∀ name v, (Json.object fields).field? name = some v → v = fill name := by
  refine ⟨keys.map fun name => (name, fill name), Json.hasKeys_object.mpr fun name member =>
    List.mem_map.mpr ⟨(name, fill name), List.mem_map_of_mem member, rfl⟩, fun name v found => ?_⟩
  obtain ⟨before, after, split, -⟩ := List.lookup_eq_some_iff.mp found
  have member : (name, v) ∈ keys.map fun name => (name, fill name) := by rw [split]; simp
  obtain ⟨other, -, same⟩ := List.mem_map.mp member
  cases same
  rfl

/-- An object with a given value of one property, and with all others filled in. -/
theorem exists_object {key : String} (unlisted : (arena.node id).enumeration = none)
    (kind : (arena.node id).kind = .typed .object)
    (declared : (key, child) ∈ (arena.node id).properties.entries)
    (others : ∀ entry ∈ (arena.node id).properties.entries, ∃ v, arena.Conforms accepts entry.2 v)
    (conforms : arena.Conforms accepts child w) :
    ∃ v, arena.Conforms accepts id v ∧ v.field? key = some w := by
  have unique : ∀ {name a b}, (name, a) ∈ (arena.node id).properties.entries →
      (name, b) ∈ (arena.node id).properties.entries → a = b := fun one two =>
    Option.some.inj ((OrderedMap.get?_of_mem one).symm.trans (OrderedMap.get?_of_mem two))
  have values : ∀ name, ∃ v, (name = key → v = w) ∧
      ∀ part, (name, part) ∈ (arena.node id).properties.entries → arena.Conforms accepts part v := by
    intro name
    by_cases same : name = key
    · exact ⟨w, fun _ => rfl, fun part member => unique declared (same ▸ member) ▸ conforms⟩
    · by_cases known : ∃ part, (name, part) ∈ (arena.node id).properties.entries
      · obtain ⟨part, member⟩ := known
        obtain ⟨v, fits⟩ := others _ member
        exact ⟨v, fun equal => absurd equal same, fun other also => unique member also ▸ fits⟩
      · exact ⟨.null, fun equal => absurd equal same, fun part member =>
          absurd ⟨part, member⟩ known⟩
  choose fill chosen fits using values
  obtain ⟨fields, present, filled⟩ := exists_fields fill (key :: (arena.node id).required.names)
  obtain ⟨v, found⟩ := Option.isSome_iff_exists.mp (present.2 key List.mem_cons_self)
  refine ⟨.object fields, ?_, found.trans (congrArg some ((filled key v found).trans (chosen key rfl)))⟩
  refine .typed unlisted kind (Or.inl rfl) (SchemaNode.admits_of_other kind nofun nofun)
    (fun _ => ⟨rfl, fun name member => present.2 name (List.mem_cons_of_mem _ member)⟩)
    (fun _ name part x member found => ?_) nofun
  rw [filled name x found]
  exact fits name part member

/-- Around whatever conforms to a node that stands at a place there is a value that conforms to the
root. -/
theorem Stands.exists_around (satisfiable : arena.Satisfiable accepts root)
    (stands : arena.Stands root id place) (conforms : arena.Conforms accepts id w) :
    ∃ v, arena.Conforms accepts root v ∧ place.resolve? v = some w := by
  induction stands generalizing w with
  | root => exact ⟨w, conforms, rfl⟩
  | property above unlisted kind declared ih =>
    obtain ⟨x, fits, field⟩ := exists_object unlisted kind declared
      (fun entry member => satisfiable _ _ (above.property unlisted kind member)) conforms
    obtain ⟨v, whole, found⟩ := ih fits
    exact ⟨v, whole, (Locator.resolve?_extend).trans (by rw [found]; exact field)⟩
  | @item id child place above unlisted kind items ih =>
    have fits : arena.Conforms accepts id (.array [w]) := by
      refine .typed unlisted kind (Or.inl rfl) (SchemaNode.admits_of_other kind nofun nofun)
        nofun nofun fun _ other vs x same listed member => ?_
      cases items.symm.trans same
      cases listed
      rw [List.mem_singleton.mp member]
      exact conforms
    obtain ⟨v, whole, found⟩ := ih fits
    exact ⟨v, whole, (Locator.resolve?_extend).trans (by rw [found]; rfl)⟩
  | variant _ sole ih =>
    obtain ⟨unlisted, kind, alone⟩ := soleVariant?_eq_some.mp sole
    have member := List.mem_of_mem_filter (alone ▸ List.mem_singleton_self _)
    exact ih (.union unlisted kind member conforms)

/-- A node whose list of types is asserted when it is visited first: one that takes null beside
other values, or a union that does not come down to one variant. -/
def Announces (arena : SchemaArena) (id : SchemaId) : Prop :=
  arena.acceptsNull (arena.node id) ∨
    ((arena.node id).enumeration = none ∧ (arena.node id).kind = .union ∧
      (concreteVariants arena (arena.node id)).length ≠ 1)

theorem visit_announces {types : List JsonType} {fuel : Nat} {slot : List Nat} {d : Draft}
    {place : Locator} (announces : arena.Announces root)
    (accepted : arena.acceptedTypes? (arena.node root) = some types) (fresh : root ∉ d.visited) :
    .check place (.isType types) ∈ (visit arena (fuel + 1) root place false slot d).out := by
  unfold visit
  rw [if_neg fresh]
  by_cases null : arena.acceptsNull (arena.node root) = true
  · simp [null, accepted, Draft.emitTypes, Draft.emit]
  · rcases announces with nullable | ⟨unlisted, kind, several⟩
    · exact absurd nullable null
    · simp only [null, unlisted, kind, Bool.not_false, Bool.true_and, Bool.false_eq_true, if_false]
      split
      · next single => simp [single] at several
      · simp [accepted, Draft.emitTypes, Draft.emit]

theorem announced {types : List JsonType} (announces : arena.Announces root)
    (accepted : arena.acceptedTypes? (arena.node root) = some types) :
    .check .root (.isType types) ∈ arena.assertions root := by
  refine mem_prune (mem_settle ?_)
  obtain ⟨steps, enough⟩ : ∃ steps, budget arena = steps + 2 :=
    ⟨arena.nodes.foldr (fun node rest => node.properties.size + 6 + rest) 0 + 2, rfl⟩
  have first : .check .root (.isType types) ∈
      (visit arena (steps + 1) root .root false [] { queue := [] }).out :=
    visit_announces announces accepted (by simp)
  have kept := (Subject.out_drain (Subject.visits ⟨fun _ _ => True, arena, 0, .null⟩ (steps + 1)) []
    (visit arena (steps + 1) root .root false [] { queue := [] })).subset first
  simpa only [expand, enough, drain] using kept

/-- All that conforms to the root passes the assertions derived from it. -/
def Sound (accepts : String → String → Prop) (arena : SchemaArena) (root : SchemaId) : Prop :=
  ∀ v, arena.Conforms accepts root v → ∀ a ∈ arena.assertions root, a.Holds accepts v

theorem sound_types {types : List JsonType} (closed : arena.Closed) (bound : root < arena.size)
    (satisfiable : arena.Satisfiable accepts root) (sound : arena.Sound accepts root)
    (stands : arena.Stands root id place)
    (asserted : Assertion.Occurs (arena.assertions root) (.check place (.isType types)))
    (accepted : arena.acceptedTypes? (arena.node id) = some types) : arena.ListsTypes id := by
  obtain ⟨-, -, -, -, room⟩ := start_traced closed bound rfl
  obtain ⟨filled, d, settling, -⟩ := Settling.start.settles closed bound room
  have proper := (settling.orderly closed bound).proper
  have tidy := settling.tidy closed bound
  refine (listsTypes_iff accepts).mpr fun other same w conforms => ?_
  cases accepted.symm.trans same
  obtain ⟨v, whole, found⟩ := stands.exists_around satisfiable conforms
  have all := Assertion.allHold_iff.mpr (sound v whole)
  obtain ⟨x, there, has⟩ := Assertion.holds_of_occurs all found
    (fun _ _ _ occurs => (prune_guards proper occurs).2)
    (fun _ _ occurs => Assertion.prune_bare tidy occurs) asserted rfl
  cases found.symm.trans there
  exact has

/-- Derived assertions hold of everything that conforms if the types asserted leave nothing out; and
these have to, at a root whose types are asserted at once, and wherever a node stands if each that
does takes some value. -/
theorem assertions_sound (accepts : String → String → Prop) (arena : SchemaArena) :
    (∀ root, arena.WellListed accepts root (arena.assertions root) → arena.Sound accepts root) ∧
    (∀ root, arena.Announces root → arena.Sound accepts root → arena.ListsTypes root) ∧
    (arena.Closed → ∀ root < arena.size, arena.Satisfiable accepts root → arena.Sound accepts root →
      ∀ id place types, arena.Stands root id place →
        Assertion.Occurs (arena.assertions root) (.check place (.isType types)) →
          arena.acceptedTypes? (arena.node id) = some types → arena.ListsTypes id) := by
  refine ⟨fun root lists v conforms => ?_, fun root announces sound => ?_,
    fun closed root bound satisfiable sound id place types stands asserted accepted => ?_⟩
  · exact Assertion.allHold_iff.mp
      (@Subject.assertions_allHold ⟨accepts, arena, root, v⟩ lists conforms)
  · refine (listsTypes_iff accepts).mpr fun types accepted v conforms => ?_
    obtain ⟨w, found, has⟩ := sound v conforms _ (announced announces accepted)
    cases found
    exact has
  · exact sound_types closed bound satisfiable sound stands asserted accepted

/-- A list that may end in null. Its names may be the number one, and its notes are a union of one
nullable text. -/
def lenient : SchemaArena :=
  ⟨[{ kind := .typed .object, nullable := true, required := .ofList ["name", "note"],
      properties := .ofList [("name", 1), ("note", 2), ("next", 0)] },
    { kind := .typed .string, enumeration := some [.string "a", .number (.int 1)] },
    { kind := .union, variants := [3] },
    { kind := .typed .string, nullable := true }]⟩

theorem lenient_assertions : lenient.assertions 0 =
    [.check .root (.isType [.object, .null]), .guarded .root .ifNotNull
      [.check .root (.hasRequiredKeys ["name", "note"]),
        .guarded .root (.ifPresent "next")
          [.check (Locator.root.key "next") (.isType [.object, .null])],
        .check (Locator.root.key "name") (.enumMembership [.string "a", .number (.int 1)]),
        .check (Locator.root.key "note") (.isType [.string, .null])]] := by rfl

theorem lenient_types {place : Locator} {types : List JsonType}
    (asserted : Assertion.Occurs (lenient.assertions 0) (.check place (.isType types))) :
    types = [.object, .null] ∨ types = [.string, .null] := by
  rw [lenient_assertions] at asserted
  simp [Assertion.occurs_check_cons, Assertion.occurs_guarded_cons,
    Assertion.not_occurs_nil] at asserted
  rcases asserted with ⟨-, same⟩ | ⟨-, same⟩ | ⟨-, same⟩
  · exact Or.inl same
  · exact Or.inl same
  · exact Or.inr same

/-- The lists of the name and of the union are not among those asserted, and the others are whole. -/
theorem lenient_wellListed : lenient.WellListed accepts 0 (lenient.assertions 0) := by
  have kinds : ∀ id, (lenient.node id).kind ≠ .typed .null :=
    forall_node (P := (·.kind ≠ .typed .null)) (by decide) (by decide)
  refine ⟨fun id place types _ asserted accepted => ?_, fun id _ _ _ kind => absurd kind (kinds id),
    fun id _ _ variant _ _ _ _ _ null => absurd (by simpa [isNull] using null) (kinds variant)⟩
  have known := lenient_types asserted
  rcases id with _ | _ | _ | _ | _
  · exact listsTypes_of_plain rfl (by decide)
  · cases (show some [.string] = some types from accepted)
    exact absurd known (by decide)
  · cases (show some [.string] = some types from accepted)
    exact absurd known (by decide)
  · exact listsTypes_of_plain rfl (by decide)
  · exact listsTypes_of_plain rfl (show ({} : SchemaNode).kind ≠ .union by decide)

theorem lenient_satisfiable : lenient.Satisfiable accepts 0 := by
  intro id _ _
  rcases id with _ | _ | _ | _ | _
  · exact ⟨.null, .null rfl⟩
  · exact ⟨.string "a", .listed rfl List.mem_cons_self⟩
  · exact ⟨.null, .union rfl rfl (show 3 ∈ [3] by decide) (.null rfl)⟩
  · exact ⟨.null, .null rfl⟩
  · exact ⟨.null, .unknown rfl rfl⟩

theorem lenient_conforms : lenient.Conforms accepts 0
    (.object [("name", .number (.int 1)), ("note", .null)]) := by
  refine .typed rfl rfl (Or.inl rfl) ⟨nofun, nofun, nofun, nofun⟩
    (fun _ => ⟨rfl, by decide⟩) (fun _ key child w member field => ?_) nofun
  rcases List.mem_cons.mp member with same | member
  · cases same
    cases field
    exact .listed rfl (by decide)
  · rcases List.mem_cons.mp member with same | member
    · cases same
      cases field
      exact .union rfl rfl (show 3 ∈ [3] by decide) (.null rfl)
    · cases List.mem_singleton.mp member
      cases field

/-- The types of a name leave the number out, and those of the union leave null out. Neither are
asserted, so the assertions hold of a value with both; those of the text in the union are, and leave
nothing out. -/
theorem assertions_sound_lenient :
    ¬ lenient.ListsTypes 1 ∧ ¬ lenient.ListsTypes 2 ∧
    lenient.WellListed (fun _ _ => False) 0 (lenient.assertions 0) ∧
    lenient.Conforms (fun _ _ => False) 0
      (.object [("name", .number (.int 1)), ("note", .null)]) ∧
    (∀ a ∈ lenient.assertions 0,
      a.Holds (fun _ _ => False) (.object [("name", .number (.int 1)), ("note", .null)])) ∧
    lenient.Closed ∧ lenient.Satisfiable (fun _ _ => False) 0 ∧ lenient.ListsTypes 3 := by
  have number : ¬ lenient.ListsTypes 1 := by
    intro lists
    obtain ⟨type, member, has⟩ :=
      lists.listed [.string "a", .number (.int 1)] [.string] rfl rfl (.number (.int 1)) (by simp)
    rw [List.mem_singleton.mp member] at has
    rcases has with other | ⟨-, other⟩ <;> cases other
  have null : ¬ lenient.ListsTypes 2 := fun lists =>
    absurd ((lists.variants [.string] rfl rfl rfl 3 (by decide)).1 rfl) (by decide)
  have closed : lenient.Closed := by
    unfold Closed SchemaNode.Below
    decide
  obtain ⟨whole, -, needed⟩ := assertions_sound (fun _ _ => False) lenient
  have sound := whole 0 lenient_wellListed
  have stands : lenient.Stands 0 3 (Locator.root.key "note") :=
    @Stands.variant lenient 0 2 3 _ (.property .root rfl rfl (show ("note", 2) ∈ _ by decide)) rfl
  have asserted : Assertion.Occurs (lenient.assertions 0)
      (.check (Locator.root.key "note") (.isType [.string, .null])) := by
    rw [lenient_assertions]
    simp [Assertion.occurs_check_cons, Assertion.occurs_guarded_cons]
  exact ⟨number, null, lenient_wellListed, lenient_conforms, sound _ lenient_conforms, closed,
    lenient_satisfiable,
    needed closed 0 (by decide) lenient_satisfiable sound 3 _ _ stands asserted rfl⟩

/-- A string or nothing, or an integer. -/
def optionalName : SchemaArena :=
  ⟨[{ kind := .union, variants := [1, 2] }, { kind := .typed .string, nullable := true },
    { kind := .typed .integer }]⟩

/-- Null conforms to a union with a nullable variant, but the types asserted do not list it. -/
theorem null_refused :
    optionalName.Closed ∧ (∀ node ∈ optionalName.nodes, node.enumeration ≠ some []) ∧
    ∃ root v, optionalName.Conforms (fun _ _ => True) root v ∧
      ∃ a ∈ optionalName.assertions root, ¬ a.Holds (fun _ _ => True) v := by
  refine ⟨?_, ?_, 0, .null, .union rfl rfl (by decide : 1 ∈ [1, 2]) (.null rfl),
    .check .root (.isType [.string, .integer]), announced (Or.inr ⟨rfl, rfl, by decide⟩) rfl, ?_⟩
  · unfold Closed SchemaNode.Below
    decide
  · decide
  · rintro ⟨v, found, has⟩
    cases found
    exact absurd (Json.hasOneOf_null.mp has) (by decide)

/-- A name, or the number one, or nothing. -/
def mixedName : SchemaArena :=
  ⟨[{ kind := .typed .string, nullable := true,
      enumeration := some [.string "a", .number (.int 1)] }]⟩

/-- A listed value conforms whatever its type, but the type asserted of a nullable node is its own. -/
theorem listed_value_refused :
    ∃ root v, mixedName.Conforms (fun _ _ => True) root v ∧
      ∃ a ∈ mixedName.assertions root, ¬ a.Holds (fun _ _ => True) v := by
  refine ⟨0, .number (.int 1), .listed rfl (by decide), .check .root (.isType [.string, .null]),
    announced (Or.inl rfl) rfl, ?_⟩
  rintro ⟨v, found, type, member, has⟩
  cases found
  rcases List.mem_cons.mp member with rfl | member
  · rcases has with other | ⟨-, other⟩ <;> cases other
  · rw [List.mem_singleton.mp member] at has
    rcases has with other | ⟨-, other⟩ <;> cases other

/-- Null, by two keywords that do not agree. -/
def otherThanNull : SchemaArena :=
  ⟨[{ kind := .typed .null, nullable := true, enumeration := some [.string "a"] }]⟩

/-- Null conforms to a nullable node, and is refused by one of kind null that lists other values. -/
theorem unlisted_null_refused :
    ∃ root v, otherThanNull.Conforms (fun _ _ => True) root v ∧
      ∃ a ∈ otherThanNull.assertions root, ¬ a.Holds (fun _ _ => True) v := by
  have list : otherThanNull.assertions 0 = [.check .root (.enumMembership [.string "a"])] := by rfl
  refine ⟨0, .null, .null rfl, .check .root (.enumMembership [.string "a"]), by simp [list], ?_⟩
  rintro ⟨v, found, member⟩
  cases found
  cases List.mem_singleton.mp member

/-- A letter under a variant of kind null, or a longer text. -/
def letterOrText : SchemaArena :=
  ⟨[{ kind := .union, variants := [1, 2] },
    { kind := .typed .null, enumeration := some [.string "a"] },
    { kind := .typed .string, minLength := some 2 }]⟩

/-- What a variant of kind null lists conforms to the union, but is held against the other variant. -/
theorem letter_refused :
    ∃ root v, letterOrText.Conforms (fun _ _ => True) root v ∧
      ∃ a ∈ letterOrText.assertions root, ¬ a.Holds (fun _ _ => True) v := by
  have list : letterOrText.assertions 0 = [.check .root (.isType [.null, .string]),
      .guarded .root .ifNotNull [.check .root (.lengthBound (some 2) none)]] := by rfl
  refine ⟨0, .string "a", .union rfl rfl (show 1 ∈ [1, 2] by decide) (.listed rfl (by decide)),
    .guarded .root .ifNotNull [.check .root (.lengthBound (some 2) none)], by simp [list], ?_⟩
  rintro ⟨v, found, -, met⟩
  cases found
  obtain ⟨⟨w, again, text, same, low, -⟩, -⟩ := met nofun
  cases again
  cases same
  exact absurd (low 2 rfl) (by decide)

end SchemaArena

end HttpPlan
