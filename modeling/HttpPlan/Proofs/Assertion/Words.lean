import HttpPlan.Proofs.Assertion.Interchange
import HttpPlan.Proofs.Assertion.Slots
import HttpPlan.Proofs.Schema.Merge
import HttpPlan.Proofs.Spec.Nodes
import HttpPlan.Assertion.Derivation

/-! The lengths of every schema node fit a word, since they are read as words, and so do those of the
assertions derived from it. Positions are keys and first items. -/
namespace HttpPlan

namespace SchemaNode

/-- A node whose bounds on lengths fit a word. -/
def InWords (node : SchemaNode) : Prop :=
  (∀ n ∈ node.minLength, n < UInt64.size) ∧ ∀ n ∈ node.maxLength, n < UInt64.size

variable {schema : Json} {node part merged : SchemaNode} {types : List JsonType}

theorem inWords_empty : InWords {} := ⟨nofun, nofun⟩

theorem word_lt {v : Option Json} {n : Nat} (read : n ∈ v >>= Json.word?) : n < UInt64.size := by
  obtain ⟨v, -, word⟩ := Option.bind_eq_some_iff.mp read
  unfold Json.word? at word
  split at word
  · split at word
    · next range => 
      cases word
      simp only [Bool.and_eq_true, decide_eq_true_eq] at range
      omega
    · cases word
  · cases word

theorem inWords_ofKeywords (made : ofKeywords schema = .ok (node, types)) : node.InWords := by
  unfold ofKeywords at made
  cases declared : DeclaredType.ofKeyword (schema.field? "type") with
  | error c => rw [declared] at made; cases made
  | ok type => rw [declared] at made; cases made; exact ⟨fun _ => word_lt, fun _ => word_lt⟩

theorem inWords_blueprint (location : String) : (schema.blueprint location).1.InWords := by
  unfold Json.blueprint
  split
  · split
    · exact inWords_empty
    · split
      · exact inWords_empty
      · next made => exact inWords_ofKeywords made
  · exact inWords_empty

theorem inWords_absorb (own : node.InWords) (lent : part.InWords)
    (merges : node.absorb part = .ok merged) : merged.InWords := by
  have either : ∀ mine theirs : Option Nat, (∀ n ∈ mine, n < UInt64.size) →
      (∀ n ∈ theirs, n < UInt64.size) → ∀ n ∈ mine <|> theirs, n < UInt64.size := by
    intro mine theirs first second n member
    cases mine with
    | some m => exact first n member
    | none => exact second n member
  rw [absorb_eq] at merges
  cases folded : (if part.isObjectLike then absorbObject node part else absorbOther node part) with
  | error c => rw [folded] at merges; cases merges
  | ok inner =>
    rw [folded] at merges
    cases merges
    have within : inner.InWords := by
      split at folded
      · unfold absorbObject at folded
        split at folded
        · split at folded
          · cases folded; exact own
          · cases folded
        · cases folded; exact own
      · unfold absorbOther at folded
        split at folded
        · cases folded
          exact ⟨either _ _ own.1 lent.1, either _ _ own.2 lent.2⟩
        · cases folded
    exact within

theorem inWords_dropObjectItems (own : node.InWords) : node.dropObjectItems.InWords := by
  unfold dropObjectItems
  split <;> exact own

end SchemaNode

namespace Resolver

variable {walk : Walk} {node : SchemaNode} {schema : Json} {role : Role}

theorem upholds_join {id : SchemaId} (own : node.InWords) :
    Upholds SchemaNode.InWords SchemaNode.InWords (join node id role) := by
  intro r uniform
  cases role with
  | part location =>
    have lent := SchemaArena.forall_node SchemaNode.inWords_empty uniform id
    rw [Yields, join_part]
    by_cases begun : id ∈ r.unfinished
    · rw [if_pos begun]
      exact uniform
    · rw [if_neg begun]
      cases merges : node.absorb (r.arena.node id) with
      | ok merged => exact ⟨SchemaNode.inWords_absorb own lent merges, uniform⟩
      | error construct => exact uniform
  | _ => exact ⟨own, uniform⟩

theorem upholds_take {step : Step} {location : String}
    (walks : ∀ value location, Upholds SchemaNode.InWords (fun _ => True) (walk value location))
    (member : step ∈ (schema.blueprint location).2) (own : node.InWords) :
    Upholds SchemaNode.InWords SchemaNode.InWords (take walk node step) := by
  cases step with
  | refuse error => exact upholds_throw error
  | settle => exact upholds_pure (SchemaNode.inWords_dropObjectItems own)
  | unite => exact upholds_pure own
  | child role child =>
    cases child with
    | walked value place => exact (walks value place).bind fun id _ => upholds_join own
    | fresh given =>
      have small : given.InWords := by
        rcases Json.blueprint_fresh member with ⟨-, rfl⟩ | ⟨-, _, _, type, -, -, rfl⟩
        · exact SchemaNode.inWords_empty
        · exact ⟨nofun, nofun⟩
      exact (upholds_alloc small).bind fun id _ => upholds_join own

theorem lasting_inWords : Lasting SchemaNode.InWords where
  blank := SchemaNode.inWords_empty
  text := ⟨nofun, nofun⟩
  named := fun _ _ own => own
  built := by
    intro walk schema location walks
    have steps : ∀ steps ⊆ (schema.blueprint location).2, ∀ node : SchemaNode, node.InWords →
        Upholds SchemaNode.InWords SchemaNode.InWords (steps.foldlM (take walk) node) := by
      intro steps
      induction steps with
      | nil => exact fun _ node own => upholds_pure own
      | cons step rest ih =>
        intro inside node own
        rw [List.foldlM_cons]
        exact (upholds_take walks (inside List.mem_cons_self) own).bind fun next given =>
          ih (fun s member => inside (List.mem_cons_of_mem _ member)) next given
    exact steps _ (fun _ member => member) _ (SchemaNode.inWords_blueprint location)

end Resolver

namespace Derivation

open Assertion

variable {arena : SchemaArena} {node : SchemaNode} {d : Draft} {place : Locator} {slot : List Nat}

/-- A draft whose assertions, written or to come, have positions and lengths that fit a word. -/
structure Draft.InWords (d : Draft) : Prop where
  out : AllInWords d.out
  queue : ∀ entry ∈ d.queue, entry.2.InWords
  deferred : ∀ entry ∈ d.deferred, entry.place.InWords

theorem allInWords_append {list more : List Assertion} :
    AllInWords (list ++ more) ↔ AllInWords list ∧ AllInWords more := by
  simp only [allInWords_iff, List.mem_append, or_imp, forall_and]

theorem inWords_key (inWords : place.InWords) (name : String) : (place.key name).InWords := by
  intro segment member
  rcases List.mem_append.mp member with old | new
  · exact inWords segment old
  · exact List.mem_singleton.mp new ▸ trivial

theorem inWords_first (inWords : place.InWords) : (place.index 0).InWords := by
  intro segment member
  rcases List.mem_append.mp member with old | new
  · exact inWords segment old
  · rw [List.mem_singleton.mp new]
    show 0 < UInt64.size
    decide

theorem Draft.InWords.emit (check : Check) (inWords : d.InWords) (at_place : place.InWords)
    (small : check.InWords) : (d.emit place check).InWords :=
  ⟨allInWords_append.mpr ⟨inWords.out, ⟨at_place, small⟩, trivial⟩, inWords.queue, inWords.deferred⟩

theorem Draft.InWords.emitIf (condition : Bool) (check : Check) (inWords : d.InWords)
    (at_place : place.InWords) (small : check.InWords) :
    (Draft.emitIf condition place check d).InWords := by
  unfold Draft.emitIf
  split
  · exact inWords.emit check at_place small
  · exact inWords

theorem Draft.InWords.emitTypes (inWords : d.InWords) (at_place : place.InWords)
    (types : Option (List JsonType)) : (d.emitTypes place types).InWords := by
  cases types with
  | none => exact inWords
  | some types => exact inWords.emit (.isType types) at_place trivial

theorem Draft.InWords.defer {inside : Locator} {schema : SchemaId} (inWords : d.InWords)
    (guard : Guard) (at_place : place.InWords) (within : inside.InWords) :
    (d.defer slot place guard schema inside).InWords where
  out := allInWords_append.mpr ⟨inWords.out, ⟨at_place, trivial⟩, trivial⟩
  queue := inWords.queue
  deferred := fun entry member => by
    rcases List.mem_append.mp member with old | new
    · exact inWords.deferred entry old
    · exact List.mem_singleton.mp new ▸ within

theorem Draft.InWords.property (inWords : d.InWords) (at_place : place.InWords)
    (entry : String × SchemaId) : (property node slot place d entry).InWords := by
  unfold Derivation.property
  dsimp only
  split
  · refine ⟨inWords.out, fun visit member => ?_, inWords.deferred⟩
    rcases List.mem_append.mp member with old | new
    · exact inWords.queue visit old
    · exact List.mem_singleton.mp new ▸ inWords_key at_place entry.1
  · exact inWords.defer _ at_place (inWords_key at_place entry.1)

theorem Draft.InWords.properties (inWords : d.InWords) (at_place : place.InWords)
    (entries : List (String × SchemaId)) :
    (entries.foldl (Derivation.property node slot place) d).InWords := by
  induction entries generalizing d with
  | nil => exact inWords
  | cons entry rest ih => exact ih (inWords.property at_place entry)

theorem Draft.InWords.typeChecks (inWords : d.InWords) (at_place : place.InWords)
    (lengths : node.InWords) (type : JsonType) (typed : Bool) :
    (typeChecks node type typed slot place d).InWords := by
  unfold Derivation.typeChecks
  split
  · exact inWords.emit (.matchesPattern uuidPattern) at_place trivial
  · have start := inWords.emitIf (!typed) (.isType [type]) at_place trivial
    have ranged := start.emitIf (node.minimum.isSome || node.maximum.isSome)
      (.numericRange node.minimum node.maximum node.exclusiveMinimum node.exclusiveMaximum)
      at_place trivial
    dsimp only
    split
    · have required := start.emitIf (!node.required.isEmpty) (.hasRequiredKeys node.required.names)
        at_place trivial
      exact required.properties at_place _
    · split
      · exact start.defer _ at_place (inWords_first at_place)
      · exact start
    · unfold Derivation.stringChecks
      dsimp only
      split
      · next pattern _ =>
        exact (start.emit (.matchesPattern pattern) at_place trivial).emitIf _ _ at_place lengths
      · exact start.emitIf _ _ at_place lengths
    · exact ranged
    · exact ranged
    · exact start
    · exact start

/-- Visits keep to words. -/
theorem inWords_visits (nodes : ∀ id, (arena.node id).InWords) (fuel : Nat) :
    (∀ id place typed slot d, place.InWords → d.InWords →
      (visit arena fuel id place typed slot d).InWords) ∧
    ∀ slot d, d.InWords → (drain arena fuel slot d).InWords := by
  induction fuel with
  | zero =>
    exact ⟨fun _ _ _ _ _ _ inWords => by rw [visit]; exact inWords,
      fun _ _ inWords => by rw [drain]; exact inWords⟩
  | succ fuel ih =>
    obtain ⟨visits, drains⟩ := ih
    constructor
    · intro id place typed slot d at_place inWords
      unfold visit
      dsimp only
      split
      · split
        · exact inWords
        · exact inWords.emitTypes at_place _
      · split
        · have typesDone := inWords.emitTypes at_place (arena.acceptedTypes? (arena.node id))
          have start : ({ d.emitTypes place (arena.acceptedTypes? (arena.node id)) with
              out := [], queue := [] } : Draft).InWords := ⟨trivial, nofun, typesDone.deferred⟩
          have body := drains
            (slot ++ [(d.emitTypes place (arena.acceptedTypes? (arena.node id))).out.length]) _
            (visits id place true
              (slot ++ [(d.emitTypes place (arena.acceptedTypes? (arena.node id))).out.length]) _
              at_place start)
          exact ⟨allInWords_append.mpr ⟨typesDone.out, ⟨at_place, body.out⟩, trivial⟩,
            typesDone.queue, body.deferred⟩
        · have marked : ({ d with visited := id :: d.visited } : Draft).InWords :=
            ⟨inWords.out, inWords.queue, inWords.deferred⟩
          split
          · next allowed _ => exact marked.emit (.enumMembership allowed) at_place trivial
          · split
            · exact marked.typeChecks at_place (nodes id) _ _
            · exact marked
            · split
              · exact visits _ _ _ _ _ at_place marked
              · split
                · exact marked
                · exact marked.emitTypes at_place _
    · intro slot d inWords
      unfold drain
      split
      · exact inWords
      · next entry place queue pending =>
        have at_place : place.InWords := inWords.queue (entry, place) (by simp [pending])
        exact drains _ _ (visits _ _ _ _ _ at_place
          ⟨inWords.out, fun e member => inWords.queue e (by simp [pending, member]),
            inWords.deferred⟩)

theorem inWords_installAt {body : List Assertion} {a : Assertion} (filling : AllInWords body)
    (onward : ∀ list, AllInWords list → AllInWords (install body slot list)) (inWords : a.InWords) :
    (installAt body slot a).InWords := by
  cases a with
  | check target c => cases slot <;> exact inWords
  | guarded target guard inner =>
    cases slot with
    | nil => exact ⟨inWords.1, filling⟩
    | cons index slot => exact ⟨inWords.1, onward inner inWords.2⟩

theorem inWords_install {body : List Assertion} (filling : AllInWords body) (list : List Assertion)
    (all : AllInWords list) : AllInWords (install body slot list) := by
  induction slot generalizing list with
  | nil => rw [install]; exact all
  | cons index slot ih =>
    rw [install_cons, allInWords_iff]
    intro a member
    obtain ⟨position, found⟩ := List.mem_iff_getElem?.mp member
    rw [List.getElem?_modify] at found
    obtain ⟨old, there, same⟩ := Option.map_eq_some_iff.mp found
    have inWords := allInWords_iff.mp all old (List.mem_of_getElem? there)
    split at same
    · exact same ▸ inWords_installAt filling ih inWords
    · exact same ▸ inWords

theorem inWords_settle {steps fuel : Nat} {list : List Assertion}
    (nodes : ∀ id, (arena.node id).InWords) (all : AllInWords list)
    (waiting : ∀ entry ∈ d.deferred, entry.place.InWords) :
    AllInWords (settle arena steps fuel list d) := by
  induction fuel generalizing list d with
  | zero => exact all
  | succ fuel ih =>
    unfold settle
    split
    · exact all
    · next next deferred pending =>
      have at_place : next.place.InWords := waiting next (by simp [pending])
      have inner : (expand arena steps next.schema next.place next.slot { d with deferred }).InWords :=
        (inWords_visits nodes steps).2 _ _ ⟨trivial,
          fun entry member => List.mem_singleton.mp member ▸ at_place,
          fun entry member => waiting entry (by simp [pending, member])⟩
      exact ih (inWords_install inner.out list all) inner.deferred

mutual
theorem inWords_prune : ∀ list : List Assertion, AllInWords list → AllInWords (prune list)
  | [], _ => by rw [prune]; trivial
  | a :: rest, all => by
    rw [prune, allInWords_append]
    exact ⟨inWords_pruneOne a all.1, inWords_prune rest all.2⟩
theorem inWords_pruneOne : ∀ a : Assertion, a.InWords → AllInWords (pruneOne a)
  | .check target c, inWords => ⟨inWords, trivial⟩
  | .guarded target guard inner, inWords => by
    have pruned := inWords_prune inner inWords.2
    rw [pruneOne]
    split
    · trivial
    · exact ⟨⟨inWords.1, pruned⟩, trivial⟩
end

theorem assertions_inWords (nodes : ∀ node ∈ arena.nodes, node.InWords) (root : SchemaId) :
    AllInWords (arena.assertions root) := by
  have every := SchemaArena.forall_node SchemaNode.inWords_empty nodes
  have start : Locator.root.InWords := nofun
  have first : (expand arena (budget arena) root .root [] {}).InWords :=
    (inWords_visits every _).2 _ _ ⟨trivial,
      fun entry member => List.mem_singleton.mp member ▸ start, nofun⟩
  exact inWords_prune _ (inWords_settle every first.out first.deferred)

end Derivation

end HttpPlan
