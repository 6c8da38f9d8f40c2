import HttpPlan.Proofs.Resolution.Circular
import HttpPlan.Proofs.Spec.Identity
import Mathlib.Logic.Relation

/-! When a reference is reported as a circular alias. A chain of aliases that never comes to a
definition always is. So is an alias that is met again below the definition at the end of its own
chain, as long as it is still being followed: met after its definition was begun without it, the
same alias resolves. -/
namespace HttpPlan

open Relation (ReflTransGen TransGen)

namespace Resolver

variable {root target value : Json} {r s t : Resolver} {pointer next last named other : String}
  {id : SchemaId} {fuel : Nat}

/-- One step along a chain of aliases. -/
def Hops (root : Json) (pointer next : String) : Prop :=
  ∃ target, root.lookup pointer = .ok target ∧ target.reference? = some next

theorem Hops.unique (hops : Hops root pointer next) (also : Hops root pointer other) :
    next = other := by
  obtain ⟨target, found, follows⟩ := hops
  obtain ⟨_, found', follows'⟩ := also
  cases found.symm.trans found'
  exact Option.some.inj (follows.symm.trans follows')

theorem not_hops (definition : IsDefinition root pointer) : ¬ Hops root pointer next := by
  rintro ⟨target, found, follows⟩
  obtain ⟨_, found', plain⟩ := definition
  cases found.symm.trans found'
  cases plain.symm.trans follows

/-- The chain of an alias that comes to a definition does not come back. -/
theorem acyclic_of_ends (ends : root.EndsAt pointer last) :
    ¬ TransGen (Hops root) pointer pointer := by
  induction ends with
  | definition definition =>
    intro loop
    obtain ⟨next, hops, -⟩ := TransGen.head'_iff.mp loop
    exact not_hops definition hops
  | chain found follows _ ih =>
    intro loop
    obtain ⟨next, hops, back⟩ := TransGen.head'_iff.mp loop
    cases hops.unique ⟨_, found, follows⟩
    exact ih (TransGen.tail' back hops)

theorem Grounded.ends (grounded : Grounded root pointer) :
    ∃ last target, root.EndsAt pointer last ∧ root.lookup last = .ok target ∧
      target.reference? = none := by
  induction grounded with
  | definition definition =>
    obtain ⟨target, found, plain⟩ := id definition
    exact ⟨_, target, .definition definition, found, plain⟩
  | chain found follows _ ih =>
    obtain ⟨last, target, ends, definition⟩ := ih
    exact ⟨last, target, .chain found follows ends, definition⟩

theorem grounded_of_hops (hops : ReflTransGen (Hops root) pointer named)
    (grounded : Grounded root named) : Grounded root pointer := by
  induction hops using ReflTransGen.head_induction_on with
  | refl => exact grounded
  | head step _ ih =>
    obtain ⟨target, found, follows⟩ := step
    exact .chain found follows ih

/-- Where the chain of an alias that comes back to itself ends, the definition comes back to it. -/
theorem comesBack_of_ends (ends : root.EndsAt pointer last) (loops : root.LoopsBack named)
    (back : ∃ target, root.lookup pointer = .ok target ∧ root.WalksTo target named) :
    ∃ target, root.lookup last = .ok target ∧ root.WalksTo target named := by
  induction ends with
  | definition => exact back
  | chain found follows _ ih =>
    obtain ⟨target, found', walks⟩ := back
    cases found.symm.trans found'
    cases walks with
    -- The alias itself is next on the chain: it starts again from what it points at.
    | here follows' =>
      cases follows.symm.trans follows'
      exact ih loops
    | through follows' onward walks =>
      cases follows.symm.trans follows'
      exact ih ⟨_, onward, walks⟩
    | child plain => cases follows.symm.trans plain

/-- What an alias in the memo points at is in the memo, with the same place. -/
theorem Valid.onward (valid : r.Valid root) (known : r.memo.get? pointer = some id)
    (hops : ReflTransGen (Hops root) pointer named) : r.memo.get? named = some id := by
  induction hops with
  | refl => exact known
  | tail _ step ih =>
    obtain ⟨target, found, follows⟩ := step
    cases valid.explained _ _ ih with
    | chain found' follows' shared =>
      cases found.symm.trans found'
      cases follows.symm.trans follows'
      exact shared
    | definition found' plain =>
      cases found.symm.trans found'
      cases follows.symm.trans plain

/-- An alias on the way from a reference that is being followed and not resolved. -/
structure Pending (root : Json) (r : Resolver) (pointer named : String) : Prop where
  hops : ReflTransGen (Hops root) pointer named
  followed : named ∈ r.aliases
  unmet : r.memo.get? named = none

theorem Valid.not_pending (valid : r.Valid root) (known : r.memo.get? pointer = some id) :
    ¬ Pending root r pointer named := fun pending => by
  cases (valid.onward known pending.hops).symm.trans pending.unmet

theorem pending_entered (hops : Hops root pointer next)
    (acyclic : ¬ TransGen (Hops root) pointer pointer) :
    Pending root (r.entered pointer) next named → Pending root r pointer named := by
  rintro ⟨onward, followed, unmet⟩
  refine ⟨.head hops onward, ?_, unmet⟩
  rcases List.mem_cons.mp followed with rfl | followed
  · exact absurd (TransGen.head' hops onward) acyclic
  · exact followed

theorem not_pending_entered (idle : pointer ∉ r.aliases) (hops : Hops root pointer next)
    (free : ∀ named, ¬ Pending root (r.entered pointer) next named) :
    ¬ Pending root r pointer named := by
  rintro ⟨onward, followed, unmet⟩
  rcases ReflTransGen.cases_head onward with rfl | ⟨other, step, rest⟩
  · exact idle followed
  · cases step.unique hops
    exact free named ⟨rest, List.mem_cons_of_mem _ followed, unmet⟩

/-- An alias comes to what the reference that it points at comes to. -/
theorem yields_hop {done : SchemaId → Prop} {failed : BuildError → Prop}
    (absent : s.memo.get? pointer = none) (found : root.lookup pointer = .ok target)
    (follows : target.reference? = some next) (idle : pointer ∉ s.aliases)
    (onward : Yields (reference root fuel next) (s.entered pointer) (fun id _ => done id)
      fun error _ => failed error) :
    Yields (reference root (fuel + 1) pointer) s (fun id _ => done id)
      fun error _ => failed error :=
  yields_of_run (reference_alias absent found follows idle)
    ((yields_following.mpr onward).bind fun _ _ comes => comes)

/-- An alias of a definition that has its place comes to this place, unless its chain meets an alias
that is still being followed. -/
theorem yields_hops (ends : root.EndsAt pointer last) (valid : s.Valid root)
    (taken : s.memo.get? last = some id) :
    Yields (reference root fuel pointer) s
      (fun place _ => place = id ∧ ∀ named, ¬ Pending root s pointer named)
      (fun error _ => error.CutOff ∨ ∃ named, Pending root s pointer named ∧
        error = .unsupportedConstruct named .circularAlias) := by
  induction ends generalizing fuel s with
  | definition definition =>
    cases fuel with
    | zero => exact .inl trivial
    | succ fuel =>
      rw [Yields, reference_met taken]
      exact ⟨rfl, fun _ => valid.not_pending taken⟩
  | @chain pointer next last target found follows onward ih =>
    cases fuel with
    | zero => exact .inl trivial
    | succ fuel =>
      have hops : Hops root pointer next := ⟨target, found, follows⟩
      cases absent : s.memo.get? pointer with
      | some place =>
        rw [Yields, reference_met absent]
        obtain ⟨other, ends, -, known⟩ := valid.ends absent
        cases ends.unique (.chain found follows onward)
        exact ⟨Option.some.inj (known.symm.trans taken), fun _ => valid.not_pending absent⟩
      | none =>
        by_cases met : pointer ∈ s.aliases
        · rw [Yields, reference_circular absent found follows met]
          exact .inr ⟨pointer, ⟨.refl, met, absent⟩, rfl⟩
        -- The alias is put on the stack, but the rest of the chain does not come back to it.
        · have acyclic := acyclic_of_ends (.chain found follows onward)
          refine yields_hop absent found follows met
            ((ih (valid.entered ⟨target, next, found, follows⟩) taken).mono ?_ ?_)
          · rintro place t ⟨same, free⟩
            exact ⟨same, fun _ => not_pending_entered met hops free⟩
          · rintro error t (cut | ⟨named, pending, same⟩)
            · exact .inl cut
            · exact .inr ⟨named, pending_entered hops acyclic pending, same⟩

/-- A chain of aliases inside the document that comes to no definition is followed until it comes
back to an alias that is still being followed. -/
theorem yields_endless (valid : s.Valid root) (endless : ¬ Grounded root pointer)
    (inside : ∀ named, ReflTransGen (Hops root) pointer named →
      ∃ target, root.lookup named = .ok target) :
    Yields (reference root fuel pointer) s (fun _ _ => False)
      (fun error _ => error.CutOff ∨ ∃ named, ReflTransGen (Hops root) pointer named ∧
        error = .unsupportedConstruct named .circularAlias) := by
  induction fuel generalizing pointer s with
  | zero => exact .inl trivial
  | succ fuel ih =>
    have absent : s.memo.get? pointer = none := by
      cases known : s.memo.get? pointer with
      | none => rfl
      | some id => exact absurd (valid.grounded pointer id known) endless
    obtain ⟨target, found⟩ := inside pointer .refl
    cases follows : target.reference? with
    | none => exact absurd (.definition ⟨target, found, follows⟩) endless
    | some next =>
      by_cases met : pointer ∈ s.aliases
      · rw [Yields, reference_circular absent found follows met]
        exact .inr ⟨pointer, .refl, rfl⟩
      · have hops : Hops root pointer next := ⟨target, found, follows⟩
        have onward := ih (valid.entered ⟨target, next, found, follows⟩)
          (fun grounded => endless (.chain found follows grounded))
          (fun named rest => inside named (.head hops rest))
        refine yields_hop absent found follows met (onward.mono (fun _ _ never => never) ?_)
        rintro error t (cut | ⟨named, rest, same⟩)
        · exact .inl cut
        · exact .inr ⟨named, .head hops rest, same⟩

theorem allowance_lt_budget (within : value.Within root) (r : Resolver) :
    r.allowance root value.depth + 3 ≤ budget root := by
  have most : r.untried root ≤ root.references.length := List.countP_le_length
  have room : r.untried root * (root.depth + 2) ≤ root.references.length * (root.depth + 2) :=
    Nat.mul_le_mul_right _ most
  have shallow := within.depth
  simp only [allowance, budget, Nat.succ_mul]
  omega

/-- The budget is enough for what an alias points at. -/
theorem yields_next (valid : s.Valid root) (enough : budget root ≤ fuel + 2)
    (found : root.lookup pointer = .ok target) (follows : target.reference? = some next) :
    Yields (reference root fuel next) (s.entered pointer) (Resolved root (s.entered pointer) next)
      (Stranded root (s.entered pointer)) := by
  have inside := (Json.lookup_within found).references (Json.mem_references_of_reference? follows)
  have room := allowance_lt_budget (Json.Within.refl root) (s.entered pointer)
  refine (walks root fuel).2 next _ inside (valid.entered ⟨target, next, found, follows⟩) ?_
  simp only [allowance] at room ⊢
  omega

/-- The budget of a document is enough for every reference, also for one that the document itself
does not contain. -/
theorem reference_uncut (pointer : String) (valid : s.Valid root)
    (enough : budget root ≤ fuel + 1) :
    Yields (reference root fuel pointer) s (fun _ _ => True) (fun error _ => ¬ error.CutOff) := by
  obtain ⟨steps, rfl⟩ : ∃ steps, fuel = steps + 1 := by
    refine ⟨fuel - 1, ?_⟩
    have := allowance_lt_budget (Json.Within.refl root) s
    omega
  cases absent : s.memo.get? pointer with
  | some id =>
    rw [Yields, reference_met absent]
    trivial
  | none =>
    cases found : root.lookup pointer with
    | error error =>
      rw [Yields, reference_missing absent found]
      exact Json.lookup_error found
    | ok target =>
      have within := Json.lookup_within found
      cases follows : target.reference? with
      | none =>
        have room := allowance_lt_budget within (s.opened pointer)
        have built := yields_buildNode pointer (valid.opened absent found follows)
          ((walks root steps).1.parts within (by omega))
        exact yields_of_run (reference_definition absent found follows)
          ((built.mono (fun _ _ _ => trivial) fun _ _ stranded => stranded.2).bind
            fun _ _ done => done)
      | some next =>
        by_cases met : pointer ∈ s.aliases
        · rw [Yields, reference_circular absent found follows met]
          exact fun cut => cut
        · have walked := yields_next valid enough found follows
          exact yields_hop absent found follows met
            (walked.mono (fun _ _ _ => trivial) fun _ _ stranded => stranded.2)

/-- Nothing resolves an alias below itself: if its definition were walked to the end, all that the
definition comes to would be resolved, and the alias is not. -/
theorem Complete.not_resolves (complete : Complete root r) (enough : budget root ≤ fuel + 1)
    (follows : IsAlias root pointer) (absent : r.memo.get? pointer = none)
    (loops : root.LoopsBack pointer) : reference root fuel pointer r ≠ .ok id s := by
  intro run
  cases fuel with
  | zero => cases run
  | succ fuel =>
    obtain ⟨target, next, found, follows⟩ := follows
    obtain ⟨-, t, walked, -⟩ := run_alias absent found follows run
    have onward := yields_next complete.valid enough found follows
    obtain ⟨⟨advances, -⟩, known⟩ := yields_ok walked onward
    have unmet : t.memo.get? pointer = none := advances.pending pointer List.mem_cons_self absent
    have finished : Complete root t :=
      ⟨advances.valid, advances.unfinished.trans complete.finished⟩
    obtain ⟨outline, told⟩ := finished.known ⟨id, known⟩
    have tells : Tells t target pointer outline := by
      rw [Tells, follows]
      exact told
    obtain ⟨_, same, back⟩ := loops
    cases found.symm.trans same
    obtain ⟨place, met⟩ := finished.meets back tells
    cases met.symm.trans unmet

/-- Between two operations, a reference is reported as a circular alias only if it leads back to
itself: its chain of aliases comes to no definition, or it does and the definition comes back to the
alias through its properties, items and parts. Such an alias is never resolved when it is asked for
first, and a chain that comes to no definition is always reported. At every moment of a walk, an
alias resolves to the place that its definition has, unless its chain meets an alias that is still
being followed. -/
theorem circular_aliases (complete : Complete root r) (idle : r.aliases = [])
    (enough : budget root ≤ fuel + 1) :
    (∀ pointer named s,
      reference root fuel pointer r = .error (.unsupportedConstruct named .circularAlias) s →
        IsAlias root named ∧ r.memo.get? named = none ∧ root.FollowsTo pointer named ∧
        root.LoopsBack named ∧
        (¬ Grounded root named ∨ ∃ last target, root.EndsAt named last ∧
          root.lookup last = .ok target ∧ target.reference? = none ∧ root.WalksTo target named)) ∧
    (∀ pointer id s, IsAlias root pointer → r.memo.get? pointer = none → root.LoopsBack pointer →
      reference root fuel pointer r ≠ .ok id s) ∧
    (∀ pointer, ¬ Grounded root pointer →
      (∀ other, ReflTransGen (Hops root) pointer other → ∃ target, root.lookup other = .ok target) →
      ∃ named s, ReflTransGen (Hops root) pointer named ∧ ¬ Grounded root named ∧
        reference root fuel pointer r = .error (.unsupportedConstruct named .circularAlias) s) ∧
    (∀ s pointer last id, s.Valid root → root.EndsAt pointer last → s.memo.get? last = some id →
      ((∀ named, ¬ Pending root s pointer named) ∧ ∃ t, reference root fuel pointer s = .ok id t) ∨
      ∃ named t, Pending root s pointer named ∧
        reference root fuel pointer s = .error (.unsupportedConstruct named .circularAlias) t) := by
  refine ⟨fun pointer named s fails => ?_, fun pointer id s follows absent loops =>
    complete.not_resolves enough follows absent loops, fun pointer endless inside => ?_,
    fun s pointer last id valid ends taken => ?_⟩
  · have reported := yields_error fails ((tracks root fuel).2 pointer r) named rfl
    have loops : root.LoopsBack named := reported.back.resolve_left (by simp [idle])
    refine ⟨reported.follows, reported.unmet, reported.led, loops, ?_⟩
    by_cases grounded : Grounded root named
    · obtain ⟨last, target, ends, found, plain⟩ := grounded.ends
      obtain ⟨_, same, back⟩ := comesBack_of_ends ends loops loops
      cases found.symm.trans same
      exact .inr ⟨last, target, ends, found, plain, back⟩
    · exact .inl grounded
  · have walked : Yields (reference root fuel pointer) r _ _ :=
      yields_endless complete.valid endless inside
    have uncut := reference_uncut pointer complete.valid enough
    cases run : reference root fuel pointer r with
    | ok id s => exact (yields_ok run walked).elim
    | error error s =>
      obtain ⟨named, hops, rfl⟩ := (yields_error run walked).resolve_left (yields_error run uncut)
      exact ⟨named, s, hops, fun grounded => endless (grounded_of_hops hops grounded), rfl⟩
  · have walked : Yields (reference root fuel pointer) s _ _ := yields_hops ends valid taken
    have uncut := reference_uncut pointer valid enough
    cases run : reference root fuel pointer s with
    | ok place t =>
      obtain ⟨rfl, free⟩ := yields_ok run walked
      exact .inl ⟨free, t, rfl⟩
    | error error t =>
      obtain ⟨named, pending, rfl⟩ :=
        (yields_error run walked).resolve_left (yields_error run uncut)
      exact .inr ⟨named, t, pending, rfl⟩

end Resolver

namespace Building

open Resolver

/-- Two aliases that point at each other, and one of a definition that refers back to it, beside a
definition that an operation has. -/
def tangledDocument : Json := .object [
  ("paths", .object [("/name", .object [("get", respondingWith (referenceTo "Name"))])]),
  ("components", .object [("schemas", .object [
    ("Left", referenceTo "Right"),
    ("Right", referenceTo "Left"),
    ("Alias", referenceTo "Node"),
    ("Node", .object [("type", .string "object"),
      ("properties", .object [("next", referenceTo "Alias")])]),
    ("Name", .object [("type", .string "string")])])])]

def schemaPointer (name : String) : String := "#/components/schemas/" ++ name

/-- What has been read when the one operation of the document has been. -/
def afterName : Progress := allPaths (.ofJson tangledDocument)

theorem node_walksTo :
    ∃ node, tangledDocument.lookup (schemaPointer "Node") = .ok node ∧
      node.reference? = none ∧ tangledDocument.WalksTo node (schemaPointer "Alias") :=
  ⟨_, rfl, rfl, .child rfl (List.mem_singleton.mpr rfl) (.here rfl)⟩

theorem alias_ends : tangledDocument.EndsAt (schemaPointer "Alias") (schemaPointer "Node") :=
  .chain rfl rfl (.definition ⟨_, rfl, rfl⟩)

theorem alias_grounded : Grounded tangledDocument (schemaPointer "Alias") :=
  .chain rfl rfl (.definition ⟨_, rfl, rfl⟩)

theorem left_endless : ¬ Grounded tangledDocument (schemaPointer "Left") := by
  have apart : ∀ pointer, Grounded tangledDocument pointer →
      pointer ≠ schemaPointer "Left" ∧ pointer ≠ schemaPointer "Right" := by
    intro pointer grounded
    induction grounded with
    | definition definition =>
      constructor <;> rintro rfl <;> exact not_hops definition ⟨_, rfl, rfl⟩
    | @chain pointer next target found follows _ ih =>
      have hops : Hops tangledDocument pointer next := ⟨target, found, follows⟩
      constructor <;> rintro rfl
      · exact ih.2 (hops.unique ⟨_, rfl, rfl⟩)
      · exact ih.1 (hops.unique ⟨_, rfl, rfl⟩)
  exact fun grounded => (apart _ grounded).1 rfl

theorem left_inside {other : String}
    (hops : ReflTransGen (Hops tangledDocument) (schemaPointer "Left") other) :
    ∃ target, tangledDocument.lookup other = .ok target := by
  have here : other = schemaPointer "Left" ∨ other = schemaPointer "Right" := by
    induction hops with
    | refl => exact .inl rfl
    | tail _ step ih =>
      rcases ih with rfl | rfl
      · exact .inr (step.unique ⟨_, rfl, rfl⟩)
      · exact .inl (step.unique ⟨_, rfl, rfl⟩)
  rcases here with rfl | rfl
  · exact ⟨_, rfl⟩
  · exact ⟨_, rfl⟩

/-- The alias is reported as circular while the definition at the end of its chain has its place. -/
theorem definition_taken_for_loop :
    Settled (.ofJson tangledDocument) afterName ∧ Grounded tangledDocument (schemaPointer "Alias") ∧
    ∃ s, reference tangledDocument (budget tangledDocument) (schemaPointer "Alias")
        afterName.resolver =
          .error (.unsupportedConstruct (schemaPointer "Alias") .circularAlias) s ∧
      s.memo.get? (schemaPointer "Node") = some 1 ∧ s.unfinished = [1] :=
  ⟨settled_allPaths _, alias_grounded, _, rfl, rfl, rfl⟩

theorem circular_aliases_tangled :
    Complete tangledDocument afterName.resolver ∧ afterName.resolver.aliases = [] ∧
    (∃ last target, tangledDocument.EndsAt (schemaPointer "Alias") last ∧
      tangledDocument.lookup last = .ok target ∧ target.reference? = none ∧
      tangledDocument.WalksTo target (schemaPointer "Alias")) ∧
    (∀ id s, reference tangledDocument (budget tangledDocument) (schemaPointer "Alias")
      afterName.resolver ≠ .ok id s) ∧
    (∃ named s, ¬ Grounded tangledDocument named ∧
      reference tangledDocument (budget tangledDocument) (schemaPointer "Left")
        afterName.resolver = .error (.unsupportedConstruct named .circularAlias) s) ∧
    ∃ t, reference tangledDocument (budget tangledDocument) (schemaPointer "Alias")
      (afterName.resolver.opened (schemaPointer "Node")) = .ok 1 t := by
  have settled := settled_allPaths (.ofJson tangledDocument)
  have complete : Complete tangledDocument afterName.resolver := ⟨settled.valid, settled.finished⟩
  have idle : afterName.resolver.aliases = [] := settled.idle
  obtain ⟨reports, never, endless, below⟩ := circular_aliases complete idle (Nat.le_succ _)
  obtain ⟨node, found, plain, walks⟩ := node_walksTo
  obtain ⟨-, -, -, -, loops⟩ := reports (schemaPointer "Alias") (schemaPointer "Alias") _ rfl
  refine ⟨complete, idle, loops.resolve_left (fun endless => endless alias_grounded), ?_, ?_, ?_⟩
  · intro id s
    exact never _ _ _ ⟨_, _, rfl, rfl⟩ rfl ⟨_, rfl, .through rfl found walks⟩
  · obtain ⟨named, s, -, endless, fails⟩ := endless _ left_endless fun _ => left_inside
    exact ⟨named, s, endless, fails⟩
  · have absent : afterName.resolver.memo.get? (schemaPointer "Node") = none := rfl
    rcases below _ _ _ 1 (complete.valid.opened absent found plain) alias_ends rfl with
      ⟨-, resolves⟩ | ⟨named, t, pending, -⟩
    · exact resolves
    · cases pending.followed

end Building

end HttpPlan
