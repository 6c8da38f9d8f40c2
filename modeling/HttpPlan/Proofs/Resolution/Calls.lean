import HttpPlan.Proofs.Resolution.Recording

/-! The schemas whose places a walk asks for on its way. Whatever it asks for, and whenever it does,
once the walk has come to its end the answer is the place of a translation. -/
namespace HttpPlan.Resolver

variable {root value whole target part : Json} {r s t : Resolver} {own next : SchemaNode}
  {id : SchemaId} {role : Role} {step : Step} {rest : List Step} {pointer other location : String}
  {fuel : Nat}

/-- What a walk can be at: placing a schema, following a reference, or the rest of a node. -/
inductive Errand where
  | place (value : Json) (location : String)
  | follow (pointer : String)
  | finish (own : SchemaNode) (steps : List Step)

namespace Errand

/-- The node of a schema, from its beginning. -/
def build (value : Json) (location : String) : Errand :=
  finish (value.blueprint location).1 (value.blueprint location).2

/-- A errand that begins in `r` and comes to its end in `s`. -/
def Ends (root : Json) (fuel : Nat) (r s : Resolver) : Errand → Prop
  | place value location => ∃ id, schema root fuel value location r = .ok id s
  | follow pointer => ∃ id, reference root fuel pointer r = .ok id s
  | finish own steps => ∃ last, steps.foldlM (take (schema root fuel)) own r = .ok last s

/-- A errand on a part of the document that the rest of the budget suffices for. -/
def Fits (root : Json) (fuel : Nat) (r : Resolver) : Errand → Prop
  | place value _ => value.Within root ∧ r.allowance root value.depth + 2 ≤ fuel
  | follow pointer => pointer ∈ root.references ∧ r.allowance root 0 + 1 ≤ fuel
  | finish _ steps => ∃ whole : Json, whole.Within root ∧ (∀ step ∈ steps, step.Of whole) ∧
      r.allowance root whole.depth + 1 ≤ fuel

end Errand

/-- In the course of a errand, the place of a schema is asked for, and `id` is the answer. -/
inductive Asks (root : Json) : Nat → Errand → Resolver → Json → SchemaId → Prop
  | here {fuel : Nat} {value : Json} {location : String} {r s : Resolver} {id : SchemaId}
      (run : schema root fuel value location r = .ok id s) :
      Asks root fuel (.place value location) r value id
  | through {fuel : Nat} {whole value : Json} {location pointer : String} {r : Resolver}
      {id : SchemaId} (follows : whole.reference? = some pointer)
      (asks : Asks root fuel (.follow pointer) r value id) :
      Asks root (fuel + 1) (.place whole location) r value id
  | inside {fuel : Nat} {whole value : Json} {location : String} {r : Resolver} {id : SchemaId}
      (plain : whole.reference? = none) (asks : Asks root fuel (.build whole location) r value id) :
      Asks root (fuel + 1) (.place whole location) r value id
  | chain {fuel : Nat} {target value : Json} {pointer other : String} {r : Resolver} {id : SchemaId}
      (absent : r.memo.get? pointer = none) (found : root.lookup pointer = .ok target)
      (follows : target.reference? = some other)
      (asks : Asks root fuel (.follow other) (r.entered pointer) value id) :
      Asks root (fuel + 1) (.follow pointer) r value id
  | definition {fuel : Nat} {target value : Json} {pointer : String} {r : Resolver}
      {id : SchemaId} (absent : r.memo.get? pointer = none)
      (found : root.lookup pointer = .ok target) (plain : target.reference? = none)
      (asks : Asks root fuel (.build target pointer) (r.opened pointer) value id) :
      Asks root (fuel + 1) (.follow pointer) r value id
  | child {fuel : Nat} {part value : Json} {location : String} {own : SchemaNode} {role : Role}
      {rest : List Step} {r : Resolver} {id : SchemaId}
      (asks : Asks root fuel (.place part location) r value id) :
      Asks root fuel (.finish own (.child role (.walked part location) :: rest)) r value id
  | later {fuel : Nat} {value : Json} {own next : SchemaNode} {step : Step} {rest : List Step}
      {r s : Resolver} {id : SchemaId} (run : take (schema root fuel) own step r = .ok next s)
      (asks : Asks root fuel (.finish next rest) s value id) :
      Asks root fuel (.finish own (step :: rest)) r value id

theorem run_bind {α β : Type} {x : Resolve α} {f : α → Resolve β} {b : β}
    (run : (x >>= f) r = .ok b s) : ∃ a t, x r = .ok a t ∧ f a t = .ok b s := by
  cases first : x r with
  | error e t => simp only [bind, EStateM.bind, first] at run; cases run
  | ok a t =>
    simp only [bind, EStateM.bind, first] at run
    exact ⟨a, t, rfl, run⟩

/-- An inline schema takes the place after those of its parts. -/
theorem run_inline (plain : value.reference? = none)
    (run : schema root (fuel + 1) value location r = .ok id s) :
    ∃ node t, buildNode (schema root fuel) value location r = .ok node t ∧ s = t.push node ∧
      id = t.arena.size := by
  unfold schema at run
  rw [plain] at run
  obtain ⟨node, t, built, placed⟩ := run_bind run
  cases placed
  exact ⟨node, t, built, rfl, rfl⟩

/-- An alias shares the place of the reference that it is. -/
theorem run_alias (absent : r.memo.get? pointer = none) (found : root.lookup pointer = .ok target)
    (follows : target.reference? = some other)
    (run : reference root (fuel + 1) pointer r = .ok id s) :
    pointer ∉ r.aliases ∧ ∃ t, reference root fuel other (r.entered pointer) = .ok id t ∧
      s = t.left.remembered pointer id := by
  by_cases met : pointer ∈ r.aliases
  · rw [reference_circular absent found follows met] at run
    cases run
  · rw [reference_alias absent found follows met] at run
    obtain ⟨id, t, followed, noted⟩ := run_bind run
    rw [following_eq] at followed
    cases inner : reference root fuel other (r.entered pointer) with
    | error e u => rw [inner] at followed; cases followed
    | ok a u =>
      rw [inner] at followed
      cases followed
      cases noted
      exact ⟨met, u, rfl, rfl⟩

namespace Errand

theorem Ends.through (ends : (place whole location).Ends root (fuel + 1) r s)
    (follows : whole.reference? = some pointer) : (follow pointer).Ends root fuel r s := by
  obtain ⟨id, run⟩ := ends
  unfold schema at run
  rw [follows] at run
  exact ⟨id, run⟩

theorem Ends.inside (ends : (place whole location).Ends root (fuel + 1) r s)
    (plain : whole.reference? = none) :
    ∃ node t, (build whole location).Ends root fuel r t ∧ s = t.push node := by
  obtain ⟨id, run⟩ := ends
  obtain ⟨node, t, built, same, -⟩ := run_inline plain run
  exact ⟨node, t, ⟨node, built⟩, same⟩

theorem Ends.chain (ends : (follow pointer).Ends root (fuel + 1) r s)
    (absent : r.memo.get? pointer = none) (found : root.lookup pointer = .ok target)
    (follows : target.reference? = some other) :
    pointer ∉ r.aliases ∧ ∃ id t, (follow other).Ends root fuel (r.entered pointer) t ∧
      s = t.left.remembered pointer id := by
  obtain ⟨id, run⟩ := ends
  obtain ⟨idle, t, followed, same⟩ := run_alias absent found follows run
  exact ⟨idle, id, t, ⟨id, followed⟩, same⟩

theorem Ends.definition (ends : (follow pointer).Ends root (fuel + 1) r s)
    (absent : r.memo.get? pointer = none) (found : root.lookup pointer = .ok target)
    (plain : target.reference? = none) :
    ∃ node t, (build target pointer).Ends root fuel (r.opened pointer) t ∧
      s = t.closed r.arena.size node := by
  obtain ⟨id, run⟩ := ends
  rw [reference_definition absent found plain] at run
  obtain ⟨node, t, built, filled⟩ := run_bind run
  cases filled
  exact ⟨_, t, ⟨node, built⟩, rfl⟩

theorem Ends.later (ends : (finish own (step :: rest)).Ends root fuel r s) :
    ∃ next t, take (schema root fuel) own step r = .ok next t ∧
      (finish next rest).Ends root fuel t s := by
  obtain ⟨last, run⟩ := ends
  rw [List.foldlM_cons] at run
  obtain ⟨next, t, taken, onward⟩ := run_bind run
  exact ⟨next, t, taken, last, onward⟩

theorem ends_single (run : take (schema root fuel) own step r = .ok next s) :
    (finish own [step]).Ends root fuel r s := by
  refine ⟨next, ?_⟩
  rw [List.foldlM_cons]
  simp only [bind, EStateM.bind, run]
  rfl

theorem Ends.child
    (ends : (finish own (.child role (.walked part location) :: rest)).Ends root fuel r s) :
    ∃ next t, (place part location).Ends root fuel r t ∧ (finish next rest).Ends root fuel t s := by
  obtain ⟨next, t, taken, onward⟩ := ends.later
  obtain ⟨id, u, placed, joins⟩ := run_bind taken
  obtain ⟨rfl, -⟩ := join_ok joins
  exact ⟨next, t, ⟨id, placed⟩, onward⟩

theorem fits_build (within : whole.Within root)
    (room : r.allowance root whole.depth + 1 ≤ fuel) : (build whole location).Fits root fuel r :=
  ⟨whole, within, fun _ member => Json.blueprint_of member, room⟩

/-- An errand that comes to its end moves the state on, with an account of all that it met. -/
theorem Ends.moved {errand : Errand} (ends : errand.Ends root fuel r s)
    (fits : errand.Fits root fuel r)
    (valid : r.Valid root) (recorded : Recorded root r) : Moved root r s := by
  obtain ⟨schemas, references⟩ := translations root fuel
  cases errand with
  | place value location =>
    obtain ⟨id, run⟩ := ends
    exact (yields_ok run (schemas value location r fits.1 valid recorded fits.2)).1
  | follow pointer =>
    obtain ⟨id, run⟩ := ends
    exact (yields_ok run (references pointer r fits.1 valid recorded fits.2)).1
  | finish own steps =>
    obtain ⟨last, run⟩ := ends
    obtain ⟨whole, within, of, room⟩ := fits
    have parts : PartsTranslated root whole (schema root fuel) r := schemas.parts within room
    exact (yields_ok run (leaves_steps of ⟨.refl valid, recorded⟩ parts)).1

/-- What is left of a node still fits after one of its steps. -/
theorem Fits.later (fits : (finish own (step :: rest)).Fits root fuel r)
    (advances : Advances root r s) : (finish next rest).Fits root fuel s := by
  obtain ⟨whole, within, of, room⟩ := fits
  refine ⟨whole, within, fun other member => of other (List.mem_cons_of_mem _ member), ?_⟩
  have less := advances.allowance_le whole.depth
  omega

theorem Fits.child
    (fits : (finish own (.child role (.walked part location) :: rest)).Fits root fuel r)
    (valid : r.Valid root) : (place part location).Fits root fuel r := by
  obtain ⟨whole, within, of, room⟩ := fits
  cases of _ List.mem_cons_self with
  | walked _ _ inside => exact ⟨within.part inside, allowance_part inside (.refl valid) room⟩

theorem Fits.first (fits : (finish own (step :: rest)).Fits root fuel r) :
    (finish own [step]).Fits root fuel r := by
  obtain ⟨whole, within, of, room⟩ := fits
  exact ⟨whole, within, fun other member =>
    of other (List.mem_singleton.mp member ▸ List.mem_cons_self), room⟩

end Errand

open Errand in
/-- The answer to whatever a errand asks for is the place of a translation when the errand ends. -/
theorem Asks.translates {errand : Errand} (asks : Asks root fuel errand r value id)
    (fits : errand.Fits root fuel r) (valid : r.Valid root) (recorded : Recorded root r)
    (ends : errand.Ends root fuel r s) : s.Translates value id := by
  induction asks generalizing s with
  | here run =>
    obtain ⟨_, again⟩ := ends
    cases run.symm.trans again
    exact (yields_ok run ((translations root _).1 _ _ _ fits.1 valid recorded fits.2)).2
  | through follows _ ih =>
    have inside := fits.1.references (Json.mem_references_of_reference? follows)
    exact ih ⟨inside, allowance_referred fits.2⟩ valid recorded (ends.through follows)
  | inside plain _ ih =>
    obtain ⟨node, t, built, rfl⟩ := ends.inside plain
    have room := fits.2
    refine (ih (fits_build fits.1 (by omega)) valid recorded built).mono ?_
    exact grows_push.retains fun _ _ member => member
  | @chain fuel target value pointer other r id absent found follows _ ih =>
    obtain ⟨idle, place, t, followed, rfl⟩ := ends.chain absent found follows
    have inside := (Json.lookup_within found).references (Json.mem_references_of_reference? follows)
    have suits : (follow other).Fits root fuel (r.entered pointer) :=
      ⟨inside, allowance_entered idle fits.1 absent fits.2⟩
    have entered := valid.entered ⟨target, other, found, follows⟩
    have moved := followed.moved suits entered recorded.entered
    have unknown : t.left.memo.get? pointer = none :=
      moved.1.pending pointer List.mem_cons_self absent
    have left : Retains t t.left := grows_left.retains fun _ _ member => member
    refine (ih suits entered recorded.entered followed).mono (left.trans ?_)
    exact (grows_remembered unknown).retains fun _ _ member => member
  | @definition fuel target value pointer r id absent found plain _ ih =>
    obtain ⟨node, t, built, rfl⟩ := ends.definition absent found plain
    have idle := valid.not_followed found plain
    have opened := valid.opened absent found plain
    have noted := recorded.opened absent found plain
    have suits : (build target pointer).Fits root fuel (r.opened pointer) :=
      fits_build (Json.lookup_within found) (allowance_opened idle fits.1 absent found fits.2)
    have advances := (built.moved suits opened noted).1
    refine (ih suits opened noted built).mono (retains_closed ?_)
    exact advances.unfinished ▸ List.mem_cons_self
  | child _ ih =>
    obtain ⟨next, t, placed, onward⟩ := ends.child
    have suits := Fits.child fits valid
    have first := placed.moved suits valid recorded
    have last := onward.moved (Fits.later fits first.1) first.1.valid first.2
    exact (ih suits valid recorded placed).mono last.1.retains
  | later run _ ih =>
    obtain ⟨next, t, again, onward⟩ := ends.later
    cases run.symm.trans again
    have first := (ends_single run).moved (Fits.first fits) valid recorded
    exact ih (Fits.later fits first.1) first.1.valid first.2 onward

end HttpPlan.Resolver
