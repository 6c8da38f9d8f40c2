import HttpPlan.Proofs.Resolution.Calls

/-! The log of a walk: each schema that it asks for the place of, as often as it does, with the
answer. A reference is answered with its place in the memo. An inline schema is answered with a
place of its own, which no reference and no other inline schema of the log has. -/
namespace HttpPlan.Resolver

variable {root value target : Json} {r s t : Resolver} {own next : SchemaNode} {id : SchemaId}
  {step : Step} {pointer other location : String} {fuel : Nat}

/-- Schemas and the places that they were answered with, in the order of the answers. -/
abbrev Log := List (Json × SchemaId)

/-- The answer to a schema, if there is one. -/
def answer (value : Json) (find : Resolve SchemaId) (r : Resolver) : Log :=
  match find r with
  | .ok id _ => [(value, id)]
  | .error _ _ => []

/-- What a run logs, and then what comes after it, if it does not fail. -/
def thenLog {α : Type} (run : Resolve α) (log : Resolver → Log) (later : α → Resolver → Log)
    (r : Resolver) : Log :=
  log r ++
    match run r with
    | .ok a s => later a s
    | .error _ _ => []

/-- What the steps of a fold log. -/
def foldLog {σ ι : Type} (step : σ → ι → Resolve σ) (log : ι → Resolver → Log) :
    σ → List ι → Resolver → Log
  | _, [] => fun _ => []
  | now, item :: rest => thenLog (step now item) (log item) fun next => foldLog step log next rest

/-- What a step of a blueprint logs, if walks of its children log `log`. -/
def stepLog (log : Json → String → Resolver → Log) : Step → Resolver → Log
  | .child _ (.walked value location), r => log value location r
  | _, _ => []

/-- What the building of a node logs. -/
def nodeLog (walk : Walk) (log : Json → String → Resolver → Log) (value : Json)
    (location : String) : Resolver → Log :=
  let (node, steps) := value.blueprint location
  foldLog (take walk) (stepLog log) node steps

mutual
/-- What the placing of a schema logs: whatever its parts do, and then itself. -/
def schemaLog (root : Json) : Nat → Json → String → Resolver → Log
  | 0, _, _, _ => []
  | fuel + 1, value, location, r =>
    (match value.reference? with
      | some pointer => referenceLog root fuel pointer r
      | none => nodeLog (schema root fuel) (schemaLog root fuel) value location r) ++
      answer value (schema root (fuel + 1) value location) r
/-- What the following of a reference logs: nothing if it was met before, and otherwise the
reference that it is an alias of, or the parts of its definition. -/
def referenceLog (root : Json) : Nat → String → Resolver → Log
  | 0, _, _ => []
  | fuel + 1, pointer, r =>
    match r.memo.get? pointer, root.lookup pointer with
    | none, .ok target =>
      match target.reference? with
      | some next =>
        referenceLog root fuel next (r.entered pointer) ++
          answer target (reference root fuel next) (r.entered pointer)
      | none => nodeLog (schema root fuel) (schemaLog root fuel) target pointer (r.opened pointer)
    | _, _ => []
end

def Errand.log (root : Json) (fuel : Nat) : Errand → Resolver → Log
  | place value location => schemaLog root fuel value location
  | follow pointer => referenceLog root fuel pointer
  | finish own steps => foldLog (take (schema root fuel)) (stepLog (schemaLog root fuel)) own steps

theorem answer_of_run {find : Resolve SchemaId} (run : find r = .ok id s) :
    answer value find r = [(value, id)] := by
  rw [answer, run]

theorem thenLog_of_run {α : Type} {x : Resolve α} {log : Resolver → Log}
    {later : α → Resolver → Log} {a : α} (run : x r = .ok a s) :
    thenLog x log later r = log r ++ later a s := by
  rw [thenLog, run]

theorem referenceLog_met (known : r.memo.get? pointer = some id) :
    referenceLog root (fuel + 1) pointer r = [] := by
  rw [referenceLog, known]

theorem referenceLog_alias (absent : r.memo.get? pointer = none)
    (found : root.lookup pointer = .ok target) (follows : target.reference? = some other) :
    referenceLog root (fuel + 1) pointer r =
      referenceLog root fuel other (r.entered pointer) ++
        answer target (reference root fuel other) (r.entered pointer) := by
  rw [referenceLog, absent, found]
  simp only [follows]

theorem referenceLog_definition (absent : r.memo.get? pointer = none)
    (found : root.lookup pointer = .ok target) (plain : target.reference? = none) :
    referenceLog root (fuel + 1) pointer r =
      nodeLog (schema root fuel) (schemaLog root fuel) target pointer (r.opened pointer) := by
  rw [referenceLog, absent, found]
  simp only [plain]

/-- Whatever an errand asks for is in its log. -/
theorem Asks.mem_log {errand : Errand} (asks : Asks root fuel errand r value id) :
    (value, id) ∈ errand.log root fuel r := by
  induction asks with
  | @here fuel value location r s id run =>
    cases fuel with
    | zero => cases run
    | succ fuel =>
      show _ ∈ schemaLog root (fuel + 1) value location r
      rw [schemaLog, answer_of_run run]
      exact List.mem_append_right _ List.mem_cons_self
  | @through fuel whole value location pointer r id follows asks ih =>
    show _ ∈ schemaLog root (fuel + 1) whole location r
    rw [schemaLog, follows]
    exact List.mem_append_left _ ih
  | @inside fuel whole value location r id plain asks ih =>
    show _ ∈ schemaLog root (fuel + 1) whole location r
    rw [schemaLog, plain]
    exact List.mem_append_left _ ih
  | @chain fuel target value pointer other r id absent found follows asks ih =>
    show _ ∈ referenceLog root (fuel + 1) pointer r
    rw [referenceLog_alias absent found follows]
    exact List.mem_append_left _ ih
  | @definition fuel target value pointer r id absent found plain asks ih =>
    show _ ∈ referenceLog root (fuel + 1) pointer r
    rw [referenceLog_definition absent found plain]
    exact ih
  | @child fuel part value location own role rest r id asks ih =>
    exact List.mem_append_left _ ih
  | @later fuel value own next step rest r s id run asks ih =>
    show _ ∈ foldLog _ _ own (step :: rest) r
    rw [foldLog, thenLog_of_run run]
    exact List.mem_append_right _ ih

/-- What a log says of the state that it comes to, from the state that it started from. -/
structure Logged (r s : Resolver) (log : Log) : Prop where
  size : r.arena.size ≤ s.arena.size
  kept : ∀ pointer id, r.memo.get? pointer = some id → s.memo.get? pointer = some id
  /-- A reference is not given a place of before that no reference had. -/
  fresh : ∀ pointer id, s.memo.get? pointer = some id →
    r.arena.size ≤ id ∨ ∃ other, r.memo.get? other = some id
  referred : ∀ value id pointer, (value, id) ∈ log → value.reference? = some pointer →
    s.memo.get? pointer = some id
  inline : ∀ value id, (value, id) ∈ log → value.reference? = none →
    r.arena.size ≤ id ∧ id < s.arena.size ∧ ∀ pointer, s.memo.get? pointer ≠ some id
  apart : log.Pairwise fun a b =>
    a.1.reference? = none → b.1.reference? = none → a.2 ≠ b.2

namespace Logged

theorem quiet (size : r.arena.size ≤ s.arena.size) (same : s.memo = r.memo) : Logged r s [] where
  size := size
  kept := fun _ _ known => same ▸ known
  fresh := fun pointer _ known => .inr ⟨pointer, same ▸ known⟩
  referred := fun _ _ _ member => nomatch member
  inline := fun _ _ member => nomatch member
  apart := .nil

theorem refl (r : Resolver) : Logged r r [] := quiet (Nat.le_refl _) rfl

theorem trans {before after : Log} (first : Logged r s before) (last : Logged s t after) :
    Logged r t (before ++ after) where
  size := Nat.le_trans first.size last.size
  kept := fun pointer id known => last.kept pointer id (first.kept pointer id known)
  fresh := fun pointer id known => by
    rcases last.fresh pointer id known with new | ⟨other, old⟩
    · exact .inl (Nat.le_trans first.size new)
    · exact first.fresh other id old
  referred := fun value id pointer member follows => by
    rcases List.mem_append.mp member with member | member
    · exact last.kept pointer id (first.referred value id pointer member follows)
    · exact last.referred value id pointer member follows
  inline := fun value id member plain => by
    rcases List.mem_append.mp member with member | member
    · obtain ⟨new, inside, unmet⟩ := first.inline value id member plain
      refine ⟨new, Nat.lt_of_lt_of_le inside last.size, fun pointer known => ?_⟩
      -- The later run may meet references, but gives them new places or places that others had.
      rcases last.fresh pointer id known with late | ⟨other, old⟩
      · exact absurd inside (Nat.not_lt.mpr late)
      · exact unmet other old
    · obtain ⟨new, rest⟩ := last.inline value id member plain
      exact ⟨Nat.le_trans first.size new, rest⟩
  apart := by
    refine List.pairwise_append.mpr ⟨first.apart, last.apart, fun a early b late => ?_⟩
    intro plain also
    have below := (first.inline a.1 a.2 early plain).2.1
    have above := (last.inline b.1 b.2 late also).1
    exact Nat.ne_of_lt (Nat.lt_of_lt_of_le below above)

theorem before {log : Log} (first : Logged r s []) (last : Logged s t log) : Logged r t log :=
  first.trans last

theorem after {log : Log} (first : Logged r s log) (last : Logged s t []) : Logged r t log := by
  simpa using first.trans last

end Logged

theorem logged_push : Logged r (r.push own) [] :=
  .quiet (by simp only [push, SchemaArena.size_push]; omega) rfl

theorem logged_closed : Logged r (r.closed id own) [] :=
  .quiet (by simp only [closed, SchemaArena.size_set]; exact Nat.le_refl _) rfl

theorem logged_entered : Logged r (r.entered pointer) [] := .quiet (Nat.le_refl _) rfl

theorem logged_left : Logged r r.left [] := .quiet (Nat.le_refl _) rfl

theorem logged_opened (absent : r.memo.get? pointer = none) : Logged r (r.opened pointer) [] where
  size := (grows_opened absent).size_le
  kept := fun _ _ => (grows_opened absent).get?
  fresh := fun other id known => by
    rw [get?_opened absent] at known
    split at known
    · cases known; exact .inl (Nat.le_refl _)
    · exact .inr ⟨other, known⟩
  referred := fun _ _ _ member => nomatch member
  inline := fun _ _ member => nomatch member
  apart := .nil

theorem logged_remembered (absent : r.memo.get? pointer = none)
    (shared : r.memo.get? other = some id) : Logged r (r.remembered pointer id) [] where
  size := (grows_remembered absent).size_le
  kept := fun _ _ => (grows_remembered absent).get?
  fresh := fun last place known => by
    rw [get?_remembered absent] at known
    split at known
    · cases known; exact .inr ⟨other, shared⟩
    · exact .inr ⟨last, known⟩
  referred := fun _ _ _ member => nomatch member
  inline := fun _ _ member => nomatch member
  apart := .nil

/-- A reference that is in the memo. -/
theorem logged_reference (follows : value.reference? = some pointer)
    (known : r.memo.get? pointer = some id) : Logged r r [(value, id)] :=
  { Logged.refl r with
    referred := fun _ _ _ member also => by
      cases List.mem_singleton.mp member
      cases follows.symm.trans also
      exact known
    inline := fun _ _ member plain => by
      cases List.mem_singleton.mp member
      cases follows.symm.trans plain
    apart := List.pairwise_singleton _ _ }

/-- An inline schema that takes the next place. -/
theorem logged_inline (valid : r.Valid root) (plain : value.reference? = none) :
    Logged r (r.push own) [(value, r.arena.size)] :=
  { logged_push with
    referred := fun _ _ _ member follows => by
      cases List.mem_singleton.mp member
      cases plain.symm.trans follows
    inline := fun _ _ member _ => by
      cases List.mem_singleton.mp member
      refine ⟨Nat.le_refl _, ?_, fun pointer known => ?_⟩
      · simp only [push, SchemaArena.size_push]; exact Nat.lt_succ_self _
      · exact Nat.lt_irrefl _ (valid.placed pointer _ known)
    apart := List.pairwise_singleton _ _ }

/-- A run from a valid state logs what the state that it comes to bears out. -/
def Errand.Logs (root : Json) (fuel : Nat) (errand : Errand) : Prop :=
  ∀ r s, errand.Fits root fuel r → r.Valid root → Recorded root r → errand.Ends root fuel r s →
    Logged r s (errand.log root fuel r)

open Errand

theorem logs_step (places : ∀ value location, Errand.Logs root fuel (.place value location))
    {rest : List Step} (fits : (finish own (step :: rest)).Fits root fuel r)
    (valid : r.Valid root) (recorded : Recorded root r)
    (taken : take (schema root fuel) own step r = .ok next t) :
    Logged r t (stepLog (schemaLog root fuel) step r) := by
  cases step with
  | refuse error => cases taken
  | settle => cases taken; exact .refl r
  | unite => cases taken; exact .refl r
  | child role child =>
    obtain ⟨id, u, placed, joins⟩ := run_bind taken
    obtain ⟨rfl, -⟩ := join_ok joins
    cases child with
    | fresh node => cases placed; exact logged_push
    | walked part location =>
      exact places part location r t (Fits.child fits valid) valid recorded ⟨id, placed⟩

theorem logs_finish (places : ∀ value location, Errand.Logs root fuel (.place value location))
    (steps : List Step) (own : SchemaNode) : (finish own steps).Logs root fuel := by
  induction steps generalizing own with
  | nil =>
    intro r s _ _ _ ⟨last, run⟩
    cases run
    exact .refl r
  | cons step rest ih =>
    intro r s fits valid recorded ends
    obtain ⟨next, t, taken, onward⟩ := ends.later
    have moved := (ends_single taken).moved (Fits.first fits) valid recorded
    have first := logs_step places fits valid recorded taken
    have later := ih next t s (Fits.later fits moved.1) moved.1.valid moved.2 onward
    show Logged r s (foldLog _ _ own (step :: rest) r)
    rw [foldLog, thenLog_of_run taken]
    exact first.trans later

theorem logs_place (follows : ∀ pointer, (follow pointer).Logs root fuel)
    (finishes : ∀ own steps, (finish own steps).Logs root fuel) :
    Errand.Logs root (fuel + 1) (.place value location) := by
  intro r s fits valid recorded ends
  show Logged r s (schemaLog root (fuel + 1) value location r)
  obtain ⟨id, run⟩ := ends
  rw [schemaLog, answer_of_run run]
  cases reference : value.reference? with
  | some pointer =>
    have inside := fits.1.references (Json.mem_references_of_reference? reference)
    have followed := follows pointer r s ⟨inside, allowance_referred fits.2⟩ valid recorded
      (Ends.through ⟨id, run⟩ reference)
    have translates :=
      (yields_ok run ((translations root _).1 _ _ _ fits.1 valid recorded fits.2)).2
    unfold Translates at translates
    rw [reference] at translates
    exact followed.trans (logged_reference reference translates)
  | none =>
    obtain ⟨node, t, made, rfl, rfl⟩ := run_inline reference run
    have built : (build value location).Ends root fuel r t := ⟨node, made⟩
    have suits : (build value location).Fits root fuel r :=
      fits_build fits.1 (by have room := fits.2; omega)
    have moved := built.moved suits valid recorded
    exact (finishes _ _ r t suits valid recorded built).trans
      (logged_inline moved.1.valid reference)

theorem logs_follow (follows : ∀ pointer, (follow pointer).Logs root fuel)
    (finishes : ∀ own steps, (finish own steps).Logs root fuel) :
    (follow pointer).Logs root (fuel + 1) := by
  intro r s fits valid recorded ends
  show Logged r s (referenceLog root (fuel + 1) pointer r)
  cases absent : r.memo.get? pointer with
  | some id =>
    obtain ⟨_, run⟩ := ends
    rw [reference_met absent] at run
    cases run
    rw [referenceLog_met absent]
    exact .refl r
  | none =>
    cases found : root.lookup pointer with
    | error e =>
      obtain ⟨_, run⟩ := ends
      rw [reference_missing absent found] at run
      cases run
    | ok target =>
      cases reference : target.reference? with
      | none =>
        obtain ⟨node, t, built, rfl⟩ := ends.definition absent found reference
        have idle := valid.not_followed found reference
        have suits : (build target pointer).Fits root fuel (r.opened pointer) :=
          fits_build (Json.lookup_within found) (allowance_opened idle fits.1 absent found fits.2)
        rw [referenceLog_definition absent found reference]
        have inner := finishes _ _ (r.opened pointer) t suits (valid.opened absent found reference)
          (recorded.opened absent found reference) built
        exact ((logged_opened absent).before inner).after logged_closed
      | some next =>
        obtain ⟨id, run⟩ := ends
        obtain ⟨idle, t, followed, rfl⟩ := run_alias absent found reference run
        have inside := (Json.lookup_within found).references
          (Json.mem_references_of_reference? reference)
        have suits : (follow next).Fits root fuel (r.entered pointer) :=
          ⟨inside, allowance_entered idle fits.1 absent fits.2⟩
        have entered := valid.entered ⟨target, next, found, reference⟩
        have inner := follows next _ t suits entered recorded.entered ⟨id, followed⟩
        obtain ⟨moved, shared⟩ := yields_ok followed
          ((translations root fuel).2 next _ suits.1 entered recorded.entered suits.2)
        have unknown : t.left.memo.get? pointer = none :=
          moved.1.pending pointer List.mem_cons_self absent
        rw [referenceLog_alias absent found reference, answer_of_run followed]
        have met := logged_entered.before (inner.trans (logged_reference reference shared))
        exact (met.after logged_left).after (logged_remembered unknown shared)

/-- Every walk that comes to its end logs what its last state bears out. -/
theorem logs (root : Json) (fuel : Nat) :
    (∀ value location, Errand.Logs root fuel (.place value location)) ∧
      ∀ pointer, (follow pointer).Logs root fuel := by
  -- The depth counts places and references alike, so both are carried through one induction; the
  -- steps of a node run at one depth, and are an induction of their own.
  induction fuel with
  | zero =>
    exact ⟨fun _ _ _ _ _ _ _ ⟨_, run⟩ => (nomatch run), fun _ _ _ _ _ _ ⟨_, run⟩ => (nomatch run)⟩
  | succ fuel ih =>
    have finishes : ∀ own steps, (finish own steps).Logs root fuel :=
      fun own steps => logs_finish ih.1 steps own
    exact ⟨fun _ _ => logs_place ih.2 finishes, fun _ => logs_follow ih.2 finishes⟩

end HttpPlan.Resolver
