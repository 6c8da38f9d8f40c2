import HttpPlan.Proofs.Resolution.Translation
import HttpPlan.Proofs.Resolution.Walk

/-! Every walk of a schema of the document leaves a translation of it at the place that it comes to,
and an account of every reference that it met. -/
namespace HttpPlan.Resolver

variable {root value target whole : Json} {r s : Resolver} {walk : Walk} {own merged : SchemaNode}
  {id : SchemaId} {role : Role} {step : Step} {steps : List Step} {pointer next : String}
  {fuel : Nat}

/-- What holds of a step's result where it has one. -/
abbrev Leaves {α : Type} (x : Resolve α) (r : Resolver) (done : α → Resolver → Prop) : Prop :=
  Yields x r done fun _ _ => True

/-- A walk that moves the state on with an account of all that it met. -/
def Moved (root : Json) (r s : Resolver) : Prop := Advances root r s ∧ Recorded root s

/-- Walks of the parts of `whole`, from wherever a walk that began in `r` has come to. -/
def PartsTranslated (root whole : Json) (walk : Walk) (r : Resolver) : Prop :=
  ∀ part location s, part.Inside whole → Moved root r s →
    Leaves (walk part location) s fun id t => Moved root s t ∧ t.Translates part id

theorem Moved.trans {t : Resolver} (first : Moved root r s) (last : Moved root s t) :
    Moved root r t := ⟨first.1.trans last.1, last.2⟩

theorem Moved.refl (valid : r.Valid root) (recorded : Recorded root r) : Moved root r r :=
  ⟨.refl valid, recorded⟩

/-- Where a walk has come to, another can begin. -/
theorem Moved.here (moved : Moved root r s) : Moved root s s := .refl moved.1.valid moved.2

theorem moved_of_run {α : Type} {x : Resolve α} {a : α} {t : Resolver}
    (leaves : Leaves x r fun _ s => Moved root t s) (run : x r = .ok a s) : Moved root t s := by
  rwa [Leaves, Yields, run] at leaves

theorem join_ok {t : Resolver} (run : join own id role s = .ok merged t) :
    t = s ∧ Joined own id role merged := by
  cases role with
  | variant => cases run; exact ⟨rfl, .variant⟩
  | property name => cases run; exact ⟨rfl, .property name⟩
  | items => cases run; exact ⟨rfl, .items⟩
  | alternative => cases run; exact ⟨rfl, .alternative _⟩
  | part location =>
    refine ⟨?_, .part location merged⟩
    rw [join_part] at run
    by_cases begun : id ∈ s.unfinished
    · rw [if_pos begun] at run
      cases run
    · rw [if_neg begun] at run
      cases merges : own.absorb (s.arena.node id) with
      | ok merged => rw [merges] at run; cases run; rfl
      | error construct => rw [merges] at run; cases run

theorem leaves_place {child : Child} (of : (Step.child role child).Of whole) (valid : s.Valid root)
    (recorded : Recorded root s) (parts : PartsTranslated root whole walk s) :
    Leaves (place walk child) s fun id t => Moved root s t ∧ t.TranslatesChild id child := by
  cases of with
  | @fresh _ given childless =>
    refine ⟨⟨(Advances.refl valid).push (SchemaNode.below_of_childless childless _), recorded.push⟩,
      ?_, valid.fresh, SchemaArena.node_push_new⟩
    simp only [SchemaArena.size_push]
    exact Nat.lt_succ_self _
  | walked _ location inside => exact parts _ location s inside ⟨.refl valid, recorded⟩

theorem leaves_take (of : step.Of whole) (moved : Moved root r s)
    (parts : PartsTranslated root whole walk r) :
    Leaves (take walk own step) s fun merged t => Moved root s t ∧ Made t own [step] merged := by
  have here : Moved root s s := ⟨.refl moved.1.valid, moved.2⟩
  cases step with
  | refuse error => trivial
  | child role child =>
    have onward : PartsTranslated root whole walk s := fun part location t inside later =>
      parts part location t inside (moved.trans later)
    refine (leaves_place of moved.1.valid moved.2 onward).bind fun id t placed => ?_
    cases run : join own id role t with
    | error error u => rw [Yields, run]; trivial
    | ok merged u =>
      obtain ⟨same, joined⟩ := join_ok run
      rw [Yields, run, same]
      exact ⟨placed.1, placed.2.made joined⟩
  | settle => exact ⟨here, .settle (.done _)⟩
  | unite => exact ⟨here, .unite (.done _)⟩

theorem leaves_steps (of : ∀ step ∈ steps, step.Of whole) (moved : Moved root r s)
    (parts : PartsTranslated root whole walk r) :
    Leaves (steps.foldlM (take walk) own) s
      fun last t => Moved root s t ∧ Made t own steps last := by
  induction steps generalizing own s with
  | nil => exact ⟨⟨.refl moved.1.valid, moved.2⟩, .done _⟩
  | cons step rest ih =>
    rw [List.foldlM_cons]
    refine (leaves_take (of step (by simp)) moved parts).bind fun merged t first => ?_
    refine (ih (fun step member => of step (by simp [member])) (moved.trans first.1)).imp
      fun last u later => ?_
    exact ⟨first.1.trans later.1, (first.2.mono later.1.1.retains).append later.2⟩

theorem leaves_buildNode (location : String) (valid : r.Valid root) (recorded : Recorded root r)
    (parts : PartsTranslated root whole walk r) :
    Leaves (buildNode walk whole location) r fun node t =>
      Moved root r t ∧ Made t (whole.blueprint location).1 (whole.blueprint location).2 node :=
  leaves_steps (fun _ member => Json.blueprint_of member) ⟨.refl valid, recorded⟩ parts

/-- A walk of any part of the document that the rest of the budget suffices for. -/
def SchemasTranslated (root : Json) (fuel : Nat) : Prop :=
  ∀ value location r, value.Within root → r.Valid root → Recorded root r →
    r.allowance root value.depth + 2 ≤ fuel →
    Leaves (schema root fuel value location) r fun id t =>
      Moved root r t ∧ t.Translates value id

def ReferencesRecorded (root : Json) (fuel : Nat) : Prop :=
  ∀ pointer r, pointer ∈ root.references → r.Valid root → Recorded root r →
    r.allowance root 0 + 1 ≤ fuel →
    Leaves (reference root fuel pointer) r fun id t =>
      Moved root r t ∧ t.memo.get? pointer = some id

theorem SchemasTranslated.parts (schemas : SchemasTranslated root fuel)
    (within : value.Within root) (room : r.allowance root value.depth + 1 ≤ fuel) :
    PartsTranslated root value (schema root fuel) r := by
  intro part location s inside moved
  exact schemas part location s (within.part inside) moved.1.valid moved.2
    (allowance_part inside moved.1 room)

theorem leaves_schema (references : ReferencesRecorded root fuel)
    (schemas : SchemasTranslated root fuel) : SchemasTranslated root (fuel + 1) := by
  intro value location r within valid recorded room
  have walked := (walks root (fuel + 1)).1 value location r within valid room
  unfold schema at walked ⊢
  split
  · next pointer follows =>
    refine (references pointer r (within.references (Json.mem_references_of_reference? follows))
      valid recorded (allowance_referred room)).imp fun id t now => ⟨now.1, ?_⟩
    exact .of_reference follows now.2
  · next plain =>
    have built := leaves_buildNode location valid recorded
      (schemas.parts (r := r) within (by omega))
    have ready := yields_buildNode location valid
      ((walks root fuel).1.parts (r := r) within (by omega))
    refine (built.and ready).bind fun node t ⟨⟨moved, made⟩, ⟨advances, below⟩, _⟩ => ?_
    refine ⟨⟨moved.1.push below, moved.2.push⟩, ?_⟩
    have grown : Retains t (t.push node) := grows_push.retains fun _ _ member => member
    refine .of_made plain (made.mono grown) ⟨?_, moved.1.valid.fresh, SchemaArena.node_push_new⟩
    simp only [SchemaArena.size_push]
    exact Nat.lt_succ_self _

theorem leaves_alias (references : ReferencesRecorded root fuel) (valid : r.Valid root)
    (recorded : Recorded root r) (inside : pointer ∈ root.references)
    (absent : r.memo.get? pointer = none) (found : root.lookup pointer = .ok target)
    (follows : target.reference? = some next) (room : r.allowance root 0 + 1 ≤ fuel + 1)
    (idle : pointer ∉ r.aliases) :
    Leaves (following pointer (reference root fuel next)) r fun id t =>
      Moved root r (t.remembered pointer id) ∧
        (t.remembered pointer id).memo.get? pointer = some id := by
  have follows_inside := (Json.lookup_within found).references
    (Json.mem_references_of_reference? follows)
  have walked := references next (r.entered pointer) follows_inside
    (valid.entered ⟨target, next, found, follows⟩) recorded.entered
    (allowance_entered idle inside absent room)
  refine yields_following.mpr (walked.imp fun id t now => ?_)
  obtain ⟨⟨advances, known⟩, shared⟩ := now
  have unknown : t.left.memo.get? pointer = none :=
    advances.pending pointer (by simp [entered]) absent
  refine ⟨⟨advances.resolve absent found follows idle shared,
    known.left.remembered unknown found follows shared⟩, ?_⟩
  rw [get?_remembered unknown, if_pos rfl]

theorem leaves_definition (schemas : SchemasTranslated root fuel) (valid : r.Valid root)
    (recorded : Recorded root r) (inside : pointer ∈ root.references)
    (absent : r.memo.get? pointer = none) (found : root.lookup pointer = .ok target)
    (plain : target.reference? = none) (room : r.allowance root 0 + 1 ≤ fuel + 1) :
    Leaves (buildNode (schema root fuel) target pointer) (r.opened pointer) fun node t =>
      r.arena.size ∈ t.unfinished ∧
      Moved root r (t.closed r.arena.size (definitionNode pointer node)) ∧
        t.memo.get? pointer = some r.arena.size := by
  have within := Json.lookup_within found
  have idle := valid.not_followed found plain
  have left := allowance_opened idle inside absent found room
  have built := leaves_buildNode pointer (valid.opened absent found plain)
    (recorded.opened absent found plain) (schemas.parts within left)
  have ready := yields_buildNode pointer (valid.opened absent found plain)
    ((walks root fuel).1.parts within left)
  refine (built.and ready).imp fun node t ⟨⟨moved, made⟩, ⟨advances, below⟩, drawn⟩ => ?_
  have begun : r.arena.size ∈ t.unfinished := advances.unfinished ▸ List.mem_cons_self
  have known : t.memo.get? pointer = some r.arena.size :=
    advances.get? (by rw [get?_opened absent, if_pos rfl])
  exact ⟨begun, ⟨advances.finish valid absent found plain below drawn,
    moved.2.closed moved.1.valid (moved.1.valid.begun _ begun) begun known found plain made⟩, known⟩

theorem leaves_reference (references : ReferencesRecorded root fuel)
    (schemas : SchemasTranslated root fuel) : ReferencesRecorded root (fuel + 1) := by
  intro pointer r inside valid recorded room
  cases absent : r.memo.get? pointer with
  | some id =>
    rw [Leaves, Yields, reference_met absent]
    exact ⟨⟨.refl valid, recorded⟩, absent⟩
  | none =>
    cases found : root.lookup pointer with
    | error e =>
      rw [Leaves, Yields, reference_missing absent found]
      trivial
    | ok target =>
      cases follows : target.reference? with
      | none =>
        exact yields_of_run (reference_definition absent found follows)
          ((leaves_definition schemas valid recorded inside absent found follows room).bind
            fun node t now => now.2)
      | some next =>
        by_cases met : pointer ∈ r.aliases
        · rw [Leaves, Yields, reference_circular absent found follows met]
          trivial
        · exact yields_of_run (reference_alias absent found follows met)
            ((leaves_alias references valid recorded inside absent found follows room met).bind
              fun id t now => now)

theorem translations (root : Json) (fuel : Nat) :
    SchemasTranslated root fuel ∧ ReferencesRecorded root fuel := by
  induction fuel with
  | zero =>
    exact ⟨fun _ _ _ _ _ _ room => absurd room (by omega),
      fun _ _ _ _ _ room => absurd room (by omega)⟩
  | succ fuel ih => exact ⟨leaves_schema ih.2 ih.1, leaves_reference ih.2 ih.1⟩

end HttpPlan.Resolver
