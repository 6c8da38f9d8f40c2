import HttpPlan.Proofs.Resolution.State
import HttpPlan.Proofs.Schema.Blueprint
import HttpPlan.Proofs.Schema.Merge

/-! Building one node, step by step: what holds of the walks of its parts holds of the whole. -/
namespace HttpPlan.Resolver

variable {root whole : Json} {r s : Resolver} {walk : Walk} {node : SchemaNode} {id : SchemaId}

/-- What a walk comes to: a place in the arena, or a failure that leaves the state to roll back. -/
def Placed (root : Json) (r : Resolver) (id : SchemaId) (r' : Resolver) : Prop :=
  Advances root r r' ∧ id < r'.arena.size

/-- A node that is ready to be put into the arena. -/
def Ready (root : Json) (r : Resolver) (node : SchemaNode) (r' : Resolver) : Prop :=
  Advances root r r' ∧ node.Below r'.arena.size

/-- A walk that failed on account of the document. -/
def Stranded (root : Json) (r : Resolver) (error : BuildError) (r' : Resolver) : Prop :=
  Falls root r r' ∧ ¬ error.CutOff

theorem Advances.stranded {error : BuildError} {t : Resolver} (advances : Advances root r s)
    (stranded : Stranded root s error t) : Stranded root r error t :=
  ⟨advances.falls stranded.1, stranded.2⟩

/-- What fails after an advance fails before it. -/
theorem Advances.yields {α : Type} {x : Resolve α} {done : α → Resolver → Prop}
    (advances : Advances root r s) (yields : Yields x s done (Stranded root s)) :
    Yields x s done (Stranded root r) :=
  yields.mono (fun _ _ now => now) fun _ _ => advances.stranded

theorem Advances.stops {error : BuildError} (advances : Advances root r s)
    (own : ¬ error.CutOff) : Stranded root r error s :=
  ⟨⟨advances.toGrows, advances.valid⟩, own⟩

/-- Walks of the parts of `whole`, from wherever a walk that began in `r` has come to. -/
def PartsPlaced (root whole : Json) (walk : Walk) (r : Resolver) : Prop :=
  ∀ part location s, part.Inside whole → Advances root r s →
    Yields (walk part location) s (fun id t => Placed root s id t ∧ Shown t part location id)
      (Stranded root s)

theorem PartsPlaced.later (parts : PartsPlaced root whole walk r) (advances : Advances root r s) :
    PartsPlaced root whole walk s :=
  fun part location t inside onward => parts part location t inside (advances.trans onward)

theorem Placed.push (advances : Advances root r s) (below : node.Below s.arena.size) :
    Placed root r s.arena.size (s.push node) :=
  ⟨advances.push below, by
    simp only [Resolver.push, SchemaArena.size_push]; exact Nat.lt_succ_self _⟩

theorem join_part (location : String) :
    join node id (.part location) s =
      if id ∈ s.unfinished then .error (.unsupportedConstruct location .selfReferentialPart) s
      else
        match node.absorb (s.arena.node id) with
        | .ok merged => .ok merged s
        | .error construct => .error (.unsupportedConstruct location construct) s := by
  show (if id ∈ s.unfinished then throw (.unsupportedConstruct location .selfReferentialPart)
    else _ : Resolve SchemaNode) s = _
  rw [apply_ite (fun step : Resolve SchemaNode => step s)]
  cases node.absorb (s.arena.node id) <;> rfl

/-- Giving a child its role comes to the outline that the outlines of both tell, or fails because
the child is no complete part or does not fit. -/
theorem join_cases (node : SchemaNode) (id : SchemaId) (role : Role) (s : Resolver) :
    (∃ merged, join node id role s = .ok merged s ∧
      node.outline.join (s.arena.node id).outline role = .ok merged.outline ∧
      (role.IsPart → id ∉ s.unfinished)) ∨
    (∃ location, role = .part location ∧ id ∈ s.unfinished ∧
      join node id role s = .error (.unsupportedConstruct location .selfReferentialPart) s) ∨
    (∃ location construct, role = .part location ∧ id ∉ s.unfinished ∧
      node.outline.join (s.arena.node id).outline role = .error construct ∧
      join node id role s = .error (.unsupportedConstruct location construct) s) := by
  cases role with
  | variant => exact Or.inl ⟨_, rfl, rfl, fun part => part.elim⟩
  | items => exact Or.inl ⟨_, rfl, rfl, fun part => part.elim⟩
  | alternative => exact Or.inl ⟨_, rfl, rfl, fun part => part.elim⟩
  | property name =>
    refine Or.inl ⟨_, rfl, ?_, fun part => part.elim⟩
    simp only [Outline.join, SchemaNode.outline, OrderedMap.isEmpty_insert]
  | part location =>
    have merging := SchemaNode.outline_absorb node (s.arena.node id)
    by_cases begun : id ∈ s.unfinished
    · refine Or.inr (Or.inl ⟨location, rfl, begun, ?_⟩)
      rw [join_part, if_pos begun]
    · rw [join_part, if_neg begun]
      cases merges : node.absorb (s.arena.node id) with
      | ok merged =>
        rw [merges] at merging
        exact Or.inl ⟨merged, rfl, merging.symm, fun _ => begun⟩
      | error construct =>
        rw [merges] at merging
        exact Or.inr (Or.inr ⟨location, construct, rfl, begun, merging.symm, rfl⟩)

/-- Giving a child its role leaves the state alone. -/
theorem yields_join {role : Role} (valid : s.Valid root) (below : node.Below s.arena.size)
    (inside : id < s.arena.size) :
    Yields (join node id role) s (fun merged t => t = s ∧ merged.Below s.arena.size)
      (fun error t => t = s ∧ ¬ error.CutOff) := by
  have appended : ({ node with variants := node.variants ++ [id] } : SchemaNode).Below s.arena.size := by
    intro child member
    rcases SchemaNode.mem_children.mp member with member | member | member
    · exact below child (SchemaNode.mem_children.mpr (Or.inl member))
    · exact below child (SchemaNode.mem_children.mpr (Or.inr (Or.inl member)))
    · rcases List.mem_append.mp member with member | member
      · exact below child (SchemaNode.mem_children.mpr (Or.inr (Or.inr member)))
      · exact List.mem_singleton.mp member ▸ inside
  cases role with
  | variant => exact ⟨rfl, appended⟩
  | alternative => exact ⟨rfl, appended⟩
  | property name =>
    refine ⟨rfl, fun child member => ?_⟩
    rcases SchemaNode.mem_children.mp member with member | member
    · rcases OrderedMap.values_insert member with old | rfl
      · exact below child (SchemaNode.mem_children.mpr (Or.inl old))
      · exact inside
    · exact below child (SchemaNode.mem_children.mpr (Or.inr member))
  | items =>
    refine ⟨rfl, fun child member => ?_⟩
    rcases SchemaNode.mem_children.mp member with member | member | member
    · exact below child (SchemaNode.mem_children.mpr (Or.inl member))
    · exact Option.some.inj member ▸ inside
    · exact below child (SchemaNode.mem_children.mpr (Or.inr (Or.inr member)))
  | part location =>
    rw [Yields, join_part]
    by_cases begun : id ∈ s.unfinished
    · rw [if_pos begun]
      exact ⟨rfl, fun cut => cut⟩
    · rw [if_neg begun]
      cases merges : node.absorb (s.arena.node id) with
      | ok merged => exact ⟨rfl, SchemaNode.absorb_below below (valid.closed.below_node id) merges⟩
      | error construct =>
        refine ⟨rfl, ?_⟩
        rcases SchemaNode.absorb_error merges with rfl | rfl
        · exact fun cut => cut
        · exact fun cut => cut

/-- The place of a child: that of its own schema, or one for a node that is given. -/
def ShownChild (r : Resolver) (id : SchemaId) : Child → Prop
  | .fresh node => id ∉ r.unfinished ∧ (r.arena.node id).outline = node.outline
  | .walked value location => Shown r value location id

theorem yields_place {child : Child} {role : Role} (of : (Step.child role child).Of whole)
    (valid : s.Valid root) (parts : PartsPlaced root whole walk s) :
    Yields (place walk child) s (fun id t => Placed root s id t ∧ ShownChild t id child)
      (Stranded root s) := by
  cases of with
  | fresh _ childless =>
    refine ⟨Placed.push (.refl valid) (SchemaNode.below_of_childless childless _), valid.fresh, ?_⟩
    exact congrArg SchemaNode.outline SchemaArena.node_push_new
  | walked _ location inside => exact parts _ location s inside (.refl valid)

/-- A child that was placed and given its role is a step of the outline. -/
theorem ShownChild.builds {child : Child} {role : Role} {next : Outline}
    (shown : ShownChild s id child) (part : role.IsPart → id ∉ s.unfinished)
    (joins : node.outline.join (s.arena.node id).outline role = .ok next) :
    Builds s node.outline [.child role child] next := by
  cases child with
  | fresh given => exact .fresh (shown.2 ▸ joins) (.done _)
  | walked value location =>
    have place : Shown s value location id := shown
    unfold Shown at place
    split at place
    · next pointer follows =>
      exact .referred follows ⟨id, place⟩ (fun inherits => ⟨id, place, part inherits, rfl⟩) joins
        (.done _)
    · next plain => exact .inline plain place.2 joins (.done _)

theorem yields_take {step : Step} (of : step.Of whole) (parts : PartsPlaced root whole walk r)
    (ready : Ready root r node s) :
    Yields (take walk node step) s
      (fun merged t => Ready root r merged t ∧ Advances root s t ∧
        Builds t node.outline [step] merged.outline)
      (Stranded root r) := by
  obtain ⟨advances, below⟩ := ready
  cases step with
  | refuse error =>
    cases of with
    | refuse own => exact advances.stops own
  | child role child =>
    have placing := yields_place of advances.valid (parts.later advances)
    apply (advances.yields placing).bind
    intro id t ⟨⟨onward, inside⟩, shown⟩
    have joining : Yields (join node id role) t
        (fun merged u => u = t ∧ merged.Below t.arena.size) (fun e u => u = t ∧ ¬ e.CutOff) :=
      yields_join onward.valid (below.mono onward.size_le) inside
    rcases join_cases node id role t with ⟨merged, run, joins, part⟩ | ⟨_, _, _, run⟩ |
        ⟨_, _, _, _, _, run⟩
    · rw [Yields, run] at joining ⊢
      exact ⟨⟨advances.trans onward, joining.2⟩, onward, shown.builds part joins⟩
    · rw [Yields, run] at joining ⊢
      exact (advances.trans onward).stops joining.2
    · rw [Yields, run] at joining ⊢
      exact (advances.trans onward).stops joining.2
  | settle =>
    refine ⟨⟨advances, SchemaNode.dropObjectItems_below below⟩, .refl advances.valid, ?_⟩
    rw [SchemaNode.outline_dropObjectItems]
    exact .settle (.done _)
  | unite =>
    exact ⟨⟨advances, SchemaNode.asUnion_below below⟩, .refl advances.valid, .unite (.done _)⟩

/-- The steps of a blueprint come to a node whose outline they draw. -/
theorem yields_steps {steps : List Step} (of : ∀ step ∈ steps, step.Of whole)
    (parts : PartsPlaced root whole walk r) (ready : Ready root r node s) :
    Yields (steps.foldlM (take walk) node) s
      (fun last u => Ready root r last u ∧ Advances root s u ∧
        Builds u node.outline steps last.outline)
      (Stranded root r) := by
  induction steps generalizing node s with
  | nil => exact ⟨ready, .refl ready.1.valid, .done _⟩
  | cons step rest ih =>
    rw [List.foldlM_cons]
    refine (yields_take (of step (by simp)) parts ready).bind fun merged t ⟨now, onward, first⟩ => ?_
    apply (ih (fun step member => of step (by simp [member])) now).imp
    rintro last u ⟨done, later, builds⟩
    have kept : Builds u node.outline [step] merged.outline := first.mono (later.keeps now.1.valid)
    exact ⟨done, onward.trans later, kept.append builds⟩

theorem yields_buildNode (location : String) (valid : r.Valid root)
    (parts : PartsPlaced root whole walk r) :
    Yields (buildNode walk whole location) r
      (fun node t => Ready root r node t ∧ Drawn t whole location node.outline)
      (Stranded root r) :=
  (yields_steps (fun _ member => Json.blueprint_of member) parts
    ⟨.refl valid, SchemaNode.below_of_childless Json.blueprint_childless _⟩).imp
    fun _ _ ⟨ready, _, builds⟩ => ⟨ready, builds⟩

end HttpPlan.Resolver
