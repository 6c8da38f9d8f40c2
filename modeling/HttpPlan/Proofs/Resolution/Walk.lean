import HttpPlan.Proofs.Resolution.Nesting
import HttpPlan.Proofs.Resolution.Node

/-! Every walk of a schema of the document either comes to a place, having finished whatever it
began, or fails for a reason that lies in the document; the budget never runs out. -/
namespace HttpPlan.Resolver

variable {root value target : Json} {r s t : Resolver} {pointer next : String} {node : SchemaNode}
  {id : SchemaId} {fuel : Nat}

theorem reference_eq : reference root (fuel + 1) pointer r =
    (match r.memo.get? pointer, root.lookup pointer with
      | some id, _ => return id
      | none, .error e => throw e
      | none, .ok target =>
        match target.reference? with
        | some next =>
          if pointer ∈ r.aliases then throw (.unsupportedConstruct pointer .circularAlias)
          else do
            let id ← following pointer (reference root fuel next)
            remember pointer id
            return id
        | none => do
          let id ← reserve pointer
          let node ← buildNode (schema root fuel) target pointer
          fill id (definitionNode pointer node)
          return id : Resolve SchemaId) r := by
  rw [reference]
  rfl

theorem reference_met (known : r.memo.get? pointer = some id) :
    reference root (fuel + 1) pointer r = .ok id r := by
  rw [reference_eq, known]
  rfl

theorem reference_missing {error : BuildError} (absent : r.memo.get? pointer = none)
    (missing : root.lookup pointer = .error error) :
    reference root (fuel + 1) pointer r = .error error r := by
  rw [reference_eq, absent, missing]
  rfl

theorem reference_circular (absent : r.memo.get? pointer = none)
    (found : root.lookup pointer = .ok target) (follows : target.reference? = some next)
    (met : pointer ∈ r.aliases) :
    reference root (fuel + 1) pointer r =
      .error (.unsupportedConstruct pointer .circularAlias) r := by
  rw [reference_eq, absent, found]
  simp only [follows, if_pos met]
  rfl

theorem reference_alias (absent : r.memo.get? pointer = none)
    (found : root.lookup pointer = .ok target) (follows : target.reference? = some next)
    (idle : pointer ∉ r.aliases) :
    reference root (fuel + 1) pointer r =
      (do
        let id ← following pointer (reference root fuel next)
        remember pointer id
        return id : Resolve SchemaId) r := by
  rw [reference_eq, absent, found]
  simp only [follows, if_neg idle]

theorem reference_definition (absent : r.memo.get? pointer = none)
    (found : root.lookup pointer = .ok target) (plain : target.reference? = none) :
    reference root (fuel + 1) pointer r =
      (do
        let node ← buildNode (schema root fuel) target pointer
        fill r.arena.size (definitionNode pointer node)
        return r.arena.size : Resolve SchemaId) (r.opened pointer) := by
  rw [reference_eq, absent, found]
  simp only [plain]
  rfl

theorem definitionNode_below {size : Nat} (below : node.Below size) :
    (definitionNode pointer node).Below size := below

theorem definitionNode_named : (definitionNode pointer node).name.isSome := by
  cases named : node.name <;> simp [definitionNode, named]

/-- A definition is not on the stack of aliases. -/
theorem Valid.not_followed (valid : r.Valid root) (found : root.lookup pointer = .ok target)
    (definition : target.reference? = none) : pointer ∉ r.aliases := by
  intro member
  obtain ⟨other, next, same, follows⟩ := valid.followed pointer member
  rw [found] at same
  cases same
  rw [definition] at follows
  cases follows

/-- What the walk of a definition leaves, from the taking of its place to the filling of it. -/
theorem Advances.finish (valid : r.Valid root) (absent : r.memo.get? pointer = none)
    (found : root.lookup pointer = .ok target) (plain : target.reference? = none)
    (advances : Advances root (r.opened pointer) t) (below : node.Below t.arena.size)
    (drawn : Drawn t target pointer node.outline) :
    Advances root r (t.closed r.arena.size (definitionNode pointer node)) where
  nodes := SchemaArena.prefix_set
    (List.IsPrefix.trans SchemaArena.push_prefix advances.nodes) (Nat.le_refl _)
  memo := (grows_opened absent).memo.trans advances.memo
  valid := by
    have begun : r.arena.size ∈ t.unfinished := advances.unfinished ▸ List.mem_cons_self
    have known : t.memo.get? pointer = some r.arena.size :=
      advances.get? (by rw [get?_opened absent, if_pos rfl])
    exact advances.valid.close (definitionNode_below below) definitionNode_named
      (advances.valid.begun _ begun) begun known found plain drawn
  unfinished := by
    simp only [closed, advances.unfinished, opened, List.erase_cons_head]
  aliases := advances.aliases
  pending := fun other member unknown => by
    apply advances.pending other member
    have apart : other ≠ pointer := fun same => valid.not_followed found plain (same ▸ member)
    rw [get?_opened absent, if_neg apart]
    exact unknown

/-- What the walk through an alias leaves. -/
theorem Advances.resolve (absent : r.memo.get? pointer = none)
    (found : root.lookup pointer = .ok target) (follows : target.reference? = some next)
    (idle : pointer ∉ r.aliases) (advances : Advances root (r.entered pointer) t)
    (known : t.memo.get? next = some id) :
    Advances root r (t.left.remembered pointer id) := by
  have unknown : t.memo.get? pointer = none := advances.pending pointer (by simp [entered]) absent
  exact {
    nodes := advances.nodes
    memo := advances.memo.trans (grows_remembered (r := t) unknown).memo
    valid := advances.valid.left.remembered unknown found follows known
    unfinished := advances.unfinished
    aliases := by simp only [remembered, left, advances.aliases, entered, List.tail_cons]
    pending := fun other member missing => by
      have apart : other ≠ pointer := fun same => idle (same ▸ member)
      rw [get?_remembered (r := t.left) unknown, if_neg apart]
      exact advances.pending other (by simp [entered, member]) missing }

/-- What a walk through a reference comes to. -/
def Resolved (root : Json) (r : Resolver) (pointer : String) (id : SchemaId) (r' : Resolver) : Prop :=
  Placed root r id r' ∧ r'.memo.get? pointer = some id

/-- A walk of any part of the document that the rest of the budget suffices for. -/
def SchemasPlaced (root : Json) (fuel : Nat) : Prop :=
  ∀ value location r, value.Within root → r.Valid root →
    r.allowance root value.depth + 2 ≤ fuel →
    Yields (schema root fuel value location) r
      (fun id t => Placed root r id t ∧ Shown t value location id) (Stranded root r)

def ReferencesResolved (root : Json) (fuel : Nat) : Prop :=
  ∀ pointer r, pointer ∈ root.references → r.Valid root → r.allowance root 0 + 1 ≤ fuel →
    Yields (reference root fuel pointer) r (Resolved root r pointer) (Stranded root r)

theorem SchemasPlaced.parts (schemas : SchemasPlaced root fuel) (within : value.Within root)
    (room : r.allowance root value.depth + 1 ≤ fuel) :
    PartsPlaced root value (schema root fuel) r := by
  intro part location s inside advances
  exact schemas part location s (within.part inside) advances.valid
    (allowance_part inside advances room)

theorem yields_schema (references : ReferencesResolved root fuel) (schemas : SchemasPlaced root fuel) :
    SchemasPlaced root (fuel + 1) := by
  intro value location r within valid room
  unfold schema
  split
  · next pointer follows =>
    refine (references pointer r (within.references (Json.mem_references_of_reference? follows))
      valid (allowance_referred room)).imp fun id t resolved => ⟨resolved.1, ?_⟩
    rw [Shown, follows]
    exact resolved.2
  · next plain =>
    apply (yields_buildNode _ valid (schemas.parts within (by omega))).bind
    rintro node s ⟨⟨advances, below⟩, drawn⟩
    refine ⟨Placed.push advances below, ?_⟩
    rw [Shown, plain]
    refine ⟨advances.valid.fresh, ?_⟩
    show Drawn (s.push node) value location ((s.push node).arena.node s.arena.size).outline
    rw [Resolver.push, SchemaArena.node_push_new]
    exact drawn.mono (Advances.keeps advances.valid ((Advances.refl advances.valid).push below))

theorem yields_alias (references : ReferencesResolved root fuel) (valid : r.Valid root)
    (inside : pointer ∈ root.references) (absent : r.memo.get? pointer = none)
    (found : root.lookup pointer = .ok target) (follows : target.reference? = some next)
    (room : r.allowance root 0 + 1 ≤ fuel + 1) (idle : pointer ∉ r.aliases) :
    Yields (following pointer (reference root fuel next)) r
      (fun id t => t.memo.get? pointer = none ∧ Resolved root r pointer id (t.remembered pointer id))
      (Stranded root r) := by
  have within := Json.lookup_within found
  have walk := references next (r.entered pointer)
    (within.references (Json.mem_references_of_reference? follows))
    (valid.entered ⟨target, next, found, follows⟩) (allowance_entered idle inside absent room)
  refine yields_following.mpr (walk.mono ?_ ?_)
  · rintro id t ⟨⟨advances, bound⟩, known⟩
    have unknown : t.memo.get? pointer = none := advances.pending pointer (by simp [entered]) absent
    refine ⟨unknown, ⟨advances.resolve absent found follows idle known, bound⟩, ?_⟩
    rw [get?_remembered (r := t.left) unknown, if_pos rfl]
  · rintro error t ⟨falls, own⟩
    exact ⟨⟨⟨falls.nodes, falls.memo⟩, falls.valid.left⟩, own⟩

theorem yields_definition (schemas : SchemasPlaced root fuel) (valid : r.Valid root)
    (inside : pointer ∈ root.references) (absent : r.memo.get? pointer = none)
    (found : root.lookup pointer = .ok target) (definition : target.reference? = none)
    (room : r.allowance root 0 + 1 ≤ fuel + 1) :
    Yields (buildNode (schema root fuel) target pointer) (r.opened pointer)
      (fun node t => Resolved root r pointer r.arena.size
        (t.closed r.arena.size (definitionNode pointer node)))
      (Stranded root r) := by
  have within := Json.lookup_within found
  have idle := valid.not_followed found definition
  have parts : PartsPlaced root target (schema root fuel) (r.opened pointer) :=
    schemas.parts within (allowance_opened idle inside absent found room)
  refine (yields_buildNode _ (valid.opened absent found definition) parts).mono ?_ ?_
  · rintro node t ⟨⟨advances, below⟩, drawn⟩
    refine ⟨⟨advances.finish valid absent found definition below drawn, ?_⟩, ?_⟩
    · refine Nat.lt_of_lt_of_le ?_ (Nat.le_of_eq SchemaArena.size_set.symm)
      refine Nat.lt_of_lt_of_le ?_ advances.toGrows.size_le
      simp only [opened, SchemaArena.size_push]
      exact Nat.lt_succ_self _
    · exact advances.get? (by rw [get?_opened absent, if_pos rfl])
  · rintro error t ⟨falls, own⟩
    exact ⟨⟨(grows_opened absent).trans falls.toGrows, falls.valid⟩, own⟩

theorem yields_reference (references : ReferencesResolved root fuel)
    (schemas : SchemasPlaced root fuel) : ReferencesResolved root (fuel + 1) := by
  intro pointer r inside valid room
  cases absent : r.memo.get? pointer with
  | some id =>
    rw [Yields, reference_met absent]
    exact ⟨⟨.refl valid, valid.placed pointer id absent⟩, absent⟩
  | none =>
    cases found : root.lookup pointer with
    | error e =>
      rw [Yields, reference_missing absent found]
      exact (Advances.refl valid).stops (Json.lookup_error found)
    | ok target =>
      cases follows : target.reference? with
      | none =>
        exact yields_of_run (reference_definition absent found follows)
          ((yields_definition schemas valid inside absent found follows room).bind
            fun node t resolved => resolved)
      | some next =>
        by_cases met : pointer ∈ r.aliases
        · rw [Yields, reference_circular absent found follows met]
          exact (Advances.refl valid).stops fun cut => cut
        · exact yields_of_run (reference_alias absent found follows met)
            ((yields_alias references valid inside absent found follows room met).bind
              fun id t resolved => resolved.2)

theorem walks (root : Json) (fuel : Nat) :
    SchemasPlaced root fuel ∧ ReferencesResolved root fuel := by
  induction fuel with
  | zero =>
    exact ⟨fun _ _ _ _ _ room => absurd room (by omega), fun _ _ _ _ room => absurd room (by omega)⟩
  | succ fuel ih => exact ⟨yields_schema ih.2 ih.1, yields_reference ih.2 ih.1⟩

theorem yields_schemaId {location : String} (within : value.Within root) (valid : r.Valid root) :
    Yields (schemaId root value location) r (Placed root r) (Stranded root r) :=
  ((walks root _).1 value location r within valid (allowance_le_budget within r)).imp
    fun _ _ placed => placed.1

theorem yields_inlineNode {location : String} (within : value.Within root) (valid : r.Valid root) :
    Yields (inlineNode root value location) r (Ready root r) (Stranded root r) := by
  refine (yields_buildNode _ valid ((walks root _).1.parts within ?_)).imp fun _ _ ready => ready.1
  exact Nat.le_of_succ_le (allowance_le_budget within r)

end HttpPlan.Resolver
