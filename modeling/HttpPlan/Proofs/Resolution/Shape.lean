import HttpPlan.Proofs.Resolution.Calls
import HttpPlan.Proofs.Schema.Outline
import HttpPlan.Proofs.Schema.Shape

/-! Every walk leaves nodes in shape, but for the one kind of node that is given none: the variant
that a list of types calls for where it names arrays. Whether a walk leaves such a node depends on
the schemas it builds nodes of, which can be told from the document alone. -/
namespace HttpPlan.Resolver

variable {root value whole target part : Json} {r s t : Resolver} {walk : Walk}
  {own next last node : SchemaNode} {id : SchemaId} {role : Role} {step : Step}
  {steps more : List Step} {pointer other location : String} {fuel : Nat} {errand : Errand}
  {lax : Prop}

/-- What a step makes of a node. Taking a part in leaves it its shape. -/
inductive Turns : Step → SchemaNode → SchemaNode → Prop
  | child {own next : SchemaNode} {id : SchemaId} {role : Role} {child : Child}
      (joined : Joined own id role next) (kept : role.IsPart → own.Shaped → next.Shaped) :
      Turns (.child role child) own next
  | settle (own : SchemaNode) : Turns .settle own own.dropObjectItems
  | unite (own : SchemaNode) : Turns .unite own own.asUnion

/-- What one step after another makes of a node. -/
def Turned : List Step → SchemaNode → SchemaNode → Prop
  | [], own, last => last = own
  | step :: rest, own, last => ∃ next, Turns step own next ∧ Turned rest next last

theorem turned_append :
    Turned (steps ++ more) own last ↔ ∃ mid, Turned steps own mid ∧ Turned more mid last := by
  induction steps generalizing own with
  | nil => simp [Turned]
  | cons step rest ih =>
    simp only [List.cons_append, Turned, ih]
    constructor
    · rintro ⟨next, turns, mid, first, onward⟩
      exact ⟨mid, ⟨next, turns, first⟩, onward⟩
    · rintro ⟨mid, ⟨next, turns, first⟩, onward⟩
      exact ⟨next, turns, mid, first, onward⟩

theorem turned_single : Turned [step] own last ↔ Turns step own last := by
  simp [Turned]

namespace Turned

theorem adding (turned : Turned steps own last)
    (each : ∀ step ∈ steps, ∃ child,
      step = .child .variant child ∨ step = .child .alternative child) :
    last.kind = own.kind ∧ last.items = own.items ∧
      (last.variants ≠ [] ↔ own.variants ≠ [] ∨ steps ≠ []) := by
  induction steps generalizing own with
  | nil => subst turned; simp
  | cons step rest ih =>
    obtain ⟨next, turns, onward⟩ := turned
    obtain ⟨kind, items, variants⟩ := ih onward fun step member => each step (by simp [member])
    rw [kind, items, variants]
    obtain ⟨child, rfl | rfl⟩ := each step (by simp)
    · cases turns with
      | child joined => cases joined; simp
    · cases turns with
      | child joined => cases joined; simp

theorem properties (turned : Turned steps own last)
    (each : ∀ step ∈ steps, ∃ name child, step = .child (.property name) child) :
    last.kind = own.kind ∧ last.items = own.items ∧ last.variants = own.variants := by
  induction steps generalizing own with
  | nil => subst turned; simp
  | cons step rest ih =>
    obtain ⟨next, turns, onward⟩ := turned
    obtain ⟨kind, items, variants⟩ := ih onward fun step member => each step (by simp [member])
    rw [kind, items, variants]
    obtain ⟨name, child, rfl⟩ := each step (by simp)
    cases turns with
    | child joined => cases joined; simp

theorem merging (turned : Turned steps own last) (shaped : own.Shaped)
    (each : ∀ step ∈ steps,
      (∃ location child, step = .child (.part location) child) ∨ step = .settle) :
    last.Shaped := by
  induction steps generalizing own with
  | nil => subst turned; exact shaped
  | cons step rest ih =>
    obtain ⟨next, turns, onward⟩ := turned
    refine ih onward ?_ fun step member => each step (by simp [member])
    rcases each step (by simp) with ⟨location, child, rfl⟩ | rfl
    · cases turns with
      | child _ kept => exact kept trivial shaped
    · cases turns with
      | settle => exact shaped.dropObjectItems

theorem ofKeywords {schema : Json} {types : List JsonType}
    (made : SchemaNode.ofKeywords schema = .ok (own, types))
    (turned : Turned (Step.ofKeywords schema location own.kind types) own last) : last.Shaped := by
  obtain ⟨_, no_items, no_variants⟩ := SchemaNode.ofKeywords_childless made
  obtain ⟨third, turned, finish⟩ := turned_append.mp turned
  obtain ⟨second, variants, properties⟩ := turned_append.mp turned
  obtain ⟨kind, items, filled⟩ := variants.adding fun step member => by
    obtain ⟨type, -, rfl⟩ := List.mem_map.mp member
    exact ⟨_, Or.inl rfl⟩
  obtain ⟨same_kind, same_items, same_variants⟩ := properties.properties fun step member => by
    obtain ⟨⟨name, value⟩, -, rfl⟩ := List.mem_map.mp member
    exact ⟨name, _, rfl⟩
  have union : third.variants ≠ [] ↔ third.kind = .union := by
    rw [same_variants, filled, no_variants, same_kind, kind,
      ← SchemaNode.types_ofKeywords made]
    simp
  have none : third.items = none := by rw [same_items, items, no_items]
  by_cases array : own.kind = .typed .array
  · rw [if_pos array, turned_single] at finish
    cases finish with
    | child joined =>
      cases joined
      exact ⟨by simp [same_kind, kind, array], union⟩
  · rw [if_neg array] at finish
    cases finish
    exact ⟨by simp [none, same_kind, kind, array], union⟩

theorem ofParts {given : Option Json} (turned : Turned (Step.ofParts location given) own last)
    (shaped : own.Shaped) : last.Shaped := by
  refine turned.merging shaped fun step member => ?_
  unfold Step.ofParts at member
  split at member
  · rcases List.mem_append.mp member with child | settles
    · obtain ⟨⟨value, index⟩, -, rfl⟩ := List.mem_map.mp child
      exact Or.inl ⟨_, _, rfl⟩
    · exact Or.inr (List.mem_singleton.mp settles)
  · cases member

theorem ofAlternatives {keyword : String} {given : Option Json}
    (turned : Turned (Step.ofAlternatives location keyword given) own last) (shaped : own.Shaped) :
    last.Shaped := by
  unfold Step.ofAlternatives at turned
  split at turned
  · rw [turned_single] at turned
    cases turned
  · next parts filled =>
    obtain ⟨mid, added, united⟩ := turned_append.mp turned
    obtain ⟨-, -, variants⟩ := added.adding fun step member => by
      obtain ⟨⟨value, index⟩, -, rfl⟩ := List.mem_map.mp member
      exact ⟨_, Or.inr rfl⟩
    rw [turned_single] at united
    cases united with
    | unite =>
      have some : mid.variants ≠ [] := by
        rw [variants]
        refine Or.inr fun none => filled ?_
        simpa using none
      exact ⟨by simp [SchemaNode.asUnion], by simpa [SchemaNode.asUnion] using some⟩
  · cases turned
    exact shaped

/-- The steps of a blueprint come to a node in shape. -/
theorem blueprint {schema : Json}
    (turned : Turned (schema.blueprint location).2 (schema.blueprint location).1 last) :
    last.Shaped := by
  rcases schema.blueprint_cases location with same | ⟨error, same⟩ | ⟨node, types, made, same⟩ <;>
    rw [same] at turned
  · cases turned
    exact SchemaNode.shaped_blank
  · rw [turned_single] at turned
    cases turned
  · obtain ⟨third, turned, any⟩ := turned_append.mp turned
    obtain ⟨second, turned, one⟩ := turned_append.mp turned
    obtain ⟨first, keywords, parts⟩ := turned_append.mp turned
    exact any.ofAlternatives (one.ofAlternatives (parts.ofParts (keywords.ofKeywords made)))

end Turned

/-- No schema that this one reaches has a list of types that names arrays, where that is not
allowed. -/
def Spared (root : Json) (lax : Prop) (value : Json) : Prop :=
  ∀ part, root.Reaches value part → part.MixesArrays → lax

/-- Every node is in shape, but for those that are only the type of arrays, where that is allowed.
The places of references are never of these. -/
structure Formed (lax : Prop) (r : Resolver) : Prop where
  nodes : ∀ node ∈ r.arena.nodes, node.Shaped ∨ lax ∧ node = .ofKind (.typed .array)
  memo : ∀ pointer id, r.memo.get? pointer = some id → (r.arena.node id).Shaped

theorem formed_empty : Formed lax {} :=
  ⟨fun _ member => (by cases member), fun _ _ known => (by cases known)⟩

namespace Formed

/-- Steps that leave the memo alone. -/
theorem push (formed : Formed lax r) (valid : r.Valid root)
    (given : node.Shaped ∨ lax ∧ node = .ofKind (.typed .array)) : Formed lax (r.push node) where
  nodes other member := by
    rcases List.mem_append.mp member with old | new
    · exact formed.nodes other old
    · exact List.mem_singleton.mp new ▸ given
  memo pointer id known := by
    rw [Resolver.push, SchemaArena.node_push_old (valid.placed pointer id known)]
    exact formed.memo pointer id known

theorem opened (formed : Formed lax r) (valid : r.Valid root)
    (absent : r.memo.get? pointer = none) : Formed lax (r.opened pointer) where
  nodes := (formed.push valid (Or.inl SchemaNode.shaped_blank)).nodes
  memo other id known := by
    rw [get?_opened absent] at known
    simp only [Resolver.opened]
    split at known
    · cases known
      rw [SchemaArena.node_push_new]
      exact SchemaNode.shaped_blank
    · rw [SchemaArena.node_push_old (valid.placed other id known)]
      exact formed.memo other id known

theorem closed (formed : Formed lax r) (inside : id < r.arena.size) (shaped : node.Shaped) :
    Formed lax (r.closed id node) where
  nodes other member := by
    rcases List.mem_or_eq_of_mem_set member with old | rfl
    · exact formed.nodes other old
    · exact Or.inl shaped
  memo pointer place known := by
    simp only [Resolver.closed]
    by_cases same : place = id
    · rw [same, SchemaArena.node_set_same inside]
      exact shaped
    · rw [SchemaArena.node_set_other same]
      exact formed.memo pointer place known

theorem remembered (formed : Formed lax r) (absent : r.memo.get? pointer = none)
    (shaped : (r.arena.node id).Shaped) : Formed lax (r.remembered pointer id) where
  nodes := formed.nodes
  memo other place known := by
    rw [get?_remembered absent] at known
    split at known
    · cases known
      exact shaped
    · exact formed.memo other place known

end Formed

/-- A walk that moves the state on and leaves its nodes in shape. -/
def Shaping (root : Json) (lax : Prop) (r s : Resolver) : Prop := Advances root r s ∧ Formed lax s

/-- A place with a node in shape. -/
def Sound (r : Resolver) (id : SchemaId) : Prop := id < r.arena.size ∧ (r.arena.node id).Shaped

/-- Walks of parts of `whole` that are spared, from wherever a walk that began in `r` has come to. -/
def PartsFormed (root whole : Json) (lax : Prop) (walk : Walk) (r : Resolver) : Prop :=
  ∀ part location s, part.Inside whole → Spared root lax part →
    Shaping root lax r s →
    Leaves (walk part location) s fun id t => Shaping root lax s t ∧ Sound t id

theorem Shaping.trans (first : Shaping root lax r s) (last : Shaping root lax s t) :
    Shaping root lax r t := ⟨first.1.trans last.1, last.2⟩

theorem Shaping.refl (valid : r.Valid root) (formed : Formed lax r) : Shaping root lax r r :=
  ⟨.refl valid, formed⟩

theorem Shaping.push (shaping : Shaping root lax r s) (below : node.Below s.arena.size)
    (given : node.Shaped ∨ lax ∧ node = .ofKind (.typed .array)) :
    Shaping root lax r (s.push node) :=
  ⟨shaping.1.push below, shaping.2.push shaping.1.valid given⟩

theorem sound_push (shaped : node.Shaped) : Sound (r.push node) r.arena.size := by
  refine ⟨?_, ?_⟩
  · simp only [Resolver.push, SchemaArena.size_push]
    exact Nat.lt_succ_self _
  · rw [Resolver.push, SchemaArena.node_push_new]
    exact shaped

/-- What a step needs to leave nodes in shape. -/
def Spares (root : Json) (lax : Prop) : Step → Prop
  | .child role (.fresh given) =>
    ¬ role.IsPart ∧ (given.Shaped ∨ lax ∧ given = .ofKind (.typed .array))
  | .child _ (.walked part _) => Spared root lax part
  | _ => True

theorem spares_steps (spared : Spared root lax whole) (plain : whole.reference? = none) :
    ∀ step ∈ (whole.blueprint location).2, Spares root lax step := by
  intro step member
  cases step with
  | child role child =>
    cases child with
    | walked part place =>
      exact fun value reaches =>
        spared value (.child plain (Json.mem_walked.mpr ⟨_, _, member⟩) reaches)
    | fresh given =>
      rcases Json.blueprint_fresh member with ⟨rfl, rfl⟩ | ⟨rfl, own, types, type, made, listed, rfl⟩
      · exact ⟨fun part => part, Or.inl SchemaNode.shaped_blank⟩
      · refine ⟨fun part => part, ?_⟩
        by_cases array : type = .array
        · subst array
          have mixed := (SchemaNode.mixesArrays_iff made).mp listed
          exact Or.inr ⟨spared whole (.here plain) mixed, rfl⟩
        · exact Or.inl (SchemaNode.shaped_ofKind.mpr ⟨by simpa using array, by simp⟩)
  | _ => trivial

theorem leaves_place_formed {child : Child} (of : (Step.child role child).Of whole)
    (spares : Spares root lax (.child role child)) (shaping : Shaping root lax r s)
    (parts : PartsFormed root whole lax walk r) :
    Leaves (place walk child) s fun id t => Shaping root lax s t ∧ (role.IsPart → Sound t id) := by
  have here := Shaping.refl shaping.1.valid shaping.2
  cases of with
  | fresh _ childless =>
    exact ⟨here.push (SchemaNode.below_of_childless childless _) spares.2,
      fun part => absurd part spares.1⟩
  | walked _ location inside =>
    exact (parts _ location s inside spares shaping).imp fun id t now => ⟨now.1, fun _ => now.2⟩

theorem leaves_take_formed (of : step.Of whole) (spares : Spares root lax step)
    (shaping : Shaping root lax r s) (parts : PartsFormed root whole lax walk r) :
    Leaves (take walk own step) s fun next t => Shaping root lax s t ∧ Turns step own next := by
  have here := Shaping.refl shaping.1.valid shaping.2
  cases step with
  | refuse error => trivial
  | child role child =>
    refine (leaves_place_formed of spares shaping parts).bind fun id t placed => ?_
    cases run : join own id role t with
    | error error u => rw [Yields, run]; trivial
    | ok merged u =>
      obtain ⟨rfl, joined⟩ := join_ok run
      rw [Yields, run]
      refine ⟨placed.1, .child joined fun part shaped => ?_⟩
      cases role with
      | part location =>
        rw [join_part] at run
        split at run
        · cases run
        · cases merges : own.absorb (u.arena.node id) with
          | error construct => rw [merges] at run; cases run
          | ok merged =>
            rw [merges] at run
            cases run
            exact shaped.absorb (placed.2 part).2 merges
      | _ => exact part.elim
  | settle => exact ⟨here, .settle own⟩
  | unite => exact ⟨here, .unite own⟩

theorem leaves_steps_formed (of : ∀ step ∈ steps, step.Of whole)
    (spares : ∀ step ∈ steps, Spares root lax step) (shaping : Shaping root lax r s)
    (parts : PartsFormed root whole lax walk r) :
    Leaves (steps.foldlM (take walk) own) s
      fun last t => Shaping root lax s t ∧ Turned steps own last := by
  induction steps generalizing own s with
  | nil => exact ⟨.refl shaping.1.valid shaping.2, rfl⟩
  | cons step rest ih =>
    rw [List.foldlM_cons]
    refine (leaves_take_formed (of step (by simp)) (spares step (by simp)) shaping parts).bind
      fun next t first => ?_
    refine (ih (fun step member => of step (by simp [member]))
      (fun step member => spares step (by simp [member])) (shaping.trans first.1)).imp
      fun last u later => ?_
    exact ⟨first.1.trans later.1, next, first.2, later.2⟩

theorem leaves_buildNode_formed (location : String) (spared : Spared root lax whole)
    (plain : whole.reference? = none) (valid : r.Valid root) (formed : Formed lax r)
    (parts : PartsFormed root whole lax walk r) :
    Leaves (buildNode walk whole location) r fun node t => Shaping root lax r t ∧ node.Shaped :=
  (leaves_steps_formed (fun _ member => Json.blueprint_of member)
    (spares_steps spared plain) (.refl valid formed) parts).imp
    fun _ _ now => ⟨now.1, now.2.blueprint⟩

/-- A walk of any part of the document that the rest of the budget suffices for. -/
def SchemasFormed (root : Json) (lax : Prop) (fuel : Nat) : Prop :=
  ∀ value location r, value.Within root → Spared root lax value →
    r.Valid root → Formed lax r → r.allowance root value.depth + 2 ≤ fuel →
    Leaves (schema root fuel value location) r fun id t => Shaping root lax r t ∧ Sound t id

def ReferencesFormed (root : Json) (lax : Prop) (fuel : Nat) : Prop :=
  ∀ pointer r, pointer ∈ root.references →
    (∀ target, root.lookup pointer = .ok target → Spared root lax target) →
    r.Valid root → Formed lax r → r.allowance root 0 + 1 ≤ fuel →
    Leaves (reference root fuel pointer) r fun id t => Shaping root lax r t ∧ Sound t id

theorem SchemasFormed.parts (schemas : SchemasFormed root lax fuel)
    (within : value.Within root) (room : r.allowance root value.depth + 1 ≤ fuel) :
    PartsFormed root value lax (schema root fuel) r := by
  intro part location s inside spared shaping
  exact schemas part location s (within.part inside) spared shaping.1.valid shaping.2
    (allowance_part inside shaping.1 room)

theorem leaves_schema_formed (references : ReferencesFormed root lax fuel)
    (schemas : SchemasFormed root lax fuel) : SchemasFormed root lax (fuel + 1) := by
  intro value location r within spared valid formed room
  unfold schema
  split
  · next pointer follows =>
    exact references pointer r (within.references (Json.mem_references_of_reference? follows))
      (fun target found part reaches => spared part (.through follows found reaches)) valid formed
      (allowance_referred room)
  · next plain =>
    have built := leaves_buildNode_formed location spared plain valid formed
      (schemas.parts (r := r) within (by omega))
    have ready := yields_buildNode location valid
      ((walks root fuel).1.parts (r := r) within (by omega))
    refine (built.and ready).bind fun node t ⟨⟨shaping, shaped⟩, ⟨_, below⟩, _⟩ => ?_
    exact ⟨shaping.push below (Or.inl shaped), sound_push shaped⟩

theorem leaves_alias_formed (references : ReferencesFormed root lax fuel) (valid : r.Valid root)
    (formed : Formed lax r) (inside : pointer ∈ root.references)
    (spared : Spared root lax target) (absent : r.memo.get? pointer = none)
    (found : root.lookup pointer = .ok target) (follows : target.reference? = some other)
    (room : r.allowance root 0 + 1 ≤ fuel + 1) (idle : pointer ∉ r.aliases) :
    Leaves (following pointer (reference root fuel other)) r fun id t =>
      Shaping root lax r (t.remembered pointer id) ∧ Sound (t.remembered pointer id) id := by
  have follows_inside := (Json.lookup_within found).references
    (Json.mem_references_of_reference? follows)
  have begun := valid.entered ⟨target, other, found, follows⟩
  have left := allowance_entered idle inside absent room
  have walked := references other (r.entered pointer) follows_inside
    (fun _ found part reaches => spared part (.through follows found reaches)) begun
    ⟨formed.nodes, formed.memo⟩ left
  have ready := (walks root fuel).2 other (r.entered pointer) follows_inside begun left
  refine yields_following.mpr ((walked.and ready).imp fun id t now => ?_)
  obtain ⟨⟨⟨advances, known⟩, sound⟩, resolved⟩ := now
  have unknown : t.left.memo.get? pointer = none :=
    advances.pending pointer (by simp [entered]) absent
  have kept : Formed lax t.left := ⟨known.nodes, known.memo⟩
  exact ⟨⟨advances.resolve absent found follows idle resolved.2,
    kept.remembered unknown sound.2⟩, sound⟩

theorem leaves_definition_formed (schemas : SchemasFormed root lax fuel) (valid : r.Valid root)
    (formed : Formed lax r) (inside : pointer ∈ root.references)
    (spared : Spared root lax target) (absent : r.memo.get? pointer = none)
    (found : root.lookup pointer = .ok target) (plain : target.reference? = none)
    (room : r.allowance root 0 + 1 ≤ fuel + 1) :
    Leaves (buildNode (schema root fuel) target pointer) (r.opened pointer) fun node t =>
      Shaping root lax r (t.closed r.arena.size (definitionNode pointer node)) ∧
        Sound (t.closed r.arena.size (definitionNode pointer node)) r.arena.size := by
  have within := Json.lookup_within found
  have left := allowance_opened (valid.not_followed found plain) inside absent found room
  have begun := valid.opened absent found plain
  have built := leaves_buildNode_formed pointer spared plain begun (formed.opened valid absent)
    (schemas.parts within left)
  have ready := yields_buildNode pointer begun ((walks root fuel).1.parts within left)
  refine (built.and ready).imp fun node t ⟨⟨shaping, shaped⟩, ⟨advances, below⟩, drawn⟩ => ?_
  have placed : r.arena.size < t.arena.size := by
    have grown := advances.toGrows.size_le
    exact Nat.lt_of_succ_le (by simpa only [Resolver.opened, SchemaArena.size_push] using grown)
  have named : (definitionNode pointer node).Shaped := shaped.named
  refine ⟨⟨advances.finish valid absent found plain below drawn,
    shaping.2.closed placed named⟩, ?_, ?_⟩
  · simpa only [Resolver.closed, SchemaArena.size_set] using placed
  · rw [Resolver.closed, SchemaArena.node_set_same placed]
    exact named

theorem leaves_reference_formed (references : ReferencesFormed root lax fuel)
    (schemas : SchemasFormed root lax fuel) : ReferencesFormed root lax (fuel + 1) := by
  intro pointer r inside spared valid formed room
  cases absent : r.memo.get? pointer with
  | some id =>
    rw [Leaves, Yields, reference_met absent]
    exact ⟨.refl valid formed, valid.placed pointer id absent, formed.memo pointer id absent⟩
  | none =>
    cases found : root.lookup pointer with
    | error e =>
      rw [Leaves, Yields, reference_missing absent found]
      trivial
    | ok target =>
      cases follows : target.reference? with
      | none =>
        exact yields_of_run (reference_definition absent found follows)
          ((leaves_definition_formed schemas valid formed inside (spared target found) absent found
            follows room).bind fun node t now => now)
      | some next =>
        by_cases met : pointer ∈ r.aliases
        · rw [Leaves, Yields, reference_circular absent found follows met]
          trivial
        · exact yields_of_run (reference_alias absent found follows met)
            ((leaves_alias_formed references valid formed inside (spared target found) absent
              found follows room met).bind fun id t now => now)

theorem formations (root : Json) (lax : Prop) (fuel : Nat) :
    SchemasFormed root lax fuel ∧ ReferencesFormed root lax fuel := by
  induction fuel with
  | zero =>
    exact ⟨fun _ _ _ _ _ _ _ room => absurd room (by omega),
      fun _ _ _ _ _ _ room => absurd room (by omega)⟩
  | succ fuel ih => exact ⟨leaves_schema_formed ih.2 ih.1, leaves_reference_formed ih.2 ih.1⟩

/-- What a schema leaves behind once it has a place: that of its reference, or the node that its
steps come to. -/
def Knows (r : Resolver) (value : Json) : Prop :=
  match value.reference? with
  | some pointer => ∃ id, r.memo.get? pointer = some id
  | none => ∃ site last, Made r (value.blueprint site).1 (value.blueprint site).2 last

theorem Translates.knows (translates : s.Translates value id) : s.Knows value := by
  unfold Translates at translates
  unfold Knows
  cases follows : value.reference? with
  | some pointer => rw [follows] at translates; exact ⟨id, translates⟩
  | none =>
    rw [follows] at translates
    obtain ⟨site, node, -, made, -⟩ := translates
    exact ⟨site, node, made⟩

theorem Made.knows {place : String} (made : Made s own steps last)
    (listed : .child role (.walked part place) ∈ steps) : s.Knows part := by
  induction made with
  | done => cases listed
  | fresh _ _ _ ih => exact ih (by simpa using listed)
  | settle _ ih => exact ih (by simpa using listed)
  | unite _ ih => exact ih (by simpa using listed)
  | referred follows known _ _ ih =>
    rcases List.mem_cons.mp listed with same | later
    · cases same
      exact (Translates.of_reference follows known).knows
    · exact ih later
  | inline plain made stands _ _ _ ih =>
    rcases List.mem_cons.mp listed with same | later
    · cases same
      exact (Translates.of_made plain made stands).knows
    · exact ih later

theorem Made.stands {given : SchemaNode} (made : Made s own steps last)
    (listed : .child role (.fresh given) ∈ steps) : ∃ id, s.Stands id given := by
  induction made with
  | done => cases listed
  | fresh stands _ _ ih =>
    rcases List.mem_cons.mp listed with same | later
    · cases same
      exact ⟨_, stands⟩
    · exact ih later
  | settle _ ih => exact ih (by simpa using listed)
  | unite _ ih => exact ih (by simpa using listed)
  | referred _ _ _ _ ih => exact ih (by simpa using listed)
  | inline _ _ _ _ _ _ ih => exact ih (by simpa using listed)

theorem Stands.mem (stands : s.Stands id node) : node ∈ s.arena.nodes := by
  have bound : id < s.arena.nodes.length := stands.inside
  have here := stands.here
  rw [SchemaArena.node, SchemaArena.get?, List.getElem?_eq_getElem bound, Option.getD_some] at here
  exact here ▸ List.getElem_mem bound

/-- When nothing is left to be finished, whatever a schema reaches has left its node. -/
theorem Knows.reaches (recorded : Recorded root s) (finished : s.unfinished = [])
    (knows : s.Knows value) (reaches : root.Reaches value part) :
    ∃ site last, Made s (part.blueprint site).1 (part.blueprint site).2 last := by
  induction reaches with
  | here plain =>
    unfold Knows at knows
    rw [plain] at knows
    exact knows
  | through follows found _ ih =>
    unfold Knows at knows
    rw [follows] at knows
    obtain ⟨id, known⟩ := knows
    refine ih ?_
    cases recorded _ id known with
    | chain again onward shared =>
      cases found.symm.trans again
      exact (Translates.of_reference onward shared).knows
    | definition again _ translates =>
      cases found.symm.trans again
      exact (translates (finished ▸ List.not_mem_nil)).knows
  | child plain listed _ ih =>
    unfold Knows at knows
    rw [plain] at knows
    obtain ⟨site, last, made⟩ := knows
    obtain ⟨role, place, walks⟩ := Json.mem_walked.mp listed
    exact ih (made.knows walks)

/-- A list of types that names arrays leaves a node that is only the type of arrays. -/
theorem Knows.mixed (recorded : Recorded root s) (finished : s.unfinished = [])
    (knows : s.Knows value) (reaches : root.Reaches value part) (mixes : part.MixesArrays) :
    ∃ id, s.Stands id (.ofKind (.typed .array)) := by
  obtain ⟨site, last, made⟩ := knows.reaches recorded finished reaches
  rcases mixes.listed site with listed | ⟨error, refused⟩
  · exact made.stands listed
  · rw [refused] at made
    cases made

theorem Knows.mono (retains : Retains s t) (knows : s.Knows value) : t.Knows value := by
  unfold Knows at knows ⊢
  cases follows : value.reference? with
  | some pointer =>
    rw [follows] at knows
    obtain ⟨id, known⟩ := knows
    exact ⟨id, retains.memo pointer id known⟩
  | none =>
    rw [follows] at knows
    obtain ⟨site, last, made⟩ := knows
    exact ⟨site, last, made.mono retains⟩

namespace Errand

theorem Ends.knows_place (ends : (place value location).Ends root fuel r s)
    (fits : (place value location).Fits root fuel r) (valid : r.Valid root)
    (recorded : Recorded root r) : s.Knows value := by
  obtain ⟨id, run⟩ := ends
  exact (yields_ok run ((translations root fuel).1 value location r fits.1 valid recorded
    fits.2)).2.knows

theorem Ends.knows_build (ends : (build value location).Ends root fuel r s)
    (plain : value.reference? = none) (within : value.Within root)
    (room : r.allowance root value.depth + 1 ≤ fuel) (valid : r.Valid root)
    (recorded : Recorded root r) : s.Knows value := by
  obtain ⟨last, run⟩ := ends
  have made := (yields_ok run (leaves_buildNode location valid recorded
    ((translations root fuel).1.parts within room))).2
  unfold Knows
  rw [plain]
  exact ⟨location, last, made⟩

end Errand

end HttpPlan.Resolver
