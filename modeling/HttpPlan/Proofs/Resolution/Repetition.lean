import HttpPlan.Proofs.Resolution.Walk

/-! Walking again what another resolver has finished. Where a complete resolver knows every
reference on the way, a walk from any state comes to the same outlines and touches nothing else;
it can only fail by meeting a definition that it is walking itself. -/
namespace HttpPlan.Resolver

variable {root whole value target : Json} {k r s t : Resolver} {walk : Walk} {node : SchemaNode}
  {id : SchemaId} {floor fuel : Nat} {pointer next location : String} {role : Role} {child : Child}
  {steps rest : List Step} {own last outline lent : Outline}

/-- An error that lies in what is being walked at the moment, not in the document alone: a part, or
a chain of aliases that does come to a definition, met again below itself. -/
def Reentrant (root : Json) : BuildError → Prop
  | .unsupportedConstruct _ .selfReferentialPart => True
  | .unsupportedConstruct pointer .circularAlias => Grounded root pointer
  | _ => False

/-- A resolver between two walks. -/
structure Complete (root : Json) (k : Resolver) : Prop where
  valid : k.Valid root
  finished : k.unfinished = []

theorem Known.unique (known : k.Known pointer outline) (also : k.Known pointer own) :
    outline = own := by
  obtain ⟨id, found, finished⟩ := known
  obtain ⟨other, same, drawn⟩ := also
  cases found.symm.trans same
  exact finished.drawn.symm.trans drawn.drawn

theorem Complete.known (complete : Complete root k) (met : k.Met pointer) :
    ∃ outline, k.Known pointer outline := by
  obtain ⟨id, found⟩ := met
  exact ⟨_, id, found, by simp [complete.finished], rfl⟩

/-- An alias that is known shares the place of what it points at. -/
theorem Complete.shared (complete : Complete root k) (met : k.Met pointer)
    (found : root.lookup pointer = .ok target) (follows : target.reference? = some next) :
    k.memo.get? pointer = k.memo.get? next := by
  obtain ⟨id, known⟩ := met
  cases complete.valid.explained _ _ known with
  | chain same onward shared =>
    cases found.symm.trans same
    cases follows.symm.trans onward
    exact known.trans shared.symm
  | definition same plain =>
    cases found.symm.trans same
    cases follows.symm.trans plain

theorem Known.shared (known : k.Known pointer outline)
    (same : k.memo.get? pointer = k.memo.get? next) : k.Known next outline := by
  obtain ⟨id, found, finished⟩ := known
  exact ⟨id, same ▸ found, finished⟩

theorem Complete.drawn (complete : Complete root k) (known : k.Known pointer outline)
    (found : root.lookup pointer = .ok target) (plain : target.reference? = none) :
    Drawn k target pointer outline := by
  obtain ⟨id, at_pointer, finished⟩ := known
  cases complete.valid.explained _ _ at_pointer with
  | chain same onward shared =>
    cases found.symm.trans same
    cases plain.symm.trans onward
  | definition same _ drawn =>
    cases found.symm.trans same
    exact finished.drawn ▸ drawn finished.complete

/-- The outline of a value as far as the resolver knows it. -/
def Tells (k : Resolver) (value : Json) (location : String) (outline : Outline) : Prop :=
  match value.reference? with
  | some pointer => k.Known pointer outline
  | none => Drawn k value location outline

def TellsChild (k : Resolver) (outline : Outline) : Child → Prop
  | .fresh node => node.outline = outline
  | .walked value location => Tells k value location outline

/-- A complete resolver tells the outline of every child, of parts and others alike. -/
theorem Builds.first_child (complete : Complete root k)
    (builds : Builds k own (.child role child :: rest) last) :
    ∃ lent next, TellsChild k lent child ∧ own.join lent role = .ok next ∧
      Builds k next rest last := by
  cases builds with
  | fresh joins onward => exact ⟨_, _, rfl, joins, onward⟩
  | inline plain lends joins onward =>
    refine ⟨_, _, ?_, joins, onward⟩
    rw [TellsChild, Tells, plain]
    exact lends
  | referred follows met known joins onward =>
    by_cases part : role.IsPart
    · refine ⟨_, _, ?_, joins, onward⟩
      rw [TellsChild, Tells, follows]
      exact known part
    · obtain ⟨outline, told⟩ := complete.known met
      refine ⟨outline, _, ?_, (Outline.join_other part).trans joins, onward⟩
      rw [TellsChild, Tells, follows]
      exact told

/-- A place that is either being walked, having been taken at or after some point, or finished
with an outline. -/
structure Draft (r : Resolver) (floor : Nat) (id : SchemaId) (outline : Outline) : Prop where
  recent : id ∈ r.unfinished → floor ≤ id
  drawn : id ∉ r.unfinished → (r.arena.node id).outline = outline

/-- What `k` knows and `r` has met, `r` has the same outline of or is walking. -/
structure Familiar (root : Json) (k : Resolver) (floor : Nat) (r : Resolver) : Prop where
  valid : r.Valid root
  since : floor ≤ r.arena.size
  agrees : ∀ pointer outline id, k.Known pointer outline → r.memo.get? pointer = some id →
    r.Draft floor id outline
  shares : ∀ pointer other id, k.Met pointer → k.Met other → r.memo.get? pointer = some id →
    r.memo.get? other = some id → k.memo.get? pointer = k.memo.get? other

theorem Draft.grow (draft : r.Draft floor id outline) (grows : Grows r s)
    (same : ∀ id < r.arena.size, id ∈ s.unfinished ↔ id ∈ r.unfinished)
    (inside : id < r.arena.size) : s.Draft floor id outline where
  recent := fun member => draft.recent ((same id inside).mp member)
  drawn := fun complete => by
    rw [SchemaArena.node_of_prefix grows.nodes inside]
    exact draft.drawn fun member => complete ((same id inside).mpr member)

/-- A step that leaves the memo alone. -/
theorem Familiar.grow (familiar : Familiar root k floor r) (valid : s.Valid root)
    (grows : Grows r s) (same : s.unfinished = r.unfinished) (memo : s.memo = r.memo) :
    Familiar root k floor s where
  valid := valid
  since := Nat.le_trans familiar.since grows.size_le
  agrees := fun pointer outline id known found => by
    rw [memo] at found
    exact (familiar.agrees pointer outline id known found).grow grows (fun _ _ => by rw [same])
      (familiar.valid.placed _ _ found)
  shares := memo ▸ familiar.shares

theorem Familiar.opened (familiar : Familiar root k floor r) (absent : r.memo.get? pointer = none)
    (valid : (r.opened pointer).Valid root) : Familiar root k floor (r.opened pointer) where
  valid := valid
  since := Nat.le_trans familiar.since (grows_opened absent).size_le
  agrees := fun other outline id known found => by
    rw [get?_opened absent] at found
    split at found
    · cases found
      exact ⟨fun _ => familiar.since, fun complete => absurd List.mem_cons_self complete⟩
    · exact (familiar.agrees other outline id known found).grow (grows_opened absent)
        (fun _ => mem_unfinished_opened) (familiar.valid.placed _ _ found)
  shares := fun first second id met other known shared => by
    rw [get?_opened absent] at known shared
    split at known <;> split at shared
    · next one two => rw [one, two]
    · cases known
      exact absurd (familiar.valid.placed _ _ shared) (Nat.lt_irrefl _)
    · cases shared
      exact absurd (familiar.valid.placed _ _ known) (Nat.lt_irrefl _)
    · exact familiar.shares first second id met other known shared

theorem Familiar.closed (familiar : Familiar root k floor r)
    (valid : (r.closed id node).Valid root) (known : k.Known pointer outline)
    (found : r.memo.get? pointer = some id) (drawn : node.outline = outline) :
    Familiar root k floor (r.closed id node) where
  valid := valid
  since := Nat.le_trans familiar.since (Nat.le_of_eq SchemaArena.size_set.symm)
  agrees := fun other outline' place told at_other => by
    have draft := familiar.agrees other outline' place told at_other
    have inside := familiar.valid.placed _ _ found
    obtain ⟨at_k, found_k, _⟩ := known
    obtain ⟨at_k', found_k', _⟩ := told
    by_cases same : place = id
    · subst same
      have shared := familiar.shares other pointer place ⟨_, found_k'⟩ ⟨_, found_k⟩ at_other found
      refine ⟨fun member => draft.recent (List.mem_of_mem_erase member), fun _ => ?_⟩
      rw [Resolver.closed, SchemaArena.node_set_same inside, drawn]
      exact Known.unique ⟨at_k, found_k, ‹_›⟩ (Known.shared ⟨at_k', found_k', ‹_›⟩ shared)
    · refine ⟨fun member => draft.recent (List.mem_of_mem_erase member), fun complete => ?_⟩
      rw [Resolver.closed, SchemaArena.node_set_other same]
      exact draft.drawn fun member => complete ((List.mem_erase_of_ne same).mpr member)
  shares := familiar.shares

theorem Familiar.remembered (familiar : Familiar root k floor r)
    (absent : r.memo.get? pointer = none) (valid : (r.remembered pointer id).Valid root)
    (known : r.memo.get? next = some id) (met : k.Met next)
    (same : k.memo.get? pointer = k.memo.get? next) :
    Familiar root k floor (r.remembered pointer id) where
  valid := valid
  since := familiar.since
  agrees := fun other outline place told found => by
    rw [get?_remembered absent] at found
    split at found
    · next is =>
      cases found
      have draft := familiar.agrees next outline id (told.shared (is ▸ same)) known
      exact ⟨draft.recent, draft.drawn⟩
    · have draft := familiar.agrees other outline place told found
      exact ⟨draft.recent, draft.drawn⟩
  shares := fun first second place met_first met_second at_first at_second => by
    rw [get?_remembered absent] at at_first at_second
    split at at_first <;> split at at_second
    · next one two => rw [one, two]
    · next one _ =>
      cases at_first
      rw [one, same]
      exact familiar.shares next second id met met_second known at_second
    · next two =>
      cases at_second
      rw [two, same]
      exact familiar.shares first next id met_first met at_first known
    · exact familiar.shares first second place met_first met_second at_first at_second

/-- A walk that only went through what `k` knows. -/
structure Repeats (root : Json) (k : Resolver) (floor : Nat) (r s : Resolver) : Prop
    extends Advances root r s where
  familiar : Familiar root k floor s
  outside : ∀ pointer, ¬ k.Met pointer → s.memo.get? pointer = r.memo.get? pointer

theorem Repeats.refl (familiar : Familiar root k floor r) : Repeats root k floor r r :=
  ⟨.refl familiar.valid, familiar, fun _ _ => rfl⟩

theorem Repeats.trans (first : Repeats root k floor r s) (last : Repeats root k floor s t) :
    Repeats root k floor r t :=
  ⟨first.toAdvances.trans last.toAdvances, last.familiar,
    fun pointer unmet => (last.outside pointer unmet).trans (first.outside pointer unmet)⟩

theorem Repeats.push (familiar : Familiar root k floor r) (below : node.Below r.arena.size) :
    Repeats root k floor r (r.push node) where
  toAdvances := (Advances.refl familiar.valid).push below
  familiar := familiar.grow (familiar.valid.push below) grows_push rfl rfl
  outside := fun _ _ => rfl

/-- A walk that fails only by meeting what is open. -/
def Fades (root : Json) (error : BuildError) (_ : Resolver) : Prop := Reentrant root error

/-- Walks of the parts of `whole` that `k` tells the outlines of. -/
def PartsRepeat (root whole : Json) (walk : Walk) (k : Resolver) (floor : Nat) (r : Resolver) : Prop :=
  ∀ part location s outline, part.Inside whole → Repeats root k floor r s →
    Tells k part location outline →
    Yields (walk part location) s
      (fun id t => Repeats root k floor s t ∧ id < t.arena.size ∧ t.Draft floor id outline)
      (Fades root)

theorem yields_join_draft (draft : s.Draft floor id lent) {after : Outline}
    (joins : node.outline.join lent role = .ok after) :
    Yields (join node id role) s (fun merged t => t = s ∧ merged.outline = after) (Fades root) := by
  have known : (role.IsPart → id ∉ s.unfinished) →
      node.outline.join (s.arena.node id).outline role = .ok after := by
    intro part
    by_cases inherits : role.IsPart
    · rw [draft.drawn (part inherits)]
      exact joins
    · exact (Outline.join_other inherits).trans joins
  rcases join_cases node id role s with ⟨merged, run, told, part⟩ | ⟨place, rfl, _, run⟩ |
      ⟨place, construct, rfl, begun, told, run⟩
  · rw [Yields, run]
    have same := told.symm.trans (known part)
    exact ⟨rfl, by cases same; rfl⟩
  · rw [Yields, run]
    exact trivial
  · have same := told.symm.trans (known fun _ => begun)
    cases same

theorem yields_place_told (of : (Step.child role child).Of whole)
    (familiar : Familiar root k floor r) (parts : PartsRepeat root whole walk k floor r)
    (told : TellsChild k lent child) :
    Yields (place walk child) r
      (fun id s => Repeats root k floor r s ∧ id < s.arena.size ∧ s.Draft floor id lent)
      (Fades root) := by
  cases of with
  | fresh _ childless =>
    have below := SchemaNode.below_of_childless childless r.arena.size
    refine ⟨Repeats.push familiar below, (Placed.push (.refl familiar.valid) below).2,
      fun member => absurd member familiar.valid.fresh, fun _ => ?_⟩
    exact (congrArg SchemaNode.outline SchemaArena.node_push_new).trans told
  | walked _ location inside => exact parts _ location r lent inside (.refl familiar) told

/-- The steps of a blueprint come to the outline that `k` draws. -/
theorem yields_steps_told (complete : Complete root k) (of : ∀ step ∈ steps, step.Of whole)
    (parts : PartsRepeat root whole walk k floor r) (repeats : Repeats root k floor r s)
    (builds : Builds k node.outline steps last) :
    Yields (steps.foldlM (take walk) node) s
      (fun merged t => Repeats root k floor r t ∧ merged.outline = last) (Fades root) := by
  induction steps generalizing node s with
  | nil =>
    cases builds
    exact ⟨repeats, rfl⟩
  | cons step rest ih =>
    have later : ∀ step ∈ rest, step.Of whole := fun step member => of step (by simp [member])
    rw [List.foldlM_cons]
    cases step with
    | refuse error => cases builds
    | settle =>
      cases builds with
      | settle onward =>
        exact ih later repeats ((SchemaNode.outline_dropObjectItems node).symm ▸ onward)
    | unite =>
      cases builds with
      | unite onward => exact ih later repeats onward
    | child role child =>
      obtain ⟨lent, after, told, joins, onward⟩ := builds.first_child complete
      have placing := yields_place_told (of _ List.mem_cons_self) repeats.familiar
        (fun part location t outline inside more =>
          parts part location t outline inside (repeats.trans more)) told
      have taking : Yields (take walk node (.child role child)) s
          (fun merged t => Repeats root k floor r t ∧ merged.outline = after) (Fades root) := by
        refine placing.bind fun id t ⟨more, _, draft⟩ => ?_
        apply (yields_join_draft draft joins).imp
        rintro merged _ ⟨rfl, drawn⟩
        exact ⟨repeats.trans more, drawn⟩
      exact taking.bind fun merged t ⟨more, drawn⟩ => ih later more (drawn ▸ onward)

/-- A walk of any part of the document that `k` tells the outline of. -/
def SchemasRepeat (root : Json) (k : Resolver) (floor fuel : Nat) : Prop :=
  ∀ value location r outline, value.Within root → Familiar root k floor r →
    r.allowance root value.depth + 2 ≤ fuel → Tells k value location outline →
    Yields (schema root fuel value location) r
      (fun id s => Repeats root k floor r s ∧ id < s.arena.size ∧ s.Draft floor id outline)
      (Fades root)

def ReferencesRepeat (root : Json) (k : Resolver) (floor fuel : Nat) : Prop :=
  ∀ pointer r, pointer ∈ root.references → Familiar root k floor r →
    r.allowance root 0 + 1 ≤ fuel → k.Met pointer →
    Yields (reference root fuel pointer) r
      (fun id s => Repeats root k floor r s ∧ s.memo.get? pointer = some id) (Fades root)

theorem SchemasRepeat.parts (schemas : SchemasRepeat root k floor fuel) (within : value.Within root)
    (room : r.allowance root value.depth + 1 ≤ fuel) :
    PartsRepeat root value (schema root fuel) k floor r := by
  intro part location s outline inside repeats told
  exact schemas part location s outline (within.part inside) repeats.familiar
    (allowance_part inside repeats.toAdvances room) told

theorem yields_buildNode_told (complete : Complete root k) (schemas : SchemasRepeat root k floor fuel)
    (within : value.Within root) (familiar : Familiar root k floor r)
    (room : r.allowance root value.depth + 1 ≤ fuel) (drawn : Drawn k value location outline) :
    Yields (buildNode (schema root fuel) value location) r
      (fun node s => Repeats root k floor r s ∧ node.outline = outline) (Fades root) :=
  yields_steps_told complete (fun _ member => Json.blueprint_of member) (schemas.parts within room)
    (.refl familiar) drawn

theorem yields_schema_told (complete : Complete root k)
    (references : ReferencesRepeat root k floor fuel) (schemas : SchemasRepeat root k floor fuel) :
    SchemasRepeat root k floor (fuel + 1) := by
  intro value location r outline within familiar room told
  unfold schema
  unfold Tells at told
  cases follows : value.reference? with
  | some pointer =>
    rw [follows] at told
    have met : k.Met pointer := told.imp fun _ known => known.1
    refine (references pointer r (within.references (Json.mem_references_of_reference? follows))
      familiar (allowance_referred room) met).imp ?_
    rintro id s ⟨repeats, known⟩
    exact ⟨repeats, repeats.valid.placed _ _ known,
      repeats.familiar.agrees _ _ _ told known⟩
  | none =>
    rw [follows] at told
    have room : r.allowance root value.depth + 1 ≤ fuel := by omega
    have again := yields_buildNode_told complete schemas within familiar room told
    have built := yields_buildNode location familiar.valid ((walks root fuel).1.parts within room)
    apply (again.and built).bind
    rintro node s ⟨⟨repeats, same⟩, ⟨⟨_, below⟩, _⟩⟩
    refine ⟨repeats.trans (.push repeats.familiar below), (Placed.push repeats.toAdvances below).2,
      fun member => absurd member repeats.valid.fresh, fun _ => ?_⟩
    exact (congrArg SchemaNode.outline SchemaArena.node_push_new).trans same

theorem yields_alias_told (complete : Complete root k)
    (references : ReferencesRepeat root k floor fuel) (familiar : Familiar root k floor r)
    (inside : pointer ∈ root.references) (absent : r.memo.get? pointer = none)
    (met : k.Met pointer) (found : root.lookup pointer = .ok target)
    (follows : target.reference? = some next) (room : r.allowance root 0 + 1 ≤ fuel + 1)
    (idle : pointer ∉ r.aliases) :
    Yields (following pointer (reference root fuel next)) r
      (fun id t => Repeats root k floor r (t.remembered pointer id) ∧
        (t.remembered pointer id).memo.get? pointer = some id)
      (Fades root) := by
  have within := Json.lookup_within found
  have same := complete.shared met found follows
  have met_next : k.Met next := met.imp fun _ known => same ▸ known
  have entered : Familiar root k floor (r.entered pointer) :=
    familiar.grow (familiar.valid.entered ⟨target, next, found, follows⟩) grows_entered rfl rfl
  have again : Yields (following pointer (reference root fuel next)) r
      (fun id t => ∃ s, t = s.left ∧ Repeats root k floor (r.entered pointer) s ∧
        s.memo.get? next = some id) (Fades root) := by
    apply yields_following.mpr
    have onward := references next (r.entered pointer)
      (within.references (Json.mem_references_of_reference? follows)) entered
      (allowance_entered idle inside absent room) met_next
    exact onward.imp fun _ s done => ⟨s, rfl, done⟩
  have resolved := yields_alias (walks root fuel).2 familiar.valid inside absent found follows
    room idle
  apply (again.and resolved).imp
  rintro id _ ⟨⟨s, rfl, repeats, known⟩, unknown, ⟨advances, _⟩, resolved⟩
  refine ⟨⟨advances, ?_, fun other unmet => ?_⟩, resolved⟩
  · exact (repeats.familiar.grow repeats.valid.left grows_left rfl rfl).remembered unknown
      advances.valid known met_next same
  · have apart : other ≠ pointer := fun is => unmet (is ▸ met)
    rw [get?_remembered unknown, if_neg apart]
    exact repeats.outside other unmet

theorem yields_definition_told (complete : Complete root k)
    (schemas : SchemasRepeat root k floor fuel) (familiar : Familiar root k floor r)
    (inside : pointer ∈ root.references) (absent : r.memo.get? pointer = none)
    (met : k.Met pointer) (found : root.lookup pointer = .ok target)
    (definition : target.reference? = none) (room : r.allowance root 0 + 1 ≤ fuel + 1) :
    Yields (buildNode (schema root fuel) target pointer) (r.opened pointer)
      (fun node t =>
        Repeats root k floor r (t.closed r.arena.size (definitionNode pointer node)) ∧
        t.memo.get? pointer = some r.arena.size)
      (Fades root) := by
  obtain ⟨outline, known⟩ := complete.known met
  have idle := familiar.valid.not_followed found definition
  have opened := familiar.opened absent (familiar.valid.opened absent found definition)
  have again := yields_buildNode_told complete schemas (Json.lookup_within found) opened
    (allowance_opened idle inside absent found room) (complete.drawn known found definition)
  have resolved := yields_definition (walks root fuel).1 familiar.valid inside absent found
    definition room
  apply (again.and resolved).imp
  rintro node t ⟨⟨repeats, drawn⟩, ⟨advances, _⟩, resolved⟩
  have at_pointer : t.memo.get? pointer = some r.arena.size := resolved
  refine ⟨⟨advances, repeats.familiar.closed advances.valid known at_pointer drawn,
    fun other unmet => ?_⟩, at_pointer⟩
  have apart : other ≠ pointer := fun is => unmet (is ▸ met)
  apply (repeats.outside other unmet).trans
  rw [get?_opened absent, if_neg apart]

theorem yields_reference_told (complete : Complete root k)
    (references : ReferencesRepeat root k floor fuel) (schemas : SchemasRepeat root k floor fuel) :
    ReferencesRepeat root k floor (fuel + 1) := by
  intro pointer r inside familiar room met
  obtain ⟨place, at_k⟩ := met
  have met : k.Met pointer := ⟨place, at_k⟩
  cases absent : r.memo.get? pointer with
  | some id =>
    rw [Yields, reference_met absent]
    exact ⟨.refl familiar, absent⟩
  | none =>
    cases found : root.lookup pointer with
    | error e =>
      cases complete.valid.explained _ _ at_k with
      | chain also => cases found.symm.trans also
      | definition also => cases found.symm.trans also
    | ok target =>
      cases follows : target.reference? with
      | none =>
        exact yields_of_run (reference_definition absent found follows)
          ((yields_definition_told complete schemas familiar inside absent met found follows
            room).bind fun node t done => done)
      | some next =>
        by_cases member : pointer ∈ r.aliases
        · rw [Yields, reference_circular absent found follows member]
          exact complete.valid.grounded _ _ at_k
        · exact yields_of_run (reference_alias absent found follows member)
            ((yields_alias_told complete references familiar inside absent met found follows room
              member).bind fun id t done => done)

theorem repeats (complete : Complete root k) (floor fuel : Nat) :
    SchemasRepeat root k floor fuel ∧ ReferencesRepeat root k floor fuel := by
  induction fuel with
  | zero =>
    exact ⟨fun _ _ _ _ _ _ room => absurd room (by omega), fun _ _ _ _ room => absurd room (by omega)⟩
  | succ fuel ih =>
    exact ⟨yields_schema_told complete ih.2 ih.1, yields_reference_told complete ih.2 ih.1⟩

end HttpPlan.Resolver
