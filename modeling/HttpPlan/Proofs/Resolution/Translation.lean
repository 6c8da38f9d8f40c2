import HttpPlan.Proofs.Resolution.Node

/-! What the nodes of an arena have to do with the schemas they were built from. A finished place
holds the node that the steps of its blueprint come to, each with the place of its child; of a
reference that is still being walked only the place is known. Nothing is said of merged parts. -/
namespace HttpPlan.Resolver

variable {root value target whole : Json} {r s t : Resolver} {walk : Walk}
  {own next last node given merged : SchemaNode} {id : SchemaId} {role : Role} {step : Step}
  {steps more : List Step} {pointer : String}

/-- A complete node at a place. -/
structure Stands (r : Resolver) (id : SchemaId) (node : SchemaNode) : Prop where
  inside : id < r.arena.size
  complete : id ∉ r.unfinished
  here : r.arena.node id = node

/-- What a node becomes when a child takes its role in it. -/
inductive Joined (node : SchemaNode) (id : SchemaId) : Role → SchemaNode → Prop
  | variant : Joined node id .variant { node with variants := node.variants ++ [id] }
  | property (name : String) :
      Joined node id (.property name) { node with properties := node.properties.insert name id }
  | items : Joined node id .items { node with items := some id }
  | alternative (null : Bool) :
      Joined node id .alternative
        { node with variants := node.variants ++ [id], nullable := node.nullable || null }
  | part (location : String) (merged : SchemaNode) : Joined node id (.part location) merged

/-- The steps of a blueprint take one node to another. -/
inductive Made (r : Resolver) : SchemaNode → List Step → SchemaNode → Prop
  | done (node : SchemaNode) : Made r node [] node
  | fresh {own next last given : SchemaNode} {role : Role} {id : SchemaId} {rest : List Step}
      (stands : r.Stands id given) (joined : Joined own id role next)
      (onward : Made r next rest last) : Made r own (.child role (.fresh given) :: rest) last
  | referred {own next last : SchemaNode} {role : Role} {id : SchemaId} {value : Json}
      {location pointer : String} {rest : List Step} (follows : value.reference? = some pointer)
      (known : r.memo.get? pointer = some id) (joined : Joined own id role next)
      (onward : Made r next rest last) :
      Made r own (.child role (.walked value location) :: rest) last
  | inline {own next last given : SchemaNode} {role : Role} {id : SchemaId} {value : Json}
      {location site : String} {name : Option String} {rest : List Step}
      (plain : value.reference? = none)
      (made : Made r (value.blueprint site).1 (value.blueprint site).2 given)
      (stands : r.Stands id { given with name }) (joined : Joined own id role next)
      (onward : Made r next rest last) :
      Made r own (.child role (.walked value location) :: rest) last
  | settle {own last : SchemaNode} {rest : List Step}
      (onward : Made r own.dropObjectItems rest last) : Made r own (.settle :: rest) last
  | unite {own last : SchemaNode} {rest : List Step} (onward : Made r own.asUnion rest last) :
      Made r own (.unite :: rest) last

/-- The place of a schema: that of its reference, or one that holds the node made of its keywords,
under whatever name. -/
def Translates (r : Resolver) (value : Json) (id : SchemaId) : Prop :=
  match value.reference? with
  | some pointer => r.memo.get? pointer = some id
  | none => ∃ site node name,
      Made r (value.blueprint site).1 (value.blueprint site).2 node ∧
        r.Stands id { node with name }

/-- How a reference came by its place. -/
inductive Accounted (root : Json) (r : Resolver) (pointer : String) (id : SchemaId) : Prop
  | chain {target : Json} {next : String} (found : root.lookup pointer = .ok target)
      (follows : target.reference? = some next) (shared : r.memo.get? next = some id)
  | definition {target : Json} (found : root.lookup pointer = .ok target)
      (plain : target.reference? = none) (translates : id ∉ r.unfinished → r.Translates target id)

/-- Every place in the memo is accounted for. -/
def Recorded (root : Json) (r : Resolver) : Prop :=
  ∀ pointer id, r.memo.get? pointer = some id → Accounted root r pointer id

/-- A later state has every reference and every complete node that an earlier one had. -/
structure Retains (r s : Resolver) : Prop where
  memo : ∀ pointer id, r.memo.get? pointer = some id → s.memo.get? pointer = some id
  stands : ∀ id node, r.Stands id node → s.Stands id node

@[refl] theorem Retains.refl (r : Resolver) : Retains r r :=
  ⟨fun _ _ known => known, fun _ _ stands => stands⟩

theorem Retains.trans (first : Retains r s) (last : Retains s t) : Retains r t :=
  ⟨fun pointer id known => last.memo pointer id (first.memo pointer id known),
    fun id node stands => last.stands id node (first.stands id node stands)⟩

/-- Growth that begins none of the places of before. -/
theorem Grows.retains (grows : Grows r s)
    (begun : ∀ id < r.arena.size, id ∈ s.unfinished → id ∈ r.unfinished) : Retains r s where
  memo := fun _ _ => grows.get?
  stands := fun _ _ stands =>
    ⟨Nat.lt_of_lt_of_le stands.inside grows.size_le,
      fun member => stands.complete (begun _ stands.inside member),
      (SchemaArena.node_of_prefix grows.nodes stands.inside).trans stands.here⟩

theorem Advances.retains (advances : Advances root r s) : Retains r s :=
  advances.toGrows.retains fun _ _ => by rw [advances.unfinished]; exact fun member => member

theorem retains_opened (absent : r.memo.get? pointer = none) : Retains r (r.opened pointer) :=
  (grows_opened absent).retains fun _ inside => (mem_unfinished_opened inside).mp

theorem retains_closed (begun : id ∈ r.unfinished) : Retains r (r.closed id node) where
  memo := fun _ _ known => known
  stands := fun other given stands => by
    have apart : other ≠ id := fun same => stands.complete (same ▸ begun)
    refine ⟨?_, fun member => stands.complete (List.mem_of_mem_erase member), ?_⟩
    · simpa only [closed, SchemaArena.size_set] using stands.inside
    · rw [closed, SchemaArena.node_set_other apart]
      exact stands.here

theorem Made.mono (retains : Retains r s) (made : Made r own steps last) :
    Made s own steps last := by
  induction made with
  | done => exact .done _
  | fresh stands joined _ ih => exact .fresh (retains.stands _ _ stands) joined ih
  | referred follows known joined _ ih =>
    exact .referred follows (retains.memo _ _ known) joined ih
  | inline plain _ stands joined _ made ih =>
    exact .inline plain made (retains.stands _ _ stands) joined ih
  | settle _ ih => exact .settle ih
  | unite _ ih => exact .unite ih

theorem Made.append (first : Made r own steps next) (onward : Made r next more last) :
    Made r own (steps ++ more) last := by
  induction first with
  | done => exact onward
  | fresh stands joined _ ih => exact .fresh stands joined (ih onward)
  | referred follows known joined _ ih => exact .referred follows known joined (ih onward)
  | inline plain made stands joined _ _ ih => exact .inline plain made stands joined (ih onward)
  | settle _ ih => exact .settle (ih onward)
  | unite _ ih => exact .unite (ih onward)

theorem Translates.mono (retains : Retains r s) (translates : r.Translates value id) :
    s.Translates value id := by
  unfold Translates at translates ⊢
  cases follows : value.reference? with
  | some pointer =>
    rw [follows] at translates
    exact retains.memo _ _ translates
  | none =>
    rw [follows] at translates
    obtain ⟨site, node, name, made, stands⟩ := translates
    exact ⟨site, node, name, made.mono retains, retains.stands _ _ stands⟩

theorem Translates.of_reference (follows : value.reference? = some pointer)
    (known : r.memo.get? pointer = some id) : r.Translates value id := by
  unfold Translates
  rw [follows]
  exact known

theorem Translates.of_made {site : String} {name : Option String}
    (plain : value.reference? = none)
    (made : Made r (value.blueprint site).1 (value.blueprint site).2 node)
    (stands : r.Stands id { node with name }) : r.Translates value id := by
  unfold Translates
  rw [plain]
  exact ⟨site, node, name, made, stands⟩

theorem Translates.inside (valid : r.Valid root) (translates : r.Translates value id) :
    id < r.arena.size := by
  unfold Translates at translates
  cases follows : value.reference? with
  | some pointer =>
    rw [follows] at translates
    exact valid.placed pointer id translates
  | none =>
    rw [follows] at translates
    obtain ⟨site, node, name, -, stands⟩ := translates
    exact stands.inside

/-- The place of a child: that of its own schema, or one for a node that is given. -/
def TranslatesChild (r : Resolver) (id : SchemaId) : Child → Prop
  | .fresh node => r.Stands id node
  | .walked value _ => r.Translates value id

theorem TranslatesChild.made {child : Child} (translates : r.TranslatesChild id child)
    (joined : Joined own id role next) : Made r own [.child role child] next := by
  cases child with
  | fresh given => exact .fresh translates joined (.done _)
  | walked value location =>
    have placed : r.Translates value id := translates
    unfold Translates at placed
    cases follows : value.reference? with
    | some pointer =>
      rw [follows] at placed
      exact .referred follows placed joined (.done _)
    | none =>
      rw [follows] at placed
      obtain ⟨site, node, name, made, stands⟩ := placed
      exact .inline follows made stands joined (.done _)

/-- An account lasts as long as its place is not taken for finished before it is. -/
theorem Accounted.later (retains : Retains r s) (complete : id ∉ s.unfinished → id ∉ r.unfinished)
    (accounted : Accounted root r pointer id) : Accounted root s pointer id := by
  cases accounted with
  | chain found follows shared => exact .chain found follows (retains.memo _ _ shared)
  | definition found plain translates =>
    exact .definition found plain fun settled => (translates (complete settled)).mono retains

theorem recorded_empty : Recorded root {} := fun _ _ known => by cases known

/-- Places that are only begun or left alone need no new account. -/
theorem Recorded.later (recorded : Recorded root r) (retains : Retains r s)
    (same : s.memo = r.memo) (complete : ∀ id, id ∉ s.unfinished → id ∉ r.unfinished) :
    Recorded root s :=
  fun pointer id known => (recorded pointer id (same ▸ known)).later retains (complete id)

theorem Recorded.push (recorded : Recorded root r) : Recorded root (r.push node) :=
  recorded.later (grows_push.retains fun _ _ member => member) rfl fun _ absent => absent

theorem Recorded.entered (recorded : Recorded root r) : Recorded root (r.entered pointer) :=
  recorded.later (grows_entered.retains fun _ _ member => member) rfl fun _ absent => absent

theorem Recorded.left (recorded : Recorded root r) : Recorded root r.left :=
  recorded.later (grows_left.retains fun _ _ member => member) rfl fun _ absent => absent

theorem Recorded.opened (recorded : Recorded root r) (absent : r.memo.get? pointer = none)
    (found : root.lookup pointer = .ok target) (plain : target.reference? = none) :
    Recorded root (r.opened pointer) := by
  intro other id known
  rw [get?_opened absent] at known
  split at known
  · next same =>
    cases known
    exact .definition (same ▸ found) plain fun complete => absurd List.mem_cons_self complete
  · exact (recorded other id known).later (retains_opened absent)
      fun complete member => complete (List.mem_cons_of_mem _ member)

theorem Recorded.remembered {next : String} (recorded : Recorded root r)
    (absent : r.memo.get? pointer = none) (found : root.lookup pointer = .ok target)
    (follows : target.reference? = some next) (shared : r.memo.get? next = some id) :
    Recorded root (r.remembered pointer id) := by
  have retains : Retains r (r.remembered pointer id) :=
    (grows_remembered absent).retains fun _ _ member => member
  intro other place known
  rw [get?_remembered absent] at known
  split at known
  · next same =>
    cases known
    exact .chain (same ▸ found) follows (retains.memo _ _ shared)
  · exact (recorded other place known).later retains fun complete => complete

theorem Recorded.closed (recorded : Recorded root r) (valid : r.Valid root)
    (inside : id < r.arena.size) (begun : id ∈ r.unfinished)
    (known : r.memo.get? pointer = some id) (found : root.lookup pointer = .ok target)
    (plain : target.reference? = none)
    (made : Made r (target.blueprint pointer).1 (target.blueprint pointer).2 node) :
    Recorded root (r.closed id (definitionNode pointer node)) := by
  have retains : Retains r (r.closed id (definitionNode pointer node)) := retains_closed begun
  have stands : (r.closed id (definitionNode pointer node)).Stands id
      (definitionNode pointer node) := by
    refine ⟨?_, fun member => (valid.distinct.mem_erase_iff.mp member).1 rfl, ?_⟩
    · simpa only [Resolver.closed, SchemaArena.size_set] using inside
    · exact SchemaArena.node_set_same inside
  intro other place known_other
  by_cases same : place = id
  · subst same
    cases recorded other place known_other with
    | chain found_other follows shared => exact .chain found_other follows shared
    | definition found_other plain_other =>
      -- Only one definition has this place.
      have pointers : pointer = other := valid.apart pointer other place ⟨_, found, plain⟩
        ⟨_, found_other, plain_other⟩ known known_other
      subst pointers
      cases found.symm.trans found_other
      exact .definition found plain fun _ => .of_made plain (made.mono retains) stands
  · exact (recorded other place known_other).later retains fun complete member =>
      complete ((List.mem_erase_of_ne same).mpr member)

end HttpPlan.Resolver
