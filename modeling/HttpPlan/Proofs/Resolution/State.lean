import HttpPlan.Proofs.OrderedMap
import HttpPlan.Proofs.Resolution.Drawing
import HttpPlan.Proofs.Resolution.Outcome
import HttpPlan.Proofs.Schema.Arena

/-! What holds of the resolver's state at every moment of a walk, and how a walk moves it on. The
state only grows: no node that stands before the walk is touched, and no reference that is in the
memo is put there again, which is why a rollback by journal and length is exact. -/
namespace HttpPlan.Resolver

structure Valid (root : Json) (r : Resolver) : Prop where
  journal : r.journal = r.memo.keys
  placed : ∀ pointer id, r.memo.get? pointer = some id → id < r.arena.size
  begun : ∀ id ∈ r.unfinished, id < r.arena.size
  distinct : r.unfinished.Nodup
  closed : r.arena.Closed
  /-- A taken place is either still being walked or filled: a filled definition has a name. -/
  filled : ∀ pointer id, r.memo.get? pointer = some id →
    id ∈ r.unfinished ∨ (r.arena.node id).name.isSome
  followed : ∀ pointer ∈ r.aliases, IsAlias root pointer
  grounded : ∀ pointer id, r.memo.get? pointer = some id → Grounded root pointer
  explained : ∀ pointer id, r.memo.get? pointer = some id → Explained root r pointer id
  apart : ∀ pointer other id, IsDefinition root pointer → IsDefinition root other →
    r.memo.get? pointer = some id → r.memo.get? other = some id → pointer = other

structure Grows (r r' : Resolver) : Prop where
  nodes : r.arena.nodes <+: r'.arena.nodes
  memo : r.memo.entries <+: r'.memo.entries

/-- A step that came to its end: what it began it has finished. -/
structure Advances (root : Json) (r r' : Resolver) : Prop extends Grows r r' where
  valid : r'.Valid root
  unfinished : r'.unfinished = r.unfinished
  aliases : r'.aliases = r.aliases
  /-- An alias on the stack is not resolved by what is walked below it. -/
  pending : ∀ pointer ∈ r.aliases, r.memo.get? pointer = none → r'.memo.get? pointer = none

/-- A step that failed, wherever it stood. -/
structure Falls (root : Json) (r r' : Resolver) : Prop extends Grows r r' where
  valid : r'.Valid root

variable {root target : Json} {r s t : Resolver} {node : SchemaNode} {id : SchemaId}
  {pointer other : String}

@[refl] theorem Grows.refl (r : Resolver) : Grows r r := ⟨List.prefix_rfl, List.prefix_rfl⟩

theorem Grows.trans (first : Grows r s) (last : Grows s t) : Grows r t :=
  ⟨first.nodes.trans last.nodes, first.memo.trans last.memo⟩

theorem Grows.size_le (grows : Grows r s) : r.arena.size ≤ s.arena.size :=
  SchemaArena.size_le_of_prefix grows.nodes

theorem Grows.get? (grows : Grows r s) (found : r.memo.get? pointer = some id) :
    s.memo.get? pointer = some id :=
  grows.memo.lookup_eq_some found

/-- Growth that neither begins nor finishes a place of before leaves what was known. -/
theorem Valid.keeps (valid : r.Valid root) (grows : Grows r s)
    (same : ∀ id < r.arena.size, id ∈ s.unfinished ↔ id ∈ r.unfinished) : Keeps r s where
  met := fun _ ⟨id, found⟩ => ⟨id, grows.get? found⟩
  known := fun _ _ ⟨id, found, finished⟩ => by
    have inside := valid.placed _ _ found
    refine ⟨id, grows.get? found, fun member => finished.complete ((same id inside).mp member), ?_⟩
    rw [SchemaArena.node_of_prefix grows.nodes inside]
    exact finished.drawn

theorem Valid.explains (valid : r.Valid root) (grows : Grows r s)
    (same : ∀ id < r.arena.size, id ∈ s.unfinished ↔ id ∈ r.unfinished)
    (found : r.memo.get? pointer = some id) : Explained root s pointer id := by
  have inside := valid.placed _ _ found
  cases valid.explained _ _ found with
  | chain at_pointer follows shared => exact .chain at_pointer follows (grows.get? shared)
  | definition at_pointer plain drawn =>
    refine .definition at_pointer plain fun complete => ?_
    rw [SchemaArena.node_of_prefix grows.nodes inside]
    exact (drawn fun member => complete ((same id inside).mpr member)).mono
      (valid.keeps grows same)

theorem Advances.keeps (valid : r.Valid root) (advances : Advances root r s) : Keeps r s :=
  valid.keeps advances.toGrows fun _ _ => by rw [advances.unfinished]

theorem Advances.refl (valid : r.Valid root) : Advances root r r :=
  ⟨.refl r, valid, rfl, rfl, fun _ _ absent => absent⟩

theorem Advances.trans (first : Advances root r s) (last : Advances root s t) :
    Advances root r t where
  toGrows := first.toGrows.trans last.toGrows
  valid := last.valid
  unfinished := last.unfinished.trans first.unfinished
  aliases := last.aliases.trans first.aliases
  pending := fun pointer member absent =>
    last.pending pointer (first.aliases ▸ member) (first.pending pointer member absent)

theorem Advances.falls (advances : Advances root r s) (falls : Falls root s t) : Falls root r t :=
  ⟨advances.toGrows.trans falls.toGrows, falls.valid⟩

theorem Valid.empty (root : Json) : ({} : Resolver).Valid root where
  journal := rfl
  placed := fun _ _ found => by cases found
  begun := fun _ member => by cases member
  distinct := List.nodup_nil
  closed := fun _ member => by cases member
  filled := fun _ _ found => by cases found
  followed := fun _ member => by cases member
  grounded := fun _ _ found => by cases found
  explained := fun _ _ found => by cases found
  apart := fun _ _ _ _ _ found => by cases found

/-- The state after one more node. -/
def push (r : Resolver) (node : SchemaNode) : Resolver := { r with arena := r.arena.push node }

theorem grows_push : Grows r (r.push node) := ⟨SchemaArena.push_prefix, List.prefix_rfl⟩

theorem Valid.push (valid : r.Valid root) (below : node.Below r.arena.size) :
    (r.push node).Valid root where
  journal := valid.journal
  placed := fun pointer id found => by
    simp only [Resolver.push, SchemaArena.size_push]
    exact Nat.lt_succ_of_lt (valid.placed pointer id found)
  begun := fun id member => by
    simp only [Resolver.push, SchemaArena.size_push]
    exact Nat.lt_succ_of_lt (valid.begun id member)
  distinct := valid.distinct
  closed := valid.closed.push below
  filled := fun pointer id found => by
    rw [Resolver.push, SchemaArena.node_push_old (valid.placed pointer id found)]
    exact valid.filled pointer id found
  followed := valid.followed
  grounded := valid.grounded
  explained := fun _ _ => valid.explains grows_push fun _ _ => Iff.rfl
  apart := valid.apart

theorem Advances.push (advances : Advances root r s) (below : node.Below s.arena.size) :
    Advances root r (s.push node) :=
  advances.trans ⟨grows_push, advances.valid.push below, rfl, rfl, fun _ _ absent => absent⟩

/-- The state in which a definition is being walked. -/
def opened (r : Resolver) (pointer : String) : Resolver :=
  { r with
    arena := r.arena.push {}
    memo := r.memo.insert pointer r.arena.size
    journal := r.journal ++ [pointer]
    unfinished := r.arena.size :: r.unfinished }

theorem get?_opened (absent : r.memo.get? pointer = none) :
    (r.opened pointer).memo.get? other =
      if other = pointer then some r.arena.size else r.memo.get? other :=
  OrderedMap.get?_insert_new absent

theorem Valid.fresh (valid : r.Valid root) : r.arena.size ∉ r.unfinished := fun member =>
  Nat.lt_irrefl _ (valid.begun _ member)

theorem grows_opened (absent : r.memo.get? pointer = none) : Grows r (r.opened pointer) :=
  ⟨SchemaArena.push_prefix, by
    simp only [opened, OrderedMap.entries_insert_new absent]; exact List.prefix_append _ _⟩

theorem mem_unfinished_opened (inside : id < r.arena.size) :
    id ∈ (r.opened pointer).unfinished ↔ id ∈ r.unfinished := by
  have other : id ≠ r.arena.size := Nat.ne_of_lt inside
  exact ⟨fun member => (List.mem_cons.mp member).resolve_left other, List.mem_cons_of_mem _⟩

theorem Valid.keeps_opened (valid : r.Valid root) (absent : r.memo.get? pointer = none) :
    Keeps r (r.opened pointer) :=
  valid.keeps (grows_opened absent) fun _ => mem_unfinished_opened

theorem Valid.opened (valid : r.Valid root) (absent : r.memo.get? pointer = none)
    (found : root.lookup pointer = .ok target) (plain : target.reference? = none) :
    (r.opened pointer).Valid root where
  journal := by
    simp only [Resolver.opened, OrderedMap.keys_insert_new absent, valid.journal]
  placed := fun other id found => by
    rw [get?_opened absent] at found
    simp only [Resolver.opened, SchemaArena.size_push]
    split at found
    · cases found; exact Nat.lt_succ_self _
    · exact Nat.lt_succ_of_lt (valid.placed other id found)
  begun := fun id member => by
    simp only [Resolver.opened, SchemaArena.size_push] at member ⊢
    rcases List.mem_cons.mp member with rfl | member
    · exact Nat.lt_succ_self _
    · exact Nat.lt_succ_of_lt (valid.begun id member)
  distinct := List.nodup_cons.mpr ⟨valid.fresh, valid.distinct⟩
  closed := valid.closed.push (SchemaNode.below_empty _)
  filled := fun other id found => by
    rw [get?_opened absent] at found
    simp only [Resolver.opened]
    split at found
    · cases found; exact Or.inl (by simp)
    · rw [SchemaArena.node_push_old (valid.placed other id found)]
      exact (valid.filled other id found).imp (List.mem_cons_of_mem _) fun named => named
  followed := valid.followed
  grounded := fun other id known => by
    rw [get?_opened absent] at known
    split at known
    · next same => exact same ▸ .definition ⟨target, found, plain⟩
    · exact valid.grounded other id known
  explained := fun other id known => by
    by_cases same : other = pointer
    · subst same
      rw [get?_opened absent, if_pos rfl] at known
      cases known
      exact .definition found plain fun complete => absurd List.mem_cons_self complete
    · rw [get?_opened absent, if_neg same] at known
      exact valid.explains (grows_opened absent) (fun _ => mem_unfinished_opened) known
  apart := fun first second id definition other known shared => by
    rw [get?_opened absent] at known shared
    split at known <;> split at shared
    · next one two => exact one.trans two.symm
    · cases known
      exact absurd (valid.placed _ _ shared) (Nat.lt_irrefl _)
    · cases shared
      exact absurd (valid.placed _ _ known) (Nat.lt_irrefl _)
    · exact valid.apart first second id definition other known shared

/-- The state after a definition has been finished. -/
def closed (r : Resolver) (id : SchemaId) (node : SchemaNode) : Resolver :=
  { r with arena := r.arena.set id node, unfinished := r.unfinished.erase id }

theorem finished_closed {outline : Outline} {other : SchemaId} (begun : id ∈ r.unfinished)
    (finished : r.Finished other outline) : (r.closed id node).Finished other outline := by
  have apart : other ≠ id := fun same => finished.complete (same ▸ begun)
  refine ⟨fun member => finished.complete (List.mem_of_mem_erase member), ?_⟩
  rw [Resolver.closed, SchemaArena.node_set_other apart]
  exact finished.drawn

theorem keeps_closed (begun : id ∈ r.unfinished) : Keeps r (r.closed id node) where
  met := fun _ met => met
  known := fun _ _ ⟨other, found, finished⟩ => ⟨other, found, finished_closed begun finished⟩

theorem Valid.close (valid : r.Valid root) (below : node.Below r.arena.size)
    (named : node.name.isSome) (inside : id < r.arena.size) (begun : id ∈ r.unfinished)
    (known : r.memo.get? pointer = some id) (found : root.lookup pointer = .ok target)
    (plain : target.reference? = none) (drawn : Drawn r target pointer node.outline) :
    (r.closed id node).Valid root where
  journal := valid.journal
  placed := fun pointer other found => by
    simpa only [Resolver.closed, SchemaArena.size_set] using valid.placed pointer other found
  begun := fun other member => by
    simpa only [Resolver.closed, SchemaArena.size_set] using
      valid.begun other (List.mem_of_mem_erase member)
  distinct := valid.distinct.erase id
  closed := valid.closed.set below
  filled := fun pointer other found => by
    simp only [Resolver.closed]
    by_cases same : other = id
    · rw [same, SchemaArena.node_set_same inside]
      exact Or.inr named
    · rw [SchemaArena.node_set_other same]
      exact (valid.filled pointer other found).imp (fun member => (List.mem_erase_of_ne same).mpr member)
        fun named => named
  followed := valid.followed
  grounded := valid.grounded
  explained := fun other place at_other => by
    cases valid.explained other place at_other with
    | chain target_other follows shared => exact .chain target_other follows shared
    | definition target_other plain_other drawn_other =>
      refine .definition target_other plain_other fun complete => ?_
      by_cases same : place = id
      · subst same
        have pointer_is : pointer = other := valid.apart pointer other place ⟨_, found, plain⟩
          ⟨_, target_other, plain_other⟩ known at_other
        subst pointer_is
        cases found.symm.trans target_other
        rw [Resolver.closed, SchemaArena.node_set_same inside]
        exact drawn.mono (keeps_closed begun)
      · rw [Resolver.closed, SchemaArena.node_set_other same]
        refine (drawn_other fun member => complete ?_).mono (keeps_closed begun)
        exact (List.mem_erase_of_ne same).mpr member
  apart := valid.apart

/-- The state after an alias has been resolved. -/
def remembered (r : Resolver) (pointer : String) (id : SchemaId) : Resolver :=
  { r with memo := r.memo.insert pointer id, journal := r.journal ++ [pointer] }

theorem get?_remembered (absent : r.memo.get? pointer = none) :
    (r.remembered pointer id).memo.get? other =
      if other = pointer then some id else r.memo.get? other :=
  OrderedMap.get?_insert_new absent

theorem grows_remembered (absent : r.memo.get? pointer = none) :
    Grows r (r.remembered pointer id) :=
  ⟨List.prefix_rfl, by
    simp only [remembered, OrderedMap.entries_insert_new absent]; exact List.prefix_append _ _⟩

theorem Valid.remembered (valid : r.Valid root) (absent : r.memo.get? pointer = none)
    {next : String} (found : root.lookup pointer = .ok target)
    (follows : target.reference? = some next) (known : r.memo.get? next = some id) :
    (r.remembered pointer id).Valid root where
  journal := by
    simp only [Resolver.remembered, OrderedMap.keys_insert_new absent, valid.journal]
  placed := fun other place at_other => by
    rw [get?_remembered absent] at at_other
    split at at_other
    · cases at_other; exact valid.placed next _ known
    · exact valid.placed other place at_other
  begun := valid.begun
  distinct := valid.distinct
  closed := valid.closed
  filled := fun other place at_other => by
    rw [get?_remembered absent] at at_other
    split at at_other
    · cases at_other; exact valid.filled next _ known
    · exact valid.filled other place at_other
  followed := valid.followed
  grounded := fun other place at_other => by
    rw [get?_remembered absent] at at_other
    split at at_other
    · next same => exact same ▸ .chain found follows (valid.grounded next id known)
    · exact valid.grounded other place at_other
  explained := fun other place at_other => by
    have grows : Grows r (r.remembered pointer id) := grows_remembered absent
    by_cases same : other = pointer
    · subst same
      rw [get?_remembered absent, if_pos rfl] at at_other
      cases at_other
      exact .chain found follows (grows.get? known)
    · rw [get?_remembered absent, if_neg same] at at_other
      exact valid.explains grows (fun _ _ => Iff.rfl) at_other
  apart := fun first second place definition other at_first at_second => by
    have no_definition : ¬ IsDefinition root pointer := by
      rintro ⟨_, also, plain⟩
      cases found.symm.trans also
      rw [follows] at plain
      cases plain
    have one : first ≠ pointer := fun same => no_definition (same ▸ definition)
    have two : second ≠ pointer := fun same => no_definition (same ▸ other)
    rw [get?_remembered absent, if_neg one] at at_first
    rw [get?_remembered absent, if_neg two] at at_second
    exact valid.apart first second place definition other at_first at_second

/-- The state in which an alias is being followed. -/
def entered (r : Resolver) (pointer : String) : Resolver :=
  { r with aliases := pointer :: r.aliases }

/-- The state in which the innermost alias has been left. -/
def left (r : Resolver) : Resolver := { r with aliases := r.aliases.tail }

theorem grows_entered : Grows r (r.entered pointer) := ⟨List.prefix_rfl, List.prefix_rfl⟩

theorem grows_left : Grows r r.left := ⟨List.prefix_rfl, List.prefix_rfl⟩

theorem Valid.entered (valid : r.Valid root) (follows : IsAlias root pointer) :
    (r.entered pointer).Valid root :=
  { valid with
    followed := fun other member => by
      rcases List.mem_cons.mp member with rfl | member
      · exact follows
      · exact valid.followed other member
    explained := fun _ _ => valid.explains grows_entered fun _ _ => Iff.rfl }

theorem Valid.left (valid : r.Valid root) : r.left.Valid root :=
  { valid with
    followed := fun other member => valid.followed other (List.mem_of_mem_tail member)
    explained := fun _ _ => valid.explains grows_left fun _ _ => Iff.rfl }

theorem following_eq {α : Type} {x : Resolve α} :
    following pointer x r =
      match x (r.entered pointer) with
      | .ok a t => .ok a t.left
      | .error e t => .error e t.left := rfl

theorem yields_following {α : Type} {x : Resolve α} {done : α → Resolver → Prop}
    {failed : BuildError → Resolver → Prop} :
    Yields (following pointer x) r done failed ↔
      Yields x (r.entered pointer) (fun a r' => done a r'.left) (fun e r' => failed e r'.left) := by
  rw [Yields, Yields, following_eq]
  cases x (r.entered pointer) <;> rfl

/-- A rollback forgets exactly what came after the mark, wherever the walk broke off. -/
theorem rollback_mark (valid : r.Valid root) (later : s.Valid root) (grows : Grows r s)
    (settled : r.unfinished = []) (idle : r.aliases = []) : s.rollback r.mark = r := by
  obtain ⟨newer, same⟩ := grows.memo
  have keys : s.memo.keys = r.memo.keys ++ newer.map Prod.fst := by
    simp [OrderedMap.keys, ← same]
  have taken : s.journal.take r.journal.length = r.journal := by
    rw [later.journal, keys, valid.journal, List.take_left']; rfl
  have dropped : s.journal.drop r.journal.length = newer.map Prod.fst := by
    rw [later.journal, keys, valid.journal, List.drop_left']; rfl
  have arena : s.arena.truncate r.arena.size = r.arena := by
    obtain ⟨more, nodes⟩ := grows.nodes
    cases r with | mk arena => cases arena with | mk nodes' =>
    simp only [SchemaArena.truncate, SchemaArena.size, ← nodes, List.take_left']
  cases r with
  | mk arena' memo journal unfinished aliases =>
    subst settled; subst idle
    simp only [rollback, mark] at *
    rw [arena, taken, dropped, OrderedMap.erase_newer keys grows.memo]

end HttpPlan.Resolver
