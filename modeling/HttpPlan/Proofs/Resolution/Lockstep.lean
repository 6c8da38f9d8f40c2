import HttpPlan.Proofs.Resolution.Agreement

/-! Two walks of one schema in lockstep: one from a resolver that goes on from a complete one, and
one from a resolver that may know less. They take the same way wherever neither knows anything, and
where only the first does, the second repeats what was once walked. So the first comes to what the
second comes to, unless the second meets a definition that it is walking itself. -/
namespace HttpPlan.Resolver

variable {root whole value target : Json} {k r s r' s' t u : Resolver} {walk : Walk}
  {node other : SchemaNode} {i j : SchemaId} {fuel : Nat} {pointer next location : String}
  {role : Role} {child : Child} {steps : List Step}

/-- Places of two resolvers that are filled together or already have the same outline. -/
def Twin (r s : Resolver) (i j : SchemaId) : Prop :=
  (i, j) ∈ r.unfinished.zip s.unfinished ∨
    (i ∉ r.unfinished ∧ j ∉ s.unfinished ∧ (r.arena.node i).outline = (s.arena.node j).outline)

theorem Twin.begun (twin : Twin r s i j) : i ∈ r.unfinished ↔ j ∈ s.unfinished := by
  rcases twin with pair | ⟨one, two, -⟩
  · exact ⟨fun _ => (List.of_mem_zip pair).2, fun _ => (List.of_mem_zip pair).1⟩
  · exact ⟨fun member => absurd member one, fun member => absurd member two⟩

theorem Twin.drawn (twin : Twin r s i j) (complete : i ∉ r.unfinished) :
    (r.arena.node i).outline = (s.arena.node j).outline := by
  rcases twin with pair | ⟨-, -, same⟩
  · exact absurd (List.of_mem_zip pair).1 complete
  · exact same

theorem Twin.advance (twin : Twin r s i j) (first : Advances root r r') (second : Advances root s s')
    (inside : i < r.arena.size) (beside : j < s.arena.size) : Twin r' s' i j := by
  unfold Twin
  rw [first.unfinished, second.unfinished, SchemaArena.node_of_prefix first.nodes inside,
    SchemaArena.node_of_prefix second.nodes beside]
  exact twin

theorem Twin.opened (twin : Twin r s i j) (inside : i < r.arena.size) (beside : j < s.arena.size) :
    Twin (r.opened pointer) (s.opened pointer) i j := by
  rcases twin with pair | ⟨one, two, same⟩
  · exact Or.inl (List.mem_cons_of_mem _ pair)
  · refine Or.inr ⟨fun member => one ((mem_unfinished_opened inside).mp member),
      fun member => two ((mem_unfinished_opened beside).mp member), ?_⟩
    simpa only [Resolver.opened, SchemaArena.node_push_old inside, SchemaArena.node_push_old beside]
      using same

/-- Both places at the head of the stacks are filled with nodes of the same outline. -/
theorem Twin.closed {a b : SchemaId} {begun started : List SchemaId} (twin : Twin t u i j)
    (first : t.Valid root) (second : u.Valid root) (open_first : t.unfinished = a :: begun)
    (open_second : u.unfinished = b :: started) (same : node.outline = other.outline) :
    Twin (t.closed a node) (u.closed b other) i j := by
  have inside : a < t.arena.size := first.begun a (open_first ▸ List.mem_cons_self)
  have beside : b < u.arena.size := second.begun b (open_second ▸ List.mem_cons_self)
  have fresh : a ∉ begun := (List.nodup_cons.mp (open_first ▸ first.distinct)).1
  have unused : b ∉ started := (List.nodup_cons.mp (open_second ▸ second.distinct)).1
  unfold Twin at twin ⊢
  simp only [Resolver.closed, open_first, open_second, List.erase_cons_head, List.zip_cons_cons,
    List.mem_cons] at twin ⊢
  rcases twin with (pair | pair) | ⟨one, two, drawn⟩
  · cases pair
    refine Or.inr ⟨fresh, unused, ?_⟩
    rw [SchemaArena.node_set_same inside, SchemaArena.node_set_same beside, same]
  · exact Or.inl pair
  · have one := not_or.mp one
    have two := not_or.mp two
    refine Or.inr ⟨one.2, two.2, ?_⟩
    rw [SchemaArena.node_set_other one.1, SchemaArena.node_set_other two.1, drawn]

/-- Two resolvers on the same way. What the second has met the first has met as well, and the first
has met more only where `k` had. -/
structure Paired (root : Json) (k r s : Resolver) : Prop where
  first : r.Valid root
  second : s.Valid root
  aliases : r.aliases = s.aliases
  twins : ∀ pointer j, s.memo.get? pointer = some j →
    ∃ i, r.memo.get? pointer = some i ∧ Twin r s i j
  shared : ∀ pointer, r.Met pointer → ¬ k.Met pointer → s.Met pointer
  settled : ∀ pointer outline, k.Known pointer outline → r.Known pointer outline
  shares : ∀ pointer other j, k.Met pointer → k.Met other → s.memo.get? pointer = some j →
    s.memo.get? other = some j → k.memo.get? pointer = k.memo.get? other

/-- Two walks that have moved on together. -/
structure Abreast (root : Json) (k r s r' s' : Resolver) : Prop where
  first : Advances root r r'
  second : Advances root s s'
  paired : Paired root k r' s'

theorem Abreast.refl (paired : Paired root k r s) : Abreast root k r s r s :=
  ⟨.refl paired.first, .refl paired.second, paired⟩

theorem Abreast.trans (start : Abreast root k r s r' s') (onward : Abreast root k r' s' t u) :
    Abreast root k r s t u :=
  ⟨start.first.trans onward.first, start.second.trans onward.second, onward.paired⟩

/-- The start: the complete resolver itself, and one that knows nothing. -/
theorem Paired.start (complete : Complete root k) (idle : k.aliases = []) : Paired root k k {} where
  first := complete.valid
  second := .empty root
  aliases := idle
  twins := fun _ _ found => by cases found
  shared := fun _ met unmet => absurd met unmet
  settled := fun _ _ known => known
  shares := fun _ _ _ _ _ found => by cases found

/-- The second has met no more, so it has at least as far to go. -/
theorem Paired.allowance_le (paired : Paired root k r s) (depth : Nat) :
    r.allowance root depth ≤ s.allowance root depth := by
  refine Nat.add_le_add_right (Nat.mul_le_mul_right _ (untried_le fun pointer left => ?_)) depth
  refine ⟨?_, paired.aliases ▸ left.2⟩
  cases found : s.memo.get? pointer with
  | none => rfl
  | some j =>
    obtain ⟨i, known, -⟩ := paired.twins pointer j found
    cases known.symm.trans left.1

theorem Paired.absent (paired : Paired root k r s) (unmet : ¬ k.Met pointer) :
    r.memo.get? pointer = none ↔ s.memo.get? pointer = none := by
  constructor
  · intro absent
    cases found : s.memo.get? pointer with
    | none => rfl
    | some j =>
      obtain ⟨i, known, -⟩ := paired.twins pointer j found
      cases known.symm.trans absent
  · intro absent
    cases found : r.memo.get? pointer with
    | none => rfl
    | some i =>
      obtain ⟨j, known⟩ := paired.shared pointer ⟨i, found⟩ unmet
      cases known.symm.trans absent

/-- Where the second has met what `k` knows, it has finished it. -/
theorem Paired.familiar (paired : Paired root k r s) : Familiar root k s.arena.size s where
  valid := paired.second
  since := Nat.le_refl _
  agrees := fun pointer outline j known found => by
    obtain ⟨i, at_first, twin⟩ := paired.twins pointer j found
    obtain ⟨place, also, finished⟩ := paired.settled pointer outline known
    cases at_first.symm.trans also
    exact ⟨fun member => absurd (twin.begun.mpr member) finished.complete,
      fun _ => (twin.drawn finished.complete).symm.trans finished.drawn⟩
  shares := paired.shares

/-- The second alone repeats what `k` knows. -/
theorem Paired.repeats (complete : Complete root k) (paired : Paired root k r s)
    (repeats : Repeats root k s.arena.size s s') : Paired root k r s' where
  first := paired.first
  second := repeats.valid
  aliases := paired.aliases.trans repeats.aliases.symm
  twins := fun pointer j found => by
    by_cases met : k.Met pointer
    · obtain ⟨outline, known⟩ := complete.known met
      obtain ⟨i, at_first, finished⟩ := paired.settled pointer outline known
      have draft := repeats.familiar.agrees pointer outline j known found
      have old : j ∉ s'.unfinished := fun member => by
        have begun := paired.second.begun j (repeats.unfinished ▸ member)
        exact Nat.lt_irrefl _ (Nat.lt_of_lt_of_le begun (draft.recent member))
      exact ⟨i, at_first, Or.inr ⟨finished.complete, old,
        finished.drawn.trans (draft.drawn old).symm⟩⟩
    · rw [repeats.outside pointer met] at found
      obtain ⟨i, at_first, twin⟩ := paired.twins pointer j found
      exact ⟨i, at_first, twin.advance (.refl paired.first) repeats.toAdvances
        (paired.first.placed _ _ at_first) (paired.second.placed _ _ found)⟩
  shared := fun pointer met unmet => (paired.shared pointer met unmet).imp fun _ => repeats.get?
  settled := paired.settled
  shares := repeats.familiar.shares

/-- Steps of both that leave the memos alone. -/
theorem Paired.grow (paired : Paired root k r s) (first : Advances root r r')
    (second : Advances root s s') (memo : r'.memo = r.memo) (store : s'.memo = s.memo) :
    Paired root k r' s' where
  first := first.valid
  second := second.valid
  aliases := first.aliases.trans (paired.aliases.trans second.aliases.symm)
  twins := fun pointer j found => by
    rw [store] at found
    obtain ⟨i, at_first, twin⟩ := paired.twins pointer j found
    exact ⟨i, memo ▸ at_first, twin.advance first second (paired.first.placed _ _ at_first)
      (paired.second.placed _ _ found)⟩
  shared := fun pointer met unmet => by
    unfold Met at met ⊢
    rw [memo] at met
    rw [store]
    exact paired.shared pointer met unmet
  settled := fun pointer outline known =>
    (first.keeps paired.first).known _ _ (paired.settled pointer outline known)
  shares := store ▸ paired.shares

theorem Abreast.push (paired : Paired root k r s) (below : node.Below r.arena.size)
    (beside : other.Below s.arena.size) :
    Abreast root k r s (r.push node) (s.push other) :=
  have first := (Advances.refl paired.first).push below
  have second := (Advances.refl paired.second).push beside
  ⟨first, second, paired.grow first second rfl rfl⟩

theorem Twin.push (paired : Paired root k r s) (same : node.outline = other.outline) :
    Twin (r.push node) (s.push other) r.arena.size s.arena.size := by
  refine Or.inr ⟨paired.first.fresh, paired.second.fresh, ?_⟩
  simp only [Resolver.push, SchemaArena.node_push_new, same]

theorem Paired.opened (paired : Paired root k r s) (absent : r.memo.get? pointer = none)
    (missing : s.memo.get? pointer = none) (unmet : ¬ k.Met pointer)
    (found : root.lookup pointer = .ok target) (plain : target.reference? = none) :
    Paired root k (r.opened pointer) (s.opened pointer) where
  first := paired.first.opened absent found plain
  second := paired.second.opened missing found plain
  aliases := paired.aliases
  twins := fun other j at_second => by
    rw [get?_opened missing] at at_second
    rw [get?_opened absent]
    split at at_second
    · next same =>
      cases at_second
      exact ⟨_, if_pos same, Or.inl List.mem_cons_self⟩
    · next apart =>
      obtain ⟨i, at_first, twin⟩ := paired.twins other j at_second
      exact ⟨i, (if_neg apart).trans at_first, twin.opened (paired.first.placed _ _ at_first)
        (paired.second.placed _ _ at_second)⟩
  shared := fun other met unmet => by
    by_cases same : other = pointer
    · exact ⟨s.arena.size, by rw [get?_opened missing, if_pos same]⟩
    · obtain ⟨i, at_first⟩ := met
      rw [get?_opened absent, if_neg same] at at_first
      exact (paired.shared other ⟨i, at_first⟩ unmet).imp fun _ => (grows_opened missing).get?
  settled := fun other outline known =>
    (paired.first.keeps_opened absent).known _ _ (paired.settled other outline known)
  shares := fun one two j met_one met_two at_one at_two => by
    have first : one ≠ pointer := fun same => unmet (same ▸ met_one)
    have second : two ≠ pointer := fun same => unmet (same ▸ met_two)
    rw [get?_opened missing, if_neg first] at at_one
    rw [get?_opened missing, if_neg second] at at_two
    exact paired.shares one two j met_one met_two at_one at_two

theorem Paired.closed {a b : SchemaId} {begun started : List SchemaId} (paired : Paired root k t u)
    (open_first : t.unfinished = a :: begun) (open_second : u.unfinished = b :: started)
    (same : node.outline = other.outline) (first : (t.closed a node).Valid root)
    (second : (u.closed b other).Valid root) :
    Paired root k (t.closed a node) (u.closed b other) where
  first := first
  second := second
  aliases := paired.aliases
  twins := fun pointer j found => by
    obtain ⟨i, at_first, twin⟩ := paired.twins pointer j found
    exact ⟨i, at_first, twin.closed paired.first paired.second open_first open_second same⟩
  shared := paired.shared
  settled := fun pointer outline known =>
    (keeps_closed (open_first ▸ List.mem_cons_self)).known _ _
      (paired.settled pointer outline known)
  shares := paired.shares

theorem Paired.entered (paired : Paired root k r s) (follows : IsAlias root pointer) :
    Paired root k (r.entered pointer) (s.entered pointer) :=
  { paired with
    first := paired.first.entered follows
    second := paired.second.entered follows
    aliases := congrArg (pointer :: ·) paired.aliases
    settled := fun other outline known =>
      (paired.first.keeps grows_entered fun _ _ => Iff.rfl).known _ _
        (paired.settled other outline known) }

theorem Paired.remembered (paired : Paired root k r s) (twin : Twin r s i j)
    (absent : r.memo.get? pointer = none) (missing : s.memo.get? pointer = none)
    (unmet : ¬ k.Met pointer) (first : (r.left.remembered pointer i).Valid root)
    (second : (s.left.remembered pointer j).Valid root) :
    Paired root k (r.left.remembered pointer i) (s.left.remembered pointer j) where
  first := first
  second := second
  aliases := congrArg List.tail paired.aliases
  twins := fun other place at_second => by
    rw [get?_remembered (r := s.left) missing] at at_second
    rw [get?_remembered (r := r.left) absent]
    split at at_second
    · next same =>
      cases at_second
      exact ⟨i, if_pos same, twin⟩
    · next apart =>
      obtain ⟨at_first, known, also⟩ := paired.twins other place at_second
      exact ⟨at_first, (if_neg apart).trans known, also⟩
  shared := fun other met unmet => by
    by_cases same : other = pointer
    · exact ⟨j, by rw [get?_remembered (r := s.left) missing, if_pos same]⟩
    · obtain ⟨place, at_first⟩ := met
      rw [get?_remembered (r := r.left) absent, if_neg same] at at_first
      obtain ⟨found, at_second⟩ := paired.shared other ⟨place, at_first⟩ unmet
      refine ⟨found, ?_⟩
      rw [get?_remembered (r := s.left) missing, if_neg same]
      exact at_second
  settled := fun other outline known => by
    obtain ⟨place, at_first, finished⟩ := paired.settled other outline known
    have apart : other ≠ pointer := fun same => by
      rw [same, absent] at at_first
      cases at_first
    refine ⟨place, ?_, finished.complete, finished.drawn⟩
    rw [get?_remembered (r := r.left) absent, if_neg apart]
    exact at_first
  shares := fun one two place met_one met_two at_one at_two => by
    have first : one ≠ pointer := fun same => unmet (same ▸ met_one)
    have second : two ≠ pointer := fun same => unmet (same ▸ met_two)
    rw [get?_remembered (r := s.left) missing, if_neg first] at at_one
    rw [get?_remembered (r := s.left) missing, if_neg second] at at_two
    exact paired.shares one two place met_one met_two at_one at_two

end HttpPlan.Resolver
