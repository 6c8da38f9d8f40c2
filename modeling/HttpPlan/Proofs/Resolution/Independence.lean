import HttpPlan.Proofs.Resolution.Lockstep

/-! A walk does not depend on what was resolved before it: whatever a complete resolver knows
already, the walk comes to the same outline, or to the same error, as one that begins with nothing,
as long as that one does not meet a definition that it is walking itself. -/
namespace HttpPlan.Resolver

variable {root whole value target : Json} {k r s r' s' : Resolver} {walk : Walk}
  {node other : SchemaNode} {i j : SchemaId} {fuel : Nat} {pointer next location : String}
  {role : Role} {child : Child} {step : Step} {steps : List Step}

/-- Two walks that come to places of the same outline. -/
def Alike (root : Json) (k r s : Resolver) (i : SchemaId) (r' : Resolver) (j : SchemaId)
    (s' : Resolver) : Prop :=
  Abreast root k r s r' s' ∧ Twin r' s' i j

/-- Two walks that come to nodes of the same outline. -/
def Similar (root : Json) (k r s : Resolver) (node : SchemaNode) (r' : Resolver)
    (other : SchemaNode) (s' : Resolver) : Prop :=
  Abreast root k r s r' s' ∧ node.outline = other.outline

/-- Walks of the parts of `whole` from wherever the two have come to. -/
def PartsAgree (root whole : Json) (walk : Walk) (k r s : Resolver) : Prop :=
  ∀ part location r' s', part.Inside whole → Abreast root k r s r' s' →
    Agrees root (walk part location) r' (walk part location) s' (Alike root k r' s')

/-- Twins are both complete or both not, and the outlines of all that is joined are the same. -/
theorem agrees_join (twin : Twin r s i j) (same : node.outline = other.outline) :
    Agrees root (join node i role) r (join other j role) s
      (fun merged t also u => t = r ∧ u = s ∧ merged.outline = also.outline) := by
  have told : (role.IsPart → i ∉ r.unfinished) →
      node.outline.join (r.arena.node i).outline role =
        other.outline.join (s.arena.node j).outline role := by
    intro part
    by_cases inherits : role.IsPart
    · rw [same, twin.drawn (part inherits)]
    · rw [same, Outline.join_other inherits]
  rcases join_cases other j role s with ⟨also, run, joins, part⟩ | ⟨place, rfl, begun, run⟩ |
      ⟨place, construct, rfl, begun, joins, run⟩
  · have complete : role.IsPart → i ∉ r.unfinished := fun inherits member =>
      part inherits (twin.begun.mp member)
    rcases join_cases node i role r with ⟨merged, walked, alike, -⟩ | ⟨place, rfl, member, -⟩ |
        ⟨place, construct, rfl, -, alike, -⟩
    · rw [Agrees, run]
      exact ⟨merged, r, walked, rfl, rfl, Except.ok.inj (alike.symm.trans ((told complete).trans joins))⟩
    · exact absurd member (complete trivial)
    · cases alike.symm.trans ((told complete).trans joins)
  · rw [Agrees, run]
    exact Or.inl trivial
  · have complete : i ∉ r.unfinished := fun member => begun (twin.begun.mp member)
    rcases join_cases node i (.part place) r with ⟨merged, -, alike, -⟩ | ⟨_, -, member, -⟩ |
        ⟨_, _, at_place, -, alike, walked⟩
    · cases alike.symm.trans ((told fun _ => complete).trans joins)
    · exact absurd member complete
    · rw [Agrees, run]
      cases at_place
      cases alike.symm.trans ((told fun _ => complete).trans joins)
      exact Or.inr ⟨r, walked⟩

theorem agrees_place (of : (Step.child role child).Of whole) (paired : Paired root k r s)
    (parts : PartsAgree root whole walk k r s) :
    Agrees root (place walk child) r (place walk child) s (Alike root k r s) := by
  cases of with
  | fresh _ childless =>
    exact ⟨_, _, rfl, Abreast.push paired (SchemaNode.below_of_childless childless _)
      (SchemaNode.below_of_childless childless _), Twin.push paired rfl⟩
  | walked _ location inside => exact parts _ location r s inside (.refl paired)

theorem agrees_take (of : step.Of whole) (parts : PartsAgree root whole walk k r s)
    (similar : Similar root k r s node r' other s') :
    Agrees root (take walk node step) r' (take walk other step) s' (Similar root k r s) := by
  obtain ⟨abreast, same⟩ := similar
  cases step with
  | refuse error => exact agrees_throw
  | child role child =>
    have placing := agrees_place of abreast.paired fun part location t u inside onward =>
      parts part location t u inside (abreast.trans onward)
    refine placing.bind fun i t j u ⟨onward, twin⟩ => ?_
    apply (agrees_join twin same).mono
    rintro merged _ also _ ⟨rfl, rfl, outlines⟩
    exact ⟨abreast.trans onward, outlines⟩
  | settle =>
    refine agrees_pure ⟨abreast, ?_⟩
    rw [SchemaNode.outline_dropObjectItems, SchemaNode.outline_dropObjectItems, same]
  | unite => exact agrees_pure ⟨abreast, rfl⟩

theorem agrees_buildNode (location : String) (paired : Paired root k r s)
    (parts : PartsAgree root value walk k r s) :
    Agrees root (buildNode walk value location) r (buildNode walk value location) s
      (Similar root k r s) :=
  agrees_foldlM (fun _ member _ _ _ _ => agrees_take (Json.blueprint_of member) parts)
    ⟨.refl paired, rfl⟩

theorem agrees_following {x y : Resolve SchemaId}
    {done : SchemaId → Resolver → SchemaId → Resolver → Prop}
    (agrees : Agrees root x (r.entered pointer) y (s.entered pointer) done) :
    Agrees root (following pointer x) r (following pointer y) s
      (fun i r' j s' => ∃ t u, r' = t.left ∧ s' = u.left ∧ done i t j u) := by
  cases run : y (s.entered pointer) with
  | ok j u =>
    rw [Agrees, run] at agrees
    obtain ⟨i, t, walked, now⟩ := agrees
    rw [Agrees, following_eq (x := y), run]
    refine ⟨i, t.left, ?_, t, u, rfl, rfl, now⟩
    rw [following_eq, walked]
  | error e u =>
    rw [Agrees, run] at agrees
    rw [Agrees, following_eq (x := y), run]
    rcases agrees with reentrant | ⟨t, walked⟩
    · exact Or.inl reentrant
    · refine Or.inr ⟨t.left, ?_⟩
      rw [following_eq, walked]

/-- Walks of any part of the document from two resolvers on the same way. -/
def SchemasAgree (root : Json) (k : Resolver) (fuel : Nat) : Prop :=
  ∀ value location r s, value.Within root → Paired root k r s →
    s.allowance root value.depth + 2 ≤ fuel →
    Agrees root (schema root fuel value location) r (schema root fuel value location) s
      (Alike root k r s)

def ReferencesAgree (root : Json) (k : Resolver) (fuel : Nat) : Prop :=
  ∀ pointer r s, pointer ∈ root.references → Paired root k r s → s.allowance root 0 + 1 ≤ fuel →
    Agrees root (reference root fuel pointer) r (reference root fuel pointer) s
      (Alike root k r s)

theorem SchemasAgree.parts (schemas : SchemasAgree root k fuel) (within : value.Within root)
    (room : s.allowance root value.depth + 1 ≤ fuel) :
    PartsAgree root value (schema root fuel) k r s := by
  intro part location r' s' inside abreast
  exact schemas part location r' s' (within.part inside) abreast.paired
    (allowance_part inside abreast.second room)

theorem agrees_schema (references : ReferencesAgree root k fuel) (schemas : SchemasAgree root k fuel) :
    SchemasAgree root k (fuel + 1) := by
  intro value location r s within paired room
  unfold schema
  cases follows : value.reference? with
  | some pointer =>
    exact references pointer r s (within.references (Json.mem_references_of_reference? follows))
      paired (allowance_referred room)
  | none =>
    have room : s.allowance root value.depth + 1 ≤ fuel := by omega
    have enough : r.allowance root value.depth + 1 ≤ fuel :=
      Nat.le_trans (Nat.succ_le_succ (paired.allowance_le _)) room
    have placed := (walks root fuel).1
    have together := agrees_buildNode location paired (schemas.parts within room)
    have here := yields_buildNode location paired.first (placed.parts within enough)
    have there := yields_buildNode location paired.second (placed.parts within room)
    apply (together.and here there).bind
    rintro node r' other s' ⟨⟨abreast, same⟩, ⟨⟨_, below⟩, _⟩, ⟨_, beside⟩, _⟩
    exact ⟨_, _, rfl, abreast.trans (.push abreast.paired below beside),
      Twin.push abreast.paired same⟩

/-- The first knows the place already, and the second repeats what led to it. -/
theorem agrees_reference_met (complete : Complete root k) (inside : pointer ∈ root.references)
    (paired : Paired root k r s) (room : s.allowance root 0 + 1 ≤ fuel + 1) (met : k.Met pointer) :
    Agrees root (reference root (fuel + 1) pointer) r (reference root (fuel + 1) pointer) s
      (Alike root k r s) := by
  obtain ⟨outline, known⟩ := complete.known met
  obtain ⟨i, at_first, -⟩ := paired.settled pointer outline known
  have again := (repeats complete s.arena.size (fuel + 1)).2 pointer s inside paired.familiar room met
  apply (again.agrees (reference_met at_first)).mono
  rintro _ _ j s' ⟨rfl, rfl, repeated, at_second⟩
  have now := paired.repeats complete repeated
  obtain ⟨place, also, twin⟩ := now.twins pointer j at_second
  cases at_first.symm.trans also
  exact ⟨⟨.refl paired.first, repeated.toAdvances, now⟩, twin⟩

theorem agrees_alias (references : ReferencesAgree root k fuel) (inside : pointer ∈ root.references)
    (paired : Paired root k r s) (unmet : ¬ k.Met pointer)
    (absent : r.memo.get? pointer = none) (missing : s.memo.get? pointer = none)
    (found : root.lookup pointer = .ok target) (follows : target.reference? = some next)
    (room : s.allowance root 0 + 1 ≤ fuel + 1) (idle : pointer ∉ s.aliases) :
    Agrees root (following pointer (reference root fuel next)) r
      (following pointer (reference root fuel next)) s
      (fun i r' j s' => Alike root k r s i (r'.remembered pointer i) j (s'.remembered pointer j)) := by
  have within := Json.lookup_within found
  have enough : r.allowance root 0 + 1 ≤ fuel + 1 :=
    Nat.le_trans (Nat.succ_le_succ (paired.allowance_le 0)) room
  have resolved := (walks root fuel).2
  have onward := references next (r.entered pointer) (s.entered pointer)
    (within.references (Json.mem_references_of_reference? follows))
    (paired.entered ⟨target, next, found, follows⟩) (allowance_entered idle inside missing room)
  have here := yields_alias resolved paired.first inside absent found follows enough
    (paired.aliases ▸ idle)
  have there := yields_alias resolved paired.second inside missing found follows room idle
  apply ((agrees_following onward).and here there).mono
  rintro i _ j _ ⟨⟨t, u, rfl, rfl, abreast, twin⟩, ⟨unknown, ⟨first, _⟩, _⟩,
    fresh, ⟨second, _⟩, _⟩
  exact ⟨⟨first, second, abreast.paired.remembered twin unknown fresh unmet first.valid
    second.valid⟩, twin⟩

theorem agrees_definition (schemas : SchemasAgree root k fuel) (inside : pointer ∈ root.references)
    (paired : Paired root k r s) (unmet : ¬ k.Met pointer)
    (absent : r.memo.get? pointer = none) (missing : s.memo.get? pointer = none)
    (found : root.lookup pointer = .ok target) (plain : target.reference? = none)
    (room : s.allowance root 0 + 1 ≤ fuel + 1) :
    Agrees root (buildNode (schema root fuel) target pointer) (r.opened pointer)
      (buildNode (schema root fuel) target pointer) (s.opened pointer)
      (fun node t other u => Alike root k r s
        r.arena.size (t.closed r.arena.size (definitionNode pointer node))
        s.arena.size (u.closed s.arena.size (definitionNode pointer other))) := by
  have idle := paired.second.not_followed found plain
  have enough : r.allowance root 0 + 1 ≤ fuel + 1 :=
    Nat.le_trans (Nat.succ_le_succ (paired.allowance_le 0)) room
  have placed := (walks root fuel).1
  have parts := schemas.parts (r := r.opened pointer) (Json.lookup_within found)
    (allowance_opened idle inside missing found room)
  have together := agrees_buildNode pointer (paired.opened absent missing unmet found plain) parts
  have here := yields_definition placed paired.first inside absent found plain enough
  have there := yields_definition placed paired.second inside missing found plain room
  apply (together.and here there).mono
  rintro node t other u ⟨⟨abreast, same⟩, ⟨⟨first, _⟩, _⟩, ⟨second, _⟩, _⟩
  have open_first : t.unfinished = r.arena.size :: r.unfinished := abreast.first.unfinished
  have open_second : u.unfinished = s.arena.size :: s.unfinished := abreast.second.unfinished
  have outlines : (definitionNode pointer node).outline = (definitionNode pointer other).outline :=
    same
  refine ⟨⟨first, second, abreast.paired.closed open_first open_second outlines first.valid
    second.valid⟩, ?_⟩
  refine Twin.closed (Or.inl ?_) abreast.paired.first abreast.paired.second open_first open_second
    outlines
  rw [open_first, open_second]
  exact List.mem_cons_self

theorem agrees_reference (complete : Complete root k) (references : ReferencesAgree root k fuel)
    (schemas : SchemasAgree root k fuel) : ReferencesAgree root k (fuel + 1) := by
  intro pointer r s inside paired room
  by_cases met : k.Met pointer
  · exact agrees_reference_met complete inside paired room met
  cases missing : s.memo.get? pointer with
  | some j =>
    obtain ⟨i, at_first, twin⟩ := paired.twins pointer j missing
    rw [Agrees, reference_met missing]
    exact ⟨i, r, reference_met at_first, .refl paired, twin⟩
  | none =>
    have absent : r.memo.get? pointer = none := (paired.absent met).mpr missing
    cases found : root.lookup pointer with
    | error e =>
      rw [Agrees, reference_missing missing found]
      exact Or.inr ⟨r, reference_missing absent found⟩
    | ok target =>
      cases follows : target.reference? with
      | none =>
        exact agrees_of_run (reference_definition absent found follows)
          (reference_definition missing found follows)
          ((agrees_definition schemas inside paired met absent missing found follows room).bind
            fun node t other u alike => ⟨_, _, rfl, alike⟩)
      | some next =>
        by_cases member : pointer ∈ s.aliases
        · rw [Agrees, reference_circular missing found follows member]
          exact Or.inr ⟨r, reference_circular absent found follows (paired.aliases ▸ member)⟩
        · exact agrees_of_run (reference_alias absent found follows (paired.aliases ▸ member))
            (reference_alias missing found follows member)
            ((agrees_alias references inside paired met absent missing found follows room
              member).bind fun i t j u alike => ⟨_, _, rfl, alike⟩)

theorem agreements (complete : Complete root k) (fuel : Nat) :
    SchemasAgree root k fuel ∧ ReferencesAgree root k fuel := by
  induction fuel with
  | zero =>
    exact ⟨fun _ _ _ _ _ _ room => absurd room (by omega), fun _ _ _ _ _ room => absurd room (by omega)⟩
  | succ fuel ih => exact ⟨agrees_schema ih.2 ih.1, agrees_reference complete ih.2 ih.1⟩

theorem agrees_schemaId (complete : Complete root k) (within : value.Within root)
    (paired : Paired root k r s) :
    Agrees root (schemaId root value location) r (schemaId root value location) s
      (Alike root k r s) :=
  (agreements complete _).1 value location r s within paired (allowance_le_budget within s)

theorem agrees_inlineNode (complete : Complete root k) (within : value.Within root)
    (paired : Paired root k r s) :
    Agrees root (inlineNode root value location) r (inlineNode root value location) s
      (Similar root k r s) :=
  agrees_buildNode _ paired ((agreements complete _).1.parts within
    (Nat.le_of_succ_le (allowance_le_budget within s)))

end HttpPlan.Resolver
