import HttpPlan.Proofs.Resolution.Repetition
import HttpPlan.Proofs.Schema.Shape

/-! Which aliases a walk reports as circular. The stack of aliases is kept while definitions are
walked, so a report names an alias that leads back to itself, through the properties, items and
parts of definitions as well as through other aliases. -/
namespace HttpPlan

namespace Json

/-- Walking a schema comes to a reference: it is that reference, or what it refers to comes there,
or one of the schemas that are walked for its node. -/
inductive WalksTo (root : Json) : Json → String → Prop
  | here {value : Json} {pointer : String} (follows : value.reference? = some pointer) :
      WalksTo root value pointer
  | through {value target : Json} {next pointer : String} (follows : value.reference? = some next)
      (found : root.lookup next = .ok target) (onward : WalksTo root target pointer) :
      WalksTo root value pointer
  | child {whole part : Json} {pointer : String} (plain : whole.reference? = none)
      (listed : part ∈ whole.walked) (onward : WalksTo root part pointer) :
      WalksTo root whole pointer

/-- Following a reference comes to another. -/
def FollowsTo (root : Json) (pointer named : String) : Prop :=
  named = pointer ∨ ∃ target, root.lookup pointer = .ok target ∧ root.WalksTo target named

/-- What a reference points at comes back to it. -/
def LoopsBack (root : Json) (pointer : String) : Prop :=
  ∃ target, root.lookup pointer = .ok target ∧ root.WalksTo target pointer

variable {root value whole part : Json} {pointer next named location : String} {error : BuildError}

theorem FollowsTo.of_reference (leads : root.FollowsTo pointer named)
    (follows : value.reference? = some pointer) : root.WalksTo value named := by
  rcases leads with rfl | ⟨target, found, onward⟩
  · exact .here follows
  · exact .through follows found onward

theorem lookup_ne_circular (missing : root.lookup pointer = .error error) :
    error ≠ .unsupportedConstruct named .circularAlias := by
  rintro rfl
  unfold lookup at missing
  split at missing
  · split at missing <;> cases missing
  · cases missing

/-- A schema is not refused as a circular alias. -/
theorem blueprint_refuse (member : .refuse error ∈ (whole.blueprint location).2) :
    error ≠ .unsupportedConstruct named .circularAlias := by
  rintro rfl
  unfold blueprint at member
  split at member
  · split at member
    · cases List.mem_singleton.mp member
    · split at member
      · next construct fault =>
        obtain ⟨name, rfl⟩ := SchemaNode.ofKeywords_error fault
        cases List.mem_singleton.mp member
      · simp only [List.mem_append, or_assoc] at member
        rcases member with own | parts | some | any
        · simp [Step.ofKeywords] at own
        · unfold Step.ofParts at parts
          split at parts <;> simp at parts
        · unfold Step.ofAlternatives at some
          split at some <;> simp at some
        · unfold Step.ofAlternatives at any
          split at any <;> simp at any
  · cases member

end Json

namespace Resolver

variable {α : Type} {x : Resolve α} {root value whole target : Json} {r s t : Resolver}
  {walk : Walk} {node : SchemaNode} {id : SchemaId} {role : Role} {child : Child} {step : Step}
  {pointer next named location : String} {leads more : String → Prop} {fuel : Nat}

/-- No reference is forgotten, and the stack of aliases is as it was. -/
structure Stays (r s : Resolver) : Prop where
  aliases : s.aliases = r.aliases
  unmet : ∀ pointer, s.memo.get? pointer = none → r.memo.get? pointer = none

theorem Stays.refl (r : Resolver) : Stays r r := ⟨rfl, fun _ absent => absent⟩

theorem Stays.trans (first : Stays r s) (last : Stays s t) : Stays r t :=
  ⟨last.aliases.trans first.aliases, fun _ absent => first.unmet _ (last.unmet _ absent)⟩

/-- An alias that is reported as circular by a walk that begins in `r`. -/
structure Reported (root : Json) (r : Resolver) (leads : String → Prop) (named : String) :
    Prop where
  follows : IsAlias root named
  unmet : r.memo.get? named = none
  led : leads named
  back : named ∈ r.aliases ∨ root.LoopsBack named

theorem Reported.before (reported : Reported root s leads named) (stays : Stays r s)
    (wider : ∀ pointer, leads pointer → more pointer) : Reported root r more named where
  follows := reported.follows
  unmet := stays.unmet named reported.unmet
  led := wider named reported.led
  back := reported.back.imp_left fun member => stays.aliases ▸ member

/-- A step of a walk that began in `r`: it reports no alias as circular without a reason. -/
abbrev Tracks (root : Json) (r : Resolver) (x : Resolve α) (s : Resolver) (leads : String → Prop) :
    Prop :=
  Yields x s (fun _ t => Stays r t) fun error _ =>
    ∀ named, error = .unsupportedConstruct named .circularAlias → Reported root r leads named

/-- What a step is to itself, it is to a walk that has come to it. -/
theorem Tracks.later (tracks : Tracks root s x s leads) (stays : Stays r s)
    (wider : ∀ pointer, leads pointer → more pointer) : Tracks root r x s more :=
  tracks.mono (fun _ _ onward => stays.trans onward) fun _ _ told named same =>
    (told named same).before stays wider

theorem tracks_join : Tracks root s (join node id role) s leads := by
  cases role with
  | part location =>
    rw [Tracks, Yields, join_part]
    by_cases begun : id ∈ s.unfinished
    · rw [if_pos begun]
      intro named same
      cases same
    · rw [if_neg begun]
      cases merges : node.absorb (s.arena.node id) with
      | ok merged => exact .refl s
      | error construct =>
        intro named same
        rcases SchemaNode.absorb_error merges with rfl | rfl
        · cases same
        · cases same
  | _ => exact .refl s

/-- Walks of the schemas that are listed for the node of `whole`. -/
def PartsTracked (root whole : Json) (walk : Walk) : Prop :=
  ∀ part location s, part ∈ whole.walked →
    Tracks root s (walk part location) s (root.WalksTo part)

theorem tracks_take (plain : whole.reference? = none) (parts : PartsTracked root whole walk)
    (listed : step ∈ (whole.blueprint location).2) :
    Tracks root s (take walk node step) s (root.WalksTo whole) := by
  cases step with
  | refuse error => exact fun _ same => absurd same (Json.blueprint_refuse listed)
  | settle => exact .refl s
  | unite => exact .refl s
  | child role child =>
    have placing : Tracks root s (place walk child) s (root.WalksTo whole) := by
      cases child with
      | fresh node => exact ⟨rfl, fun _ absent => absent⟩
      | walked part site =>
        have walked := Json.mem_walked.mpr ⟨role, site, listed⟩
        exact (parts part site s walked).later (.refl s) fun _ onward => .child plain walked onward
    exact placing.bind fun id t stays => tracks_join.later stays fun _ same => same

theorem tracks_buildNode (plain : whole.reference? = none) (parts : PartsTracked root whole walk) :
    Tracks root r (buildNode walk whole location) r (root.WalksTo whole) :=
  yields_foldlM
    (fun _ listed _ _ stays => (tracks_take plain parts listed).later stays fun _ same => same)
    (.refl r)

def SchemasTracked (root : Json) (fuel : Nat) : Prop :=
  ∀ value location r, Tracks root r (schema root fuel value location) r (root.WalksTo value)

def ReferencesTracked (root : Json) (fuel : Nat) : Prop :=
  ∀ pointer r, Tracks root r (reference root fuel pointer) r (root.FollowsTo pointer)

theorem tracks_schema (references : ReferencesTracked root fuel)
    (schemas : SchemasTracked root fuel) : SchemasTracked root (fuel + 1) := by
  intro value location r
  unfold schema
  split
  · next pointer follows =>
    exact (references pointer r).later (.refl r) fun _ leads => leads.of_reference follows
  · next plain =>
    have parts : PartsTracked root value (schema root fuel) := fun part site s _ =>
      schemas part site s
    exact (tracks_buildNode plain parts).bind fun node t stays =>
      ⟨stays.aliases, fun _ absent => stays.unmet _ absent⟩

/-- An alias is on the stack while it is followed, so one that is met again leads back to itself. -/
theorem tracks_alias (references : ReferencesTracked root fuel)
    (found : root.lookup pointer = .ok target) (follows : target.reference? = some next) :
    Tracks root r (following pointer (reference root fuel next)) r (root.FollowsTo pointer) := by
  refine yields_following.mpr ((references next (r.entered pointer)).mono ?_ ?_)
  · rintro id t ⟨aliases, unmet⟩
    exact ⟨by simp only [left, aliases, entered, List.tail_cons], unmet⟩
  · intro error t told named same
    have reported := told named same
    have onward := reported.led.of_reference follows
    refine ⟨reported.follows, reported.unmet, .inr ⟨target, found, onward⟩, ?_⟩
    rcases reported.back with member | loops
    · rcases List.mem_cons.mp member with rfl | member
      -- The innermost alias of the stack: what it points at has led to it again.
      · exact .inr ⟨target, found, onward⟩
      · exact .inl member
    · exact .inr loops

theorem tracks_definition (schemas : SchemasTracked root fuel)
    (absent : r.memo.get? pointer = none) (found : root.lookup pointer = .ok target)
    (plain : target.reference? = none) :
    Tracks root r (buildNode (schema root fuel) target pointer) (r.opened pointer)
      (root.FollowsTo pointer) := by
  have parts : PartsTracked root target (schema root fuel) := fun part site s _ =>
    schemas part site s
  have opened : Stays r (r.opened pointer) := by
    refine ⟨rfl, fun other unknown => ?_⟩
    rw [get?_opened absent] at unknown
    split at unknown
    · cases unknown
    · exact unknown
  exact (tracks_buildNode plain parts).later opened fun _ onward => .inr ⟨target, found, onward⟩

theorem tracks_reference (references : ReferencesTracked root fuel)
    (schemas : SchemasTracked root fuel) : ReferencesTracked root (fuel + 1) := by
  intro pointer r
  cases absent : r.memo.get? pointer with
  | some id =>
    rw [Tracks, Yields, reference_met absent]
    exact .refl r
  | none =>
    cases found : root.lookup pointer with
    | error e =>
      rw [Tracks, Yields, reference_missing absent found]
      exact fun _ same => absurd same (Json.lookup_ne_circular found)
    | ok target =>
      cases follows : target.reference? with
      | none =>
        exact yields_of_run (reference_definition absent found follows)
          ((tracks_definition schemas absent found follows).bind fun node t stays =>
            ⟨stays.aliases, stays.unmet⟩)
      | some next =>
        by_cases met : pointer ∈ r.aliases
        · rw [Tracks, Yields, reference_circular absent found follows met]
          rintro named ⟨⟩
          exact ⟨⟨target, next, found, follows⟩, absent, .inl rfl, .inl met⟩
        · refine yields_of_run (reference_alias absent found follows met)
            ((tracks_alias references found follows).bind fun id t stays => ?_)
          refine ⟨stays.aliases, fun other unknown => stays.unmet other ?_⟩
          change (t.memo.insert pointer id).get? other = none at unknown
          rw [OrderedMap.get?_insert] at unknown
          split at unknown
          · cases unknown
          · exact unknown

theorem tracks (root : Json) (fuel : Nat) :
    SchemasTracked root fuel ∧ ReferencesTracked root fuel := by
  induction fuel with
  | zero => exact ⟨fun _ _ _ _ same => (nomatch same), fun _ _ _ same => (nomatch same)⟩
  | succ fuel ih => exact ⟨tracks_schema ih.2 ih.1, tracks_reference ih.2 ih.1⟩

variable {k : Resolver} {steps : List Step} {own last outline : Outline}

/-- A complete resolver tells the outline of every schema that is walked for a node it drew. -/
theorem Builds.tells (complete : Complete root k) (builds : Builds k own steps last)
    (listed : .child role (.walked value location) ∈ steps) :
    ∃ outline, Tells k value location outline := by
  induction steps generalizing own with
  | nil => cases listed
  | cons step rest ih =>
    cases step with
    | refuse error => cases builds
    | settle =>
      cases builds with
      | settle onward => exact ih onward ((List.mem_cons.mp listed).resolve_left nofun)
    | unite =>
      cases builds with
      | unite onward => exact ih onward ((List.mem_cons.mp listed).resolve_left nofun)
    | child role child =>
      obtain ⟨outline, next, told, joins, onward⟩ := builds.first_child complete
      rcases List.mem_cons.mp listed with same | later
      · cases same
        exact ⟨outline, told⟩
      · exact ih onward later

theorem Complete.tells (complete : Complete root k) (met : k.Met pointer)
    (found : root.lookup pointer = .ok target) : ∃ outline, Tells k target pointer outline := by
  obtain ⟨outline, known⟩ := complete.known met
  refine ⟨outline, ?_⟩
  unfold Tells
  split
  · next follows => exact known.shared (complete.shared met found follows)
  · next plain => exact complete.drawn known found plain

/-- A complete resolver has met all that a walk of what it knows comes to. -/
theorem Complete.meets (complete : Complete root k) (walks : root.WalksTo value pointer)
    (told : Tells k value location outline) : k.Met pointer := by
  induction walks generalizing location outline with
  | here follows =>
    unfold Tells at told
    rw [follows] at told
    obtain ⟨id, found, -⟩ := told
    exact ⟨id, found⟩
  | through follows found _ ih =>
    unfold Tells at told
    rw [follows] at told
    obtain ⟨id, known, -⟩ := told
    obtain ⟨outline, told⟩ := complete.tells ⟨id, known⟩ found
    exact ih told
  | child plain listed _ ih =>
    unfold Tells at told
    rw [plain] at told
    obtain ⟨role, site, step⟩ := Json.mem_walked.mp listed
    obtain ⟨outline, told⟩ := Builds.tells complete told step
    exact ih told

end Resolver

end HttpPlan
