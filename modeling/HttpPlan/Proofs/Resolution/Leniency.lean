import HttpPlan.Proofs.Resolution.Translation
import HttpPlan.Proofs.Schema.Admission

/-! A translation is never stricter than its schema: the place of a schema that merges nothing
allows every value that is valid for it. -/
namespace HttpPlan

/-- What of a node its children do not change. -/
def SchemaNode.rules (node : SchemaNode) : SchemaNode :=
  { node with
    kind := .unknown, name := none, properties := ∅, items := none, variants := [],
    nullable := false }

/-- Beside its kind, a node bears what its unchanging fields bear. -/
theorem SchemaNode.bears_iff {node : SchemaNode} {v : Json} {accepts : String → String → Prop} :
    node.Bears accepts v ↔
      (∀ type, node.kind = .typed type → v.HasType type) ∧ node.rules.Bears accepts v :=
  ⟨fun bears => ⟨bears.kind, { bears with kind := fun _ typed => by cases typed }⟩,
    fun both => { both.2 with kind := both.1 }⟩

/-- A node that has a kind and nothing else. -/
theorem SchemaArena.allows_kind {arena : SchemaArena} {id : SchemaId} {v : Json}
    {accepts : String → String → Prop} {kind : SchemaKind} {name : Option String}
    (here : arena.node id = { kind, name }) (single : kind ≠ .union)
    (typed : ∀ type, kind = .typed type → v.HasType type) : arena.Allows accepts id v := by
  refine .fields (by rw [here]) ?_ ?_ ?_ id ?_ ?_
  · rw [here]
    exact {
      kind := typed
      minimum := fun _ _ _ found => by cases found
      maximum := fun _ _ _ found => by cases found
      minLength := fun _ _ _ found => by cases found
      maxLength := fun _ _ _ found => by cases found
      pattern := fun _ _ _ found => by cases found
      required := fun _ member => by cases member }
  · intro key child w member
    rw [here] at member
    cases member
  · intro child vs w found
    rw [here] at found
    cases found
  · intro union
    rw [here] at union
    exact absurd union single
  · intro union
    rw [here] at union
    exact absurd union single

namespace Resolver

variable {root schema v : Json} {r : Resolver} {accepts : String → String → Prop}
  {own next last : SchemaNode} {id : SchemaId} {role : Role} {step : Step} {steps more : List Step}
  {site : String} {types : List JsonType}

/-- One step of a blueprint. -/
inductive Taken (r : Resolver) (own : SchemaNode) : Step → SchemaNode → Prop
  | child {role : Role} {child : Child} {id : SchemaId} {next : SchemaNode}
      (translates : r.TranslatesChild id child) (joined : Joined own id role next) :
      Taken r own (.child role child) next
  | settle : Taken r own .settle own.dropObjectItems
  | unite : Taken r own .unite own.asUnion

theorem Made.uncons (made : Made r own (step :: steps) last) :
    ∃ next, Taken r own step next ∧ Made r next steps last := by
  cases made with
  | fresh stands joined onward => exact ⟨_, .child stands joined, onward⟩
  | referred follows known joined onward =>
    exact ⟨_, .child (.of_reference follows known) joined, onward⟩
  | inline plain made stands joined onward =>
    exact ⟨_, .child (.of_made plain made stands) joined, onward⟩
  | settle onward => exact ⟨_, .settle, onward⟩
  | unite onward => exact ⟨_, .unite, onward⟩

/-- What steps without a part to merge lead to. Every child has its step, and every step that gives
a variant has its child. -/
structure Led (r : Resolver) (own : SchemaNode) (steps : List Step) (last : SchemaNode) : Prop where
  rules : last.rules = own.rules
  nullable : own.nullable → last.nullable
  kind : last.kind = own.kind ∨ (last.kind = .union ∧ .unite ∈ steps)
  property : ∀ key id, (key, id) ∈ last.properties.entries →
    (key, id) ∈ own.properties.entries ∨
      ∃ child, .child (.property key) child ∈ steps ∧ r.TranslatesChild id child
  items : ∀ id, last.items = some id →
    own.items = some id ∨ ∃ child, .child .items child ∈ steps ∧ r.TranslatesChild id child
  kept : ∀ id ∈ own.variants, id ∈ last.variants
  variant : ∀ role child, role = .variant ∨ role = .alternative → .child role child ∈ steps →
    ∃ id ∈ last.variants, r.TranslatesChild id child

theorem Led.refl (r : Resolver) (own : SchemaNode) : Led r own [] own where
  rules := rfl
  nullable := fun flag => flag
  kind := Or.inl rfl
  property := fun _ _ member => Or.inl member
  items := fun _ found => Or.inl found
  kept := fun _ member => member
  variant := fun _ _ _ member => by cases member

theorem Led.append (first : Led r own steps next) (later : Led r next more last) :
    Led r own (steps ++ more) last where
  rules := later.rules.trans first.rules
  nullable := fun flag => later.nullable (first.nullable flag)
  kind := by
    rcases later.kind with same | ⟨union, member⟩
    · rcases first.kind with before | ⟨union, member⟩
      · exact Or.inl (same.trans before)
      · exact Or.inr ⟨same.trans union, List.mem_append_left _ member⟩
    · exact Or.inr ⟨union, List.mem_append_right _ member⟩
  property := fun key id member => by
    rcases later.property key id member with old | ⟨child, inside, translates⟩
    · refine (first.property key id old).imp_right fun ⟨child, inside, translates⟩ => ?_
      exact ⟨child, List.mem_append_left _ inside, translates⟩
    · exact Or.inr ⟨child, List.mem_append_right _ inside, translates⟩
  items := fun id found => by
    rcases later.items id found with old | ⟨child, inside, translates⟩
    · refine (first.items id old).imp_right fun ⟨child, inside, translates⟩ => ?_
      exact ⟨child, List.mem_append_left _ inside, translates⟩
    · exact Or.inr ⟨child, List.mem_append_right _ inside, translates⟩
  kept := fun id member => later.kept id (first.kept id member)
  variant := fun role child plural member => by
    rcases List.mem_append.mp member with inside | inside
    · obtain ⟨id, held, translates⟩ := first.variant role child plural inside
      exact ⟨id, later.kept id held, translates⟩
    · exact later.variant role child plural inside

/-- A step that merges no part. -/
def Unmerging (step : Step) : Prop := ∀ place child, step ≠ .child (.part place) child

theorem led_dropObjectItems : Led r own [.settle] own.dropObjectItems := by
  unfold SchemaNode.dropObjectItems
  split
  · exact { Led.refl r own with
      rules := rfl
      kind := Or.inl rfl
      property := fun _ _ member => Or.inl member
      items := fun _ found => by cases found
      variant := fun role child plural member => by
        rcases plural with rfl | rfl <;> cases List.mem_singleton.mp member }
  · exact { Led.refl r own with
      kind := Or.inl rfl
      property := fun _ _ member => Or.inl member
      items := fun _ found => Or.inl found
      variant := fun role child plural member => by
        rcases plural with rfl | rfl <;> cases List.mem_singleton.mp member }

theorem led_asUnion : Led r own [.unite] own.asUnion where
  rules := rfl
  nullable := fun flag => flag
  kind := Or.inr ⟨rfl, List.mem_singleton_self _⟩
  property := fun _ _ member => by cases member
  items := fun _ found => by cases found
  kept := fun _ member => member
  variant := fun role child plural member => by
    rcases plural with rfl | rfl <;> cases List.mem_singleton.mp member

theorem led_variant {child : Child} (null : Bool) (translates : r.TranslatesChild id child) :
    Led r own [.child role child]
      { own with variants := own.variants ++ [id], nullable := own.nullable || null } where
  rules := rfl
  nullable := fun flag => by simp [flag]
  kind := Or.inl rfl
  property := fun _ _ member => Or.inl member
  items := fun _ found => Or.inl found
  kept := fun _ member => List.mem_append_left _ member
  variant := fun other child _ member => by
    cases List.mem_singleton.mp member
    exact ⟨id, List.mem_append_right _ (List.mem_singleton_self _), translates⟩

theorem Joined.led {child : Child} (joined : Joined own id role next)
    (translates : r.TranslatesChild id child) (unmerging : Unmerging (.child role child)) :
    Led r own [.child role child] next := by
  have singular : ∀ {other : Role} {given : Child}, other = .variant ∨ other = .alternative →
      role ≠ .variant → role ≠ .alternative → .child other given ∉ [Step.child role child] := by
    intro other given plural one two member
    cases List.mem_singleton.mp member
    exact plural.elim one two
  cases joined with
  | variant => simpa using led_variant false translates
  | alternative null => exact led_variant null translates
  | part place merged => exact absurd rfl (unmerging place child)
  | property name =>
    exact {
      rules := rfl
      nullable := fun flag => flag
      kind := Or.inl rfl
      property := fun key other member => by
        rw [OrderedMap.mem_entries_insert] at member
        split at member
        · next same =>
          subst same member
          exact Or.inr ⟨child, List.mem_singleton_self _, translates⟩
        · exact Or.inl member
      items := fun _ found => Or.inl found
      kept := fun _ member => member
      variant := fun _ _ plural member =>
        absurd member (singular plural (by simp) (by simp)) }
  | items =>
    exact {
      rules := rfl
      nullable := fun flag => flag
      kind := Or.inl rfl
      property := fun _ _ member => Or.inl member
      items := fun other found => by
        cases found
        exact Or.inr ⟨child, List.mem_singleton_self _, translates⟩
      kept := fun _ member => member
      variant := fun _ _ plural member =>
        absurd member (singular plural (by simp) (by simp)) }

theorem Made.led (made : Made r own steps last) (unmerging : ∀ step ∈ steps, Unmerging step) :
    Led r own steps last := by
  induction steps generalizing own with
  | nil => cases made; exact .refl r _
  | cons step rest ih =>
    obtain ⟨next, taken, onward⟩ := made.uncons
    have later := ih onward fun other member => unmerging other (List.mem_cons_of_mem _ member)
    show Led r _ ([step] ++ rest) last
    refine Led.append ?_ later
    cases taken with
    | settle => exact led_dropObjectItems
    | unite => exact led_asUnion
    | child translates joined => exact joined.led translates (unmerging _ List.mem_cons_self)

/-- The parts of a schema are translated only to places that allow what `v` has there. -/
structure PartsAllow (accepts : String → String → Prop) (r : Resolver) (schema v : Json) :
    Prop where
  properties : ∀ fields key part w child, schema.field? "properties" = some (.object fields) →
    (key, part) ∈ fields → v.field? key = some w → r.Translates part child →
      r.arena.Allows accepts child w
  items : ∀ part vs w child, schema.field? "items" = some part → v.items? = some vs → w ∈ vs →
    r.Translates part child → r.arena.Allows accepts child w
  alternatives : ∀ keyword ∈ Json.alternativeKeywords, ∀ parts,
    schema.field? keyword = some (.array parts) →
      ∃ part ∈ parts, ∀ child, r.Translates part child → r.arena.Allows accepts child v

/-- A union has a variant for a value of one of the types, or for one that is valid for one of the
alternatives. -/
theorem Led.variant_allows (led : Led r own (Step.ofObject schema site own.kind types) last)
    (allow : PartsAllow accepts r schema v)
    (typed : own.kind = .union → ∃ type ∈ types, v.HasType type) (union : last.kind = .union) :
    ∃ child ∈ last.variants, r.arena.Allows accepts child v := by
  rcases led.kind with same | ⟨-, member⟩
  · obtain ⟨type, listed, has⟩ := typed (same ▸ union)
    obtain ⟨child, held, stands⟩ := led.variant .variant _ (Or.inl rfl) (Step.variant_mem listed)
    refine ⟨child, held, SchemaArena.allows_kind stands.here (by simp) fun other given => ?_⟩
    cases given
    exact has
  · cases Step.from_ofObject member with
    | unite known given =>
      obtain ⟨part, inside, allows⟩ := allow.alternatives _ known _ given
      obtain ⟨_, step⟩ := Step.alternative_mem known given inside
      obtain ⟨child, held, translates⟩ := led.variant .alternative _ (Or.inr rfl) step
      exact ⟨child, held, allows child translates⟩

theorem Led.property_allows (led : Led r own (Step.ofObject schema site own.kind types) last)
    (allow : PartsAllow accepts r schema v) (none : own.properties = ∅) {key : String}
    {child : SchemaId} {w : Json} (member : (key, child) ∈ last.properties.entries)
    (found : v.field? key = some w) : r.arena.Allows accepts child w := by
  rcases led.property key child member with old | ⟨from_schema, step, translates⟩
  · rw [none] at old
    cases old
  · cases Step.from_ofObject step with
    | property _ given inside =>
      exact allow.properties _ key _ w child given inside found translates

theorem Led.items_allow (led : Led r own (Step.ofObject schema site own.kind types) last)
    (allow : PartsAllow accepts r schema v) (none : own.items = none) {child : SchemaId}
    {vs : List Json} {w : Json} (given : last.items = some child) (list : v.items? = some vs)
    (member : w ∈ vs) : r.arena.Allows accepts child w := by
  rcases led.items child given with old | ⟨from_schema, step, translates⟩
  · rw [none] at old
    cases old
  · cases Step.from_ofObject step with
    | items _ found => exact allow.items _ vs w child found list member translates
    | anything =>
      exact SchemaArena.allows_kind translates.here (by simp) fun type typed => by cases typed

/-- The node of a schema that merges nothing: an unconstrained one, or what the steps make of the
node that the keywords give. -/
theorem Made.cases {node : SchemaNode}
    (made : Made r (schema.blueprint site).1 (schema.blueprint site).2 node)
    (merges : ∀ parts, schema.field? "allOf" ≠ some (.array parts)) :
    node = {} ∨ ∃ first types, SchemaNode.ofKeywords schema = .ok (first, types) ∧
      Led r first (Step.ofObject schema site first.kind types) node := by
  rcases schema.blueprint_cases site with same | ⟨error, same⟩ | ⟨first, types, read, same⟩
  · rw [same] at made
    cases made
    exact Or.inl rfl
  · rw [same] at made
    obtain ⟨_, taken, -⟩ := made.uncons
    cases taken
  · rw [same] at made
    refine Or.inr ⟨first, types, read, made.led fun step member place child part => ?_⟩
    cases part
    cases Step.from_ofObject member with
    | part _ _ given => exact merges _ given

/-- What a node made of a schema allows, where its children allow what is valid for their parts. -/
theorem Led.allows {node : SchemaNode} {name : Option String}
    (led : Led r own (Step.ofObject schema site own.kind types) node)
    (read : SchemaNode.ofKeywords schema = .ok (own, types))
    (stands : r.Stands id { node with name })
    (meets : schema.MeetsKeywords accepts v) (allow : PartsAllow accepts r schema v) :
    r.arena.Allows accepts id v := by
  have here := stands.here
  have enumeration : node.rules.enumeration = own.rules.enumeration := by rw [led.rules]
  obtain ⟨noProperties, noItems, -⟩ := SchemaNode.ofKeywords_childless read
  cases listed : own.enumeration with
  | some allowed =>
    refine .listed ?_ (SchemaNode.ofKeywords_listed read meets listed)
    rw [here]
    exact enumeration.trans listed
  | none =>
    rcases SchemaNode.ofKeywords_kind read meets.type listed with ⟨rfl, flag⟩ | ⟨kind, typed⟩
    · exact .null (by rw [here]; exact led.nullable flag)
    · obtain ⟨child, chosen⟩ : ∃ child, node.kind = .union →
          child ∈ node.variants ∧ r.arena.Allows accepts child v := by
        by_cases union : node.kind = .union
        · obtain ⟨child, held, allows⟩ := led.variant_allows allow typed union
          exact ⟨child, fun _ => ⟨held, allows⟩⟩
        · exact ⟨id, fun other => absurd other union⟩
      refine .fields ?_ ?_ ?_ ?_ child ?_ ?_
      all_goals rw [here]
      · exact enumeration.trans listed
      · have unchanged := SchemaNode.bears_iff.mp (SchemaNode.ofKeywords_bears read meets kind)
        refine SchemaNode.bears_iff.mpr ⟨fun type given => ?_, led.rules ▸ unchanged.2⟩
        rcases led.kind with kept | ⟨union, -⟩
        · exact unchanged.1 type (kept ▸ given)
        · cases union.symm.trans given
      · exact fun key child w member => led.property_allows allow noProperties member
      · exact fun child vs w given => led.items_allow allow noItems given
      · exact fun union => (chosen union).1
      · exact fun union => (chosen union).2

/-- The place of a schema that merges nothing allows every value that is valid for the schema, once
nothing is being walked. -/
theorem Translates.allows (recorded : Recorded root r) (settled : r.unfinished = [])
    (valid : Json.ValidFor accepts root schema v) (unmerged : root.Unmerged schema)
    (translates : r.Translates schema id) : r.arena.Allows accepts id v := by
  induction valid generalizing id with
  | reference follows found _ ih =>
    refine ih (unmerged.onward (.reference follows found)) ?_
    unfold Translates at translates
    rw [follows] at translates
    cases recorded _ _ translates with
    | chain also onward shared =>
      cases found.symm.trans also
      exact .of_reference onward shared
    | definition also plain target =>
      cases found.symm.trans also
      exact target (by simp [settled])
  | null plain allows =>
    unfold Translates at translates
    rw [plain] at translates
    obtain ⟨site, node, name, made, stands⟩ := translates
    rcases made.cases (unmerged _ .refl plain) with rfl | ⟨first, types, read, led⟩
    · exact SchemaArena.allows_kind stands.here (by simp) fun type typed => by cases typed
    · refine .null ?_
      rw [stands.here]
      exact led.nullable (SchemaNode.ofKeywords_nullable read allows)
  | keywords plain meets _ _ chosen given _ properties items alternatives =>
    unfold Translates at translates
    rw [plain] at translates
    obtain ⟨site, node, name, made, stands⟩ := translates
    rcases made.cases (unmerged _ .refl plain) with rfl | ⟨first, types, read, led⟩
    · exact SchemaArena.allows_kind stands.here (by simp) fun type typed => by cases typed
    · refine led.allows read stands meets {
        properties := fun fields key part w child object member found =>
          properties fields key part w object member found
            (unmerged.onward (.property plain object member))
        items := fun part vs w child found list member =>
          items part vs w found list member (unmerged.onward (.items plain found))
        alternatives := fun keyword known parts found => ?_ }
      have inside := given keyword known parts found
      exact ⟨chosen keyword, inside, fun child =>
        alternatives keyword known parts found
          (unmerged.onward (.alternative plain known found inside))⟩

end Resolver

end HttpPlan
