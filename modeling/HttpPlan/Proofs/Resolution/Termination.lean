import HttpPlan.Proofs.Resolution.Walk

/-! The bound on the steps of a walk does not show: a walk that is not cut off comes to the same end
with every larger bound, and with the budget of the document no walk is cut off. -/
namespace HttpPlan.Resolver

variable {α β : Type} {root value : Json} {r : Resolver} {pointer location : String} {fuel : Nat}

/-- A step that does not run out of steps from a state. -/
def Uncut (x : Resolve α) (r : Resolver) : Prop :=
  Yields x r (fun _ _ => True) fun e _ => ¬ e.CutOff

/-- A step that does what another does wherever the other is not cut off. -/
def Extends (y x : Resolve α) : Prop := ∀ r, Uncut x r → y r = x r

theorem extends_refl (x : Resolve α) : Extends x x := fun _ _ => rfl

theorem Extends.trans {x y z : Resolve α} (last : Extends z y) (first : Extends y x) :
    Extends z x := fun r uncut => by
  have same := first r uncut
  have still : Uncut y r := yields_of_run same uncut
  rw [last r still, same]

theorem extends_cut {y : Resolve α} {construct : String} :
    Extends y (throw (.unsupportedConstruct construct .nesting)) :=
  fun _ uncut => absurd trivial uncut

theorem Extends.bind {x y : Resolve α} {f g : α → Resolve β} (first : Extends y x)
    (next : ∀ a, Extends (g a) (f a)) : Extends (y >>= g) (x >>= f) := by
  intro r uncut
  have both := yields_bind.mp uncut
  have begun : Uncut x r := both.imp fun _ _ _ => trivial
  change EStateM.bind y g r = EStateM.bind x f r
  rw [EStateM.bind, EStateM.bind, first r begun]
  cases run : x r with
  | error => rfl
  | ok a s =>
    have later : Uncut (f a) s := by
      rwa [Yields, run] at both
    exact next a s later

theorem extends_foldlM {σ ι : Type} {step more : σ → ι → Resolve σ}
    (each : ∀ s i, Extends (more s i) (step s i)) (items : List ι) (start : σ) :
    Extends (items.foldlM more start) (items.foldlM step start) := by
  induction items generalizing start with
  | nil => exact extends_refl _
  | cons item rest ih =>
    rw [List.foldlM_cons, List.foldlM_cons]
    exact (each start item).bind fun s => ih s

theorem Extends.following {x y : Resolve α} (more : Extends y x) :
    Extends (following pointer y) (following pointer x) := by
  intro r uncut
  have inside : Uncut x (r.entered pointer) := yields_following.mp uncut
  rw [following_eq, following_eq, more _ inside]

theorem extends_buildNode {walk more : Walk}
    (walks : ∀ value location, Extends (more value location) (walk value location)) :
    Extends (buildNode more value location) (buildNode walk value location) := by
  refine extends_foldlM (fun node step => ?_) _ _
  cases step with
  | refuse => exact extends_refl _
  | settle => exact extends_refl _
  | unite => exact extends_refl _
  | child role child =>
    cases child with
    | fresh => exact extends_refl _
    | walked value location => exact (walks value location).bind fun _ => extends_refl _

/-- One step more changes nothing about a walk that is not cut off. -/
theorem walks_extend (root : Json) (fuel : Nat) :
    (∀ value location, Extends (schema root (fuel + 1) value location)
      (schema root fuel value location)) ∧
    ∀ pointer, Extends (reference root (fuel + 1) pointer) (reference root fuel pointer) := by
  induction fuel with
  | zero =>
    constructor
    · intro value location
      exact extends_cut
    · intro pointer
      exact extends_cut
  | succ fuel ih =>
    obtain ⟨schemas, references⟩ := ih
    constructor
    · intro value location
      unfold schema
      split
      · exact references _
      · exact (extends_buildNode schemas).bind fun _ => extends_refl _
    · intro pointer r uncut
      cases absent : r.memo.get? pointer with
      | some id => rw [reference_met absent, reference_met absent]
      | none =>
        cases found : root.lookup pointer with
        | error e => rw [reference_missing absent found, reference_missing absent found]
        | ok target =>
          cases follows : target.reference? with
          | none =>
            have run := @reference_definition _ _ _ _ fuel absent found follows
            rw [reference_definition absent found follows, run]
            refine ((extends_buildNode schemas).bind fun _ => extends_refl _) _ ?_
            exact yields_of_run run.symm uncut
          | some next =>
            by_cases met : pointer ∈ r.aliases
            · rw [reference_circular absent found follows met,
                reference_circular absent found follows met]
            · have run := @reference_alias _ _ _ _ _ fuel absent found follows met
              rw [reference_alias absent found follows met, run]
              refine ((references next).following.bind fun _ => extends_refl _) _ ?_
              exact yields_of_run run.symm uncut

/-- What a family of walks comes to does not depend on the bound, from some bound on. -/
theorem extends_le {walk : Nat → Resolve α} (step : ∀ fuel, Extends (walk (fuel + 1)) (walk fuel))
    {least : Nat} (enough : least ≤ fuel) : Extends (walk fuel) (walk least) := by
  induction enough with
  | refl => exact extends_refl _
  | step _ ih => exact (step _).trans ih

/-- A walk that comes to its end from a state: with every bound from the given one on it comes to
the same place or error, in the same state, and the error is not that of a walk cut off. -/
def Concludes (root : Json) (least : Nat) (walk : Nat → Resolve α) (r : Resolver) : Prop :=
  (∀ fuel, least ≤ fuel → walk fuel r = walk least r) ∧
    Yields (walk least) r (fun _ s => s.Valid root) (fun error _ => ¬ error.CutOff)

theorem concludes {walk : Nat → Resolve α} {least : Nat}
    (step : ∀ fuel, Extends (walk (fuel + 1)) (walk fuel))
    (yields : Yields (walk least) r (fun _ s => s.Valid root) fun error _ => ¬ error.CutOff) :
    Concludes root least walk r :=
  ⟨fun _ enough => extends_le step enough r (yields.imp fun _ _ _ => trivial), yields⟩

theorem schema_concludes (within : value.Within root) (valid : r.Valid root) (location : String) :
    Concludes root (budget root) (fun fuel => schema root fuel value location) r :=
  concludes (fun fuel => (walks_extend root fuel).1 value location)
    (((walks root _).1 value location r within valid (allowance_le_budget within r)).mono
      (fun _ _ done => done.1.1.valid) fun _ _ stranded => stranded.2)

theorem buildNode_concludes (within : value.Within root) (valid : r.Valid root)
    (location : String) :
    Concludes root (budget root) (fun fuel => buildNode (schema root fuel) value location) r :=
  concludes (fun fuel => extends_buildNode (walks_extend root fuel).1)
    ((yields_inlineNode within valid).mono (fun _ _ done => done.1.valid)
      fun _ _ stranded => stranded.2)

theorem reference_concludes (inside : pointer ∈ root.references) (valid : r.Valid root) :
    Concludes root (budget root) (fun fuel => reference root fuel pointer) r := by
  have room := allowance_le_budget (Json.Within.refl root) r
  refine concludes (fun fuel => (walks_extend root fuel).2 pointer)
    (((walks root _).2 pointer r inside valid ?_).mono (fun _ _ done => done.1.1.valid)
      fun _ _ stranded => stranded.2)
  simp only [allowance] at room ⊢
  omega

end HttpPlan.Resolver
