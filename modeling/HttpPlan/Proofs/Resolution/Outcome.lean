import HttpPlan.Schema.Resolver

/-! Reasoning about steps of the resolver. `Yields` says what a step comes to from one state, with
one condition on results and one on errors; the state that an error leaves behind counts as well. -/
namespace HttpPlan.Resolver

variable {α β : Type} {x : Resolve α} {f : α → Resolve β} {r : Resolver}
  {done mid : α → Resolver → Prop} {last : β → Resolver → Prop}
  {failed : BuildError → Resolver → Prop}

def Yields (x : Resolve α) (r : Resolver) (done : α → Resolver → Prop)
    (failed : BuildError → Resolver → Prop) : Prop :=
  match x r with
  | .ok a r' => done a r'
  | .error e r' => failed e r'

theorem yields_ok {a : α} {r' : Resolver} (run : x r = .ok a r') (yields : Yields x r done failed) :
    done a r' := by
  rwa [Yields, run] at yields

theorem yields_error {e : BuildError} {r' : Resolver} (run : x r = .error e r')
    (yields : Yields x r done failed) : failed e r' := by
  rwa [Yields, run] at yields

theorem yields_anyway (x : Resolve α) (r : Resolver) :
    Yields x r (fun _ _ => True) (fun _ _ => True) := by
  unfold Yields
  split <;> trivial

theorem yields_of_run {y : Resolve α} {s : Resolver} (run : x r = y s)
    (yields : Yields y s done failed) : Yields x r done failed := by
  rw [Yields, run]
  exact yields

theorem yields_bind :
    Yields (x >>= f) r last failed ↔
      Yields x r (fun a r' => Yields (f a) r' last failed) failed := by
  simp only [Yields, bind, EStateM.bind]
  cases x r <;> rfl

theorem Yields.bind (first : Yields x r mid failed)
    (next : ∀ a r', mid a r' → Yields (f a) r' last failed) : Yields (x >>= f) r last failed := by
  rw [yields_bind]
  unfold Yields at first ⊢
  split at first
  · exact next _ _ first
  · exact first

theorem Yields.mono {more : α → Resolver → Prop} {worse : BuildError → Resolver → Prop}
    (yields : Yields x r done failed) (weaken : ∀ a r', done a r' → more a r')
    (weakenError : ∀ e r', failed e r' → worse e r') : Yields x r more worse := by
  unfold Yields at yields ⊢
  split at yields
  · exact weaken _ _ yields
  · exact weakenError _ _ yields

theorem Yields.imp {more : α → Resolver → Prop} (yields : Yields x r done failed)
    (weaken : ∀ a r', done a r' → more a r') : Yields x r more failed :=
  yields.mono weaken fun _ _ same => same

theorem Yields.succeeds (yields : Yields x r done failed) : Yields x r done fun _ _ => True :=
  yields.mono (fun _ _ now => now) fun _ _ _ => trivial

/-- Two accounts of one result. -/
theorem Yields.and {also : α → Resolver → Prop} {besides : BuildError → Resolver → Prop}
    (one : Yields x r done failed) (other : Yields x r also besides) :
    Yields x r (fun a s => done a s ∧ also a s) failed := by
  unfold Yields at one other ⊢
  split at one
  · next run => rw [run] at other; exact ⟨one, other⟩
  · exact one

/-- What one step of a fold keeps, the fold keeps. -/
theorem yields_foldlM {σ ι : Type} {step : σ → ι → Resolve σ} {items : List ι} {start : σ}
    {kept : σ → Resolver → Prop}
    (each : ∀ item ∈ items, ∀ s r, kept s r → Yields (step s item) r kept failed)
    (first : kept start r) : Yields (items.foldlM step start) r kept failed := by
  induction items generalizing start r with
  | nil => exact first
  | cons item rest ih =>
    rw [List.foldlM_cons]
    refine (each item (by simp) start r first).bind fun s r' now => ?_
    exact ih (fun i member => each i (by simp [member])) now

end HttpPlan.Resolver
