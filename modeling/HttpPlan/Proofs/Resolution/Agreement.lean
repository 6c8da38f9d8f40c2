import HttpPlan.Proofs.Resolution.Repetition

/-! Reasoning about two steps of two resolvers at once. The second may fail for what it is walking
at the moment; apart from that, both come to related results or to the same error. -/
namespace HttpPlan.Resolver

variable {α β γ δ : Type} {root : Json} {x : Resolve α} {y : Resolve β} {r s : Resolver}
  {f : α → Resolve γ} {g : β → Resolve δ} {mid done : α → Resolver → β → Resolver → Prop}
  {last : γ → Resolver → δ → Resolver → Prop}

/-- The first step comes to what the second comes to, result or error, unless the second fails for
what it is walking at the moment. -/
def Agrees (root : Json) (x : Resolve α) (r : Resolver) (y : Resolve β) (s : Resolver)
    (done : α → Resolver → β → Resolver → Prop) : Prop :=
  match y s with
  | .ok b s' => ∃ a r', x r = .ok a r' ∧ done a r' b s'
  | .error e _ => Reentrant root e ∨ ∃ r', x r = .error e r'

theorem agrees_pure {a : α} {b : β} (now : done a r b s) :
    Agrees root (pure a) r (pure b) s done := ⟨a, r, rfl, now⟩

theorem agrees_throw {error : BuildError} :
    Agrees root (throw error : Resolve α) r (throw error : Resolve β) s done := Or.inr ⟨r, rfl⟩

theorem agrees_of_run {x' : Resolve α} {y' : Resolve β} {r' s' : Resolver} (first : x r = x' r')
    (second : y s = y' s') (agrees : Agrees root x' r' y' s' done) :
    Agrees root x r y s done := by
  rw [Agrees, first, second]
  exact agrees

theorem Agrees.bind (first : Agrees root x r y s mid)
    (next : ∀ a r' b s', mid a r' b s' → Agrees root (f a) r' (g b) s' last) :
    Agrees root (x >>= f) r (y >>= g) s last := by
  unfold Agrees at first
  split at first
  · next b s' run =>
    obtain ⟨a, r', walked, now⟩ := first
    have left : (x >>= f) r = f a r' := by simp only [Bind.bind, EStateM.bind, walked]
    have right : (y >>= g) s = g b s' := by simp only [Bind.bind, EStateM.bind, run]
    exact agrees_of_run left right (next a r' b s' now)
  · next e s' run =>
    have right : (y >>= g) s = .error e s' := by simp only [Bind.bind, EStateM.bind, run]
    rw [Agrees, right]
    refine first.imp_right fun ⟨r', walked⟩ => ⟨r', ?_⟩
    simp only [Bind.bind, EStateM.bind, walked]

theorem Agrees.mono {more : α → Resolver → β → Resolver → Prop} (agrees : Agrees root x r y s done)
    (weaken : ∀ a r' b s', done a r' b s' → more a r' b s') : Agrees root x r y s more := by
  unfold Agrees at agrees ⊢
  split at agrees
  · obtain ⟨a, r', walked, now⟩ := agrees
    exact ⟨a, r', walked, weaken _ _ _ _ now⟩
  · exact agrees

/-- What either side comes to by itself. -/
theorem Agrees.and {own : α → Resolver → Prop} {other : β → Resolver → Prop}
    {failed missed : BuildError → Resolver → Prop} (agrees : Agrees root x r y s done)
    (first : Yields x r own failed) (second : Yields y s other missed) :
    Agrees root x r y s (fun a r' b s' => done a r' b s' ∧ own a r' ∧ other b s') := by
  unfold Agrees at agrees ⊢
  split at agrees
  · next b s' run =>
    obtain ⟨a, r', walked, now⟩ := agrees
    exact ⟨a, r', walked, now, yields_ok walked first, yields_ok run second⟩
  · exact agrees

/-- What one step of two folds over the same items keeps, the folds keep. -/
theorem agrees_foldlM {σ τ ι : Type} {f : σ → ι → Resolve σ} {g : τ → ι → Resolve τ}
    {kept : σ → Resolver → τ → Resolver → Prop} {items : List ι} {a : σ} {b : τ}
    (each : ∀ item ∈ items, ∀ a r b s, kept a r b s → Agrees root (f a item) r (g b item) s kept)
    (start : kept a r b s) : Agrees root (items.foldlM f a) r (items.foldlM g b) s kept := by
  induction items generalizing a b r s with
  | nil => exact agrees_pure start
  | cons item rest ih =>
    rw [List.foldlM_cons, List.foldlM_cons]
    refine (each item (by simp) a r b s start).bind fun a' r' b' s' now => ?_
    exact ih (fun i member => each i (by simp [member])) now

/-- The second step fails only for what is being walked, and the first has its result at hand. -/
theorem Yields.agrees {a : α} {r' : Resolver} {came : β → Resolver → Prop}
    (yields : Yields y s came (Fades root)) (walked : x r = .ok a r') :
    Agrees root x r y s (fun a' r'' b s' => a' = a ∧ r'' = r' ∧ came b s') := by
  cases run : y s with
  | ok b s' =>
    rw [Agrees, run]
    exact ⟨a, r', walked, rfl, rfl, yields_ok run yields⟩
  | error e s' =>
    rw [Agrees, run]
    exact Or.inl (yields_error run yields)

end HttpPlan.Resolver
