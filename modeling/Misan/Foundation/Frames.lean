import Misan.Foundation.Budget

/-!
# Programs in a larger state

A program that only uses part of its state does the same in every extension of it: it ends with the
same value or the same error, in the extension of the state it would have ended in. Some errors may
be the extension's doing, such as running out of an input that the extension makes longer; a frame
is relative to the errors that are not.
-/

namespace Misan

variable {ε σ α β : Type}

/-- The result with `f` applied to the state it ends in. -/
def mapState (f : σ → σ) : EStateM.Result ε σ α → EStateM.Result ε σ α
  | .ok a s => .ok a (f s)
  | .error e s => .error e (f s)

/-- In the state `extend s`, the program does what it does in `s`, unless it stops there with an
error that `stable` does not admit. -/
def Framed (stable : ε → Prop) (extend : σ → σ) (x : EStateM ε σ α) : Prop :=
  ∀ s, (∀ e t, x s = .error e t → stable e) → x (extend s) = mapState extend (x s)

namespace Framed

variable {stable : ε → Prop} {extend : σ → σ} {x : EStateM ε σ α} {f : α → EStateM ε σ β}

theorem pure (a : α) : Framed stable extend (pure a : EStateM ε σ α) := fun _ _ => rfl

theorem throw (e : ε) : Framed stable extend (throw e : EStateM ε σ α) := fun _ _ => rfl

theorem bind (hx : Framed stable extend x) (hf : ∀ a, Framed stable extend (f a)) :
    Framed stable extend (x >>= f) := by
  intro s hstable
  cases hrun : x s with
  | ok a s' =>
      have hfirst : x (extend s) = .ok a (extend s') := by
        rw [hx s fun e t hfail => ?_, hrun]
        · rfl
        · cases hrun.symm.trans hfail
      rw [bind_run hfirst, bind_run hrun]
      exact hf a s' fun e t hfail => hstable e t ((bind_run hrun).trans hfail)
  | error e s' =>
      have hwhole : (x >>= f) s = .error e s' := bind_eq_error.mpr (Or.inl hrun)
      have hfirst : x (extend s) = .error e (extend s') := by
        rw [hx s fun e' t hfail => ?_, hrun]
        · rfl
        · cases hrun.symm.trans hfail
          exact hstable e s' hwhole
      rw [hwhole]
      exact bind_eq_error.mpr (Or.inl hfirst)

end Framed

/-- Two sequences agree if their first parts do, and their second parts behind them. -/
theorem bind_congr_run {x y : EStateM ε σ α} {f g : α → EStateM ε σ β} {s t : σ}
    (hfirst : x s = y t) (hrest : ∀ a s', y t = .ok a s' → f a s' = g a s') :
    (x >>= f) s = (y >>= g) t := by
  change EStateM.bind x f s = EStateM.bind y g t
  rw [EStateM.bind, EStateM.bind, hfirst]
  cases hrun : y t with
  | ok a s' => exact hrest a s' hrun
  | error e s' => rfl

/-! ### Following -/

/-- Unless `x` stops with an error that is `wrong`, `y` comes to what `x` comes to, from related
states in related states. -/
def Follows {τ : Type} (wrong : ε → Prop) (R : σ → τ → Prop) (x : EStateM ε σ α)
    (y : EStateM ε τ α) : Prop :=
  ∀ s t, R s t → (∀ a s', x s = .ok a s' → ∃ t', y t = .ok a t' ∧ R s' t') ∧
    ∀ e s', x s = .error e s' → ¬ wrong e → ∃ t', y t = .error e t'

namespace Follows

variable {τ : Type} {wrong : ε → Prop} {R : σ → τ → Prop} {x x' : EStateM ε σ α}
  {y y' : EStateM ε τ α} {f : α → EStateM ε σ β} {g : α → EStateM ε τ β}

theorem pure (a : α) : Follows wrong R (pure a : EStateM ε σ α) (pure a : EStateM ε τ α) := by
  intro s t hR
  refine ⟨fun b s' hrun => ?_, fun e s' hfail => by cases hfail⟩
  cases hrun
  exact ⟨t, rfl, hR⟩

theorem throw (e : ε) : Follows wrong R (throw e : EStateM ε σ α) (throw e : EStateM ε τ α) := by
  intro s t hR
  constructor
  · intro b s' hrun
    cases hrun
  · intro e' s' hfail _
    cases hfail
    exact ⟨t, rfl⟩

/-- Nothing has to follow what goes wrong. -/
theorem wrong_throw {e : ε} (he : wrong e) (y : EStateM ε τ α) :
    Follows wrong R (MonadExcept.throw e : EStateM ε σ α) y := by
  intro s t hR
  constructor
  · intro b s' hrun
    cases hrun
  · intro e' s' hfail hnot
    cases hfail
    exact absurd he hnot

theorem bind (hx : Follows wrong R x y) (hf : ∀ a, Follows wrong R (f a) (g a)) :
    Follows wrong R (x >>= f) (y >>= g) := by
  intro s t hR
  constructor
  · intro b s' hrun
    obtain ⟨a, s₁, hfirst, hrest⟩ := bind_eq_ok.mp hrun
    obtain ⟨t₁, hfirst', hR₁⟩ := (hx s t hR).1 a s₁ hfirst
    obtain ⟨t', hrest', hR'⟩ := (hf a s₁ t₁ hR₁).1 b s' hrest
    exact ⟨t', (bind_run hfirst').trans hrest', hR'⟩
  · intro e s' hfail hnot
    rcases bind_eq_error.mp hfail with hfirst | ⟨a, s₁, hfirst, hrest⟩
    · obtain ⟨t', hfirst'⟩ := (hx s t hR).2 e s' hfirst hnot
      exact ⟨t', bind_eq_error.mpr (Or.inl hfirst')⟩
    · obtain ⟨t₁, hfirst', hR₁⟩ := (hx s t hR).1 a s₁ hfirst
      obtain ⟨t', hrest'⟩ := (hf a s₁ t₁ hR₁).2 e s' hrest hnot
      exact ⟨t', (bind_run hfirst').trans hrest'⟩

theorem ite {P : Prop} [Decidable P] (hx : Follows wrong R x y) (hx' : Follows wrong R x' y') :
    Follows wrong R (if P then x else x') (if P then y else y') := by
  split
  · exact hx
  · exact hx'

end Follows

end Misan
