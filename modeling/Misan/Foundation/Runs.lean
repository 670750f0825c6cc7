import Mathlib.Data.List.Infix

/-!
# Runs of a transition system

A system is a partial step function: an action that is not enabled has no result. Its runs are
histories of actions, the latest first. A condition on steps is one on each action together with the
state it is taken in, and an invariant may rely on such a condition.
-/

namespace Misan

variable {σ α : Type}

/-- The state after a history, if each of its actions was enabled. -/
def runFrom (step : σ → α → Option σ) (init : σ) : List α → Option σ
  | [] => some init
  | a :: history => (runFrom step init history).bind (step · a)

/-- Every action of the history, with the state it was taken in, satisfies `P`. -/
def EachStep (step : σ → α → Option σ) (init : σ) (P : σ → α → Prop) (history : List α) : Prop :=
  ∀ a before s, a :: before <:+ history → runFrom step init before = some s → P s a

variable {step : σ → α → Option σ} {init s s' : σ} {a : α} {history before : List α}
  {P : σ → α → Prop}

theorem runFrom_cons_eq_some :
    runFrom step init (a :: history) = some s' ↔
      ∃ s, runFrom step init history = some s ∧ step s a = some s' :=
  Option.bind_eq_some_iff

theorem runFrom_append (later before : List α) :
    runFrom step init (later ++ before) =
      (runFrom step init before).bind fun s => runFrom step s later := by
  induction later with
  | nil => exact (Option.bind_fun_some _).symm
  | cons a later ih => rw [List.cons_append, runFrom, ih, Option.bind_assoc]; rfl

theorem exists_runFrom_of_suffix (hsuffix : before <:+ history)
    (h : runFrom step init history = some s') : ∃ s, runFrom step init before = some s := by
  induction history generalizing s' with
  | nil =>
      rw [List.suffix_nil.mp hsuffix]
      exact ⟨s', h⟩
  | cons a history ih =>
      rcases List.suffix_cons_iff.mp hsuffix with rfl | hsuffix
      · exact ⟨s', h⟩
      · obtain ⟨s, hs, -⟩ := runFrom_cons_eq_some.mp h
        exact ih hsuffix hs

/-- One action over and over, as long as it moves on in a chain of conditions. -/
theorem exists_runFrom_replicate {I : Nat → σ → Prop} {bound n : Nat} (hinit : I 0 init)
    (hstep : ∀ n < bound, ∀ s, I n s → ∃ s', step s a = some s' ∧ I (n + 1) s') (hn : n ≤ bound) :
    ∃ s, runFrom step init (List.replicate n a) = some s ∧ I n s := by
  induction n with
  | zero => exact ⟨init, rfl, hinit⟩
  | succ n ih =>
      obtain ⟨s, hs, hI⟩ := ih (Nat.le_of_succ_le hn)
      obtain ⟨s', hs', hI'⟩ := hstep n hn s hI
      exact ⟨s', runFrom_cons_eq_some.mpr ⟨s, hs, hs'⟩, hI'⟩

theorem EachStep.of_suffix (h : EachStep step init P history) (hsuffix : before <:+ history) :
    EachStep step init P before :=
  fun a b s hb hs => h a b s (hb.trans hsuffix) hs

theorem EachStep.nil : EachStep step init P [] := by
  intro a before s hsuffix
  cases List.suffix_nil.mp hsuffix

theorem EachStep.cons (h : EachStep step init P history) (hs : runFrom step init history = some s)
    (ha : P s a) : EachStep step init P (a :: history) := by
  intro a' before s' hsuffix hs'
  rcases List.suffix_cons_iff.mp hsuffix with heq | hsuffix
  · cases heq
    cases hs.symm.trans hs'
    exact ha
  · exact h a' before s' hsuffix hs'

/-- **Invariants** hold after every run whose steps meet the condition the invariant relies on. -/
theorem runFrom_invariant {I : σ → Prop} (hinit : I init)
    (hstep : ∀ s a s', I s → P s a → step s a = some s' → I s')
    (hP : EachStep step init P history) (h : runFrom step init history = some s) : I s := by
  induction history generalizing s with
  | nil =>
      cases h
      exact hinit
  | cons a history ih =>
      obtain ⟨s₀, hs₀, hs⟩ := runFrom_cons_eq_some.mp h
      have hbefore := hP.of_suffix (List.suffix_cons a history)
      exact hstep s₀ a s (ih hbefore hs₀) (hP a history s₀ (List.suffix_refl _) hs₀) hs

/-- What every step preserves is still true later. -/
theorem runFrom_preserves {I : σ → Prop} (hstep : ∀ s a s', I s → step s a = some s' → I s')
    {later : List α} (hs : runFrom step init before = some s) (hI : I s)
    (h : runFrom step init (later ++ before) = some s') : I s' := by
  induction later generalizing s' with
  | nil =>
      cases hs.symm.trans h
      exact hI
  | cons a later ih =>
      obtain ⟨s₀, hs₀, hcall⟩ := runFrom_cons_eq_some.mp h
      exact hstep s₀ a s' (ih hs₀) hcall

/-! ### Reaching a state -/

/-- Some run leads from `s` to `s'`. -/
def Reaches (step : σ → α → Option σ) (s s' : σ) : Prop :=
  ∃ history, runFrom step s history = some s'

namespace Reaches

variable {s₁ s₂ s₃ : σ}

theorem single (ha : step s a = some s') : Reaches step s s' := ⟨[a], ha⟩

theorem trans (h : Reaches step s₁ s₂) (h' : Reaches step s₂ s₃) : Reaches step s₁ s₃ := by
  obtain ⟨before, hbefore⟩ := h
  obtain ⟨later, hlater⟩ := h'
  refine ⟨later ++ before, ?_⟩
  rw [runFrom_append, hbefore]
  exact hlater

end Reaches

/-- Some run of actions that satisfy `P` leads from `s` to `s'`. -/
def ReachesBy (step : σ → α → Option σ) (P : α → Prop) (s s' : σ) : Prop :=
  ∃ history, (∀ a ∈ history, P a) ∧ runFrom step s history = some s'

namespace ReachesBy

variable {Q : α → Prop} {s₁ s₂ s₃ : σ}

theorem refl (s : σ) : ReachesBy step Q s s :=
  ⟨[], fun _ ha => absurd ha List.not_mem_nil, rfl⟩

theorem single (hQ : Q a) (ha : step s a = some s') : ReachesBy step Q s s' :=
  ⟨[a], fun _ hmem => List.mem_singleton.mp hmem ▸ hQ, ha⟩

theorem trans (h : ReachesBy step Q s₁ s₂) (h' : ReachesBy step Q s₂ s₃) :
    ReachesBy step Q s₁ s₃ := by
  obtain ⟨before, hbefore, hrun⟩ := h
  obtain ⟨later, hlater, hrun'⟩ := h'
  refine ⟨later ++ before, fun a ha => (List.mem_append.mp ha).elim (hlater a) (hbefore a), ?_⟩
  rw [runFrom_append, hrun]
  exact hrun'

end ReachesBy

/-! ### Positions

The position of an action in a history is the number of actions before it. -/

theorem getElem?_reverse_of_suffix (hsuffix : a :: before <:+ history) :
    history.reverse[before.length]? = some a := by
  obtain ⟨later, rfl⟩ := hsuffix
  simp

theorem getElem?_reverse_suffix {i : Nat} (hsuffix : before <:+ history)
    (ha : before.reverse[i]? = some a) : history.reverse[i]? = some a := by
  obtain ⟨later, rfl⟩ := hsuffix
  rw [List.reverse_append,
    List.getElem?_append_left (List.getElem?_eq_some_iff.mp ha).1, ha]

theorem exists_before_of_position {i : Nat} (ha : history.reverse[i]? = some a) :
    ∃ before, a :: before <:+ history ∧ before.length = i := by
  induction history with
  | nil => cases ha
  | cons a' history ih =>
      rw [List.reverse_cons] at ha
      by_cases hi : i < history.length
      · rw [List.getElem?_append_left (by simpa using hi)] at ha
        obtain ⟨before, hsuffix, hlength⟩ := ih ha
        exact ⟨before, hsuffix.trans (List.suffix_cons a' history), hlength⟩
      · have hle : i < history.length + 1 := by
          simpa using (List.getElem?_eq_some_iff.mp ha).1
        obtain rfl : i = history.length := by omega
        rw [List.getElem?_append_right (by simp)] at ha
        simp only [List.length_reverse, Nat.sub_self, List.getElem?_cons_zero,
          Option.some.injEq] at ha
        exact ⟨history, by rw [ha], rfl⟩

/-- Only the latest action can be one that is not among the earlier ones. -/
theorem eq_of_suffix_of_notMem (hsuffix : a :: before <:+ history) (hnew : a ∉ history.tail) :
    a :: before = history := by
  cases history with
  | nil => cases List.suffix_nil.mp hsuffix
  | cons a' history =>
      rcases List.suffix_cons_iff.mp hsuffix with heq | htail
      · exact heq
      · exact absurd (htail.subset (List.mem_cons_self ..)) hnew

end Misan
