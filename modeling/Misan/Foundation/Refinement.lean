import Mathlib.Data.List.Infix

/-!
# Following an abstract run

A concrete run over a list of actions, and an abstract one over the same list. Where one step can
part from its abstract counterpart, and the abstract state decides whether it does, the concrete
run follows the abstract one exactly as long as no step of the abstract run is of that kind. A step
may also fail, and then a simulation says that both fail.
-/

namespace Misan

variable {σ τ α : Type} {f : σ → α → σ} {g : τ → α → τ} {abs : σ → τ} {Exact : α → τ → Prop}

/-- After every prefix of the run the concrete state abstracts to the abstract one. -/
def FollowsAlong (f : σ → α → σ) (g : τ → α → τ) (abs : σ → τ) (s : σ) (as : List α) : Prop :=
  ∀ before, before <+: as → abs (before.foldl f s) = before.foldl g (abs s)

/-- Every action of the abstract run is taken in a state it is exact in. -/
def ExactAlong (g : τ → α → τ) (Exact : α → τ → Prop) (t : τ) : List α → Prop
  | [] => True
  | a :: as => Exact a t ∧ ExactAlong g Exact (g t a) as

theorem followsAlong_cons {s : σ} {a : α} {as : List α} :
    FollowsAlong f g abs s (a :: as) ↔
      abs (f s a) = g (abs s) a ∧ ∀ before, before <+: as →
        abs (before.foldl f (f s a)) = before.foldl g (g (abs s) a) := by
  constructor
  · intro hfollows
    refine ⟨hfollows [a] ⟨as, rfl⟩, fun before hbefore => ?_⟩
    exact hfollows (a :: before) (List.cons_prefix_cons.mpr ⟨rfl, hbefore⟩)
  · rintro ⟨-, hrest⟩ before hbefore
    cases before with
    | nil => simp
    | cons b before =>
        obtain ⟨rfl, htail⟩ := List.cons_prefix_cons.mp hbefore
        exact hrest before htail

/-- **Refinement along a run.** -/
theorem followsAlong_iff {s : σ} {as : List α}
    (hstep : ∀ s, ∀ a ∈ as, abs (f s a) = g (abs s) a ↔ Exact a (abs s)) :
    FollowsAlong f g abs s as ↔ ExactAlong g Exact (abs s) as := by
  induction as generalizing s with
  | nil => simp [FollowsAlong, ExactAlong]
  | cons a as ih =>
      have ih := @ih (f s a) fun s b hb => hstep s b (List.mem_cons_of_mem a hb)
      rw [followsAlong_cons, ExactAlong, ← hstep s a (List.mem_cons_self ..)]
      apply and_congr_right
      intro hhead
      rw [← hhead, ← ih]
      exact Iff.rfl

theorem FollowsAlong.eq {s : σ} {as : List α} (hfollows : FollowsAlong f g abs s as) :
    abs (as.foldl f s) = as.foldl g (abs s) :=
  hfollows as (List.prefix_refl as)

/-! ### Steps that may fail -/

section Failing

variable {σ' τ' : Type} {R : σ → τ → Prop} {R' : σ' → τ' → Prop} {x : Option σ} {y : Option τ}

theorem rel_bind {f : σ → Option σ'} {g : τ → Option τ'} (h : Option.Rel R x y)
    (hfg : ∀ s t, R s t → Option.Rel R' (f s) (g t)) : Option.Rel R' (x.bind f) (y.bind g) := by
  cases h with
  | none => exact .none
  | some hst => exact hfg _ _ hst

theorem exists_of_rel {s : σ} (h : Option.Rel R (some s) y) : ∃ t, y = some t ∧ R s t := by
  cases h with
  | some hst => exact ⟨_, rfl, hst⟩

theorem exists_of_rel_right {t : τ} (h : Option.Rel R x (some t)) : ∃ s, x = some s ∧ R s t := by
  cases h with
  | some hst => exact ⟨_, rfl, hst⟩

end Failing

end Misan
