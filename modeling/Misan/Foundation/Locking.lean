import Misan.Foundation.Probing
import Misan.Foundation.Runs
import Mathlib.Logic.Function.Basic
import Mathlib.Logic.Relation

/-!
# Sections run under a lock

Threads call sections of code that take one spin lock, work on a shared state step by step and give
the lock back. Other threads run between any two steps. What the steps of one section do to the
state while nobody else touches it is what the section does, and the shared state is only ever that
of whole sections, one after another in the order in which they give the lock back, and of a part of
one more while the lock is held.
-/

namespace Misan

variable {τ γ ℓ σ : Type}

/-- The code between taking the lock and giving it back. A point with no next step is its end. -/
structure Critical (γ ℓ σ : Type) where
  enter : γ → ℓ
  step : ℓ → σ → Option (ℓ × σ)

namespace Critical

variable (C : Critical γ ℓ σ)

/-- Some steps of the section lead from one point and state to another. -/
def Leads : ℓ × σ → ℓ × σ → Prop :=
  Relation.ReflTransGen fun p q => C.step p.1 p.2 = some q

/-- The whole section, with nobody else running. It ends at `l`, which holds what it returns. -/
def Performs (c : γ) (s : σ) (l : ℓ) (s' : σ) : Prop :=
  C.Leads (C.enter c, s) (l, s') ∧ C.step l s' = none

/-- Whole sections one after another, the latest first. -/
inductive Performed (s₀ : σ) : List (τ × γ × ℓ) → σ → Prop
  | nil : Performed s₀ [] s₀
  | cons {returned s t c l s'} : Performed s₀ returned s → C.Performs c s l s' →
      Performed s₀ ((t, c, l) :: returned) s'

variable {C} {c : γ} {l l' : ℓ} {s s' s₀ : σ}

theorem Leads.head {p : ℓ × σ} (hstep : C.step l s = some (l', s')) (h : C.Leads (l', s') p) :
    C.Leads (l, s) p :=
  Relation.ReflTransGen.head hstep h

theorem Leads.next {p : ℓ × σ} (h : C.Leads p (l, s)) (hstep : C.step l s = some (l', s')) :
    C.Leads p (l', s') :=
  Relation.ReflTransGen.tail h hstep

theorem Leads.refl (p : ℓ × σ) : C.Leads p p := Relation.ReflTransGen.refl

theorem Leads.trans {p q r : ℓ × σ} (h : C.Leads p q) (h' : C.Leads q r) : C.Leads p r :=
  Relation.ReflTransGen.trans h h'

theorem Leads.single (hstep : C.step l s = some (l', s')) : C.Leads (l, s) (l', s') :=
  Relation.ReflTransGen.single hstep

theorem Leads.eq_of_end (h : C.Leads (l, s) (l', s')) (hend : C.step l s = none) :
    l' = l ∧ s' = s := by
  rcases h.cases_head with heq | ⟨p, hstep, -⟩
  · exact ⟨congrArg Prod.fst heq.symm, congrArg Prod.snd heq.symm⟩
  · change C.step l s = some p at hstep
    rw [hend] at hstep
    cases hstep

/-- A section has one way to go. -/
theorem Leads.total {p q q' : ℓ × σ} (h : C.Leads p q) (h' : C.Leads p q') :
    C.Leads q q' ∨ C.Leads q' q := by
  have hunique : Relator.RightUnique fun p q : ℓ × σ => C.step p.1 p.2 = some q :=
    fun p q r hq hr => Option.some.inj (hq.symm.trans hr)
  exact Relation.ReflTransGen.total_of_right_unique hunique h h'

/-- From every point on its way it can only go on to its end. -/
theorem Leads.of_performs (h : C.Leads (C.enter c, s) (l, s'))
    {l₁ : ℓ} {s₁ : σ} (hall : C.Performs c s l₁ s₁) : C.Leads (l, s') (l₁, s₁) := by
  rcases h.total hall.1 with hon | hback
  · exact hon
  · obtain ⟨rfl, rfl⟩ := Leads.eq_of_end hback hall.2
    exact Relation.ReflTransGen.refl

theorem Performs.unique {l₁ : ℓ} {s₁ : σ} (h : C.Performs c s l s')
    (h₁ : C.Performs c s l₁ s₁) : l₁ = l ∧ s₁ = s' :=
  (h.1.of_performs h₁).eq_of_end h.2

theorem Leads.invariant {I : ℓ → σ → Prop} (h : C.Leads (l, s) (l', s'))
    (hstep : ∀ l s l' s', I l s → C.step l s = some (l', s') → I l' s') (hI : I l s) : I l' s' := by
  obtain ⟨p, hp⟩ : ∃ p, p = (l', s') := ⟨_, rfl⟩
  rw [← hp] at h
  induction h generalizing l' s' with
  | refl =>
      cases hp
      exact hI
  | @tail q r _ hlast ih =>
      subst hp
      exact hstep q.1 q.2 l' s' (ih rfl) hlast

/-- A section that comes to points it cannot leave has no end. -/
theorem Performs.not_stuck {Q : ℓ → Prop} {k : ℓ} {s₁ : σ} (h : C.Performs c s l s')
    (hstep : ∀ l s l' s', Q l → C.step l s = some (l', s') → Q l')
    (hend : ∀ l s, Q l → C.step l s ≠ none) (hleads : C.Leads (C.enter c, s) (k, s₁)) :
    ¬ Q k := by
  intro hk
  have hl : Q l := Leads.invariant (I := fun l _ => Q l) (hleads.of_performs h) hstep hk
  exact hend l s' hl h.2

/-- A change of the state that no step of the section notices is not noticed on its way. -/
theorem Leads.map {I : ℓ → σ → Prop} {f : σ → σ} (h : C.Leads (l, s) (l', s'))
    (hstep : ∀ l s l' s', I l s → C.step l s = some (l', s') →
      I l' s' ∧ C.step l (f s) = some (l', f s')) (hI : I l s) : C.Leads (l, f s) (l', f s') := by
  obtain ⟨p, hp⟩ : ∃ p, p = (l', s') := ⟨_, rfl⟩
  rw [← hp] at h
  induction h generalizing l' s' with
  | refl =>
      cases hp
      exact Relation.ReflTransGen.refl
  | @tail q r hq hlast ih =>
      subst hp
      have hinv : I q.1 q.2 :=
        Leads.invariant hq (fun l s l' s' hI hs => (hstep l s l' s' hI hs).1) hI
      exact (ih rfl).next (hstep q.1 q.2 l' s' hinv hlast).2

/-! ### Loops inside a section -/

/-- A loop over `0, …, n - 1` that leaves at the first index found, and behind the last one
otherwise. -/
theorem leads_scan {scan hit : Nat → ℓ} {miss : ℓ} {n : Nat} {found : Nat → Bool}
    (hscan : ∀ i, C.step (scan i) s =
      some (if i < n then if found i then hit i else scan (i + 1) else miss, s)) :
    (∃ i < n, found i = true ∧ (∀ j < i, found j = false) ∧ C.Leads (scan 0, s) (hit i, s)) ∨
      (∀ i < n, found i = false) ∧ C.Leads (scan 0, s) (miss, s) := by
  have hfrom : ∀ k i, i + k = n → (∀ j < i, found j = false) → C.Leads (scan 0, s) (scan i, s) →
      (∃ i < n, found i = true ∧ (∀ j < i, found j = false) ∧ C.Leads (scan 0, s) (hit i, s)) ∨
        (∀ i < n, found i = false) ∧ C.Leads (scan 0, s) (miss, s) := by
    intro k
    induction k with
    | zero =>
        rintro i hi hnone hleads
        have hend : ¬ i < n := by omega
        refine Or.inr ⟨fun j hj => hnone j (by omega), hleads.next ?_⟩
        rw [hscan, if_neg hend]
    | succ k ih =>
        intro i hi hnone hleads
        have hmore : i < n := by omega
        cases hfound : found i with
        | true =>
            refine Or.inl ⟨i, hmore, hfound, hnone, hleads.next ?_⟩
            simp [hscan, hmore, hfound]
        | false =>
            apply ih (i + 1) (by omega)
            · intro j hj
              rcases Nat.lt_succ_iff_lt_or_eq.mp hj with hj | rfl
              · exact hnone j hj
              · exact hfound
            · refine hleads.next ?_
              simp [hscan, hmore, hfound]
  exact hfrom n 0 (Nat.zero_add n) (fun j hj => absurd hj (Nat.not_lt_zero j))
    Relation.ReflTransGen.refl

/-- A probing loop over the slots of a table. -/
theorem leads_probeLoop {n : Nat} [NeZero n] {point hit : Fin n → ℓ} {miss : ℓ}
    {stop : Fin n → Bool} {start : Fin n}
    (hpoint : ∀ i, C.step (point i) s =
      some (if stop i then hit i else if i + 1 = start then miss else point (i + 1), s))
    {fuel : Nat} {i : Fin n} (hfuel : (start - 1 - i).val < fuel) :
    C.Leads (point i, s) ((probeLoop stop start fuel i).elim miss hit, s) := by
  induction fuel generalizing i with
  | zero => exact absurd hfuel (Nat.not_lt_zero _)
  | succ fuel ih =>
      rw [probeLoop]
      by_cases hstop : stop i = true
      · rw [if_pos hstop]
        apply Leads.single
        rw [hpoint, if_pos hstop]
        rfl
      · rw [if_neg hstop]
        by_cases hlast : i + 1 = start
        · rw [if_pos hlast]
          apply Leads.single
          rw [hpoint, if_neg hstop, if_pos hlast]
          rfl
        · rw [if_neg hlast]
          have hne : i ≠ start - 1 := by
            rintro rfl
            exact hlast (sub_add_cancel start 1)
          have hnext := val_sub_succ hne
          refine Leads.head ?_ (ih (by omega))
          rw [hpoint, if_neg hstop, if_neg hlast]

theorem leads_probe {n : Nat} [NeZero n] {point hit : Fin n → ℓ} {miss : ℓ}
    {stop : Fin n → Bool} {start : Fin n}
    (hpoint : ∀ i, C.step (point i) s =
      some (if stop i then hit i else if i + 1 = start then miss else point (i + 1), s)) :
    C.Leads (point start, s) ((probe stop start).elim miss hit, s) :=
  leads_probeLoop hpoint (Fin.isLt _)

/-- A list of stores, one after another. -/
theorem leads_stores {β : Type} {point : List β → ℓ} {store : σ → β → σ}
    (hstore : ∀ b bs s, C.step (point (b :: bs)) s = some (point bs, store s b)) (bs : List β)
    (s : σ) : C.Leads (point bs, s) (point [], bs.foldl store s) := by
  induction bs generalizing s with
  | nil => exact Relation.ReflTransGen.refl
  | cons b bs ih => exact Leads.head (hstore b bs s) (ih (store s b))

end Critical

/-! ### Threads -/

inductive LockPhase (γ ℓ : Type) where
  | outside
  /-- In the loop around the test-and-set. -/
  | waiting (c : γ)
  | inside (c : γ) (l : ℓ)
deriving DecidableEq

/-- The call a thread is in. -/
def LockPhase.call? : LockPhase γ ℓ → Option γ
  | outside => none
  | waiting c | inside c _ => some c

/-- The lock, what it guards, where each thread is, and the sections that have given the lock back,
the latest first. -/
structure Locked (τ γ ℓ σ : Type) where
  shared : σ
  lock : Bool
  phase : τ → LockPhase γ ℓ
  returned : List (τ × γ × ℓ)

def Locked.initial (s₀ : σ) : Locked τ γ ℓ σ where
  shared := s₀
  lock := false
  phase := fun _ => .outside
  returned := []

inductive LockAct (τ γ : Type) where
  | call (t : τ) (c : γ)
  | step (t : τ)

variable [DecidableEq τ]

def Locked.enter (s : Locked τ γ ℓ σ) (t : τ) (phase : LockPhase γ ℓ) : Locked τ γ ℓ σ :=
  { s with phase := Function.update s.phase t phase }

def lockStep (C : Critical γ ℓ σ) (s : Locked τ γ ℓ σ) : LockAct τ γ → Option (Locked τ γ ℓ σ)
  | .call t c =>
      match s.phase t with
      | .outside => some (s.enter t (.waiting c))
      | _ => none
  | .step t =>
      match s.phase t with
      | .outside => none
      | .waiting c =>
          if s.lock then some s
          else some { s.enter t (.inside c (C.enter c)) with lock := true }
      | .inside c l =>
          match C.step l s.shared with
          | some (l', shared) => some { s.enter t (.inside c l') with shared := shared }
          | none =>
              some { s.enter t .outside with lock := false, returned := (t, c, l) :: s.returned }

/-- The call whose section an action ends. -/
def Locked.releases (C : Critical γ ℓ σ) (s : Locked τ γ ℓ σ) : LockAct τ γ → Option γ
  | .call _ _ => none
  | .step t =>
      match s.phase t with
      | .inside c l => if (C.step l s.shared).isNone then some c else none
      | _ => none

/-- What one action does. -/
inductive Locked.Move (C : Critical γ ℓ σ) (s : Locked τ γ ℓ σ) :
    LockAct τ γ → Locked τ γ ℓ σ → Prop
  | call {t c} : s.phase t = .outside → Move C s (.call t c) (s.enter t (.waiting c))
  | spin {t c} : s.phase t = .waiting c → s.lock = true → Move C s (.step t) s
  | acquire {t c} : s.phase t = .waiting c → s.lock = false →
      Move C s (.step t) { s.enter t (.inside c (C.enter c)) with lock := true }
  | work {t c l l' shared} : s.phase t = .inside c l → C.step l s.shared = some (l', shared) →
      Move C s (.step t) { s.enter t (.inside c l') with shared := shared }
  | release {t c l} : s.phase t = .inside c l → C.step l s.shared = none →
      Move C s (.step t)
        { s.enter t .outside with lock := false, returned := (t, c, l) :: s.returned }

variable {C : Critical γ ℓ σ} {s s' : Locked τ γ ℓ σ} {act : LockAct τ γ} {t u : τ}

theorem lockStep_move (h : lockStep C s act = some s') : s.Move C act s' := by
  cases act with
  | call t c =>
      rw [lockStep] at h
      split at h
      · next hphase =>
          cases h
          exact .call hphase
      · cases h
  | step t =>
      rw [lockStep] at h
      split at h
      · cases h
      · next c hphase =>
          split at h
          · next hlock =>
              cases h
              exact .spin hphase hlock
          · next hlock =>
              cases h
              exact .acquire hphase (by simpa using hlock)
      · next c l hphase =>
          split at h
          · next hstep =>
              cases h
              exact .work hphase hstep
          · next hstep =>
              cases h
              exact .release hphase hstep

theorem lockStep_call {c : γ} (h : lockStep C s (.call t c) = some s') :
    s.phase t = .outside ∧ s' = s.enter t (.waiting c) := by
  cases lockStep_move h with
  | call ht => exact ⟨ht, rfl⟩

/-- A step moves one thread. It leaves that thread in its call or ends the call's section. -/
theorem lockStep_step (h : lockStep C s (.step t) = some s') :
    (∀ u, u ≠ t → s'.phase u = s.phase u) ∧ (∃ c, (s.phase t).call? = some c) ∧
      (s.releases C (.step t) = none → (s'.phase t).call? = (s.phase t).call?) ∧
      ∀ c, s.releases C (.step t) = some c →
        (s.phase t).call? = some c ∧ s'.phase t = .outside := by
  cases lockStep_move h with
  | spin ht =>
      exact ⟨fun _ _ => rfl, ⟨_, by rw [ht]; rfl⟩, fun _ => rfl, by simp [Locked.releases, ht]⟩
  | acquire ht =>
      refine ⟨fun u hu => Function.update_of_ne hu _ _, ⟨_, by rw [ht]; rfl⟩, fun _ => ?_,
        by simp [Locked.releases, ht]⟩
      simp [Locked.enter, ht, LockPhase.call?]
  | work ht hstep =>
      refine ⟨fun u hu => Function.update_of_ne hu _ _, ⟨_, by rw [ht]; rfl⟩, fun _ => ?_,
        by simp [Locked.releases, ht, hstep]⟩
      simp [Locked.enter, ht, LockPhase.call?]
  | release ht hend =>
      refine ⟨fun u hu => Function.update_of_ne hu _ _, ⟨_, by rw [ht]; rfl⟩,
        by simp [Locked.releases, ht, hend], fun d hd => ?_⟩
      obtain rfl : _ = d := by simpa [Locked.releases, ht, hend] using hd
      simp [Locked.enter, ht, LockPhase.call?]

/-- A thread is in a call it was in, or in the one the action is. -/
theorem lockStep_call? {c : γ} (h : lockStep C s act = some s')
    (hc : (s'.phase u).call? = some c) : (s.phase u).call? = some c ∨ act = .call u c := by
  cases act with
  | call t d =>
      obtain ⟨-, rfl⟩ := lockStep_call h
      by_cases hut : u = t
      · subst hut
        right
        simpa [Locked.enter, LockPhase.call?, eq_comm] using hc
      · left
        simpa [Locked.enter, hut] using hc
  | step t =>
      left
      obtain ⟨hothers, -, hstays, hleaves⟩ := lockStep_step h
      by_cases hut : u = t
      · subst hut
        cases hreleases : s.releases C (.step u) with
        | none => rwa [← hstays hreleases]
        | some d =>
            rw [(hleaves d hreleases).2] at hc
            cases hc
      · rwa [← hothers u hut]

namespace Locked

@[simp] theorem enter_phase (phase : LockPhase γ ℓ) :
    (s.enter t phase).phase = Function.update s.phase t phase := rfl
@[simp] theorem enter_lock (phase : LockPhase γ ℓ) : (s.enter t phase).lock = s.lock := rfl
@[simp] theorem enter_shared (phase : LockPhase γ ℓ) : (s.enter t phase).shared = s.shared := rfl
@[simp] theorem enter_returned (phase : LockPhase γ ℓ) :
    (s.enter t phase).returned = s.returned := rfl

theorem update_inside {phase : τ → LockPhase γ ℓ} {p : LockPhase γ ℓ} {c : γ} {l : ℓ} :
    Function.update phase t p u = .inside c l ↔
      u = t ∧ p = .inside c l ∨ u ≠ t ∧ phase u = .inside c l := by
  by_cases hu : u = t
  · subst hu
    simp
  · simp [hu]

end Locked

/-! ### One section at a time -/

/-- While the lock is free the shared state is `s₁`. While it is held one thread is inside, and its
steps lead on from there. -/
structure Sectioned (C : Critical γ ℓ σ) (s₁ : σ) (s : Locked τ γ ℓ σ) : Prop where
  free : s.lock = false → s.shared = s₁
  held : s.lock = true ↔ ∃ t c l, s.phase t = .inside c l
  exclusive : ∀ t u c d l l', s.phase t = .inside c l → s.phase u = .inside d l' → t = u
  leads : ∀ t c l, s.phase t = .inside c l → C.Leads (C.enter c, s₁) (l, s.shared)

namespace Sectioned

omit [DecidableEq τ] in
theorem initial (C : Critical γ ℓ σ) (s₀ : σ) :
    Sectioned C s₀ (Locked.initial s₀ : Locked τ γ ℓ σ) where
  free _ := rfl
  held := by simp [Locked.initial]
  exclusive t u c d l l' ht hu := by simp [Locked.initial] at ht
  leads t c l ht := by simp [Locked.initial] at ht

variable {s₁ : σ}

omit [DecidableEq τ] in
theorem not_inside (h : Sectioned C s₁ s) (hlock : s.lock = false) (t : τ) (c : γ) (l : ℓ) :
    s.phase t ≠ .inside c l := by
  intro ht
  have hheld := h.held.mpr ⟨t, c, l, ht⟩
  rw [hlock] at hheld
  cases hheld

/-- A thread outside the section moves on to another point outside it. -/
theorem enter_outside (h : Sectioned C s₁ s) {phase : LockPhase γ ℓ}
    (hbefore : ∀ c l, s.phase t ≠ .inside c l) (hafter : ∀ c l, phase ≠ .inside c l) :
    Sectioned C s₁ (s.enter t phase) := by
  have hsame : ∀ u c l, (s.enter t phase).phase u = .inside c l ↔ s.phase u = .inside c l := by
    intro u c l
    rw [Locked.enter_phase, Locked.update_inside]
    constructor
    · rintro (⟨-, hp⟩ | ⟨-, hu⟩)
      · exact absurd hp (hafter c l)
      · exact hu
    · intro hu
      refine Or.inr ⟨?_, hu⟩
      rintro rfl
      exact hbefore c l hu
  constructor
  · exact h.free
  · simp only [hsame]
    exact h.held
  · intro t' u c d l l' ht hu
    exact h.exclusive t' u c d l l' ((hsame ..).mp ht) ((hsame ..).mp hu)
  · intro t' c l ht
    exact h.leads t' c l ((hsame ..).mp ht)

theorem acquire (h : Sectioned C s₁ s) (c : γ) (hlock : s.lock = false) :
    Sectioned C s₁ { s.enter t (.inside c (C.enter c)) with lock := true } := by
  have hother := h.not_inside hlock
  constructor
  · intro hfree
    cases hfree
  · exact iff_of_true rfl ⟨t, c, C.enter c, by simp⟩
  · intro u v d e l l' hu hv
    rcases Locked.update_inside.mp hu with ⟨rfl, -⟩ | ⟨-, hu⟩
    · rcases Locked.update_inside.mp hv with ⟨rfl, -⟩ | ⟨-, hv⟩
      · rfl
      · exact absurd hv (hother v e l')
    · exact absurd hu (hother u d l)
  · intro u d l hu
    rcases Locked.update_inside.mp hu with ⟨rfl, hp⟩ | ⟨-, hu⟩
    · cases hp
      change C.Leads (C.enter c, s₁) (C.enter c, s.shared)
      rw [h.free hlock]
      exact Relation.ReflTransGen.refl
    · exact absurd hu (hother u d l)

theorem work (h : Sectioned C s₁ s) {c : γ} {l l' : ℓ} {shared : σ}
    (ht : s.phase t = .inside c l) (hstep : C.step l s.shared = some (l', shared)) :
    Sectioned C s₁ { s.enter t (.inside c l') with shared := shared } := by
  have hlock : s.lock = true := h.held.mpr ⟨t, c, l, ht⟩
  have honly : ∀ u d e, (s.enter t (.inside c l')).phase u = .inside d e →
      u = t ∧ d = c ∧ e = l' := by
    intro u d e hu
    rcases Locked.update_inside.mp hu with ⟨rfl, hp⟩ | ⟨hne, hu⟩
    · cases hp
      exact ⟨rfl, rfl, rfl⟩
    · exact absurd (h.exclusive u t _ _ _ _ hu ht) hne
  constructor
  · intro hfree
    exact absurd (hlock.symm.trans hfree) (by simp)
  · exact iff_of_true hlock ⟨t, c, l', by simp⟩
  · intro u v d e k k' hu hv
    rw [(honly u d k hu).1, (honly v e k' hv).1]
  · intro u d e hu
    obtain ⟨rfl, rfl, rfl⟩ := honly u d e hu
    exact (h.leads u d l ht).next hstep

theorem release (h : Sectioned C s₁ s) {c : γ} {l : ℓ} (ht : s.phase t = .inside c l) :
    Sectioned C s.shared
      { s.enter t .outside with lock := false, returned := (t, c, l) :: s.returned } := by
  have hnone : ∀ u d e, (s.enter t .outside).phase u ≠ .inside d e := by
    intro u d e hu
    rcases Locked.update_inside.mp hu with ⟨-, hp⟩ | ⟨hne, hu⟩
    · cases hp
    · exact hne (h.exclusive u t _ _ _ _ hu ht)
  constructor
  · exact fun _ => rfl
  · refine iff_of_false (by simp) ?_
    rintro ⟨u, d, e, hu⟩
    exact hnone u d e hu
  · intro u v d e k k' hu
    exact absurd hu (hnone u d k)
  · intro u d e hu
    exact absurd hu (hnone u d e)

/-- One action leaves the state between the sections as it is, or takes it on by the section it
ends. -/
theorem move (h : Sectioned C s₁ s) (hmove : s.Move C act s') :
    ∃ s₂, Sectioned C s₂ s' ∧
      (s.releases C act = none → s₂ = s₁ ∧ s'.returned = s.returned) ∧
      ∀ c, s.releases C act = some c → ∃ t l, act = .step t ∧ s.phase t = .inside c l ∧
        s'.returned = (t, c, l) :: s.returned ∧ C.Performs c s₁ l s₂ := by
  cases hmove with
  | call ht =>
      exact ⟨s₁, h.enter_outside (by simp [ht]) (by simp), fun _ => ⟨rfl, rfl⟩,
        by simp [Locked.releases]⟩
  | spin ht => exact ⟨s₁, h, fun _ => ⟨rfl, rfl⟩, by simp [Locked.releases, ht]⟩
  | acquire ht hlock =>
      exact ⟨s₁, h.acquire _ hlock, fun _ => ⟨rfl, rfl⟩, by simp [Locked.releases, ht]⟩
  | work ht hstep =>
      exact ⟨s₁, h.work ht hstep, fun _ => ⟨rfl, rfl⟩, by simp [Locked.releases, ht, hstep]⟩
  | @release t c l ht hend =>
      refine ⟨s.shared, h.release ht, by simp [Locked.releases, ht, hend], ?_⟩
      intro d hd
      obtain rfl : c = d := by simpa [Locked.releases, ht, hend] using hd
      exact ⟨t, l, rfl, ht, rfl, h.leads t c l ht, hend⟩

omit [DecidableEq τ] in
/-- Somebody else changes the shared state, in a way that no section notices. -/
theorem disturb {f : σ → σ} (h : Sectioned C s₁ s)
    (hleads : ∀ t c l, s.phase t = .inside c l → C.Leads (C.enter c, f s₁) (l, f s.shared)) :
    Sectioned C (f s₁) { s with shared := f s.shared } where
  free hlock := congrArg f (h.free hlock)
  held := h.held
  exclusive := h.exclusive
  leads := hleads

omit [DecidableEq τ] in
/-- What the steps of a section preserve holds wherever a thread is in one. -/
theorem inside_invariant {I : ℓ → σ → Prop} (h : Sectioned C s₁ s)
    (henter : ∀ c s, I (C.enter c) s)
    (hstep : ∀ l s l' s', I l s → C.step l s = some (l', s') → I l' s')
    {c : γ} {l : ℓ} (ht : s.phase t = .inside c l) : I l s.shared :=
  (h.leads t c l ht).invariant hstep (henter c s₁)

end Sectioned

/-- A thread inside, at a point from which no steps lead to the end of its section, keeps the lock,
and nobody else touches the state. -/
theorem Sectioned.move_stuck {s₁ : σ} {Q : ℓ → σ → Prop}
    (hstep : ∀ l s l' s', Q l s → C.step l s = some (l', s') → Q l' s')
    (hend : ∀ l s, Q l s → C.step l s ≠ none) (h : Sectioned C s₁ s) {c : γ} {l : ℓ}
    (ht : s.phase t = .inside c l) (hl : Q l s.shared) (hmove : s.Move C act s') :
    s'.returned = s.returned ∧ ∃ l', s'.phase t = .inside c l' ∧ Q l' s'.shared := by
  have hheld : s.lock = true := h.held.mpr ⟨t, c, l, ht⟩
  cases hmove with
  | @call u d hu =>
      have hne : t ≠ u := by
        rintro rfl
        cases ht.symm.trans hu
      exact ⟨rfl, l, (Function.update_of_ne hne ..).trans ht, hl⟩
  | spin => exact ⟨rfl, l, ht, hl⟩
  | acquire _ hfree => exact absurd (hheld.symm.trans hfree) (by simp)
  | @work u d k k' shared hu hwork =>
      obtain rfl := h.exclusive t u c d l k ht hu
      cases ht.symm.trans hu
      exact ⟨rfl, k', Function.update_self .., hstep l _ k' shared hl hwork⟩
  | @release u d k hu hnone =>
      obtain rfl := h.exclusive t u c d l k ht hu
      cases ht.symm.trans hu
      exact absurd hnone (hend l _ hl)

/-- The sections that gave the lock back led from `s₀` to `s₁`. -/
structure Serialized (C : Critical γ ℓ σ) (s₀ s₁ : σ) (s : Locked τ γ ℓ σ) : Prop
    extends Sectioned C s₁ s where
  performed : C.Performed s₀ s.returned s₁

namespace Serialized

omit [DecidableEq τ] in
theorem initial (C : Critical γ ℓ σ) (s₀ : σ) :
    Serialized C s₀ s₀ (Locked.initial s₀ : Locked τ γ ℓ σ) :=
  ⟨Sectioned.initial C s₀, .nil⟩

variable {s₀ s₁ : σ}

/-- One action leaves the sections as they are or adds the one it ends. -/
theorem move (h : Serialized C s₀ s₁ s) (hmove : s.Move C act s') :
    ∃ s₂, Serialized C s₀ s₂ s' ∧ (s.releases C act = none → s₂ = s₁) ∧
      ∀ c, s.releases C act = some c → ∃ l, C.Performs c s₁ l s₂ := by
  obtain ⟨s₂, hsectioned, hsame, hends⟩ := h.toSectioned.move hmove
  cases hreleases : s.releases C act with
  | none =>
      obtain ⟨rfl, hreturned⟩ := hsame hreleases
      refine ⟨s₂, ⟨hsectioned, ?_⟩, fun _ => rfl, by simp⟩
      rw [hreturned]
      exact h.performed
  | some c =>
      obtain ⟨t, l, -, -, hreturned, hperforms⟩ := hends c hreleases
      refine ⟨s₂, ⟨hsectioned, ?_⟩, by simp, ?_⟩
      · rw [hreturned]
        exact h.performed.cons hperforms
      · rintro d hd
        cases hd
        exact ⟨l, hperforms⟩

end Serialized

/-- **Sections are serialized** in every interleaving of any threads. -/
theorem lockRun_serialized {s₀ : σ} {history : List (LockAct τ γ)}
    (h : runFrom (lockStep C) (.initial s₀) history = some s) : ∃ s₁, Serialized C s₀ s₁ s := by
  refine runFrom_invariant (I := fun s => ∃ s₁, Serialized C s₀ s₁ s) (P := fun _ _ => True)
    ⟨s₀, Serialized.initial C s₀⟩ ?_ (fun _ _ _ _ _ => trivial) h
  rintro s a s' ⟨s₁, hs⟩ - hstep
  obtain ⟨s₂, hs', -⟩ := hs.move (lockStep_move hstep)
  exact ⟨s₂, hs'⟩

/-! ### What the sections compute -/

/-- Seen through `abs`, a section that ends computes `run`, and what it returns is right. -/
structure Critical.Refines {A : Type} (C : Critical γ ℓ σ) (abs : σ → A) (run : γ → A → A)
    (Returns : γ → A → ℓ → Prop) : Prop where
  performs : ∀ c s l s', C.Performs c s l s' → abs s' = run c (abs s) ∧ Returns c (abs s) l

/-- The calls that have returned, one after another. -/
def runReturned {A : Type} (run : γ → A → A) (a₀ : A) (returned : List (τ × γ × ℓ)) : A :=
  returned.foldr (fun r a => run r.2.1 a) a₀

namespace Critical.Refines

variable {A : Type} {abs : σ → A} {run : γ → A → A} {Returns : γ → A → ℓ → Prop} {s₀ s₁ : σ}
  {returned : List (τ × γ × ℓ)}

omit [DecidableEq τ] in
theorem performed (hrefines : C.Refines abs run Returns) (h : C.Performed s₀ returned s₁) :
    abs s₁ = runReturned run (abs s₀) returned ∧
      ∀ t c l before, (t, c, l) :: before <:+ returned →
        Returns c (runReturned run (abs s₀) before) l := by
  induction h with
  | nil =>
      refine ⟨rfl, fun t c l before hsuffix => ?_⟩
      cases List.suffix_nil.mp hsuffix
  | @cons returned s t c l s' hbefore hc ih =>
      obtain ⟨hrun, hreturns⟩ := hrefines.performs c s l s' hc
      rw [ih.1] at hrun hreturns
      refine ⟨hrun, fun u d k before hsuffix => ?_⟩
      rcases List.suffix_cons_iff.mp hsuffix with heq | hsuffix
      · cases heq
        exact hreturns
      · exact ih.2 u d k before hsuffix

/-- **The threads run the calls one at a time**: whenever the lock is free the shared state is the
one after the calls that have returned, in that order, and each of them has returned what it
returns there. -/
theorem lockRun_eq (hrefines : C.Refines abs run Returns) {history : List (LockAct τ γ)}
    (h : runFrom (lockStep C) (.initial s₀) history = some s) :
    (s.lock = false → abs s.shared = runReturned run (abs s₀) s.returned) ∧
      ∀ t c l before, (t, c, l) :: before <:+ s.returned →
        Returns c (runReturned run (abs s₀) before) l := by
  obtain ⟨s₁, hs⟩ := lockRun_serialized h
  obtain ⟨hshared, hreturns⟩ := hrefines.performed hs.performed
  refine ⟨fun hfree => ?_, hreturns⟩
  rw [hs.free hfree, hshared]

end Critical.Refines

/-! ### Nobody waits for ever -/

/-- The threads go on with the calls they are in. -/
def lockGo (C : Critical γ ℓ σ) (s : Locked τ γ ℓ σ) (t : τ) : Option (Locked τ γ ℓ σ) :=
  lockStep C s (.step t)

section Progress

variable {s₁ : σ} {c : γ} {l l' : ℓ} {shared : σ}

theorem lockGo_work (ht : s.phase t = .inside c l)
    (hstep : C.step l s.shared = some (l', shared)) :
    lockGo C s t = some { s.enter t (.inside c l') with shared := shared } := by
  simp [lockGo, lockStep, ht, hstep]

theorem reaches_leads (ht : s.phase t = .inside c l)
    (h : C.Leads (l, s.shared) (l', shared)) :
    Reaches (lockGo C) s { s.enter t (.inside c l') with shared := shared } := by
  obtain ⟨p, hp⟩ : ∃ p, p = (l', shared) := ⟨_, rfl⟩
  rw [← hp] at h
  induction h generalizing l' shared with
  | refl =>
      cases hp
      have hsame : Function.update s.phase t (.inside c l) = s.phase := by
        rw [← ht, Function.update_eq_self]
      refine ⟨[], ?_⟩
      simp [runFrom, Locked.enter, hsame]
  | tail _ hstep ih =>
      subst hp
      refine (ih rfl).trans (Reaches.single (a := t) ?_)
      rw [lockGo_work (c := c) (by simp) hstep]
      simp [Locked.enter]

/-- The thread inside can go on to its end and give the lock back. -/
theorem Sectioned.reaches_release (h : Sectioned C s₁ s) (ht : s.phase t = .inside c l)
    (hperforms : C.Performs c s₁ l' shared) :
    Reaches (lockGo C) s
      { s.enter t .outside with
        shared := shared, lock := false, returned := (t, c, l') :: s.returned } := by
  have hon := (h.leads t c l ht).of_performs hperforms
  refine (reaches_leads ht hon).trans (Reaches.single (a := t) ?_)
  simp [lockGo, lockStep, hperforms.2, Locked.enter]

theorem Sectioned.of_reaches (h : Sectioned C s₁ s) (hreaches : Reaches (lockGo C) s s') :
    ∃ s₂, Sectioned C s₂ s' := by
  obtain ⟨history, hhistory⟩ := hreaches
  refine runFrom_invariant (I := fun s => ∃ s₁, Sectioned C s₁ s) (P := fun _ _ => True)
    ⟨s₁, h⟩ ?_ (fun _ _ _ _ _ => trivial) hhistory
  rintro s a s' ⟨s₁, hs⟩ - hstep
  obtain ⟨s₂, hs', -⟩ := hs.move (lockStep_move hstep)
  exact ⟨s₂, hs'⟩

/-! Some calls end where the state is right for them, and leave such a state. -/

variable {Ends : γ → Prop} {Right : σ → Prop}
  (hperforms : ∀ c s, Ends c → Right s → ∃ l s', C.Performs c s l s' ∧ Right s')
include hperforms

/-- Whoever holds the lock gives it back, and begins no call. -/
theorem Sectioned.exists_reaches_free (h : Sectioned C s₁ s) (hright : Right s₁)
    (hends : ∀ u c, (s.phase u).call? = some c → Ends c) :
    ∃ s', Reaches (lockGo C) s s' ∧ s'.lock = false ∧ Right s'.shared ∧
      ∀ u c, (s'.phase u).call? = some c → (s.phase u).call? = some c := by
  by_cases hlock : s.lock = true
  · obtain ⟨u, c, l, hu⟩ := h.held.mp hlock
    obtain ⟨l', shared, hend, hright'⟩ := hperforms c s₁ (hends u c (by simp [hu, LockPhase.call?]))
      hright
    refine ⟨_, h.reaches_release hu hend, rfl, hright', fun v d hv => ?_⟩
    by_cases hvu : v = u
    · subst hvu
      simp [LockPhase.call?] at hv
    · simpa [hvu] using hv
  · have hfree : s.lock = false := by simpa using hlock
    exact ⟨s, ⟨[], rfl⟩, hfree, h.free hfree ▸ hright, fun _ _ hu => hu⟩

/-- **No deadlock**: where the sections of all calls end, every call can still return, and no thread
has to call anything for it. -/
theorem Sectioned.exists_reaches_outside (hs : Sectioned C s₁ s) (hright : Right s₁)
    (hends : ∀ u c, (s.phase u).call? = some c → Ends c) (t : τ) :
    ∃ s', Reaches (lockGo C) s s' ∧ s'.phase t = .outside := by
  obtain ⟨s', hreaches, hfree, hright', hcalls⟩ := hs.exists_reaches_free hperforms hright hends
  obtain ⟨s₂, hs'⟩ := hs.of_reaches hreaches
  cases hphase : s'.phase t with
  | outside => exact ⟨s', hreaches, hphase⟩
  | inside c l => exact absurd hphase (hs'.not_inside hfree t c l)
  | waiting c =>
      have hacquire : lockGo C s' t =
          some { s'.enter t (.inside c (C.enter c)) with lock := true } := by
        simp [lockGo, lockStep, hphase, hfree]
      have hc : Ends c := hends t c (hcalls t c (by simp [hphase, LockPhase.call?]))
      rw [hs'.free hfree] at hright'
      obtain ⟨l, shared, hend, -⟩ := hperforms c s₂ hc hright'
      have hreturn := (hs'.acquire (t := t) c hfree).reaches_release
        (Function.update_self ..) hend
      exact ⟨_, (hreaches.trans (Reaches.single (a := t) hacquire)).trans hreturn, by simp⟩

end Progress

end Misan
