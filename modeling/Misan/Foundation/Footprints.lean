import Misan.Foundation.ByteMemory
import Misan.Foundation.Runs

/-!
# Calls made of stores

A call makes a fixed list of stores, and other threads make theirs between any two of them. Where no
two calls are at a byte at the same time, the byte cannot tell: whenever nobody is at it, it is what
the calls that have returned leave there, made one after another.
-/

namespace Misan

variable {w : Nat} {τ γ : Type}

structure InFlight (τ γ : Type) (w : Nat) where
  mem : ByteMemory w
  /-- The call a thread is in, with the stores it has left. -/
  pending : τ → Option (γ × List (BitVec w × BitVec 8))
  /-- The latest first. -/
  returned : List γ

def InFlight.initial (τ γ : Type) (m : ByteMemory w) : InFlight τ γ w where
  mem := m
  pending := fun _ => none
  returned := []

def InFlight.enter [DecidableEq τ] (s : InFlight τ γ w) (t : τ)
    (pending : Option (γ × List (BitVec w × BitVec 8))) : InFlight τ γ w :=
  { s with pending := Function.update s.pending t pending }

inductive FlightAct (τ γ : Type) where
  | call (t : τ) (c : γ)
  | step (t : τ)

def flightStep [DecidableEq τ] (stores : γ → List (BitVec w × BitVec 8)) (s : InFlight τ γ w) :
    FlightAct τ γ → Option (InFlight τ γ w)
  | .call t c =>
      match s.pending t with
      | none => some (s.enter t (some (c, stores c)))
      | some _ => none
  | .step t =>
      match s.pending t with
      | none => none
      | some (c, st :: left) => some
          { s.enter t (some (c, left)) with mem := s.mem.store st.1 st.2 }
      | some (c, []) => some { s.enter t none with returned := c :: s.returned }

/-- Whole calls, the latest first. -/
def storeCalls (stores : γ → List (BitVec w × BitVec 8)) (m : ByteMemory w) (calls : List γ) :
    ByteMemory w :=
  calls.foldr (fun c m => m.storeAll (stores c)) m

def StoresAt (stores : γ → List (BitVec w × BitVec 8)) (x : BitVec w) (c : γ) : Prop :=
  ∃ st ∈ stores c, st.1 = x

/-- Nobody is in a call that stores to the byte. -/
def InFlight.Quiet (stores : γ → List (BitVec w × BitVec 8)) (x : BitVec w)
    (s : InFlight τ γ w) : Prop :=
  ∀ t c left, s.pending t = some (c, left) → ¬ StoresAt stores x c

/-- A call that stores to the byte begins while nobody else is at it. -/
def InFlight.Alone (stores : γ → List (BitVec w × BitVec 8)) (x : BitVec w)
    (s : InFlight τ γ w) : FlightAct τ γ → Prop
  | .call _ c => StoresAt stores x c → s.Quiet stores x
  | .step _ => True

namespace ByteMemory

theorem storeAll_of_ne (m : ByteMemory w) {x : BitVec w} {stores : List (BitVec w × BitVec 8)}
    (hne : ∀ st ∈ stores, st.1 ≠ x) : m.storeAll stores x = m x := by
  induction stores generalizing m with
  | nil => rfl
  | cons st stores ih =>
      rw [List.forall_mem_cons] at hne
      rw [storeAll, ih _ hne.2]
      exact store_of_ne _ _ hne.1.symm

theorem storeAll_concat (m : ByteMemory w) (stores : List (BitVec w × BitVec 8))
    (st : BitVec w × BitVec 8) :
    m.storeAll (stores ++ [st]) = (m.storeAll stores).store st.1 st.2 := by
  rw [storeAll_append]
  rfl

end ByteMemory

section Step

variable {stores : γ → List (BitVec w × BitVec 8)} {m : ByteMemory w} {x : BitVec w}
  {s s' : InFlight τ γ w} {act : FlightAct τ γ}

/-- At most one thread is at the byte. Its stores so far lead on from what the returned calls leave
there. -/
structure InFlight.OneAt (stores : γ → List (BitVec w × BitVec 8)) (m : ByteMemory w)
    (x : BitVec w) (s : InFlight τ γ w) : Prop where
  left : ∀ t c left, s.pending t = some (c, left) → ∃ made, made ++ left = stores c ∧
    (StoresAt stores x c → s.mem x = (storeCalls stores m s.returned).storeAll made x)
  exclusive : ∀ t u c d left left', s.pending t = some (c, left) → s.pending u = some (d, left') →
    StoresAt stores x c → StoresAt stores x d → t = u
  quiet : s.Quiet stores x → s.mem x = storeCalls stores m s.returned x

namespace InFlight.OneAt

theorem initial (stores : γ → List (BitVec w × BitVec 8)) (m : ByteMemory w) (x : BitVec w) :
    (InFlight.initial τ γ m).OneAt stores m x where
  left t c left hpending := by cases hpending
  exclusive t u c d left left' hpending := by cases hpending
  quiet _ := rfl

variable [DecidableEq τ] {t u : τ} {c d : γ} {left : List (BitVec w × BitVec 8)}
  {pending : Option (γ × List (BitVec w × BitVec 8))}

theorem call (h : s.OneAt stores m x) (hnone : s.pending t = none)
    (halone : StoresAt stores x c → s.Quiet stores x) :
    (s.enter t (some (c, stores c))).OneAt stores m x := by
  have hwho : ∀ {u d left}, (s.enter t (some (c, stores c))).pending u = some (d, left) →
      u = t ∧ d = c ∧ left = stores c ∨ u ≠ t ∧ s.pending u = some (d, left) := by
    intro u d left hu
    by_cases hut : u = t
    · subst hut
      simp only [InFlight.enter, Function.update_self, Option.some.injEq, Prod.mk.injEq] at hu
      exact Or.inl ⟨rfl, hu.1.symm, hu.2.symm⟩
    · simp only [InFlight.enter, Function.update_of_ne hut] at hu
      exact Or.inr ⟨hut, hu⟩
  constructor
  · intro u d left hu
    rcases hwho hu with ⟨rfl, rfl, rfl⟩ | ⟨-, hu⟩
    · exact ⟨[], rfl, fun hat => h.quiet (halone hat)⟩
    · exact h.left u d left hu
  · intro u v d e left left' hu hv hat hat'
    rcases hwho hu with ⟨rfl, rfl, -⟩ | ⟨-, hu₀⟩
    · rcases hwho hv with ⟨rfl, -, -⟩ | ⟨-, hv₀⟩
      · rfl
      · exact absurd hat' (halone hat v e left' hv₀)
    · rcases hwho hv with ⟨rfl, rfl, -⟩ | ⟨-, hv₀⟩
      · exact absurd hat (halone hat' u d left hu₀)
      · exact h.exclusive u v d e left left' hu₀ hv₀ hat hat'
  · intro hquiet
    refine h.quiet fun u d left hu => hquiet u d left ?_
    have hut : u ≠ t := by
      rintro rfl
      rw [hnone] at hu
      cases hu
    simpa [InFlight.enter, hut] using hu

/-- A store of the thread at the byte, or one to another byte. -/
theorem store (h : s.OneAt stores m x) {st : BitVec w × BitVec 8}
    (ht : s.pending t = some (c, st :: left)) :
    ({ s.enter t (some (c, left)) with mem := s.mem.store st.1 st.2 }).OneAt stores m x := by
  have hwho : ∀ {u d k}, (s.enter t (some (c, left))).pending u = some (d, k) →
      u = t ∧ d = c ∧ k = left ∨ u ≠ t ∧ s.pending u = some (d, k) := by
    intro u d k hu
    by_cases hut : u = t
    · subst hut
      simp only [InFlight.enter, Function.update_self, Option.some.injEq, Prod.mk.injEq] at hu
      exact Or.inl ⟨rfl, hu.1.symm, hu.2.symm⟩
    · simp only [InFlight.enter, Function.update_of_ne hut] at hu
      exact Or.inr ⟨hut, hu⟩
  -- the call a thread is in stays the same, whichever thread it is
  have hbefore : ∀ {u d k}, (s.enter t (some (c, left))).pending u = some (d, k) →
      ∃ k', s.pending u = some (d, k') := by
    intro u d k hu
    rcases hwho hu with ⟨rfl, rfl, -⟩ | ⟨-, hu⟩
    · exact ⟨_, ht⟩
    · exact ⟨k, hu⟩
  obtain ⟨made, hmade, hmem⟩ := h.left t c (st :: left) ht
  have hst : st.1 = x → StoresAt stores x c := fun heq => ⟨st, by simp [← hmade], heq⟩
  constructor
  · intro u d k hu
    rcases hwho hu with ⟨rfl, rfl, rfl⟩ | ⟨hut, hu⟩
    · refine ⟨made ++ [st], by rw [← hmade, List.append_assoc]; rfl, fun hat => ?_⟩
      rw [ByteMemory.storeAll_concat]
      change s.mem.store st.1 st.2 x = _
      rw [ByteMemory.store_apply, ByteMemory.store_apply, hmem hat]
      rfl
    · obtain ⟨made', hmade', hmem'⟩ := h.left u d k hu
      refine ⟨made', hmade', fun hat => ?_⟩
      have hne : x ≠ st.1 := by
        rintro rfl
        exact hut (h.exclusive u t d c k _ hu ht hat (hst rfl))
      exact (ByteMemory.store_of_ne _ _ hne).trans (hmem' hat)
  · intro u v d e k k' hu hv hat hat'
    obtain ⟨l, hu⟩ := hbefore hu
    obtain ⟨l', hv⟩ := hbefore hv
    exact h.exclusive u v d e l l' hu hv hat hat'
  · intro hquiet
    have hne : x ≠ st.1 := by
      rintro rfl
      exact hquiet t c left (Function.update_self ..) (hst rfl)
    refine (ByteMemory.store_of_ne _ _ hne).trans (h.quiet fun u d k hu => ?_)
    by_cases hut : u = t
    · subst hut
      cases ht.symm.trans hu
      exact hquiet u c left (Function.update_self ..)
    · exact hquiet u d k ((Function.update_of_ne hut ..).trans hu)

theorem returns (h : s.OneAt stores m x) (ht : s.pending t = some (c, [])) :
    ({ s.enter t none with returned := c :: s.returned }).OneAt stores m x := by
  have hwho : ∀ {u d k}, (s.enter t none).pending u = some (d, k) →
      u ≠ t ∧ s.pending u = some (d, k) := by
    intro u d k hu
    by_cases hut : u = t
    · subst hut
      simp [InFlight.enter] at hu
    · simp only [InFlight.enter, Function.update_of_ne hut] at hu
      exact ⟨hut, hu⟩
  obtain ⟨made, hmade, hmem⟩ := h.left t c [] ht
  rw [List.append_nil] at hmade
  subst hmade
  have hother : ¬ StoresAt stores x c →
      storeCalls stores m (c :: s.returned) x = storeCalls stores m s.returned x := by
    intro hnot
    exact ByteMemory.storeAll_of_ne _ fun st hst heq => hnot ⟨st, hst, heq⟩
  constructor
  · intro u d k hu
    obtain ⟨hut, hu⟩ := hwho hu
    obtain ⟨made, hmade, hmem⟩ := h.left u d k hu
    refine ⟨made, hmade, fun hat => (hmem hat).trans ?_⟩
    have hnot : ¬ StoresAt stores x c := fun hat' => hut (h.exclusive u t d c k _ hu ht hat hat')
    exact ByteMemory.storeAll_congr (hother hnot).symm _
  · intro u v d e k k' hu hv hat hat'
    exact h.exclusive u v d e k k' (hwho hu).2 (hwho hv).2 hat hat'
  · intro hquiet
    by_cases hat : StoresAt stores x c
    · exact hmem hat
    · refine Eq.trans (h.quiet fun u d k hu => ?_) (hother hat).symm
      by_cases hut : u = t
      · subst hut
        cases ht.symm.trans hu
        exact hat
      · exact hquiet u d k ((Function.update_of_ne hut ..).trans hu)

theorem step (h : s.OneAt stores m x) (hstep : flightStep stores s act = some s')
    (halone : s.Alone stores x act) : s'.OneAt stores m x := by
  cases act with
  | call t c =>
      rw [flightStep] at hstep
      split at hstep
      · next hnone =>
          cases hstep
          exact h.call hnone halone
      · cases hstep
  | step t =>
      rw [flightStep] at hstep
      split at hstep
      · cases hstep
      · next hpending =>
          cases hstep
          exact h.store hpending
      · next hpending =>
          cases hstep
          exact h.returns hpending

end InFlight.OneAt

end Step

end Misan
