import Misan.Proof.TsanReports
import Misan.Proof.TsanRelease

/-!
# Registration and the zero slot

No thread is ever given identifier `0`, so slot `0` keeps the clock it was born with and a fresh
shadow entry, which names it, races with nobody. The own component of a thread starts at `1` and no
component goes back, unless a counter of 64 bits overflows.
-/

namespace Misan

open Function

variable {Thr : Type} [DecidableEq Thr] {s s' s₁ : TsanState Thr} {c : TsanCall Thr}
  {history : List (TsanCall Thr)} {thr : Thr} {tid : Tid}

/-- The registered threads are all a run has room for. -/
def AllIdsTaken (s : TsanState Thr) : Prop :=
  ∃ registered : Finset Thr, registered.card = 63 ∧ ∀ thr ∈ registered, s.currentTid thr ≠ none

theorem tsanGetTid_refused_iff (h : tsanRun history = .ok s) (thr : Thr) :
    tsanGetTid s thr = .error .tooManyThreads ↔ s.currentTid thr = none ∧ AllIdsTaken s := by
  obtain ⟨registered, -, hmem, hcard⟩ := tsanRun_registered h
  constructor
  · intro herror
    obtain ⟨-, hnone, hcount⟩ := tsanGetTid_error herror
    obtain ⟨some63, hsub, hcard63⟩ :=
      Finset.exists_subset_card_eq (show 63 ≤ registered.card by omega)
    exact ⟨hnone, some63, hcard63, fun thr' hthr' => (hmem thr').mp (hsub hthr')⟩
  · rintro ⟨hnone, taken, hcard63, htaken⟩
    have hcount : 63 ≤ s.threadCount := by
      calc
        63 = taken.card := hcard63.symm
        _ ≤ registered.card := Finset.card_le_card fun v hv => (hmem v).mpr (htaken v hv)
        _ = s.threadCount := hcard
    rw [tsanGetTid, hnone]
    exact dif_neg (by omega)

/-! ### Own components -/

def OwnPositive (s : TsanState Thr) : Prop :=
  ∀ thr tid, s.currentTid thr = some tid → 1 ≤ ((s.threads tid).vc tid).toNat

theorem OwnPositive.enters (h : OwnPositive s) (hs : TsanThreadsOk s)
    (henters : TsanEnters s c s₁) : OwnPositive s₁ := by
  rcases henters with ⟨-, rfl⟩ | ⟨thr, tid, -, hentered⟩
  · exact h
  · cases hentered with
    | known => exact h
    | fresh hnone htid =>
        intro v t hv
        by_cases hthr : v = thr
        · subst hthr
          rw [TsanState.register_currentTid_self] at hv
          cases hv
          have hone : (update (0 : TsanVc) tid 1 tid).toNat = 1 := by
            rw [update_self]
            rfl
          rw [TsanState.register_threads_self]
          exact hone.ge
        · rw [TsanState.register_currentTid_of_ne hthr] at hv
          have hne : t ≠ tid := by
            rintro rfl
            exact hs.fresh htid v hv
          rw [TsanState.register_threads_of_ne hne]
          exact h v t hv

omit [DecidableEq Thr] in
theorem OwnPositive.move (h : OwnPositive s) (hmove : TsanMove s c s') (hwrap : s.NoWrap c) :
    OwnPositive s' := by
  intro v t hv
  rw [hmove.currentTid_eq] at hv
  exact (h v t hv).trans (hmove.vc_le hwrap t t)

theorem tsanRun_ownPositive (hfit : ClocksFit history) (h : tsanRun history = .ok s) :
    OwnPositive s := by
  refine tsanRun_induction (P := fun history s => ClocksFit history → OwnPositive s) ?_ ?_ h hfit
  · intro _ thr tid hthr
    cases hthr
  · intro c history s s' hs ih hcall hfit
    obtain ⟨s₁, henters, hmove⟩ := tsanStep_cases hcall
    exact ((ih hfit.tail).enters (tsanRun_threadsOk hs) henters).move hmove
      ((hfit.head s hs).enters henters)

/-- A call that wraps no counter takes nothing back from the clock of a registered thread. -/
theorem tsanStep_vc_le (hs : TsanThreadsOk s) (hwrap : s.NoWrap c) (hcall : tsanStep s c = .ok s')
    (hthr : s.currentTid thr = some tid) (u : Tid) :
    (s.threads tid).vc u ≤ (s'.threads tid).vc u := by
  obtain ⟨s₁, henters, hmove⟩ := tsanStep_cases hcall
  rw [← henters.threads_eq hs ⟨thr, hthr⟩]
  exact hmove.vc_le (hwrap.enters henters) tid u

/-! ### The invariants -/

/-- What holds of the identifiers and the clocks after a history. -/
structure RegistrationOk (history : List (TsanCall Thr)) (s : TsanState Thr) : Prop where
  ids : ∀ thr tid, s.currentTid thr = some tid → 1 ≤ tid.val ∧ tid.val ≤ 63
  distinct : ∀ thr thr' tid, s.currentTid thr = some tid → s.currentTid thr' = some tid →
    thr = thr'
  refused : ∀ thr, tsanGetTid s thr = .error .tooManyThreads ↔
    s.currentTid thr = none ∧ AllIdsTaken s
  zero_slot : (s.threads 0).vc = 0
  first_silent : ∀ c thr addr w r, c.access? = some (thr, addr, w) →
    lastAccess addr history = none → tsanStep s c ≠ .error (.race r)
  own_positive : ClocksFit history → OwnPositive s
  grows : ∀ c s', s.NoWrap c → tsanStep s c = .ok s' → ∀ thr tid u,
    s.currentTid thr = some tid → (s.threads tid).vc u ≤ (s'.threads tid).vc u

/-- **Registration** hands out distinct identifiers from `1` to `63`, slot `0` stays zero, and a
first access is silent, in every run. Own components are positive and clocks only grow as long as no
counter wraps around. -/
theorem tsanRun_registrationOk (h : tsanRun history = .ok s) : RegistrationOk history s := by
  have hs := tsanRun_threadsOk h
  refine ⟨fun thr tid hthr => ?_, fun thr thr' tid => hs.inj, tsanGetTid_refused_iff h, ?_,
    fun c thr addr w r haccess hlast hr => ?_, fun hfit => tsanRun_ownPositive hfit h,
    fun c s' hwrap hcall thr tid u hthr => tsanStep_vc_le hs hwrap hcall hthr u⟩
  · exact ⟨(hs.bounds hthr).1, Nat.le_of_lt_succ tid.isLt⟩
  · rw [hs.untouched hs.zero_unassigned]
  · obtain ⟨_, _, _, _, _, _, _, haccess', hlast', -⟩ := exists_uncovered_of_race h hr
    cases haccess.symm.trans haccess'
    rw [hlast] at hlast'
    cases hlast'

theorem tsanRun_registrationOk_spinning :
    ∃ s, tsanRun (spinning 3) = .ok s ∧ RegistrationOk (spinning 3) s := by
  obtain ⟨s, hs, -⟩ : ∃ s, tsanRun (spinning 3) = .ok s ∧ s.threadCount = 1 :=
    exists_tsanRun_ok (by decide +kernel)
  exact ⟨s, hs, tsanRun_registrationOk hs⟩

/-- After `2 ^ 64 - 1` accesses of one thread its own component is back at `0`. -/
theorem tsan_ownComponent_wraps :
    ¬ ∀ (history : List (TsanCall Bool)) (s : TsanState Bool), tsanRun history = .ok s →
      ∀ thr tid, s.currentTid thr = some tid → 1 ≤ ((s.threads tid).vc tid).toNat := by
  intro hclaim
  obtain ⟨k, hk⟩ : ∃ k, k + 1 = 2 ^ 64 := ⟨2 ^ 64 - 1, by omega⟩
  obtain ⟨s, hs, hspun⟩ := spun_spinning k
  have hpos := hclaim _ s hs false 1 hspun.self
  rw [hspun.own, hk, BitVec.toNat_ofNat] at hpos
  omega

end Misan
