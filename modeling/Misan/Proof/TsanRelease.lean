import Misan.Proof.TsanShadowTable

/-!
# A release is seen by every later acquire

For a mutex that is created once and held by one thread at a time. A release replaces the clock of
the mutex, so what earlier holders released survives only through the holders in between: while the
mutex is free its clock covers every release made so far, and while it is held the clock of the
holder does. The rest is that the table keeps the mutex in one slot, whatever is created and
destroyed around it.
-/

namespace Misan

open Function

variable {Thr : Type} [DecidableEq Thr] {s s' s₁ : TsanState Thr} {c : TsanCall Thr}
  {history : List (TsanCall Thr)} {thr : Thr} {tid : Tid} {mutex addr : Addr} {idx : Fin 1024}

/-! ### Clocks only grow -/

theorem TsanEnters.threads_eq (h : TsanEnters s c s₁) (hs : TsanThreadsOk s) {t : Tid}
    (ht : ∃ v, s.currentTid v = some t) : s₁.threads t = s.threads t := by
  rcases h with ⟨-, rfl⟩ | ⟨thr, tid, -, hentered⟩
  · rfl
  · cases hentered with
    | known => rfl
    | fresh _ htid =>
        apply TsanState.register_threads_of_ne
        rintro rfl
        obtain ⟨v, hv⟩ := ht
        exact hs.fresh htid v hv

theorem tsanVc_le_inc {vc : TsanVc} (hwrap : vc tid ≠ BitVec.allOnes 64) (u : Tid) :
    vc u ≤ tsanVcInc vc tid u := by
  by_cases hu : u = tid
  · subst hu
    rw [BitVec.le_def, toNat_tsanVcInc_self hwrap]
    exact Nat.le_succ _
  · rw [tsanVcInc_of_ne _ hu]
    exact BitVec.le_refl _

theorem tsanVc_le_join (dst src : TsanVc) (u : Tid) : dst u ≤ tsanVcJoin dst src u := by
  rw [BitVec.le_def, toNat_tsanVcJoin]
  exact Nat.le_max_left _ _

omit [DecidableEq Thr] in
theorem TsanMove.vc_le (h : TsanMove s c s') (hwrap : s.NoWrap c) (t u : Tid) :
    (s.threads t).vc u ≤ (s'.threads t).vc u := by
  rcases h.threads_cases t with heq | ⟨thr, hincrements, hthr, heq⟩ | ⟨_, idx, -, -, heq⟩
  · rw [heq]
    exact BitVec.le_refl _
  · rw [heq]
    exact tsanVc_le_inc (hwrap thr t hincrements hthr) u
  · rw [heq]
    exact tsanVc_le_join _ _ u

/-! ### Exclusive use -/

inductive MutexUse (Thr : Type) where
  | absent
  | free
  | held (thr : Thr)
deriving DecidableEq

/-- Created once and before use, never destroyed, and `post_lock` and `post_unlock` alternate, each
`post_unlock` by the thread of the `post_lock` before it. -/
def MutexUse.step (mutex : Addr) (use : MutexUse Thr) : TsanCall Thr → Option (MutexUse Thr)
  | .mutexCreate addr =>
      if addr = mutex then (if use = .absent then some .free else none) else some use
  | .mutexDestroy addr => if addr = mutex then none else some use
  | .postLock thr addr _ =>
      if addr = mutex then (if use = .free then some (.held thr) else none) else some use
  | .postUnlock thr addr _ =>
      if addr = mutex then (if use = .held thr then some .free else none) else some use
  | _ => some use

def mutexUse (mutex : Addr) : List (TsanCall Thr) → Option (MutexUse Thr)
  | [] => some .absent
  | c :: history => (mutexUse mutex history).bind (·.step mutex c)

/-- The table is not full when the mutex is created. -/
def RoomFor (mutex : Addr) (history : List (TsanCall Thr)) : Prop :=
  Along (fun c before => c = .mutexCreate mutex → ∀ s, tsanRun before = .ok s →
    ∃ idx, (s.mutexes idx).active = false) history

/-- The clock a thread had at a `post_unlock` of the mutex. -/
def ReleaseClock (mutex : Addr) (history : List (TsanCall Thr)) (vc : TsanVc) : Prop :=
  ∃ thr rw before s tid, .postUnlock thr mutex rw :: before <:+ history ∧
    tsanRun (.postUnlock thr mutex rw :: before) = .ok s ∧ s.currentTid thr = some tid ∧
    vc = (s.threads tid).vc

/-! ### The slot of the mutex -/

def TsanCall.mutex? : TsanCall Thr → Option Addr
  | .mutexCreate addr | .mutexDestroy addr | .postLock _ addr _ | .postUnlock _ addr _ => some addr
  | _ => none

/-- The mutex is in this slot and in no other. -/
def MutexHome (s : TsanState Thr) (mutex : Addr) (idx : Fin 1024) : Prop :=
  ∀ j, mutexKeys s.mutexes j = some mutex ↔ j = idx

theorem mutexKeys_eq_some {table : TsanMutexTable} :
    mutexKeys table idx = some addr ↔ (table idx).active = true ∧ (table idx).addr = addr := by
  rw [mutexKeys]
  split
  · rename_i hactive
    simp [hactive]
  · rename_i hactive
    simp [hactive]

omit [DecidableEq Thr] in
theorem MutexHome.slot (h : MutexHome s mutex idx) : mutexSlot s.mutexes mutex = some idx := by
  cases hslot : mutexSlot s.mutexes mutex with
  | none =>
      have hidx := probe_eq_none_iff.mp hslot idx
      obtain ⟨hactive, haddr⟩ := mutexKeys_eq_some.mp ((h idx).mpr rfl)
      simp [hactive, haddr] at hidx
  | some j => exact congrArg some ((h j).mp (mutexKeys_eq_some.mpr (mutexSlot_spec hslot)))

theorem mutexKeys_of_slot {table : TsanMutexTable} (hslot : mutexSlot table addr = some idx) :
    mutexKeys table idx = some addr :=
  mutexKeys_eq_some.mpr (mutexSlot_spec hslot)

section

omit [DecidableEq Thr]

theorem mutexes_acquire (s : TsanState Thr) (idx : Fin 1024) (tid : Tid) (j : Fin 1024) :
    mutexKeys (s.acquire s.mutexes idx tid).mutexes j = mutexKeys s.mutexes j ∧
      ((s.acquire s.mutexes idx tid).mutexes j).vc = (s.mutexes j).vc := by
  rw [mutexKeys, mutexKeys]
  by_cases hj : j = idx
  · subst hj
    rw [TsanState.acquire_mutexes_self]
    exact ⟨rfl, rfl⟩
  · rw [TsanState.acquire_mutexes_of_ne hj]
    exact ⟨rfl, rfl⟩

theorem mutexKeys_release (s : TsanState Thr) (idx : Fin 1024) (tid : Tid) (j : Fin 1024) :
    mutexKeys (s.release s.mutexes idx tid).mutexes j = mutexKeys s.mutexes j := by
  rw [mutexKeys, mutexKeys]
  by_cases hj : j = idx
  · subst hj
    rw [TsanState.release_mutexes_self]
  · rw [TsanState.release_mutexes_of_ne hj]

/-- Writing a slot that is not the mutex's, before or after, leaves the mutex alone. -/
theorem mutex_frame_setMutex {m : TsanMutex} (hold : mutexKeys s.mutexes idx ≠ some mutex)
    (hnew : ¬ (m.active = true ∧ m.addr = mutex)) (j : Fin 1024) :
    (mutexKeys (s.setMutex idx m).mutexes j = some mutex ↔ mutexKeys s.mutexes j = some mutex) ∧
      (mutexKeys s.mutexes j = some mutex →
        ((s.setMutex idx m).mutexes j).vc = (s.mutexes j).vc) := by
  by_cases hj : j = idx
  · subst hj
    have hgone : mutexKeys (s.setMutex j m).mutexes j ≠ some mutex := by
      rw [ne_eq, mutexKeys_eq_some, TsanState.setMutex_mutexes_self]
      exact hnew
    exact ⟨iff_of_false hgone hold, fun h => (hold h).elim⟩
  · rw [mutexKeys, mutexKeys, TsanState.setMutex_mutexes_of_ne hj]
    exact ⟨Iff.rfl, fun _ => rfl⟩

/-- A move that is about another mutex leaves the slot of this one alone. -/
theorem TsanMove.mutex_frame (h : TsanMove s c s') (hother : c.mutex? ≠ some mutex)
    (j : Fin 1024) :
    (mutexKeys s'.mutexes j = some mutex ↔ mutexKeys s.mutexes j = some mutex) ∧
      (mutexKeys s.mutexes j = some mutex → (s'.mutexes j).vc = (s.mutexes j).vc) := by
  cases h with
  | idle | recorded => exact ⟨Iff.rfl, fun _ => rfl⟩
  | created hroom =>
      refine mutex_frame_setMutex (fun hkey => hother ?_) (fun hnew => hother ?_) j
      · obtain ⟨hactive, haddr⟩ := mutexKeys_eq_some.mp hkey
        exact congrArg some ((mutexRoom_spec hroom hactive).symm.trans haddr)
      · exact congrArg some hnew.2
  | destroyed hslot =>
      refine mutex_frame_setMutex (fun hkey => hother ?_) (fun hnew => ?_) j
      · exact (mutexKeys_of_slot hslot).symm.trans hkey
      · exact Bool.false_ne_true hnew.1
  | @acquired _ _ _ tid idx _ _ =>
      obtain ⟨hkey, hvc⟩ := mutexes_acquire s idx tid j
      rw [hkey]
      exact ⟨Iff.rfl, fun _ => hvc⟩
  | released _ hslot =>
      rw [mutexKeys_release]
      refine ⟨Iff.rfl, fun hkey => congrArg TsanMutex.vc (TsanState.release_mutexes_of_ne ?_)⟩
      rintro rfl
      exact hother ((mutexKeys_of_slot hslot).symm.trans hkey)

theorem MutexHome.move (h : MutexHome s mutex idx) (hmove : TsanMove s c s')
    (hother : c.mutex? ≠ some mutex) : MutexHome s' mutex idx :=
  fun j => (hmove.mutex_frame hother j).1.trans (h j)

end

/-! ### The chain of holders -/

/-- What is true of the releases so far, by the use the mutex is in. -/
def ReleasesKept (mutex : Addr) (history : List (TsanCall Thr)) (s : TsanState Thr) :
    MutexUse Thr → Prop
  | .absent => (∀ j, mutexKeys s.mutexes j ≠ some mutex) ∧ ∀ vc, ¬ ReleaseClock mutex history vc
  | .free => ∃ idx, MutexHome s mutex idx ∧
      ∀ vc, ReleaseClock mutex history vc → ∀ u, vc u ≤ (s.mutexes idx).vc u
  | .held thr => (∃ idx, MutexHome s mutex idx) ∧ ∃ tid, s.currentTid thr = some tid ∧
      ∀ vc, ReleaseClock mutex history vc → ∀ u, vc u ≤ (s.threads tid).vc u

theorem releaseClock_cons_of_ne {vc : TsanVc}
    (hne : ∀ thr rw, c ≠ .postUnlock thr mutex rw) :
    ReleaseClock mutex (c :: history) vc ↔ ReleaseClock mutex history vc := by
  constructor
  · rintro ⟨thr, rw, before, s, tid, hsuffix, hrest⟩
    rcases List.suffix_cons_iff.mp hsuffix with heq | htail
    · cases heq
      exact (hne thr rw rfl).elim
    · exact ⟨thr, rw, before, s, tid, htail, hrest⟩
  · rintro ⟨thr, rw, before, s, tid, hsuffix, hrest⟩
    exact ⟨thr, rw, before, s, tid, hsuffix.trans (List.suffix_cons c history), hrest⟩

theorem ReleasesKept.enters {use : MutexUse Thr} (h : ReleasesKept mutex history s use)
    (hs : TsanThreadsOk s) (henters : TsanEnters s c s₁) :
    ReleasesKept mutex history s₁ use := by
  have hmutexes := henters.mutexes
  cases use with
  | absent => exact ⟨fun j => hmutexes ▸ h.1 j, h.2⟩
  | free =>
      obtain ⟨idx, hhome, hkept⟩ := h
      exact ⟨idx, fun j => hmutexes ▸ hhome j, hmutexes ▸ hkept⟩
  | held thr =>
      obtain ⟨⟨idx, hhome⟩, tid, htid, hkept⟩ := h
      refine ⟨⟨idx, fun j => hmutexes ▸ hhome j⟩, tid, henters.currentTid_mono htid, ?_⟩
      rw [henters.threads_eq hs ⟨thr, htid⟩]
      exact hkept

theorem ReleasesKept.other {use : MutexUse Thr} (h : ReleasesKept mutex history s use)
    (hmove : TsanMove s c s') (hwrap : s.NoWrap c) (hother : c.mutex? ≠ some mutex) :
    ReleasesKept mutex (c :: history) s' use := by
  have hclock : ∀ vc, ReleaseClock mutex (c :: history) vc ↔ ReleaseClock mutex history vc :=
    fun vc => releaseClock_cons_of_ne fun thr rw heq => hother (by rw [heq]; rfl)
  cases use with
  | absent =>
      exact ⟨fun j hkey => h.1 j ((hmove.mutex_frame hother j).1.mp hkey),
        fun vc hvc => h.2 vc ((hclock vc).mp hvc)⟩
  | free =>
      obtain ⟨idx, hhome, hkept⟩ := h
      refine ⟨idx, hhome.move hmove hother, fun vc hvc u => ?_⟩
      rw [(hmove.mutex_frame hother idx).2 ((hhome idx).mpr rfl)]
      exact hkept vc ((hclock vc).mp hvc) u
  | held thr =>
      obtain ⟨⟨idx, hhome⟩, tid, htid, hkept⟩ := h
      refine ⟨⟨idx, hhome.move hmove hother⟩, tid, hmove.currentTid_eq ▸ htid, fun vc hvc u => ?_⟩
      exact BitVec.le_trans (hkept vc ((hclock vc).mp hvc) u) (hmove.vc_le hwrap tid u)

theorem ReleasesKept.create (h : ReleasesKept mutex history s .absent)
    (hroom : ∃ idx, (s.mutexes idx).active = false)
    (hmove : TsanMove s (.mutexCreate mutex) s') :
    ReleasesKept mutex (.mutexCreate mutex :: history) s' .free := by
  obtain ⟨habsent, hnone⟩ := h
  have hclock : ∀ vc, ¬ ReleaseClock mutex (.mutexCreate mutex :: history) vc := by
    intro vc hvc
    exact hnone vc ((releaseClock_cons_of_ne fun thr rw heq => by cases heq).mp hvc)
  cases hmove with
  | idle hidle =>
      exfalso
      obtain ⟨idx, hidx⟩ := hroom
      rw [tsanAct_mutexCreate] at hidle
      cases hfull : mutexRoom s.mutexes mutex with
      | none =>
          have := probe_eq_none_iff.mp hfull idx
          simp [keyOrHole, mutexKeys, hidx] at this
      | some idx =>
          rw [hfull] at hidle
          cases hidle
  | recorded haccess => cases haccess
  | @created _ idx _ =>
      refine ⟨idx, fun j => ?_, fun vc hvc => (hclock vc hvc).elim⟩
      by_cases hj : j = idx
      · subst hj
        rw [mutexKeys_eq_some, TsanState.setMutex_mutexes_self]
        exact iff_of_true ⟨rfl, rfl⟩ rfl
      · rw [mutexKeys, TsanState.setMutex_mutexes_of_ne hj, ← mutexKeys]
        exact iff_of_false (habsent j) hj

theorem ReleasesKept.acquire {rw : Int} (h : ReleasesKept mutex history s .free)
    (hmove : TsanMove s (.postLock thr mutex rw) s') :
    ReleasesKept mutex (.postLock thr mutex rw :: history) s' (.held thr) := by
  obtain ⟨idx, hhome, hkept⟩ := h
  cases hmove with
  | idle hidle =>
      rw [tsanAct_postLock, hhome.slot] at hidle
      cases hidle
  | recorded haccess => cases haccess
  | @acquired _ _ _ tid idx' htid hslot =>
      cases hhome.slot.symm.trans hslot
      refine ⟨⟨idx, fun j => ?_⟩, tid, htid, fun vc hvc u => ?_⟩
      · rw [(mutexes_acquire s idx tid j).1]
        exact hhome j
      · have hold := hkept vc ((releaseClock_cons_of_ne fun _ _ heq => by cases heq).mp hvc) u
        rw [TsanState.acquire_threads_self, BitVec.le_def, toNat_tsanVcJoin]
        exact le_trans (BitVec.le_def.mp hold) (Nat.le_max_right _ _)

theorem ReleasesKept.release {rw : Int} (h : ReleasesKept mutex history s (.held thr))
    (hmove : TsanMove s (.postUnlock thr mutex rw) s')
    (hwrap : s.NoWrap (.postUnlock thr mutex rw))
    (hrun : tsanRun (.postUnlock thr mutex rw :: history) = .ok s') :
    ReleasesKept mutex (.postUnlock thr mutex rw :: history) s' .free := by
  obtain ⟨⟨idx, hhome⟩, tid, htid, hkept⟩ := h
  cases hmove with
  | idle hidle =>
      rw [tsanAct_postUnlock, hhome.slot] at hidle
      cases hidle
  | recorded haccess => cases haccess
  | @released _ _ _ tid' idx' htid' hslot =>
      cases hhome.slot.symm.trans hslot
      cases htid.symm.trans htid'
      have hstored : ∀ u, (s.threads tid).vc u
          ≤ ((s.release s.mutexes idx tid).mutexes idx).vc u := by
        intro u
        rw [TsanState.release_mutexes_self]
        exact tsanVc_le_inc (hwrap thr tid rfl htid) u
      refine ⟨idx, fun j => ?_, ?_⟩
      · rw [mutexKeys_release]
        exact hhome j
      · rintro vc ⟨v, rw', before, s'', t, hsuffix, hrun', ht, rfl⟩ u
        rcases List.suffix_cons_iff.mp hsuffix with heq | htail
        · -- the release made just now
          cases heq
          cases hrun.symm.trans hrun'
          cases ht.symm.trans htid
          exact hstored u
        · exact BitVec.le_trans (hkept _ ⟨v, rw', before, s'', t, htail, hrun', ht, rfl⟩ u)
            (hstored u)

theorem MutexUse.step_of_ne {use : MutexUse Thr} (hother : c.mutex? ≠ some mutex) :
    use.step mutex c = some use := by
  cases c with
  | init | access | preLock | preUnlock => rfl
  | mutexCreate addr | mutexDestroy addr | postLock _ addr _ | postUnlock _ addr _ =>
      exact if_neg fun heq => hother (congrArg some heq)

/-- The calls exclusive use admits, with the use before and after. -/
theorem MutexUse.step_cases {use use' : MutexUse Thr} (hmutex : c.mutex? = some mutex)
    (hstep : use.step mutex c = some use') :
    c = .mutexCreate mutex ∧ use = .absent ∧ use' = .free ∨
    (∃ thr rw, c = .postLock thr mutex rw ∧ use = .free ∧ use' = .held thr) ∨
    ∃ thr rw, c = .postUnlock thr mutex rw ∧ use = .held thr ∧ use' = .free := by
  cases c with
  | init | access | preLock | preUnlock => cases hmutex
  | mutexCreate addr =>
      cases hmutex
      rw [MutexUse.step, if_pos rfl, Option.ite_none_right_eq_some] at hstep
      exact Or.inl ⟨rfl, hstep.1, (Option.some_inj.mp hstep.2).symm⟩
  | mutexDestroy addr =>
      cases hmutex
      rw [MutexUse.step, if_pos rfl] at hstep
      cases hstep
  | postLock thr addr rw =>
      cases hmutex
      rw [MutexUse.step, if_pos rfl, Option.ite_none_right_eq_some] at hstep
      exact Or.inr (Or.inl ⟨thr, rw, rfl, hstep.1, (Option.some_inj.mp hstep.2).symm⟩)
  | postUnlock thr addr rw =>
      cases hmutex
      rw [MutexUse.step, if_pos rfl, Option.ite_none_right_eq_some] at hstep
      exact Or.inr (Or.inr ⟨thr, rw, rfl, hstep.1, (Option.some_inj.mp hstep.2).symm⟩)

/-- What a move does to the releases kept, by the call about the mutex. -/
theorem ReleasesKept.move {use use' : MutexUse Thr} (h : ReleasesKept mutex history s use)
    (hstep : use.step mutex c = some use')
    (hroom : c = .mutexCreate mutex → ∃ idx, (s.mutexes idx).active = false)
    (hmove : TsanMove s c s') (hwrap : s.NoWrap c) (hrun : tsanRun (c :: history) = .ok s') :
    ReleasesKept mutex (c :: history) s' use' := by
  by_cases hmutex : c.mutex? = some mutex
  · obtain ⟨rfl, rfl, rfl⟩ | ⟨thr, rw, rfl, rfl, rfl⟩ | ⟨thr, rw, rfl, rfl, rfl⟩ :=
      MutexUse.step_cases hmutex hstep
    · exact h.create (hroom rfl) hmove
    · exact h.acquire hmove
    · exact h.release hmove hwrap hrun
  · rw [MutexUse.step_of_ne hmutex] at hstep
    cases hstep
    exact h.other hmove hwrap hmutex

theorem tsanRun_releasesKept (hfit : ClocksFit history) (hroom : RoomFor mutex history)
    (h : tsanRun history = .ok s) {use : MutexUse Thr} (huse : mutexUse mutex history = some use) :
    ReleasesKept mutex history s use := by
  refine tsanRun_induction (P := fun history s => ClocksFit history → RoomFor mutex history →
    ∀ use, mutexUse mutex history = some use → ReleasesKept mutex history s use) ?_ ?_ h hfit
    hroom use huse
  · rintro - - use huse
    cases huse
    refine ⟨fun j hkey => (Option.some_ne_none _ hkey.symm).elim, ?_⟩
    rintro vc ⟨_, _, _, _, _, hsuffix, -⟩
    exact absurd (List.suffix_nil.mp hsuffix) (List.cons_ne_nil _ _)
  · intro c history s s' hs ih hcall hfit hroom use' huse'
    obtain ⟨use, huse, hstep⟩ := Option.bind_eq_some_iff.mp huse'
    obtain ⟨s₁, henters, hmove⟩ := tsanStep_cases hcall
    have hkept := (ih hfit.tail hroom.tail use huse).enters (tsanRun_threadsOk hs) henters
    refine hkept.move hstep (fun heq => ?_) hmove ((hfit.head s hs).enters henters)
      (tsanRun_cons_ok.mpr ⟨s, hs, hcall⟩)
    rw [henters.mutexes]
    exact hroom.head heq s hs

/-- **A release is seen by every later acquire.** -/
theorem tsan_acquire_sees_releases {rw : Int}
    (hfit : ClocksFit (.postLock thr mutex rw :: history)) (hroom : RoomFor mutex history)
    (huse : mutexUse mutex (.postLock thr mutex rw :: history) ≠ none)
    (h : tsanRun (.postLock thr mutex rw :: history) = .ok s)
    (htid : s.currentTid thr = some tid) {vc : TsanVc} (hvc : ReleaseClock mutex history vc)
    (u : Tid) : vc u ≤ (s.threads tid).vc u := by
  obtain ⟨use, huse⟩ := Option.ne_none_iff_exists'.mp huse
  have hroom' : RoomFor mutex (.postLock thr mutex rw :: history) :=
    along_cons.mpr ⟨fun heq => (by cases heq), hroom⟩
  have hkept := tsanRun_releasesKept hfit hroom' h huse
  have hheld : use = .held thr := by
    rw [mutexUse] at huse
    obtain ⟨use₀, -, hstep⟩ := Option.bind_eq_some_iff.mp huse
    rw [MutexUse.step, if_pos rfl] at hstep
    split at hstep
    · exact (Option.some.inj hstep).symm
    · cases hstep
  subst hheld
  obtain ⟨-, tid', htid', hseen⟩ := hkept
  cases htid.symm.trans htid'
  exact hseen vc ((releaseClock_cons_of_ne fun _ _ heq => by cases heq).mpr hvc) u

def mutexHandedOver : List (TsanCall Bool) :=
  [.postUnlock false 0x2000 0, .postLock false 0x2000 0, .mutexCreate 0x2000]

theorem tsan_acquire_sees_releases_handedOver :
    ∃ s vc, tsanRun (.postLock true 0x2000 0 :: mutexHandedOver) = .ok s ∧
      ReleaseClock 0x2000 mutexHandedOver vc ∧ ∀ u, vc u ≤ (s.threads 2).vc u := by
  have hroom : RoomFor 0x2000 mutexHandedOver := by
    refine along_cons.mpr ⟨fun h => (by cases h), along_cons.mpr ⟨fun h => (by cases h), ?_⟩⟩
    refine along_cons.mpr ⟨fun _ s hs => ?_, along_nil _⟩
    cases hs
    exact ⟨0, rfl⟩
  obtain ⟨s₁, hs₁, htid₁⟩ : ∃ s, tsanRun mutexHandedOver = .ok s ∧ s.currentTid false = some 1 :=
    exists_tsanRun_ok (by decide +kernel)
  obtain ⟨s, hs, htid⟩ : ∃ s, tsanRun (.postLock true 0x2000 0 :: mutexHandedOver) = .ok s ∧
      s.currentTid true = some 2 := exists_tsanRun_ok (by decide +kernel)
  have hvc : ReleaseClock 0x2000 mutexHandedOver (s₁.threads 1).vc :=
    ⟨false, 0, _, s₁, 1, List.suffix_refl _, hs₁, htid₁, rfl⟩
  exact ⟨s, _, hs, hvc, fun u => tsan_acquire_sees_releases (clocksFit_of_length (by decide))
    hroom (by decide) hs htid hvc u⟩

/-! ### Where a counter wraps around -/

def spinCall : TsanCall Bool := .access false 0x1000 8 true

def spinning (k : Nat) : List (TsanCall Bool) :=
  List.replicate k spinCall ++ [.init false, .mutexCreate 0x2000]

structure Spun (k : Nat) (s : TsanState Bool) : Prop where
  self : s.currentTid false = some 1
  other : s.currentTid true = none
  count : s.threadCount = 1
  zero : (s.threads 0).vc 0 = 0
  own : (s.threads 1).vc 1 = BitVec.ofNat 64 (k + 1)
  stop : keyOrHole (shadowKeys s.shadow) 0x1000 0x1010 = true
  entry : (s.shadow 0x1010).tid = 0 ∨ (s.shadow 0x1010).tid = 1
  mutex : s.mutexes 0 = ⟨0x2000, 0, none, true⟩

theorem Spun.step {k : Nat} {s : TsanState Bool} (h : Spun k s) :
    ∃ s', tsanStep s spinCall = .ok s' ∧ Spun (k + 1) s' := by
  have hslot : shadowSlot s.shadow 0x1000 = some 0x1010 := probe_home h.stop
  have hsilent : ¬ s.Races 0x1010 1 true := by
    rintro ⟨hne, -, hahead, -⟩
    rcases h.entry with hentry | hentry
    · rw [hentry, h.zero] at hahead
      exact hahead (BitVec.le_def.mpr (Nat.zero_le _))
    · exact hne hentry
  refine ⟨s.recorded 0x1000 0x1010 1 true, ?_, ?_⟩
  · change tsanAccess s false 0x1000 8 true = _
    rw [tsanAccess_eq (.known h.self), hslot]
    exact if_neg hsilent
  · refine ⟨h.self, h.other, h.count, ?_, ?_, ?_, ?_, h.mutex⟩
    · rw [TsanState.recorded_threads_of_ne (by decide), h.zero]
    · simp only [TsanState.recorded_threads_self, tsanVcInc_self, h.own]
      exact (BitVec.ofNat_add (k + 1) 1).symm
    · rw [shadowKeys_recorded, keyOrHole, update_self]
      rfl
    · rw [TsanState.recorded_shadow_self]
      exact Or.inr rfl

theorem spun_spinning (k : Nat) : ∃ s, tsanRun (spinning k) = .ok s ∧ Spun k s := by
  induction k with
  | zero =>
      have hroom : mutexRoom (TsanState.initial Bool).mutexes 0x2000 = some 0 :=
        probe_home rfl
      have hcreate : tsanStep (TsanState.initial Bool) (.mutexCreate 0x2000)
          = .ok ((TsanState.initial Bool).setMutex 0 ⟨0x2000, 0, none, true⟩) := by
        rw [tsanStep, tsanMutexCreate_eq, hroom]
        rfl
      refine ⟨((TsanState.initial Bool).setMutex 0 ⟨0x2000, 0, none, true⟩).register false 1,
        ?_, ?_⟩
      · exact tsanRun_cons_ok.mpr ⟨_, tsanRun_cons_ok.mpr ⟨_, rfl, hcreate⟩, rfl⟩
      · exact ⟨rfl, rfl, rfl, rfl, rfl, rfl, Or.inl rfl, rfl⟩
  | succ k ih =>
      obtain ⟨s, hs, hspun⟩ := ih
      obtain ⟨s', hcall, hspun'⟩ := hspun.step
      exact ⟨s', tsanRun_cons_ok.mpr ⟨s, hs, hcall⟩, hspun'⟩

theorem mutexUse_spinning (k : Nat) : mutexUse 0x2000 (spinning k) = some .free := by
  induction k with
  | zero => rfl
  | succ k ih =>
      change (mutexUse 0x2000 (spinning k)).bind (·.step 0x2000 spinCall) = _
      rw [ih]
      rfl

theorem roomFor_spinning (k : Nat) : RoomFor 0x2000 (spinning k) := by
  induction k with
  | zero =>
      refine along_cons.mpr ⟨fun h => (by cases h), along_cons.mpr ⟨fun _ s hs => ?_, along_nil _⟩⟩
      cases hs
      exact ⟨0, rfl⟩
  | succ k ih => exact along_cons.mpr ⟨fun h => (by cases h), ih⟩

def spinningRelease (k : Nat) : List (TsanCall Bool) :=
  .postUnlock false 0x2000 0 :: .postLock false 0x2000 0 :: spinning k

/-- The counter of the first thread is at its largest, and the mutex knows nothing of it. -/
structure Wrapped (s : TsanState Bool) : Prop where
  self : s.currentTid false = some 1
  other : s.currentTid true = none
  count : s.threadCount = 1
  own : (s.threads 1).vc 1 = BitVec.allOnes 64
  active : (s.mutexes 0).active = true
  addr : (s.mutexes 0).addr = 0x2000
  unknown : (s.mutexes 0).vc 1 = 0

theorem mutexSlot_zero {table : TsanMutexTable} (hactive : (table 0).active = true)
    (haddr : (table 0).addr = 0x2000) : mutexSlot table 0x2000 = some 0 := by
  apply probe_home
  change ((table 0).active && (table 0).addr == 0x2000) = true
  rw [hactive, haddr]
  rfl

theorem Spun.wraps {k : Nat} {s : TsanState Bool} (h : Spun k s)
    (hs : tsanRun (spinning k) = .ok s) (hk : k + 2 = 2 ^ 64) :
    ∃ s', tsanRun (spinningRelease k) = .ok s' ∧ Wrapped s' := by
  have hown : (s.threads 1).vc 1 = BitVec.allOnes 64 := by
    rw [h.own]
    apply BitVec.eq_of_toNat_eq
    rw [BitVec.toNat_ofNat, BitVec.toNat_allOnes]
    omega
  -- the clock of the mutex is zero, so locking it changes nothing in the thread's clock
  let locked := s.acquire s.mutexes 0 1
  have hlocked : tsanStep s (.postLock false 0x2000 0) = .ok locked := by
    rw [tsanStep, tsanMutexPostLock_eq (.known h.self),
      mutexSlot_zero (by rw [h.mutex]) (by rw [h.mutex])]
  have hmutex : locked.mutexes 0 = ⟨0x2000, 0, some 1, true⟩ := by
    rw [TsanState.acquire_mutexes_self, h.mutex]
  have hown' : (locked.threads 1).vc 1 = BitVec.allOnes 64 := by
    rw [TsanState.acquire_threads_self, h.mutex]
    change tsanVcJoin (s.threads 1).vc 0 1 = _
    rw [tsanVcJoin, hown]
    rfl
  let unlocked := locked.release locked.mutexes 0 1
  have hunlocked : tsanStep locked (.postUnlock false 0x2000 0) = .ok unlocked := by
    rw [tsanStep, tsanMutexPostUnlock_eq (.known (s := locked) h.self),
      mutexSlot_zero (by rw [hmutex]) (by rw [hmutex])]
  have hrun : tsanRun (spinningRelease k) = .ok unlocked :=
    tsanRun_cons_ok.mpr ⟨locked, tsanRun_cons_ok.mpr ⟨s, hs, hlocked⟩, hunlocked⟩
  refine ⟨unlocked, hrun, h.self, h.other, h.count, hown', ?_, ?_, ?_⟩
  · rw [TsanState.release_mutexes_self, hmutex]
  · rw [TsanState.release_mutexes_self, hmutex]
  · simp only [unlocked, TsanState.release_mutexes_self, tsanVcInc_self, hown']
    rfl

theorem Wrapped.acquire {s : TsanState Bool} (h : Wrapped s) :
    ∃ s', tsanStep s (.postLock true 0x2000 0) = .ok s' ∧ s'.currentTid true = some 2 ∧
      (s'.threads 2).vc 1 = 0 := by
  have hentered : TsanEntered s true 2 (s.register true 2) := .fresh h.other (by rw [h.count]; rfl)
  refine ⟨(s.register true 2).acquire s.mutexes 0 2, ?_, hentered.currentTid, ?_⟩
  · rw [tsanStep, tsanMutexPostLock_eq hentered, hentered.mutexes, mutexSlot_zero h.active h.addr]
  · rw [TsanState.acquire_threads_self]
    refine tsanVcJoin_zero ?_ h.unknown
    rw [TsanState.register_threads_self]
    rfl

/-- At the largest counter a release leaves `0` in the mutex, and the next holder learns nothing. -/
theorem tsan_acquire_misses_wrapped_release :
    ¬ ∀ (history : List (TsanCall Bool)) (s : TsanState Bool) (thr : Bool) (tid : Tid)
      (mutex : Addr) (rw : Int) (vc : TsanVc) (u : Tid),
      ThreadsFit (.postLock thr mutex rw :: history) → RoomFor mutex history →
      mutexUse mutex (.postLock thr mutex rw :: history) ≠ none →
      tsanRun (.postLock thr mutex rw :: history) = .ok s → s.currentTid thr = some tid →
      ReleaseClock mutex history vc → vc u ≤ (s.threads tid).vc u := by
  intro hclaim
  obtain ⟨k, hk⟩ : ∃ k, k + 2 = 2 ^ 64 := ⟨2 ^ 64 - 2, by omega⟩
  obtain ⟨s₀, hs₀, hspun⟩ := spun_spinning k
  obtain ⟨s₁, hs₁, hwrapped⟩ := hspun.wraps hs₀ hk
  obtain ⟨s₂, hcall, htid, hlearnt⟩ := hwrapped.acquire
  have hfits : ThreadsFit (.postLock true 0x2000 0 :: spinningRelease k) :=
    le_trans (Finset.card_le_univ _) (by decide)
  have hroom : RoomFor 0x2000 (spinningRelease k) :=
    along_cons.mpr ⟨fun h => (by cases h), along_cons.mpr ⟨fun h => (by cases h),
      roomFor_spinning k⟩⟩
  have huse : mutexUse 0x2000 (.postLock true 0x2000 0 :: spinningRelease k)
      = some (.held true) := by
    simp only [spinningRelease, mutexUse, mutexUse_spinning, Option.bind_some]
    rfl
  have hreleased : ReleaseClock 0x2000 (spinningRelease k) (s₁.threads 1).vc :=
    ⟨false, 0, _, s₁, 1, List.suffix_refl _, hs₁, hwrapped.self, rfl⟩
  have hle := hclaim (spinningRelease k) s₂ true 2 0x2000 0 (s₁.threads 1).vc 1 hfits hroom
    (by rw [huse]; exact Option.some_ne_none _) (tsanRun_cons_ok.mpr ⟨s₁, hs₁, hcall⟩) htid
    hreleased
  rw [hlearnt, hwrapped.own] at hle
  exact absurd hle (by decide)

end Misan
