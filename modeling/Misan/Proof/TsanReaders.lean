import Misan.Proof.TsanMutexTable

/-!
# What readers leave behind

A `post_unlock` replaces the clock of the mutex by a copy of its thread's, readers included. So
after a section that several readers shared, the mutex holds the clock of the reader that left last,
and the next thread to lock it learns of the others only what that one, or itself, had learnt
elsewhere.
-/

namespace Misan

open Function

variable {Thr : Type} [DecidableEq Thr] {s s' s₀ s₁ : TsanState Thr} {c : TsanCall Thr}
  {phase prior history : List (TsanCall Thr)} {thr : Thr} {tid : Tid} {mutex : Addr} {reader : Int}
  {idx : Fin 1024} {vc : TsanVc}

/-- The threads inside the mutex, in a phase in which it is only locked and unlocked by readers,
each leaving what it has entered. -/
def sharedReaders (mutex : Addr) (reader : Int) : List (TsanCall Thr) → Option (Finset Thr)
  | [] => some ∅
  | c :: before =>
      (sharedReaders mutex reader before).bind fun inside =>
        match c with
        | .mutexCreate addr | .mutexDestroy addr => if addr = mutex then none else some inside
        | .postLock thr addr rw =>
            if addr = mutex then
              (if rw = reader ∧ thr ∉ inside then some (insert thr inside) else none)
            else some inside
        | .postUnlock thr addr rw =>
            if addr = mutex then
              (if rw = reader ∧ thr ∈ inside then some (inside.erase thr) else none)
            else some inside
        | _ => some inside

/-- The clock a thread had at a `post_unlock` of the mutex in the phase. -/
def ReaderRelease (mutex : Addr) (phase prior : List (TsanCall Thr)) (vc : TsanVc) : Prop :=
  ∃ thr rw before s tid, .postUnlock thr mutex rw :: before <:+ phase ∧
    tsanRun (.postUnlock thr mutex rw :: (before ++ prior)) = .ok s ∧
    s.currentTid thr = some tid ∧ vc = (s.threads tid).vc

def TsanCall.releases? : TsanCall Thr → Option Addr
  | .postUnlock _ addr _ => some addr
  | _ => none

/-- The clock, and the identifier, of the thread that made the last `post_unlock` of the mutex in
the phase. -/
def LastRelease (mutex : Addr) (phase prior : List (TsanCall Thr)) (vc : TsanVc) (tid : Tid) :
    Prop :=
  ∃ after thr rw before s, phase = after ++ .postUnlock thr mutex rw :: before ∧
    (∀ c ∈ after, c.releases? ≠ some mutex) ∧
    tsanRun (.postUnlock thr mutex rw :: (before ++ prior)) = .ok s ∧
    s.currentTid thr = some tid ∧ vc = (s.threads tid).vc

/-! ### The mutex during the phase -/

def TsanCall.Keeps (c : TsanCall Thr) (mutex : Addr) : Prop :=
  c ≠ .mutexCreate mutex ∧ c ≠ .mutexDestroy mutex

theorem sharedReaders_keeps {inside : Finset Thr}
    (hshared : sharedReaders mutex reader phase = some inside) : ∀ c ∈ phase, c.Keeps mutex := by
  induction phase generalizing inside with
  | nil => exact fun c hc => absurd hc List.not_mem_nil
  | cons d before ih =>
      obtain ⟨inside', hbefore, hstep⟩ := Option.bind_eq_some_iff.mp hshared
      intro c hc
      rcases List.mem_cons.mp hc with rfl | hc
      · constructor
        · rintro rfl
          simp at hstep
        · rintro rfl
          simp at hstep
      · exact ih hbefore c hc

theorem tsanStep_mutexKeys_iff (h : tsanStep s c = .ok s') (hkeeps : c.Keeps mutex)
    (j : Fin 1024) : mutexKeys s'.mutexes j = some mutex ↔ mutexKeys s.mutexes j = some mutex := by
  obtain ⟨s₁, henters, hmove⟩ := tsanStep_cases h
  rw [← henters.mutexes]
  by_cases hmutex : c.mutex? = some mutex
  · cases hmove with
    | idle | recorded => exact Iff.rfl
    | created =>
        cases hmutex
        exact (hkeeps.1 rfl).elim
    | destroyed =>
        cases hmutex
        exact (hkeeps.2 rfl).elim
    | @acquired _ _ _ tid idx _ _ => rw [(mutexes_acquire s₁ idx tid j).1]
    | released => rw [mutexKeys_release]
  · exact (hmove.mutex_frame hmutex j).1

theorem tsanStep_mutex_vc (h : tsanStep s c = .ok s') (hkeeps : c.Keeps mutex)
    (hreleases : c.releases? ≠ some mutex) (hkey : mutexKeys s.mutexes idx = some mutex) :
    (s'.mutexes idx).vc = (s.mutexes idx).vc := by
  obtain ⟨s₁, henters, hmove⟩ := tsanStep_cases h
  rw [← henters.mutexes] at hkey ⊢
  by_cases hmutex : c.mutex? = some mutex
  · cases hmove with
    | idle | recorded => rfl
    | created =>
        cases hmutex
        exact (hkeeps.1 rfl).elim
    | destroyed =>
        cases hmutex
        exact (hkeeps.2 rfl).elim
    | @acquired _ _ _ tid idx' _ _ => exact (mutexes_acquire s₁ idx' tid idx).2
    | released => exact (hreleases hmutex).elim
  · exact (hmove.mutex_frame hmutex idx).2 hkey

/-- Without a release the mutex keeps its slots and, in them, its clock. -/
theorem tsanRun_mutex_kept {after : List (TsanCall Thr)} (hkeeps : ∀ c ∈ after, c.Keeps mutex)
    (hreleases : ∀ c ∈ after, c.releases? ≠ some mutex) (hs : tsanRun history = .ok s)
    (hs' : tsanRun (after ++ history) = .ok s') :
    (∀ j, mutexKeys s'.mutexes j = some mutex ↔ mutexKeys s.mutexes j = some mutex) ∧
      ∀ j, mutexKeys s.mutexes j = some mutex → (s'.mutexes j).vc = (s.mutexes j).vc := by
  induction after generalizing s' with
  | nil =>
      cases hs.symm.trans hs'
      exact ⟨fun _ => Iff.rfl, fun _ _ => rfl⟩
  | cons c after ih =>
      obtain ⟨s₂, hs₂, hcall⟩ := tsanRun_cons_ok.mp hs'
      obtain ⟨hkeys, hvc⟩ := ih (fun d hd => hkeeps d (List.mem_cons_of_mem c hd))
        (fun d hd => hreleases d (List.mem_cons_of_mem c hd)) hs₂
      have hkeeps' := hkeeps c (List.mem_cons_self ..)
      refine ⟨fun j => (tsanStep_mutexKeys_iff hcall hkeeps' j).trans (hkeys j), fun j hj => ?_⟩
      have hlast := tsanStep_mutex_vc hcall hkeeps' (hreleases c (List.mem_cons_self ..))
        ((hkeys j).mpr hj)
      exact hlast.trans (hvc j hj)

/-- A release leaves the clock of its thread, moved on by one, where a lookup finds the mutex. -/
theorem stored_of_postUnlock {rw : Int} (h : tsanStep s (.postUnlock thr mutex rw) = .ok s')
    (hslot : mutexSlot s'.mutexes mutex = some idx) (htid : s'.currentTid thr = some tid) :
    (s'.mutexes idx).vc = tsanVcInc (s'.threads tid).vc tid := by
  obtain ⟨s₁, -, hmove⟩ := tsanStep_cases h
  cases hmove with
  | idle hidle =>
      rw [tsanAct_postUnlock, hslot] at hidle
      cases hidle
  | recorded haccess => cases haccess
  | @released _ _ _ tid' idx' htid' hslot' =>
      cases htid.symm.trans htid'
      have hsame : mutexSlot (s₁.release s₁.mutexes idx' tid).mutexes mutex
          = mutexSlot s₁.mutexes mutex :=
        mutexSlot_congr fun j => by rw [mutexKeys_release]
      cases hslot.symm.trans (hsame.trans hslot')
      rw [TsanState.release_mutexes_self]
      rfl

/-- After the phase the mutex holds the clock of the last release. -/
theorem LastRelease.stored (h : LastRelease mutex phase prior vc tid)
    (hkeeps : ∀ c ∈ phase, c.Keeps mutex) (hs : tsanRun (phase ++ prior) = .ok s)
    (hslot : mutexSlot s.mutexes mutex = some idx) :
    (s.mutexes idx).vc = tsanVcInc vc tid := by
  obtain ⟨after, thr, rw, before, s₁, rfl, hafter, hs₁, htid, rfl⟩ := h
  rw [List.append_assoc, List.cons_append] at hs
  obtain ⟨hkeys, hvc⟩ := tsanRun_mutex_kept
    (fun c hc => hkeeps c (List.mem_append_left _ hc)) hafter hs₁ hs
  rw [mutexSlot_congr hkeys] at hslot
  obtain ⟨s₂, -, hcall⟩ := tsanRun_cons_ok.mp hs₁
  calc
    (s.mutexes idx).vc = (s₁.mutexes idx).vc := hvc idx (mutexKeys_of_slot hslot)
    _ = tsanVcInc (s₁.threads tid).vc tid := stored_of_postUnlock hcall hslot htid

theorem tsanRun_append_ok {later : List (TsanCall Thr)}
    (h : tsanRun (later ++ history) = .ok s') : ∃ s, tsanRun history = .ok s := by
  induction later generalizing s' with
  | nil => exact ⟨s', h⟩
  | cons c later ih =>
      obtain ⟨s₁, hs₁, -⟩ := tsanRun_cons_ok.mp h
      exact ih hs₁

theorem exists_lastRelease (hs : tsanRun (phase ++ prior) = .ok s)
    (h : ReaderRelease mutex phase prior vc) :
    ∃ vc' tid, LastRelease mutex phase prior vc' tid := by
  obtain ⟨thr, rw, before, -, -, hsuffix, -⟩ := h
  have hsome : (phase.find? fun c => decide (c.releases? = some mutex)).isSome = true := by
    rw [List.find?_isSome]
    exact ⟨_, hsuffix.subset (List.mem_cons_self ..), decide_eq_true rfl⟩
  obtain ⟨c, hc⟩ := Option.isSome_iff_exists.mp hsome
  obtain ⟨hreleases, after, before', rfl, hafter⟩ := List.find?_eq_some_iff_append.mp hc
  cases c with
  | postUnlock thr' addr rw' =>
      obtain rfl : addr = mutex := Option.some.inj (of_decide_eq_true hreleases)
      rw [List.append_assoc, List.cons_append] at hs
      obtain ⟨s₁, hs₁⟩ := tsanRun_append_ok hs
      obtain ⟨s₂, -, hcall⟩ := tsanRun_cons_ok.mp hs₁
      obtain ⟨s₃, henters, hmove⟩ := tsanStep_cases hcall
      obtain ⟨tid, htid⟩ : ∃ tid, s₁.currentTid thr' = some tid := by
        rw [hmove.currentTid_eq]
        rcases henters with ⟨hnone, -⟩ | ⟨v, tid, hv, hentered⟩
        · cases hnone
        · cases hv
          exact ⟨tid, hentered.currentTid⟩
      refine ⟨_, tid, after, thr', rw', before', s₁, rfl, fun c hc => ?_, hs₁, htid, rfl⟩
      simpa using hafter c hc
  | init | access | mutexCreate | mutexDestroy | preLock | postLock | preUnlock =>
      exact absurd (of_decide_eq_true hreleases) (Option.some_ne_none _).symm

/-! ### What the next owner learns -/

theorem tsanVc_le_join_iff (x : BitVec 64) (dst src : TsanVc) (u : Tid) :
    x ≤ tsanVcJoin dst src u ↔ x ≤ dst u ∨ x ≤ src u := by
  rw [BitVec.le_def, toNat_tsanVcJoin, le_max_iff, BitVec.le_def, BitVec.le_def]

/-- **Readers' releases, exactly.** A thread that locks the mutex after the readers have all left
knows each of their clocks if and only if each component of each is known to that thread already or,
when the mutex has an entry, to the reader that left last. -/
theorem tsan_readerReleases_iff {w : Thr} {rw : Int}
    (hshared : sharedReaders mutex reader phase = some ∅)
    (hbefore : tsanRun (phase ++ prior) = .ok s₀) (hentered : TsanEntered s₀ w tid s₁)
    (hrun : tsanRun (.postLock w mutex rw :: (phase ++ prior)) = .ok s) :
    (∀ vc, ReaderRelease mutex phase prior vc → ∀ u, vc u ≤ (s.threads tid).vc u) ↔
      ∀ vc, ReaderRelease mutex phase prior vc → ∀ u, vc u ≤ (s₁.threads tid).vc u ∨
        (∃ j, mutexKeys s₀.mutexes j = some mutex) ∧
          ∃ vc' t, LastRelease mutex phase prior vc' t ∧ vc u ≤ tsanVcInc vc' t u := by
  have hkeeps := sharedReaders_keeps hshared
  obtain ⟨s₀', hs₀', hcall⟩ := tsanRun_cons_ok.mp hrun
  cases hbefore.symm.trans hs₀'
  change tsanMutexPostLock s₀ w mutex rw = .ok s at hcall
  rw [tsanMutexPostLock_eq hentered, hentered.mutexes] at hcall
  refine forall₂_congr fun vc hvc => forall_congr' fun u => ?_
  rw [← mutexSlot_ne_none_iff]
  cases hslot : mutexSlot s₀.mutexes mutex with
  | none =>
      rw [hslot] at hcall
      cases hcall
      simp
  | some idx =>
      rw [hslot] at hcall
      cases hcall
      rw [TsanState.acquire_threads_self]
      dsimp only
      rw [tsanVc_le_join_iff]
      apply or_congr_right
      constructor
      · intro hle
        obtain ⟨vc', t, hlast⟩ := exists_lastRelease hbefore hvc
        exact ⟨Option.some_ne_none _, vc', t, hlast, hlast.stored hkeeps hbefore hslot ▸ hle⟩
      · rintro ⟨-, vc', t, hlast, hle⟩
        rw [hlast.stored hkeeps hbefore hslot]
        exact hle

/-- Two readers inside at once. The one that leaves last has been told of the other by another
mutex. -/
def toldReaders : List (TsanCall (Fin 3)) :=
  [.postUnlock 1 0x2000 1, .postUnlock 0 0x2000 1, .postLock 1 0x2008 0, .postUnlock 0 0x2008 0,
    .postLock 1 0x2000 1, .postLock 0 0x2000 1]

theorem tsan_readerReleases_toldReaders :
    ∃ s, tsanRun (.postLock 2 0x2000 0 ::
        (toldReaders ++ [.mutexCreate 0x2008, .mutexCreate 0x2000])) = .ok s ∧
      ∀ vc, ReaderRelease 0x2000 toldReaders [.mutexCreate 0x2008, .mutexCreate 0x2000] vc →
        ∀ u, vc u ≤ (s.threads 3).vc u := by
  let prior : List (TsanCall (Fin 3)) := [.mutexCreate 0x2008, .mutexCreate 0x2000]
  obtain ⟨s₀, hs₀, hknown, hnew, hcount, hkey, hinc, htold⟩ :
      ∃ s, tsanRun (toldReaders ++ prior) = .ok s ∧
        s.currentTid 1 = some 2 ∧ s.currentTid 2 = none ∧ s.threadCount = 2 ∧
        mutexKeys s.mutexes 0 = some 0x2000 ∧ (s.threads 2).vc 2 ≠ BitVec.allOnes 64 ∧
        ∀ u, update (0 : TsanVc) 1 1 u ≤ (s.threads 2).vc u :=
    exists_tsanRun_ok (by decide +kernel)
  obtain ⟨s₂, hs₂, hknown₂, hfirst⟩ :
      ∃ s, tsanRun (toldReaders.drop 1 ++ prior) = .ok s ∧ s.currentTid 0 = some 1 ∧
        ∀ u, (s.threads 1).vc u ≤ update (0 : TsanVc) 1 1 u :=
    exists_tsanRun_ok (by decide +kernel)
  have hentered : TsanEntered s₀ 2 3 (s₀.register 2 3) := .fresh hnew (by rw [hcount]; rfl)
  obtain ⟨s, hs, -⟩ : ∃ s,
      tsanRun (.postLock 2 0x2000 0 :: (toldReaders ++ prior)) = .ok s ∧ s.threadCount = 3 :=
    exists_tsanRun_ok (by decide +kernel)
  have hshared : sharedReaders 0x2000 1 toldReaders = some ∅ := by decide
  have hlast : LastRelease 0x2000 toldReaders prior (s₀.threads 2).vc 2 :=
    ⟨[], 1, 1, _, s₀, rfl, fun c hc => absurd hc List.not_mem_nil, hs₀, hknown, rfl⟩
  refine ⟨s, hs, (tsan_readerReleases_iff hshared hs₀ hentered hs).mpr ?_⟩
  rintro vc ⟨v, rw, before, s₁, tid, hsuffix, hs₁, htid, rfl⟩ u
  refine Or.inr ⟨⟨0, hkey⟩, _, 2, hlast, BitVec.le_trans ?_ (tsanVc_le_inc hinc u)⟩
  rcases List.suffix_cons_iff.mp hsuffix with heq | htail
  · cases heq
    cases hs₀.symm.trans hs₁
    cases hknown.symm.trans htid
    exact BitVec.le_refl _
  · -- no other call of the phase unlocks the mutex
    cases eq_of_suffix_of_notMem htail (by simp)
    cases hs₂.symm.trans hs₁
    cases hknown₂.symm.trans htid
    exact BitVec.le_trans (hfirst u) (htold u)

def twoReaders : List (TsanCall (Fin 3)) :=
  [.postUnlock 1 0x2000 1, .postUnlock 0 0x2000 1, .postLock 1 0x2000 1, .postLock 0 0x2000 1]

/-- Two readers inside at once: the third thread learns nothing of the one that leaves first. -/
theorem not_tsan_readerReleases :
    ¬ ∀ (phase prior : List (TsanCall (Fin 3))) (reader rw : Int) (mutex : Addr) (w : Fin 3)
      (s : TsanState (Fin 3)) (tid : Tid), mutexCreated mutex prior = true →
      sharedReaders mutex reader phase = some ∅ →
      tsanRun (.postLock w mutex rw :: (phase ++ prior)) = .ok s → s.currentTid w = some tid →
      ∀ vc, ReaderRelease mutex phase prior vc → ∀ u, vc u ≤ (s.threads tid).vc u := by
  intro hclaim
  obtain ⟨s, hs, htid, hlearnt⟩ : ∃ s,
      tsanRun (.postLock 2 0x2000 0 :: (twoReaders ++ [.mutexCreate 0x2000])) = .ok s ∧
        s.currentTid 2 = some 3 ∧ (s.threads 3).vc 1 = 0 := exists_tsanRun_ok (by decide +kernel)
  obtain ⟨s₁, hs₁, htid₁, hown⟩ :
      ∃ s, tsanRun (twoReaders.drop 1 ++ [.mutexCreate 0x2000]) = .ok s ∧
      s.currentTid 0 = some 1 ∧ (s.threads 1).vc 1 = 1 := exists_tsanRun_ok (by decide +kernel)
  have hreleased : ReaderRelease 0x2000 twoReaders [.mutexCreate 0x2000] (s₁.threads 1).vc :=
    ⟨0, 1, _, s₁, 1, List.suffix_cons _ _, hs₁, htid₁, rfl⟩
  have hle := hclaim twoReaders [.mutexCreate 0x2000] 1 0 0x2000 2 s 3 rfl rfl hs htid _ hreleased 1
  rw [hown, hlearnt] at hle
  exact absurd hle (by decide)

end Misan
