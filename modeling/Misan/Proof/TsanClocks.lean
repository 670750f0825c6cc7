import Misan.Proof.TsanThreads

/-!
# The clocks mean what the threads know

Read off by thread instead of by identifier, the clocks of the runtime make the step of abstract
vector clocks that the call means, as long as no counter wraps around. So they represent the
releases known.
-/

namespace Misan

open Function

variable {Thr : Type} [DecidableEq Thr] {s s' s₁ : TsanState Thr} {c : TsanCall Thr}
  {history before : List (TsanCall Thr)} {thr v v' : Thr} {tid t u : Tid} {idx : Fin 1024}

/-! ### Counters -/

theorem toNat_tsanVcInc_self {vc : TsanVc} (hwrap : vc tid ≠ BitVec.allOnes 64) :
    (tsanVcInc vc tid tid).toNat = (vc tid).toNat + 1 := by
  have hlt := (vc tid).isLt
  have hne : (vc tid).toNat ≠ 2 ^ 64 - 1 := fun heq =>
    hwrap (BitVec.eq_of_toNat_eq (heq.trans BitVec.toNat_allOnes.symm))
  rw [tsanVcInc_self, BitVec.toNat_add, show (1 : BitVec 64).toNat = 1 from rfl]
  omega

theorem toNat_tsanVcJoin (dst src : TsanVc) (u : Tid) :
    (tsanVcJoin dst src u).toNat = max (dst u).toNat (src u).toNat := by
  rw [tsanVcJoin]
  split
  · rename_i hgt
    have : (dst u).toNat < (src u).toNat := hgt
    omega
  · rename_i hle
    have : ¬ (dst u).toNat < (src u).toNat := hle
    omega

/-! ### The clocks by thread -/

/-- A thread without an identifier is given the clock it will start with. -/
def tsanClocks (s : TsanState Thr) : Clocks Thr (Fin 1024) where
  clock := fun v v' =>
    match s.currentTid v, s.currentTid v' with
    | some t, some u => ((s.threads t).vc u).toNat
    | _, _ => if v = v' then 1 else 0
  cell := fun idx v' =>
    match s.currentTid v' with
    | some u => ((s.mutexes idx).vc u).toNat
    | none => 0

theorem tsanClocks_clock (hv : s.currentTid v = some t) (hv' : s.currentTid v' = some u) :
    (tsanClocks s).clock v v' = ((s.threads t).vc u).toNat := by
  simp only [tsanClocks, hv, hv']

theorem tsanClocks_clock_none (hnone : s.currentTid v = none ∨ s.currentTid v' = none) :
    (tsanClocks s).clock v v' = if v = v' then 1 else 0 := by
  rcases hnone with hnone | hnone
  · simp only [tsanClocks, hnone]
  · simp only [tsanClocks, hnone]
    cases s.currentTid v <;> rfl

theorem tsanClocks_cell (hv' : s.currentTid v' = some u) :
    (tsanClocks s).cell idx v' = ((s.mutexes idx).vc u).toNat := by
  simp only [tsanClocks, hv']

theorem tsanClocks_cell_none (hnone : s.currentTid v' = none) :
    (tsanClocks s).cell idx v' = 0 := by
  simp only [tsanClocks, hnone]

theorem tsanClocks_initial : tsanClocks (TsanState.initial Thr) = Clocks.initial := rfl

theorem tsanClocks_register (hs : TsanThreadsOk s) (hnone : s.currentTid thr = none)
    (htid : tid.val = s.threadCount + 1) : tsanClocks (s.register thr tid) = tsanClocks s := by
  have hcur : ∀ {v}, v ≠ thr → (s.register thr tid).currentTid v = s.currentTid v :=
    fun hne => TsanState.register_currentTid_of_ne hne
  have hself : (s.register thr tid).currentTid thr = some tid :=
    TsanState.register_currentTid_self
  have hfree := hs.fresh htid
  have hother : ∀ {v t}, s.currentTid v = some t → t ≠ tid := by
    rintro v t hv rfl
    exact hfree v hv
  have hclock : (tsanClocks (s.register thr tid)).clock = (tsanClocks s).clock := by
    funext v v'
    by_cases hv : v = thr
    · subst hv
      rw [tsanClocks_clock_none (Or.inl hnone)]
      by_cases hv' : v = v'
      · subst hv'
        simp only [tsanClocks_clock hself hself, TsanState.register_threads_self, update_self,
          if_true]
        rfl
      · rw [if_neg hv']
        cases hu : s.currentTid v' with
        | none =>
            rw [tsanClocks_clock_none (Or.inr ((hcur (Ne.symm hv')).trans hu)), if_neg hv']
        | some u =>
            simp only [tsanClocks_clock hself ((hcur (Ne.symm hv')).trans hu),
              TsanState.register_threads_self, update_of_ne (hother hu)]
            rfl
    · cases ht : s.currentTid v with
      | none =>
          rw [tsanClocks_clock_none (Or.inl ht),
            tsanClocks_clock_none (Or.inl ((hcur hv).trans ht))]
      | some t =>
          by_cases hv' : v' = thr
          · subst hv'
            rw [tsanClocks_clock_none (Or.inr hnone), if_neg hv,
              tsanClocks_clock ((hcur hv).trans ht) hself,
              TsanState.register_threads_of_ne (hother ht), hs.thread_zero hfree]
            rfl
          · cases hu : s.currentTid v' with
            | none =>
                rw [tsanClocks_clock_none (Or.inr hu),
                  tsanClocks_clock_none (Or.inr ((hcur hv').trans hu))]
            | some u =>
                rw [tsanClocks_clock ht hu,
                  tsanClocks_clock ((hcur hv).trans ht) ((hcur hv').trans hu),
                  TsanState.register_threads_of_ne (hother ht)]
  have hcell : (tsanClocks (s.register thr tid)).cell = (tsanClocks s).cell := by
    funext idx v'
    by_cases hv' : v' = thr
    · subst hv'
      rw [tsanClocks_cell_none hnone, tsanClocks_cell hself]
      exact congrArg BitVec.toNat (hs.mutex_zero hfree)
    · cases hu : s.currentTid v' with
      | none => rw [tsanClocks_cell_none hu, tsanClocks_cell_none ((hcur hv').trans hu)]
      | some u =>
          rw [tsanClocks_cell hu, tsanClocks_cell ((hcur hv').trans hu)]
          rfl
  exact congrArg₂ Clocks.mk hclock hcell

/-! ### The moves -/

/-- It is enough to compare the counters of threads with an identifier. -/
theorem tsanClocks_eq_step {a : SyncAct Thr (Fin 1024)} (hcur : s'.currentTid = s.currentTid)
    (hclock : ∀ v v' t u, s.currentTid v = some t → s.currentTid v' = some u →
      ((s'.threads t).vc u).toNat = ((tsanClocks s).step a).clock v v')
    (hcell : ∀ idx v' u, s.currentTid v' = some u →
      ((s'.mutexes idx).vc u).toNat = ((tsanClocks s).step a).cell idx v')
    (hclockNone : ∀ v v', s.currentTid v = none ∨ s.currentTid v' = none →
      ((tsanClocks s).step a).clock v v' = (tsanClocks s).clock v v')
    (hcellNone : ∀ idx v', s.currentTid v' = none →
      ((tsanClocks s).step a).cell idx v' = 0) :
    tsanClocks s' = (tsanClocks s).step a := by
  have hclocks : (tsanClocks s').clock = ((tsanClocks s).step a).clock := by
    funext v v'
    cases ht : s.currentTid v with
    | none =>
        rw [hclockNone v v' (Or.inl ht), tsanClocks_clock_none (Or.inl ht),
          tsanClocks_clock_none (Or.inl (hcur ▸ ht))]
    | some t =>
        cases hu : s.currentTid v' with
        | none =>
            rw [hclockNone v v' (Or.inr hu), tsanClocks_clock_none (Or.inr hu),
              tsanClocks_clock_none (Or.inr (hcur ▸ hu))]
        | some u =>
            rw [tsanClocks_clock (hcur ▸ ht) (hcur ▸ hu), hclock v v' t u ht hu]
  have hcells : (tsanClocks s').cell = ((tsanClocks s).step a).cell := by
    funext idx v'
    cases hu : s.currentTid v' with
    | none => rw [hcellNone idx v' hu, tsanClocks_cell_none (hcur ▸ hu)]
    | some u => rw [tsanClocks_cell (hcur ▸ hu), hcell idx v' u hu]
  exact congrArg₂ Clocks.mk hclocks hcells

theorem tsanClocks_recorded (hs : TsanThreadsOk s) (htid : s.currentTid thr = some tid)
    (hwrap : (s.threads tid).vc tid ≠ BitVec.allOnes 64) (addr : Addr) (slot : Fin 65536)
    (w : Bool) :
    tsanClocks (s.recorded addr slot tid w) = (tsanClocks s).step (.tick thr) := by
  refine tsanClocks_eq_step rfl ?_ (fun idx v' u hu => (tsanClocks_cell hu).symm) ?_
    fun idx v' hnone => tsanClocks_cell_none hnone
  · intro v v' t u ht hu
    simp only [Clocks.step]
    by_cases hv : v = thr
    · subst hv
      cases ht.symm.trans htid
      rw [TsanState.recorded_threads_self, update_self]
      by_cases hv' : v' = v
      · subst hv'
        cases hu.symm.trans htid
        rw [update_self, tsanClocks_clock htid htid]
        exact toNat_tsanVcInc_self hwrap
      · rw [update_of_ne hv', tsanClocks_clock htid hu]
        exact congrArg BitVec.toNat (tsanVcInc_of_ne _ (hs.tid_ne hv' hu htid))
    · rw [update_of_ne hv, TsanState.recorded_threads_of_ne (hs.tid_ne hv ht htid),
        tsanClocks_clock ht hu]
  · intro v v' hnone
    simp only [Clocks.step]
    by_cases hv : v = thr
    · subst hv
      rw [update_self, update_of_ne]
      rintro rfl
      rw [htid] at hnone
      simp at hnone
    · rw [update_of_ne hv]

theorem tsanClocks_acquire (hs : TsanThreadsOk s) (htid : s.currentTid thr = some tid)
    (idx : Fin 1024) :
    tsanClocks (s.acquire s.mutexes idx tid) = (tsanClocks s).step (.acquire thr idx) := by
  refine tsanClocks_eq_step rfl ?_ ?_ ?_ fun idx v' hnone => tsanClocks_cell_none hnone
  · intro v v' t u ht hu
    simp only [Clocks.step]
    by_cases hv : v = thr
    · subst hv
      cases ht.symm.trans htid
      rw [TsanState.acquire_threads_self, update_self, tsanClocks_clock htid hu,
        tsanClocks_cell hu]
      exact toNat_tsanVcJoin _ _ _
    · rw [update_of_ne hv, TsanState.acquire_threads_of_ne (hs.tid_ne hv ht htid),
        tsanClocks_clock ht hu]
  · intro idx' v' u hu
    simp only [Clocks.step]
    rw [tsanClocks_cell hu]
    by_cases hidx : idx' = idx
    · subst hidx
      rw [TsanState.acquire_mutexes_self]
    · rw [TsanState.acquire_mutexes_of_ne hidx]
  · intro v v' hnone
    simp only [Clocks.step]
    by_cases hv : v = thr
    · subst hv
      have hnone' : s.currentTid v' = none := by
        rcases hnone with hnone | hnone
        · rw [htid] at hnone
          cases hnone
        · exact hnone
      rw [update_self, tsanClocks_cell_none hnone', Nat.max_zero]
    · rw [update_of_ne hv]

theorem tsanClocks_release (hs : TsanThreadsOk s) (htid : s.currentTid thr = some tid)
    (hwrap : (s.threads tid).vc tid ≠ BitVec.allOnes 64) (idx : Fin 1024) :
    tsanClocks (s.release s.mutexes idx tid) = (tsanClocks s).step (.release thr idx) := by
  refine tsanClocks_eq_step rfl (fun v v' t u ht hu => (tsanClocks_clock ht hu).symm) ?_
    (fun _ _ _ => rfl) ?_
  · intro idx' v' u hu
    simp only [Clocks.step]
    by_cases hidx : idx' = idx
    · subst hidx
      rw [TsanState.release_mutexes_self, update_self]
      by_cases hv' : v' = thr
      · subst hv'
        cases hu.symm.trans htid
        rw [update_self, tsanClocks_clock htid htid]
        exact toNat_tsanVcInc_self hwrap
      · rw [update_of_ne hv', tsanClocks_clock htid hu]
        exact congrArg BitVec.toNat (tsanVcInc_of_ne _ (hs.tid_ne hv' hu htid))
    · rw [TsanState.release_mutexes_of_ne hidx, update_of_ne hidx, tsanClocks_cell hu]
  · intro idx' v' hnone
    have hne : v' ≠ thr := by
      rintro rfl
      rw [htid] at hnone
      cases hnone
    simp only [Clocks.step]
    by_cases hidx : idx' = idx
    · subst hidx
      rw [update_self, update_of_ne hne, tsanClocks_clock_none (Or.inr hnone),
        if_neg (Ne.symm hne)]
    · rw [update_of_ne hidx]
      exact tsanClocks_cell_none hnone

theorem tsanClocks_created (s : TsanState Thr) (idx : Fin 1024) (addr : Addr) :
    tsanClocks (s.setMutex idx ⟨addr, 0, none, true⟩) = (tsanClocks s).step (.reset idx) := by
  refine tsanClocks_eq_step rfl (fun v v' t u ht hu => (tsanClocks_clock ht hu).symm) ?_
    (fun _ _ _ => rfl) ?_
  · intro idx' v' u hu
    simp only [Clocks.step]
    by_cases hidx : idx' = idx
    · subst hidx
      rw [TsanState.setMutex_mutexes_self, update_self]
      rfl
    · rw [TsanState.setMutex_mutexes_of_ne hidx, update_of_ne hidx, tsanClocks_cell hu]
  · intro idx' v' hnone
    simp only [Clocks.step]
    by_cases hidx : idx' = idx
    · subst hidx
      rw [update_self]
    · rw [update_of_ne hidx]
      exact tsanClocks_cell_none hnone

theorem tsanClocks_destroyed (s : TsanState Thr) (idx : Fin 1024) :
    tsanClocks (s.setMutex idx { s.mutexes idx with active := false }) = tsanClocks s := by
  refine tsanClocks_eq_step (a := .idle) rfl
    (fun v v' t u ht hu => (tsanClocks_clock ht hu).symm) ?_ (fun _ _ _ => rfl)
    fun idx v' hnone => tsanClocks_cell_none hnone
  intro idx' v' u hu
  simp only [Clocks.step]
  rw [tsanClocks_cell hu]
  by_cases hidx : idx' = idx
  · subst hidx
    rw [TsanState.setMutex_mutexes_self]
  · rw [TsanState.setMutex_mutexes_of_ne hidx]

/-- **A move** is the step of the abstract clocks that the call means. -/
theorem tsanClocks_move (hs : TsanThreadsOk s) (hmove : TsanMove s c s') (hwrap : s.NoWrap c) :
    tsanClocks s' = (tsanClocks s).step (tsanAct s c) := by
  cases hmove with
  | idle hidle => rw [hidle, Clocks.step]
  | recorded haccess htid hslot _ =>
      rw [tsanAct_access s haccess, hslot]
      exact tsanClocks_recorded hs htid
        (hwrap _ _ (TsanCall.increments?_of_access? haccess) htid) _ _ _
  | created hroom =>
      rw [tsanAct_mutexCreate, hroom]
      exact tsanClocks_created s _ _
  | destroyed => exact tsanClocks_destroyed s _
  | acquired htid hslot =>
      rw [tsanAct_postLock, hslot]
      exact tsanClocks_acquire hs htid _
  | released htid hslot =>
      rw [tsanAct_postUnlock, hslot]
      exact tsanClocks_release hs htid (hwrap _ _ rfl htid) _

/-! ### Runs -/

theorem TsanState.NoWrap.enters (hwrap : s.NoWrap c) (henters : TsanEnters s c s₁) :
    s₁.NoWrap c := by
  rcases henters with ⟨-, rfl⟩ | ⟨thr, tid, hthread, hentered⟩
  · exact hwrap
  · cases hentered with
    | known => exact hwrap
    | fresh hnone htid =>
        -- a new clock starts at `1`
        intro v u hincrements hu
        cases (TsanCall.thread?_of_increments? hincrements).symm.trans hthread
        rw [TsanState.register_currentTid_self] at hu
        cases hu
        simp only [TsanState.register_threads_self, update_self]
        decide

theorem TsanEnters.shadow (h : TsanEnters s c s₁) : s₁.shadow = s.shadow := by
  rcases h with ⟨-, rfl⟩ | ⟨thr, tid, -, hentered⟩
  · rfl
  · exact hentered.shadow

theorem TsanEnters.mutexes (h : TsanEnters s c s₁) : s₁.mutexes = s.mutexes := by
  rcases h with ⟨-, rfl⟩ | ⟨thr, tid, -, hentered⟩
  · rfl
  · exact hentered.mutexes

theorem TsanEnters.tsanAct_eq (h : TsanEnters s c s₁) : tsanAct s₁ c = tsanAct s c := by
  unfold tsanAct
  rw [h.shadow, h.mutexes]

theorem TsanEnters.tsanClocks_eq (h : TsanEnters s c s₁) (hs : TsanThreadsOk s) :
    tsanClocks s₁ = tsanClocks s := by
  rcases h with ⟨-, rfl⟩ | ⟨thr, tid, -, hentered⟩
  · rfl
  · cases hentered with
    | known => rfl
    | fresh hnone htid => exact tsanClocks_register hs hnone htid

theorem tsanStep_clocks (hs : TsanThreadsOk s) (h : tsanStep s c = .ok s') (hwrap : s.NoWrap c) :
    tsanClocks s' = (tsanClocks s).step (tsanAct s c) := by
  obtain ⟨s₁, henters, hmove⟩ := tsanStep_cases h
  calc
    tsanClocks s' = (tsanClocks s₁).step (tsanAct s₁ c) :=
      tsanClocks_move (hs.enters henters) hmove (hwrap.enters henters)
    _ = (tsanClocks s).step (tsanAct s c) := by
      rw [henters.tsanClocks_eq hs, henters.tsanAct_eq]

theorem tsanKnowledge_cons (h : tsanRun history = .ok s) :
    tsanKnowledge (c :: history) = (tsanKnowledge history).step (tsanAct s c) := by
  rw [tsanKnowledge, h]

/-- Without an unlock nothing is ever known. -/
theorem tsanKnowledge_unaware_of_no_unlock
    (hnone : ∀ thr addr rw, .postUnlock thr addr rw ∉ history) :
    (tsanKnowledge history).Unaware := by
  induction history with
  | nil => exact Knowledge.unaware_initial
  | cons c history ih =>
      have htail := ih fun thr addr rw hmem => hnone thr addr rw (List.mem_cons_of_mem c hmem)
      rw [tsanKnowledge]
      split
      · refine htail.step fun thr idx hact => ?_
        obtain ⟨addr, rw, rfl, -⟩ := tsanAct_eq_release hact
        exact hnone thr addr rw (List.mem_cons_self ..)
      · exact htail

/-- **The clocks mean what the threads know**, in every run in which no counter wraps around. -/
theorem tsanRun_represents (hfit : ClocksFit history) (h : tsanRun history = .ok s) :
    (tsanClocks s).Represents (tsanKnowledge history) := by
  refine tsanRun_induction (P := fun history s => ClocksFit history →
    (tsanClocks s).Represents (tsanKnowledge history)) ?_ ?_ h hfit
  · intro _
    rw [tsanClocks_initial]
    exact Clocks.represents_initial
  · intro c history s s' hrun ih hcall hfit
    rw [tsanStep_clocks (tsanRun_threadsOk hrun) hcall (hfit.head s hrun),
      tsanKnowledge_cons hrun]
    exact (ih hfit.tail).step _

theorem tsanKnowledge_time_mono (hsuffix : before <:+ history) (v : Thr) :
    (tsanKnowledge before).time v ≤ (tsanKnowledge history).time v := by
  induction history with
  | nil => rw [List.suffix_nil.mp hsuffix]
  | cons c history ih =>
      rcases List.suffix_cons_iff.mp hsuffix with rfl | htail
      · exact le_refl _
      · refine (ih htail).trans ?_
        rw [tsanKnowledge]
        split
        · exact Knowledge.time_le_step _ _ v
        · exact le_refl _

theorem tsanKnowledge_time_le (history : List (TsanCall Thr)) (v : Thr) :
    (tsanKnowledge history).time v ≤ history.length := by
  induction history with
  | nil => exact Nat.le_refl 0
  | cons c history ih =>
      rw [List.length_cons, tsanKnowledge]
      split
      · exact le_trans (Knowledge.step_time_le _ _ v) (Nat.succ_le_succ ih)
      · exact Nat.le_succ_of_le ih

/-- Only a history of some `2 ^ 64` calls can make a counter wrap around. -/
theorem clocksFit_of_length (hlength : history.length < 2 ^ 64 - 1) : ClocksFit history := by
  induction history with
  | nil => exact along_nil _
  | cons c history ih =>
      rw [List.length_cons] at hlength
      have hfit := ih (by omega)
      refine along_cons.mpr ⟨fun s hrun v u _ hu hmax => ?_, hfit⟩
      have hown := (tsanRun_represents hfit hrun).own v
      have htime := tsanKnowledge_time_le history v
      rw [tsanClocks_clock hu hu, hmax, BitVec.toNat_allOnes] at hown
      omega

end Misan
