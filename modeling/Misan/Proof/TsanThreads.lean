import Misan.Foundation.Runs
import Misan.Proof.TsanStep

/-!
# Threads and their identifiers

Identifiers are handed out in order, each to one thread. A slot nobody holds is untouched, and no
clock has a component for it. At most 63 threads all get one.
-/

namespace Misan

open Function

variable {Thr : Type} [DecidableEq Thr] {s s' s₁ : TsanState Thr} {c : TsanCall Thr}
  {history : List (TsanCall Thr)} {v : Thr} {tid : Tid}

/-! ### Runs -/

theorem tsanRun_cons (c : TsanCall Thr) (history : List (TsanCall Thr)) :
    tsanRun (c :: history) = (tsanRun history).bind (tsanStep · c) := rfl

theorem tsanRun_cons_ok :
    tsanRun (c :: history) = .ok s' ↔ ∃ s, tsanRun history = .ok s ∧ tsanStep s c = .ok s' := by
  rw [tsanRun_cons]
  cases tsanRun history with
  | ok s => simp [Except.bind]
  | error e => simp [Except.bind]

/-- A run can be evaluated, and so can a decidable property of the state it ends in. -/
theorem exists_tsanRun_ok {P : TsanState Thr → Prop} [DecidablePred P]
    (h : (tsanRun history).toOption.any (fun s => decide (P s)) = true) :
    ∃ s, tsanRun history = .ok s ∧ P s := by
  cases hrun : tsanRun history with
  | ok s =>
      rw [hrun] at h
      exact ⟨s, rfl, of_decide_eq_true h⟩
  | error e =>
      rw [hrun] at h
      cases h

/-- So can the error a run ends in. -/
theorem tsanRun_eq_error {e : TsanHalt}
    (h : (match tsanRun history with
      | .ok _ => none
      | .error e => some e) = some e) : tsanRun history = .error e := by
  cases hrun : tsanRun history with
  | ok s =>
      rw [hrun] at h
      cases h
  | error e' =>
      rw [hrun] at h
      exact congrArg Except.error (Option.some.inj h)

theorem tsanRun_induction {P : List (TsanCall Thr) → TsanState Thr → Prop}
    (hinit : P [] (.initial Thr))
    (hstep : ∀ c history s s', tsanRun history = .ok s → P history s → tsanStep s c = .ok s' →
      P (c :: history) s') :
    ∀ {history s}, tsanRun history = .ok s → P history s := by
  intro history
  induction history with
  | nil =>
      intro s h
      cases h
      exact hinit
  | cons c history ih =>
      intro s' h
      obtain ⟨s, hs, hcall⟩ := tsanRun_cons_ok.mp h
      exact hstep c history s s' hs (ih hs) hcall

section

omit [DecidableEq Thr]

theorem Along.suffix {P : TsanCall Thr → List (TsanCall Thr) → Prop}
    {before : List (TsanCall Thr)} (h : Along P history) (hsuffix : before <:+ history) :
    Along P before :=
  fun d earlier hd => h d earlier (hd.trans hsuffix)

theorem Along.tail {P : TsanCall Thr → List (TsanCall Thr) → Prop}
    (h : Along P (c :: history)) : Along P history :=
  h.suffix (List.suffix_cons c history)

theorem Along.head {P : TsanCall Thr → List (TsanCall Thr) → Prop}
    (h : Along P (c :: history)) : P c history :=
  h c history (List.suffix_refl _)

theorem along_nil (P : TsanCall Thr → List (TsanCall Thr) → Prop) : Along P [] := by
  intro c before hsuffix
  exact absurd (List.suffix_nil.mp hsuffix) (List.cons_ne_nil _ _)

theorem along_cons {P : TsanCall Thr → List (TsanCall Thr) → Prop} :
    Along P (c :: history) ↔ P c history ∧ Along P history := by
  refine ⟨fun h => ⟨h.head, h.tail⟩, fun h d before hsuffix => ?_⟩
  rcases List.suffix_cons_iff.mp hsuffix with heq | htail
  · cases heq
    exact h.1
  · exact h.2 d before htail

end

/-! ### Identifiers -/

structure TsanThreadsOk (s : TsanState Thr) : Prop where
  bounds : ∀ {thr tid}, s.currentTid thr = some tid → 1 ≤ tid.val ∧ tid.val ≤ s.threadCount
  inj : ∀ {thr thr' tid}, s.currentTid thr = some tid → s.currentTid thr' = some tid → thr = thr'
  active : ∀ {thr tid}, s.currentTid thr = some tid → (s.threads tid).active = true
  untouched : ∀ {tid}, (∀ thr, s.currentTid thr ≠ some tid) → s.threads tid = ⟨0, false⟩
  thread_zero : ∀ {tid u}, (∀ thr, s.currentTid thr ≠ some u) → (s.threads tid).vc u = 0
  mutex_zero : ∀ {idx u}, (∀ thr, s.currentTid thr ≠ some u) → (s.mutexes idx).vc u = 0

omit [DecidableEq Thr] in
theorem tsanThreadsOk_initial : TsanThreadsOk (TsanState.initial Thr) where
  bounds h := by cases h
  inj h := by cases h
  active h := by cases h
  untouched _ := rfl
  thread_zero _ := rfl
  mutex_zero _ := rfl

namespace TsanThreadsOk

section

omit [DecidableEq Thr]

theorem fresh (h : TsanThreadsOk s) {tid : Tid} (htid : tid.val = s.threadCount + 1) (thr : Thr) :
    s.currentTid thr ≠ some tid := by
  intro hthr
  have := (h.bounds hthr).2
  omega

theorem tid_ne (h : TsanThreadsOk s) {thr thr' : Thr} {t t' : Tid} (hne : thr ≠ thr')
    (hthr : s.currentTid thr = some t) (hthr' : s.currentTid thr' = some t') : t ≠ t' := by
  rintro rfl
  exact hne (h.inj hthr hthr')

theorem zero_unassigned (h : TsanThreadsOk s) (thr : Thr) : s.currentTid thr ≠ some 0 := by
  intro hthr
  exact absurd (h.bounds hthr).1 (by decide)

end

theorem register (h : TsanThreadsOk s) {thr : Thr} {tid : Tid} (hnone : s.currentTid thr = none)
    (htid : tid.val = s.threadCount + 1) : TsanThreadsOk (s.register thr tid) := by
  -- who has an identifier afterwards is the new thread, or had it before
  have hholds : ∀ {v u}, (s.register thr tid).currentTid v = some u →
      (v = thr ∧ u = tid) ∨ (v ≠ thr ∧ u ≠ tid ∧ s.currentTid v = some u) := by
    intro v u hv
    by_cases hthr : v = thr
    · subst hthr
      rw [TsanState.register_currentTid_self] at hv
      exact Or.inl ⟨rfl, (Option.some.inj hv).symm⟩
    · rw [TsanState.register_currentTid_of_ne hthr] at hv
      refine Or.inr ⟨hthr, ?_, hv⟩
      rintro rfl
      exact h.fresh htid v hv
  have hfree : ∀ {u}, (∀ v, (s.register thr tid).currentTid v ≠ some u) →
      u ≠ tid ∧ ∀ v, s.currentTid v ≠ some u := by
    intro u hu
    have hne : u ≠ tid := by
      rintro rfl
      exact hu thr TsanState.register_currentTid_self
    refine ⟨hne, fun v hv => ?_⟩
    have hv' : v ≠ thr := by
      rintro rfl
      rw [hnone] at hv
      cases hv
    exact hu v ((TsanState.register_currentTid_of_ne hv').trans hv)
  refine ⟨?_, ?_, ?_, ?_, ?_, ?_⟩
  · intro v u hv
    change 1 ≤ u.val ∧ u.val ≤ s.threadCount + 1
    rcases hholds hv with ⟨-, rfl⟩ | ⟨-, -, hold⟩
    · omega
    · have := h.bounds hold
      omega
  · intro v v' u hv hv'
    rcases hholds hv with ⟨rfl, rfl⟩ | ⟨-, hne, hold⟩
    · rcases hholds hv' with ⟨rfl, -⟩ | ⟨-, hne, -⟩
      · rfl
      · exact (hne rfl).elim
    · rcases hholds hv' with ⟨-, rfl⟩ | ⟨-, -, hold'⟩
      · exact (hne rfl).elim
      · exact h.inj hold hold'
  · intro v u hv
    rcases hholds hv with ⟨-, rfl⟩ | ⟨-, hne, hold⟩
    · rw [TsanState.register_threads_self]
    · rw [TsanState.register_threads_of_ne hne]
      exact h.active hold
  · intro u hu
    rw [TsanState.register_threads_of_ne (hfree hu).1]
    exact h.untouched (hfree hu).2
  · intro t u hu
    obtain ⟨hne, hu'⟩ := hfree hu
    by_cases ht : t = tid
    · subst ht
      rw [TsanState.register_threads_self]
      exact update_of_ne hne _ _
    · rw [TsanState.register_threads_of_ne ht]
      exact h.thread_zero hu'
  · intro idx u hu
    exact h.mutex_zero (hfree hu).2

theorem enters (h : TsanThreadsOk s) (hs₁ : TsanEnters s c s₁) : TsanThreadsOk s₁ := by
  rcases hs₁ with ⟨-, rfl⟩ | ⟨thr, tid, -, hentered⟩
  · exact h
  · cases hentered with
    | known => exact h
    | fresh hnone htid => exact h.register hnone htid

end TsanThreadsOk

theorem TsanEnters.currentTid_mono (h : TsanEnters s c s₁) (hv : s.currentTid v = some tid) :
    s₁.currentTid v = some tid := by
  rcases h with ⟨-, rfl⟩ | ⟨thr, tid', -, hentered⟩
  · exact hv
  · cases hentered with
    | known => exact hv
    | fresh hnone htid =>
        refine (TsanState.register_currentTid_of_ne ?_).trans hv
        rintro rfl
        rw [hnone] at hv
        cases hv

/-! ### Moves and the thread records -/

section

omit [DecidableEq Thr]

theorem TsanMove.currentTid_eq (h : TsanMove s c s') : s'.currentTid = s.currentTid := by
  cases h <;> rfl

theorem TsanMove.threadCount_eq (h : TsanMove s c s') : s'.threadCount = s.threadCount := by
  cases h <;> rfl

theorem TsanCall.increments?_of_access? {thr : Thr} {addr : Addr} {w : Bool}
    (haccess : c.access? = some (thr, addr, w)) : c.increments? = some thr := by
  cases c <;> cases haccess <;> rfl

theorem TsanCall.thread?_of_increments? {thr : Thr} (hincrements : c.increments? = some thr) :
    c.thread? = some thr := by
  cases c <;> cases hincrements <;> rfl

/-- A move leaves a thread alone, or the thread is the calling one and ticks or joins in the clock
of a mutex. -/
theorem TsanMove.threads_cases (h : TsanMove s c s') (t : Tid) :
    s'.threads t = s.threads t ∨
    (∃ thr, c.increments? = some thr ∧ s.currentTid thr = some t ∧
      s'.threads t = { s.threads t with vc := tsanVcInc (s.threads t).vc t }) ∨
    ∃ thr idx, c.thread? = some thr ∧ s.currentTid thr = some t ∧
      s'.threads t = { s.threads t with vc := tsanVcJoin (s.threads t).vc (s.mutexes idx).vc } := by
  cases h with
  | idle | created | destroyed | released => exact Or.inl rfl
  | @recorded _ thr _ _ tid _ haccess htid _ _ =>
      by_cases ht : t = tid
      · subst ht
        exact Or.inr (Or.inl ⟨thr, TsanCall.increments?_of_access? haccess, htid,
          TsanState.recorded_threads_self⟩)
      · exact Or.inl (TsanState.recorded_threads_of_ne ht)
  | @acquired thr _ _ tid idx htid _ =>
      by_cases ht : t = tid
      · subst ht
        exact Or.inr (Or.inr ⟨thr, idx, rfl, htid, TsanState.acquire_threads_self⟩)
      · exact Or.inl (TsanState.acquire_threads_of_ne ht)

/-- A move leaves the clock of a mutex alone, clears it, or puts a thread's clock there. -/
theorem TsanMove.mutexes_cases (h : TsanMove s c s') (idx : Fin 1024) :
    (s'.mutexes idx).vc = (s.mutexes idx).vc ∨ (s'.mutexes idx).vc = 0 ∨
    ∃ thr tid, s.currentTid thr = some tid ∧
      (s'.mutexes idx).vc = tsanVcInc (s.threads tid).vc tid := by
  cases h with
  | idle | recorded => exact Or.inl rfl
  | @created _ idx' _ =>
      by_cases hidx : idx = idx'
      · subst hidx
        exact Or.inr (Or.inl (congrArg TsanMutex.vc TsanState.setMutex_mutexes_self))
      · exact Or.inl (congrArg TsanMutex.vc (TsanState.setMutex_mutexes_of_ne hidx))
  | @destroyed _ idx' _ =>
      by_cases hidx : idx = idx'
      · subst hidx
        exact Or.inl (by rw [TsanState.setMutex_mutexes_self])
      · exact Or.inl (congrArg TsanMutex.vc (TsanState.setMutex_mutexes_of_ne hidx))
  | @acquired _ _ _ _ idx' _ _ =>
      by_cases hidx : idx = idx'
      · subst hidx
        exact Or.inl (by rw [TsanState.acquire_mutexes_self])
      · exact Or.inl (congrArg TsanMutex.vc (TsanState.acquire_mutexes_of_ne hidx))
  | @released thr _ _ tid idx' htid _ =>
      by_cases hidx : idx = idx'
      · subst hidx
        exact Or.inr (Or.inr ⟨thr, tid, htid,
          congrArg TsanMutex.vc TsanState.release_mutexes_self⟩)
      · exact Or.inl (congrArg TsanMutex.vc (TsanState.release_mutexes_of_ne hidx))

end

@[simp]
theorem tsanVcInc_of_ne (vc : TsanVc) {tid u : Tid} (hne : u ≠ tid) : tsanVcInc vc tid u = vc u :=
  update_of_ne hne _ _

@[simp]
theorem tsanVcInc_self (vc : TsanVc) (tid : Tid) : tsanVcInc vc tid tid = vc tid + 1 :=
  update_self ..

theorem tsanVcJoin_zero {dst src : TsanVc} {u : Tid} (hdst : dst u = 0) (hsrc : src u = 0) :
    tsanVcJoin dst src u = 0 := by
  rw [tsanVcJoin, hdst, hsrc]
  rfl

omit [DecidableEq Thr] in
theorem TsanThreadsOk.move (h : TsanThreadsOk s) (hmove : TsanMove s c s') : TsanThreadsOk s' := by
  have hcur := hmove.currentTid_eq
  have hcount := hmove.threadCount_eq
  refine ⟨?_, ?_, ?_, ?_, ?_, ?_⟩
  · intro thr tid hthr
    rw [hcur] at hthr
    rw [hcount]
    exact h.bounds hthr
  · intro thr thr' tid hthr hthr'
    rw [hcur] at hthr hthr'
    exact h.inj hthr hthr'
  · intro thr tid hthr
    rw [hcur] at hthr
    have hactive := h.active hthr
    rcases hmove.threads_cases tid with heq | ⟨_, -, -, heq⟩ | ⟨_, _, -, -, heq⟩
    · rwa [heq]
    · rwa [heq]
    · rwa [heq]
  · intro tid hfree
    rw [hcur] at hfree
    rcases hmove.threads_cases tid with heq | ⟨thr, -, hthr, -⟩ | ⟨thr, _, -, hthr, -⟩
    · rw [heq]
      exact h.untouched hfree
    · exact (hfree thr hthr).elim
    · exact (hfree thr hthr).elim
  · intro tid u hfree
    rw [hcur] at hfree
    have hzero : (s.threads tid).vc u = 0 := h.thread_zero hfree
    rcases hmove.threads_cases tid with heq | ⟨thr, -, hthr, heq⟩ | ⟨_, _, -, -, heq⟩
    · rw [heq, hzero]
    · have hne : u ≠ tid := by
        rintro rfl
        exact hfree thr hthr
      rw [heq]
      exact (tsanVcInc_of_ne _ hne).trans hzero
    · rw [heq]
      exact tsanVcJoin_zero hzero (h.mutex_zero hfree)
  · intro idx u hfree
    rw [hcur] at hfree
    rcases hmove.mutexes_cases idx with heq | heq | ⟨thr, tid, hthr, heq⟩
    · rw [heq]
      exact h.mutex_zero hfree
    · rw [heq]
      rfl
    · have hne : u ≠ tid := by
        rintro rfl
        exact hfree thr hthr
      rw [heq, tsanVcInc_of_ne _ hne]
      exact h.thread_zero hfree

theorem tsanRun_threadsOk (h : tsanRun history = .ok s) : TsanThreadsOk s := by
  refine tsanRun_induction (P := fun _ s => TsanThreadsOk s) tsanThreadsOk_initial ?_ h
  intro c history s s' _ hs hcall
  obtain ⟨s₁, henters, hmove⟩ := tsanStep_cases hcall
  exact (hs.enters henters).move hmove

/-! ### Enough identifiers -/

theorem tsanRun_registered (h : tsanRun history = .ok s) :
    ∃ registered : Finset Thr, registered ⊆ (history.filterMap TsanCall.thread?).toFinset ∧
      (∀ thr, thr ∈ registered ↔ s.currentTid thr ≠ none) ∧
      registered.card = s.threadCount := by
  refine tsanRun_induction (P := fun history s => ∃ registered : Finset Thr,
    registered ⊆ (history.filterMap TsanCall.thread?).toFinset ∧
      (∀ thr, thr ∈ registered ↔ s.currentTid thr ≠ none) ∧
      registered.card = s.threadCount) ?_ ?_ h
  · refine ⟨∅, Finset.empty_subset _, fun thr => ?_, rfl⟩
    simp [TsanState.initial]
  · rintro c history s s' - ⟨registered, hsub, hmem, hcard⟩ hcall
    obtain ⟨s₁, henters, hmove⟩ := tsanStep_cases hcall
    rw [hmove.currentTid_eq, hmove.threadCount_eq]
    have hgrow : (history.filterMap TsanCall.thread?).toFinset
        ⊆ ((c :: history).filterMap TsanCall.thread?).toFinset := by
      intro thr hthr
      rw [List.mem_toFinset] at hthr ⊢
      exact (List.Sublist.filterMap _ (List.sublist_cons_self c history)).subset hthr
    rcases henters with ⟨-, rfl⟩ | ⟨thr, tid, hthread, hentered⟩
    · exact ⟨registered, hsub.trans hgrow, hmem, hcard⟩
    · cases hentered with
      | known => exact ⟨registered, hsub.trans hgrow, hmem, hcard⟩
      | fresh hnone htid =>
          have hnew : thr ∉ registered := by
            rw [hmem]
            exact not_not.mpr hnone
          refine ⟨insert thr registered, ?_, fun thr' => ?_, ?_⟩
          · refine Finset.insert_subset ?_ (hsub.trans hgrow)
            rw [List.mem_toFinset, List.filterMap_cons_some hthread]
            exact List.mem_cons_self ..
          · by_cases hthr : thr' = thr
            · subst hthr
              simp
            · rw [TsanState.register_currentTid_of_ne hthr, Finset.mem_insert, hmem]
              simp [hthr]
          · rw [Finset.card_insert_of_notMem hnew, hcard]
            rfl

/-- Among at most 63 threads, every one that calls can get an identifier. -/
theorem threadCount_lt (hfit : ThreadsFit (c :: history)) (h : tsanRun history = .ok s)
    {thr : Thr} (hthread : c.thread? = some thr) (hnone : s.currentTid thr = none) :
    s.threadCount < 63 := by
  obtain ⟨registered, hsub, hmem, hcard⟩ := tsanRun_registered h
  have hnew : thr ∉ registered := by
    rw [hmem]
    exact not_not.mpr hnone
  calc
    s.threadCount + 1 = (insert thr registered).card := by
      rw [Finset.card_insert_of_notMem hnew, hcard]
    _ ≤ ((c :: history).filterMap TsanCall.thread?).toFinset.card := by
      apply Finset.card_le_card
      rw [List.filterMap_cons_some hthread, List.toFinset_cons]
      exact Finset.insert_subset_insert thr hsub
    _ ≤ 63 := hfit

theorem ThreadsFit.tail (hfit : ThreadsFit (c :: history)) : ThreadsFit history := by
  refine le_trans (Finset.card_le_card fun thr hthr => ?_) hfit
  rw [List.mem_toFinset] at hthr ⊢
  exact (List.Sublist.filterMap _ (List.sublist_cons_self c history)).subset hthr

theorem ThreadsFit.suffix {before : List (TsanCall Thr)} (hfit : ThreadsFit history)
    (hsuffix : before <:+ history) : ThreadsFit before := by
  induction history with
  | nil =>
      rw [List.suffix_nil.mp hsuffix]
      exact hfit
  | cons c history ih =>
      rcases List.suffix_cons_iff.mp hsuffix with rfl | htail
      · exact hfit
      · exact ih hfit.tail htail

theorem exists_tsanEntered (hfit : ThreadsFit (c :: history)) (h : tsanRun history = .ok s)
    {thr : Thr} (hthread : c.thread? = some thr) : ∃ tid s₁, TsanEntered s thr tid s₁ := by
  cases htid : s.currentTid thr with
  | some tid => exact ⟨tid, s, .known htid⟩
  | none =>
      have hlt := threadCount_lt hfit h hthread htid
      exact ⟨⟨s.threadCount + 1, by omega⟩, _, .fresh htid rfl⟩

end Misan
