import Misan.Proof.TsanClocks

/-!
# Who is ahead of whom

No clock should know more of a thread than the thread's own clock. A release puts the mutex one step
ahead of the thread, so this fails right after it, and holds throughout a run only without one.
-/

namespace Misan

open Function

variable {Thr : Type} [DecidableEq Thr] {s s' : TsanState Thr} {c : TsanCall Thr}
  {history : List (TsanCall Thr)} {thr : Thr} {t u : Tid}

def ClocksOwned (s : TsanState Thr) : Prop :=
  ∀ t, (s.threads t).active = true →
    (∀ u, (s.threads u).vc t ≤ (s.threads t).vc t) ∧
      ∀ idx, (s.mutexes idx).active = true → (s.mutexes idx).vc t ≤ (s.threads t).vc t

omit [DecidableEq Thr] in
theorem TsanThreadsOk.exists_of_active (hs : TsanThreadsOk s)
    (hactive : (s.threads t).active = true) : ∃ thr, s.currentTid thr = some t := by
  by_contra hnone
  rw [hs.untouched (not_exists.mp hnone)] at hactive
  cases hactive

/-- **Ownership, state by state**: it fails where a thread's last step is a release somebody knows
of. -/
theorem clocksOwned_iff (hs : TsanThreadsOk s) {k : Knowledge Thr (Fin 1024)}
    (hclocks : (tsanClocks s).Represents k) :
    ClocksOwned s ↔ ∀ thr t, s.currentTid thr = some t →
      (∀ v u, s.currentTid v = some u → v ≠ thr → (thr, k.time thr) ∉ k.known v) ∧
        ∀ idx, (s.mutexes idx).active = true → (thr, k.time thr) ∉ k.stored idx := by
  have hown : ∀ {thr t}, s.currentTid thr = some t →
      ((s.threads t).vc t).toNat = k.time thr + 1 := fun hthr =>
    (tsanClocks_clock hthr hthr).symm.trans (hclocks.own _)
  have hthread : ∀ {thr t v u}, s.currentTid thr = some t → s.currentTid v = some u → v ≠ thr →
      ((s.threads u).vc t ≤ (s.threads t).vc t ↔ (thr, k.time thr) ∉ k.known v) := by
    intro thr t v u hthr hv hne
    rw [BitVec.le_def, hown hthr, ← tsanClocks_clock hv hthr]
    exact (hclocks.clock (Ne.symm hne)).le_succ_iff hclocks.bounded.known_le
  have hmutex : ∀ {thr t idx}, s.currentTid thr = some t →
      ((s.mutexes idx).vc t ≤ (s.threads t).vc t ↔ (thr, k.time thr) ∉ k.stored idx) := by
    intro thr t idx hthr
    rw [BitVec.le_def, hown hthr, ← tsanClocks_cell hthr]
    exact (hclocks.cell idx thr).le_succ_iff hclocks.bounded.stored_le
  constructor
  · intro howned thr t hthr
    obtain ⟨hthreads, hmutexes⟩ := howned t (hs.active hthr)
    exact ⟨fun v u hv hne => (hthread hthr hv hne).mp (hthreads u),
      fun idx hidx => (hmutex hthr).mp (hmutexes idx hidx)⟩
  · intro hsettled t hactive
    obtain ⟨thr, hthr⟩ := hs.exists_of_active hactive
    obtain ⟨hknown, hstored⟩ := hsettled thr t hthr
    refine ⟨fun u => ?_, fun idx hidx => (hmutex hthr).mpr (hstored idx hidx)⟩
    by_cases hu : ∃ v, s.currentTid v = some u
    · obtain ⟨v, hv⟩ := hu
      by_cases hne : v = thr
      · subst hne
        cases hv.symm.trans hthr
        exact BitVec.le_refl _
      · exact (hthread hthr hv hne).mpr (hknown v u hv hne)
    · rw [hs.untouched (not_exists.mp hu)]
      exact BitVec.le_def.mpr (Nat.zero_le _)

/-- The call is a `post_unlock` that returns and has found its mutex. -/
def Releases (c : TsanCall Thr) (before : List (TsanCall Thr)) : Prop :=
  ∃ thr addr rw s s', c = .postUnlock thr addr rw ∧ tsanRun before = .ok s ∧
    tsanStep s c = .ok s' ∧ (tsanMutexFind s.mutexes addr false).isSome = true

theorem not_clocksOwned_of_releases (hfit : ClocksFit (c :: history)) (h : Releases c history) :
    ∃ s', tsanRun (c :: history) = .ok s' ∧ ¬ ClocksOwned s' := by
  obtain ⟨thr, addr, rw, s, s', rfl, hs, hcall, hfound⟩ := h
  have hs' : tsanRun (.postUnlock thr addr rw :: history) = .ok s' :=
    tsanRun_cons_ok.mpr ⟨s, hs, hcall⟩
  refine ⟨s', hs', fun howned => ?_⟩
  have hrepresents := tsanRun_represents hfit hs'
  rw [clocksOwned_iff (tsanRun_threadsOk hs') hrepresents] at howned
  rw [tsanMutexFind_false_eq, Option.isSome_map] at hfound
  obtain ⟨idx, hslot⟩ := Option.isSome_iff_exists.mp hfound
  obtain ⟨s₁, henters, hmove⟩ := tsanStep_cases hcall
  rw [← henters.mutexes] at hslot
  cases hmove with
  | idle hidle =>
      rw [tsanAct_postUnlock, hslot] at hidle
      cases hidle
  | recorded haccess => cases haccess
  | @released _ _ _ tid _ htid hslot' =>
      cases hslot.symm.trans hslot'
      have hactive : ((s₁.release s₁.mutexes idx tid).mutexes idx).active = true := by
        rw [TsanState.release_mutexes_self]
        exact (mutexSlot_spec hslot).1
      refine (howned thr tid htid).2 idx hactive ?_
      rw [tsanKnowledge_cons hs, ← henters.tsanAct_eq, tsanAct_postUnlock, hslot]
      simp only [Knowledge.step]
      rw [update_self]
      exact Set.mem_insert _ _

theorem tsanKnowledge_unaware (h : tsanRun history = .ok s)
    (hnone : Along (fun c before => ¬ Releases c before) history) :
    (tsanKnowledge history).Unaware := by
  refine tsanRun_induction (P := fun history _ =>
    Along (fun c before => ¬ Releases c before) history → (tsanKnowledge history).Unaware)
    (fun _ => Knowledge.unaware_initial) ?_ h hnone
  intro c history s s' hs ih hcall hnone
  rw [tsanKnowledge_cons hs]
  refine (ih hnone.tail).step fun thr idx hact => hnone.head ?_
  obtain ⟨addr, rw, rfl, hslot⟩ := tsanAct_eq_release hact
  exact ⟨thr, addr, rw, s, s', rfl, hs, hcall, by rw [tsanMutexFind_false_eq, hslot]; rfl⟩

/-- **Ownership, run by run**: it holds in every state of a run exactly if the run releases no
mutex. -/
theorem tsan_clocksOwned_iff (hfit : ClocksFit history) :
    (∀ before, before <:+ history → ∀ s, tsanRun before = .ok s → ClocksOwned s) ↔
      Along (fun c before => ¬ Releases c before) history := by
  constructor
  · intro howned c before hsuffix hreleases
    have hfit' : ClocksFit (c :: before) := fun d b hb => hfit d b (hb.trans hsuffix)
    obtain ⟨s', hs', hnot⟩ := not_clocksOwned_of_releases hfit' hreleases
    exact hnot (howned _ hsuffix s' hs')
  · intro hnone before hsuffix s hs
    have hfit' : ClocksFit before := fun d b hb => hfit d b (hb.trans hsuffix)
    obtain ⟨hknown, hstored⟩ :=
      tsanKnowledge_unaware hs fun d b hb => hnone d b (hb.trans hsuffix)
    rw [clocksOwned_iff (tsanRun_threadsOk hs) (tsanRun_represents hfit' hs)]
    intro thr t _
    refine ⟨fun v u _ _ => ?_, fun idx _ => ?_⟩
    · rw [hknown]
      exact Set.notMem_empty _
    · rw [hstored]
      exact Set.notMem_empty _

/-- Two threads access memory, one of them locks a mutex and unlocks one the table does not
hold. -/
def lockHeld : List (TsanCall Bool) :=
  [.postUnlock true 0x3000 0, .postLock true 0x2000 0, .preLock true 0x2000 0,
    .access true 0x1008 8 true, .access false 0x1000 8 true, .mutexCreate 0x2000]

theorem tsan_clocksOwned_lockHeld :
    ∃ s, tsanRun lockHeld = .ok s ∧ (s.mutexes 0).active = true ∧ ClocksOwned s := by
  obtain ⟨s, hs, hactive⟩ : ∃ s, tsanRun lockHeld = .ok s ∧ (s.mutexes 0).active = true :=
    exists_tsanRun_ok (by decide +kernel)
  refine ⟨s, hs, hactive, (tsan_clocksOwned_iff (clocksFit_of_length (by decide))).mpr ?_ _
    (List.suffix_refl _) s hs⟩
  intro c before hsuffix
  rintro ⟨thr, addr, rw, s₁, s', rfl, hs₁, -, hfound⟩
  -- nothing before is an unlock
  cases eq_of_suffix_of_notMem hsuffix (by simp [lockHeld])
  obtain ⟨s₀, hs₀, hmissed⟩ : ∃ s, tsanRun lockHeld.tail = .ok s ∧
      (tsanMutexFind s.mutexes 0x3000 false).isSome = false :=
    exists_tsanRun_ok (by decide +kernel)
  cases hs₁.symm.trans hs₀
  rw [hmissed] at hfound
  cases hfound

/-- A single lock section leaves the mutex ahead of its thread. -/
theorem not_clocksOwned_lockSection :
    ¬ ∀ (history : List (TsanCall Bool)) (s : TsanState Bool), tsanRun history = .ok s →
      ClocksOwned s := by
  intro hclaim
  let lockSection : List (TsanCall Bool) := [.postUnlock true 0x1000 0, .preUnlock true 0x1000 0,
    .postLock true 0x1000 0, .preLock true 0x1000 0, .mutexCreate 0x1000]
  obtain ⟨s, hs, hthread, hmutex, hahead⟩ : ∃ s, tsanRun lockSection = .ok s ∧
      (s.threads 1).active = true ∧ (s.mutexes 512).active = true ∧
      ¬ (s.mutexes 512).vc 1 ≤ (s.threads 1).vc 1 := exists_tsanRun_ok (by decide +kernel)
  exact hahead ((hclaim lockSection s hs 1 hthread).2 512 hmutex)

end Misan
