import Misan.Proof.TsanReports

/-!
# The verdict and the recorded clock

The clock stored with an access is never consulted. It holds the time of the access, so it would say
whether the accessing thread has been told of the access. The live clocks that are compared instead
go by what has happened since: the recording thread has moved on, or it has learned of the accessing
one.
-/

namespace Misan

open Function

variable {Thr : Type} [DecidableEq Thr] {s s' s₁ : TsanState Thr} {c : TsanCall Thr}
  {history : List (TsanCall Thr)} {thr v : Thr} {tid : Tid} {addr : Addr} {w : Bool}

/-! ### The time of an access -/

section

omit [DecidableEq Thr]

theorem beforeAccess_cons_self (haccess : c.access? = some (thr, addr, w)) :
    beforeAccess addr (c :: history) = history := by
  simp [beforeAccess, haccess]

theorem beforeAccess_cons_of_ne {addr' : Addr} (haccess : c.access? = some (thr, addr', w))
    (hne : addr' ≠ addr) : beforeAccess addr (c :: history) = beforeAccess addr history := by
  simp [beforeAccess, haccess, hne]

theorem beforeAccess_cons_of_none (haccess : c.access? = none) :
    beforeAccess addr (c :: history) = beforeAccess addr history := by
  simp [beforeAccess, haccess]

theorem beforeAccess_suffix (addr : Addr) (history : List (TsanCall Thr)) :
    beforeAccess addr history <:+ history := by
  induction history with
  | nil => exact List.suffix_refl []
  | cons c history ih =>
      have htail := List.suffix_cons c history
      rw [beforeAccess]
      split
      · split
        · exact htail
        · exact ih.trans htail
      · exact ih.trans htail

end

/-! ### Recorded clocks -/

/-- Every entry holds the time of the latest access to its address. -/
def RecordsTimed (history : List (TsanCall Thr)) (s : TsanState Thr) : Prop :=
  ∀ idx addr, shadowKeys s.shadow idx = some addr → ∃ v, s.currentTid v = some (s.shadow idx).tid ∧
    ((s.shadow idx).vc (s.shadow idx).tid).toNat
      = (tsanKnowledge (beforeAccess addr history)).time v + 1

theorem RecordsTimed.enters (h : RecordsTimed history s) (henters : TsanEnters s c s₁) :
    RecordsTimed history s₁ := by
  intro idx addr hkey
  rw [henters.shadow] at hkey ⊢
  obtain ⟨v, hv, htime⟩ := h idx addr hkey
  exact ⟨v, henters.currentTid_mono hv, htime⟩

theorem RecordsTimed.recorded (h : RecordsTimed history s)
    (hplaced : Placed tsanShadowHash (shadowKeys s.shadow))
    (hclocks : (tsanClocks s).Represents (tsanKnowledge history))
    (haccess : c.access? = some (thr, addr, w)) (htid : s.currentTid thr = some tid)
    {slot : Fin 65536} (hslot : shadowSlot s.shadow addr = some slot) :
    RecordsTimed (c :: history) (s.recorded addr slot tid w) := by
  intro idx addr' hkey
  rw [shadowKeys_recorded] at hkey
  by_cases hidx : idx = slot
  · subst hidx
    rw [update_self] at hkey
    cases hkey
    rw [TsanState.recorded_shadow_self, beforeAccess_cons_self haccess]
    refine ⟨thr, htid, ?_⟩
    rw [← hclocks.own, tsanClocks_clock htid htid]
  · rw [update_of_ne hidx] at hkey
    -- the key of another slot is not the address accessed
    have hne : addr ≠ addr' := by
      rintro rfl
      exact hidx (Option.some.inj ((hplaced idx addr hkey).symm.trans hslot))
    rw [TsanState.recorded_shadow_of_ne hidx, beforeAccess_cons_of_ne haccess hne]
    exact h idx addr' hkey

theorem RecordsTimed.move (h : RecordsTimed history s)
    (hplaced : Placed tsanShadowHash (shadowKeys s.shadow))
    (hclocks : (tsanClocks s).Represents (tsanKnowledge history)) (hmove : TsanMove s c s') :
    RecordsTimed (c :: history) s' := by
  cases haccess : c.access? with
  | none =>
      intro idx addr hkey
      rw [hmove.shadow_eq haccess] at hkey ⊢
      rw [beforeAccess_cons_of_none haccess, hmove.currentTid_eq]
      exact h idx addr hkey
  | some a =>
      obtain ⟨thr, addr, w⟩ := a
      cases hmove with
      | created | destroyed | acquired | released => cases haccess
      | recorded haccess' htid hslot _ => exact h.recorded hplaced hclocks haccess' htid hslot
      | idle hidle =>
          intro idx addr' hkey
          have hslot := shadowSlot_of_idle haccess hidle
          have hne : addr ≠ addr' := by
            rintro rfl
            cases hslot.symm.trans (hplaced idx addr hkey)
          rw [beforeAccess_cons_of_ne haccess hne]
          exact h idx addr' hkey

theorem tsanRun_recordsTimed (hfit : ClocksFit history) (h : tsanRun history = .ok s) :
    RecordsTimed history s := by
  refine tsanRun_induction (P := fun history s => ClocksFit history → RecordsTimed history s)
    ?_ ?_ h hfit
  · intro _ idx addr hkey
    cases hkey
  · intro c history s s' hs ih hcall hfit
    obtain ⟨s₁, henters, hmove⟩ := tsanStep_cases hcall
    have hclocks := tsanRun_represents hfit.tail hs
    rw [← henters.tsanClocks_eq (tsanRun_threadsOk hs)] at hclocks
    exact ((ih hfit.tail).enters henters).move ((tsanRun_shadowTracks hs).enters henters).placed
      hclocks hmove

/-! ### The verdict -/

/-- `thr` has been told of the latest access to `addr`, which `v` made: it knows a release that `v`
made after it, or at most one tick ahead of it. -/
def ToldOf (history : List (TsanCall Thr)) (thr v : Thr) (addr : Addr) : Prop :=
  ∃ n, (v, n) ∈ (tsanKnowledge history).known thr ∧
    (tsanKnowledge (beforeAccess addr history)).time v ≤ n + 1

/-- What has happened since the latest access to `addr` leaves the verdict of `thr` on it alone.
Where `thr` has been told of the access, at most one tick of the thread that made it has followed
the latest release `thr` knows of, or that thread has learned of `thr`. Where it has not, that
thread has not learned of `thr`. -/
def VerdictStands (history : List (TsanCall Thr)) (thr : Thr) (addr : Addr) : Prop :=
  ∃ v w, lastAccess addr history = some (v, w) ∧
    (ToldOf history thr v addr →
      (tsanKnowledge history).UpToDate thr v ∨ (tsanKnowledge history).UpToDate v thr) ∧
    (¬ ToldOf history thr v addr → ¬ (tsanKnowledge history).UpToDate v thr)

/-- A thread that is up to date has been told of everything. -/
theorem toldOf_of_upToDate (h : (tsanKnowledge history).UpToDate thr v) (addr : Addr) :
    ToldOf history thr v addr := by
  obtain ⟨n, hn, hle⟩ := h
  exact ⟨n, hn, (tsanKnowledge_time_mono (beforeAccess_suffix addr history) v).trans hle⟩

/-- **The verdict, exactly.** In a reachable state, an access that conflicts with the recorded
access of another thread is reported if and only if that access is unknown to it, exactly if the
verdict stands. -/
theorem tsan_verdict_iff (hfit : ClocksFit history) (h : tsanRun history = .ok s)
    (hget : tsanGetTid s thr = .ok (tid, s₁)) (size : Addr) {idx : Fin 65536}
    (hslot : shadowSlot s₁.shadow addr = some idx) (hactive : (s₁.shadow idx).active = true)
    (hother : (s₁.shadow idx).tid ≠ tid) (hconflict : (w || (s₁.shadow idx).isWrite) = true) :
    ((∃ r, tsanAccess s thr addr size w = .error (.race r)) ↔
        (s₁.shadow idx).vc (s₁.shadow idx).tid > (s₁.threads tid).vc (s₁.shadow idx).tid) ↔
      VerdictStands history thr addr := by
  have hentered := tsanGetTid_ok_iff.mp hget
  have henters : TsanEnters s (.init thr) s₁ := Or.inr ⟨thr, tid, rfl, hentered⟩
  have hs := (tsanRun_threadsOk h).enters henters
  have htracks := (tsanRun_shadowTracks h).enters henters
  have hclocks := tsanRun_represents hfit h
  rw [← henters.tsanClocks_eq (tsanRun_threadsOk h)] at hclocks
  have hkey : shadowKeys s₁.shadow idx = some addr := by
    rcases htracks.placed.probe_cases hslot with hkey | ⟨hhole, -⟩
    · exact hkey
    · rw [shadowKeys, if_pos hactive] at hhole
      cases hhole
  obtain ⟨v, hlast, hv⟩ := htracks.entry hkey
  have hne : v ≠ thr := by
    rintro rfl
    exact hother (Option.some.inj (hv.symm.trans hentered.currentTid))
  have hreport : (∃ r, tsanAccess s thr addr size w = .error (.race r)) ↔
      ¬ (tsanKnowledge history).UpToDate thr v ∧ ¬ (tsanKnowledge history).UpToDate v thr := by
    have hraces : s₁.Races idx tid w ↔ _ := races_iff hs hclocks hentered.currentTid hv
    rw [and_iff_right hne, and_iff_right hconflict] at hraces
    rw [← hraces, tsanAccess_eq hentered, hslot]
    by_cases hrace : s₁.Races idx tid w <;> simp [hrace]
  have hunknown : (s₁.shadow idx).vc (s₁.shadow idx).tid
      > (s₁.threads tid).vc (s₁.shadow idx).tid ↔ ¬ ToldOf history thr v addr := by
    obtain ⟨v', hv', htime⟩ := (tsanRun_recordsTimed hfit h).enters henters idx addr hkey
    cases hs.inj hv' hv
    rw [ToldOf, ← (hclocks.clock hne).succ_le_iff, ← htime,
      tsanClocks_clock hentered.currentTid hv, not_le]
    exact BitVec.lt_def
  have hstands : VerdictStands history thr addr ↔
      (ToldOf history thr v addr →
        (tsanKnowledge history).UpToDate thr v ∨ (tsanKnowledge history).UpToDate v thr) ∧
      (¬ ToldOf history thr v addr → ¬ (tsanKnowledge history).UpToDate v thr) := by
    constructor
    · rintro ⟨v', w', hlast', hrest⟩
      cases hlast.symm.trans hlast'
      exact hrest
    · intro hrest
      exact ⟨v, _, hlast, hrest⟩
  rw [hreport, hunknown, hstands]
  by_cases htold : ToldOf history thr v addr
  · -- the access is known, so there must be no report
    simp only [htold, not_true_eq_false, iff_false, not_and_or, not_not, true_imp_iff,
      false_imp_iff, and_true]
  · have hbehind : ¬ (tsanKnowledge history).UpToDate thr v :=
      fun hup => htold (toldOf_of_upToDate hup addr)
    simp only [htold, hbehind, not_false_eq_true, iff_true, true_and, true_imp_iff,
      false_imp_iff]

def writeHandedOver : List (TsanCall Bool) :=
  [.postLock true 0x2000 0, .postUnlock false 0x2000 0, .access false 0x1000 8 true,
    .mutexCreate 0x2000]

theorem tsan_verdict_handedOver :
    ∃ s, tsanRun writeHandedOver = .ok s ∧
      (((∃ r, tsanAccess s true 0x1000 8 true = .error (.race r)) ↔
        (s.shadow 0x1010).vc (s.shadow 0x1010).tid > (s.threads 2).vc (s.shadow 0x1010).tid) ↔
      VerdictStands writeHandedOver true 0x1000) := by
  obtain ⟨s, hs, htid, hslot, hactive, hother⟩ : ∃ s, tsanRun writeHandedOver = .ok s ∧
      s.currentTid true = some 2 ∧ shadowSlot s.shadow 0x1000 = some 0x1010 ∧
      (s.shadow 0x1010).active = true ∧ (s.shadow 0x1010).tid ≠ 2 :=
    exists_tsanRun_ok (by decide +kernel)
  exact ⟨s, hs, tsan_verdict_iff (clocksFit_of_length (by decide)) hs
    (tsanGetTid_ok_iff.mpr (.known htid)) 8 hslot hactive hother rfl⟩

def writeHandedOverMovedOn : List (TsanCall Bool) :=
  .access false 0x3000 8 true :: .access false 0x3000 8 true :: writeHandedOver

/-- After the handover the other thread knows of the write, and after two more accesses of the
recording thread its own write is reported all the same. -/
theorem tsan_verdict_movedOn :
    ¬ ∀ (history : List (TsanCall Bool)) (s : TsanState Bool) (thr : Bool) (tid : Tid)
      (addr size : Addr) (w : Bool) (idx : Fin 65536), tsanRun history = .ok s →
      tsanGetTid s thr = .ok (tid, s) → shadowSlot s.shadow addr = some idx →
      (s.shadow idx).active = true → (s.shadow idx).tid ≠ tid →
      (w || (s.shadow idx).isWrite) = true →
      ((∃ r, tsanAccess s thr addr size w = .error (.race r)) ↔
        (s.shadow idx).vc (s.shadow idx).tid > (s.threads tid).vc (s.shadow idx).tid) := by
  intro hclaim
  obtain ⟨s, hs, htid, hslot, hactive, hother, hknown, hraces⟩ :
      ∃ s, tsanRun writeHandedOverMovedOn = .ok s ∧ s.currentTid true = some 2 ∧
      shadowSlot s.shadow 0x1000 = some 0x1010 ∧ (s.shadow 0x1010).active = true ∧
      (s.shadow 0x1010).tid = 1 ∧ ¬ (s.shadow 0x1010).vc 1 > (s.threads 2).vc 1 ∧
      s.Races 0x1010 2 true := exists_tsanRun_ok (by decide +kernel)
  have hentered : TsanEntered s true 2 s := .known htid
  have hreport : ∃ r, tsanAccess s true 0x1000 8 true = .error (.race r) := by
    rw [tsanAccess_eq hentered, hslot]
    exact ⟨_, if_pos hraces⟩
  have hunknown := (hclaim _ s true 2 0x1000 8 true 0x1010 hs (tsanGetTid_ok_iff.mpr hentered)
    hslot hactive (by rw [hother]; decide) rfl).mp hreport
  rw [hother] at hunknown
  exact hknown hunknown

end Misan
