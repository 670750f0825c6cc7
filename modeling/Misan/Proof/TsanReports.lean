import Misan.Proof.TsanHappensBefore
import Misan.Proof.TsanShadowTable
import Mathlib.Tactic.IntervalCases

/-!
# When an access is reported

The verdict of `tsan_access` in terms of the history: an access is reported if and only if the
latest access to its address was made by another thread, one of the two writes, and neither thread
is up to date with the other. Both directions of the claim that the reports are the races follow,
each exactly where it holds.
-/

namespace Misan

open Function

variable {Thr : Type} [DecidableEq Thr] {s s' s₁ : TsanState Thr} {c : TsanCall Thr}
  {history : List (TsanCall Thr)} {thr thr' v : Thr} {tid tid' : Tid} {addr : Addr} {w w' : Bool}

/-- The latest access before `c` conflicts with it and was made by another thread, and neither
thread is up to date with the other. -/
def Exposed (c : TsanCall Thr) (before : List (TsanCall Thr)) : Prop :=
  ∃ thr addr w thr' w', c.access? = some (thr, addr, w) ∧
    lastAccess addr before = some (thr', w') ∧ thr' ≠ thr ∧ (w || w') = true ∧
    ¬ (tsanKnowledge before).UpToDate thr thr' ∧ ¬ (tsanKnowledge before).UpToDate thr' thr

omit [DecidableEq Thr] in
theorem not_races_hole (hs : TsanThreadsOk s) {idx : Fin 65536} (htid : (s.shadow idx).tid = 0) :
    ¬ s.Races idx tid w := by
  rintro ⟨-, -, hahead, -⟩
  rw [htid, hs.untouched hs.zero_unassigned] at hahead
  exact hahead (BitVec.le_def.mpr (Nat.zero_le _))

/-! ### Reports, by clocks -/

/-- A report names a conflicting latest access by a thread that knows nothing of this one, nor this
one of it. -/
theorem exists_uncovered_of_race (hs : tsanRun history = .ok s) {r : TsanRace}
    (hr : tsanStep s c = .error (.race r)) :
    ∃ thr w thr' w' tid s₁ tid', c.access? = some (thr, r.addr, w) ∧
      lastAccess r.addr history = some (thr', w') ∧ thr' ≠ thr ∧ (w || w') = true ∧
      tsanGetTid s thr = .ok (tid, s₁) ∧ s₁.currentTid thr' = some tid' ∧
      ¬ (s₁.threads tid').vc tid' ≤ (s₁.threads tid).vc tid' ∧
      ¬ (s₁.threads tid).vc tid ≤ (s₁.threads tid').vc tid := by
  rcases tsanStep_error hr with ⟨heq, -⟩ | ⟨thr, addr, w, tid, s₁, idx, haccess, hentered, hslot,
    hraces, heq⟩
  · cases heq
  cases heq
  have henters : TsanEnters s c s₁ := Or.inr ⟨thr, tid, (tsanStep_access s haccess).1, hentered⟩
  have hok := (tsanRun_threadsOk hs).enters henters
  have htracks := (tsanRun_shadowTracks hs).enters henters
  rcases htracks.placed.probe_cases hslot with hkey | ⟨hhole, -⟩
  · obtain ⟨thr', hlast, hthr'⟩ := htracks.entry hkey
    obtain ⟨hother, hconflict, hforward, hbackward⟩ := hraces
    refine ⟨thr, w, thr', _, tid, s₁, _, haccess, hlast, ?_, hconflict,
      tsanGetTid_ok_iff.mpr hentered, hthr', hforward, hbackward⟩
    rintro rfl
    exact hother (Option.some.inj (hthr'.symm.trans hentered.currentTid))
  · exact absurd hraces (not_races_hole hok (htracks.hole hhole))

/-! ### Reports, by knowledge -/

/-- A thread's own component, moved on by `i`, is covered by the clock of another thread if and only
if that thread would still be up to date with it. -/
theorem own_add_le_vc_iff (hclocks : (tsanClocks s).Represents (tsanKnowledge history))
    (hne : v ≠ thr) (hv : s.currentTid v = some tid') (hthr : s.currentTid thr = some tid) {i : Nat}
    (hroom : (tsanKnowledge history).time v + i + 1 < 2 ^ 64) :
    (s.threads tid').vc tid' + BitVec.ofNat 64 i ≤ (s.threads tid).vc tid' ↔
      (tsanKnowledge history).UpToDateAfter i thr v := by
  have hown := hclocks.own v
  rw [tsanClocks_clock hv hv] at hown
  rw [← hclocks.own_add_le_iff hne, tsanClocks_clock hv hv, tsanClocks_clock hthr hv,
    BitVec.le_def, BitVec.toNat_add, BitVec.toNat_ofNat, Nat.mod_eq_of_lt (by omega : i < 2 ^ 64),
    Nat.mod_eq_of_lt (by omega)]

theorem own_le_vc_iff (hclocks : (tsanClocks s).Represents (tsanKnowledge history))
    (hne : v ≠ thr) (hv : s.currentTid v = some tid') (hthr : s.currentTid thr = some tid) :
    (s.threads tid').vc tid' ≤ (s.threads tid).vc tid' ↔
      (tsanKnowledge history).UpToDate thr v := by
  rw [← hclocks.own_le_iff hne, tsanClocks_clock hv hv, tsanClocks_clock hthr hv]
  exact BitVec.le_def

theorem races_iff (hs : TsanThreadsOk s) (hclocks : (tsanClocks s).Represents
    (tsanKnowledge history)) (hthr : s.currentTid thr = some tid) {idx : Fin 65536}
    (hv : s.currentTid v = some (s.shadow idx).tid) :
    s.Races idx tid w ↔ v ≠ thr ∧ (w || (s.shadow idx).isWrite) = true ∧
      ¬ (tsanKnowledge history).UpToDate thr v ∧ ¬ (tsanKnowledge history).UpToDate v thr := by
  by_cases hne : v = thr
  · subst hne
    rw [TsanState.Races, Option.some.inj (hv.symm.trans hthr)]
    simp
  · have htids : (s.shadow idx).tid ≠ tid := by
      intro heq
      exact hne (hs.inj (hv.trans (congrArg some heq)) hthr)
    rw [TsanState.Races, own_le_vc_iff hclocks hne hv hthr,
      own_le_vc_iff hclocks (Ne.symm hne) hthr hv]
    simp [htids, hne]

theorem exposed_iff (haccess : c.access? = some (thr, addr, w)) :
    Exposed c history ↔ ∃ thr' w', lastAccess addr history = some (thr', w') ∧ thr' ≠ thr ∧
      (w || w') = true ∧ ¬ (tsanKnowledge history).UpToDate thr thr' ∧
      ¬ (tsanKnowledge history).UpToDate thr' thr := by
  constructor
  · rintro ⟨thr₀, addr₀, w₀, thr', w', haccess₀, hrest⟩
    cases haccess.symm.trans haccess₀
    exact ⟨thr', w', hrest⟩
  · rintro ⟨thr', w', hrest⟩
    exact ⟨thr, addr, w, thr', w', haccess, hrest⟩

/-- The entry an access finds names the latest access, and a hole races with nothing. -/
theorem races_iff_exposed (hs : TsanThreadsOk s) (htracks : ShadowTracks history s)
    (hclocks : (tsanClocks s).Represents (tsanKnowledge history))
    (haccess : c.access? = some (thr, addr, w)) (hthr : s.currentTid thr = some tid)
    {idx : Fin 65536} (hslot : shadowSlot s.shadow addr = some idx) :
    s.Races idx tid w ↔ Exposed c history ∧ ∃ idx, shadowKeys s.shadow idx = some addr := by
  rw [exposed_iff haccess]
  rcases htracks.placed.probe_cases hslot with hkey | ⟨hhole, habsent⟩
  · obtain ⟨v, hlast, hv⟩ := htracks.entry hkey
    have hentry : ∃ idx, shadowKeys s.shadow idx = some addr := ⟨idx, hkey⟩
    rw [races_iff hs hclocks hthr hv, and_iff_left hentry]
    constructor
    · intro hraces
      exact ⟨v, _, hlast, hraces⟩
    · rintro ⟨v', w', hlast', hrest⟩
      cases hlast.symm.trans hlast'
      exact hrest
  · refine iff_of_false (not_races_hole hs (htracks.hole hhole)) ?_
    rintro ⟨-, idx', hkey⟩
    exact habsent idx' hkey

/-- **Reports, by history.** An access is reported if and only if it is exposed and its address was
accessed before while the table had room. -/
theorem tsanStep_race_iff_shadowed (hthreads : ThreadsFit (c :: history))
    (hclocks : ClocksFit history) (h : tsanRun history = .ok s)
    (haccess : c.access? = some (thr, addr, w)) :
    (∃ r, tsanStep s c = .error (.race r)) ↔ Exposed c history ∧ Shadowed addr history := by
  have hthread := (tsanStep_access s haccess).1
  obtain ⟨tid, s₁, hentered⟩ := exists_tsanEntered hthreads h hthread
  have henters : TsanEnters s c s₁ := Or.inr ⟨thr, tid, hthread, hentered⟩
  have hs := tsanRun_threadsOk h
  have htracks := (tsanRun_shadowTracks h).enters henters
  have hrepresents := tsanRun_represents hclocks h
  rw [← henters.tsanClocks_eq hs] at hrepresents
  rw [tsanStep_race_iff haccess hentered, ← exists_key_iff_shadowed h, ← henters.shadow]
  constructor
  · rintro ⟨idx, hslot, hraces⟩
    exact (races_iff_exposed (hs.enters henters) htracks hrepresents haccess hentered.currentTid
      hslot).mp hraces
  · rintro ⟨hexposed, idx, hkey⟩
    have hslot : shadowSlot s₁.shadow addr = some idx := htracks.placed idx addr hkey
    exact ⟨idx, hslot, (races_iff_exposed (hs.enters henters) htracks hrepresents haccess
      hentered.currentTid hslot).mpr ⟨hexposed, idx, hkey⟩⟩

/-- Where every address has room, the reports are the exposed accesses. -/
theorem tsanStep_race_iff_exposed (hthreads : ThreadsFit (c :: history))
    (hshadow : ShadowFits (c :: history)) (hclocks : ClocksFit (c :: history))
    (h : tsanRun history = .ok s) :
    (∃ r, tsanStep s c = .error (.race r)) ↔ Exposed c history := by
  cases haccess : c.access? with
  | none =>
      refine iff_of_false ?_ ?_
      · rintro ⟨r, hr⟩
        rcases tsanStep_error hr with ⟨heq, -⟩ | ⟨_, _, _, _, _, _, haccess', -⟩
        · cases heq
        · rw [haccess] at haccess'
          cases haccess'
      · rintro ⟨_, _, _, _, _, haccess', -⟩
        rw [haccess] at haccess'
        cases haccess'
  | some a =>
      obtain ⟨thr, addr, w⟩ := a
      rw [tsanStep_race_iff_shadowed hthreads hclocks.tail h haccess]
      refine and_iff_left_of_imp fun hexposed => ?_
      obtain ⟨thr', w', hlast, -⟩ := (exposed_iff haccess).mp hexposed
      exact shadowed_of_lastAccess hshadow.tail hlast

/-! ### Silent runs -/

theorem tsanRun_error_cons {e : TsanHalt} (h : tsanRun history = .error e) :
    tsanRun (c :: history) = .error e := by
  rw [tsanRun_cons, h]
  rfl

theorem tsanRun_ok_of_silent (hthreads : ThreadsFit history)
    (hsilent : ∀ r, tsanRun history ≠ .error (.race r)) : ∃ s, tsanRun history = .ok s := by
  induction history with
  | nil => exact ⟨_, rfl⟩
  | cons c history ih =>
      obtain ⟨s, hs⟩ := ih hthreads.tail fun r hr => hsilent r (tsanRun_error_cons hr)
      cases hcall : tsanStep s c with
      | ok s' => exact ⟨s', tsanRun_cons_ok.mpr ⟨s, hs, hcall⟩⟩
      | error e =>
          have herror : tsanRun (c :: history) = .error e := by
            rw [tsanRun_cons, hs]
            exact hcall
          rcases tsanStep_error hcall with ⟨-, thr, hthread, hnone, hcount⟩ | hrace
          · have := threadCount_lt hthreads hs hthread hnone
            omega
          · obtain ⟨_, _, _, _, _, _, -, -, -, -, rfl⟩ := hrace
            exact (hsilent _ herror).elim

theorem tsanRun_silent_iff (hthreads : ThreadsFit history) (hshadow : ShadowFits history)
    (hclocks : ClocksFit history) :
    (∀ r, tsanRun history ≠ .error (.race r)) ↔
      Along (fun c before => ¬ Exposed c before) history := by
  induction history with
  | nil => exact iff_of_true (fun r h => by cases h) (along_nil _)
  | cons c history ih =>
      have htail := ih hthreads.tail hshadow.tail hclocks.tail
      constructor
      · intro hsilent
        have hsilent' : ∀ r, tsanRun history ≠ .error (.race r) :=
          fun r hr => hsilent r (tsanRun_error_cons hr)
        refine along_cons.mpr ⟨fun hexposed => ?_, htail.mp hsilent'⟩
        obtain ⟨s, hs⟩ := tsanRun_ok_of_silent hthreads.tail hsilent'
        obtain ⟨r, hr⟩ :=
          (tsanStep_race_iff_exposed hthreads hshadow hclocks hs).mpr hexposed
        apply hsilent r
        rw [tsanRun_cons, hs]
        exact hr
      · intro hcovered r hr
        obtain ⟨s, hs⟩ := tsanRun_ok_of_silent hthreads.tail (htail.mpr hcovered.tail)
        rw [tsanRun_cons, hs] at hr
        exact hcovered.head
          ((tsanStep_race_iff_exposed hthreads hshadow hclocks hs).mp ⟨r, hr⟩)

/-! ### Missed races -/

theorem tsanStep_race_addr (haccess : c.access? = some (thr, addr, w)) {r : TsanRace}
    (hr : tsanStep s c = .error (.race r)) : r.addr = addr := by
  rcases tsanStep_error hr with ⟨heq, -⟩ | ⟨_, _, _, _, _, _, haccess', -, -, -, heq⟩
  · cases heq
  · cases haccess.symm.trans haccess'
    cases heq
    rfl

/-- **Missed races.** Every racy access that is made is reported exactly if every racy access that
is made is exposed. -/
theorem tsan_noMissedRace_iff (hthreads : ThreadsFit history) (hshadow : ShadowFits history)
    (hclocks : ClocksFit history) :
    Along (fun c before => ∀ s addr, tsanRun before = .ok s → Racy c before addr →
        ∃ r, tsanStep s c = .error (.race r) ∧ r.addr = addr) history ↔
      Along (fun c before => ∀ s addr, tsanRun before = .ok s → Racy c before addr →
        Exposed c before) history := by
  induction history with
  | nil => exact iff_of_true (along_nil _) (along_nil _)
  | cons c history ih =>
      rw [along_cons, along_cons, ih hthreads.tail hshadow.tail hclocks.tail]
      refine and_congr_left fun _ => forall_congr' fun s => forall_congr' fun addr =>
        forall_congr' fun hs => forall_congr' fun hracy => ?_
      rw [← tsanStep_race_iff_exposed hthreads hshadow hclocks hs]
      constructor
      · rintro ⟨r, hr, -⟩
        exact ⟨r, hr⟩
      · rintro ⟨r, hr⟩
        obtain ⟨thr, w, haccess, -⟩ := hracy
        exact ⟨r, hr, tsanStep_race_addr haccess hr⟩

def firstWrite : TsanCall Bool := .access false 0x1000 8 true

def secondWrite : TsanCall Bool := .access true 0x1000 8 true

/-- Two threads write an address with nothing in between: the second write is racy, and reported. -/
theorem tsan_noMissedRace_twoWrites :
    Racy secondWrite [firstWrite] 0x1000 ∧
      ∃ s r, tsanRun [firstWrite] = .ok s ∧ tsanStep s secondWrite = .error (.race r) ∧
        r.addr = 0x1000 := by
  have hracy : Racy secondWrite [firstWrite] 0x1000 := by
    refine ⟨true, true, rfl, 0, firstWrite, false, true, rfl, rfl, by decide, rfl,
      not_happensBefore_of_last (c := firstWrite) rfl rfl fun k d hk hd => ?_⟩
    have hlt : k < 2 := (List.getElem?_eq_some_iff.mp hd).1
    interval_cases k
    cases hd
    decide
  have hunaware : (tsanKnowledge [firstWrite]).Unaware :=
    tsanKnowledge_unaware_of_no_unlock (by simp [firstWrite])
  have hexposed : Exposed secondWrite [firstWrite] :=
    ⟨true, 0x1000, true, false, true, rfl, rfl, by decide, rfl, hunaware.not_upToDate _ _,
      hunaware.not_upToDate _ _⟩
  obtain ⟨s, hs, -⟩ : ∃ s, tsanRun [firstWrite] = .ok s ∧ s.threadCount = 1 :=
    exists_tsanRun_ok (by decide +kernel)
  have hreported := (tsan_noMissedRace_iff (show ThreadsFit [secondWrite, firstWrite] by decide)
    (by decide) (clocksFit_of_length (by decide))).mpr <| along_cons.mpr
      ⟨fun _ _ _ _ => hexposed, along_cons.mpr ⟨?_, along_nil _⟩⟩
  · obtain ⟨r, hr, haddr⟩ := hreported.head s 0x1000 hs hracy
    exact ⟨hracy, s, r, hs, hr, haddr⟩
  · -- nothing comes before the first write
    rintro s addr - ⟨_, _, _, i, d, _, _, hd, -⟩
    cases hd

def readReadWrite : List (TsanCall Bool) :=
  [.access true 0x1000 8 true, .access true 0x1000 8 false, .access false 0x1000 8 false]

/-- The second read replaces the first one, so the race of the write with it is missed. -/
theorem tsan_missedRace_readReadWrite :
    ¬ ∀ history : List (TsanCall Bool), ThreadsFit history → ShadowFits history →
      Along (fun c before => ∀ s addr, tsanRun before = .ok s → Racy c before addr →
        ∃ r, tsanStep s c = .error (.race r) ∧ r.addr = addr) history := by
  intro hclaim
  have hracy : Racy (.access true 0x1000 8 true)
      [.access true 0x1000 8 false, .access false 0x1000 8 false] 0x1000 := by
    refine ⟨true, true, rfl, 0, _, false, false, rfl, rfl, by decide, rfl,
      not_happensBefore_of_last (c := .access false 0x1000 8 false) rfl rfl fun k d hk hd => ?_⟩
    have hlt : k < 3 := (List.getElem?_eq_some_iff.mp hd).1
    interval_cases k <;> cases hd <;> decide
  obtain ⟨s', hs', -⟩ : ∃ s, tsanRun readReadWrite = .ok s ∧ s.threadCount = 2 :=
    exists_tsanRun_ok (by decide +kernel)
  obtain ⟨s, hs, hcall⟩ := tsanRun_cons_ok.mp hs'
  obtain ⟨r, hr, -⟩ := (hclaim readReadWrite (by decide) (by decide)).head s 0x1000 hs hracy
  rw [hcall] at hr
  cases hr

end Misan
