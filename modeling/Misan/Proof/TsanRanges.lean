import Misan.TsanHooks
import Misan.Proof.TsanReports

/-!
# Wide accesses and ranges

A sized hook checks the entry of its base address, the range hooks check the entries of all their
bytes, one after the other. With room in the table each byte of a range is recorded before the next
one is checked, which moves the thread's own clock on and changes nothing else the later checks look
at. So a range is reported exactly when one of its bytes is, with the clock moved on that far, and
what that means can be read off the history.
-/

namespace Misan

open Function

variable {Thr : Type} [DecidableEq Thr] {s s' s₁ : TsanState Thr} {c : TsanCall Thr}
  {history : List (TsanCall Thr)} {thr : Thr} {tid : Tid} {addr addr' : Addr} {w w' : Bool}
  {idx : Fin 65536} {n k : Nat}

def FreeEntries (table : TsanShadowTable) (n : Nat) : Prop :=
  n ≤ (Finset.univ.filter fun idx => (table idx).active = false).card

/-- The own component of `tid` moved on by `k`. -/
def TsanState.ticked (s : TsanState Thr) (tid : Tid) (k : Nat) : TsanState Thr :=
  { s with threads := update s.threads tid { s.threads tid with
      vc := update (s.threads tid).vc tid ((s.threads tid).vc tid + BitVec.ofNat 64 k) } }

/-- The test of `tsan_access` on the entry of `addr`, with the own component moved on by `k`. -/
def TsanState.RacesAt (s : TsanState Thr) (tid : Tid) (w : Bool) (addr : Addr) (k : Nat) : Prop :=
  ∃ idx, tsanIsRace (s.ticked tid k).threads (s.shadow idx) addr tid w = true

omit [DecidableEq Thr] in
theorem racesAt_iff :
    s.RacesAt tid w addr k ↔ ∃ idx, shadowKeys s.shadow idx = some addr ∧
      (s.shadow idx).tid ≠ tid ∧ (w || (s.shadow idx).isWrite) = true ∧
      ¬ (s.threads (s.shadow idx).tid).vc (s.shadow idx).tid
          ≤ (s.threads tid).vc (s.shadow idx).tid ∧
      ¬ (s.threads tid).vc tid + BitVec.ofNat 64 k ≤ (s.threads (s.shadow idx).tid).vc tid := by
  apply exists_congr
  intro idx
  rw [shadowKeys_eq_some]
  by_cases hother : (s.shadow idx).tid = tid
  · simp [tsanIsRace, hother]
  · simp [tsanIsRace, tsanVcHappensBefore, TsanState.ticked, hother, and_assoc]

/-! ### One byte -/

/-- What the state of a run looks like while a range is on its way. -/
structure RangeReady (history : List (TsanCall Thr)) (s : TsanState Thr) (thr : Thr) (tid : Tid) :
    Prop where
  threads : TsanThreadsOk s
  tracks : ShadowTracks history s
  known : s.currentTid thr = some tid

theorem tsanRun_rangeReady (h : tsanRun history = .ok s) (hentered : TsanEntered s thr tid s₁) :
    RangeReady history s₁ thr tid := by
  have henters : TsanEnters s (.init thr) s₁ := Or.inr ⟨thr, tid, rfl, hentered⟩
  exact ⟨(tsanRun_threadsOk h).enters henters, (tsanRun_shadowTracks h).enters henters,
    hentered.currentTid⟩

section

omit [DecidableEq Thr]

theorem RangeReady.races_iff (h : RangeReady history s thr tid)
    (hslot : shadowSlot s.shadow addr = some idx) :
    s.Races idx tid w ↔ s.RacesAt tid w addr 0 := by
  have hzero : (s.threads tid).vc tid + BitVec.ofNat 64 0 = (s.threads tid).vc tid :=
    BitVec.add_zero _
  rw [racesAt_iff, hzero]
  constructor
  · intro hraces
    rcases h.tracks.placed.probe_cases hslot with hkey | ⟨hhole, -⟩
    · exact ⟨idx, hkey, hraces⟩
    · exact absurd hraces (not_races_hole h.threads (h.tracks.hole hhole))
  · rintro ⟨idx', hkey, hraces⟩
    cases hslot.symm.trans (h.tracks.placed idx' addr hkey)
    exact hraces

theorem RangeReady.recorded (h : RangeReady history s thr tid)
    (hslot : shadowSlot s.shadow addr = some idx) (hsilent : ¬ s.Races idx tid w) :
    RangeReady (.access thr addr 1 w :: history) (s.recorded addr idx tid w) thr tid where
  threads := h.threads.move
    (TsanMove.recorded (c := .access thr addr 1 w) rfl h.known hslot hsilent)
  tracks := h.tracks.recorded rfl h.known hslot
  known := h.known

/-- Recording an access elsewhere only moves the own component on. -/
theorem RangeReady.racesAt_recorded (h : RangeReady history s thr tid)
    (hslot : shadowSlot s.shadow addr = some idx) (hne : addr ≠ addr') :
    (s.recorded addr idx tid w').RacesAt tid w addr' k ↔ s.RacesAt tid w addr' (k + 1) := by
  have hkey : ∀ {j}, shadowKeys (s.recorded addr idx tid w').shadow j = some addr' ↔
      shadowKeys s.shadow j = some addr' ∧ j ≠ idx := by
    intro j
    rw [shadowKeys_recorded]
    by_cases hj : j = idx
    · subst hj
      simp [hne]
    · simp [hj]
  have hown : (s.threads tid).vc tid + 1 + BitVec.ofNat 64 k
      = (s.threads tid).vc tid + BitVec.ofNat 64 (k + 1) := by
    rw [BitVec.add_assoc, BitVec.ofNat_add, BitVec.add_comm (BitVec.ofNat 64 k)]
    rfl
  rw [racesAt_iff, racesAt_iff]
  apply exists_congr
  intro j
  rw [hkey, and_assoc]
  apply and_congr_right
  intro hj
  have hidx := ne_slot_of_key h.tracks.placed hslot hne hj
  rw [TsanState.recorded_shadow_of_ne hidx]
  by_cases hother : (s.shadow j).tid = tid
  · simp [hother]
  · simp only [TsanState.recorded_threads_self, TsanState.recorded_threads_of_ne hother,
      tsanVcInc_self, tsanVcInc_of_ne _ hother, hown, hidx, ne_eq, not_false_eq_true, true_and]

end

/-! ### Free entries -/

section

omit [DecidableEq Thr]

theorem FreeEntries.exists_hole (h : FreeEntries s.shadow (n + 1)) :
    ∃ j, shadowKeys s.shadow j = none := by
  obtain ⟨j, hj⟩ := Finset.card_pos.mp (Nat.lt_of_lt_of_le (Nat.succ_pos n) h)
  exact ⟨j, by rw [shadowKeys, (Finset.mem_filter.mp hj).2]; rfl⟩

theorem FreeEntries.exists_slot (h : FreeEntries s.shadow (n + 1)) (addr : Addr) :
    ∃ idx, shadowSlot s.shadow addr = some idx := by
  obtain ⟨j, hhole⟩ := h.exists_hole
  exact exists_slot_of_hole hhole addr

theorem FreeEntries.recorded (h : FreeEntries s.shadow (n + 1)) :
    FreeEntries (s.recorded addr idx tid w).shadow n := by
  let free := Finset.univ.filter fun j => (s.shadow j).active = false
  calc
    n ≤ free.card - 1 := Nat.le_sub_of_add_le h
    _ ≤ (free.erase idx).card := Finset.pred_card_le_card_erase
    _ ≤ _ := by
      apply Finset.card_le_card
      intro j hj
      obtain ⟨hne, hfree⟩ := Finset.mem_erase.mp hj
      rw [Finset.mem_filter, TsanState.recorded_shadow_of_ne hne]
      exact ⟨Finset.mem_univ j, (Finset.mem_filter.mp hfree).2⟩

end

/-! ### The range loop -/

theorem tsanAccess_of_entered (h : TsanEntered s thr tid s₁) (size : Addr) :
    tsanAccess s thr addr size w = tsanAccess s₁ thr addr size w := by
  rw [tsanAccess_eq h, tsanAccess_eq (.known h.currentTid)]

theorem toNat_add_ofNat {x : Addr} (hfit : x.toNat + n < 2 ^ 64) :
    (x + BitVec.ofNat 64 n).toNat = x.toNat + n := by
  rw [BitVec.toNat_add, BitVec.toNat_ofNat]
  omega

/-- **The range loop** reports exactly when one of its bytes does, each with the clock of the thread
moved on by the bytes before it. -/
theorem tsanAccessRange_race_iff {x fin : Addr} (h : RangeReady history s thr tid)
    (hfin : fin.toNat = x.toNat + n) (hfree : FreeEntries s.shadow n) :
    (∃ r, tsanAccessRange s thr x fin w = .error (.race r)) ↔
      ∃ i < n, s.RacesAt tid w (x + BitVec.ofNat 64 i) i := by
  induction n generalizing s x history with
  | zero =>
      have hdone : ¬ x < fin := by
        rw [BitVec.lt_def]
        omega
      rw [tsanAccessRange, if_neg hdone]
      exact iff_of_false (by rintro ⟨r, hr⟩; cases hr) (by rintro ⟨i, hi, -⟩; cases hi)
  | succ n ih =>
      have hlt : x < fin := by
        rw [BitVec.lt_def]
        omega
      have hfits := fin.isLt
      have hnext := ByteMemory.toNat_add_one_of_lt hlt
      have hfirst : x + BitVec.ofNat 64 0 = x := BitVec.add_zero _
      obtain ⟨idx, hslot⟩ := hfree.exists_slot x
      rw [tsanAccessRange, if_pos hlt, tsanAccess_eq (.known h.known), hslot]
      dsimp only
      by_cases hraces : s.Races idx tid w
      · rw [if_pos hraces]
        refine iff_of_true ⟨_, rfl⟩ ⟨0, Nat.succ_pos n, ?_⟩
        rw [hfirst]
        exact (h.races_iff hslot).mp hraces
      · rw [if_neg hraces]
        have hend : fin.toNat = (x + 1).toNat + n := by omega
        refine Iff.trans (ih (h.recorded hslot hraces) hend hfree.recorded) ?_
        have hbyte : ∀ {i}, i < n →
            ((s.recorded x idx tid w).RacesAt tid w (x + 1 + BitVec.ofNat 64 i) i ↔
              s.RacesAt tid w (x + BitVec.ofNat 64 (i + 1)) (i + 1)) := by
          intro i hi
          have haddr : x + 1 + BitVec.ofNat 64 i = x + BitVec.ofNat 64 (i + 1) := by
            rw [BitVec.add_assoc, BitVec.ofNat_add, BitVec.add_comm (BitVec.ofNat 64 i)]
            rfl
          rw [haddr]
          apply h.racesAt_recorded hslot
          intro heq
          have := congrArg BitVec.toNat heq
          rw [toNat_add_ofNat (by omega)] at this
          omega
        constructor
        · rintro ⟨i, hi, hat⟩
          exact ⟨i + 1, by omega, (hbyte hi).mp hat⟩
        · rintro ⟨i, hi, hat⟩
          cases i with
          | zero =>
              rw [hfirst] at hat
              exact absurd ((h.races_iff hslot).mpr hat) hraces
          | succ i => exact ⟨i, by omega, (hbyte (by omega)).mpr hat⟩

/-! ### Sized hooks and ranges -/

theorem tsanSized_eq (s : TsanState Thr) (thr : Thr) (addr : Addr) (width : AccessWidth)
    (w : Bool) :
    tsanSized s thr addr width w
      = tsanAccess s thr addr (BitVec.ofNat 64 width.bytes) w := by
  cases width <;> cases w <;> rfl

theorem tsanRange_eq (s : TsanState Thr) (thr : Thr) (addr fin : Addr) (w : Bool) :
    tsanRange s thr addr fin w = tsanAccessRange s thr addr fin w := by
  cases w <;> rfl

/-- The range loop enters the runtime with its first byte. -/
theorem tsanAccessRange_of_entered (h : TsanEntered s thr tid s₁) {x fin : Addr} (hlt : x < fin) :
    tsanAccessRange s thr x fin w = tsanAccessRange s₁ thr x fin w := by
  rw [tsanAccessRange, if_pos hlt, tsanAccess_of_entered h]
  conv => rhs; rw [tsanAccessRange, if_pos hlt]

theorem tsanAccessRange_race_of_lt {x fin : Addr} {r : TsanRace}
    (hr : tsanAccessRange s thr x fin w = .error (.race r)) : x < fin := by
  by_contra hge
  rw [tsanAccessRange, if_neg hge] at hr
  cases hr

theorem tsanAccess_of_refused {e : TsanHalt} (hget : tsanGetTid s thr = .error e) (size : Addr) :
    tsanAccess s thr addr size w = .error .tooManyThreads := by
  obtain ⟨rfl, -, -⟩ := tsanGetTid_error hget
  exact tsanStep_of_getTid_error (c := .access thr addr size w) rfl hget

/-- A thread that is given no identifier is not told of a race. -/
theorem tsanRange_no_race_of_refused {e : TsanHalt} (hget : tsanGetTid s thr = .error e)
    {x fin : Addr} {r : TsanRace} : tsanAccessRange s thr x fin w ≠ .error (.race r) := by
  intro hr
  have hlt := tsanAccessRange_race_of_lt hr
  rw [tsanAccessRange, if_pos hlt, tsanAccess_of_refused hget] at hr
  cases hr

theorem AccessWidth.bytes_pos (width : AccessWidth) : 0 < width.bytes := by
  cases width <;> decide

theorem AccessWidth.bytes_le (width : AccessWidth) : width.bytes ≤ 16 := by
  cases width <;> decide

theorem tsanSized_race_iff {width : AccessWidth} {x : Addr} (hentered : TsanEntered s thr tid s₁)
    (hready : RangeReady history s₁ thr tid) (hfree : FreeEntries s₁.shadow (n + 1)) :
    (∃ r, tsanSized s thr x width w = .error (.race r)) ↔ s₁.RacesAt tid w x 0 := by
  obtain ⟨idx, hslot⟩ := hfree.exists_slot x
  rw [← hready.races_iff hslot, tsanSized_eq, tsanAccess_eq hentered, hslot]
  by_cases hraces : s₁.Races idx tid w <;> simp [hraces]

theorem tsanRange_race_iff {width : AccessWidth} {x : Addr} (hentered : TsanEntered s thr tid s₁)
    (hready : RangeReady history s₁ thr tid) (hfree : FreeEntries s₁.shadow width.bytes) :
    (∃ r, tsanRange s thr x (x + BitVec.ofNat 64 width.bytes) w = .error (.race r)) ↔
      x.toNat + width.bytes < 2 ^ 64 ∧
        ∃ i < width.bytes, s₁.RacesAt tid w (x + BitVec.ofNat 64 i) i := by
  have hpos := width.bytes_pos
  have hle := width.bytes_le
  have hxlt := x.isLt
  rw [tsanRange_eq]
  by_cases hfit : x.toNat + width.bytes < 2 ^ 64
  · have hend := toNat_add_ofNat hfit
    have hlt : x < x + BitVec.ofNat 64 width.bytes := by
      rw [BitVec.lt_def]
      omega
    rw [tsanAccessRange_of_entered hentered hlt, tsanAccessRange_race_iff hready hend hfree]
    exact (and_iff_right hfit).symm
  · -- the end pointer has wrapped, so the range is empty
    refine iff_of_false ?_ fun h => hfit h.1
    rintro ⟨r, hr⟩
    have hlt := tsanAccessRange_race_of_lt hr
    rw [BitVec.lt_def, BitVec.toNat_add, BitVec.toNat_ofNat] at hlt
    omega

/-! ### By history -/

/-- An access of `thr` to the byte at `addr`, made right after one to `i` other bytes, is exposed:
the latest access to the byte conflicts with it and was made by another thread, and neither thread
is up to date with the other. -/
def ExposedByte (history : List (TsanCall Thr)) (thr : Thr) (w : Bool) (addr : Addr) (i : Nat) :
    Prop :=
  ∃ v w', lastAccess addr history = some (v, w') ∧ v ≠ thr ∧ (w || w') = true ∧
    ¬ (tsanKnowledge history).UpToDate thr v ∧ ¬ (tsanKnowledge history).UpToDateAfter i v thr

theorem RangeReady.racesAt_iff_exposed (h : RangeReady history s thr tid)
    (hcomplete : ShadowComplete history s)
    (hclocks : (tsanClocks s).Represents (tsanKnowledge history))
    (hroom : (tsanKnowledge history).time thr + k + 1 < 2 ^ 64) :
    s.RacesAt tid w addr k ↔ ExposedByte history thr w addr k := by
  rw [racesAt_iff]
  constructor
  · rintro ⟨idx, hkey, hother, hconflict, hforward, hbackward⟩
    obtain ⟨v, hlast, hv⟩ := h.tracks.entry hkey
    have hne : v ≠ thr := by
      rintro rfl
      exact hother (Option.some.inj (hv.symm.trans h.known))
    exact ⟨v, _, hlast, hne, hconflict, (own_le_vc_iff hclocks hne hv h.known).not.mp hforward,
      (own_add_le_vc_iff hclocks hne.symm h.known hv hroom).not.mp hbackward⟩
  · rintro ⟨v, w', hlast, hne, hconflict, hforward, hbackward⟩
    obtain ⟨idx, hkey⟩ := hcomplete addr (by rw [hlast]; exact Option.some_ne_none _)
    obtain ⟨v', hlast', hv⟩ := h.tracks.entry hkey
    cases hlast.symm.trans hlast'
    exact ⟨idx, hkey, h.threads.tid_ne hne hv h.known, hconflict,
      (own_le_vc_iff hclocks hne hv h.known).not.mpr hforward,
      (own_add_le_vc_iff hclocks hne.symm h.known hv hroom).not.mpr hbackward⟩

/-- The base address speaks for the access: where one of the bytes behind it is exposed, so is the
base address. Where the bytes run over the end of the address space the range is empty, and the base
address is not exposed. -/
def BaseDecides (history : List (TsanCall Thr)) (thr : Thr) (w : Bool) (x : Addr) (n : Nat) :
    Prop :=
  if x.toNat + n < 2 ^ 64 then
    ∀ i < n, ExposedByte history thr w (x + BitVec.ofNat 64 i) i → ExposedByte history thr w x 0
  else ¬ ExposedByte history thr w x 0

theorem baseDecides_iff {x : Addr} (hn : 0 < n) :
    BaseDecides history thr w x n ↔ (ExposedByte history thr w x 0 ↔
      x.toNat + n < 2 ^ 64 ∧ ∃ i < n, ExposedByte history thr w (x + BitVec.ofNat 64 i) i) := by
  rw [BaseDecides]
  by_cases hfit : x.toNat + n < 2 ^ 64
  · rw [if_pos hfit, and_iff_right hfit]
    constructor
    · intro hdecides
      refine ⟨fun hbase => ⟨0, hn, ?_⟩, fun ⟨i, hi, hat⟩ => hdecides i hi hat⟩
      rwa [show x + BitVec.ofNat 64 0 = x from BitVec.add_zero x]
    · intro hagree i hi hat
      exact hagree.mpr ⟨i, hi, hat⟩
  · rw [if_neg hfit]
    exact (iff_false_right fun hrange => hfit hrange.1).symm

/-- **Sized hooks and ranges** agree on a race exactly when the base address decides, unless the
thread is refused an identifier. -/
theorem tsan_wideAgrees_iff (hclocks : ClocksFit history) (h : tsanRun history = .ok s) (thr : Thr)
    (x : Addr) (width : AccessWidth) (w : Bool) (hfree : FreeEntries s.shadow width.bytes)
    (hroom : (tsanKnowledge history).time thr + width.bytes < 2 ^ 64) :
    ((∃ r, tsanSized s thr x width w = .error (.race r)) ↔
        ∃ r, tsanRange s thr x (x + BitVec.ofNat 64 width.bytes) w = .error (.race r)) ↔
      ((∃ p, tsanGetTid s thr = .ok p) → BaseDecides history thr w x width.bytes) := by
  cases hget : tsanGetTid s thr with
  | error e =>
      refine iff_of_true (iff_of_false ?_ ?_) ?_
      · rintro ⟨r, hr⟩
        rw [tsanSized_eq, tsanAccess_of_refused hget] at hr
        cases hr
      · rintro ⟨r, hr⟩
        rw [tsanRange_eq] at hr
        exact tsanRange_no_race_of_refused hget hr
      · rintro ⟨p, hok⟩
        cases hok
  | ok p =>
      obtain ⟨tid, s₁⟩ := p
      have hentered := tsanGetTid_ok_iff.mp hget
      have henters : TsanEnters s (.init thr) s₁ := Or.inr ⟨thr, tid, rfl, hentered⟩
      have hready := tsanRun_rangeReady h hentered
      obtain ⟨n, hn⟩ := Nat.exists_eq_add_one.mpr width.bytes_pos
      obtain ⟨j, hhole⟩ := FreeEntries.exists_hole (hn ▸ hfree)
      have hcomplete := (tsanRun_complete_of_hole h hhole).enters henters
      have hrepresents := tsanRun_represents hclocks h
      rw [← henters.tsanClocks_eq (tsanRun_threadsOk h)] at hrepresents
      have hexposed : ∀ i < width.bytes, ∀ addr,
          s₁.RacesAt tid w addr i ↔ ExposedByte history thr w addr i := fun i hi addr =>
        hready.racesAt_iff_exposed hcomplete hrepresents (by omega)
      have hbytes : (∃ i < width.bytes, s₁.RacesAt tid w (x + BitVec.ofNat 64 i) i) ↔
          ∃ i < width.bytes, ExposedByte history thr w (x + BitVec.ofNat 64 i) i :=
        exists_congr fun i => and_congr_right fun hi => hexposed i hi _
      have hgiven : ((∃ p, (Except.ok (tid, s₁) : Except TsanHalt _) = .ok p) →
          BaseDecides history thr w x width.bytes) ↔ BaseDecides history thr w x width.bytes :=
        forall_prop_of_true ⟨_, rfl⟩
      rw [← hentered.shadow] at hfree
      rw [tsanSized_race_iff hentered hready (hn ▸ hfree),
        tsanRange_race_iff hentered hready hfree, hexposed 0 width.bytes_pos, hbytes, hgiven]
      exact (baseDecides_iff width.bytes_pos).symm

theorem freeEntries_of_length (h : tsanRun history = .ok s) (hn : history.length + n ≤ 65536) :
    FreeEntries s.shadow n := by
  refine tsanRun_induction (P := fun history s => ∀ n, history.length + n ≤ 65536 →
    FreeEntries s.shadow n) ?_ ?_ h n hn
  · intro n hn
    have hall : (Finset.univ.filter fun idx : Fin 65536 =>
        ((TsanState.initial Thr).shadow idx).active = false) = Finset.univ :=
      Finset.filter_true_of_mem fun idx _ => rfl
    rw [FreeEntries, hall, Finset.card_univ, Fintype.card_fin]
    simpa using hn
  · intro c history s s' _ ih hcall n hn
    obtain ⟨s₁, henters, hmove⟩ := tsanStep_cases hcall
    rw [List.length_cons] at hn
    have hfree : FreeEntries s₁.shadow (n + 1) := henters.shadow ▸ ih (n + 1) (by omega)
    cases hmove with
    | idle | created | destroyed | acquired | released => exact Nat.le_of_succ_le hfree
    | recorded => exact hfree.recorded

/-- One thread has written the bytes at `0x1004` and `0x1000`. -/
def twoBytesWritten : List (TsanCall Bool) :=
  [.access false 0x1000 1 true, .access false 0x1004 1 true]

/-- Another thread then writes eight bytes from `0x1000` on, and both hooks report it. -/
theorem tsan_wideAgrees_twoBytesWritten :
    ∃ s, tsanRun twoBytesWritten = .ok s ∧
      (∃ r, tsanSized s true 0x1000 .w8 true = .error (.race r)) ∧
      ∃ r, tsanRange s true 0x1000 (0x1000 + BitVec.ofNat 64 8) true = .error (.race r) := by
  obtain ⟨s, hs, -⟩ : ∃ s, tsanRun twoBytesWritten = .ok s ∧ s.threadCount = 1 :=
    exists_tsanRun_ok (by decide +kernel)
  have hunaware : (tsanKnowledge twoBytesWritten).Unaware :=
    tsanKnowledge_unaware_of_no_unlock (by simp [twoBytesWritten])
  have hdecides : BaseDecides twoBytesWritten true true 0x1000 8 := by
    rw [BaseDecides, if_pos (by decide)]
    exact fun _ _ _ => ⟨false, true, rfl, by decide, rfl, hunaware.not_upToDate _ _,
      hunaware.not_upToDateAfter 0 _ _⟩
  have hsized : ∃ r, tsanSized s true 0x1000 .w8 true = .error (.race r) :=
    (tsanStep_race_iff_exposed (c := .access true 0x1000 8 true) (by decide) (by decide)
      (clocksFit_of_length (by decide)) hs).mpr
        ⟨true, 0x1000, true, false, true, rfl, rfl, by decide, rfl, hunaware.not_upToDate _ _,
          hunaware.not_upToDate _ _⟩
  have hroom : (tsanKnowledge twoBytesWritten).time true + AccessWidth.w8.bytes < 2 ^ 64 := by
    have htime : (tsanKnowledge twoBytesWritten).time true ≤ 2 := tsanKnowledge_time_le _ _
    rw [AccessWidth.bytes]
    omega
  have hagree := (tsan_wideAgrees_iff (clocksFit_of_length (by decide)) hs true 0x1000 .w8 true
    (freeEntries_of_length hs (by decide)) hroom).mpr fun _ => hdecides
  exact ⟨s, hs, hsized, hagree.mp hsized⟩

/-- One thread has written the byte at `0x1004`. -/
def oneByteWritten : TsanState Bool :=
  ((TsanState.initial Bool).register false 1).recorded 0x1004 0x1014 1 true

theorem tsanRun_oneByteWritten :
    tsanRun [.access false 0x1004 1 true] = .ok oneByteWritten := by
  refine tsanRun_cons_ok.mpr ⟨.initial Bool, rfl, ?_⟩
  have hslot : shadowSlot ((TsanState.initial Bool).register false 1).shadow 0x1004
      = some 0x1014 := probe_home rfl
  have hentered : TsanEntered (TsanState.initial Bool) false 1
      ((TsanState.initial Bool).register false 1) := .fresh rfl rfl
  rw [tsanStep, tsanAccess_eq hentered, hslot]
  exact if_neg (by decide)

/-- Another thread then writes eight bytes from `0x1000` on. The sized hook looks at the entry of
`0x1000` and is silent; the range hook comes to the byte at `0x1004`. -/
theorem tsan_wide_misses_byte :
    ¬ ∀ (history : List (TsanCall Bool)) (s : TsanState Bool), tsanRun history = .ok s →
      ∀ (thr : Bool) (x : Addr) (width : AccessWidth) (w : Bool),
        FreeEntries s.shadow width.bytes →
        ((∃ r, tsanSized s thr x width w = .error (.race r)) ↔
          ∃ r, tsanRange s thr x (x + BitVec.ofNat 64 width.bytes) w = .error (.race r)) := by
  intro hclaim
  have hfree : FreeEntries oneByteWritten.shadow 8 :=
    freeEntries_of_length tsanRun_oneByteWritten (by decide)
  have hagree := hclaim _ _ tsanRun_oneByteWritten true 0x1000 .w8 true hfree
  let s₁ := oneByteWritten.register true 2
  have hentered : TsanEntered oneByteWritten true 2 s₁ := .fresh rfl rfl
  have hready := tsanRun_rangeReady tsanRun_oneByteWritten hentered
  have hrange : ∃ r, tsanRange oneByteWritten true 0x1000 (0x1000 + BitVec.ofNat 64 8) true
      = .error (.race r) := by
    rw [tsanRange_eq, tsanAccessRange_of_entered hentered (by decide),
      tsanAccessRange_race_iff hready (by decide) hfree]
    exact ⟨4, by decide, 0x1014, by decide⟩
  obtain ⟨r, hr⟩ := hagree.mpr hrange
  have hslot : shadowSlot s₁.shadow 0x1000 = some 0x1010 := probe_home rfl
  rw [tsanSized_eq, tsanAccess_eq hentered, hslot] at hr
  have hsilent : ¬ s₁.Races 0x1010 2 true := by decide
  simp only [if_neg hsilent] at hr
  cases hr

end Misan
