import Misan.MsanCheck
import Misan.Proof.MsanLayout
import Misan.Proof.Reports

/-!
# What the shadow and the origins remember

On addresses below `2 ^ 42` the two metadata arrays stay apart, so after any history each shadow
byte tells the last poisoning or unpoisoning of its byte, and each origin word the last origin set
and not cleared since. The check then finds the first poisoned byte. Its report, however, prints the
address with the width of a full pointer, and such an address has too few digits for the printer to
come back.
-/

namespace Misan

open ByteMemory

variable {m : Memory} {history : List MsanCall} {addr size b : Addr}

/-! ### Histories -/

def msanRegion : Set Addr := {a | 1 ≤ a.toNat ∧ a.toNat < 2 ^ 42}

/-- The range `[addr, addr + size)` lies in the region. -/
def InMsanRegion (addr size : Addr) : Prop :=
  size = 0 ∨ 1 ≤ addr.toNat ∧ addr.toNat + size.toNat ≤ 2 ^ 42

/-- The byte is in the range `[addr, addr + size)`. -/
def Covers (addr size b : Addr) : Prop :=
  addr.toNat ≤ b.toNat ∧ b.toNat < addr.toNat + size.toNat

instance (addr size b : Addr) : Decidable (Covers addr size b) :=
  inferInstanceAs (Decidable (_ ∧ _))

namespace MsanCall

def InRegion : MsanCall → Prop
  | poison addr size | unpoison addr size | setOrigin addr size _ => InMsanRegion addr size

/-- The last poisoning or unpoisoning of the byte was a poisoning. -/
def poisoned (b : Addr) : List MsanCall → Bool
  | [] => false
  | .poison addr size :: history => if Covers addr size b then true else poisoned b history
  | .unpoison addr size :: history => if Covers addr size b then false else poisoned b history
  | .setOrigin .. :: history => poisoned b history

/-- The last origin set for the byte, or `0` if it was unpoisoned since. -/
def originOf (b : Addr) : List MsanCall → BitVec 32
  | [] => 0
  | .poison .. :: history => originOf b history
  | .unpoison addr size :: history => if Covers addr size b then 0 else originOf b history
  | .setOrigin addr size originId :: history =>
      if Covers addr size b then originId else originOf b history

end MsanCall

open MsanCall

/-! ### Ranges -/

theorem InMsanRegion.rangeIn (h : InMsanRegion addr size) : RangeIn msanRegion addr size := by
  intro i hi
  rcases h with rfl | ⟨hpos, hfit⟩
  · exact absurd hi (Nat.not_lt_zero i)
  · have hnat : (addr + BitVec.ofNat 64 i).toNat = addr.toNat + i := by
      rw [BitVec.toNat_add, BitVec.toNat_ofNat]
      omega
    exact ⟨by omega, by omega⟩

theorem covers_iff (h : InMsanRegion addr size) :
    Covers addr size b ↔ ∃ i < size.toNat, b = addr + BitVec.ofNat 64 i := by
  rcases h with rfl | ⟨hpos, hfit⟩
  · constructor
    · rintro ⟨hlow, hhigh⟩
      exact absurd hhigh (not_lt.mpr hlow)
    · rintro ⟨i, hi, -⟩
      exact absurd hi (Nat.not_lt_zero i)
  · constructor
    · rintro ⟨hlow, hhigh⟩
      refine ⟨b.toNat - addr.toNat, by omega, BitVec.eq_of_toNat_eq ?_⟩
      rw [BitVec.toNat_add, BitVec.toNat_ofNat]
      omega
    · rintro ⟨i, hi, rfl⟩
      rw [Covers, BitVec.toNat_add, BitVec.toNat_ofNat]
      omega

theorem not_covers_zero (addr b : Addr) : ¬ Covers addr 0 b := by
  rintro ⟨hlow, hhigh⟩
  exact absurd hhigh (not_lt.mpr hlow)

/-- The calls the operations return from at once cover nothing. -/
theorem not_covers_of_skipped (hrange : InMsanRegion addr size) (hskipped : addr = 0 ∨ size = 0)
    (b : Addr) : ¬ Covers addr size b := by
  rcases hskipped with rfl | rfl
  · rcases hrange with rfl | ⟨hpos, -⟩
    · exact not_covers_zero 0 b
    · exact absurd hpos (by decide)
  · exact not_covers_zero addr b

/-! ### The two arrays -/

theorem toNat_msanShadowPtr_of_mem (hb : b ∈ msanRegion) :
    (msanShadowPtr b).toNat = 0xFFFF700000000000 + b.toNat :=
  toNat_msanShadowPtr ⟨hb.1, lt_trans hb.2 (by decide)⟩

theorem toNat_msanOriginByte_of_mem (hb : b ∈ msanRegion) {j : Nat} (hj : j < 4) :
    (msanOriginByte b j).toNat = 0xFFFF600000000000 + (4 * b.toNat + j) := by
  have hlt := hb.2
  rw [toNat_msanOriginByte]
  omega

/-- Below the limit the origins end where the shadow begins. -/
theorem msanShadowPtr_ne_originByte {a : Addr} (ha : a ∈ msanRegion) (hb : b ∈ msanRegion) {j : Nat}
    (hj : j < 4) : msanShadowPtr a ≠ msanOriginByte b j := by
  intro heq
  have hnat := congrArg BitVec.toNat heq
  have hlt := hb.2
  rw [toNat_msanShadowPtr_of_mem ha, toNat_msanOriginByte_of_mem hb hj] at hnat
  omega

theorem fillBytes_shadow (m : Memory) (v : Byte) (hrange : InMsanRegion addr size) :
    m.fillBytes (msanShadowPtr addr) v size.toNat (msanShadowPtr b)
      = if Covers addr size b then v else m (msanShadowPtr b) := by
  rw [fillBytes_apply]
  apply if_congr _ rfl rfl
  rw [covers_iff hrange]
  refine exists_congr fun i => and_congr_right fun _ => ?_
  rw [msanShadowPtr_add, msanShadowPtr, msanShadowPtr, BitVec.add_right_inj]

theorem fillBytes_origin (m : Memory) (v : Byte) (hrange : InMsanRegion addr size)
    (hb : b ∈ msanRegion) {j : Nat} (hj : j < 4) :
    m.fillBytes (msanShadowPtr addr) v size.toNat (msanOriginByte b j)
      = m (msanOriginByte b j) :=
  fillBytes_msanShadowPtr_of_forall_ne m v hrange.rangeIn
    fun _ ha => (msanShadowPtr_ne_originByte ha hb hj).symm

theorem fillWords_shadow (m : Memory) (id : BitVec 32) (hrange : InMsanRegion addr size)
    (hb : b ∈ msanRegion) :
    m.fillWords (msanOriginPtr addr) id size.toNat (msanShadowPtr b) = m (msanShadowPtr b) :=
  fillWords_msanOriginPtr_of_forall_ne m id hrange.rangeIn
    fun _ ha _ hj => msanShadowPtr_ne_originByte hb ha hj

theorem fillWords_origin (m : Memory) (id : BitVec 32) (hrange : InMsanRegion addr size)
    (hb : b ∈ msanRegion) {j : Nat} (hj : j < 4) :
    m.fillWords (msanOriginPtr addr) id size.toNat (msanOriginByte b j)
      = if Covers addr size b then wordByte id j else m (msanOriginByte b j) := by
  split
  · rename_i hcovers
    obtain ⟨i, hi, rfl⟩ := (covers_iff hrange).mp hcovers
    have hfit : 4 * size.toNat ≤ 2 ^ 64 := by
      rcases hrange with rfl | ⟨-, hfit⟩
      · exact absurd hi (Nat.not_lt_zero i)
      · omega
    rw [← msanOriginPtr_add]
    exact fillWords_apply_add m _ id hfit hi hj
  · rename_i hcovers
    apply fillWords_of_forall_ne
    intro i hi j' hj' heq
    rw [msanOriginPtr_add] at heq
    have hmem := hrange.rangeIn i hi
    have hnat := congrArg BitVec.toNat heq
    rw [toNat_msanOriginByte_of_mem hb hj, toNat_msanOriginByte_of_mem hmem hj'] at hnat
    have hsame : b.toNat = (addr + BitVec.ofNat 64 i).toNat := by omega
    exact hcovers ((covers_iff hrange).mpr ⟨i, hi, BitVec.eq_of_toNat_eq hsame⟩)

/-! ### What the memory reflects -/

structure MsanReflects (history : List MsanCall) (m : Memory) : Prop where
  shadow : ∀ b ∈ msanRegion, m (msanShadowPtr b) =
    if poisoned b history then msanUninitialized else msanInitialized
  origin : ∀ b ∈ msanRegion, ∀ j < 4, m (msanOriginByte b j) = wordByte (originOf b history) j

theorem MsanReflects.poison (h : MsanReflects history m) (hrange : InMsanRegion addr size) :
    MsanReflects (.poison addr size :: history) (msanPoison m addr size) := by
  unfold msanPoison
  split
  · rename_i hskipped
    refine ⟨fun b hb => ?_, h.origin⟩
    rw [poisoned, if_neg (not_covers_of_skipped hrange hskipped b)]
    exact h.shadow b hb
  · refine ⟨fun b hb => ?_, fun b hb j hj => ?_⟩
    · rw [fillBytes_shadow m _ hrange, poisoned, h.shadow b hb]
      split <;> rfl
    · rw [fillBytes_origin m _ hrange hb hj]
      exact h.origin b hb j hj

theorem MsanReflects.unpoison (h : MsanReflects history m) (hrange : InMsanRegion addr size) :
    MsanReflects (.unpoison addr size :: history) (msanUnpoison true m addr size) := by
  unfold msanUnpoison
  split
  · rename_i hskipped
    refine ⟨fun b hb => ?_, fun b hb j hj => ?_⟩
    · rw [poisoned, if_neg (not_covers_of_skipped hrange hskipped b)]
      exact h.shadow b hb
    · rw [originOf, if_neg (not_covers_of_skipped hrange hskipped b)]
      exact h.origin b hb j hj
  · dsimp only
    rw [if_pos rfl]
    refine ⟨fun b hb => ?_, fun b hb j hj => ?_⟩
    · rw [fillWords_shadow _ 0 hrange hb, fillBytes_shadow m _ hrange, poisoned, h.shadow b hb]
      split <;> rfl
    · rw [fillWords_origin _ 0 hrange hb hj, fillBytes_origin m _ hrange hb hj, originOf,
        h.origin b hb j hj]
      split <;> rfl

theorem MsanReflects.setOrigin (h : MsanReflects history m) (hrange : InMsanRegion addr size)
    (originId : BitVec 32) :
    MsanReflects (.setOrigin addr size originId :: history)
      (msanSetOrigin true m addr size originId) := by
  unfold msanSetOrigin
  split
  · rename_i hskipped
    have hskipped' : addr = 0 ∨ size = 0 := hskipped.resolve_left Bool.false_ne_true
    refine ⟨h.shadow, fun b hb j hj => ?_⟩
    rw [originOf, if_neg (not_covers_of_skipped hrange hskipped' b)]
    exact h.origin b hb j hj
  · refine ⟨fun b hb => ?_, fun b hb j hj => ?_⟩
    · rw [fillWords_shadow m originId hrange hb]
      exact h.shadow b hb
    · rw [fillWords_origin m originId hrange hb hj, originOf, h.origin b hb j hj]
      split <;> rfl

/-- Shadow and origins of the region are zero. -/
def MsanZeroed (m : Memory) : Prop :=
  ∀ b ∈ msanRegion, m (msanShadowPtr b) = 0 ∧ ∀ j < 4, m (msanOriginByte b j) = 0

theorem msanRun_reflects (hzeroed : MsanZeroed m) (hregion : ∀ c ∈ history, c.InRegion) :
    MsanReflects history (msanRun true m history) := by
  induction history with
  | nil =>
      refine ⟨fun b hb => (hzeroed b hb).1, fun b hb j hj => ?_⟩
      have hword : wordByte (0 : BitVec 32) j = 0 := BitVec.extractLsb'_zero
      rw [originOf, hword]
      exact (hzeroed b hb).2 j hj
  | cons c history ih =>
      have hbefore := ih fun d hd => hregion d (List.mem_cons_of_mem c hd)
      have hrange := hregion c (List.mem_cons_self ..)
      cases c with
      | poison addr size => exact hbefore.poison hrange
      | unpoison addr size => exact hbefore.unpoison hrange
      | setOrigin addr size originId => exact hbefore.setOrigin hrange originId

/-! ### Reading it back -/

theorem wordByte_append (v : BitVec 32) :
    wordByte v 3 ++ wordByte v 2 ++ wordByte v 1 ++ wordByte v 0 = v := by
  apply BitVec.eq_of_getLsbD_eq
  intro i hi
  simp only [wordByte, BitVec.getLsbD_append, BitVec.getLsbD_extractLsb']
  split_ifs with h₀ h₁ h₂
  · simp [h₀]
  · simp [h₁, show 8 * 1 + (i - 8) = i by omega]
  · simp [h₂, show 8 * 2 + (i - 8 - 8) = i by omega]
  · simp [show i - 8 - 8 - 8 < 8 by omega, show 8 * 3 + (i - 8 - 8 - 8) = i by omega]

theorem MsanReflects.load32 (h : MsanReflects history m) (hb : b ∈ msanRegion) :
    m.load32 (msanOriginPtr b) = originOf b history := by
  have hbyte : ∀ j < 4, m (msanOriginPtr b + BitVec.ofNat 64 j)
      = wordByte (originOf b history) j := h.origin b hb
  have hzero := hbyte 0 (by decide)
  have hbase : msanOriginPtr b + BitVec.ofNat 64 0 = msanOriginPtr b := BitVec.add_zero _
  rw [hbase] at hzero
  calc
    m.load32 (msanOriginPtr b) = wordByte (originOf b history) 3 ++ wordByte (originOf b history) 2
        ++ wordByte (originOf b history) 1 ++ wordByte (originOf b history) 0 := by
      rw [← hbyte 3 (by decide), ← hbyte 2 (by decide), ← hbyte 1 (by decide), ← hzero]
      rfl
    _ = originOf b history := wordByte_append _

theorem msanCheckLoop_eq_some_iff (m : Memory) (addr size : Addr) (left i : Nat)
    (first rest : Addr) :
    msanCheckLoop m addr size left i = some (first, rest) ↔
      ∃ k, i ≤ k ∧ k < i + left ∧ first = addr + BitVec.ofNat 64 k ∧
        rest = size - BitVec.ofNat 64 k ∧
        m (msanShadowPtr addr + BitVec.ofNat 64 k) ≠ msanInitialized ∧
        ∀ j, i ≤ j → j < k → m (msanShadowPtr addr + BitVec.ofNat 64 j) = msanInitialized := by
  induction left generalizing i with
  | zero =>
      constructor
      · intro h
        cases h
      · rintro ⟨k, hlow, hhigh, -⟩
        omega
  | succ left ih =>
      rw [msanCheckLoop]
      split
      · rename_i hbad
        constructor
        · intro h
          cases h
          exact ⟨i, le_rfl, by omega, rfl, rfl, hbad, fun j hlow hhigh => by omega⟩
        · rintro ⟨k, hlow, -, rfl, rfl, -, hall⟩
          rcases Nat.eq_or_lt_of_le hlow with rfl | hlt
          · rfl
          · exact (hbad (hall i le_rfl hlt)).elim
      · rename_i hgood
        rw [not_not] at hgood
        rw [ih]
        constructor
        · rintro ⟨k, hlow, hhigh, hfirst, hrest, hbad, hall⟩
          refine ⟨k, by omega, by omega, hfirst, hrest, hbad, fun j hj hjk => ?_⟩
          rcases Nat.eq_or_lt_of_le hj with rfl | hlt
          · exact hgood
          · exact hall j hlt hjk
        · rintro ⟨k, hlow, hhigh, hfirst, hrest, hbad, hall⟩
          have hne : i ≠ k := by
            rintro rfl
            exact hbad hgood
          exact ⟨k, by omega, by omega, hfirst, hrest, hbad, fun j hj hjk => hall j (by omega) hjk⟩

/-- The first byte of the range that is poisoned, and how much of the range is left from there. -/
def FirstPoisoned (history : List MsanCall) (addr size first rest : Addr) : Prop :=
  ∃ k < size.toNat, first = addr + BitVec.ofNat 64 k ∧ rest = size - BitVec.ofNat 64 k ∧
    poisoned first history = true ∧
    ∀ j < k, poisoned (addr + BitVec.ofNat 64 j) history = false

theorem MsanReflects.checkMem_iff (h : MsanReflects history m) (hrange : InMsanRegion addr size)
    (hsize : size ≠ 0) (first rest : Addr) :
    msanCheckMem m addr size = some (first, rest) ↔
      FirstPoisoned history addr size first rest := by
  have hbad : ∀ i < size.toNat, m (msanShadowPtr addr + BitVec.ofNat 64 i) ≠ msanInitialized ↔
      poisoned (addr + BitVec.ofNat 64 i) history = true := by
    intro i hi
    rw [msanShadowPtr_add, h.shadow _ (hrange.rangeIn i hi)]
    cases poisoned (addr + BitVec.ofNat 64 i) history <;> decide
  have haddr : addr ≠ 0 := by
    rintro rfl
    rcases hrange with hzero | ⟨hpos, -⟩
    · exact hsize hzero
    · exact absurd hpos (by decide)
  rw [msanCheckMem, if_neg fun hor => hor.elim haddr hsize, msanCheckLoop_eq_some_iff]
  constructor
  · rintro ⟨k, -, hk, rfl, rfl, hpoisoned, hall⟩
    rw [Nat.zero_add] at hk
    refine ⟨k, hk, rfl, rfl, (hbad k hk).mp hpoisoned, fun j hj => ?_⟩
    have hgood := hall j (Nat.zero_le j) hj
    rw [← Bool.not_eq_true, ← hbad j (hj.trans hk)]
    exact not_not.mpr hgood
  · rintro ⟨k, hk, rfl, rfl, hpoisoned, hall⟩
    refine ⟨k, Nat.zero_le k, by omega, rfl, rfl, (hbad k hk).mpr hpoisoned, fun j _ hj => ?_⟩
    by_contra hne
    have hpoisoned' := (hbad j (hj.trans hk)).mp hne
    rw [hall j hj] at hpoisoned'
    exact Bool.false_ne_true hpoisoned'

/-! ### The report -/

def addressPieces (first rest : Addr) : List Piece :=
  textPieces (bytesOf "  Address: ") ++ plainPiece (m := .none) (.p first) ::
    (textPieces (bytesOf "  Size: ") ++ plainPiece (m := .z) (.u rest) ::
      textPieces (bytesOf "\n"))

theorem msanReportUninit_ne_ok {first : Addr} (hshort : ¬ SixteenDigits first) (k : Nat)
    (env : MsanReportEnv) (rest : Addr) (st t : PrintState) :
    msanReportUninit k env first rest st ≠ .ok () t := by
  let title := bytesOf "\n==MSAN: USE OF UNINITIALIZED MEMORY==\n"
  have hlit : title = formatText (textPieces title) := rfl
  obtain ⟨st₁, htitle⟩ := (drtPrintf_text_prints hlit).endsIff st
  have hfmt : bytesOf "  Address: %p  Size: %zu\n" = formatText (addressPieces first rest) := rfl
  have hargs : [.ptr first, .long rest] = formatArgs (addressPieces first rest) := rfl
  have haddress := drtPrintf_runs (addressPieces first rest) hfmt hargs st₁
  have hnever : ¬ ∀ piece ∈ addressPieces first rest, piece.Fits := by
    intro hfits
    exact hshort ((plainPiece_fits_p first).mp (hfits _ (by simp [addressPieces])))
  let after (k : Nat) : Print Unit := do
    if env.msanTrackOrigins then msanReportOrigin k env (env.originId first) else pure ()
    drtPuts (bytesOf "  Access stack:\n")
    drtPrintStackTrace k env.stack
  have hbody : RunsIff (fun k => drtPrintf k (bytesOf "  Address: %p  Size: %zu\n")
      [.ptr first, .long rest] >>= fun _ => after k) st₁ False () st := haddress.bind_never hnever
  have hrun := htitle.bind (f := fun k _ => drtPrintf k (bytesOf "  Address: %p  Size: %zu\n")
      [.ptr first, .long rest] >>= fun _ => after k) fun _ => hbody
  intro hok
  exact (hrun.sound k () t hok).1.2

/-! ### The check -/

/-- The check reaches `drt_arch_abort`. -/
def MsanCheckAborts (env : MsanReportEnv) (addr size : Addr) (st : PrintState) : Prop :=
  ∃ k t, msanCheckMemIsInitialized k env addr size st = .ok .aborted t

theorem not_msanCheckAborts_of_clean {env : MsanReportEnv} {st : PrintState}
    (hclean : msanCheckMem env.memory addr size = none) : ¬ MsanCheckAborts env addr size st := by
  rintro ⟨k, t, hrun⟩
  rw [msanCheckMemIsInitialized, hclean] at hrun
  cases hrun

theorem not_msanCheckAborts_of_short {env : MsanReportEnv} {st : PrintState} {first rest : Addr}
    (hfound : msanCheckMem env.memory addr size = some (first, rest))
    (hshort : ¬ SixteenDigits first) : ¬ MsanCheckAborts env addr size st := by
  rintro ⟨k, t, hrun⟩
  rw [msanCheckMemIsInitialized, hfound] at hrun
  change EStateM.bind (msanReportUninit k env first rest) _ st = _ at hrun
  rw [EStateM.bind] at hrun
  cases hreport : msanReportUninit k env first rest st with
  | ok u t' => exact msanReportUninit_ne_ok hshort k env rest st t' hreport
  | error e t' =>
      rw [hreport] at hrun
      cases hrun

theorem not_sixteenDigits_of_mem (hb : b ∈ msanRegion) : ¬ SixteenDigits b := by
  have hlt := hb.2
  rw [SixteenDigits]
  omega

/-- **The check over histories, exactly.** It finds the first byte whose last poisoning or
unpoisoning was a poisoning, with the size left from there, and the origin read for a byte is the
last one set and not cleared since. That it aborts exactly when there is such a byte holds if and
only if there is none, since the report of one never ends. -/
theorem msan_check_iff (hzeroed : MsanZeroed m) (hregion : ∀ c ∈ history, c.InRegion)
    (hrange : InMsanRegion addr size) (hsize : size ≠ 0) {env : MsanReportEnv}
    (hmemory : env.memory = msanRun true m history) (st : PrintState) :
    (∀ first rest, msanCheckMem env.memory addr size = some (first, rest) ↔
      FirstPoisoned history addr size first rest) ∧
    (∀ b ∈ msanRegion, env.originId b = originOf b history) ∧
    ((MsanCheckAborts env addr size st ↔
        ∃ i < size.toNat, poisoned (addr + BitVec.ofNat 64 i) history = true) ↔
      ∀ i < size.toNat, poisoned (addr + BitVec.ofNat 64 i) history = false) := by
  have hreflects := msanRun_reflects hzeroed hregion
  rw [← hmemory] at hreflects
  have hfound := hreflects.checkMem_iff hrange hsize
  have hnever : ¬ MsanCheckAborts env addr size st := by
    cases hcheck : msanCheckMem env.memory addr size with
    | none => exact not_msanCheckAborts_of_clean hcheck
    | some report =>
        obtain ⟨first, rest⟩ := report
        obtain ⟨i, hi, rfl, -⟩ := (hfound first rest).mp hcheck
        exact not_msanCheckAborts_of_short hcheck (not_sixteenDigits_of_mem (hrange.rangeIn i hi))
  refine ⟨hfound, fun b hb => hreflects.load32 hb, ?_⟩
  rw [iff_false_left hnever]
  push Not
  simp only [Bool.not_eq_true]

def quietEnv (m : Memory) : MsanReportEnv where
  memory := m
  msanTrackOrigins := true
  msanOrigins := fun _ => ⟨⟨[], Nat.zero_le _⟩, 0, false⟩
  stack := ⟨[], Nat.zero_le _⟩

theorem msanZeroed_zero : MsanZeroed fun _ => 0 := fun _ _ => ⟨rfl, fun _ _ => rfl⟩

theorem msan_check_secondHalf :
    msanCheckMem (msanRun true (fun _ => 0) [.unpoison 0x1000 4, .poison 0x1000 8]) 0x1000 8
      = some (0x1004, 4) := by
  have hregion : ∀ c ∈ [MsanCall.unpoison 0x1000 4, .poison 0x1000 8], c.InRegion := by
    intro c hc
    simp only [List.mem_cons, List.not_mem_nil, or_false] at hc
    rcases hc with rfl | rfl
    · exact Or.inr (by decide)
    · exact Or.inr (by decide)
  have hrange : InMsanRegion 0x1000 8 := Or.inr (by decide)
  have hsize : (8 : Addr) ≠ 0 := by decide
  let env := quietEnv (msanRun true (fun _ => 0) [.unpoison 0x1000 4, .poison 0x1000 8])
  have hmemory : env.memory = msanRun true (fun _ => 0) [.unpoison 0x1000 4, .poison 0x1000 8] :=
    rfl
  have hexact := msan_check_iff msanZeroed_zero hregion hrange hsize hmemory ⟨[], []⟩
  refine (hexact.1 0x1004 4).mpr ⟨4, by decide, rfl, rfl, rfl, fun j hj => ?_⟩
  interval_cases j <;> rfl

/-- A poisoned byte is found, and the check never gets to abort. -/
theorem not_msan_check :
    ¬ ∀ (history : List MsanCall) (addr size : Addr) (env : MsanReportEnv) (st : PrintState),
      (∀ c ∈ history, c.InRegion) → InMsanRegion addr size → size ≠ 0 →
      env.memory = msanRun true (fun _ => 0) history →
      (MsanCheckAborts env addr size st ↔
        ∃ i < size.toNat, poisoned (addr + BitVec.ofNat 64 i) history = true) := by
  intro hclaim
  have hregion : ∀ c ∈ [MsanCall.poison 0x1000 8], c.InRegion := by
    intro c hc
    rw [List.mem_singleton.mp hc]
    exact Or.inr (by decide)
  have hrange : InMsanRegion 0x1000 8 := Or.inr (by decide)
  have hsize : (8 : Addr) ≠ 0 := by decide
  let env := quietEnv (msanRun true (fun _ => 0) [.poison 0x1000 8])
  have haborts := (hclaim [.poison 0x1000 8] 0x1000 8 env ⟨[], []⟩ hregion hrange hsize rfl).mpr
    ⟨0, by decide, rfl⟩
  have hfirst : FirstPoisoned [.poison 0x1000 8] 0x1000 8 0x1000 8 :=
    ⟨0, by decide, rfl, rfl, rfl, fun j hj => absurd hj (Nat.not_lt_zero j)⟩
  have hfound : msanCheckMem env.memory 0x1000 8 = some (0x1000, 8) :=
    ((msanRun_reflects msanZeroed_zero hregion).checkMem_iff hrange hsize _ _).mpr hfirst
  have hregion' : (0x1000 : Addr) ∈ msanRegion := ⟨by decide, by decide⟩
  exact not_msanCheckAborts_of_short hfound (not_sixteenDigits_of_mem hregion') haborts

end Misan
