import Misan.Printf
import Mathlib.Data.Nat.Digits.Lemmas

/-!
# Printing a number

The digit loop always ends and leaves the numeral of its argument in the buffer. The padding loop
does not advance the counter it tests, so it ends only where it has nothing to do. Together: a
number is printed exactly when its numeral is at least as long as the requested width, and then
without padding.
-/

namespace Misan

/-- The digits of `n`, the least significant first, with one digit for `0`. -/
def numeral (base n : Nat) : List Nat := if n = 0 then [0] else Nat.digits base n

def numeralBytes (upper : Bool) (base n : Nat) : List Byte :=
  (numeral base n).reverse.map (digitByte upper)

section Numeral

variable {base n : Nat}

theorem numeral_of_lt (hlt : n < base) : numeral base n = [n] := by
  unfold numeral
  split
  · rename_i hzero
    rw [hzero]
  · rename_i hpos
    exact Nat.digits_of_lt base n hpos hlt

theorem numeral_of_div_ne_zero (hbase : 1 < base) (hdiv : n / base ≠ 0) :
    numeral base n = n % base :: numeral base (n / base) := by
  have hpos : 0 < n := by
    rw [Nat.pos_iff_ne_zero]
    rintro rfl
    exact hdiv (Nat.zero_div base)
  rw [numeral, numeral, if_neg (Nat.pos_iff_ne_zero.mp hpos), if_neg hdiv,
    Nat.digits_def' hbase hpos]

theorem lt_base_of_mem_numeral (hbase : 1 < base) {d : Nat} (hd : d ∈ numeral base n) :
    d < base := by
  unfold numeral at hd
  split at hd
  · rw [List.mem_singleton.mp hd]
    omega
  · exact Nat.digits_lt_base hbase hd

theorem length_numeral_le_iff (hbase : 1 < base) {k : Nat} (hk : 0 < k) :
    (numeral base n).length ≤ k ↔ n < base ^ k := by
  unfold numeral
  split
  · rename_i hzero
    rw [hzero]
    exact iff_of_true hk (Nat.pow_pos (by omega))
  · exact Nat.digits_length_le_iff hbase n

theorem length_numeral_le (hbase : 10 ≤ base) (hn : n < 2 ^ 64) : (numeral base n).length ≤ 20 := by
  rw [length_numeral_le_iff (by omega) (by decide)]
  calc n < 2 ^ 64 := hn
    _ ≤ 10 ^ 20 := by decide
    _ ≤ base ^ 20 := Nat.pow_le_pow_left hbase 20

end Numeral

/-! ### Characters -/

def PrintState.print (st : PrintState) (text : List Byte) : PrintState :=
  { st with out := st.out ++ text }

@[simp]
theorem PrintState.print_nil (st : PrintState) : st.print [] = st := by
  simp [PrintState.print]

@[simp]
theorem PrintState.print_print (st : PrintState) (text text' : List Byte) :
    (st.print text).print text' = st.print (text ++ text') := by
  simp [PrintState.print]

theorem drtPutchar_run (st : PrintState) {c : Byte} (hc : c ≠ 0) :
    drtPutchar c st = .ok () (st.print [c]) := by
  have htext : [c, 0].takeWhile (· ≠ 0) = [c] := by
    rw [List.takeWhile_cons_of_pos (by simpa using hc), List.takeWhile_cons_of_neg (by simp)]
  change EStateM.Result.ok () (st.print ([c, 0].takeWhile (· ≠ 0))) = _
  rw [htext]

theorem digitByte_ne_zero (upper : Bool) {d : Nat} (hd : d < 16) : digitByte upper d ≠ 0 := by
  have hall : ∀ (b : Bool) (i : Fin 16), digitByte b i.val ≠ 0 := by decide
  exact hall upper ⟨d, hd⟩

/-! ### The loops of `drt_putn` -/

section Loops

variable {base : Nat} (upper : Bool) (st : PrintState)

/-- **The digit loop** ends and stores the numeral in front of the buffer. -/
theorem drtDigitLoop_runs (hbase : 1 < base) (n : Nat) (buf : List Byte)
    (hroom : buf.length + (numeral base n).length ≤ 32) :
    RunsIff (fun k => drtDigitLoop base upper k n buf) st True
      (numeralBytes upper base n ++ buf) st := by
  induction n using Nat.strong_induction_on generalizing buf with
  | _ n ih =>
      have hspace : ¬ 32 ≤ buf.length := by
        have hpos : 0 < (numeral base n).length := by
          by_cases hdiv : n / base = 0
          · rw [numeral_of_lt (Nat.lt_of_div_eq_zero (by omega) hdiv)]
            exact Nat.one_pos
          · rw [numeral_of_div_ne_zero hbase hdiv]
            exact Nat.succ_pos _
        omega
      have hzero : ∀ b t, drtDigitLoop base upper 0 n buf st ≠ .ok b t := by
        intro b t hrun
        cases hrun
      by_cases hdiv : n / base = 0
      · have hlt : n < base := Nat.lt_of_div_eq_zero (by omega) hdiv
        have hlast : numeralBytes upper base n ++ buf = digitByte upper (n % base) :: buf := by
          rw [numeralBytes, numeral_of_lt hlt, Nat.mod_eq_of_lt hlt]
          rfl
        rw [hlast]
        refine RunsIff.unroll hzero (fun k => ?_)
          (RunsIff.step (x := pure (digitByte upper (n % base) :: buf)) rfl)
        rw [drtDigitLoop, if_neg hspace, if_neg (not_not.mpr hdiv)]
      · have hsmaller : n / base < n :=
          Nat.div_lt_self (by rw [Nat.pos_iff_ne_zero]; rintro rfl; simp at hdiv) hbase
        have hnumeral := numeral_of_div_ne_zero hbase hdiv
        have htail := ih (n / base) hsmaller (digitByte upper (n % base) :: buf) (by
          rw [hnumeral] at hroom
          simp only [List.length_cons] at hroom ⊢
          omega)
        have htext : numeralBytes upper base n ++ buf
            = numeralBytes upper base (n / base) ++ digitByte upper (n % base) :: buf := by
          rw [numeralBytes, numeralBytes, hnumeral]
          simp
        rw [htext]
        refine RunsIff.unroll hzero (fun k => ?_) htail
        rw [drtDigitLoop, if_neg hspace, if_pos hdiv]

theorem drtPadLoop_ne_ok {i width : Int} (hlt : i < width) (pad : Byte) (k : Nat)
    (st : PrintState) (b : Unit) (t : PrintState) : drtPadLoop i width pad k st ≠ .ok b t := by
  induction k generalizing st with
  | zero =>
      intro hrun
      cases hrun
  | succ k ih =>
      rw [drtPadLoop, if_pos hlt]
      exact ih _

theorem drtPadLoop_runs (i width : Int) (pad : Byte) :
    RunsIff (fun k => drtPadLoop i width pad k) st (width ≤ i) () st := by
  by_cases hle : width ≤ i
  · refine RunsIff.congr_iff (P := True) ?_ (by simp [hle])
    refine RunsIff.unroll (fun b t h => by cases h) (fun k => ?_) (RunsIff.step (x := pure ()) rfl)
    rw [drtPadLoop, if_neg (by omega)]
  · exact (RunsIff.never (drtPadLoop_ne_ok (by omega) pad · st)).congr_iff (by simp [hle])

theorem drtOutLoop_run (buf : List Byte) (hbuf : ∀ c ∈ buf, c ≠ 0) (st : PrintState) :
    drtOutLoop buf st = .ok () (st.print buf) := by
  induction buf generalizing st with
  | nil =>
      rw [PrintState.print_nil]
      rfl
  | cons c rest ih =>
      have hrest := ih (fun c' hc' => hbuf c' (List.mem_cons_of_mem _ hc')) (st.print [c])
      rw [PrintState.print_print] at hrest
      rw [drtOutLoop, bind_run (drtPutchar_run st (hbuf c (List.mem_cons_self ..)))]
      exact hrest

end Loops

/-- **Printing a number** ends if and only if the numeral fills the width. -/
theorem drtPutn_runs {base : Nat} (hbase : base = 10 ∨ base = 16) (n : BitVec 64) (width : Int)
    (pad : Byte) (upper : Bool) (st : PrintState) :
    RunsIff (fun k => drtPutn k n base width pad upper) st
      (width ≤ (numeral base n.toNat).length) () (st.print (numeralBytes upper base n.toNat)) := by
  have hlen : (numeral base n.toNat).length ≤ 20 := length_numeral_le (by omega) n.isLt
  have hbuf : ∀ c ∈ numeralBytes upper base n.toNat, c ≠ 0 := by
    intro c hc
    obtain ⟨d, hd, rfl⟩ := List.mem_map.mp hc
    have := lt_base_of_mem_numeral (by omega) (List.mem_reverse.mp hd)
    exact digitByte_ne_zero upper (by omega)
  have hdigits := drtDigitLoop_runs upper st (show 1 < base by omega) n.toNat [] (by
    rw [List.length_nil]
    omega)
  rw [List.append_nil] at hdigits
  refine RunsIff.congr_iff (hdigits.bind fun _ => (drtPadLoop_runs st _ width pad).bind fun _ =>
    RunsIff.step (drtOutLoop_run _ hbuf st)) ?_
  simp [numeralBytes]

/-! ### Signed numbers -/

def magnitude (v : BitVec 64) : Nat := v.toInt.natAbs

theorem toNat_of_nonneg {v : BitVec 64} (hpos : ¬ v.toInt < 0) : v.toNat = magnitude v := by
  have hv := v.isLt
  rw [magnitude]
  rw [BitVec.toInt_eq_toNat_cond] at hpos ⊢
  split_ifs at hpos ⊢ <;> omega

/-- Only the minimum has no negation among the 64-bit values. -/
theorem toNat_neg_of_neg {v : BitVec 64} (hneg : v.toInt < 0) (hmin : v ≠ BitVec.intMin 64) :
    (-v).toNat = magnitude v := by
  have hv := v.isLt
  have hne : v.toNat ≠ 2 ^ 63 := fun heq => hmin (BitVec.eq_of_toNat_eq heq)
  rw [magnitude, BitVec.toNat_neg]
  rw [BitVec.toInt_eq_toNat_cond] at hneg ⊢
  split_ifs at hneg ⊢ <;> omega

/-- The width left for the digits, behind a sign. -/
def digitWidth (v : BitVec 64) (width : Int) : Int :=
  if v.toInt < 0 ∧ 0 < width then width - 1 else width

def signedText (v : BitVec 64) : List Byte :=
  (if v.toInt < 0 then [byteOf '-'] else []) ++ numeralBytes false 10 (magnitude v)

/-- **Printing a signed number** ends if and only if it is not the minimum and the numeral fills the
width its sign leaves. -/
theorem drtPutsn_runs (v : BitVec 64) (width : Int) (pad : Byte) (st : PrintState) :
    RunsIff (fun k => drtPutsn k v 10 width pad) st
      (v ≠ BitVec.intMin 64 ∧ digitWidth v width ≤ (numeral 10 (magnitude v)).length) ()
      (st.print (signedText v)) := by
  by_cases hneg : v.toInt < 0
  · have hsign : drtPutchar (byteOf '-') st = .ok () (st.print [byteOf '-']) :=
      drtPutchar_run st (by decide)
    have hwidth : (if width > 0 then width - 1 else width) = digitWidth v width := by
      simp [digitWidth, hneg]
    refine RunsIff.congr_run (x := fun k => drtPutchar (byteOf '-') >>= fun _ =>
      checkedNeg v >>= fun n => drtPutn k n 10 (digitWidth v width) pad false) ?_ fun k => by
        rw [drtPutsn, if_pos hneg, hwidth]
    apply RunsIff.step_bind hsign
    by_cases hmin : v = BitVec.intMin 64
    · refine (RunsIff.never fun k b t hrun => ?_).congr_iff (by simp [hmin])
      rw [checkedNeg, if_pos hmin] at hrun
      cases hrun
    · have hrun := drtPutn_runs (Or.inl rfl) (-v) (digitWidth v width) pad false
        (st.print [byteOf '-'])
      rw [toNat_neg_of_neg hneg hmin, PrintState.print_print] at hrun
      have htext : [byteOf '-'] ++ numeralBytes false 10 (magnitude v) = signedText v := by
        rw [signedText, if_pos hneg]
      rw [htext] at hrun
      have hnegate : checkedNeg v (st.print [byteOf '-']) = .ok (-v) (st.print [byteOf '-']) := by
        rw [checkedNeg, if_neg hmin]
        rfl
      exact RunsIff.step_bind hnegate (hrun.congr_iff (by simp [hmin]))
  · have hmin : v ≠ BitVec.intMin 64 := by
      rintro rfl
      exact hneg (by decide)
    have hwidth : digitWidth v width = width := by
      simp [digitWidth, hneg]
    have hrun := drtPutn_runs (Or.inl rfl) v width pad false st
    rw [toNat_of_nonneg hneg] at hrun
    have htext : signedText v = numeralBytes false 10 (magnitude v) := by
      rw [signedText, if_neg hneg, List.nil_append]
    rw [htext, hwidth]
    refine (hrun.congr_iff (by simp [hmin])).congr_run fun k => ?_
    rw [drtPutsn, if_neg hneg]

end Misan
