import Misan.Proof.PrintfScanning

/-!
# Numerals read back

The text a number is printed as is its canonical numeral: reading it back gives the number, and no
digit in front of it could be left out. The digit buffer has room for the longest of them.
-/

namespace Misan

def digitValue (c : Byte) : Nat :=
  if byteOf '0' ≤ c ∧ c ≤ byteOf '9' then c.toNat - (byteOf '0').toNat
  else if byteOf 'a' ≤ c ∧ c ≤ byteOf 'f' then c.toNat - (byteOf 'a').toNat + 10
  else c.toNat - (byteOf 'A').toNat + 10

/-- The number a text of digits stands for, the most significant digit first. -/
def readNumeral (base : Nat) (text : List Byte) : Nat :=
  text.foldl (fun n c => n * base + digitValue c) 0

/-- The text is the numeral of `n`: it has digits of the base in the given case only, no leading
zero unless it is the single digit of `0`, and the value `n`. -/
structure IsNumeral (upper : Bool) (base n : Nat) (text : List Byte) : Prop where
  digits : ∀ c ∈ text, ∃ d < base, c = digitByte upper d
  canonical : text.head? = some (byteOf '0') → n = 0
  zero : n = 0 → text = [byteOf '0']
  value : readNumeral base text = n

section ReadBack

variable {base n : Nat} {upper : Bool}

theorem digitValue_digitByte {d : Nat} (hd : d < 16) : digitValue (digitByte upper d) = d := by
  have hall : ∀ (b : Bool) (i : Fin 16), digitValue (digitByte b i.val) = i.val := by decide
  exact hall upper ⟨d, hd⟩

theorem digitByte_eq_zero {d : Nat} (hd : d < 16) (hzero : digitByte upper d = byteOf '0') :
    d = 0 := by
  calc d = digitValue (digitByte upper d) := (digitValue_digitByte hd).symm
    _ = digitValue (byteOf '0') := by rw [hzero]
    _ = 0 := by decide

theorem ofDigits_numeral (base n : Nat) : Nat.ofDigits base (numeral base n) = n := by
  unfold numeral
  split
  · rename_i hzero
    rw [hzero]
    rfl
  · exact Nat.ofDigits_digits base n

/-- Reading from the front is folding from the back of the digits. -/
theorem readNumeral_numeralBytes (hbase : 1 < base) (hsmall : base ≤ 16) :
    readNumeral base (numeralBytes upper base n) = n := by
  have hfold : ∀ ds : List Nat, (∀ d ∈ ds, d < base) →
      readNumeral base (ds.reverse.map (digitByte upper)) = Nat.ofDigits base ds := by
    intro ds hds
    induction ds with
    | nil => rfl
    | cons d ds ih =>
        have hd : d < base := hds d (List.mem_cons_self ..)
        have hrest := ih fun d' hd' => hds d' (List.mem_cons_of_mem d hd')
        rw [readNumeral] at hrest ⊢
        rw [List.reverse_cons, List.map_append, List.foldl_append, hrest, List.map_singleton,
          List.foldl_cons, List.foldl_nil, digitValue_digitByte (by omega), Nat.ofDigits_cons,
          Nat.mul_comm, Nat.add_comm]
  calc readNumeral base (numeralBytes upper base n)
      = Nat.ofDigits base (numeral base n) :=
        hfold _ fun d hd => lt_base_of_mem_numeral hbase hd
    _ = n := ofDigits_numeral base n

theorem head?_numeralBytes (hbase : 1 < base) (hsmall : base ≤ 16)
    (hhead : (numeralBytes upper base n).head? = some (byteOf '0')) : n = 0 := by
  by_contra hne
  rw [numeralBytes, numeral, if_neg hne, List.head?_map, List.head?_reverse,
    List.getLast?_eq_getLast_of_ne_nil (Nat.digits_ne_nil_iff_ne_zero.mpr hne),
    Option.map_some, Option.some_inj] at hhead
  have hlast := Nat.digits_lt_base hbase
    (List.getLast_mem (Nat.digits_ne_nil_iff_ne_zero.mpr hne))
  exact Nat.getLast_digit_ne_zero base hne (digitByte_eq_zero (by omega) hhead)

theorem isNumeral_numeralBytes (hbase : base = 10 ∨ base = 16) (upper : Bool) (n : Nat) :
    IsNumeral upper base n (numeralBytes upper base n) where
  digits c hc := by
    obtain ⟨d, hd, rfl⟩ := List.mem_map.mp hc
    exact ⟨d, lt_base_of_mem_numeral (by omega) (List.mem_reverse.mp hd), rfl⟩
  canonical := head?_numeralBytes (by omega) (by omega)
  zero hzero := by
    have hdigit : digitByte upper 0 = byteOf '0' := by
      cases upper <;> rfl
    rw [numeralBytes, numeral, if_pos hzero, List.reverse_singleton, List.map_singleton, hdigit]
  value := readNumeral_numeralBytes (by omega) (by omega)

theorem length_numeralBytes (upper : Bool) (base n : Nat) :
    (numeralBytes upper base n).length = (numeral base n).length := by
  rw [numeralBytes, List.length_map, List.length_reverse]

end ReadBack

/-! ### The digit buffer -/

/-- With room for the numeral, no digit is stored behind the buffer. -/
theorem drtDigitLoop_keeps_buffer {base : Nat} (hbase : 1 < base) (upper : Bool) (k n : Nat)
    (buf : List Byte) (hroom : buf.length + (numeral base n).length ≤ 32) :
    NeverFails (.fault .bufferOverflow) (drtDigitLoop base upper k n buf) := by
  induction k generalizing n buf with
  | zero => exact neverFails_throw (by decide)
  | succ k ih =>
      rw [drtDigitLoop]
      by_cases hdiv : n / base = 0
      · rw [numeral_of_lt (Nat.lt_of_div_eq_zero (by omega) hdiv), List.length_singleton] at hroom
        rw [if_neg (by omega), if_neg (not_not_intro hdiv)]
        exact neverFails_ok fun s => ⟨_, s, rfl⟩
      · rw [numeral_of_div_ne_zero hbase hdiv, List.length_cons] at hroom
        rw [if_neg (by omega), if_pos hdiv]
        apply ih
        rw [List.length_cons]
        omega

theorem drtPutn_keeps_buffer {base : Nat} (hbase : base = 10 ∨ base = 16) (k : Nat) (n : BitVec 64)
    (width : Int) (pad : Byte) (upper : Bool) :
    NeverFails (.fault .bufferOverflow) (drtPutn k n base width pad upper) := by
  have hlen : (numeral base n.toNat).length ≤ 20 := length_numeral_le (by omega) n.isLt
  apply (printClosed_neverFails (by decide)).drtPutn_of_digits
  apply drtDigitLoop_keeps_buffer (by omega)
  rw [List.length_nil]
  omega

/-- **Numbers round trip.** What `drt_putn` prints for a width that asks for no padding is the
numeral of its argument, and `drt_putsn` prints that of the magnitude behind the sign. No digit is
stored behind the buffer, whatever the width. -/
theorem drt_numbers_round_trip {base : Nat} (hbase : base = 10 ∨ base = 16) (n : BitVec 64)
    (width : Int) (pad : Byte) (upper : Bool) (st : PrintState) :
    (∃ text, IsNumeral upper base n.toNat text ∧ (width ≤ text.length →
      ∃ N, ∀ k, N ≤ k → drtPutn k n base width pad upper st = .ok () (st.print text))) ∧
    (∀ k, NeverFails (.fault .bufferOverflow) (drtPutn k n base width pad upper)) ∧
    ∀ v : BitVec 64, v ≠ BitVec.intMin 64 → ∃ text, IsNumeral false 10 v.toInt.natAbs text ∧
      ∃ N, ∀ k, N ≤ k → drtPutsn k v 10 0 pad st =
        .ok () (st.print ((if v.toInt < 0 then [byteOf '-'] else []) ++ text)) := by
  refine ⟨⟨_, isNumeral_numeralBytes hbase upper n.toNat, fun hwidth => ?_⟩,
    fun k => drtPutn_keeps_buffer hbase k n width pad upper, fun v hmin =>
      ⟨_, isNumeral_numeralBytes (Or.inl rfl) false v.toInt.natAbs, ?_⟩⟩
  · rw [length_numeralBytes] at hwidth
    exact (drtPutn_runs hbase n width pad upper st).total hwidth
  · have hwidth : digitWidth v 0 = 0 := by simp [digitWidth]
    apply (drtPutsn_runs v 0 pad st).total
    rw [hwidth]
    exact ⟨hmin, Int.natCast_nonneg _⟩

theorem drt_numbers_round_trip_minus_seven :
    ∃ text, IsNumeral false 10 7 text ∧
      ∃ N, ∀ k, N ≤ k → drtPutsn k (-7) 10 0 (byteOf ' ') ⟨[], []⟩ =
        .ok () ⟨[byteOf '-'] ++ text, []⟩ :=
  (drt_numbers_round_trip (Or.inr rfl) 255 2 (byteOf ' ') false ⟨[], []⟩).2.2 (-7) (by decide)

end Misan
