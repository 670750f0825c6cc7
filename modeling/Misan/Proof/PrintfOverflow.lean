import Misan.Proof.PrintfMachine

/-!
# Signed overflow in the printer

Two computations of the printer can leave their type: the width a directive spells, and the negation
of a negative argument. The first happens for a width no `int` holds, the second for the minimum of
`long long`, and either only where the printer gets that far. What it gets to may lie behind the
terminator.
-/

namespace Misan.Machine

/-- The directive behind a `%` spells a width too large for an `int`, or it is a `%d` that finds the
minimum of `long long` in its slot. -/
def OverflowsIn (m : Machine) (text : List Byte) (ap : Nat) : Prop :=
  intMax < spelledWidth text ∨ ∃ rest, spelledWidth text ≤ intMax ∧
    conversionAt text = byteOf 'd' :: rest ∧
    (m.slots ap).map (signedSlot (spelledLongness text)) = some (BitVec.intMin 64)

/-- In this memory the printer gets to such a directive. -/
def Overflows (m : Machine) (mem : List Byte) (ap : Nat) : Prop :=
  ∃ text ap', m.stopping.Reaches mem ap (byteOf '%' :: text) ap' ∧ m.OverflowsIn text ap'

/-- No budget makes `drt_vprintf` leave a signed type. -/
def NoSignedOverflow (m : Machine) (fmt behind : List Byte) (st : SlotState) : Prop :=
  ∀ k t, m.stopping.drtVprintf k fmt behind st ≠ .error (.fault .signedOverflow) t

/-! ### The width -/

section Width

variable (m : Machine)

theorem stopping_int {z : Int} (hz : 0 ≤ z) :
    m.stopping.int z = if z ≤ intMax then some z else none := by
  have hmin : -intMax - 1 ≤ z := by
    have : (0 : Int) ≤ intMax := by decide
    omega
  simp [int, stopping, hmin]

/-- The first partial result that does not fit stops the machine, and the partial results grow. -/
theorem stopping_widthFrom (width : List (Fin 10)) {start : Int} (hstart : 0 ≤ start)
    (hmax : start ≤ intMax) :
    m.stopping.widthFrom (width.map widthDigit) start
      = if Misan.widthFrom start width ≤ intMax then some (Misan.widthFrom start width)
        else none := by
  induction width generalizing start with
  | nil => exact (if_pos hmax).symm
  | cons d width ih =>
      have hpos : 0 ≤ start * 10 := by omega
      have hpos' : 0 ≤ start * 10 + (d.val : Int) := by omega
      have hgrow := le_widthFrom width hpos'
      have hstep : m.stopping.widthFrom ((d :: width).map widthDigit) start
          = ((m.stopping.int (start * 10)).bind fun scaled => m.stopping.int (scaled + d.val)).bind
            (m.stopping.widthFrom (width.map widthDigit)) := by
        rw [← widthDigit_toNat d]
        rfl
      rw [hstep, stopping_int m hpos,
        show Misan.widthFrom start (d :: width)
          = Misan.widthFrom (start * 10 + d.val) width from rfl]
      by_cases hnext : start * 10 + (d.val : Int) ≤ intMax
      · rw [if_pos (by omega), Option.bind_some, stopping_int m hpos', if_pos hnext,
          Option.bind_some]
        exact ih hpos' hnext
      · rw [if_neg (by omega : ¬ Misan.widthFrom (start * 10 + d.val) width ≤ intMax)]
        by_cases hscaled : start * 10 ≤ intMax
        · rw [if_pos hscaled, Option.bind_some, stopping_int m hpos', if_neg hnext]
          rfl
        · rw [if_neg hscaled]
          rfl

theorem stopping_width (text : List Byte) :
    m.stopping.width text = if spelledWidth text ≤ intMax then some (spelledWidth text)
      else none := by
  obtain ⟨width, hdigits, hfold⟩ := exists_width (spelledDigits text) fun c hc => by
    simpa using List.mem_takeWhile_imp hc
  rw [Machine.width, spelledWidth, hfold 0, hdigits]
  exact stopping_widthFrom m width (Int.le_refl 0) (by decide)

end Width

/-! ### Formats -/

section Formats

variable {m : Machine} {mem text : List Byte} {p ap : Nat}

theorem OverflowsIn.stops (hover : m.OverflowsIn text ap) (hat : At mem p text) (out : List Byte) :
    ∃ N, ∀ k, N ≤ k → ∃ t,
      m.stopping.drtDirective k mem p ⟨out, ap⟩ = .error (.fault .signedOverflow) t := by
  have hwidth := m.stopping_width text
  rcases hover with hwide | ⟨rest, hfits, hconversion, hmin⟩
  · rw [if_neg (not_le.mpr hwide)] at hwidth
    obtain ⟨N, hN⟩ := (drtDirective_overflows hat hwidth ⟨out, ap⟩).enough
    exact ⟨N, fun k hk => ⟨_, hN k hk⟩⟩
  · rw [if_pos hfits] at hwidth
    obtain ⟨q, pad, -, ⟨N, hN⟩, -⟩ := drtDirective_complete hat hwidth hconversion ⟨out, ap⟩
    refine ⟨N, fun k hk => ?_⟩
    obtain ⟨t, ht⟩ := (m.stopping.drtConvert_stops_iff k _ (spelledWidth text) pad
      (spelledLongness text) out ap).mpr ⟨rfl, rfl, hmin⟩
    exact ⟨t, (hN k hk).trans (bind_eq_error.mpr (Or.inl ht))⟩

theorem overflowsIn_of_stops (hat : At mem p text) {k : Nat} {out : List Byte} {t : SlotState}
    (hfail : m.stopping.drtDirective k mem p ⟨out, ap⟩ = .error (.fault .signedOverflow) t) :
    m.OverflowsIn text ap := by
  have hwidth := m.stopping_width text
  by_cases hfits : spelledWidth text ≤ intMax
  · rw [if_pos hfits] at hwidth
    cases hconversion : conversionAt text with
    | nil => cases (drtDirective_truncated hat hwidth hconversion _).eq_of_error hfail (by decide)
    | cons c rest =>
        obtain ⟨q, pad, -, -, honly⟩ := drtDirective_complete hat hwidth hconversion ⟨out, ap⟩
        rcases honly k with hrun | ⟨s, hlate⟩
        · rw [hrun] at hfail
          rcases bind_eq_error.mp hfail with hfirst | ⟨_, s, -, hpure⟩
          · obtain ⟨rfl, -, hmin⟩ := (m.stopping.drtConvert_stops_iff k c (spelledWidth text) pad
              (spelledLongness text) out ap).mp ⟨t, hfirst⟩
            exact Or.inr ⟨rest, hfits, hconversion, hmin⟩
          · cases hpure
        · cases hfail.symm.trans hlate
  · exact Or.inl (not_le.mp hfits)

theorem Overflows.fails (hover : m.Overflows mem ap) (out : List Byte) :
    ∃ k t, m.stopping.drtVprintfLoop mem k 0 ⟨out, ap⟩ = .error (.fault .signedOverflow) t := by
  obtain ⟨text, ap', hreaches, hin⟩ := hover
  obtain ⟨p, out', d, N, hat, hrun⟩ := hreaches.run (At.start mem) out
  obtain ⟨M, hM⟩ := hin.stops hat.next out'
  obtain ⟨t, hfail⟩ := hM (N + M) (Nat.le_add_left M N)
  refine ⟨N + M + 1 + d, t, (hrun _ (by omega)).trans ?_⟩
  rw [drtVprintfLoop_percent hat]
  exact bind_eq_error.mpr (Or.inl hfail)

end Formats

/-- **No signed overflow** exactly when the printer gets to no directive with a width beyond an
`int`, and to no `%d` that finds the minimum of `long long`. -/
theorem drtVprintf_noSignedOverflow_iff (m : Machine) (fmt behind : List Byte) (st : SlotState) :
    m.NoSignedOverflow fmt behind st ↔ ¬ m.Overflows (fmt ++ 0 :: behind) st.ap := by
  rw [NoSignedOverflow, iff_not_comm]
  constructor
  · intro hover hsafe
    obtain ⟨k, t, hfail⟩ := hover.fails st.out
    exact hsafe k t hfail
  · intro hnot
    simp only [ne_eq, not_forall, not_not] at hnot
    obtain ⟨k, t, hfail⟩ := hnot
    obtain ⟨last, ap', hreaches, ⟨-, hpast⟩ | ⟨rest, j, q, out, rfl, hat, hdirective⟩⟩ :=
      reaches_of_fails (by decide) (At.start _) hfail
    · cases hpast
    · exact ⟨rest, ap', hreaches, overflowsIn_of_stops hat hdirective⟩

/-- `"%lld"` negates the minimum of `long long`. -/
theorem not_noSignedOverflow_minimum :
    ¬ ∀ (m : Machine) (fmt behind : List Byte), 0 ∉ fmt → ∀ st,
      m.NoSignedOverflow fmt behind st := by
  intro hclaim
  let m : Machine := ⟨fun _ => some (BitVec.intMin 64), fun _ => none, fun _ => none, none⟩
  let fmt := [byteOf '%', byteOf 'l', byteOf 'l', byteOf 'd']
  have hconversion : conversionAt [byteOf 'l', byteOf 'l', byteOf 'd', 0] = byteOf 'd' :: [0] := by
    decide
  have hover : m.Overflows (fmt ++ [0]) 0 :=
    ⟨_, 0, .here, Or.inr ⟨[0], by decide, hconversion, by decide⟩⟩
  obtain ⟨k, t, hfail⟩ := hover.fails []
  exact hclaim m fmt [] (by decide) ⟨[], 0⟩ k t hfail

end Misan.Machine
