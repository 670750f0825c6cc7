import Misan.Foundation.Frames
import Misan.Proof.PrintfDirectives
import Misan.Proof.PrintfParts
import Mathlib.Data.List.TakeWhile

/-!
# Directives as text

What a directive spells can be read off the text behind its `%`: the flag, the digits of a width,
the length letters, and the conversion character behind them. The scan of the printer comes to that.
-/

namespace Misan

/-! ### A directive, read off the format -/

def IsDigit (c : Byte) : Prop := byteOf '0' ≤ c ∧ c ≤ byteOf '9'

instance (c : Byte) : Decidable (IsDigit c) := inferInstanceAs (Decidable (_ ∧ _))

def skipByte (c : Byte) (text : List Byte) : List Byte :=
  if text.headD 0 = c then text.tail else text

def afterFlag (text : List Byte) : List Byte := skipByte (byteOf '0') text

def spelledDigits (text : List Byte) : List Byte := (afterFlag text).takeWhile (IsDigit ·)

def afterWidth (text : List Byte) : List Byte := (afterFlag text).dropWhile (IsDigit ·)

/-- The number the digits at the front of a directive spell. -/
def spelledWidth (text : List Byte) : Int :=
  (spelledDigits text).foldl (fun w c => w * 10 + ((c.toNat : Int) - (byteOf '0').toNat)) 0

def spelledLongness (text : List Byte) : Nat :=
  if (skipByte (byteOf 'l') (skipByte (byteOf 'l') (afterWidth text))).headD 0 = byteOf 'z' then 3
  else if (skipByte (byteOf 'l') (afterWidth text)).headD 0 = byteOf 'l' then 2
  else if (afterWidth text).headD 0 = byteOf 'l' then 1
  else 0

/-- The text from the conversion character on. It is empty when the format ends before one. -/
def conversionAt (text : List Byte) : List Byte :=
  skipByte (byteOf 'z') (skipByte (byteOf 'l') (skipByte (byteOf 'l') (afterWidth text)))

theorem skipByte_nil (c : Byte) : skipByte c [] = [] := by
  rw [skipByte, List.tail_nil, ite_self]

theorem skipByte_eq_cons {c c' : Byte} {text rest : List Byte} (h : skipByte c text = c' :: rest) :
    ∃ first tail, text = first :: tail := by
  apply List.exists_cons_of_ne_nil
  rintro rfl
  rw [skipByte_nil] at h
  cases h

def conversionBytes : List Byte := ['d', 'u', 'x', 'X', 'p', 's', 'c', '%'].map byteOf

/-- The conversion character `c` goes through with the arguments `ap` and leaves `ap'`: it is one of
the eight, finds its argument and asks for no padding, or it is an unknown one. -/
def ConversionTakes (c : Byte) (width : Int) (longness : Nat) (ap ap' : List VaArg) : Prop :=
  (∃ (m : LengthModifier) (conversion : Conversion m), m.longness = longness ∧
    conversion.byte = c ∧ ap = conversion.args ++ ap' ∧ conversion.Fills width) ∨
  (c ∉ conversionBytes ∧ ap' = ap)

/-! ### Scanning a directive -/

section Scanning

variable {fmt text : List Byte} {p : Nat} (st : PrintState)

theorem drtSkip_run {α : Type} {c : Byte} (hc : c ≠ 0) (hat : At fmt p text) (v x : α) :
    ∃ p', drtSkip fmt c v p x st = .ok (p', if text.headD 0 = c then v else x) st ∧
      At fmt p' (skipByte c text) := by
  by_cases hhead : text.headD 0 = c
  · cases text with
    | nil => exact absurd hhead.symm hc
    | cons c' text =>
        obtain rfl : c' = c := hhead
        refine ⟨p + 1, ?_, ?_⟩
        · rw [List.headD_cons, if_pos rfl, drtSkip_taken st hat]
        · rw [skipByte, List.headD_cons, if_pos rfl]
          exact hat.next
  · refine ⟨p, ?_, ?_⟩
    · rw [if_neg hhead, drtSkip_passed st hat hhead]
    · rwa [skipByte, if_neg hhead]

theorem drtLongness_scan (hat : At fmt p (afterWidth text)) :
    ∃ p', drtLongness fmt p st = .ok (p', spelledLongness text) st ∧
      At fmt p' (conversionAt text) := by
  have hl : byteOf 'l' ≠ 0 := by decide
  have hz : byteOf 'z' ≠ 0 := by decide
  obtain ⟨p₁, hfirst, hat₁⟩ := drtSkip_run st hl hat 1 0
  obtain ⟨p₂, hsecond, hat₂⟩ :=
    drtSkip_run st hl hat₁ 2 (if (afterWidth text).headD 0 = byteOf 'l' then 1 else 0)
  obtain ⟨p₃, hthird, hat₃⟩ := drtSkip_run st hz hat₂ 3
    (if (skipByte (byteOf 'l') (afterWidth text)).headD 0 = byteOf 'l' then 2
      else if (afterWidth text).headD 0 = byteOf 'l' then 1 else 0)
  refine ⟨p₃, ?_, hat₃⟩
  rw [drtLongness, bind_run hfirst]
  dsimp only
  rw [bind_run hsecond]
  exact hthird

theorem exists_widthDigit {c : Byte} (hc : IsDigit c) : ∃ d : Fin 10, widthDigit d = c := by
  obtain ⟨hlow, hhigh⟩ := hc
  rw [BitVec.le_def, show (byteOf '0').toNat = 48 from rfl] at hlow
  rw [BitVec.le_def, show (byteOf '9').toNat = 57 from rfl] at hhigh
  refine ⟨⟨c.toNat - 48, by omega⟩, BitVec.eq_of_toNat_eq ?_⟩
  rw [widthDigit, BitVec.toNat_add, BitVec.toNat_ofNat, show (byteOf '0').toNat = 48 from rfl]
  dsimp only
  omega

/-- Digits in the format, as the numbers they stand for. -/
theorem exists_width (digits : List Byte) (hdigits : ∀ c ∈ digits, IsDigit c) :
    ∃ width : List (Fin 10), digits = width.map widthDigit ∧ ∀ start,
      digits.foldl (fun w c => w * 10 + ((c.toNat : Int) - (byteOf '0').toNat)) start
        = widthFrom start width := by
  induction digits with
  | nil => exact ⟨[], rfl, fun _ => rfl⟩
  | cons c digits ih =>
      obtain ⟨width, hwidth, hfold⟩ := ih fun c' hc' => hdigits c' (List.mem_cons_of_mem _ hc')
      obtain ⟨d, rfl⟩ := exists_widthDigit (hdigits c (List.mem_cons_self ..))
      refine ⟨d :: width, by rw [hwidth, List.map_cons], fun start => ?_⟩
      rw [List.foldl_cons, hfold, widthDigit_toNat]
      rfl

theorem not_isDigit_afterWidth (text : List Byte) : ¬ IsDigit ((afterWidth text).headD 0) := by
  have hzero : ¬ IsDigit 0 := by decide
  cases hrest : afterWidth text with
  | nil => exact hzero
  | cons c rest =>
      have hhead := List.head?_dropWhile_not (fun c => decide (IsDigit c)) (afterFlag text)
      rw [← afterWidth, hrest] at hhead
      simpa using hhead

theorem exists_spelledWidth (text : List Byte) :
    ∃ width : List (Fin 10), afterFlag text = width.map widthDigit ++ afterWidth text ∧
      spelledWidth text = widthFrom 0 width := by
  obtain ⟨width, hdigits, hfold⟩ := exists_width (spelledDigits text) fun c hc => by
    simpa using List.mem_takeWhile_imp hc
  refine ⟨width, ?_, hfold 0⟩
  rw [← hdigits]
  exact (List.takeWhile_append_dropWhile).symm

theorem drtWidthLoop_scan (hat : At fmt p (afterFlag text)) :
    ∃ p', At fmt p' (afterWidth text) ∧
      RunsIff (fun k => drtWidthLoop fmt k p 0) st (spelledWidth text ≤ intMax)
        (p', spelledWidth text) st := by
  obtain ⟨width, hsplit, hspelled⟩ := exists_spelledWidth text
  rw [hsplit] at hat
  have hruns := drtWidthLoop_runs width (Int.le_refl 0) (by decide) hat
    (not_isDigit_afterWidth text) st
  rw [← hspelled] at hruns
  have hat' := hat.skip
  rw [List.length_map] at hat'
  exact ⟨_, hat', hruns⟩

end Scanning

theorem neverFails_ok {α : Type} {e : PrintStop} {x : Print α}
    (hok : ∀ s, ∃ a s', x s = .ok a s') : NeverFails e x := by
  intro s t hfail
  obtain ⟨a, s', hrun⟩ := hok s
  rw [hrun] at hfail
  cases hfail

theorem neverFails_throw {α : Type} {e e' : PrintStop} (hne : e ≠ e') :
    NeverFails e' (throw e : Print α) := by
  intro s t hfail
  cases hfail
  exact hne rfl

/-! ### Converting -/

section Converting

variable {m : LengthModifier} {c : Byte} {width : Int} {longness : Nat} {out : List Byte}
  {ap ap' : List VaArg} {t : PrintState}

theorem drtConvert_unknown (hc : c ∉ conversionBytes) (k : Nat) (pad : Byte) :
    drtConvert k c width pad longness ⟨out, ap⟩
      = .ok () ⟨out ++ [byteOf '%'] ++ [c, 0].takeWhile (· ≠ 0), ap⟩ := by
  simp only [conversionBytes, List.map_cons, List.map_nil, List.mem_cons, List.not_mem_nil,
    or_false, not_or] at hc
  obtain ⟨hd, hu, hx, hX, hp, hs, hc, hpercent⟩ := hc
  rw [drtConvert, if_neg hd, if_neg hu, if_neg hx, if_neg hX, if_neg hp, if_neg hs, if_neg hc,
    if_neg hpercent]
  rfl

theorem ConversionTakes.runs (htakes : ConversionTakes c width longness ap ap') (pad : Byte)
    (out : List Byte) :
    ∃ out' N, ∀ k, N ≤ k →
      drtConvert k c width pad longness ⟨out, ap⟩ = .ok () ⟨out', ap'⟩ := by
  rcases htakes with ⟨m, conversion, rfl, rfl, rfl, hfills⟩ | ⟨hunknown, rfl⟩
  · obtain ⟨N, hN⟩ := (drtConvert_runs out ap' conversion width pad).total hfills
    exact ⟨_, N, hN⟩
  · exact ⟨_, 0, fun k _ => drtConvert_unknown hunknown k pad⟩

end Converting

/-! ### Errors that no printing makes -/

theorem printClosed_neverFails {e : PrintStop} (hbudget : .outOfBudget ≠ e) :
    PrintClosed (NeverFails e) where
  pure a := neverFails_ok fun s => ⟨a, s, rfl⟩
  bind := NeverFails.bind
  print _ := neverFails_ok fun _ => ⟨(), _, rfl⟩
  outOfBudget := neverFails_throw hbudget

/-! ### Directives and the format loop -/

section Formats

variable {fmt text : List Byte} {p : Nat}

/-- What scanning a directive from `p` comes to: the width loop decides whether the conversion is
made, and the cursor then stands at `p'`, on the conversion character. -/
structure DirectiveScan (fmt text : List Byte) (p : Nat) (st : PrintState) (p' : Nat) (pad : Byte) :
    Prop where
  stands : At fmt p' (conversionAt text)
  sound : ∀ k q t, drtDirective k fmt p st = .ok q t →
    spelledWidth text ≤ intMax ∧ q = p' ∧ drtConvert k ((conversionAt text).headD 0)
      (spelledWidth text) pad (spelledLongness text) st = .ok () t
  total : spelledWidth text ≤ intMax → ∃ N, ∀ k, N ≤ k → ∀ t, drtConvert k
      ((conversionAt text).headD 0) (spelledWidth text) pad (spelledLongness text) st = .ok () t →
    drtDirective k fmt p st = .ok p' t

/-- **A directive** is its width loop and, behind it, the conversion with what the text spells. -/
theorem exists_directive_eq (hat : At fmt p text) (st : PrintState) :
    ∃ p₁ p' pad, At fmt p₁ (afterFlag text) ∧ At fmt p' (conversionAt text) ∧
      ∀ k, drtDirective k fmt p st = (drtWidthLoop fmt k p₁ 0 >>= fun _ =>
        drtConvert k ((conversionAt text).headD 0) (spelledWidth text) pad (spelledLongness text)
          >>= fun _ => pure p') st := by
  have hzero : byteOf '0' ≠ 0 := by decide
  obtain ⟨p₁, hflag, hat₁⟩ := drtSkip_run st hzero hat (byteOf '0') (byteOf ' ')
  obtain ⟨p₂, hat₂, hwidth⟩ := drtWidthLoop_scan st hat₁
  obtain ⟨p₃, hlength, hat₃⟩ := drtLongness_scan st hat₂
  let pad := if text.headD 0 = byteOf '0' then byteOf '0' else byteOf ' '
  refine ⟨p₁, p₃, pad, hat₁, hat₃, fun k => ?_⟩
  rw [drtDirective, bind_run hflag]
  apply bind_congr_run (x := drtWidthLoop fmt k p₁ 0) rfl
  intro r s hloop
  obtain ⟨-, rfl, rfl⟩ := hwidth.sound _ _ _ hloop
  dsimp only
  rw [bind_run hlength]
  dsimp only
  rw [bind_run (drtRead_run _ hat₃)]

theorem exists_directiveScan (hat : At fmt p text) (st : PrintState) :
    ∃ p' pad, DirectiveScan fmt text p st p' pad := by
  obtain ⟨p₁, p', pad, hat₁, hat', hdirective⟩ := exists_directive_eq hat st
  obtain ⟨p₂, -, hwidth⟩ := drtWidthLoop_scan st hat₁
  refine ⟨p', pad, hat', fun k q t hok => ?_, fun hle => ?_⟩
  · rw [hdirective] at hok
    obtain ⟨_, s, hloop, hrest⟩ := bind_eq_ok.mp hok
    obtain ⟨hle, -, rfl⟩ := hwidth.sound _ _ _ hloop
    obtain ⟨⟨⟩, s', hconvert, hpure⟩ := bind_eq_ok.mp hrest
    cases hpure
    exact ⟨hle, rfl, hconvert⟩
  · obtain ⟨N, hN⟩ := hwidth.total hle
    refine ⟨N, fun k hk t hconvert => ?_⟩
    rw [hdirective, bind_run (hN k hk), bind_run hconvert]
    rfl

theorem drtVprintfLoop_literal {c : Byte} (hat : At fmt p (c :: text)) (hzero : c ≠ 0)
    (hpercent : c ≠ byteOf '%') (k : Nat) (st : PrintState) :
    drtVprintfLoop fmt (k + 1) p st = drtVprintfLoop fmt k (p + 1) (st.print [c]) := by
  rw [drtVprintfLoop, bind_run (drtRead_run _ hat), List.headD_cons, if_neg hzero, if_pos hpercent,
    bind_run (drtPutchar_run st hzero)]

theorem drtVprintfLoop_percent (hat : At fmt p (byteOf '%' :: text)) (k : Nat) (st : PrintState) :
    drtVprintfLoop fmt (k + 1) p st
      = (drtDirective k fmt (p + 1) >>= fun q => drtVprintfLoop fmt k (q + 1)) st := by
  rw [drtVprintfLoop, bind_run (drtRead_run _ hat), List.headD_cons, if_neg (by decide),
    if_neg (not_not.mpr rfl)]

end Formats

end Misan
