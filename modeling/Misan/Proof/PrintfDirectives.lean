import Misan.Proof.PrintfNumbers

/-!
# Formats and their runs

A format is a list of pieces, each a literal character or a complete directive together with the
argument it takes. Its run is specified piece by piece: the pieces before it print what they should,
and it ends exactly when its width leaves nothing to pad.
-/

namespace Misan

/-! ### Formats -/

inductive LengthModifier where
  | none
  | l
  | ll
  | z
deriving DecidableEq

namespace LengthModifier

def text : LengthModifier → List Byte
  | none => []
  | l => [byteOf 'l']
  | ll => [byteOf 'l', byteOf 'l']
  | z => [byteOf 'z']

def longness : LengthModifier → Nat
  | none => 0
  | l => 1
  | ll => 2
  | z => 3

def bits : LengthModifier → Nat
  | none => 32
  | _ => 64

def vaArg : (m : LengthModifier) → BitVec m.bits → VaArg
  | none, v => .int v
  | l, v => .long v
  | ll, v => .longLong v
  | z, v => .long v

end LengthModifier

/-- A conversion character with the argument it takes. -/
inductive Conversion (m : LengthModifier) where
  | d (v : BitVec m.bits)
  | u (v : BitVec m.bits)
  | x (v : BitVec m.bits)
  | X (v : BitVec m.bits)
  | p (v : Addr)
  | s (v : Option (List Byte))
  | c (v : BitVec 32)
  | percent

namespace Conversion

variable {m : LengthModifier}

def byte : Conversion m → Byte
  | d _ => byteOf 'd'
  | u _ => byteOf 'u'
  | x _ => byteOf 'x'
  | X _ => byteOf 'X'
  | p _ => byteOf 'p'
  | s _ => byteOf 's'
  | c _ => byteOf 'c'
  | percent => byteOf '%'

def args : Conversion m → List VaArg
  | d v | u v | x v | X v => [m.vaArg v]
  | p v => [.ptr v]
  | s v => [.str v]
  | c v => [.int v]
  | percent => []

def output : Conversion m → List Byte
  | d v => signedText (v.signExtend 64)
  | u v => numeralBytes false 10 (v.setWidth 64).toNat
  | x v => numeralBytes false 16 (v.setWidth 64).toNat
  | X v => numeralBytes true 16 (v.setWidth 64).toNat
  | p v => [byteOf '0', byteOf 'x'] ++ numeralBytes false 16 v.toNat
  | s v => (v.getD nullString).takeWhile (· ≠ 0)
  | c v => [v.setWidth 8].takeWhile (· ≠ 0)
  | percent => [byteOf '%']

/-- The number at least fills the width. A `%p` has its width from the code, not from the format. -/
def Fills (width : Int) : Conversion m → Prop
  | d v => v.signExtend 64 ≠ BitVec.intMin 64
      ∧ digitWidth (v.signExtend 64) width ≤ (numeral 10 (magnitude (v.signExtend 64))).length
  | u v => width ≤ (numeral 10 (v.setWidth 64).toNat).length
  | x v | X v => width ≤ (numeral 16 (v.setWidth 64).toNat).length
  | p v => 16 ≤ (numeral 16 v.toNat).length
  | _ => True

end Conversion

instance neZero_digits : NeZero 10 := ⟨by decide⟩

/-- A complete directive. A width that began with `0` would be the flag. -/
structure Directive where
  zero : Bool
  width : List (Fin 10)
  modifier : LengthModifier
  conversion : Conversion modifier
  zero_of_width : width.head? = some 0 → zero = true

def widthFrom (start : Int) (width : List (Fin 10)) : Int :=
  width.foldl (fun w d => w * 10 + d.val) start

def widthDigit (d : Fin 10) : Byte := byteOf '0' + BitVec.ofNat 8 d.val

inductive Piece where
  | literal (c : Byte) (hzero : c ≠ 0) (hpercent : c ≠ byteOf '%')
  | directive (d : Directive)

namespace Piece

def text : Piece → List Byte
  | literal c _ _ => [c]
  | directive d => byteOf '%' :: ((if d.zero then [byteOf '0'] else []) ++
      (d.width.map widthDigit ++ (d.modifier.text ++ [d.conversion.byte])))

def args : Piece → List VaArg
  | literal _ _ _ => []
  | directive d => d.conversion.args

def output : Piece → List Byte
  | literal c _ _ => [c]
  | directive d => d.conversion.output

/-- The piece asks for no padding, and for a width an `int` holds. -/
def Fits : Piece → Prop
  | literal _ _ _ => True
  | directive d => widthFrom 0 d.width ≤ intMax ∧ d.conversion.Fills (widthFrom 0 d.width)

end Piece

def formatText (pieces : List Piece) : List Byte := pieces.flatMap Piece.text

def formatArgs (pieces : List Piece) : List VaArg := pieces.flatMap Piece.args

def formatOutput (pieces : List Piece) : List Byte := pieces.flatMap Piece.output

/-! ### The cursor -/

/-- What the format still holds at `p`. -/
def At (fmt : List Byte) (p : Nat) (rest : List Byte) : Prop :=
  ∃ done, fmt = done ++ rest ∧ p = done.length

section Cursor

variable {fmt rest : List Byte} {p : Nat} (st : PrintState)

theorem At.start (fmt : List Byte) : At fmt 0 fmt := ⟨[], rfl, rfl⟩

theorem At.skip {text : List Byte} (hat : At fmt p (text ++ rest)) :
    At fmt (p + text.length) rest := by
  obtain ⟨done, rfl, rfl⟩ := hat
  exact ⟨done ++ text, by simp, by simp⟩

theorem At.next {c : Byte} (hat : At fmt p (c :: rest)) : At fmt (p + 1) rest := by
  have hskip : At fmt p ([c] ++ rest) := hat
  exact hskip.skip

theorem drtRead_run (hat : At fmt p rest) : drtRead fmt p st = .ok (rest.headD 0) st := by
  obtain ⟨done, rfl, rfl⟩ := hat
  cases rest with
  | nil => simp [drtRead, pure, EStateM.pure]
  | cons c rest => simp [drtRead, pure, EStateM.pure]

theorem drtSkip_taken {α : Type} {c : Byte} (hat : At fmt p (c :: rest)) (v x : α) :
    drtSkip fmt c v p x st = .ok (p + 1, v) st := by
  rw [drtSkip, bind_run (drtRead_run st hat), List.headD_cons, if_pos rfl]
  rfl

theorem drtSkip_passed {α : Type} {c : Byte} (hat : At fmt p rest) (hc : rest.headD 0 ≠ c)
    (v x : α) : drtSkip fmt c v p x st = .ok (p, x) st := by
  rw [drtSkip, bind_run (drtRead_run st hat), if_neg hc]
  rfl

theorem drtLongness_run (m : LengthModifier) {c : Byte} (hat : At fmt p (m.text ++ c :: rest))
    (hl : c ≠ byteOf 'l') (hz : c ≠ byteOf 'z') :
    drtLongness fmt p st = .ok (p + m.text.length, m.longness) st := by
  have hlz : byteOf 'l' ≠ byteOf 'z' := by decide
  have hzl : byteOf 'z' ≠ byteOf 'l' := by decide
  rw [drtLongness]
  cases m with
  | none =>
      rw [bind_run (drtSkip_passed st hat hl 1 0)]
      dsimp only
      rw [bind_run (drtSkip_passed st hat hl 2 0)]
      exact drtSkip_passed st hat hz 3 0
  | l =>
      rw [bind_run (drtSkip_taken st hat 1 0)]
      dsimp only
      rw [bind_run (drtSkip_passed st hat.next hl 2 1)]
      exact drtSkip_passed st hat.next hz 3 1
  | ll =>
      rw [bind_run (drtSkip_taken st hat 1 0)]
      dsimp only
      rw [bind_run (drtSkip_taken st hat.next 2 1)]
      exact drtSkip_passed st hat.next.next hz 3 2
  | z =>
      rw [bind_run (drtSkip_passed st hat hzl 1 0)]
      dsimp only
      rw [bind_run (drtSkip_passed st hat hzl 2 0)]
      exact drtSkip_taken st hat 3 0

end Cursor

/-! ### The width -/

theorem checkedInt_fits {z : Int} (hz : 0 ≤ z) (hmax : z ≤ intMax) (st : PrintState) :
    checkedInt z st = .ok z st := by
  have hmin : -intMax - 1 ≤ z := by
    have : (0 : Int) ≤ intMax := by decide
    omega
  rw [checkedInt, if_pos ⟨hmin, hmax⟩]
  rfl

theorem checkedInt_overflows {z : Int} (hmax : intMax < z) (st : PrintState) :
    checkedInt z st = .error (.fault .signedOverflow) st := by
  rw [checkedInt, if_neg fun h => absurd h.2 (by omega)]
  rfl

theorem checkedInt_runs {z : Int} (hz : 0 ≤ z) (st : PrintState) :
    RunsIff (fun _ => checkedInt z) st (z ≤ intMax) z st := by
  by_cases hmax : z ≤ intMax
  · exact (RunsIff.step (checkedInt_fits hz hmax st)).congr_iff (by simp [hmax])
  · refine (RunsIff.never fun _ b t hrun => ?_).congr_iff (by simp [hmax])
    cases hrun.symm.trans (checkedInt_overflows (not_le.mp hmax) st)

theorem le_widthFrom (width : List (Fin 10)) {start : Int} (hstart : 0 ≤ start) :
    start ≤ widthFrom start width := by
  induction width generalizing start with
  | nil => exact Int.le_refl start
  | cons d width ih =>
      have htail := ih (show 0 ≤ start * 10 + (d.val : Int) by omega)
      rw [widthFrom, List.foldl_cons]
      rw [widthFrom] at htail
      omega

theorem widthDigit_toNat (d : Fin 10) :
    ((widthDigit d).toNat : Int) - (byteOf '0').toNat = d.val := by
  revert d
  decide

theorem widthDigit_isDigit (d : Fin 10) :
    byteOf '0' ≤ widthDigit d ∧ widthDigit d ≤ byteOf '9' := by
  revert d
  decide

theorem drtWidthLoop_digit {fmt rest : List Byte} {p : Nat} {d : Fin 10}
    (hat : At fmt p (widthDigit d :: rest)) (k : Nat) (start : Int) (st : PrintState) :
    drtWidthLoop fmt (k + 1) p start st = (checkedInt (start * 10) >>= fun scaled =>
      checkedInt (scaled + d.val) >>= drtWidthLoop fmt k (p + 1)) st := by
  rw [drtWidthLoop, bind_run (drtRead_run st hat), List.headD_cons, if_pos (widthDigit_isDigit d),
    widthDigit_toNat]

theorem drtWidthLoop_end {fmt rest : List Byte} {p : Nat} (hat : At fmt p rest)
    (hrest : ¬ (byteOf '0' ≤ rest.headD 0 ∧ rest.headD 0 ≤ byteOf '9')) (k : Nat) (start : Int)
    (st : PrintState) : drtWidthLoop fmt (k + 1) p start st = .ok (p, start) st := by
  rw [drtWidthLoop, bind_run (drtRead_run st hat), if_neg hrest]
  rfl

/-- **The width loop** ends behind the digits with the number they spell, if an `int` holds it. -/
theorem drtWidthLoop_runs {fmt rest : List Byte} (width : List (Fin 10)) {p : Nat} {start : Int}
    (hstart : 0 ≤ start) (hmax : start ≤ intMax) (hat : At fmt p (width.map widthDigit ++ rest))
    (hrest : ¬ (byteOf '0' ≤ rest.headD 0 ∧ rest.headD 0 ≤ byteOf '9')) (st : PrintState) :
    RunsIff (fun k => drtWidthLoop fmt k p start) st (widthFrom start width ≤ intMax)
      (p + width.length, widthFrom start width) st := by
  have hzero : ∀ b t, drtWidthLoop fmt 0 p start st ≠ .ok b t := by
    intro b t hrun
    cases hrun
  induction width generalizing p start with
  | nil =>
      refine RunsIff.congr_iff (P := True) ?_ (by simp [widthFrom, hmax])
      exact RunsIff.unroll hzero (fun k => drtWidthLoop_end hat hrest k start st)
        (RunsIff.step (x := pure (p, start)) rfl)
  | cons d width ih =>
      have hpos : 0 ≤ start * 10 := by omega
      have hpos' : 0 ≤ start * 10 + (d.val : Int) := by omega
      have hgrow := le_widthFrom width hpos'
      have htail := fun hle => ih hpos' hle hat.next (fun b t hrun => by cases hrun)
      have hcursor : p + 1 + width.length = p + (d :: width).length := by
        rw [List.length_cons]
        omega
      rw [hcursor] at htail
      have hbody := (checkedInt_runs hpos st).bind
        (f := fun k scaled => checkedInt (scaled + d.val) >>= drtWidthLoop fmt k (p + 1))
        fun _ => (checkedInt_runs hpos' st).bind htail
      apply RunsIff.unroll hzero (fun k => drtWidthLoop_digit hat k start st)
      apply hbody.congr_iff
      rw [show widthFrom start (d :: width) = widthFrom (start * 10 + d.val) width from rfl]
      constructor
      · rintro ⟨_, _, hle⟩
        exact hle
      · intro hle
        exact ⟨by omega, by omega, hle⟩

/-! ### Conversions -/

section Conversions

variable {m : LengthModifier} (out : List Byte) (ap : List VaArg)

theorem vaSigned_run (v : BitVec m.bits) :
    vaSigned m.longness ⟨out, m.vaArg v :: ap⟩ = .ok (v.signExtend 64) ⟨out, ap⟩ := by
  cases m with
  | none => rfl
  | l => exact congrArg (EStateM.Result.ok · _) (BitVec.signExtend_eq (x := v)).symm
  | ll => exact congrArg (EStateM.Result.ok · _) (BitVec.signExtend_eq (x := v)).symm
  | z => exact congrArg (EStateM.Result.ok · _) (BitVec.signExtend_eq (x := v)).symm

theorem vaUnsigned_run (v : BitVec m.bits) :
    vaUnsigned m.longness ⟨out, m.vaArg v :: ap⟩ = .ok (v.setWidth 64) ⟨out, ap⟩ := by
  cases m with
  | none => rfl
  | l => exact congrArg (EStateM.Result.ok · _) (BitVec.setWidth_eq v).symm
  | ll => exact congrArg (EStateM.Result.ok · _) (BitVec.setWidth_eq v).symm
  | z => exact congrArg (EStateM.Result.ok · _) (BitVec.setWidth_eq v).symm

/-- **A conversion** takes its argument, and ends if and only if the width asks for no padding. -/
theorem drtConvert_runs (conversion : Conversion m) (width : Int) (pad : Byte) :
    RunsIff (fun k => drtConvert k conversion.byte width pad m.longness)
      ⟨out, conversion.args ++ ap⟩ (conversion.Fills width) ()
      ⟨out ++ conversion.output, ap⟩ := by
  cases conversion with
  | d v => exact RunsIff.step_bind (vaSigned_run out ap v) (drtPutsn_runs _ width pad ⟨out, ap⟩)
  | u v =>
      exact RunsIff.step_bind (vaUnsigned_run out ap v)
        (drtPutn_runs (Or.inl rfl) _ width pad false ⟨out, ap⟩)
  | x v =>
      exact RunsIff.step_bind (vaUnsigned_run out ap v)
        (drtPutn_runs (Or.inr rfl) _ width pad false ⟨out, ap⟩)
  | X v =>
      exact RunsIff.step_bind (vaUnsigned_run out ap v)
        (drtPutn_runs (Or.inr rfl) _ width pad true ⟨out, ap⟩)
  | p v =>
      have hzerox : drtPuts [byteOf '0', byteOf 'x'] ⟨out, .ptr v :: ap⟩
          = .ok () ⟨out ++ [byteOf '0', byteOf 'x'], .ptr v :: ap⟩ := rfl
      have hnumber := drtPutn_runs (Or.inr rfl) v 16 (byteOf '0') false
        ⟨out ++ [byteOf '0', byteOf 'x'], ap⟩
      rw [PrintState.print, List.append_assoc] at hnumber
      exact RunsIff.step_bind hzerox (RunsIff.step_bind (x := vaPtr) rfl
        (hnumber.congr_iff (by simp [Conversion.Fills])))
  | s v => exact RunsIff.step_bind (x := vaStr) rfl (RunsIff.step rfl)
  | c v =>
      have hchar : drtPutchar (v.setWidth 8) ⟨out, ap⟩
          = .ok () ⟨out ++ (Conversion.c v : Conversion m).output, ap⟩ := by
        by_cases hc : v.setWidth 8 = (0 : Byte)
        · rw [Conversion.output, hc]
          rfl
        · rw [drtPutchar_run _ hc, Conversion.output,
            List.takeWhile_cons_of_pos (by simpa using hc)]
          rfl
      exact RunsIff.step_bind (x := vaInt) rfl (RunsIff.step hchar)
  | percent => exact RunsIff.step (drtPutchar_run _ (by decide))

end Conversions

/-! ### Directives and formats -/

theorem Conversion.byte_ne {m : LengthModifier} (conversion : Conversion m) :
    conversion.byte ≠ byteOf '0' ∧ conversion.byte ≠ byteOf 'l' ∧ conversion.byte ≠ byteOf 'z'
      ∧ ¬ (byteOf '0' ≤ conversion.byte ∧ conversion.byte ≤ byteOf '9') := by
  cases conversion <;> simp only [Conversion.byte] <;> decide

theorem headD_modifier (m : LengthModifier) (c : Byte) (rest : List Byte)
    (hc : ¬ (byteOf '0' ≤ c ∧ c ≤ byteOf '9')) :
    ¬ (byteOf '0' ≤ (m.text ++ c :: rest).headD 0 ∧
      (m.text ++ c :: rest).headD 0 ≤ byteOf '9') := by
  cases m with
  | none => exact hc
  | l => exact (by decide : ¬ (byteOf '0' ≤ byteOf 'l' ∧ byteOf 'l' ≤ byteOf '9'))
  | ll => exact (by decide : ¬ (byteOf '0' ≤ byteOf 'l' ∧ byteOf 'l' ≤ byteOf '9'))
  | z => exact (by decide : ¬ (byteOf '0' ≤ byteOf 'z' ∧ byteOf 'z' ≤ byteOf '9'))

theorem Directive.headD_width (d : Directive) (hzero : d.zero = false) (rest : List Byte) :
    (d.width.map widthDigit ++ (d.modifier.text ++ d.conversion.byte :: rest)).headD 0
      ≠ byteOf '0' := by
  cases hwidth : d.width with
  | nil =>
      intro hhead
      have hdigit := headD_modifier d.modifier d.conversion.byte rest d.conversion.byte_ne.2.2.2
      rw [List.map_nil, List.nil_append] at hhead
      rw [hhead] at hdigit
      exact hdigit (by decide)
  | cons w width =>
      have hw : w ≠ 0 := by
        rintro rfl
        have := d.zero_of_width (by rw [hwidth]; rfl)
        rw [hzero] at this
        cases this
      have hdigit : ∀ i : Fin 10, i ≠ 0 → widthDigit i ≠ byteOf '0' := by decide
      exact hdigit w hw

/-- **A directive** ends if and only if its conversion does under the width it spells. -/
theorem drtDirective_runs (d : Directive) {fmt rest : List Byte} {p : Nat} (out : List Byte)
    (ap : List VaArg) (hat : At fmt p ((if d.zero then [byteOf '0'] else []) ++
      (d.width.map widthDigit ++ (d.modifier.text ++ d.conversion.byte :: rest)))) :
    ∃ p', At fmt p' (d.conversion.byte :: rest) ∧
      RunsIff (fun k => drtDirective k fmt p) ⟨out, d.conversion.args ++ ap⟩
        (widthFrom 0 d.width ≤ intMax ∧ d.conversion.Fills (widthFrom 0 d.width)) p'
        ⟨out ++ d.conversion.output, ap⟩ := by
  obtain ⟨_, hl, hz, hdigit⟩ := d.conversion.byte_ne
  let st : PrintState := ⟨out, d.conversion.args ++ ap⟩
  obtain ⟨p₁, pad, hflag, hat₁⟩ : ∃ p₁ pad,
      drtSkip fmt (byteOf '0') (byteOf '0') p (byteOf ' ') st = .ok (p₁, pad) st ∧
      At fmt p₁ (d.width.map widthDigit ++ (d.modifier.text ++ d.conversion.byte :: rest)) := by
    cases hzero : d.zero with
    | true =>
        rw [hzero, if_pos rfl] at hat
        exact ⟨p + 1, byteOf '0', drtSkip_taken st hat _ _, hat.next⟩
    | false =>
        rw [hzero, if_neg (by decide), List.nil_append] at hat
        exact ⟨p, byteOf ' ', drtSkip_passed st hat (d.headD_width hzero rest) _ _, hat⟩
  have hwidth := drtWidthLoop_runs d.width (Int.le_refl 0) (by decide) hat₁
    (headD_modifier d.modifier d.conversion.byte rest hdigit) st
  have hat₂ := hat₁.skip
  rw [List.length_map] at hat₂
  have hlong := drtLongness_run st d.modifier hat₂ hl hz
  have hat₃ := hat₂.skip
  refine ⟨_, hat₃, RunsIff.step_bind hflag (hwidth.bind fun _ =>
    RunsIff.step_bind hlong (RunsIff.step_bind (drtRead_run st hat₃) ?_))⟩
  have hconvert := drtConvert_runs out ap d.conversion (widthFrom 0 d.width) pad
  exact (hconvert.bind fun _ => RunsIff.step (x := pure (p₁ + d.width.length
    + d.modifier.text.length)) rfl).congr_iff (Iff.of_eq (and_true _))

theorem drtVprintfLoop_zero (fmt : List Byte) (p : Nat) (st : PrintState) (b : Unit)
    (t : PrintState) : drtVprintfLoop fmt 0 p st ≠ .ok b t := by
  intro hrun
  cases hrun

theorem formatText_directive (d : Directive) (pieces : List Piece) :
    formatText (.directive d :: pieces) = byteOf '%' :: ((if d.zero then [byteOf '0'] else []) ++
      (d.width.map widthDigit ++
        (d.modifier.text ++ d.conversion.byte :: formatText pieces))) := by
  rw [formatText, List.flatMap_cons, Piece.text, List.cons_append, List.append_assoc,
    List.append_assoc, List.append_assoc]
  rfl

/-- **The format loop** ends if and only if every piece asks for no padding, and has then printed
what they all stand for. -/
theorem drtVprintfLoop_runs (pieces : List Piece) {fmt : List Byte} {p : Nat}
    (hat : At fmt p (formatText pieces)) (out : List Byte) (ap : List VaArg) :
    RunsIff (fun k => drtVprintfLoop fmt k p) ⟨out, formatArgs pieces ++ ap⟩
      (∀ piece ∈ pieces, piece.Fits) () ⟨out ++ formatOutput pieces, ap⟩ := by
  induction pieces generalizing p out with
  | nil =>
      refine RunsIff.congr_iff (P := True) ?_ (by simp)
      refine RunsIff.unroll (drtVprintfLoop_zero fmt p _) (fun k => ?_)
        (RunsIff.step (x := pure ()) (by simp [formatOutput, formatArgs]; rfl))
      rw [drtVprintfLoop, bind_run (drtRead_run _ hat)]
      rfl
  | cons piece pieces ih =>
      cases piece with
      | literal c hzero hpercent =>
          have htail := ih (At.next hat) (out ++ [c])
          have hbody := RunsIff.step_bind (f := fun k _ => drtVprintfLoop fmt k (p + 1))
            (drtPutchar_run ⟨out, formatArgs pieces ++ ap⟩ hzero) htail
          rw [List.append_assoc] at hbody
          refine RunsIff.unroll (drtVprintfLoop_zero fmt p _) (fun k => ?_)
            (hbody.congr_iff ?_)
          · rw [drtVprintfLoop, bind_run (drtRead_run _ hat)]
            exact (congrFun (if_neg hzero) _).trans (congrFun (if_pos hpercent) _)
          · simp [Piece.Fits]
      | directive d =>
          have hpercent : byteOf '%' ≠ 0 := by decide
          rw [formatText_directive] at hat
          obtain ⟨p', hat', hrun⟩ := drtDirective_runs d out (formatArgs pieces ++ ap) hat.next
          have hbody := hrun.bind (f := fun k q => drtVprintfLoop fmt k (q + 1)) fun _ =>
            ih hat'.next (out ++ d.conversion.output)
          rw [List.append_assoc, ← List.append_assoc d.conversion.args] at hbody
          refine RunsIff.unroll (drtVprintfLoop_zero fmt p _) (fun k => ?_)
            (hbody.congr_iff ?_)
          · rw [drtVprintfLoop, bind_run (drtRead_run _ hat)]
            exact (congrFun (if_neg hpercent) _).trans (congrFun (if_neg (not_not.mpr rfl)) _)
          · simp [Piece.Fits]

/-- **Termination.** `drt_putn` ends exactly where the numeral fills the width, and `drt_vprintf`
exactly where no piece of the format asks for padding. -/
theorem drtVprintf_finishes_iff {base : Nat} (hbase : base = 10 ∨ base = 16) (n : BitVec 64)
    (width : Int) (pad : Byte) (upper : Bool) (st : PrintState) (pieces : List Piece)
    (out : List Byte) (ap : List VaArg) :
    (Finishes (fun k => drtPutn k n base width pad upper) st ↔
        width ≤ (numeral base n.toNat).length) ∧
      (Finishes (fun k => drtVprintf k (formatText pieces)) ⟨out, formatArgs pieces ++ ap⟩ ↔
        ∀ piece ∈ pieces, piece.Fits) := by
  constructor
  · exact (drtPutn_runs hbase n width pad upper st).finishes_iff
  · exact (drtVprintfLoop_runs pieces (At.start _) out ap).finishes_iff

def twoDigits : Directive where
  zero := true
  width := [2]
  modifier := .none
  conversion := .x 255
  zero_of_width := fun _ => rfl

theorem drtVprintf_finishes_twoDigits :
    Finishes (fun k => drtPutn k 255 16 2 (byteOf '0') false) ⟨[], []⟩ ∧
      Finishes (fun k => drtVprintf k (formatText [.directive twoDigits]))
        ⟨[], formatArgs [.directive twoDigits] ++ []⟩ := by
  have hlong : (2 : Int) ≤ (numeral 16 255).length := by
    have hne : ¬ (numeral 16 255).length ≤ 1 := by
      rw [length_numeral_le_iff (by decide) (by decide)]
      decide
    omega
  obtain ⟨hputn, hvprintf⟩ := drtVprintf_finishes_iff (Or.inr rfl) 255 2 (byteOf '0') false
    ⟨[], []⟩ [.directive twoDigits] [] []
  refine ⟨hputn.mpr hlong, hvprintf.mpr fun piece hpiece => ?_⟩
  obtain rfl := List.mem_singleton.mp hpiece
  exact ⟨by decide, hlong⟩

/-- A pointer in the lower half of the address space has too few digits for the width of `%p`. -/
theorem not_finishes_pointer :
    ¬ Finishes (fun k => drtVprintf k [byteOf '%', byteOf 'p']) ⟨[], [.ptr 0x1000]⟩ ∧
      ¬ Finishes (fun k => drtPutn k 0x1000 16 16 (byteOf '0') false) ⟨[], []⟩ := by
  have hshort : ¬ 16 ≤ (numeral 16 0x1000).length := by
    have hle : (numeral 16 0x1000).length ≤ 4 := by
      rw [length_numeral_le_iff (by decide) (by decide)]
      decide
    omega
  let pointer : Directive :=
    { zero := false, width := [], modifier := .none, conversion := .p 0x1000,
      zero_of_width := fun h => by cases h }
  constructor
  · intro hfinishes
    have hfits := (drtVprintfLoop_runs [.directive pointer] (At.start _) [] []).finishes_iff.mp
      hfinishes
    exact hshort (hfits _ (List.mem_singleton_self _)).2
  · intro hfinishes
    have hfills := (drtPutn_runs (Or.inr rfl) _ 16 _ false _).finishes_iff.mp hfinishes
    exact hshort (by exact_mod_cast hfills)

end Misan
