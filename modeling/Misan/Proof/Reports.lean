import Misan.Report
import Misan.Proof.PrintfDirectives

/-!
# When a report is printed to its end

A number in a report stops the printer unless it has as many digits as its width asks for. The only
widths in the reports are those of `%p` and `%016llx`, sixteen hexadecimal digits each; every other
directive is printed whatever its argument.
-/

namespace Misan

/-- The number has sixteen hexadecimal digits. -/
def SixteenDigits (v : BitVec 64) : Prop := 16 ^ 15 ≤ v.toNat

theorem sixteenDigits_iff (v : BitVec 64) : SixteenDigits v ↔ 16 ≤ (numeral 16 v.toNat).length := by
  have hshort := length_numeral_le_iff (n := v.toNat) (show 1 < 16 by decide)
    (show 0 < 15 by decide)
  rw [SixteenDigits, ← not_lt, ← hshort]
  omega

/-! ### Formats of the sources -/

def textPieces (text : List Byte) : List Piece :=
  text.filterMap fun c =>
    if h : c ≠ 0 ∧ c ≠ byteOf '%' then some (.literal c h.1 h.2) else none

def plainPiece {m : LengthModifier} (conversion : Conversion m) : Piece :=
  .directive ⟨false, [], m, conversion, fun h => by cases h⟩

theorem textPieces_fits {text : List Byte} {piece : Piece} (hpiece : piece ∈ textPieces text) :
    piece.Fits := by
  obtain ⟨c, -, hc⟩ := List.mem_filterMap.mp hpiece
  split at hc
  · cases hc
    exact trivial
  · cases hc

theorem formatArgs_textPieces (text : List Byte) : formatArgs (textPieces text) = [] := by
  rw [formatArgs, List.flatMap_eq_nil_iff]
  intro piece hpiece
  obtain ⟨c, -, hc⟩ := List.mem_filterMap.mp hpiece
  split at hc
  · cases hc
    rfl
  · cases hc

theorem widthFrom_nil_le : widthFrom 0 [] ≤ intMax := by decide

theorem plainPiece_fits_u {m : LengthModifier} (v : BitVec m.bits) :
    (plainPiece (.u v)).Fits :=
  ⟨widthFrom_nil_le, Int.natCast_nonneg _⟩

theorem plainPiece_fits_d (v : BitVec 32) : (plainPiece (m := .none) (.d v)).Fits := by
  have hle : 32 ≤ 64 := by decide
  have hmin : v.signExtend 64 ≠ BitVec.intMin 64 := by
    intro heq
    have hint : v.toInt = -2 ^ 63 :=
      calc v.toInt = (v.signExtend 64).toInt := (BitVec.toInt_signExtend_of_le hle).symm
        _ = -2 ^ 63 := by rw [heq]; rfl
    have hlow := BitVec.le_toInt v
    omega
  have hwidth : digitWidth (v.signExtend 64) (widthFrom 0 [])
      ≤ (numeral 10 (magnitude (v.signExtend 64))).length := by
    simp [digitWidth, widthFrom]
  exact ⟨widthFrom_nil_le, hmin, hwidth⟩

theorem plainPiece_fits_p (v : Addr) :
    (plainPiece (m := .none) (.p v)).Fits ↔ SixteenDigits v := by
  rw [sixteenDigits_iff]
  exact and_iff_right widthFrom_nil_le

/-! ### Printing -/

theorem drtPrintf_runs (pieces : List Piece) {fmt : List Byte} {args : List VaArg}
    (hfmt : fmt = formatText pieces) (hargs : args = formatArgs pieces) (st : PrintState) :
    RunsIff (fun k => drtPrintf k fmt args) st (∀ piece ∈ pieces, piece.Fits) ()
      ⟨st.out ++ formatOutput pieces, []⟩ := by
  subst hfmt hargs
  have hloop := drtVprintfLoop_runs pieces (At.start _) st.out []
  rw [List.append_nil] at hloop
  exact RunsIff.step_bind (f := fun k _ => drtVprintf k (formatText pieces)) rfl hloop

theorem drtPuts_run (text : List Byte) (st : PrintState) :
    drtPuts text st = .ok () ⟨st.out ++ text.takeWhile (· ≠ 0), st.ap⟩ := rfl

/-- Whatever is printed already, `x` ends if and only if `P` holds, and has then printed `text`. -/
def PrintsIff (x : Nat → Print Unit) (P : Prop) (text : List Byte) : Prop :=
  ∀ st, ∃ ap, RunsIff x st P () ⟨st.out ++ text, ap⟩

namespace PrintsIff

variable {x y : Nat → Print Unit} {P Q : Prop} {text text' : List Byte}

theorem endsIff (h : PrintsIff x P text) : EndsIff x P () := by
  intro st
  obtain ⟨ap, hrun⟩ := h st
  exact ⟨_, hrun⟩

theorem congr_iff (h : PrintsIff x P text) (hPQ : P ↔ Q) : PrintsIff x Q text := by
  intro st
  obtain ⟨ap, hrun⟩ := h st
  exact ⟨ap, hrun.congr_iff hPQ⟩

theorem seq (hx : PrintsIff x P text) (hy : PrintsIff y Q text') :
    PrintsIff (fun n => x n >>= fun _ => y n) (P ∧ Q) (text ++ text') := by
  intro st
  obtain ⟨ap, hx⟩ := hx st
  obtain ⟨ap', hy⟩ := hy ⟨st.out ++ text, ap⟩
  rw [List.append_assoc] at hy
  exact ⟨ap', hx.bind (f := fun n _ => y n) fun _ => hy⟩

end PrintsIff

section Returning

variable {α β : Type} {x : Nat → Print α} {f : Nat → α → Print β} {P Q : Prop} {a : α} {b : β}
  {text text' : List Byte}

/-- Whatever is printed already, `x` ends if and only if `P` holds, with `a` and behind `text`. -/
def PrintsReturning (x : Nat → Print α) (P : Prop) (a : α) (text : List Byte) : Prop :=
  ∀ st, ∃ ap, RunsIff x st P a ⟨st.out ++ text, ap⟩

namespace PrintsReturning

theorem congr_iff (h : PrintsReturning x P a text) (hPQ : P ↔ Q) :
    PrintsReturning x Q a text := by
  intro st
  obtain ⟨ap, hrun⟩ := h st
  exact ⟨ap, hrun.congr_iff hPQ⟩

theorem pure (a : α) : PrintsReturning (fun _ => Pure.pure a) True a [] := by
  intro st
  rw [List.append_nil]
  exact ⟨st.ap, RunsIff.step rfl⟩

theorem bind (hx : PrintsReturning x P a text)
    (hf : PrintsReturning (fun n => f n a) Q b text') :
    PrintsReturning (fun n => x n >>= f n) (P ∧ Q) b (text ++ text') := by
  intro st
  obtain ⟨ap, hx⟩ := hx st
  obtain ⟨ap', hf⟩ := hf ⟨st.out ++ text, ap⟩
  rw [List.append_assoc] at hf
  exact ⟨ap', hx.bind fun _ => hf⟩

end PrintsReturning

end Returning

theorem drtPrintf_prints (pieces : List Piece) {fmt : List Byte} {args : List VaArg}
    (hfmt : fmt = formatText pieces) (hargs : args = formatArgs pieces) :
    PrintsIff (fun k => drtPrintf k fmt args) (∀ piece ∈ pieces, piece.Fits)
      (formatOutput pieces) :=
  fun st => ⟨[], drtPrintf_runs pieces hfmt hargs st⟩

theorem drtPuts_prints (text : List Byte) :
    PrintsIff (fun _ => drtPuts text) True (text.takeWhile (· ≠ 0)) :=
  fun st => ⟨st.ap, RunsIff.step (drtPuts_run text st)⟩

theorem formatOutput_textPieces (text : List Byte) :
    formatOutput (textPieces text) = formatText (textPieces text) := by
  apply List.flatMap_congr
  intro piece hpiece
  obtain ⟨c, -, hc⟩ := List.mem_filterMap.mp hpiece
  split at hc
  · cases hc
    rfl
  · cases hc

theorem drtPrintf_text_prints {text : List Byte} (htext : text = formatText (textPieces text)) :
    PrintsIff (fun k => drtPrintf k text []) True text := by
  have hprints := drtPrintf_prints (textPieces text) htext (formatArgs_textPieces text).symm
  rw [formatOutput_textPieces, ← htext] at hprints
  exact hprints.congr_iff (iff_true_intro fun _ hpiece => textPieces_fits hpiece)

def linePieces (before : List Byte) (piece : Piece) (after : List Byte) : List Piece :=
  textPieces before ++ piece :: textPieces after

theorem linePieces_fits_iff {before after : List Byte} {piece : Piece} :
    (∀ p ∈ linePieces before piece after, p.Fits) ↔ piece.Fits := by
  constructor
  · intro hfits
    exact hfits piece (by simp [linePieces])
  · intro hpiece p hp
    simp only [linePieces, List.mem_append, List.mem_cons] at hp
    rcases hp with htext | rfl | htext
    · exact textPieces_fits htext
    · exact hpiece
    · exact textPieces_fits htext

theorem drtPrintf_line_ends (before : List Byte) (piece : Piece) (after : List Byte)
    {fmt : List Byte} {args : List VaArg}
    (hfmt : fmt = formatText (linePieces before piece after))
    (hargs : args = formatArgs (linePieces before piece after)) :
    EndsIff (fun k => drtPrintf k fmt args) piece.Fits () :=
  ((drtPrintf_prints (linePieces before piece after) hfmt hargs).congr_iff
    linePieces_fits_iff).endsIff

theorem drtDie_text_ends {text : List Byte} (htext : text = formatText (textPieces text)) :
    EndsIff (fun k => drtDie k text []) True DrtExit.aborted := by
  have hputs : ∀ text, EndsIff (fun _ => drtPuts text) True () :=
    fun text => (drtPuts_prints text).endsIff
  have hexit : EndsIff (fun _ => (pure .aborted : Print DrtExit)) True DrtExit.aborted :=
    fun st => ⟨st, RunsIff.step rfl⟩
  have hmessage := (drtPrintf_text_prints htext).endsIff
  exact ((hputs _).seq (hmessage.seq ((hputs _).seq hexit))).congr_iff (by simp)

def framePieces (i : Nat) (pc : Addr) : List Piece :=
  textPieces (bytesOf "  #") ++ plainPiece (m := .z) (.u (BitVec.ofNat 64 i)) ::
    (textPieces (bytesOf "  0x") ++ plainPiece (m := .none) (.p pc) :: textPieces (bytesOf "\n"))

theorem framePieces_fits_iff (i : Nat) (pc : Addr) :
    (∀ piece ∈ framePieces i pc, piece.Fits) ↔ SixteenDigits pc := by
  rw [← plainPiece_fits_p]
  constructor
  · intro hfits
    exact hfits _ (by simp [framePieces])
  · intro hpc piece hpiece
    simp only [framePieces, List.mem_append, List.mem_cons] at hpiece
    rcases hpiece with htext | rfl | htext | rfl | htext
    · exact textPieces_fits htext
    · exact plainPiece_fits_u _
    · exact textPieces_fits htext
    · exact hpc
    · exact textPieces_fits htext

/-- The lines of the frames from number `i` on. -/
def framesText : Nat → List Addr → List Byte
  | _, [] => []
  | i, pc :: pcs => formatOutput (framePieces i pc) ++ framesText (i + 1) pcs

theorem drtPrintFrames_prints (pcs : List Addr) (i : Nat) :
    PrintsIff (fun k => drtPrintFrames k i pcs) (∀ pc ∈ pcs, SixteenDigits pc)
      (framesText i pcs) := by
  induction pcs generalizing i with
  | nil =>
      intro st
      rw [framesText, List.append_nil]
      exact ⟨st.ap, (RunsIff.step rfl).congr_iff (by simp)⟩
  | cons pc pcs ih =>
      have hfmt : bytesOf "  #%zu  0x%p\n" = formatText (framePieces i pc) := rfl
      have hargs : [.long (BitVec.ofNat 64 i), .ptr pc] = formatArgs (framePieces i pc) := rfl
      have hframe := (drtPrintf_prints (framePieces i pc) hfmt hargs).congr_iff
        (framePieces_fits_iff i pc)
      apply (hframe.seq (ih (i + 1))).congr_iff
      simp

def stackText (trace : DrtStackTrace) : List Byte :=
  bytesOf "Stack trace:\n" ++ framesText 0 trace.pcs

theorem drtPrintStackTrace_prints (trace : DrtStackTrace) :
    PrintsIff (fun k => drtPrintStackTrace k trace) (∀ pc ∈ trace.pcs, SixteenDigits pc)
      (stackText trace) := by
  have htitle : (bytesOf "Stack trace:\n").takeWhile (· ≠ 0) = bytesOf "Stack trace:\n" := rfl
  have hputs := drtPuts_prints (bytesOf "Stack trace:\n")
  rw [htitle] at hputs
  apply (hputs.seq (drtPrintFrames_prints trace.pcs 0)).congr_iff
  simp

end Misan
