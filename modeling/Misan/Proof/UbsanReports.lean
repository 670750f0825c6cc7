import Misan.Ubsan
import Misan.Proof.Reports

/-!
# What a UBSan report names

`UBSAN_HANDLE` aborts, and the types or the attribute location of a report are printed behind it.
What has been printed when the process stops is therefore a text that does not depend on them: the
report is complete only if it happens to contain them anyway, and if it is printed to its end at
all.
-/

namespace Misan

/-! ### Names -/

def decimalText (v : BitVec 32) : List Byte := numeralBytes false 10 v.toNat

def locationText : Option UbsanSourceLocation → List Byte
  | some ⟨some filename, line, column⟩ => filename.takeWhile (· ≠ 0) ++
      byteOf ':' :: (decimalText line ++ byteOf ':' :: decimalText column)
  | _ => bytesOf "<unknown>"

def typeText : Option UbsanTypeDescriptor → List Byte
  | some td => td.typeName.takeWhile (· ≠ 0)
  | none => bytesOf "<unknown type>"

def locationPieces (filename : List Byte) (line column : BitVec 32) : List Piece :=
  plainPiece (m := .none) (.s (some filename)) :: (textPieces (bytesOf ":") ++
    plainPiece (m := .none) (.u line) :: (textPieces (bytesOf ":") ++
      [plainPiece (m := .none) (.u column)]))

theorem locationPieces_fits {filename : List Byte} {line column : BitVec 32} {piece : Piece}
    (hpiece : piece ∈ locationPieces filename line column) : piece.Fits := by
  simp only [locationPieces, List.mem_append, List.mem_cons, List.not_mem_nil, or_false] at hpiece
  rcases hpiece with rfl | htext | rfl | htext | rfl
  · exact ⟨widthFrom_nil_le, trivial⟩
  · exact textPieces_fits htext
  · exact plainPiece_fits_u _
  · exact textPieces_fits htext
  · exact plainPiece_fits_u _

theorem formatOutput_locationPieces (filename : List Byte) (line column : BitVec 32) :
    formatOutput (locationPieces filename line column)
      = locationText (some ⟨some filename, line, column⟩) := by
  have hdecimal : ∀ v : BitVec 32,
      (plainPiece (m := .none) (.u v)).output = decimalText v := by
    intro v
    change numeralBytes false 10 (v.setWidth 64).toNat = _
    rw [BitVec.toNat_setWidth_of_le (by decide), decimalText]
  have hcolon : formatOutput (textPieces (bytesOf ":")) = [byteOf ':'] := rfl
  have hname : (plainPiece (m := .none) (.s (some filename))).output
      = filename.takeWhile (· ≠ 0) := rfl
  rw [locationPieces, formatOutput, List.flatMap_cons, List.flatMap_append, List.flatMap_cons,
    List.flatMap_append, List.flatMap_singleton, hname, hdecimal, hdecimal]
  rw [← formatOutput, hcolon, locationText]
  rfl

theorem ubsanPrintLocation_prints (location : Option UbsanSourceLocation) :
    PrintsIff (fun k => ubsanPrintLocation k location) True (locationText location) := by
  have hunknown : PrintsIff (fun _ => drtPuts (bytesOf "<unknown>")) True
      (bytesOf "<unknown>") := drtPuts_prints (bytesOf "<unknown>")
  match location with
  | some ⟨some filename, line, column⟩ =>
      rw [← formatOutput_locationPieces]
      exact (drtPrintf_prints (locationPieces filename line column) rfl rfl).congr_iff
        (iff_true_intro fun _ hpiece => locationPieces_fits hpiece)
  | some ⟨none, _, _⟩ => exact hunknown
  | none => exact hunknown

/-- The name of a type, had `ubsan_print_type` been reached. -/
theorem ubsanPrintType_prints (td : Option UbsanTypeDescriptor) :
    PrintsIff (fun _ => ubsanPrintType td) True (typeText td) := by
  cases td with
  | none => exact drtPuts_prints (bytesOf "<unknown type>")
  | some td => exact drtPuts_prints td.typeName

/-! ### Aborting -/

/-- Whatever is printed already, `x` aborts if and only if `P` holds, and has then printed `text`
and left the lock released. -/
def AbortsIff (x : Nat → Ubsan Unit) (locked : Bool) (P : Prop) (text : List Byte) : Prop :=
  ∀ st, ∃ ap, StopsIff x ⟨st, locked⟩ .aborted P ⟨⟨st.out ++ text, ap⟩, false⟩

theorem ubsanPrint_neverAborts (x : Print Unit) : NeverFails .aborted (ubsanPrint x) := by
  intro s t hfail
  rw [ubsanPrint] at hfail
  split at hfail <;> cases hfail

theorem ubsanPrint_runs {x : Nat → Print Unit} {st st' : PrintState} {P : Prop}
    (hx : RunsIff x st P () st') (locked : Bool) :
    RunsIff (fun k => ubsanPrint (x k)) ⟨st, locked⟩ P () ⟨st', locked⟩ where
  total hP := by
    obtain ⟨N, hN⟩ := hx.total hP
    refine ⟨N, fun n hn => ?_⟩
    rw [ubsanPrint, hN n hn]
  sound n b t hrun := by
    rw [ubsanPrint] at hrun
    split at hrun
    · next hok =>
        cases hrun
        obtain ⟨hP, -, rfl⟩ := hx.sound n _ _ hok
        exact ⟨hP, rfl, rfl⟩
    · cases hrun

theorem ubsanSpinLock_neverAborts (budget : Nat) :
    NeverFails .aborted (ubsanSpinLock budget) := by
  induction budget with
  | zero =>
      intro s t hfail
      cases hfail
  | succ budget ih =>
      intro s t hfail
      change (if s.locked then ubsanSpinLock budget else set { s with locked := true }) s
        = _ at hfail
      split at hfail
      · exact ih s t hfail
      · cases hfail

theorem ubsanSpinLock_runs (st : PrintState) :
    RunsIff ubsanSpinLock ⟨st, false⟩ True () ⟨st, true⟩ := by
  apply RunsIff.unroll (x := fun _ => set (UbsanState.mk st true))
  · intro b t hrun
    cases hrun
  · intro k
    rfl
  · exact RunsIff.step rfl

theorem AbortsIff.print {x : Nat → Print Unit} {y : Nat → Ubsan Unit} {P Q : Prop}
    {text text' : List Byte} (hx : PrintsIff x P text) (hy : AbortsIff y true Q text') :
    AbortsIff (fun k => ubsanPrint (x k) >>= fun _ => y k) true (P ∧ Q) (text ++ text') := by
  intro st
  obtain ⟨ap, hx⟩ := hx st
  obtain ⟨ap', hy⟩ := hy ⟨st.out ++ text, ap⟩
  rw [List.append_assoc] at hy
  exact ⟨ap', StopsIff.after (f := fun k _ => y k) (ubsanPrint_runs hx true)
    (fun k => ubsanPrint_neverAborts (x k)) fun _ => hy⟩

theorem AbortsIff.lock {y : Nat → Ubsan Unit} {Q : Prop} {text : List Byte}
    (hy : AbortsIff y true Q text) :
    AbortsIff (fun k => ubsanSpinLock k >>= fun _ => y k) false Q text := by
  intro st
  obtain ⟨ap, hy⟩ := hy st
  have hlocked := StopsIff.after (f := fun k _ => y k) (ubsanSpinLock_runs st)
    ubsanSpinLock_neverAborts fun _ => hy
  exact ⟨ap, hlocked.congr_iff (by simp)⟩

theorem AbortsIff.unlock :
    AbortsIff (fun _ => ubsanSpinUnlock >>= fun _ => ubsanArchAbort) true True [] := by
  intro st
  rw [List.append_nil]
  have hunlock : RunsIff (fun _ => ubsanSpinUnlock) ⟨st, true⟩ True () ⟨st, false⟩ :=
    RunsIff.step rfl
  have hclean : NeverFails .aborted ubsanSpinUnlock := by
    intro s t hfail
    cases hfail
  have habort : StopsIff (fun _ => ubsanArchAbort) ⟨st, false⟩ .aborted True ⟨st, false⟩ :=
    StopsIff.throw _ _
  have hboth := StopsIff.after (f := fun _ _ => ubsanArchAbort) hunlock (fun _ => hclean)
    fun _ => habort
  exact ⟨st.ap, hboth.congr_iff (by simp)⟩

/-! ### Reports -/

def ubsanTitle (name : String) : List Byte :=
  bytesOf "\n==UBSAN: " ++ bytesOf name ++ bytesOf "==\n  Location: "

/-- What a handler hands to `UBSAN_HANDLE`, and the names it prints behind it. -/
structure UbsanReport where
  name : String
  fmt : String
  pieces : List Piece
  location : Option UbsanSourceLocation
  named : List (List Byte)
  title_eq : ubsanTitle name = formatText (textPieces (ubsanTitle name)) := by rfl
  fmt_eq : bytesOf fmt = formatText pieces := by rfl

/-- The text of the macro: title, location, format and stack, and no name. -/
def UbsanReport.heading (r : UbsanReport) (trace : DrtStackTrace) : List Byte :=
  ubsanTitle r.name ++ (locationText r.location ++ (bytesOf "\n" ++
    (formatOutput r.pieces ++ (bytesOf "\n" ++ stackText trace))))

theorem ubsanHandle_aborts (r : UbsanReport) (trace : DrtStackTrace) :
    AbortsIff (fun k => ubsanHandle k r.name r.fmt (formatArgs r.pieces) r.location trace) false
      ((∀ piece ∈ r.pieces, piece.Fits) ∧ ∀ pc ∈ trace.pcs, SixteenDigits pc)
      (r.heading trace) := by
  have hnewline : PrintsIff (fun _ => drtPuts (bytesOf "\n")) True (bytesOf "\n") :=
    drtPuts_prints (bytesOf "\n")
  have hformat := drtPrintf_prints r.pieces r.fmt_eq rfl
  have hstack := AbortsIff.print (drtPrintStackTrace_prints trace) AbortsIff.unlock
  have hbody := AbortsIff.print (ubsanPrintLocation_prints r.location)
    (AbortsIff.print hnewline (AbortsIff.print hformat (AbortsIff.print hnewline hstack)))
  have hreport := (AbortsIff.print (drtPrintf_text_prints r.title_eq) hbody).lock
  intro st
  obtain ⟨ap, hstops⟩ := hreport st
  refine ⟨ap, ?_⟩
  rw [List.append_nil] at hstops
  apply hstops.congr_iff
  simp

namespace UbsanCall

def pointers : UbsanCall → List Addr
  | typeMismatch _ pointer | typeMismatchV1 _ pointer => [pointer]
  | _ => []

def report : UbsanCall → UbsanReport
  | typeMismatch data pointer =>
      { name := "type mismatch"
        fmt := "  Pointer: %p  Type: "
        pieces := linePieces (bytesOf "  Pointer: ") (plainPiece (m := .none) (.p pointer))
          (bytesOf "  Type: ")
        location := data.location
        named := [typeText data.type] }
  | typeMismatchV1 data pointer =>
      { name := "type mismatch v1"
        fmt := "  Pointer: %p  Alignment: %u  Type check kind: %u  Type: "
        pieces := textPieces (bytesOf "  Pointer: ") ++ plainPiece (m := .none) (.p pointer) ::
          (textPieces (bytesOf "  Alignment: ") ++
            plainPiece (m := .none) (.u (data.alignment.setWidth 32)) ::
              linePieces (bytesOf "  Type check kind: ")
                (plainPiece (m := .none) (.u (data.typeCheckKind.setWidth 32)))
                (bytesOf "  Type: "))
        location := data.location
        named := [typeText data.type] }
  | addOverflow data => typed "add overflow" data.location data.type
  | subOverflow data => typed "sub overflow" data.location data.type
  | mulOverflow data => typed "mul overflow" data.location data.type
  | negateOverflow data => typed "negate overflow" data.location data.type
  | divremOverflow data => typed "divrem overflow" data.location data.type
  | shiftOutOfBounds data =>
      { name := "shift out of bounds"
        fmt := "  Left type: "
        pieces := textPieces (bytesOf "  Left type: ")
        location := data.location
        named := [typeText data.leftType, typeText data.rightType] }
  | outOfBounds data =>
      { name := "out of bounds"
        fmt := "  Array type: "
        pieces := textPieces (bytesOf "  Array type: ")
        location := data.location
        named := [typeText data.arrayType, typeText data.indexType] }
  | vlaBoundNotPositive data => typed "VLA bound not positive" data.location data.type
  | invalidValue data => typed "invalid value" data.location data.type
  | invalidBuiltin data =>
      { name := "invalid builtin"
        fmt := "  Kind: %u  Type: "
        pieces := linePieces (bytesOf "  Kind: ")
          (plainPiece (m := .none) (.u (data.kind.setWidth 32))) (bytesOf "  Type: ")
        location := data.location
        named := [typeText data.type] }
  | nonnullArg data =>
      { name := "non-null arg"
        fmt := "  Arg index: %d  Attribute location: "
        pieces := linePieces (bytesOf "  Arg index: ")
          (plainPiece (m := .none) (.d data.argIndex)) (bytesOf "  Attribute location: ")
        location := data.location
        named := [locationText data.attrLocation] }
  | implicitConversion data =>
      { name := "implicit conversion"
        fmt := "  Kind: %u  From type: "
        pieces := linePieces (bytesOf "  Kind: ")
          (plainPiece (m := .none) (.u (data.kind.setWidth 32))) (bytesOf "  From type: ")
        location := data.location
        named := [typeText data.fromType, typeText data.toType] }
where
  typed (name : String) (location : Option UbsanSourceLocation)
      (type : Option UbsanTypeDescriptor)
      (title_eq : ubsanTitle name = formatText (textPieces (ubsanTitle name)) := by rfl) :
      UbsanReport :=
    { name := name
      fmt := "  Type: "
      pieces := textPieces (bytesOf "  Type: ")
      location := location
      named := [typeText type]
      title_eq := title_eq }

end UbsanCall

/-- **Every handler runs the macro first**, whatever it prints behind it. -/
theorem ubsanRun_eq (call : UbsanCall) (trace : DrtStackTrace) :
    ∃ behind : Nat → Ubsan Unit, ∀ k, ubsanRun k call trace =
      ubsanHandle k call.report.name call.report.fmt (formatArgs call.report.pieces)
        call.report.location trace >>= fun _ => behind k := by
  cases call <;> exact ⟨_, fun _ => rfl⟩

theorem UbsanCall.fits_iff (call : UbsanCall) :
    (∀ piece ∈ call.report.pieces, piece.Fits) ↔ ∀ v ∈ call.pointers, SixteenDigits v := by
  have htext : ∀ text : List Byte, (∀ piece ∈ textPieces text, piece.Fits) ↔
      ∀ v ∈ ([] : List Addr), SixteenDigits v := by
    intro text
    exact iff_of_true (fun _ hpiece => textPieces_fits hpiece) (by simp)
  have hline : ∀ {before after : List Byte} {piece : Piece}, piece.Fits →
      ((∀ p ∈ linePieces before piece after, p.Fits) ↔
        ∀ v ∈ ([] : List Addr), SixteenDigits v) := by
    intro before after piece hpiece
    exact iff_of_true (linePieces_fits_iff.mpr hpiece) (by simp)
  cases call with
  | typeMismatch data pointer =>
      rw [UbsanCall.pointers, List.forall_mem_singleton, ← plainPiece_fits_p]
      exact linePieces_fits_iff
  | typeMismatchV1 data pointer =>
      rw [UbsanCall.pointers, List.forall_mem_singleton, ← plainPiece_fits_p]
      constructor
      · intro hfits
        exact hfits _ (List.mem_append_right _ (List.mem_cons_self ..))
      · intro hpointer piece hpiece
        obtain htext | hpiece := List.mem_append.mp hpiece
        · exact textPieces_fits htext
        obtain rfl | hpiece := List.mem_cons.mp hpiece
        · exact hpointer
        obtain htext | hpiece := List.mem_append.mp hpiece
        · exact textPieces_fits htext
        obtain rfl | hpiece := List.mem_cons.mp hpiece
        · exact plainPiece_fits_u _
        · exact linePieces_fits_iff.mpr (plainPiece_fits_u _) _ hpiece
  | invalidBuiltin data => exact hline (plainPiece_fits_u _)
  | nonnullArg data => exact hline (plainPiece_fits_d _)
  | implicitConversion data => exact hline (plainPiece_fits_u _)
  | _ => exact htext _

/-- **Every handler aborts with the heading printed**, and only if every address in it has sixteen
digits. -/
theorem ubsanRun_aborts (call : UbsanCall) (trace : DrtStackTrace) :
    AbortsIff (fun k => ubsanRun k call trace) false
      (∀ v ∈ call.pointers ++ trace.pcs, SixteenDigits v) (call.report.heading trace) := by
  obtain ⟨behind, heq⟩ := ubsanRun_eq call trace
  have hmacro := ubsanHandle_aborts call.report trace
  intro st
  obtain ⟨ap, hstops⟩ := hmacro st
  refine ⟨ap, ?_⟩
  rw [funext heq]
  apply (hstops.bind fun k _ => behind k).congr_iff
  rw [call.fits_iff, List.forall_mem_append]

/-! ### Complete reports -/

/-- The handler reaches `drt_arch_abort`, with the lock released and a text printed that contains
the location and every name. -/
def UbsanReportComplete (call : UbsanCall) (trace : DrtStackTrace) (st : PrintState) : Prop :=
  ∃ N text ap, (∀ k, N ≤ k →
      ubsanRun k call trace ⟨st, false⟩ = .error .aborted ⟨⟨st.out ++ text, ap⟩, false⟩) ∧
    locationText call.report.location <:+: text ∧ ∀ name ∈ call.report.named, name <:+: text

/-- What is printed is the heading, so the names are found there or nowhere. -/
theorem UbsanReportComplete.of_heading {call : UbsanCall} {trace : DrtStackTrace}
    {st : PrintState} (h : UbsanReportComplete call trace st) :
    (∀ v ∈ call.pointers ++ trace.pcs, SixteenDigits v) ∧
      ∀ name ∈ call.report.named, name <:+: call.report.heading trace := by
  obtain ⟨N, text, ap, hrun, -, hnamed⟩ := h
  obtain ⟨ap', hstops⟩ := ubsanRun_aborts call trace st
  obtain ⟨hdigits, hstate⟩ := hstops.sound N _ (hrun N (Nat.le_refl N))
  have hout := congrArg (fun s => s.print.out) hstate
  obtain rfl : text = call.report.heading trace := List.append_cancel_left hout
  exact ⟨hdigits, hnamed⟩

/-- **Complete reports.** A report is complete if and only if every address in it has sixteen
digits, and each name can be read somewhere in the text around the place where it is missing. -/
theorem ubsanReportComplete_iff (call : UbsanCall) (trace : DrtStackTrace) (st : PrintState) :
    UbsanReportComplete call trace st ↔
      (∀ v ∈ call.pointers ++ trace.pcs, SixteenDigits v) ∧
        ∀ name ∈ call.report.named, name <:+: call.report.heading trace := by
  constructor
  · exact UbsanReportComplete.of_heading
  · rintro ⟨hdigits, hnamed⟩
    obtain ⟨ap, hstops⟩ := ubsanRun_aborts call trace st
    obtain ⟨N, hN⟩ := hstops.total hdigits
    have hlocation : locationText call.report.location <:+: call.report.heading trace :=
      ⟨ubsanTitle call.report.name, _, List.append_assoc ..⟩
    exact ⟨N, call.report.heading trace, ap, hN, hlocation, hnamed⟩

def intOverflow : UbsanCall :=
  .addOverflow ⟨some ⟨some (bytesOf "a.c"), 7, 1⟩, some ⟨bytesOf "'int'"⟩⟩

theorem not_ubsanReportComplete_intOverflow :
    ¬ UbsanReportComplete intOverflow ⟨[], Nat.zero_le _⟩ ⟨[], []⟩ := by
  intro hcomplete
  have hname := hcomplete.of_heading.2 (bytesOf "'int'") (List.mem_singleton_self _)
  -- 39 is the quotation mark.
  have hquote : (39 : Byte) ∈ bytesOf "'int'" := by decide
  have hheading : (39 : Byte) ∉ intOverflow.report.heading ⟨[], Nat.zero_le _⟩ := by decide
  exact hheading (hname.subset hquote)

end Misan
