import Misan.Proof.UbsanReports

/-!
# The other UBSan reports

The handlers that do not go through the macro, or have nothing behind it. A function type mismatch
names its type in front of the stack, so its report is complete. A float cast overflow prints no
address at all, and is the one report that always ends.
-/

namespace Misan

theorem AbortsIff.congr_iff {x : Nat → Ubsan Unit} {locked : Bool} {P Q : Prop} {text : List Byte}
    (h : AbortsIff x locked P text) (hPQ : P ↔ Q) : AbortsIff x locked Q text := by
  intro st
  obtain ⟨ap, hstops⟩ := h st
  exact ⟨ap, hstops.congr_iff hPQ⟩

/-! ### Reports under the lock -/

def pointerOverflowPieces (base result : Addr) : List Piece :=
  textPieces (bytesOf "  Base: ") ++ plainPiece (m := .none) (.p base) ::
    (textPieces (bytesOf "  Result: ") ++ [plainPiece (m := .none) (.p result)])

theorem pointerOverflowPieces_fits_iff (base result : Addr) :
    (∀ piece ∈ pointerOverflowPieces base result, piece.Fits) ↔
      ∀ v ∈ [base, result], SixteenDigits v := by
  rw [List.forall_mem_cons, List.forall_mem_singleton, ← plainPiece_fits_p, ← plainPiece_fits_p]
  constructor
  · intro hfits
    exact ⟨hfits _ (by simp [pointerOverflowPieces]), hfits _ (by simp [pointerOverflowPieces])⟩
  · rintro ⟨hbase, hresult⟩ piece hpiece
    simp only [pointerOverflowPieces, List.mem_append, List.mem_cons, List.not_mem_nil,
      or_false] at hpiece
    rcases hpiece with htext | rfl | htext | rfl
    · exact textPieces_fits htext
    · exact hbase
    · exact textPieces_fits htext
    · exact hresult

namespace UbsanLockedCall

/-- The addresses a report prints in front of its stack. -/
def pointers : UbsanLockedCall → List Addr
  | handler call => call.pointers
  | pointerOverflow _ base result => [base, result]
  | functionTypeMismatch _ | builtinUnreachable _ => []

def pointerOverflowReport (data : UbsanPointerOverflowData) (base result : Addr) : UbsanReport where
  name := "pointer overflow"
  fmt := "  Base: %p  Result: %p"
  pieces := pointerOverflowPieces base result
  location := data.location
  named := []

/-- All a handler prints, up to its abort. -/
def text (call : UbsanLockedCall) (trace : DrtStackTrace) : List Byte :=
  match call with
  | handler call => call.report.heading trace
  | pointerOverflow data base result => (pointerOverflowReport data base result).heading trace
  | functionTypeMismatch data =>
      ubsanTitle "function type mismatch" ++ (locationText (some data.location) ++
        (bytesOf "\n  Type: " ++ (typeText data.type ++ (bytesOf "\n" ++ stackText trace))))
  | builtinUnreachable loc =>
      ubsanTitle "builtin unreachable" ++ (locationText loc ++ (bytesOf "\n" ++ stackText trace))

end UbsanLockedCall

section Locked

variable (trace : DrtStackTrace)

theorem ubsanHandlePointerOverflow_aborts (data : UbsanPointerOverflowData) (base result : Addr) :
    AbortsIff (fun k => ubsanHandlePointerOverflow k data base result trace) false
      (∀ v ∈ [base, result] ++ trace.pcs, SixteenDigits v)
      ((UbsanLockedCall.pointerOverflowReport data base result).heading trace) := by
  apply (ubsanHandle_aborts
    (UbsanLockedCall.pointerOverflowReport data base result) trace).congr_iff
  rw [List.forall_mem_append]
  exact and_congr_left' (pointerOverflowPieces_fits_iff base result)

theorem ubsanStack_aborts :
    AbortsIff (fun k => do
        ubsanPrint (drtPuts (bytesOf "\n"))
        ubsanPrint (drtPrintStackTrace k trace)
        ubsanSpinUnlock
        ubsanArchAbort) true
      (∀ pc ∈ trace.pcs, SixteenDigits pc) (bytesOf "\n" ++ stackText trace) := by
  have hnewline : PrintsIff (fun _ => drtPuts (bytesOf "\n")) True (bytesOf "\n") :=
    drtPuts_prints (bytesOf "\n")
  have hstack := AbortsIff.print (drtPrintStackTrace_prints trace) AbortsIff.unlock
  have hboth := AbortsIff.print hnewline hstack
  rw [List.append_nil] at hboth
  exact hboth.congr_iff (by simp)

theorem ubsanHandleFunctionTypeMismatch_aborts (data : UbsanFunctionTypeMismatchData) :
    AbortsIff (fun k => ubsanHandleFunctionTypeMismatch k data trace) false
      (∀ pc ∈ trace.pcs, SixteenDigits pc)
      (UbsanLockedCall.text (.functionTypeMismatch data) trace) := by
  have htitle : ubsanTitle "function type mismatch" =
      formatText (textPieces (ubsanTitle "function type mismatch")) := rfl
  have htype : PrintsIff (fun _ => drtPuts (bytesOf "\n  Type: ")) True (bytesOf "\n  Type: ") :=
    drtPuts_prints (bytesOf "\n  Type: ")
  have hnames := AbortsIff.print htype
    (AbortsIff.print (ubsanPrintType_prints data.type) (ubsanStack_aborts trace))
  have hbody := AbortsIff.print (ubsanPrintLocation_prints (some data.location)) hnames
  exact ((AbortsIff.print (drtPrintf_text_prints htitle) hbody).lock).congr_iff (by simp)

theorem ubsanHandleBuiltinUnreachable_aborts (loc : Option UbsanSourceLocation) :
    AbortsIff (fun k => ubsanHandleBuiltinUnreachable k loc trace) false
      (∀ pc ∈ trace.pcs, SixteenDigits pc)
      (UbsanLockedCall.text (.builtinUnreachable loc) trace) := by
  have htitle : ubsanTitle "builtin unreachable" =
      formatText (textPieces (ubsanTitle "builtin unreachable")) := rfl
  have hbody := AbortsIff.print (ubsanPrintLocation_prints loc) (ubsanStack_aborts trace)
  exact ((AbortsIff.print (drtPrintf_text_prints htitle) hbody).lock).congr_iff (by simp)

/-- **Every handler under the lock** aborts with its text printed and the lock released, and only
if every address in the text has sixteen digits. -/
theorem ubsanLockedRun_aborts (call : UbsanLockedCall) :
    AbortsIff (fun k => ubsanLockedRun k call trace) false
      (∀ v ∈ call.pointers ++ trace.pcs, SixteenDigits v) (call.text trace) := by
  cases call with
  | handler call => exact ubsanRun_aborts call trace
  | pointerOverflow data base result =>
      exact ubsanHandlePointerOverflow_aborts trace data base result
  | functionTypeMismatch data => exact ubsanHandleFunctionTypeMismatch_aborts trace data
  | builtinUnreachable loc => exact ubsanHandleBuiltinUnreachable_aborts trace loc

end Locked

/-! ### Without the lock -/

def floatCastText (data : UbsanFloatCastOverflowData) : List Byte :=
  locationText (some data.location) ++ (bytesOf "float cast overflow: From type: " ++
    (typeText data.fromType ++ (bytesOf " To type: " ++ (typeText data.toType ++ bytesOf "\n"))))

theorem ubsanHandleFloatCastOverflow_prints (data : UbsanFloatCastOverflowData) :
    PrintsIff (fun k => ubsanHandleFloatCastOverflow k data) True (floatCastText data) := by
  have hfrom : PrintsIff (fun _ => drtPuts (bytesOf "float cast overflow: From type: ")) True
      (bytesOf "float cast overflow: From type: ") :=
    drtPuts_prints (bytesOf "float cast overflow: From type: ")
  have hto : PrintsIff (fun _ => drtPuts (bytesOf " To type: ")) True (bytesOf " To type: ") :=
    drtPuts_prints (bytesOf " To type: ")
  have hnewline : PrintsIff (fun _ => drtPuts (bytesOf "\n")) True (bytesOf "\n") :=
    drtPuts_prints (bytesOf "\n")
  have htypes := (ubsanPrintType_prints data.fromType).seq
    (hto.seq ((ubsanPrintType_prints data.toType).seq hnewline))
  have hall := (ubsanPrintLocation_prints (some data.location)).seq (hfrom.seq htypes)
  exact hall.congr_iff (by simp)

end Misan
