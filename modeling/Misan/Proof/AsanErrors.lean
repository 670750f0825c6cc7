import Misan.AsanShared
import Misan.Proof.Reports

/-!
# The text of an ASan report

An address has to fill sixteen digits, and the shadow byte two. So the report of an access behind
the accessible part of a grain, whose shadow byte is below eight, never ends.
-/

namespace Misan

variable {budget : Nat} {c : AsanReport × DrtStackTrace}

def asanAccessPieces (r : AsanReport) : List Piece :=
  textPieces (bytesOf "  ") ++ plainPiece (m := .none) (.s (some (bytesOf r.kind))) ::
    (textPieces (bytesOf " of size ") ++ plainPiece (m := .z) (.u r.size) ::
      (textPieces (bytesOf " at ") ++ plainPiece (m := .none) (.p r.addr) ::
        textPieces (bytesOf "\n")))

theorem asanAccessPieces_fits_iff (r : AsanReport) :
    (∀ piece ∈ asanAccessPieces r, piece.Fits) ↔ SixteenDigits r.addr := by
  rw [← plainPiece_fits_p]
  constructor
  · intro hfits
    exact hfits _ (by simp [asanAccessPieces])
  · intro haddr piece hpiece
    simp only [asanAccessPieces, List.mem_append, List.mem_cons] at hpiece
    rcases hpiece with htext | rfl | htext | rfl | htext | rfl | htext
    · exact textPieces_fits htext
    · exact ⟨widthFrom_nil_le, trivial⟩
    · exact textPieces_fits htext
    · exact plainPiece_fits_u _
    · exact textPieces_fits htext
    · exact haddr
    · exact textPieces_fits htext

/-- `%02x` of a byte. -/
def shadowByte (v : Byte) : Piece :=
  .directive ⟨true, [2], .none, .x (v.setWidth 32), fun _ => rfl⟩

theorem shadowByte_fits_iff (v : Byte) : (shadowByte v).Fits ↔ 16 ≤ v.toNat := by
  have hshort := length_numeral_le_iff (n := v.toNat) (show 1 < 16 by decide)
    (show 0 < 1 by decide)
  have hsame : ((v.setWidth 32).setWidth 64).toNat = v.toNat := by
    have := v.isLt
    simp only [BitVec.toNat_setWidth]
    omega
  change 2 ≤ intMax ∧ (2 : Int) ≤ (numeral 16 ((v.setWidth 32).setWidth 64).toNat).length ↔ _
  rw [hsame, and_iff_right (by decide)]
  omega

/-- All a report prints. -/
def asanReportText (c : AsanReport × DrtStackTrace) : List Byte :=
  bytesOf "\n==ASAN ERROR==\n" ++ (formatOutput (asanAccessPieces c.1) ++
    (formatOutput (linePieces (bytesOf "  Shadow byte value: 0x") (shadowByte c.1.shadowVal)
      (bytesOf "\n")) ++ stackText c.2))

/-- Every number in the report is as wide as its directive asks for. -/
def AsanReportFits (c : AsanReport × DrtStackTrace) : Prop :=
  SixteenDigits c.1.addr ∧ 16 ≤ c.1.shadowVal.toNat ∧ ∀ pc ∈ c.2.pcs, SixteenDigits pc

instance (c : AsanReport × DrtStackTrace) : Decidable (AsanReportFits c) :=
  inferInstanceAs (Decidable (16 ^ 15 ≤ c.1.addr.toNat ∧ _ ∧ ∀ pc ∈ c.2.pcs, 16 ^ 15 ≤ pc.toNat))

theorem asanReportError_prints (r : AsanReport) (st : DrtStackTrace) :
    PrintsIff (fun k => asanReportError k r st) (AsanReportFits (r, st))
      (asanReportText (r, st)) := by
  have htitle : bytesOf "\n==ASAN ERROR==\n" =
      formatText (textPieces (bytesOf "\n==ASAN ERROR==\n")) :=
    rfl
  have haccessFmt : bytesOf "  %s of size %zu at %p\n" = formatText (asanAccessPieces r) := rfl
  have haccessArgs : [.str (some (bytesOf r.kind)), .long r.size, .ptr r.addr] =
      formatArgs (asanAccessPieces r) := rfl
  have haccess := (drtPrintf_prints (asanAccessPieces r) haccessFmt haccessArgs).congr_iff
    (asanAccessPieces_fits_iff r)
  let shadowLine :=
    linePieces (bytesOf "  Shadow byte value: 0x") (shadowByte r.shadowVal) (bytesOf "\n")
  have hshadowFmt : bytesOf "  Shadow byte value: 0x%02x\n" = formatText shadowLine := rfl
  have hshadowArgs : [.int (r.shadowVal.setWidth 32)] = formatArgs shadowLine := rfl
  have hshadow := (drtPrintf_prints shadowLine hshadowFmt hshadowArgs).congr_iff
    (linePieces_fits_iff.trans (shadowByte_fits_iff r.shadowVal))
  have hall := (drtPrintf_text_prints htitle).seq
    (haccess.seq (hshadow.seq (drtPrintStackTrace_prints st)))
  exact hall.congr_iff (by simp [AsanReportFits])

theorem asanPrinted_of_ends (hends : (asanPrinted budget c).ends = true) :
    AsanReportFits c ∧ (asanPrinted budget c).left = asanReportText c := by
  obtain ⟨ap, hruns⟩ := asanReportError_prints c.1 c.2 ⟨[], []⟩
  rw [asanPrinted] at hends ⊢
  split at hends
  · next s hrun =>
      obtain ⟨hfits, -, rfl⟩ := hruns.sound budget () s hrun
      exact ⟨hfits, rfl⟩
  · cases hends

theorem exists_asanPrinted_eq (hfits : AsanReportFits c) :
    ∃ N, ∀ budget, N ≤ budget → asanPrinted budget c = ⟨asanReportText c, true⟩ := by
  obtain ⟨ap, hruns⟩ := asanReportError_prints c.1 c.2 ⟨[], []⟩
  obtain ⟨N, hN⟩ := hruns.total hfits
  refine ⟨N, fun budget hbudget => ?_⟩
  rw [asanPrinted, hN budget hbudget]
  rfl

end Misan
