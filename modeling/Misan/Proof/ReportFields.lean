import Misan.Foundation.Decoding
import Misan.Proof.PrintfNumerals
import Misan.Proof.Reports

/-!
# Numbers and stacks read back

No number in a report has a blank in it, and each is followed by one. A line of a stack begins with
a space and nothing that follows a stack does, so a stack shows how many frames it has, whatever is
printed behind it.
-/

namespace Misan

/-! ### Fields -/

def isBlank (c : Byte) : Bool := c = byteOf ' ' ∨ c = byteOf '\n'

def isSpace (c : Byte) : Bool := c = byteOf ' '

theorem readable_numeralBytes {base : Nat} (hbase : base = 10 ∨ base = 16) :
    Readable (fun _ => True) (StopsAt fun c => !isBlank c) (numeralBytes false base) := by
  apply readable_field
  · intro n _ c hc
    obtain ⟨d, hd, rfl⟩ := (isNumeral_numeralBytes hbase false n).digits c hc
    have hdigits : ∀ i : Fin 16, (!isBlank (digitByte false i.val)) = true := by decide
    exact hdigits ⟨d, by omega⟩
  · intro n n' _ _ heq
    rw [← (isNumeral_numeralBytes hbase false n).value, heq,
      (isNumeral_numeralBytes hbase false n').value]

/-! ### Frames -/

theorem formatOutput_framePieces (i : Nat) (pc : Addr) :
    formatOutput (framePieces i pc) =
      byteOf ' ' :: (bytesOf " #" ++ (numeralBytes false 10 (BitVec.ofNat 64 i).toNat ++
        (bytesOf "  0x0x" ++ (numeralBytes false 16 pc.toNat ++ [byteOf '\n'])))) := by
  have hsame : (BitVec.ofNat 64 i).setWidth 64 = BitVec.ofNat 64 i := BitVec.setWidth_eq _
  rw [← hsame]
  rfl

/-- The text of the frames ends where no further line of them begins. -/
theorem readable_framesText (i : Nat) :
    Readable (fun _ => True) (StopsAt isSpace) (framesText i) := by
  intro pcs pcs' r r' _ _ hr hr' heq
  have hline (j : Nat) (pc : Addr) (rest : List Byte) :
      ¬ StopsAt isSpace (formatOutput (framePieces j pc) ++ rest) := by
    intro hstops
    rw [formatOutput_framePieces] at hstops
    cases hstops _ rfl
  induction pcs generalizing i pcs' with
  | nil =>
      cases pcs' with
      | nil => exact ⟨rfl, heq⟩
      | cons pc' pcs' =>
          rw [framesText, framesText, List.nil_append, List.append_assoc] at heq
          exact absurd (heq ▸ hr) (hline i pc' _)
  | cons pc pcs ih =>
      cases pcs' with
      | nil =>
          rw [framesText, framesText, List.nil_append, List.append_assoc] at heq
          exact absurd (heq ▸ hr') (hline i pc _)
      | cons pc' pcs' =>
          simp only [framesText, formatOutput_framePieces, List.cons_append, List.append_assoc,
            List.cons.injEq, true_and, List.append_cancel_left_eq] at heq
          obtain ⟨hpc, hrest⟩ := readable_numeralBytes (Or.inr rfl) trivial trivial
            (stopsAt_cons _ rfl) (stopsAt_cons _ rfl) heq
          obtain ⟨hpcs, hr⟩ := ih (i + 1) (List.cons.inj hrest).2
          exact ⟨by rw [BitVec.eq_of_toNat_eq hpc, hpcs], hr⟩

end Misan
