import Mathlib.Data.BitVec

/-!
# Alignment to powers of two

Masking off the low bits of a machine word rounds it down, and adding the mask first rounds it up,
as long as the addition does not overflow.
-/

namespace Misan

variable {w : Nat}

/-- The mask of the low `k` bits. -/
def lowMask (w k : Nat) : BitVec w := BitVec.ofNat w (2 ^ k - 1)

theorem getLsbD_lowMask {k i : Nat} (hi : i < w) : (lowMask w k).getLsbD i = decide (i < k) := by
  rw [lowMask, BitVec.getLsbD_ofNat, Nat.testBit_two_pow_sub_one]
  simp [hi]

theorem and_not_lowMask (a : BitVec w) (k : Nat) : a &&& ~~~lowMask w k = (a >>> k) <<< k := by
  apply BitVec.eq_of_getLsbD_eq
  intro i hi
  rw [BitVec.getLsbD_and, BitVec.getLsbD_not, getLsbD_lowMask hi, BitVec.getLsbD_shiftLeft,
    BitVec.getLsbD_ushiftRight]
  by_cases hlow : i < k
  · simp [hlow]
  · simp [hlow, hi, show k + (i - k) = i by omega]

theorem toNat_and_not_lowMask (a : BitVec w) (k : Nat) :
    (a &&& ~~~lowMask w k).toNat = a.toNat / 2 ^ k * 2 ^ k := by
  have ha := a.isLt
  have hle := Nat.div_mul_le_self a.toNat (2 ^ k)
  rw [and_not_lowMask, BitVec.toNat_shiftLeft, BitVec.toNat_ushiftRight, Nat.shiftLeft_eq,
    Nat.shiftRight_eq_div_pow, Nat.mod_eq_of_lt (by omega)]

theorem toNat_alignUp {a : BitVec w} {k : Nat} (hfit : a.toNat + (2 ^ k - 1) < 2 ^ w) :
    ((a + lowMask w k) &&& ~~~lowMask w k).toNat = (a.toNat + (2 ^ k - 1)) / 2 ^ k * 2 ^ k := by
  have hmask : (lowMask w k).toNat = 2 ^ k - 1 := by
    rw [lowMask, BitVec.toNat_ofNat, Nat.mod_eq_of_lt (by omega)]
  rw [toNat_and_not_lowMask, BitVec.toNat_add, hmask, Nat.mod_eq_of_lt hfit]

end Misan
