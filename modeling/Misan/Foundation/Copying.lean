import Misan.Foundation.ByteMemory
import Mathlib.Tactic.Abel

/-!
# Copying bytes upwards

The loop that copies one byte after another, from the lowest address on. Where the destination
starts inside the source, the loop comes to read bytes it has written itself, so what it leaves is
the beginning of the source over and over. The distance between the two pointers is the period, and
a period of `0` repeats nothing, which is what a remainder by `0` says.
-/

namespace Misan

namespace ByteMemory

variable {w : Nat}

/-- `while (n--) *d++ = *s++;` -/
def copyBytes (m : ByteMemory w) (d s : BitVec w) : Nat → ByteMemory w
  | 0 => m
  | n + 1 => (m.store d (m s)).copyBytes (d + 1) (s + 1) n

/-- Every byte of the destination holds the byte of the source it had at first. -/
def moveBytes (m : ByteMemory w) (d s : BitVec w) (n : Nat) : ByteMemory w :=
  fun x => if (x - d).toNat < n then m (s + (x - d)) else m x

theorem add_one_add_ofNat (a : BitVec w) (n : Nat) :
    a + 1 + BitVec.ofNat w n = a + BitVec.ofNat w (n + 1) := by
  rw [BitVec.add_assoc, show (1 : BitVec w) = BitVec.ofNat w 1 from rfl, ← BitVec.ofNat_add,
    Nat.add_comm 1 n]

/-- The last byte is copied out of what the bytes before it have left. -/
theorem copyBytes_succ (m : ByteMemory w) (d s : BitVec w) (n : Nat) :
    m.copyBytes d s (n + 1)
      = (m.copyBytes d s n).store (d + BitVec.ofNat w n)
          (m.copyBytes d s n (s + BitVec.ofNat w n)) := by
  induction n generalizing m d s with
  | zero => simp [copyBytes]
  | succ n ih =>
      rw [copyBytes, ih]
      simp only [copyBytes, add_one_add_ofNat]

theorem toNat_sub_eq_iff {x d : BitVec w} {n : Nat} (hn : n < 2 ^ w) :
    (x - d).toNat = n ↔ x = d + BitVec.ofNat w n := by
  constructor
  · intro heq
    rw [← heq, BitVec.ofNat_toNat, BitVec.setWidth_eq, add_sub_cancel]
  · intro heq
    rw [heq, add_sub_cancel_left, BitVec.toNat_ofNat, Nat.mod_eq_of_lt hn]

/-- Round `n` reads a byte the loop has written exactly if the period is positive and at most `n`,
and that byte stands one period back. -/
theorem source_mod_period (d s : BitVec w) {n : Nat} (hn : n < 2 ^ w) :
    (if (s + BitVec.ofNat w n - d).toNat < n then (s + BitVec.ofNat w n - d) % (d - s)
      else BitVec.ofNat w n) = BitVec.ofNat w n % (d - s) := by
  have hperiod := (d - s).isLt
  have hback : s + BitVec.ofNat w n - d = BitVec.ofNat w n - (d - s) := by abel
  rw [hback]
  apply BitVec.eq_of_toNat_eq
  rw [apply_ite BitVec.toNat, BitVec.toNat_umod, BitVec.toNat_umod, BitVec.toNat_ofNat,
    Nat.mod_eq_of_lt hn]
  by_cases hle : (d - s).toNat ≤ n
  · have hsub : (BitVec.ofNat w n - (d - s)).toNat = n - (d - s).toNat := by
      rw [BitVec.toNat_sub_of_le, BitVec.toNat_ofNat, Nat.mod_eq_of_lt hn]
      rwa [BitVec.le_def, BitVec.toNat_ofNat, Nat.mod_eq_of_lt hn]
    rw [hsub, ← Nat.mod_eq_sub_mod hle]
    split_ifs with hlt
    · rfl
    · rw [show (d - s).toNat = 0 by omega, Nat.mod_zero]
  · have hsub : (BitVec.ofNat w n - (d - s)).toNat = 2 ^ w - (d - s).toNat + n := by
      rw [BitVec.toNat_sub, BitVec.toNat_ofNat, Nat.mod_eq_of_lt hn, Nat.mod_eq_of_lt]
      omega
    rw [hsub, if_neg (by omega), Nat.mod_eq_of_lt (by omega)]

/-- Below the size of the address space, the loop leaves the source's first bytes repeated with the
distance of the two pointers as the period. -/
theorem copyBytes_apply (m : ByteMemory w) (d s x : BitVec w) {n : Nat} (hn : n ≤ 2 ^ w) :
    m.copyBytes d s n x
      = if (x - d).toNat < n then m (s + (x - d) % (d - s)) else m x := by
  induction n generalizing x with
  | zero => simp [copyBytes]
  | succ n ih =>
      have hlt : n < 2 ^ w := by omega
      have hlast := toNat_sub_eq_iff (x := x) (d := d) hlt
      rw [copyBytes_succ, store_apply]
      by_cases hx : x = d + BitVec.ofNat w n
      · rw [if_pos hx, if_pos (by rw [hlast.mpr hx]; omega), ih _ (by omega), hx,
          add_sub_cancel_left, ← source_mod_period d s hlt]
        split_ifs <;> rfl
      · have hne : (x - d).toNat ≠ n := fun heq => hx (hlast.mp heq)
        rw [if_neg hx, ih _ (by omega)]
        apply if_congr _ rfl rfl
        omega

/-- The loop moves the bytes exactly when the source agrees with its own repetition. -/
theorem copyBytes_eq_moveBytes_iff (m : ByteMemory w) (d s : BitVec w) {n : Nat}
    (hn : n ≤ 2 ^ w) :
    m.copyBytes d s n = m.moveBytes d s n ↔
      ∀ i : BitVec w, i.toNat < n → m (s + i) = m (s + i % (d - s)) := by
  constructor
  · intro heq i hi
    have hbyte := congrFun heq (d + i)
    rw [copyBytes_apply _ _ _ _ hn, moveBytes, add_sub_cancel_left, if_pos hi, if_pos hi] at hbyte
    exact hbyte.symm
  · intro hsame
    funext x
    rw [copyBytes_apply _ _ _ _ hn, moveBytes]
    split_ifs with hx
    · exact (hsame _ hx).symm
    · rfl

/-- Nothing repeats when the destination does not start inside the source. -/
theorem mod_period_eq {d s i : BitVec w} {n : Nat}
    (hapart : d = s ∨ n ≤ (d - s).toNat) (hi : i.toNat < n) : i % (d - s) = i := by
  apply BitVec.eq_of_toNat_eq
  rw [BitVec.toNat_umod]
  cases hapart with
  | inl heq => simp [heq]
  | inr hle => exact Nat.mod_eq_of_lt (by omega)

end ByteMemory

end Misan
