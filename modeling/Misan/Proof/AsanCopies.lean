import Misan.Proof.AsanShadow

/-!
# The interposed copies

The compiler sends `memcpy` and `memset` to `__asan_memcpy` and `__asan_memset`, which run the loops
of the common header. No shadow is looked at, and only a destination among the shadow bytes can
change a verdict. A destination inside the source makes the copy repeat itself, and from the very
next byte on it is a `memset`.
-/

namespace Misan

variable (m : Memory) (dest src n : Addr)

theorem asanMemcpy_apply (x : Addr) :
    (asanMemcpy m dest src n).1 x
      = if x - dest < n then m (src + (x - dest) % (dest - src)) else m x := by
  calc (asanMemcpy m dest src n).1 x = m.copyBytes dest src n.toNat x := rfl
    _ = _ := ByteMemory.copyBytes_apply _ _ _ _ (Nat.le_of_lt n.isLt)
    _ = _ := if_congr BitVec.lt_def.symm rfl rfl

theorem exists_offset_iff (x : Addr) :
    (∃ i < n.toNat, x = dest + BitVec.ofNat 64 i) ↔ x - dest < n := by
  have hn := n.isLt
  rw [BitVec.lt_def]
  constructor
  · rintro ⟨i, hi, hx⟩
    rwa [(ByteMemory.toNat_sub_eq_iff (by omega)).mpr hx]
  · intro hlt
    exact ⟨_, hlt, (ByteMemory.toNat_sub_eq_iff (x - dest).isLt).mp rfl⟩

theorem asanMemset_apply (c : BitVec 32) (x : Addr) :
    (asanMemset m dest c n).1 x = if x - dest < n then c.setWidth 8 else m x := by
  calc (asanMemset m dest c n).1 x = m.fillBytes dest (c.setWidth 8) n.toNat x := rfl
    _ = _ := ByteMemory.fillBytes_apply _ _ _ _ _
    _ = _ := if_congr (exists_offset_iff dest n x) rfl rfl

/-- A destination that does not start inside the source gets the source's bytes. -/
theorem asanMemcpy_of_apart (hapart : dest = src ∨ n.toNat ≤ (dest - src).toNat) :
    (asanMemcpy m dest src n).1 = m.moveBytes dest src n.toNat := by
  apply (ByteMemory.copyBytes_eq_moveBytes_iff _ _ _ (Nat.le_of_lt n.isLt)).mpr
  intro i hi
  rw [ByteMemory.mod_period_eq hapart hi]

/-- Copied to the byte after it, the first byte of the source fills the destination. -/
theorem asanMemcpy_next :
    asanMemcpy m (src + 1) src n = asanMemset m (src + 1) ((m src).setWidth 32) n := by
  have hmod (i : Addr) : i % 1 = 0 := BitVec.umod_one
  apply Prod.ext
  · funext x
    rw [asanMemcpy_apply, asanMemset_apply, add_sub_cancel_left, hmod, add_zero]
    simp
  · rfl

/-- The shadow of the application's half lies outside it. -/
theorem asanMemcpy_asanShadowGet (hdest : dest.toNat + n.toNat ≤ 2 ^ 47) {addr : Addr}
    (haddr : addr.toNat < 2 ^ 47) :
    asanShadowGet (asanMemcpy m dest src n).1 addr = asanShadowGet m addr := by
  rw [asanShadowGet, asanMemcpy_apply, if_neg]
  · rfl
  · rw [BitVec.lt_def, BitVec.toNat_sub, toNat_asanMemToShadow, asanGrain]
    omega

/-- **The copy**, for ranges that may meet and wrap: the first bytes of the source over and over. It
is a move exactly when the source repeats itself so, and no check of the application's half can tell
a copy within it from none. -/
theorem asanMemcpy_spec (s : AsanState) :
    (asanMemcpy s.mem dest src n).2 = dest ∧
    (∀ x, (asanMemcpy s.mem dest src n).1 x
      = if x - dest < n then s.mem (src + (x - dest) % (dest - src)) else s.mem x) ∧
    ((asanMemcpy s.mem dest src n).1 = s.mem.moveBytes dest src n.toNat ↔
      ∀ i < n, s.mem (src + i) = s.mem (src + i % (dest - src))) ∧
    (dest.toNat + n.toNat ≤ 2 ^ 47 → ∀ addr size isWrite, addr.toNat < 2 ^ 47 →
      asanCheckAccess { s with mem := (asanMemcpy s.mem dest src n).1 } addr size isWrite
        = asanCheckAccess s addr size isWrite) := by
  refine ⟨rfl, asanMemcpy_apply _ _ _ _, ?_, ?_⟩
  · simp only [BitVec.lt_def]
    exact ByteMemory.copyBytes_eq_moveBytes_iff _ _ _ (Nat.le_of_lt n.isLt)
  · intro hdest addr size isWrite haddr
    have hgrain : (addr &&& ~~~asanShadowMask).toNat < 2 ^ 47 := by
      rw [toNat_and_not_asanShadowMask]
      omega
    simp only [asanCheckAccess, asanMemcpy_asanShadowGet _ _ _ _ hdest hgrain]

end Misan
