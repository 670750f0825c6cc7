import Misan.Proof.AsanShadow

/-!
# The compiler's filler and the runtime's

`misan_set_shadow` counts grains, the range operations walk a pointer over them. From an aligned
address both fill a run of shadow bytes from the same one on, so only the number of grains can
differ: the counting loop drops a last grain that is not full, the walk includes it.
-/

namespace Misan

section Fillers

variable (m : Memory) {addr size : Addr} (val : BitVec 8)

/-- The grains of a range that starts on a grain boundary. -/
theorem fillUpTo_eq_fillBytes_grains (hsize : size ≠ 0) (haligned : addr.toNat % 8 = 0)
    (hfit : addr.toNat + size.toNat ≤ 2 ^ 47) :
    m.fillUpTo (asanMemToShadow addr) (asanMemToShadow (addr + size - 1) + 1) val
      = m.fillBytes (asanMemToShadow addr) val ((size.toNat + 7) / 8) := by
  have hpos := toNat_pos_of_ne hsize
  have hlast : (addr + size - 1).toNat = addr.toNat + size.toNat - 1 := by
    rw [BitVec.toNat_sub, BitVec.toNat_add, show (1 : Addr).toNat = 1 from rfl]
    omega
  apply ByteMemory.fillUpTo_eq_fillBytes
  rw [BitVec.toNat_add, toNat_asanMemToShadow, toNat_asanMemToShadow, asanGrain, asanGrain, hlast,
    show (1 : Addr).toNat = 1 from rfl]
  omega

theorem asanUnpoisonRange_eq_fillBytes (haligned : addr.toNat % 8 = 0)
    (hfit : addr.toNat + size.toNat ≤ 2 ^ 47) :
    asanUnpoisonRange m addr size
      = m.fillBytes (asanMemToShadow addr) 0 ((size.toNat + 7) / 8) := by
  unfold asanUnpoisonRange
  by_cases hsize : size = 0
  · rw [if_pos hsize, hsize]
    rfl
  · rw [if_neg hsize]
    exact fillUpTo_eq_fillBytes_grains m _ hsize haligned hfit

theorem asanPoisonRange_eq_fillBytes (haligned : addr.toNat % 8 = 0)
    (hfit : addr.toNat + size.toNat ≤ 2 ^ 47) :
    asanPoisonRange m addr size val
      = m.fillBytes (asanMemToShadow addr) val ((size.toNat + 7) / 8) := by
  unfold asanPoisonRange
  by_cases hsize : size = 0
  · rw [if_pos hsize, hsize]
    rfl
  · have hbeg : ¬ (addr &&& ~~~asanShadowMask) ≠ addr := by
      rw [and_not_asanShadowMask_ne_iff]
      omega
    rw [if_neg hsize]
    dsimp only
    rw [if_neg hbeg]
    exact fillUpTo_eq_fillBytes_grains m val hsize haligned hfit

theorem misanSetShadow_eq_fillBytes :
    misanSetShadow m addr size val
      = m.fillBytes (asanMemToShadow addr) val (size.toNat / 8) := by
  have hbase : (addr >>> 3) + asanShadowBase = asanMemToShadow addr := BitVec.add_comm _ _
  have hcount : (size >>> 3).toNat = size.toNat / 8 := by
    rw [BitVec.toNat_ushiftRight, Nat.shiftRight_eq_div_pow]
  rw [misanSetShadow, hbase, hcount]

/-- Counting the full grains of a range leaves what filling all of them leaves, unless the range
ends inside a grain whose shadow was another one. -/
theorem fillBytes_grains_eq_iff (haligned : addr.toNat % 8 = 0)
    (hfit : addr.toNat + size.toNat ≤ 2 ^ 47) :
    misanSetShadow m addr size val
        = m.fillBytes (asanMemToShadow addr) val ((size.toNat + 7) / 8) ↔
      size.toNat % 8 = 0 ∨ asanShadowGet m (addr + size) = val := by
  rw [misanSetShadow_eq_fillBytes]
  by_cases hfull : size.toNat % 8 = 0
  · have hcount : (size.toNat + 7) / 8 = size.toNat / 8 := by omega
    rw [hcount]
    exact iff_of_true rfl (Or.inl hfull)
  · have hcount : (size.toNat + 7) / 8 = size.toNat / 8 + 1 := by omega
    have hnext : asanMemToShadow addr + BitVec.ofNat 64 (size.toNat / 8)
        = asanMemToShadow (addr + size) := by
      apply BitVec.eq_of_toNat_eq
      rw [BitVec.toNat_add, toNat_asanMemToShadow, toNat_asanMemToShadow, asanGrain, asanGrain,
        BitVec.toNat_add, BitVec.toNat_ofNat]
      omega
    rw [hcount, ByteMemory.fillBytes_succ_eq_iff _ _ _ (by omega), hnext, or_iff_right hfull]
    exact Iff.rfl

/-- **The fillers agree** on a range that starts on a grain boundary exactly when it ends on one, or
the grain it ends in held the value before. -/
theorem misanSetShadow_agrees_iff (haligned : addr.toNat % 8 = 0)
    (hfit : addr.toNat + size.toNat ≤ 2 ^ 47) :
    (asanSetShadow00 m addr size = asanUnpoisonRange m addr size ↔
      size.toNat % 8 = 0 ∨ asanShadowGet m (addr + size) = 0) ∧
    ∀ v ∈ ([0xf1, 0xf2, 0xf3, 0xf5, 0xf8] : List (BitVec 8)),
      (misanSetShadow m addr size v = asanPoisonRange m addr size v ↔
        size.toNat % 8 = 0 ∨ asanShadowGet m (addr + size) = v) := by
  constructor
  · rw [asanUnpoisonRange_eq_fillBytes m haligned hfit]
    exact fillBytes_grains_eq_iff m 0 haligned hfit
  · intro v _
    rw [asanPoisonRange_eq_fillBytes m v haligned hfit]
    exact fillBytes_grains_eq_iff m v haligned hfit

end Fillers

/-- One range ends in a clean grain, the other in a grain that holds the value already. -/
theorem misanSetShadow_agrees_mixedGrains :
    asanSetShadow00 mixedGrains 8 20 = asanUnpoisonRange mixedGrains 8 20 ∧
      misanSetShadow mixedGrains 0 20 0xf1 = asanPoisonRange mixedGrains 0 20 0xf1 := by
  constructor
  · exact (misanSetShadow_agrees_iff mixedGrains (by decide) (by decide)).1.mpr
      (Or.inr (by decide))
  · exact ((misanSetShadow_agrees_iff mixedGrains (by decide) (by decide)).2 0xf1
      (List.mem_cons_self ..)).mpr (Or.inr (by decide))

/-- The last four bytes of a poisoned object stay poisoned when twelve bytes of it are cleared. -/
theorem asanSetShadow00_drops_tail :
    ¬ ∀ (m : Memory) (addr size : Addr), addr.toNat % 8 = 0 →
      addr.toNat + size.toNat ≤ 2 ^ 47 →
      asanSetShadow00 m addr size = asanUnpoisonRange m addr size ∧
      ∀ v ∈ ([0xf1, 0xf2, 0xf3, 0xf5, 0xf8] : List (BitVec 8)),
        misanSetShadow m addr size v = asanPoisonRange m addr size v := by
  intro hclaim
  have heq := (hclaim (fun _ => 0xf1) 0x1000 12 (by decide) (by decide)).1
  rw [asanUnpoisonRange_eq_fillBytes _ (by decide) (by decide), asanSetShadow00,
    fillBytes_grains_eq_iff _ _ (by decide) (by decide)] at heq
  exact absurd heq (by decide)

end Misan
