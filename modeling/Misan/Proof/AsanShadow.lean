import Misan.Asan
import Misan.Foundation.Alignment
import Mathlib.Tactic.SplitIfs

/-!
# What a range operation does to the shadow

Both range loops run over shadow addresses. Read back through `asan_shadow_get`, each one touches
whole grains: those from the grain of the first byte to the grain of the last. The lemmas here say
so for every region that ends below the last grain of the shadow window; the runtime's other
properties use them and never unfold the loops again.
-/

namespace Misan

def asanGrain (x : Addr) : Nat := x.toNat / 8

/-- A byte the program may access, as the shadow encodes it. -/
def AsanAddressable (m : Memory) (b : Addr) : Prop :=
  asanShadowGet m b = 0 ∨
    (1 ≤ (asanShadowGet m b).toNat ∧ (asanShadowGet m b).toNat ≤ 7 ∧
      b.toNat % 8 < (asanShadowGet m b).toNat)

instance (m : Memory) (b : Addr) : Decidable (AsanAddressable m b) :=
  inferInstanceAs (Decidable (_ ∨ _))

/-! ### Address arithmetic -/

theorem toNat_and_not_asanShadowMask (a : Addr) :
    (a &&& ~~~asanShadowMask).toNat = a.toNat / 8 * 8 :=
  toNat_and_not_lowMask a asanShadowScale

theorem toNat_sub_grain (a : Addr) : (a - (a &&& ~~~asanShadowMask)).toNat = a.toNat % 8 := by
  have ha := a.isLt
  rw [BitVec.toNat_sub, toNat_and_not_asanShadowMask]
  omega

theorem toNat_asanMemToShadow (a : Addr) :
    (asanMemToShadow a).toNat = (0xFFFF800000000000 + asanGrain a) % 2 ^ 64 := by
  rw [asanMemToShadow, BitVec.toNat_add, BitVec.toNat_ushiftRight, Nat.shiftRight_eq_div_pow]
  rfl

theorem asanMemToShadow_congr {a b : Addr} (hgrain : asanGrain a = asanGrain b) :
    asanMemToShadow a = asanMemToShadow b := by
  apply BitVec.eq_of_toNat_eq
  rw [toNat_asanMemToShadow, toNat_asanMemToShadow, hgrain]

theorem asanShadowGet_congr (m : Memory) {a b : Addr} (hgrain : asanGrain a = asanGrain b) :
    asanShadowGet m a = asanShadowGet m b := by
  rw [asanShadowGet, asanShadowGet, asanMemToShadow_congr hgrain]

theorem asanGrain_and_not_asanShadowMask (a : Addr) :
    asanGrain (a &&& ~~~asanShadowMask) = asanGrain a := by
  rw [asanGrain, asanGrain, toNat_and_not_asanShadowMask]
  omega

/-- An offset that stays inside the grain of its base does not carry. -/
theorem toNat_add_of_lt_grain {a : Addr} {i : Nat} (hi : a.toNat % 8 + i < 8) :
    (a + BitVec.ofNat 64 i).toNat = a.toNat + i := by
  have ha := a.isLt
  rw [BitVec.toNat_add, BitVec.toNat_ofNat]
  omega

theorem asanGrain_add_of_lt {a : Addr} {i : Nat} (hi : a.toNat % 8 + i < 8) :
    asanGrain (a + BitVec.ofNat 64 i) = asanGrain a := by
  rw [asanGrain, asanGrain, toNat_add_of_lt_grain hi]
  omega

/-! ### The range loops -/

section Ranges

variable {beg size : Addr}

/-- The grains a region touches, when it is not empty. -/
def AsanTouches (beg size x : Addr) : Prop :=
  0 < size.toNat ∧ asanGrain beg ≤ asanGrain x ∧ asanGrain x ≤ (beg.toNat + size.toNat - 1) / 8

instance (beg size x : Addr) : Decidable (AsanTouches beg size x) :=
  inferInstanceAs (Decidable (_ ∧ _))

theorem toNat_pos_of_ne (hsize : size ≠ 0) : 0 < size.toNat := by
  rw [Nat.pos_iff_ne_zero]
  exact fun hzero => hsize (BitVec.eq_of_toNat_eq hzero)

theorem ne_zero_of_toNat_pos (hsize : 0 < size.toNat) : size ≠ 0 := by
  rintro rfl
  exact absurd hsize (by decide)

theorem toNat_last (hsize : 1 ≤ size.toNat) (hfit : beg.toNat + size.toNat ≤ 2 ^ 50) :
    (beg + size - 1).toNat = beg.toNat + size.toNat - 1 := by
  rw [BitVec.toNat_sub, BitVec.toNat_add, show (1 : Addr).toNat = 1 from rfl]
  omega

/-- In a region that ends below the last grain of the window the loop bounds do not wrap, and the
loop condition is about grains. -/
theorem shadow_bounds_iff (hsize : size ≠ 0) (hfit : beg.toNat + size.toNat ≤ 2 ^ 50 - 8)
    (x : Addr) :
    (asanMemToShadow beg ≤ asanMemToShadow x ∧
        asanMemToShadow x < asanMemToShadow (beg + size - 1) + 1) ↔ AsanTouches beg size x := by
  have hx := x.isLt
  have hpos := toNat_pos_of_ne hsize
  have hlast := toNat_last hpos (show beg.toNat + size.toNat ≤ 2 ^ 50 by omega)
  have hbeg : (asanMemToShadow beg).toNat = 0xFFFF800000000000 + beg.toNat / 8 := by
    rw [toNat_asanMemToShadow, asanGrain]
    omega
  have hend : (asanMemToShadow (beg + size - 1) + 1).toNat
      = 0xFFFF800000000000 + (beg.toNat + size.toNat - 1) / 8 + 1 := by
    rw [BitVec.toNat_add, toNat_asanMemToShadow, asanGrain, hlast,
      show (1 : Addr).toNat = 1 from rfl]
    omega
  simp only [AsanTouches, BitVec.le_def, BitVec.lt_def, hbeg, hend, toNat_asanMemToShadow,
    asanGrain]
  omega

theorem not_asanTouches_zero (beg x : Addr) : ¬ AsanTouches beg 0 x := by
  simp [AsanTouches]

theorem asanTouches_of_eq (hsize : size ≠ 0) {x : Addr} (hgrain : asanGrain x = asanGrain beg) :
    AsanTouches beg size x := by
  have hpos := toNat_pos_of_ne hsize
  refine ⟨hpos, hgrain.ge, ?_⟩
  rw [hgrain, asanGrain]
  omega

theorem fillUpTo_asanMemToShadow (m : Memory) (val : BitVec 8) (hsize : size ≠ 0)
    (hfit : beg.toNat + size.toNat ≤ 2 ^ 50 - 8) (x : Addr) :
    m.fillUpTo (asanMemToShadow beg) (asanMemToShadow (beg + size - 1) + 1) val
        (asanMemToShadow x)
      = if AsanTouches beg size x then val else asanShadowGet m x := by
  rw [ByteMemory.fillUpTo_apply]
  exact if_congr (shadow_bounds_iff hsize hfit x) rfl rfl

/-- **Unpoisoning, read back.** -/
theorem asanShadowGet_asanUnpoisonRange (m : Memory)
    (hfit : beg.toNat + size.toNat ≤ 2 ^ 50 - 8) (x : Addr) :
    asanShadowGet (asanUnpoisonRange m beg size) x
      = if AsanTouches beg size x then 0 else asanShadowGet m x := by
  unfold asanUnpoisonRange
  by_cases hsize : size = 0
  · subst hsize
    rw [if_pos rfl, if_neg (not_asanTouches_zero beg x)]
  · rw [if_neg hsize]
    exact fillUpTo_asanMemToShadow m _ hsize hfit x

theorem asanMemToShadow_inj_of_lt {a x : Addr} (ha : a.toNat < 2 ^ 50) :
    asanMemToShadow x = asanMemToShadow a ↔ asanGrain x = asanGrain a := by
  have hx := x.isLt
  rw [← BitVec.toNat_inj, toNat_asanMemToShadow, toNat_asanMemToShadow, asanGrain, asanGrain]
  omega

theorem and_not_asanShadowMask_ne_iff (a : Addr) :
    (a &&& ~~~asanShadowMask) ≠ a ↔ a.toNat % 8 ≠ 0 := by
  rw [Ne, ← BitVec.toNat_inj, toNat_and_not_asanShadowMask]
  omega

/-- The byte a poisoning writes over the grain it starts inside of. -/
theorem setWidth_sub_grain (a : Addr) :
    ((a - (a &&& ~~~asanShadowMask)) &&& 0x7).setWidth 8 = BitVec.ofNat 8 (a.toNat % 8) := by
  apply BitVec.eq_of_toNat_eq
  rw [BitVec.toNat_setWidth, BitVec.toNat_and, toNat_sub_grain, BitVec.toNat_ofNat,
    show (0x7 : Addr).toNat = 2 ^ 3 - 1 from rfl, Nat.and_two_pow_sub_one_eq_mod]
  omega

/-- **Poisoning, read back.** The first grain ends up with the number of bytes before the region
when the region starts inside it, and with the poison value otherwise. -/
theorem asanShadowGet_asanPoisonRange (m : Memory) (val : BitVec 8)
    (hfit : beg.toNat + size.toNat ≤ 2 ^ 50 - 8) (x : Addr) :
    asanShadowGet (asanPoisonRange m beg size val) x
      = if AsanTouches beg size x then
          if asanGrain x = asanGrain beg ∧ beg.toNat % 8 ≠ 0 then BitVec.ofNat 8 (beg.toNat % 8)
          else val
        else asanShadowGet m x := by
  unfold asanPoisonRange
  by_cases hsize : size = 0
  · subst hsize
    rw [if_pos rfl, if_neg (not_asanTouches_zero beg x)]
  have hfill := fillUpTo_asanMemToShadow m val hsize hfit
  rw [if_neg hsize]
  dsimp only
  by_cases hpart : beg.toNat % 8 = 0
  · have haligned : ¬ (beg &&& ~~~asanShadowMask) ≠ beg := fun hne =>
      (and_not_asanShadowMask_ne_iff beg).mp hne hpart
    rw [if_neg haligned, asanShadowGet, hfill]
    simp [hpart]
  · have hhead : asanMemToShadow x = asanMemToShadow (beg &&& ~~~asanShadowMask)
        ↔ asanGrain x = asanGrain beg := by
      rw [asanMemToShadow_inj_of_lt (by rw [toNat_and_not_asanShadowMask]; omega),
        asanGrain_and_not_asanShadowMask]
    rw [if_pos ((and_not_asanShadowMask_ne_iff beg).mpr hpart), asanShadowGet,
      ByteMemory.store_apply, setWidth_sub_grain, hfill]
    by_cases hfirst : asanGrain x = asanGrain beg
    · rw [if_pos (hhead.mpr hfirst), if_pos (asanTouches_of_eq hsize hfirst),
        if_pos ⟨hfirst, hpart⟩]
    · rw [if_neg (mt hhead.mp hfirst)]
      simp [hfirst]

end Ranges

/-- A shadow with a partial grain between a clean and a poisoned one. -/
def mixedGrains : Memory := fun x =>
  if x = asanMemToShadow 8 then 5
  else if x = asanMemToShadow 16 then asanShadowStackLeft
  else asanShadowUnpoisoned

end Misan
