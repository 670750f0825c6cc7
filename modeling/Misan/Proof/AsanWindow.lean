import Misan.Proof.AsanRegions

/-!
# The edge of the shadow window

The window ends where the address space does. The loops run up to an exclusive bound, and for a
region that reaches into the last grain the bound is `0`: nothing is left to run over. Below the
last grain they store to the shadow of the region and to nothing else.
-/

namespace Misan

open ByteMemory

variable {beg size : Addr} {val : BitVec 8}

/-- `[ASAN_SHADOW_BASE, ASAN_SHADOW_BASE + 2^47)`, which `__asan_init` maps. -/
def asanShadowWindow : Set Addr :=
  {s | asanShadowBase.toNat ≤ s.toNat ∧ s.toNat < asanShadowBase.toNat + 2 ^ 47}

def asanRegionShadow (beg size : Addr) : Set Addr :=
  {s | ∃ b, InRegion beg size b ∧ asanMemToShadow b = s}

/-- Both range operations store to exactly the shadow of the region, which lies in the window and
has one byte for each grain. -/
structure CoversRegion (beg size : Addr) (val : BitVec 8) : Prop where
  poison : writes (asanPoisonRange · beg size val) = asanRegionShadow beg size
  unpoison : writes (asanUnpoisonRange · beg size) = asanRegionShadow beg size
  window : asanRegionShadow beg size ⊆ asanShadowWindow
  injective : ∀ b b', InRegion beg size b → InRegion beg size b' →
    asanMemToShadow b = asanMemToShadow b' → asanGrain b = asanGrain b'

/-! ### The shadow of a region -/

theorem toNat_asanMemToShadow_of_lt {a : Addr} (ha : a.toNat < 2 ^ 50) :
    (asanMemToShadow a).toNat = 0xFFFF800000000000 + a.toNat / 8 := by
  rw [toNat_asanMemToShadow, asanGrain]
  omega

/-- The shadow of a region is the run from the grain of its first byte to that of its last. -/
theorem mem_asanRegionShadow (hsize : 1 ≤ size.toNat) (hfit : beg.toNat + size.toNat ≤ 2 ^ 50)
    (x : Addr) :
    x ∈ asanRegionShadow beg size ↔ 0xFFFF800000000000 + beg.toNat / 8 ≤ x.toNat ∧
      x.toNat ≤ 0xFFFF800000000000 + (beg.toNat + size.toNat - 1) / 8 := by
  have hx := x.isLt
  constructor
  · rintro ⟨b, ⟨hlow, hhigh⟩, rfl⟩
    rw [toNat_asanMemToShadow_of_lt (by omega)]
    omega
  · rintro ⟨hlow, hhigh⟩
    let b := max beg.toNat (8 * (x.toNat - 0xFFFF800000000000))
    have hb : (BitVec.ofNat 64 b).toNat = b := by
      rw [BitVec.toNat_ofNat]
      omega
    refine ⟨BitVec.ofNat 64 b, ?_, BitVec.eq_of_toNat_eq ?_⟩
    · rw [InRegion, hb]
      omega
    · rw [toNat_asanMemToShadow_of_lt (by omega), hb]
      omega

theorem asanRegionShadow_window (hfit : beg.toNat + size.toNat ≤ 2 ^ 50) :
    asanRegionShadow beg size ⊆ asanShadowWindow := by
  rintro x ⟨b, ⟨-, hhigh⟩, rfl⟩
  have hbase : asanShadowBase.toNat = 0xFFFF800000000000 := rfl
  rw [asanShadowWindow, Set.mem_ofPred_eq, toNat_asanMemToShadow_of_lt (by omega), hbase]
  omega

theorem asanRegionShadow_injective (hfit : beg.toNat + size.toNat ≤ 2 ^ 50) (b b' : Addr)
    (_ : InRegion beg size b) (hb' : InRegion beg size b')
    (hsame : asanMemToShadow b = asanMemToShadow b') : asanGrain b = asanGrain b' := by
  have hhigh := hb'.2
  exact (asanMemToShadow_inj_of_lt (by omega)).mp hsame

/-! ### What the loops store to -/

/-- The addresses the loop of either range operation runs over. -/
def asanLoopRange (beg size : Addr) : Set Addr :=
  {x | asanMemToShadow beg ≤ x ∧ x < asanMemToShadow (beg + size - 1) + 1}

instance (beg size : Addr) : DecidablePred (· ∈ asanLoopRange beg size) :=
  fun _ => inferInstanceAs (Decidable (_ ∧ _))

theorem asanLoopRange_eq (hsize : 1 ≤ size.toNat) (hfit : beg.toNat + size.toNat ≤ 2 ^ 50 - 8) :
    asanLoopRange beg size = asanRegionShadow beg size := by
  ext x
  have hlast := toNat_last hsize (show beg.toNat + size.toNat ≤ 2 ^ 50 by omega)
  have hend : (asanMemToShadow (beg + size - 1) + 1).toNat =
      0xFFFF800000000000 + (beg.toNat + size.toNat - 1) / 8 + 1 := by
    rw [BitVec.toNat_add, toNat_asanMemToShadow_of_lt (by omega), hlast,
      show (1 : Addr).toNat = 1 from rfl]
    omega
  rw [mem_asanRegionShadow hsize (by omega), asanLoopRange, Set.mem_ofPred_eq, BitVec.le_def,
    BitVec.lt_def, hend, toNat_asanMemToShadow_of_lt (by omega)]
  omega

/-- In the last grain the exclusive bound has wrapped around. -/
theorem asanLoopRange_eq_empty (hsize : 1 ≤ size.toNat) (hfit : beg.toNat + size.toNat ≤ 2 ^ 50)
    (hlate : 2 ^ 50 - 8 < beg.toNat + size.toNat) : asanLoopRange beg size = ∅ := by
  have hlast := toNat_last hsize hfit
  have hend : (asanMemToShadow (beg + size - 1) + 1).toNat = 0 := by
    rw [BitVec.toNat_add, toNat_asanMemToShadow_of_lt (by omega), hlast,
      show (1 : Addr).toNat = 1 from rfl]
    omega
  ext x
  rw [asanLoopRange, Set.mem_ofPred_eq, BitVec.lt_def, hend]
  simp

theorem writes_asanUnpoisonRange (hsize : 1 ≤ size.toNat) :
    writes (asanUnpoisonRange · beg size) = asanLoopRange beg size := by
  apply writes_eq (v := fun _ => asanShadowUnpoisoned)
  intro m x
  rw [asanUnpoisonRange, if_neg (ne_zero_of_toNat_pos hsize)]
  exact fillUpTo_apply m _ _ x _

/-- Poisoning also stores to the first grain when the region starts inside it. -/
theorem writes_asanPoisonRange (hsize : 1 ≤ size.toNat) :
    writes (asanPoisonRange · beg size val) =
      {x | x ∈ asanLoopRange beg size ∨ beg.toNat % 8 ≠ 0 ∧ x = asanMemToShadow beg} := by
  classical
  have hgrain : asanMemToShadow (beg &&& ~~~asanShadowMask) = asanMemToShadow beg :=
    asanMemToShadow_congr (asanGrain_and_not_asanShadowMask beg)
  apply writes_eq (v := fun x => if beg.toNat % 8 ≠ 0 ∧ x = asanMemToShadow beg then
    BitVec.ofNat 8 (beg.toNat % 8) else val)
  intro m x
  have hfill : m.fillUpTo (asanMemToShadow beg) (asanMemToShadow (beg + size - 1) + 1) val x =
      if x ∈ asanLoopRange beg size then val else m x := fillUpTo_apply m _ _ x _
  rw [asanPoisonRange, if_neg (ne_zero_of_toNat_pos hsize)]
  by_cases hpart : beg.toNat % 8 = 0
  · have haligned : ¬ (beg &&& ~~~asanShadowMask) ≠ beg := fun h =>
      (and_not_asanShadowMask_ne_iff beg).mp h hpart
    rw [if_neg haligned, hfill]
    simp [hpart]
  · rw [if_pos ((and_not_asanShadowMask_ne_iff beg).mpr hpart), setWidth_sub_grain, store_apply,
      hgrain, hfill]
    by_cases hfirst : x = asanMemToShadow beg <;> simp [hpart, hfirst]

/-! ### Exactness -/

theorem asanRegionShadow_first (hsize : 1 ≤ size.toNat) :
    asanMemToShadow beg ∈ asanRegionShadow beg size :=
  ⟨beg, ⟨Nat.le_refl _, by omega⟩, rfl⟩

theorem writes_asanUnpoisonRange_iff (hsize : 1 ≤ size.toNat)
    (hfit : beg.toNat + size.toNat ≤ 2 ^ 50) :
    writes (asanUnpoisonRange · beg size) = asanRegionShadow beg size ↔
      beg.toNat + size.toNat ≤ 2 ^ 50 - 8 := by
  rw [writes_asanUnpoisonRange hsize]
  constructor
  · intro hexact
    by_contra hlate
    have hfirst : asanMemToShadow beg ∈ asanRegionShadow beg size := asanRegionShadow_first hsize
    rw [← hexact, asanLoopRange_eq_empty hsize hfit (not_le.mp hlate)] at hfirst
    exact hfirst
  · exact asanLoopRange_eq hsize

/-- For a region inside the last grain the store for a partial first grain makes up for the loop. -/
theorem writes_asanPoisonRange_iff (hsize : 1 ≤ size.toNat)
    (hfit : beg.toNat + size.toNat ≤ 2 ^ 50) :
    writes (asanPoisonRange · beg size val) = asanRegionShadow beg size ↔
      beg.toNat + size.toNat ≤ 2 ^ 50 - 8 ∨ 2 ^ 50 - 8 < beg.toNat := by
  have hbeg := toNat_asanMemToShadow_of_lt (show beg.toNat < 2 ^ 50 by omega)
  rw [writes_asanPoisonRange hsize]
  by_cases hlate : 2 ^ 50 - 8 < beg.toNat + size.toNat
  · rw [asanLoopRange_eq_empty hsize hfit hlate, or_iff_right (not_le.mpr hlate)]
    constructor
    · intro hexact
      have hfirst : asanMemToShadow beg ∈ asanRegionShadow beg size :=
        asanRegionShadow_first hsize
      have hlast : asanMemToShadow (beg + size - 1) ∈ asanRegionShadow beg size := by
        refine ⟨beg + size - 1, ?_, rfl⟩
        rw [InRegion, toNat_last hsize hfit]
        omega
      rw [← hexact] at hfirst hlast
      obtain ⟨hpart, -⟩ := hfirst.resolve_left (Set.notMem_empty _)
      obtain ⟨-, hsame⟩ := hlast.resolve_left (Set.notMem_empty _)
      have hnat := congrArg BitVec.toNat hsame
      rw [hbeg, toNat_asanMemToShadow_of_lt (by rw [toNat_last hsize hfit]; omega),
        toNat_last hsize hfit] at hnat
      omega
    · intro hinside
      ext x
      rw [mem_asanRegionShadow hsize hfit, Set.mem_ofPred_eq, ← BitVec.toNat_inj, hbeg,
        or_iff_right (Set.notMem_empty x)]
      omega
  · rw [asanLoopRange_eq hsize (not_lt.mp hlate)]
    refine iff_of_true ?_ (Or.inl (not_lt.mp hlate))
    ext x
    rw [Set.mem_ofPred_eq]
    apply or_iff_left_of_imp
    rintro ⟨-, rfl⟩
    exact asanRegionShadow_first hsize

/-- **The region is covered exactly** when it ends below the last grain of the window. -/
theorem coversRegion_iff (hsize : 1 ≤ size.toNat) (hfit : beg.toNat + size.toNat ≤ 2 ^ 50) :
    CoversRegion beg size val ↔ beg.toNat + size.toNat ≤ 2 ^ 50 - 8 := by
  constructor
  · intro hcovers
    exact (writes_asanUnpoisonRange_iff hsize hfit).mp hcovers.unpoison
  · intro hbelow
    exact ⟨(writes_asanPoisonRange_iff hsize hfit).mpr (Or.inl hbelow),
      (writes_asanUnpoisonRange_iff hsize hfit).mpr hbelow, asanRegionShadow_window hfit,
      asanRegionShadow_injective hfit⟩

theorem coversRegion_small : CoversRegion 5 7 asanShadowPoisoned :=
  (coversRegion_iff (by decide) (by decide)).mpr (by decide)

/-- The last grain of the window is never poisoned as a whole. -/
theorem not_coversRegion_last_grain :
    ¬ ∀ (beg size : Addr) (val : BitVec 8), 1 ≤ size.toNat → beg.toNat + size.toNat ≤ 2 ^ 50 →
      CoversRegion beg size val := by
  intro hclaim
  let last : Addr := 0x3FFFFFFFFFFF8
  have hcovers := hclaim last 8 asanShadowPoisoned (by decide) (by decide)
  have hpoison := (writes_asanPoisonRange_iff (by decide) (by decide)).mp hcovers.poison
  exact absurd hpoison (by decide)

end Misan
