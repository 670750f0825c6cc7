import Misan.Proof.AsanShadow

/-!
# What a silent access check proves

`asan_check_access` decodes the shadow of the first grain and nothing else, so its silence vouches
for the whole access only where the rest of the access needs no vouching. The exact line between
the two is drawn here.
-/

namespace Misan

def accessByte (addr : Addr) (i : Nat) : Addr := addr + BitVec.ofNat 64 i

/-- **The check, decoded.** An armed check returns on a clean first grain, and on a partial one when
the 64-bit sum of offset and size does not exceed the accessible bytes. -/
theorem asanCheckAccess_eq_none_iff {s : AsanState} (hinit : s.asanInitialized = true)
    (addr size : Addr) (isWrite : Bool) :
    asanCheckAccess s addr size isWrite = none ↔
      asanShadowGet s.mem addr = 0 ∨
        (1 ≤ (asanShadowGet s.mem addr).toNat ∧ (asanShadowGet s.mem addr).toNat ≤ 7 ∧
          (addr.toNat % 8 + size.toNat) % 2 ^ 64 ≤ (asanShadowGet s.mem addr).toNat) := by
  have hfirst : asanShadowGet s.mem (addr &&& ~~~asanShadowMask) = asanShadowGet s.mem addr :=
    asanShadowGet_congr _ (asanGrain_and_not_asanShadowMask addr)
  unfold asanCheckAccess
  simp only [hinit, Bool.not_true, Bool.false_eq_true, if_false, hfirst, asanShadowUnpoisoned]
  generalize hshadow : asanShadowGet s.mem addr = shadow
  have hlt := shadow.isLt
  have hpos : shadow > 0 ↔ 1 ≤ shadow.toNat := by
    rw [gt_iff_lt, BitVec.lt_def]
    exact Iff.rfl
  have hgrain : shadow.setWidth 64 < asanShadowGrain ↔ shadow.toNat ≤ 7 := by
    rw [BitVec.lt_def, BitVec.toNat_setWidth, show asanShadowGrain.toNat = 8 from rfl]
    omega
  have hsum : (addr - (addr &&& ~~~asanShadowMask)) + size ≤ shadow.setWidth 64
      ↔ (addr.toNat % 8 + size.toNat) % 2 ^ 64 ≤ shadow.toNat := by
    rw [BitVec.le_def, BitVec.toNat_add, toNat_sub_grain, BitVec.toNat_setWidth]
    omega
  simp only [hpos, hgrain, hsum]
  split_ifs <;> simp_all

/-- The condition under which the first grain speaks for the whole access: a clean first grain is
not followed by an unaddressable byte in a later grain, and on a partial first grain the sum of
offset and size does not wrap around to something the grain accommodates. -/
def FirstGrainDecides (m : Memory) (addr size : Addr) : Prop :=
  (asanShadowGet m addr = 0 →
    ∀ i < size.toNat, 8 ≤ addr.toNat % 8 + i → AsanAddressable m (accessByte addr i)) ∧
  (1 ≤ (asanShadowGet m addr).toNat → (asanShadowGet m addr).toNat ≤ 7 →
    2 ^ 64 ≤ addr.toNat % 8 + size.toNat →
      (asanShadowGet m addr).toNat < addr.toNat % 8 + size.toNat - 2 ^ 64)

theorem asanShadowGet_accessByte_of_lt (m : Memory) {addr : Addr} {i : Nat}
    (hi : addr.toNat % 8 + i < 8) :
    asanShadowGet m (accessByte addr i) = asanShadowGet m addr :=
  asanShadowGet_congr m (asanGrain_add_of_lt hi)

theorem accessByte_mod_of_lt {addr : Addr} {i : Nat} (hi : addr.toNat % 8 + i < 8) :
    (accessByte addr i).toNat % 8 = addr.toNat % 8 + i := by
  rw [accessByte, toNat_add_of_lt_grain hi]
  omega

/-- **A silent check, exactly.** A check that returns has established that every byte of the access
is addressable if and only if the first grain decides the access. -/
theorem asanCheckAccess_sound_iff {s : AsanState} (hinit : s.asanInitialized = true)
    {addr size : Addr} (hsize : 1 ≤ size.toNat) (isWrite : Bool) :
    (asanCheckAccess s addr size isWrite = none →
        ∀ i < size.toNat, AsanAddressable s.mem (accessByte addr i)) ↔
      FirstGrainDecides s.mem addr size := by
  have hsizeLt := size.isLt
  rw [asanCheckAccess_eq_none_iff hinit]
  constructor
  · intro hsound
    refine ⟨fun hclean i hi _ => hsound (Or.inl hclean) i hi, fun hone hseven hwrap => ?_⟩
    by_contra hfits
    have hsilent := hsound (Or.inr ⟨hone, hseven, by omega⟩)
    -- an access this long covers the last byte of its first grain
    have hlast := hsilent (7 - addr.toNat % 8) (by omega)
    have hmod : (accessByte addr (7 - addr.toNat % 8)).toNat % 8 = 7 := by
      rw [accessByte_mod_of_lt (by omega)]
      omega
    rw [AsanAddressable, asanShadowGet_accessByte_of_lt _ (by omega), hmod] at hlast
    rcases hlast with hzero | ⟨-, -, hlt⟩
    · rw [hzero] at hone
      exact absurd hone (by decide)
    · omega
  · rintro ⟨hclean, hpartial⟩ hsilent i hi
    rcases hsilent with hzero | ⟨hone, hseven, hfits⟩
    · by_cases hlow : addr.toNat % 8 + i < 8
      · exact Or.inl (by rw [asanShadowGet_accessByte_of_lt _ hlow, hzero])
      · exact hclean hzero i hi (by omega)
    · have hnowrap : addr.toNat % 8 + size.toNat < 2 ^ 64 := by
        by_contra hwrap
        have := hpartial hone hseven (by omega)
        omega
      have hlow : addr.toNat % 8 + i < 8 := by omega
      apply Or.inr
      rw [asanShadowGet_accessByte_of_lt _ hlow, accessByte_mod_of_lt hlow]
      omega

def secondGrainPoisoned : AsanState where
  mem := fun x => if x = asanMemToShadow 8 then asanShadowPoisoned else 0
  asanInitialized := true

/-- A sixteen-byte load from address `0` runs into the poisoned grain and is not reported. -/
theorem asanLoad16_misses_second_grain :
    ¬ ∀ (s : AsanState) (addr size : Addr) (isWrite : Bool), s.asanInitialized = true →
      1 ≤ size.toNat → asanCheckAccess s addr size isWrite = none →
        ∀ i < size.toNat, AsanAddressable s.mem (accessByte addr i) := by
  intro hsound
  have hbyte := hsound secondGrainPoisoned 0 16 false rfl (by decide) (by decide) 8 (by decide)
  rcases hbyte with hzero | ⟨-, hseven, -⟩
  · exact absurd hzero (by decide)
  · exact absurd hseven (by decide)

/-- An access that ends with the accessible bytes of a partial grain. -/
theorem asanCheckAccess_sound_mixedGrains :
    asanCheckAccess ⟨mixedGrains, true⟩ 3 10 false = none ∧
      ∀ i < 10, AsanAddressable mixedGrains (accessByte 3 i) := by
  have hsilent : asanCheckAccess ⟨mixedGrains, true⟩ 3 10 false = none := by decide
  have hclean : asanShadowGet mixedGrains 3 = 0 := by decide
  have hdecides : FirstGrainDecides mixedGrains 3 10 := by
    refine ⟨fun _ => by decide, fun hone => ?_⟩
    rw [hclean] at hone
    exact absurd hone (by decide)
  exact ⟨hsilent, (asanCheckAccess_sound_iff (s := ⟨mixedGrains, true⟩) rfl (by decide)
    false).mpr hdecides hsilent⟩

end Misan
