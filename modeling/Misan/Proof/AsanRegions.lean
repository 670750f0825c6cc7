import Misan.Proof.AsanShadow

/-!
# Regions that share a grain with their neighbours

A range operation is asked about bytes and works on whole grains. At the two ends of the region a
grain may hold bytes of a neighbour, and what the operation makes of those is what this file is
about. Poisoning writes a partial count over the first grain, which speaks for the bytes before the
region; nothing speaks for the bytes behind it, and unpoisoning looks at neither.
-/

namespace Misan

/-- `[beg, beg + size)`, in a part of the address space where the sum does not wrap. -/
def InRegion (beg size b : Addr) : Prop :=
  beg.toNat ≤ b.toNat ∧ b.toNat < beg.toNat + size.toNat

instance (beg size b : Addr) : Decidable (InRegion beg size b) :=
  inferInstanceAs (Decidable (_ ∧ _))

theorem AsanAddressable.of_le {m : Memory} {a b : Addr} (hb : AsanAddressable m b)
    (hgrain : asanGrain a = asanGrain b) (hle : a.toNat ≤ b.toNat) : AsanAddressable m a := by
  have hshadow := asanShadowGet_congr m hgrain
  rw [asanGrain, asanGrain] at hgrain
  rw [AsanAddressable, ← hshadow] at hb
  rw [AsanAddressable]
  apply hb.imp_right
  rintro ⟨hone, hseven, hlt⟩
  exact ⟨hone, hseven, by omega⟩

section Regions

variable {beg size : Addr} (m : Memory) {val : BitVec 8}

/-- In a touched grain the bytes before the region are addressable afterwards, whatever they were
before, and no others are. -/
theorem asanAddressable_asanPoisonRange (hfit : beg.toNat + size.toNat ≤ 2 ^ 50 - 8)
    (hval : 8 ≤ val.toNat) (b : Addr) :
    AsanAddressable (asanPoisonRange m beg size val) b ↔
      if AsanTouches beg size b then asanGrain b = asanGrain beg ∧ b.toNat < beg.toNat
      else AsanAddressable m b := by
  rw [AsanAddressable, asanShadowGet_asanPoisonRange m val hfit]
  by_cases htouch : AsanTouches beg size b
  · simp only [if_pos htouch]
    by_cases hpart : asanGrain b = asanGrain beg ∧ beg.toNat % 8 ≠ 0
    · rw [if_pos hpart, ← BitVec.toNat_inj, BitVec.toNat_ofNat,
        show (0 : BitVec 8).toNat = 0 from rfl]
      obtain ⟨hgrain, hpart⟩ := hpart
      rw [asanGrain, asanGrain] at hgrain ⊢
      omega
    · rw [if_neg hpart, ← BitVec.toNat_inj, show (0 : BitVec 8).toNat = 0 from rfl]
      rw [asanGrain, asanGrain] at hpart ⊢
      omega
  · simp only [if_neg htouch]
    exact Iff.rfl

theorem asanAddressable_asanUnpoisonRange (hfit : beg.toNat + size.toNat ≤ 2 ^ 50 - 8) (b : Addr) :
    AsanAddressable (asanUnpoisonRange m beg size) b ↔
      AsanTouches beg size b ∨ AsanAddressable m b := by
  rw [AsanAddressable, asanShadowGet_asanUnpoisonRange m hfit]
  by_cases htouch : AsanTouches beg size b
  · simp [htouch]
  · simp only [htouch, if_false, false_or]
    exact Iff.rfl

/-- The bytes of a neighbour in the grain the region starts in. -/
def SharesHead (beg b : Addr) : Prop := asanGrain b = asanGrain beg ∧ b.toNat < beg.toNat

/-- The bytes of a neighbour in the grain the region ends in. -/
def SharesTail (beg size b : Addr) : Prop :=
  beg.toNat + size.toNat ≤ b.toNat ∧ asanGrain b = (beg.toNat + size.toNat - 1) / 8

theorem SharesHead.asanTouches {b : Addr} (hhead : SharesHead beg b) (hsize : 1 ≤ size.toNat) :
    AsanTouches beg size b := by
  obtain ⟨hgrain, -⟩ := hhead
  refine ⟨hsize, hgrain.ge, ?_⟩
  rw [hgrain, asanGrain]
  omega

theorem SharesTail.asanTouches {b : Addr} (htail : SharesTail beg size b)
    (hsize : 1 ≤ size.toNat) : AsanTouches beg size b := by
  obtain ⟨-, hgrain⟩ := htail
  refine ⟨hsize, ?_, hgrain.le⟩
  rw [hgrain, asanGrain]
  omega

/-- What a range operation touches: the region, and what shares a grain with it. -/
theorem asanTouches_iff (b : Addr) :
    AsanTouches beg size b ↔ 1 ≤ size.toNat ∧
      (InRegion beg size b ∨ SharesHead beg b ∨ SharesTail beg size b) := by
  rw [AsanTouches, InRegion, SharesHead, SharesTail, asanGrain, asanGrain]
  omega

theorem InRegion.asanTouches {b : Addr} (hin : InRegion beg size b) : AsanTouches beg size b := by
  obtain ⟨hlow, hhigh⟩ := hin
  exact (asanTouches_iff b).mpr ⟨by omega, Or.inl ⟨hlow, hhigh⟩⟩

/-! ### Poisoning and the poison that was there -/

/-- The region is unaddressable afterwards, and so is everything that was. -/
def PoisonsAndKeeps (m : Memory) (beg size : Addr) (val : BitVec 8) : Prop :=
  (∀ b, InRegion beg size b → ¬ AsanAddressable (asanPoisonRange m beg size val) b) ∧
  ∀ b, ¬ AsanAddressable m b → ¬ AsanAddressable (asanPoisonRange m beg size val) b

/-- **Poison survives poisoning** exactly when there was none on the bytes before the region in the
grain it starts in: the count written over that grain makes all of them addressable. -/
theorem asanPoisonRange_keeps_iff (hsize : 1 ≤ size.toNat)
    (hfit : beg.toNat + size.toNat ≤ 2 ^ 47) (hval : 8 ≤ val.toNat) :
    PoisonsAndKeeps m beg size val ↔ ∀ b, SharesHead beg b → AsanAddressable m b := by
  have hafter := asanAddressable_asanPoisonRange m
    (show beg.toNat + size.toNat ≤ 2 ^ 50 - 8 by omega) hval
  constructor
  · rintro ⟨-, hkeeps⟩ b hhead
    by_contra hbefore
    apply hkeeps b hbefore
    rw [hafter, if_pos (hhead.asanTouches hsize)]
    exact hhead
  · intro hclean
    constructor
    · intro b hin haddr
      rw [hafter, if_pos hin.asanTouches] at haddr
      exact absurd haddr.2 (Nat.not_lt.mpr hin.1)
    · intro b hbefore haddr
      rw [hafter] at haddr
      split at haddr
      · exact hbefore (hclean b haddr)
      · exact hbefore haddr

/-! ### Neighbours -/

def PoisonSpares (m : Memory) (beg size : Addr) (val : BitVec 8) : Prop :=
  ∀ b, ¬ InRegion beg size b → AsanAddressable m b →
    AsanAddressable (asanPoisonRange m beg size val) b

def UnpoisonSpares (m : Memory) (beg size : Addr) : Prop :=
  ∀ b, ¬ InRegion beg size b → ¬ AsanAddressable m b →
    ¬ AsanAddressable (asanUnpoisonRange m beg size) b

/-- Poisoning spares its neighbours when none of them has addressable bytes behind the region in the
grain it ends in. -/
theorem poisonSpares_iff (hfit : beg.toNat + size.toNat ≤ 2 ^ 47) (hval : 8 ≤ val.toNat) :
    PoisonSpares m beg size val ↔
      (size.toNat ≠ 0 → ∀ b, SharesTail beg size b → ¬ AsanAddressable m b) := by
  have hafter := asanAddressable_asanPoisonRange m
    (show beg.toNat + size.toNat ≤ 2 ^ 50 - 8 by omega) hval
  constructor
  · intro hspares hsize b htail hbefore
    have hout : ¬ InRegion beg size b := fun hin => Nat.not_lt.mpr htail.1 hin.2
    have haddr := hspares b hout hbefore
    rw [hafter, if_pos (htail.asanTouches (by omega))] at haddr
    have hlow := htail.1
    omega
  · intro htail b hout hbefore
    rw [hafter]
    split
    · rename_i htouch
      obtain ⟨hsize, hin | hhead | hshares⟩ := (asanTouches_iff b).mp htouch
      · exact absurd hin hout
      · exact hhead
      · exact absurd hbefore (htail (by omega) b hshares)
    · exact hbefore

theorem unpoisonSpares_iff (hfit : beg.toNat + size.toNat ≤ 2 ^ 47) :
    UnpoisonSpares m beg size ↔
      (size.toNat ≠ 0 →
        ∀ b, SharesHead beg b ∨ SharesTail beg size b → AsanAddressable m b) := by
  have hafter := asanAddressable_asanUnpoisonRange m
    (show beg.toNat + size.toNat ≤ 2 ^ 50 - 8 by omega)
  constructor
  · intro hspares hsize b hshares
    have hout : ¬ InRegion beg size b := by
      rw [InRegion]
      rcases hshares with ⟨-, hlt⟩ | ⟨hle, -⟩
      · omega
      · omega
    by_contra hbefore
    apply hspares b hout hbefore
    rw [hafter]
    exact Or.inl ((asanTouches_iff b).mpr ⟨by omega, Or.inr hshares⟩)
  · intro hclean b hout hbefore haddr
    rw [hafter] at haddr
    rcases haddr with htouch | haddr
    · obtain ⟨hsize, hin | hshares⟩ := (asanTouches_iff b).mp htouch
      · exact hout hin
      · exact hbefore (hclean (by omega) b hshares)
    · exact hbefore haddr

/-- The tail is one byte's business: its first byte speaks for the others. -/
theorem exists_sharesTail_addressable_iff (hsize : size.toNat ≠ 0)
    (hfit : beg.toNat + size.toNat ≤ 2 ^ 47) :
    (∃ b, SharesTail beg size b ∧ AsanAddressable m b) ↔
      (beg.toNat + size.toNat) % 8 ≠ 0 ∧ AsanAddressable m (beg + size) := by
  have hend : (beg + size).toNat = beg.toNat + size.toNat := by
    rw [BitVec.toNat_add]
    omega
  constructor
  · rintro ⟨b, ⟨hle, hgrain⟩, haddr⟩
    have hb : asanGrain (beg + size) = asanGrain b := by
      rw [hgrain, asanGrain, hend]
      rw [asanGrain] at hgrain
      omega
    refine ⟨?_, haddr.of_le hb (by omega)⟩
    rw [asanGrain] at hgrain
    omega
  · rintro ⟨hpart, haddr⟩
    refine ⟨beg + size, ⟨hend.ge, ?_⟩, haddr⟩
    rw [asanGrain, hend]
    omega

/-- **Neighbours are spared** by a poisoning exactly when no addressable byte follows the region in
the grain it ends in, and by an unpoisoning exactly when no unaddressable byte shares a grain with
the region at either end. -/
theorem asanRanges_spare_iff (hfit : beg.toNat + size.toNat ≤ 2 ^ 47) (hval : 8 ≤ val.toNat) :
    (PoisonSpares m beg size val ↔
      size = 0 ∨ (beg.toNat + size.toNat) % 8 = 0 ∨ ¬ AsanAddressable m (beg + size)) ∧
    (UnpoisonSpares m beg size ↔
      size = 0 ∨ ∀ b, SharesHead beg b ∨ SharesTail beg size b → AsanAddressable m b) := by
  have hzero : size.toNat = 0 ↔ size = 0 := by
    rw [← BitVec.toNat_inj]
    exact Iff.rfl
  constructor
  · rw [poisonSpares_iff m hfit hval, ← hzero]
    by_cases hsize : size.toNat = 0
    · simp [hsize]
    · have htail := exists_sharesTail_addressable_iff m hsize hfit
      rw [or_iff_right hsize, ← not_ne_iff, ← not_and_or, ← htail]
      simp [hsize]
  · rw [unpoisonSpares_iff m hfit, ← hzero, or_iff_not_imp_left]

end Regions

/-! ### Two grains of poison, and none -/

def firstGrainPoisoned : Memory := fun x => if x = asanMemToShadow 0 then asanShadowPoisoned else 0

/-- Poisoning bytes `4` to `7` of a poisoned grain makes its bytes `0` to `3` addressable. -/
theorem asanPoisonRange_loses_head :
    ¬ ∀ (m : Memory) (beg size : Addr) (val : BitVec 8), 1 ≤ size.toNat →
      beg.toNat + size.toNat ≤ 2 ^ 47 → 8 ≤ val.toNat → PoisonsAndKeeps m beg size val := by
  intro hclaim
  have hkeeps := (hclaim firstGrainPoisoned 4 4 asanShadowPoisoned (by decide) (by decide)
    (by decide)).2 0 (by decide)
  apply hkeeps
  rw [asanAddressable_asanPoisonRange _ (by decide) (by decide), if_pos (by decide)]
  decide

/-- A region that starts behind the accessible bytes it shares a grain with, and ends in a poisoned
grain. -/
theorem asanPoisonRange_keeps_mixedGrains :
    PoisonsAndKeeps mixedGrains 12 6 asanShadowPoisoned := by
  rw [asanPoisonRange_keeps_iff mixedGrains (by decide) (by decide) (by decide)]
  rintro b ⟨hgrain, hlt⟩
  exact AsanAddressable.of_le (b := 12) (by decide) hgrain hlt.le

/-- Poisoning the first four bytes of a clean grain makes the other four unaddressable. -/
theorem asanRanges_spill :
    ¬ ∀ (m : Memory) (beg size : Addr) (val : BitVec 8), beg.toNat + size.toNat ≤ 2 ^ 47 →
      8 ≤ val.toNat → PoisonSpares m beg size val ∧ UnpoisonSpares m beg size := by
  intro hclaim
  have hspares := (hclaim (fun _ => 0) 0 4 asanShadowPoisoned (by decide) (by decide)).1
  have haddr := hspares 4 (by decide) (Or.inl rfl)
  rw [asanAddressable_asanPoisonRange _ (by decide) (by decide), if_pos (by decide)] at haddr
  exact absurd haddr.2 (by decide)

/-- The poisoned region ends with the accessible bytes of a partial grain, the unpoisoned one in
front of a poisoned grain. -/
theorem asanRanges_spare_mixedGrains :
    PoisonSpares mixedGrains 3 10 asanShadowPoisoned ∧ UnpoisonSpares mixedGrains 3 13 := by
  constructor
  · exact (asanRanges_spare_iff mixedGrains (by decide) (by decide)).1.mpr
      (Or.inr (Or.inr (by decide)))
  · apply (asanRanges_spare_iff mixedGrains (by decide)
      (show 8 ≤ asanShadowPoisoned.toNat by decide)).2.mpr
    refine Or.inr fun b hshares => ?_
    rcases hshares with ⟨hgrain, hlt⟩ | ⟨hle, hgrain⟩
    · exact AsanAddressable.of_le (b := 3) (by decide) hgrain hlt.le
    · -- the region ends with its grain
      have hend : 16 / 8 ≤ b.toNat / 8 := Nat.div_le_div_right hle
      rw [asanGrain] at hgrain
      exact absurd (hgrain ▸ hend) (by decide)

end Misan
