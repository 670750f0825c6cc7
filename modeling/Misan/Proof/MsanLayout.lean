import Misan.Msan
import Mathlib.Data.Set.Basic

/-!
# The shadow and the origins share one address space

The shadow grows by one byte per application byte and the origins by four, from bases `2 ^ 44`
apart, so the two regions run into each other, and the origins of high addresses wrap around into
the application itself. Which pairs of addresses meet is plain arithmetic once the pointers are read
as naturals; every frame property of the three operations follows from it.
-/

namespace Misan

def msanOriginByte (b : Addr) (j : Nat) : Addr := msanOriginPtr b + BitVec.ofNat 64 j

def RangeIn (S : Set Addr) (addr size : Addr) : Prop :=
  ∀ i < size.toNat, addr + BitVec.ofNat 64 i ∈ S

/-- What the metadata of the addresses in `S` must satisfy to be metadata: no shadow byte lies on an
origin word, neither lies in the application's half, and no operation on a range in `S` writes the
other kind of metadata or the application. -/
structure MsanSeparate (S : Set Addr) : Prop where
  apart : ∀ a ∈ S, ∀ b ∈ S, ∀ j < 4, msanShadowPtr a ≠ msanOriginByte b j
  shadow_notMem : ∀ a ∈ S, msanShadowPtr a ∉ userHalf
  origin_notMem : ∀ b ∈ S, ∀ j < 4, msanOriginByte b j ∉ userHalf
  setOrigin_shadow : ∀ track m addr size id, RangeIn S addr size → ∀ a ∈ S,
    msanSetOrigin track m addr size id (msanShadowPtr a) = m (msanShadowPtr a)
  unpoison_shadow : ∀ m addr size, RangeIn S addr size → ∀ a ∈ S,
    msanUnpoison true m addr size (msanShadowPtr a)
      = msanUnpoison false m addr size (msanShadowPtr a)
  poison_origin : ∀ m addr size, RangeIn S addr size → ∀ b ∈ S, ∀ j < 4,
    msanPoison m addr size (msanOriginByte b j) = m (msanOriginByte b j)
  application : ∀ track m addr size id, RangeIn S addr size → ∀ x ∈ userHalf,
    msanSetOrigin track m addr size id x = m x ∧ msanUnpoison track m addr size x = m x ∧
      msanPoison m addr size x = m x

/-- The arithmetic line between two addresses that share metadata and two that do not. -/
def MsanCellsApart (a b : Addr) : Prop :=
  b.toNat ≠ (a.toNat + 2 ^ 44) / 4 ∧ ¬ (0x280000000000 ≤ b.toNat ∧ b.toNat < 0x480000000000)

section Pointers

variable {a b : Addr}

theorem toNat_msanShadowPtr (ha : a ∈ userHalf) :
    (msanShadowPtr a).toNat = 0xFFFF700000000000 + a.toNat := by
  have hlt := ha.2
  rw [msanShadowPtr, BitVec.toNat_add, show msanShadowBase.toNat = 0xFFFF700000000000 from rfl]
  omega

theorem toNat_msanOriginByte (b : Addr) (j : Nat) :
    (msanOriginByte b j).toNat = (0xFFFF600000000000 + (4 * b.toNat + j)) % 2 ^ 64 := by
  rw [msanOriginByte, msanOriginPtr, BitVec.toNat_add, BitVec.toNat_add, BitVec.toNat_mul,
    BitVec.toNat_ofNat, show msanOriginBase.toNat = 0xFFFF600000000000 from rfl,
    show (4 : Addr).toNat = 4 from rfl]
  omega

theorem mem_userHalf_iff : a ∈ userHalf ↔ 0 < a.toNat ∧ a.toNat < 2 ^ 47 :=
  Iff.rfl

theorem msanShadowPtr_notMem (ha : a ∈ userHalf) : msanShadowPtr a ∉ userHalf := by
  have hlt := ha.2
  rw [mem_userHalf_iff, toNat_msanShadowPtr ha]
  omega

/-- A shadow byte and an origin word meet at one address per shadow byte. -/
theorem msanShadowPtr_eq_originByte_iff (ha : a ∈ userHalf) (hb : b ∈ userHalf) :
    (∃ j < 4, msanShadowPtr a = msanOriginByte b j) ↔ b.toNat = (a.toNat + 2 ^ 44) / 4 := by
  have hlta := ha.2
  have hltb := hb.2
  constructor
  · rintro ⟨j, hj, heq⟩
    have hnat := congrArg BitVec.toNat heq
    rw [toNat_msanShadowPtr ha, toNat_msanOriginByte] at hnat
    omega
  · intro heq
    refine ⟨(a.toNat + 2 ^ 44) % 4, Nat.mod_lt _ (by decide), ?_⟩
    apply BitVec.eq_of_toNat_eq
    rw [toNat_msanShadowPtr ha, toNat_msanOriginByte]
    omega

/-- The origin word lies in the application's half for one window of addresses. -/
theorem msanOriginByte_mem_iff (hb : b ∈ userHalf) :
    (∃ j < 4, msanOriginByte b j ∈ userHalf) ↔
      0x280000000000 ≤ b.toNat ∧ b.toNat < 0x480000000000 := by
  have hltb := hb.2
  constructor
  · rintro ⟨j, hj, hmem⟩
    rw [mem_userHalf_iff, toNat_msanOriginByte] at hmem
    omega
  · rintro ⟨hlow, hhigh⟩
    refine ⟨1, by decide, ?_⟩
    rw [mem_userHalf_iff, toNat_msanOriginByte]
    omega

theorem msanCellsApart_iff (ha : a ∈ userHalf) (hb : b ∈ userHalf) :
    MsanCellsApart a b ↔
      (∀ j < 4, msanShadowPtr a ≠ msanOriginByte b j) ∧
        ∀ j < 4, msanOriginByte b j ∉ userHalf := by
  rw [MsanCellsApart, ← msanOriginByte_mem_iff hb, Ne, ← msanShadowPtr_eq_originByte_iff ha hb]
  push Not
  exact Iff.rfl

theorem msanShadowPtr_add (addr : Addr) (i : Nat) :
    msanShadowPtr addr + BitVec.ofNat 64 i = msanShadowPtr (addr + BitVec.ofNat 64 i) := by
  rw [msanShadowPtr, msanShadowPtr, BitVec.add_assoc]

theorem msanOriginPtr_add (addr : Addr) (i j : Nat) :
    msanOriginPtr addr + BitVec.ofNat 64 (4 * i) + BitVec.ofNat 64 j
      = msanOriginByte (addr + BitVec.ofNat 64 i) j := by
  rw [msanOriginByte, msanOriginPtr, msanOriginPtr, BitVec.add_mul, BitVec.ofNat_mul,
    BitVec.add_assoc msanOriginBase, BitVec.mul_comm (BitVec.ofNat 64 i)]
  rfl

end Pointers

section Frames

variable {S : Set Addr} {addr size x : Addr} (m : Memory)

theorem fillWords_msanOriginPtr_of_forall_ne (id : BitVec 32) (hrange : RangeIn S addr size)
    (hne : ∀ b ∈ S, ∀ j < 4, x ≠ msanOriginByte b j) :
    m.fillWords (msanOriginPtr addr) id size.toNat x = m x := by
  refine ByteMemory.fillWords_of_forall_ne _ _ _ _ _ fun i hi j hj => ?_
  rw [msanOriginPtr_add]
  exact hne _ (hrange i hi) j hj

theorem fillBytes_msanShadowPtr_of_forall_ne (v : BitVec 8) (hrange : RangeIn S addr size)
    (hne : ∀ a ∈ S, x ≠ msanShadowPtr a) :
    m.fillBytes (msanShadowPtr addr) v size.toNat x = m x := by
  refine ByteMemory.storeEach_of_forall_ne _ _ _ _ _ fun i hi => ?_
  rw [msanShadowPtr_add]
  exact hne _ (hrange i hi)

theorem msanSetOrigin_of_forall_ne (track : Bool) (id : BitVec 32) (hrange : RangeIn S addr size)
    (hne : ∀ b ∈ S, ∀ j < 4, x ≠ msanOriginByte b j) :
    msanSetOrigin track m addr size id x = m x := by
  unfold msanSetOrigin
  split
  · rfl
  · exact fillWords_msanOriginPtr_of_forall_ne m id hrange hne

theorem msanPoison_of_forall_ne (hrange : RangeIn S addr size)
    (hne : ∀ a ∈ S, x ≠ msanShadowPtr a) : msanPoison m addr size x = m x := by
  unfold msanPoison
  split
  · rfl
  · exact fillBytes_msanShadowPtr_of_forall_ne m _ hrange hne

theorem msanUnpoison_of_forall_ne (track : Bool) (hrange : RangeIn S addr size)
    (hne : ∀ b ∈ S, ∀ j < 4, x ≠ msanOriginByte b j) :
    msanUnpoison track m addr size x = msanUnpoison false m addr size x := by
  unfold msanUnpoison
  split
  · rfl
  · cases track with
    | false => rfl
    | true => exact fillWords_msanOriginPtr_of_forall_ne _ _ hrange hne

theorem msanUnpoison_false_of_forall_ne (hrange : RangeIn S addr size)
    (hne : ∀ a ∈ S, x ≠ msanShadowPtr a) : msanUnpoison false m addr size x = m x := by
  unfold msanUnpoison
  split
  · rfl
  · exact fillBytes_msanShadowPtr_of_forall_ne m _ hrange hne

end Frames

/-- **Where metadata is metadata.** On a set of application addresses the two regions stay apart
from each other and from the application, under all three operations, if and only if the arithmetic
line separates every pair. -/
theorem msanSeparate_iff {S : Set Addr} (hS : S ⊆ userHalf) :
    MsanSeparate S ↔ ∀ a ∈ S, ∀ b ∈ S, MsanCellsApart a b := by
  constructor
  · intro h a ha b hb
    rw [msanCellsApart_iff (hS ha) (hS hb)]
    exact ⟨h.apart a ha b hb, h.origin_notMem b hb⟩
  · intro h
    have hapart : ∀ a ∈ S, ∀ b ∈ S, ∀ j < 4, msanShadowPtr a ≠ msanOriginByte b j :=
      fun a ha b hb => ((msanCellsApart_iff (hS ha) (hS hb)).mp (h a ha b hb)).1
    have horigin : ∀ b ∈ S, ∀ j < 4, msanOriginByte b j ∉ userHalf :=
      fun b hb => ((msanCellsApart_iff (hS hb) (hS hb)).mp (h b hb b hb)).2
    have hshadow : ∀ a ∈ S, msanShadowPtr a ∉ userHalf :=
      fun a ha => msanShadowPtr_notMem (hS ha)
    refine ⟨hapart, hshadow, horigin, ?_, ?_, ?_, ?_⟩
    · intro track m addr size id hrange a ha
      exact msanSetOrigin_of_forall_ne m track id hrange (hapart a ha)
    · intro m addr size hrange a ha
      exact msanUnpoison_of_forall_ne m true hrange (hapart a ha)
    · intro m addr size hrange b hb j hj
      exact msanPoison_of_forall_ne m hrange fun a ha => (hapart a ha b hb j hj).symm
    · intro track m addr size id hrange x hx
      have hneOrigin : ∀ b ∈ S, ∀ j < 4, x ≠ msanOriginByte b j :=
        fun b hb j hj heq => horigin b hb j hj (heq ▸ hx)
      have hneShadow : ∀ a ∈ S, x ≠ msanShadowPtr a :=
        fun a ha heq => hshadow a ha (heq ▸ hx)
      refine ⟨msanSetOrigin_of_forall_ne m track id hrange hneOrigin, ?_,
        msanPoison_of_forall_ne m hrange hneShadow⟩
      calc
        msanUnpoison track m addr size x = msanUnpoison false m addr size x :=
          msanUnpoison_of_forall_ne m track hrange hneOrigin
        _ = m x := msanUnpoison_false_of_forall_ne m hrange hneShadow

/-- The shadow byte of `0x1000` is the first byte of the origin word of `2 ^ 42 + 0x400`. -/
theorem not_msanSeparate_userHalf : ¬ MsanSeparate userHalf := by
  intro h
  refine h.apart 0x1000 ?_ 0x40000000400 ?_ 0 (by decide) (by decide)
  · exact ⟨by decide, by decide⟩
  · exact ⟨by decide, by decide⟩

theorem msanSeparate_low : MsanSeparate {a | 0 < a.toNat ∧ a.toNat < 2 ^ 42} := by
  refine (msanSeparate_iff ?_).mpr ?_
  · rintro a ⟨hpos, hlt⟩
    exact ⟨hpos, by omega⟩
  · rintro a ⟨hpos, hlt⟩ b ⟨hpos', hlt'⟩
    exact ⟨by omega, by omega⟩

end Misan
