import Misan.Proof.AsanFakeStack

/-!
# Calls that do not return

Before a call that does not return the compiler has `__asan_handle_no_return` poison the fake
stacks. It goes by the flags. In every run a flag is raised exactly while some allocation owns the
slot, so what the call poisons is the whole frame of every allocation then, whatever the size it was
made with, and no other byte.
-/

namespace Misan

variable {Alloc : Type} {base : Addr} {s s' : FakeStacks Alloc} {a : Alloc} {u : FakeStackUse}
  {m : Memory} {act : FakeStackAct Alloc} {history : List (FakeStackAct Alloc)}

/-! ### Raised flags -/

/-- Every raised flag has an owner. -/
def FakeStacks.Owned (s : FakeStacks Alloc) : Prop :=
  ∀ i, s.inUse i = true → ∃ a u, s.uses a = some u ∧ u.slot = i

variable [DecidableEq Alloc]

namespace FakeStacks.Owned

theorem enter {p q : FakeStackPhase} (h : s.Owned) (hphase : s.phase a = p)
    (huse : q.use? = p.use?) : (s.enter a q).Owned := by
  rw [Owned, uses_enter_of_eq hphase huse]
  exact h

theorem claim (h : s.Owned) (hnone : s.uses a = none) : (s.claim base a u).Owned := by
  intro i hi
  rw [uses_claim]
  by_cases hslot : i = u.slot
  · exact ⟨a, u, Function.update_self .., hslot.symm⟩
  · have hraised : s.inUse i = true := (Function.update_of_ne hslot ..).symm.trans hi
    obtain ⟨b, v, hv, hslot⟩ := h i hraised
    have hne : b ≠ a := by
      rintro rfl
      cases hnone.symm.trans hv
    exact ⟨b, v, (Function.update_of_ne hne ..).trans hv, hslot⟩

theorem release (h : s.Owned) (hu : s.uses a = some u) : (s.release a u).Owned := by
  intro i hi
  rw [uses_release]
  have hslot : i ≠ u.slot := by
    rintro rfl
    cases (Function.update_self ..).symm.trans hi
  have hraised : s.inUse i = true := (Function.update_of_ne hslot ..).symm.trans hi
  obtain ⟨b, v, hv, rfl⟩ := h i hraised
  have hne : b ≠ a := by
    rintro rfl
    cases hu.symm.trans hv
    exact hslot rfl
  exact ⟨b, v, (Function.update_of_ne hne ..).trans hv, rfl⟩

theorem move (h : s.Owned) (hmove : s.Move base act s') : s'.Owned := by
  cases hmove with
  | call hphase => exact h.enter hphase rfl
  | pass hphase => exact h.enter hphase rfl
  | fail hphase => exact h.enter hphase rfl
  | claim hphase hdown => exact h.claim (uses_of_phase hphase)
  | unpoison hphase => exact h.enter hphase rfl
  | hold hphase => exact h.enter hphase rfl
  | free hphase => exact h.enter hphase rfl
  | poison hphase => exact h.enter hphase rfl
  | release hphase => exact h.release (uses_of_phase hphase)

end FakeStacks.Owned

/-- In every run a flag is raised exactly while some allocation owns the slot. -/
theorem fakeStackRun_inUse_iff (h : fakeStackRun base m history = some s) (i : FakeStackIdx) :
    s.inUse i = true ↔ ∃ a u, s.uses a = some u ∧ u.slot = i := by
  constructor
  · refine runFrom_invariant (P := fun _ _ => True) (I := FakeStacks.Owned) ?_ ?_ ?_ h i
    · intro i hi
      cases hi
    · intro s₁ act s₂ howned _ hstep
      exact howned.move (fakeStackStep_move hstep)
    · intro act before s₁ _ _
      trivial
  · rintro ⟨a, u, hu, rfl⟩
    exact (fakeStackRun_guarded h).raised a u hu

/-! ### The frames -/

/-- The bytes of `asan_fake_stacks[i].mem`. -/
def InFakeStack (base : Addr) (i : FakeStackIdx) (x : Addr) : Prop :=
  InRegion (fakeStackMem base i) (BitVec.ofNat 64 asanFakeStackSize) x

instance (base : Addr) (i : FakeStackIdx) (x : Addr) : Decidable (InFakeStack base i x) :=
  inferInstanceAs (Decidable (InRegion ..))

theorem toNat_asanFakeStackSize : (BitVec.ofNat 64 asanFakeStackSize).toNat = 65536 := rfl

/-- A frame is made of whole grains. -/
theorem asanTouches_fakeStackMem (haligned : base.toNat % 8 = 0) (i : FakeStackIdx) (x : Addr) :
    AsanTouches (fakeStackMem base i) (BitVec.ofNat 64 asanFakeStackSize) x ↔
      InFakeStack base i x := by
  have hmem := fakeStackMem_aligned haligned i
  rw [AsanTouches, InFakeStack, InRegion, toNat_asanFakeStackSize, asanGrain, asanGrain]
  omega

theorem asanShadowGet_poisonFakeStack (hbase : FakeStackBase base) (m : Memory)
    (i : FakeStackIdx) (x : Addr) :
    asanShadowGet (asanPoisonRange m (fakeStackMem base i) (BitVec.ofNat 64 asanFakeStackSize)
        asanShadowPoisoned) x
      = if InFakeStack base i x then asanShadowPoisoned else asanShadowGet m x := by
  have hi := i.isLt
  have hbelow := hbase.below
  have hmem := toNat_fakeStackMem hbase i
  have haligned := fakeStackMem_aligned hbase.aligned i
  have hfit : (fakeStackMem base i).toNat + (BitVec.ofNat 64 asanFakeStackSize).toNat
      ≤ 2 ^ 50 - 8 := by
    simp only [asanFakeStackStride, asanFakeStackSize, asanFakeStackCount] at hi hbelow hmem
    rw [toNat_asanFakeStackSize]
    omega
  rw [asanShadowGet_asanPoisonRange m _ hfit]
  simp only [asanTouches_fakeStackMem hbase.aligned, haligned, ne_eq, not_true_eq_false, and_false,
    if_false]

/-- **The call, read back.** -/
theorem asanShadowGet_asanHandleNoReturn (hbase : FakeStackBase base)
    (inUse : FakeStackIdx → Bool) (m : Memory) (x : Addr) :
    asanShadowGet (asanHandleNoReturn base inUse m) x
      = if ∃ i, inUse i = true ∧ InFakeStack base i x then asanShadowPoisoned
        else asanShadowGet m x := by
  have hfold (slots : List FakeStackIdx) : ∀ m,
      asanShadowGet (slots.foldl (fun m i =>
        if inUse i then
          asanPoisonRange m (fakeStackMem base i) (BitVec.ofNat 64 asanFakeStackSize)
            asanShadowPoisoned
        else m) m) x
      = if ∃ i ∈ slots, inUse i = true ∧ InFakeStack base i x then asanShadowPoisoned
        else asanShadowGet m x := by
    induction slots with
    | nil => simp
    | cons i slots ih =>
        intro m
        rw [List.foldl_cons, ih]
        by_cases hin : ∃ j ∈ slots, inUse j = true ∧ InFakeStack base j x
        · obtain ⟨j, hj, hin'⟩ := hin
          rw [if_pos ⟨j, hj, hin'⟩, if_pos ⟨j, List.mem_cons_of_mem i hj, hin'⟩]
        · rw [if_neg hin]
          simp only [List.mem_cons, exists_eq_or_imp, hin, or_false]
          cases inUse i with
          | false => simp
          | true => simp [asanShadowGet_poisonFakeStack hbase]
  rw [asanHandleNoReturn, hfold]
  simp

/-- **Before a call that does not return**, in every interleaving of allocations and frees: the call
poisons the frames of the allocations that own a slot, and leaves every other byte as it was. -/
theorem asanHandleNoReturn_exact (hbase : FakeStackBase base)
    (h : fakeStackRun base m history = some s) (x : Addr) :
    asanShadowGet (asanHandleNoReturn base s.inUse s.mem) x =
        asanShadowGet s.mem x ∧ (∀ a u, s.uses a = some u → ¬ InFakeStack base u.slot x) ∨
      asanShadowGet (asanHandleNoReturn base s.inUse s.mem) x = asanShadowPoisoned ∧
        ∃ a u, s.uses a = some u ∧ InFakeStack base u.slot x := by
  have hinUse := fakeStackRun_inUse_iff h
  rw [asanShadowGet_asanHandleNoReturn hbase]
  by_cases hin : ∃ i, s.inUse i = true ∧ InFakeStack base i x
  · rw [if_pos hin]
    obtain ⟨i, hi, hx⟩ := hin
    obtain ⟨a, u, hu, rfl⟩ := (hinUse i).mp hi
    exact Or.inr ⟨rfl, a, u, hu, hx⟩
  · rw [if_neg hin]
    refine Or.inl ⟨rfl, fun a u hu hx => hin ⟨u.slot, ?_, hx⟩⟩
    exact (hinUse u.slot).mpr ⟨a, u, hu, rfl⟩

/-- One request for a grain, up to the exchange that takes the first slot. -/
def oneClaim : FakeStacks Unit :=
  ((FakeStacks.initial Unit fun _ => 0xF1).enter () (.scanning 0 8)).claim 0x100000 () ⟨0, 8⟩

/-- The whole frame is poisoned then, also behind the grain that was asked for. -/
theorem asanHandleNoReturn_exact_claimed :
    asanShadowGet (asanHandleNoReturn 0x100000 oneClaim.inUse oneClaim.mem) 0x100008
      = asanShadowPoisoned := by
  have hbase : FakeStackBase 0x100000 := ⟨by decide, by decide⟩
  have hrun : fakeStackRun 0x100000 (fun _ => 0xF1) [.step (), .alloc () 8] = some oneClaim := rfl
  obtain ⟨-, hnone⟩ | ⟨hpoisoned, -⟩ := asanHandleNoReturn_exact hbase hrun 0x100008
  · exact absurd (by decide : InFakeStack 0x100000 0 0x100008) (hnone () ⟨0, 8⟩ rfl)
  · exact hpoisoned

end Misan
