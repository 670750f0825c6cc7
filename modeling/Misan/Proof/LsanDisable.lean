import Misan.Proof.LsanIgnore

/-!
# Blocks given back while tracking is off

`__lsan_disable` turns unregistering off together with registering. A block registered before and
given back inside such a window keeps its active entry, so it is scanned and reported as if it were
still there. Apart from that, a block given back has no active entry until it is registered again.
-/

namespace Misan

open LsanCall

variable {s : LsanState} {c : LsanCall} {history before : List LsanCall} {addr size p : Addr}
  {m m' : Memory}

/-- Every `__lsan_unregister_alloc(p)` finds tracking enabled, or no active entry for `p`. -/
def UnregistersTracked (p : Addr) (history : List LsanCall) : Prop :=
  ∀ before, .unregisterAlloc p :: before <:+ history →
    (lsanRun before).lsanDisabled = false ∨
      ∀ a ∈ (lsanRun before).allocs, a.addr = p → a.state ≠ .active

/-- The words a scan of the region looks at are the same in both memories. -/
def SameWords (m m' : Memory) (scan size : Addr) : Prop :=
  ∀ w < (size / 8).toNat,
    m.load64 (scan + BitVec.ofNat 64 (8 * w)) = m'.load64 (scan + BitVec.ofNat 64 (8 * w))

/-- No entry for `p` is active, so no check reports `p` or depends on the words of `p`. -/
structure FreedUntouched (p : Addr) (s : LsanState) : Prop where
  inactive : ∀ a ∈ s.allocs, a.addr = p → a.state ≠ .active
  unreported : ∀ m fatal, ∀ a ∈ (lsanDoCheckInternal s m fatal).reports, a.addr ≠ p
  unscanned : ∀ m m' fatal, (∀ r ∈ s.roots, SameWords m m' r.addr r.size) →
    (∀ a ∈ s.allocs, a.state = .active → a.addr ≠ p → SameWords m m' a.addr a.size) →
    lsanDoCheckInternal s m fatal = lsanDoCheckInternal s m' fatal

/-! ### What a check depends on -/

theorem lsanScan_congr {scan size : Addr} (hsame : SameWords m m' scan size) (target : Addr) :
    lsanScan m scan size target = lsanScan m' scan size target := by
  rw [lsanScan, lsanScan, Bool.eq_iff_iff, List.any_eq_true, List.any_eq_true]
  refine exists_congr fun w => and_congr_right fun hw => ?_
  rw [hsame w (List.mem_range.mp hw)]

theorem lsanMarkReachable_congr (hroots : ∀ r ∈ s.roots, SameWords m m' r.addr r.size)
    (hblocks : ∀ a ∈ s.allocs, a.state = .active → SameWords m m' a.addr a.size) (a : LsanAlloc) :
    lsanMarkReachable s m a = lsanMarkReachable s m' a := by
  rw [Bool.eq_iff_iff, lsanMarkReachable_iff, lsanMarkReachable_iff]
  apply or_congr
  · refine exists_congr fun r => and_congr_right fun hr => ?_
    rw [lsanScan_congr (hroots r hr)]
  · refine exists_congr fun b => and_congr_right fun hb => and_congr_right fun hactive => ?_
    rw [lsanScan_congr (hblocks b hb hactive)]

theorem lsanDoCheckInternal_congr
    (hsame : ∀ a, lsanMarkReachable s m a = lsanMarkReachable s m' a) (fatal : Bool) :
    lsanDoCheckInternal s m fatal = lsanDoCheckInternal s m' fatal := by
  have hleaks : lsanLeaks s m = lsanLeaks s m' := by
    funext a
    rw [lsanLeaks, lsanLeaks, hsame]
  rw [lsanDoCheckInternal, lsanDoCheckInternal, lsanCheckLoop_eq, lsanCheckLoop_eq, hleaks]

theorem freedUntouched_of_inactive (h : ∀ a ∈ s.allocs, a.addr = p → a.state ≠ .active) :
    FreedUntouched p s where
  inactive := h
  unreported m fatal a ha haddr := by
    obtain ⟨ha, ⟨hactive, -⟩, -⟩ := (mem_reports_iff fatal a).mp ha
    exact h a ha haddr hactive
  unscanned m m' fatal hroots hblocks := by
    apply lsanDoCheckInternal_congr
    apply lsanMarkReachable_congr hroots
    intro a ha hactive
    exact hblocks a ha hactive fun haddr => h a ha haddr hactive

/-! ### The active entries of one address -/

theorem countP_eraseP_self {α : Type} (found : α → Bool) (l : List α) :
    (l.eraseP found).countP found = l.countP found - 1 := by
  induction l with
  | nil => rfl
  | cons a rest ih =>
      by_cases ha : found a = true
      · rw [List.eraseP_cons_of_pos ha, List.countP_cons_of_pos ha, Nat.add_sub_cancel]
      · rw [List.eraseP_cons_of_neg ha, List.countP_cons_of_neg ha, List.countP_cons_of_neg ha, ih]

def LsanState.activeCount (s : LsanState) (p : Addr) : Nat :=
  s.activeBlocks.countP fun block => block.1 == p

theorem activeCount_eq_zero_iff :
    s.activeCount p = 0 ↔ ∀ a ∈ s.allocs, a.addr = p → a.state ≠ .active := by
  rw [LsanState.activeCount, List.countP_eq_zero]
  constructor
  · intro hnone a ha haddr hactive
    exact hnone _ (mem_activeBlocks.mpr ⟨a, ha, hactive, rfl⟩) (beq_iff_eq.mpr haddr)
  · intro hnone block hblock haddr
    obtain ⟨a, ha, hactive, rfl⟩ := mem_activeBlocks.mp hblock
    exact hnone a ha (beq_iff_eq.mp haddr) hactive

theorem activeCount_registerAlloc_le (s : LsanState) (addr size : Addr) (stack : DrtStackTrace) :
    (lsanRegisterAlloc s addr size stack).activeCount p ≤
      s.activeCount p + if addr = p then 1 else 0 := by
  rw [LsanState.activeCount, activeBlocks_registerAlloc]
  split
  · exact Nat.le_add_right _ _
  · rw [List.countP_append, List.countP_singleton]
    simp only [beq_iff_eq]
    exact Nat.le_refl _

theorem activeCount_unregisterAlloc_le (s : LsanState) (addr : Addr) :
    (lsanUnregisterAlloc s addr).activeCount p ≤ s.activeCount p := by
  rw [LsanState.activeCount, activeBlocks_unregisterAlloc]
  split
  · exact Nat.le_refl _
  · exact List.eraseP_sublist.countP_le

theorem activeCount_unregisterAlloc_self (henabled : s.lsanDisabled = false) :
    (lsanUnregisterAlloc s p).activeCount p = s.activeCount p - 1 := by
  rw [LsanState.activeCount, activeBlocks_unregisterAlloc, henabled, if_neg Bool.false_ne_true,
    countP_eraseP_self, LsanState.activeCount]

/-- An address has at most one active entry, and none unless it is live. -/
theorem activeCount_lsanRun_le (hfresh : RegistersFresh history)
    (htracked : UnregistersTracked p history) :
    (lsanRun history).activeCount p ≤ (live p history).toNat := by
  induction history with
  | nil => exact Nat.zero_le _
  | cons c before ih =>
      have hbefore := ih (hfresh.of_suffix (List.suffix_cons c before))
        fun b hb => htracked b (hb.trans (List.suffix_cons c before))
      cases c with
      | registerAlloc addr size stack =>
          refine (activeCount_registerAlloc_le (lsanRun before) addr size stack).trans ?_
          rw [live]
          by_cases heq : addr = p
          · subst heq
            rw [hfresh addr size stack before (List.suffix_refl _)] at hbefore
            rw [if_pos rfl, beq_self_eq_true, Bool.true_or]
            exact Nat.add_le_add_right hbefore 1
          · rw [if_neg heq, beq_false_of_ne heq, Bool.false_or]
            exact hbefore
      | unregisterAlloc addr =>
          rw [lsanRun, lsanStep, live]
          by_cases heq : addr = p
          · subst heq
            rw [bne_self_eq_false, Bool.false_and]
            rcases htracked before (List.suffix_refl _) with henabled | hinactive
            · have hone := hbefore.trans (Bool.toNat_le _)
              rw [activeCount_unregisterAlloc_self henabled]
              exact Nat.sub_le_of_le_add hone
            · rw [← activeCount_eq_zero_iff] at hinactive
              exact (activeCount_unregisterAlloc_le _ addr).trans hinactive.le
          · rw [bne_iff_ne.mpr heq, Bool.true_and]
            exact (activeCount_unregisterAlloc_le _ addr).trans hbefore
      | ignoreObject addr =>
          rw [lsanRun, lsanStep, LsanState.activeCount, activeBlocks_ignoreObject]
          exact hbefore
      | registerRootRegion q size =>
          rw [lsanRun, lsanStep, LsanState.activeCount, activeBlocks_registerRootRegion]
          exact hbefore
      | unregisterRootRegion | disable | enable => exact hbefore

theorem live_of_freed (hfreed : freed p history = true) : live p history = false := by
  induction history with
  | nil => cases hfreed
  | cons c before ih =>
      cases c with
      | registerAlloc addr size stack =>
          rw [freed, Bool.and_eq_true, bne_iff_ne] at hfreed
          rw [live, beq_false_of_ne hfreed.1, ih hfreed.2]
          rfl
      | unregisterAlloc addr =>
          rw [freed, Bool.or_eq_true, beq_iff_eq] at hfreed
          rw [live, Bool.and_eq_false_iff]
          rcases hfreed with rfl | hfreed
          · exact Or.inl (bne_self_eq_false _)
          · exact Or.inr (ih hfreed)
      | registerRootRegion | unregisterRootRegion | ignoreObject | disable | enable =>
          exact ih hfreed

/-- **Freed blocks, exactly.** A block is left alone by the checks from each time it is given back
until it is registered again if and only if it is never given back with tracking disabled while it
has an active entry. -/
theorem lsan_freedUntouched_iff (hfresh : RegistersFresh history) (p : Addr) :
    (∀ before, before <:+ history → freed p before = true → FreedUntouched p (lsanRun before)) ↔
      UnregistersTracked p history := by
  constructor
  · intro huntouched before hsuffix
    by_cases hdisabled : (lsanRun before).lsanDisabled = true
    · have hfreed : freed p (.unregisterAlloc p :: before) = true := by
        rw [freed, beq_self_eq_true, Bool.true_or]
      have hinactive := (huntouched _ hsuffix hfreed).inactive
      rw [lsanRun, lsanStep, lsanUnregisterAlloc, if_pos hdisabled] at hinactive
      exact Or.inr hinactive
    · exact Or.inl (Bool.not_eq_true _ ▸ hdisabled)
  · intro htracked before hsuffix hfreed
    apply freedUntouched_of_inactive
    have hcount := activeCount_lsanRun_le (hfresh.of_suffix hsuffix)
      fun b hb => htracked b (hb.trans hsuffix)
    rw [live_of_freed hfreed] at hcount
    exact activeCount_eq_zero_iff.mp (Nat.le_zero.mp hcount)

/-- A block is given back after tracking was disabled for a while. -/
def freedAfterEnable : List LsanCall :=
  [.unregisterAlloc 0x1000, .enable, .unregisterAlloc 0x2000, .registerAlloc 0x2000 16 noStack,
    .disable, .registerAlloc 0x3000 8 noStack, .registerAlloc 0x1000 8 noStack]

theorem lsan_freedUntouched_enabled : FreedUntouched 0x1000 (lsanRun freedAfterEnable) := by
  refine (lsan_freedUntouched_iff ?_ 0x1000).mpr ?_ _ (List.suffix_refl _) rfl
  · simp [freedAfterEnable, registersFresh_cons, registersFresh_nil, live]
  · intro before hsuffix
    -- the other call of this kind is about another block
    cases eq_of_suffix_of_notMem hsuffix (by simp [freedAfterEnable])
    exact Or.inl rfl

/-- A block given back between a disable and the next enable keeps its active entry. -/
theorem not_lsan_freedUntouched :
    ¬ ∀ (history : List LsanCall) (p : Addr), RegistersFresh history → freed p history = true →
      FreedUntouched p (lsanRun history) := by
  intro hclaim
  have hfresh : RegistersFresh [.unregisterAlloc 0x1000, .disable,
      .registerAlloc 0x1000 8 noStack] := by
    simp [registersFresh_cons, registersFresh_nil, live]
  have huntouched := hclaim _ 0x1000 hfresh rfl
  exact huntouched.inactive ⟨0x1000, 8, .active, false, noStack⟩ (List.mem_singleton.mpr rfl) rfl
    rfl

end Misan
