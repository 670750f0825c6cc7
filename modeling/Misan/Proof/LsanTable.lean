import Misan.LsanHistory

/-!
# How many blocks the table can follow

The active entries of the table are the live blocks, in order, as long as every registration found
room. Entries are never used again, so it is the registrations that have to fit, not the live
blocks.
-/

namespace Misan

open LsanCall

variable {s : LsanState} {c : LsanCall} {history before : List LsanCall} {addr size p : Addr}
  {stack : DrtStackTrace}

/-! ### The first match of a search -/

section UpdateFirst

variable {α β : Type} {found : α → Bool} {update : α → α}

theorem filterMap_updateFirst {f : α → Option β} (hsame : ∀ a, f (update a) = f a) (l : List α) :
    (updateFirst found update l).filterMap f = l.filterMap f := by
  induction l with
  | nil => rfl
  | cons a rest ih =>
      rw [updateFirst]
      split
      · rw [List.filterMap_cons, List.filterMap_cons, hsame]
      · rw [List.filterMap_cons, List.filterMap_cons, ih]

end UpdateFirst

/-! ### The active entries -/

def LsanAlloc.block? (a : LsanAlloc) : Option (Addr × Addr) :=
  if a.state = .active then some (a.addr, a.size) else none

/-- The address and the size of each active entry, in the order of the table. -/
def LsanState.activeBlocks (s : LsanState) : List (Addr × Addr) := s.allocs.filterMap (·.block?)

theorem LsanAlloc.block?_eq_some_iff {a : LsanAlloc} {block : Addr × Addr} :
    a.block? = some block ↔ a.state = .active ∧ block = (a.addr, a.size) := by
  rw [LsanAlloc.block?]
  split
  · rename_i hactive
    simp [hactive, eq_comm]
  · rename_i hfreed
    simp [hfreed]

theorem LsanAlloc.block?_of_active {a : LsanAlloc} (hactive : a.state = .active) :
    a.block? = some (a.addr, a.size) :=
  if_pos hactive

theorem LsanAlloc.block?_of_ne {a : LsanAlloc} (hfreed : a.state ≠ .active) : a.block? = none :=
  if_neg hfreed

theorem mem_activeBlocks {block : Addr × Addr} :
    block ∈ s.activeBlocks ↔ ∃ a ∈ s.allocs, a.state = .active ∧ block = (a.addr, a.size) := by
  simp only [LsanState.activeBlocks, List.mem_filterMap, LsanAlloc.block?_eq_some_iff]

theorem activeBlocks_registerAlloc (s : LsanState) (addr size : Addr) (stack : DrtStackTrace) :
    (lsanRegisterAlloc s addr size stack).activeBlocks =
      if s.lsanDisabled = true ∨ lsanMaxAllocs ≤ s.allocs.length then s.activeBlocks
      else s.activeBlocks ++ [(addr, size)] := by
  rw [lsanRegisterAlloc]
  by_cases hdisabled : s.lsanDisabled = true
  · rw [if_pos hdisabled, if_pos (Or.inl hdisabled)]
  · by_cases hfull : lsanMaxAllocs ≤ s.allocs.length
    · rw [if_neg hdisabled, dif_pos hfull, if_pos (Or.inr hfull)]
    · rw [if_neg hdisabled, dif_neg hfull, if_neg fun h => h.elim hdisabled hfull]
      simp [LsanState.activeBlocks, LsanAlloc.block?]

theorem filterMap_block?_unregister (addr : Addr) (allocs : List LsanAlloc) :
    (updateFirst (fun a => a.addr == addr && a.state == .active)
        (fun a => { a with state := .freed }) allocs).filterMap (·.block?)
      = (allocs.filterMap (·.block?)).eraseP fun block => block.1 == addr := by
  induction allocs with
  | nil => rfl
  | cons a rest ih =>
      rw [updateFirst]
      by_cases hactive : a.state = .active
      · rw [List.filterMap_cons, LsanAlloc.block?_of_active hactive]
        by_cases haddr : a.addr = addr
        · have hfreed : ({ a with state := .freed } : LsanAlloc).block? = none := rfl
          rw [if_pos (by simp [hactive, haddr]), List.filterMap_cons, hfreed]
          simp [haddr]
        · rw [if_neg (by simp [haddr]), List.filterMap_cons, LsanAlloc.block?_of_active hactive, ih]
          simp [haddr]
      · rw [if_neg (by simp [hactive]), List.filterMap_cons, List.filterMap_cons,
          LsanAlloc.block?_of_ne hactive, ih]

theorem activeBlocks_unregisterAlloc (s : LsanState) (addr : Addr) :
    (lsanUnregisterAlloc s addr).activeBlocks =
      if s.lsanDisabled = true then s.activeBlocks
      else s.activeBlocks.eraseP fun block => block.1 == addr := by
  rw [lsanUnregisterAlloc]
  split
  · rfl
  · exact filterMap_block?_unregister addr s.allocs

theorem activeBlocks_ignoreObject (s : LsanState) (p : Addr) :
    (lsanIgnoreObject s p).activeBlocks = s.activeBlocks := by
  unfold LsanState.activeBlocks lsanIgnoreObject
  apply filterMap_updateFirst
  intro a
  rfl

theorem activeBlocks_registerRootRegion (s : LsanState) (p size : Addr) :
    (lsanRegisterRootRegion s p size).activeBlocks = s.activeBlocks := by
  rw [lsanRegisterRootRegion]
  split <;> rfl

/-! ### Tracking -/

theorem LsanCall.Tracked.of_suffix (h : Tracked history) (hsuffix : before <:+ history) :
    Tracked before :=
  fun c hc => h c (hsuffix.subset hc)

theorem LsanCall.Tracked.tail (h : Tracked (c :: history)) : Tracked history :=
  h.of_suffix (List.suffix_cons c history)

theorem lsanRun_enabled (htracked : Tracked history) : (lsanRun history).lsanDisabled = false := by
  induction history with
  | nil => rfl
  | cons c before ih =>
      have hbefore := ih htracked.tail
      cases c with
      | registerAlloc addr size stack =>
          rw [lsanRun, lsanStep, lsanRegisterAlloc, if_neg (ne_true_of_eq_false hbefore)]
          split <;> exact hbefore
      | unregisterAlloc addr =>
          rw [lsanRun, lsanStep, lsanUnregisterAlloc,
            if_neg (ne_true_of_eq_false hbefore)]
          exact hbefore
      | registerRootRegion p size =>
          rw [lsanRun, lsanStep, lsanRegisterRootRegion]
          split <;> exact hbefore
      | unregisterRootRegion | ignoreObject => exact hbefore
      | disable => exact (htracked _ (List.mem_cons_self ..) rfl).elim
      | enable => rfl

theorem registrations_cons_le (c : LsanCall) (before : List LsanCall) :
    registrations before ≤ registrations (c :: before) := by
  rw [registrations, registrations, List.countP_cons]
  exact Nat.le_add_right _ _

theorem registrations_le_of_suffix (hsuffix : before <:+ history) :
    registrations before ≤ registrations history :=
  List.Sublist.countP_le hsuffix.sublist

theorem registrations_registerAlloc (addr size : Addr) (stack : DrtStackTrace)
    (before : List LsanCall) :
    registrations (.registerAlloc addr size stack :: before) = registrations before + 1 :=
  List.countP_cons_of_pos rfl

theorem length_allocs_lsanRun (htracked : Tracked history) :
    (lsanRun history).allocs.length = min (registrations history) lsanMaxAllocs := by
  induction history with
  | nil => rfl
  | cons c before ih =>
      have hbefore := ih htracked.tail
      have henabled := lsanRun_enabled htracked.tail
      cases c with
      | registerAlloc addr size stack =>
          have hcount := registrations_registerAlloc addr size stack before
          rw [lsanRun, lsanStep, lsanRegisterAlloc,
            if_neg (ne_true_of_eq_false henabled)]
          split
          · omega
          · simp only [List.length_append, List.length_singleton]
            omega
      | unregisterAlloc addr =>
          rw [lsanRun, lsanStep, lsanUnregisterAlloc,
            if_neg (ne_true_of_eq_false henabled)]
          exact (length_updateFirst ..).trans hbefore
      | registerRootRegion p size =>
          rw [lsanRun, lsanStep, lsanRegisterRootRegion]
          split <;> exact hbefore
      | ignoreObject p => exact (length_updateFirst ..).trans hbefore
      | unregisterRootRegion | disable | enable => exact hbefore

theorem activeBlocks_lsanRun (htracked : Tracked history)
    (hfit : registrations history ≤ lsanMaxAllocs) :
    (lsanRun history).activeBlocks = liveBlocks history := by
  induction history with
  | nil => rfl
  | cons c before ih =>
      have hbefore := ih htracked.tail ((registrations_cons_le c before).trans hfit)
      have henabled := lsanRun_enabled htracked.tail
      cases c with
      | registerAlloc addr size stack =>
          rw [registrations_registerAlloc] at hfit
          have hlength := length_allocs_lsanRun htracked.tail
          rw [lsanRun, lsanStep, activeBlocks_registerAlloc, if_neg, hbefore]
          · rfl
          · rw [henabled]
            rintro (hdisabled | hfull)
            · exact Bool.false_ne_true hdisabled
            · omega
      | unregisterAlloc addr =>
          rw [lsanRun, lsanStep, activeBlocks_unregisterAlloc, henabled,
            if_neg Bool.false_ne_true, hbefore]
          rfl
      | registerRootRegion p size =>
          rw [lsanRun, lsanStep, activeBlocks_registerRootRegion, hbefore]
          rfl
      | ignoreObject p =>
          rw [lsanRun, lsanStep, activeBlocks_ignoreObject, hbefore]
          rfl
      | unregisterRootRegion | disable | enable => exact hbefore

/-! ### Capacity -/

/-- Every live block has its active entry: as many of its address and size as there are live blocks
with that address and size. -/
def LsanTracks (history : List LsanCall) : Prop :=
  ∀ block ∈ liveBlocks history,
    (lsanRun history).activeBlocks.count block = (liveBlocks history).count block

/-- The registration that finds the table full is lost. -/
theorem not_lsanTracks_of_full (htracked : Tracked (.registerAlloc addr size stack :: before))
    (hfull : registrations before = lsanMaxAllocs) :
    ¬ LsanTracks (.registerAlloc addr size stack :: before) := by
  intro htracks
  have hlost : (lsanRun (.registerAlloc addr size stack :: before)).activeBlocks
      = liveBlocks before := by
    have hlength := length_allocs_lsanRun htracked.tail
    rw [lsanRun, lsanStep, activeBlocks_registerAlloc, if_pos (Or.inr (by omega)),
      activeBlocks_lsanRun htracked.tail hfull.le]
  have hcount := htracks (addr, size) (List.mem_append_right _ (List.mem_singleton.mpr rfl))
  rw [hlost, liveBlocks, List.count_append, List.count_singleton_self] at hcount
  omega

/-- A history that registers too often has a registration that finds the table full. -/
theorem exists_full_of_lt (hlt : lsanMaxAllocs < registrations history) :
    ∃ addr size stack before, .registerAlloc addr size stack :: before <:+ history ∧
      registrations before = lsanMaxAllocs := by
  induction history with
  | nil => exact absurd hlt (Nat.not_lt_zero _)
  | cons c before ih =>
      by_cases hbefore : lsanMaxAllocs < registrations before
      · obtain ⟨addr, size, stack, before', hsuffix, hfull⟩ := ih hbefore
        exact ⟨addr, size, stack, before', hsuffix.trans (List.suffix_cons c before), hfull⟩
      · cases c with
        | registerAlloc addr size stack =>
            rw [registrations_registerAlloc] at hlt
            exact ⟨addr, size, stack, before, List.suffix_refl _, by omega⟩
        | unregisterAlloc | registerRootRegion | unregisterRootRegion | ignoreObject | disable
        | enable => exact (hbefore hlt).elim

/-- **Capacity, exactly.** With tracking enabled, every live block has its active entry throughout a
history if and only if the history registers at most `LSAN_MAX_ALLOCS` blocks altogether. -/
theorem lsan_tracks_iff (htracked : Tracked history) :
    (∀ before, before <:+ history → LsanTracks before) ↔
      registrations history ≤ lsanMaxAllocs := by
  constructor
  · intro htracks
    by_contra hmore
    obtain ⟨addr, size, stack, before, hsuffix, hfull⟩ := exists_full_of_lt (not_le.mp hmore)
    exact not_lsanTracks_of_full (htracked.of_suffix hsuffix) hfull (htracks _ hsuffix)
  · intro hfit before hsuffix block _
    rw [activeBlocks_lsanRun (htracked.of_suffix hsuffix)
      ((registrations_le_of_suffix hsuffix).trans hfit)]

def noStack : DrtStackTrace := ⟨[], Nat.zero_le _⟩

/-- One block after the other, each given back before the next. -/
def churn : Nat → List LsanCall
  | 0 => []
  | k + 1 => .unregisterAlloc 0x1000 :: .registerAlloc 0x1000 8 noStack :: churn k

theorem mem_churn {k : Nat} (hc : c ∈ churn k) :
    c = .unregisterAlloc 0x1000 ∨ c = .registerAlloc 0x1000 8 noStack := by
  induction k with
  | zero => exact absurd hc List.not_mem_nil
  | succ k ih =>
      rcases List.mem_cons.mp hc with hc | hc
      · exact Or.inl hc
      · rcases List.mem_cons.mp hc with hc | hc
        · exact Or.inr hc
        · exact ih hc

theorem registrations_churn (k : Nat) : registrations (churn k) = k := by
  induction k with
  | zero => rfl
  | succ k ih =>
      calc
        registrations (churn (k + 1)) = registrations (churn k) + 1 :=
          registrations_registerAlloc 0x1000 8 noStack (churn k)
        _ = k + 1 := by rw [ih]

theorem liveBlocks_churn (k : Nat) : liveBlocks (churn k) = [] := by
  induction k with
  | zero => rfl
  | succ k ih =>
      rw [churn, liveBlocks, liveBlocks, ih]
      rfl

theorem length_liveBlocks_churn {k : Nat} (hsuffix : before <:+ churn k) :
    (liveBlocks before).length ≤ 1 := by
  induction k with
  | zero =>
      rw [List.suffix_nil.mp hsuffix]
      exact Nat.zero_le 1
  | succ k ih =>
      rcases List.suffix_cons_iff.mp hsuffix with rfl | hsuffix
      · exact (congrArg List.length (liveBlocks_churn (k + 1))).trans_le (Nat.zero_le 1)
      · rcases List.suffix_cons_iff.mp hsuffix with rfl | hsuffix
        · rw [liveBlocks, liveBlocks_churn]
          exact Nat.le_refl 1
        · exact ih hsuffix

/-- Two blocks live behind one that was given back, the second at its address. -/
theorem lsan_tracks_twoLive :
    let history : List LsanCall :=
      .registerAlloc 0x1000 16 noStack :: .registerAlloc 0x2000 8 noStack :: churn 1
    liveBlocks history = [(0x2000, 8), (0x1000, 16)] ∧ LsanTracks history := by
  intro history
  refine ⟨by decide, (lsan_tracks_iff ?_).mpr ?_ _ (List.suffix_refl _)⟩
  · intro c hc
    simp only [history, List.mem_cons] at hc
    rcases hc with rfl | rfl | hc
    · exact LsanCall.noConfusion
    · exact LsanCall.noConfusion
    · rcases mem_churn hc with rfl | rfl
      · exact LsanCall.noConfusion
      · exact LsanCall.noConfusion
  · decide

/-- After 4096 blocks, all given back, the next one is not tracked. -/
theorem not_lsan_tracks :
    ¬ ∀ history : List LsanCall,
      (∀ c ∈ history, (∃ addr size stack, c = .registerAlloc addr size stack) ∨
        ∃ addr, c = .unregisterAlloc addr) →
      (∀ before, before <:+ history → (liveBlocks before).length ≤ lsanMaxAllocs) →
      LsanTracks history := by
  intro hclaim
  have hmem : ∀ c ∈ LsanCall.registerAlloc 0x1000 8 noStack :: churn lsanMaxAllocs,
      c = .unregisterAlloc 0x1000 ∨ c = .registerAlloc 0x1000 8 noStack := by
    intro c hc
    rcases List.mem_cons.mp hc with hc | hc
    · exact Or.inr hc
    · exact mem_churn hc
  refine not_lsanTracks_of_full (fun c hc => ?_) (registrations_churn lsanMaxAllocs)
    (hclaim (.registerAlloc 0x1000 8 noStack :: churn lsanMaxAllocs) (fun c hc => ?_) ?_)
  · rcases hmem c hc with rfl | rfl
    · exact LsanCall.noConfusion
    · exact LsanCall.noConfusion
  · rcases hmem c hc with rfl | rfl
    · exact Or.inr ⟨_, rfl⟩
    · exact Or.inl ⟨_, _, _, rfl⟩
  · intro before hsuffix
    rcases List.suffix_cons_iff.mp hsuffix with rfl | hsuffix
    · rw [liveBlocks, liveBlocks_churn]
      decide
    · exact (length_liveBlocks_churn hsuffix).trans (by decide)

end Misan
