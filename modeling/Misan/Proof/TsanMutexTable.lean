import Misan.Proof.TsanRelease

/-!
# The table of mutexes under creation and destruction

A lookup walks over holes and a creation stops at the first one. So the table is right as long as
every creation of an address that still has an entry meets this entry before a hole, and the first
creation that does not leaves the address with two entries.
-/

namespace Misan

open Function

variable {Thr : Type} [DecidableEq Thr] {s s' : TsanState Thr} {c : TsanCall Thr}
  {history : List (TsanCall Thr)} {addr addr' : Addr} {idx : Fin 1024}

/-- Created and not destroyed since. -/
def mutexCreated (addr : Addr) : List (TsanCall Thr) → Bool
  | [] => false
  | .mutexCreate addr' :: history => addr' == addr || mutexCreated addr history
  | .mutexDestroy addr' :: history => addr' != addr && mutexCreated addr history
  | _ :: history => mutexCreated addr history

/-- No creation finds all entries in use for other addresses. -/
def MutexesFit (history : List (TsanCall Thr)) : Prop :=
  Along (fun c before => ∀ addr s, c = .mutexCreate addr → tsanRun before = .ok s →
    ∃ idx, (s.mutexes idx).active = false ∨ (s.mutexes idx).addr = addr) history

structure MutexTableOk (history : List (TsanCall Thr)) (s : TsanState Thr) : Prop where
  unique : ∀ {i j addr}, mutexKeys s.mutexes i = some addr → mutexKeys s.mutexes j = some addr →
    i = j
  found_iff : ∀ addr, (tsanMutexFind s.mutexes addr false).isSome = true ↔
    mutexCreated addr history = true
  cleared : ∀ addr before, history = .mutexCreate addr :: before →
    ∀ idx table, tsanMutexFind s.mutexes addr false = some (idx, table) → (table idx).vc = 0

/-- A creation of an address that has an entry stops at an entry, not at a hole. -/
def TsanState.CreateMeets (s : TsanState Thr) (c : TsanCall Thr) : Prop :=
  ∀ addr idx, c = .mutexCreate addr → (∃ j, mutexKeys s.mutexes j = some addr) →
    mutexRoom s.mutexes addr = some idx → (s.mutexes idx).active = true

/-! ### Looking up -/

theorem mutexSlot_eq_none_iff {table : TsanMutexTable} :
    mutexSlot table addr = none ↔ ∀ j, mutexKeys table j ≠ some addr := by
  rw [mutexSlot, probe_eq_none_iff]
  refine forall_congr' fun j => ?_
  rw [ne_eq, mutexKeys_eq_some, ← Bool.not_eq_true, Bool.and_eq_true, beq_iff_eq]

theorem mutexSlot_ne_none_iff {table : TsanMutexTable} :
    mutexSlot table addr ≠ none ↔ ∃ j, mutexKeys table j = some addr := by
  rw [ne_eq, mutexSlot_eq_none_iff, not_forall]
  simp only [not_not]

theorem isSome_tsanMutexFind (table : TsanMutexTable) (addr : Addr) :
    (tsanMutexFind table addr false).isSome = true ↔ ∃ j, mutexKeys table j = some addr := by
  rw [tsanMutexFind_false_eq, Option.isSome_map, Option.isSome_iff_ne_none, mutexSlot_ne_none_iff]

theorem mutexSlot_congr {table table' : TsanMutexTable}
    (hkeys : ∀ j, mutexKeys table j = some addr ↔ mutexKeys table' j = some addr) :
    mutexSlot table addr = mutexSlot table' addr := by
  have hstop : (fun j => (table j).active && (table j).addr == addr) =
      fun j => (table' j).active && (table' j).addr == addr := by
    funext j
    rw [Bool.eq_iff_iff]
    simpa only [mutexKeys_eq_some, Bool.and_eq_true, beq_iff_eq] using hkeys j
  rw [mutexSlot, mutexSlot, hstop]

/-! ### The entries after a call -/

omit [DecidableEq Thr] in
theorem mutexKeys_setMutex (s : TsanState Thr) (idx : Fin 1024) (m : TsanMutex) :
    mutexKeys (s.setMutex idx m).mutexes
      = update (mutexKeys s.mutexes) idx (if m.active then some m.addr else none) := by
  funext j
  by_cases hj : j = idx
  · subst hj
    rw [mutexKeys, TsanState.setMutex_mutexes_self, update_self]
  · rw [mutexKeys, TsanState.setMutex_mutexes_of_ne hj, update_of_ne hj, mutexKeys]

theorem tsanStep_mutexKeys (h : tsanStep s c = .ok s')
    (hother : ∀ addr, c ≠ .mutexCreate addr ∧ c ≠ .mutexDestroy addr) :
    mutexKeys s'.mutexes = mutexKeys s.mutexes := by
  obtain ⟨s₁, henters, hmove⟩ := tsanStep_cases h
  rw [← henters.mutexes]
  cases hmove with
  | idle | recorded => rfl
  | created => exact ((hother _).1 rfl).elim
  | destroyed => exact ((hother _).2 rfl).elim
  | @acquired _ _ _ tid idx _ _ =>
      funext j
      exact (mutexes_acquire s₁ idx tid j).1
  | @released _ _ _ tid idx _ _ =>
      funext j
      exact mutexKeys_release s₁ idx tid j

omit [DecidableEq Thr] in
theorem mutexRoom_ne_none
    (hroom : ∃ idx, (s.mutexes idx).active = false ∨ (s.mutexes idx).addr = addr) :
    mutexRoom s.mutexes addr ≠ none := by
  obtain ⟨idx, hidx⟩ := hroom
  intro hfull
  have hstop := probe_eq_none_iff.mp hfull idx
  rw [keyOrHole, mutexKeys] at hstop
  rcases hidx with hhole | haddr
  · simp [hhole] at hstop
  · split at hstop
    · simp [haddr] at hstop
    · cases hstop

/-! ### The invariant -/

section

omit [DecidableEq Thr]

theorem mutexTableOk_initial : MutexTableOk [] (TsanState.initial Thr) where
  unique h := by cases h
  found_iff addr := by
    rw [isSome_tsanMutexFind]
    exact ⟨fun ⟨_, hkey⟩ => (by cases hkey), fun h => (by cases h)⟩
  cleared _ _ h := by cases h

theorem MutexTableOk.found (h : MutexTableOk history s) (addr : Addr) :
    (∃ j, mutexKeys s.mutexes j = some addr) ↔ mutexCreated addr history = true :=
  (isSome_tsanMutexFind s.mutexes addr).symm.trans (h.found_iff addr)

theorem MutexTableOk.create (h : MutexTableOk history s)
    (hmeets : s.CreateMeets (.mutexCreate addr))
    (hroom : mutexRoom s.mutexes addr = some idx) :
    MutexTableOk (.mutexCreate addr :: history) (s.setMutex idx ⟨addr, 0, none, true⟩) := by
  have hkeys := mutexKeys_setMutex s idx ⟨addr, 0, none, true⟩
  rw [if_pos rfl] at hkeys
  -- the slot is the one of the address, if the address has one
  have hslot : ∀ j, mutexKeys s.mutexes j = some addr → j = idx := by
    intro j hj
    have hactive := hmeets addr idx rfl ⟨j, hj⟩ hroom
    exact h.unique hj (mutexKeys_eq_some.mpr ⟨hactive, mutexRoom_spec hroom hactive⟩)
  have hold : ∀ {addr'}, mutexKeys s.mutexes idx = some addr' → addr' = addr := by
    intro addr' hkey
    obtain ⟨hactive, haddr⟩ := mutexKeys_eq_some.mp hkey
    exact haddr.symm.trans (mutexRoom_spec hroom hactive)
  have hafter : ∀ j addr', update (mutexKeys s.mutexes) idx (some addr) j = some addr' ↔
      (j = idx ∧ addr' = addr) ∨ (addr' ≠ addr ∧ mutexKeys s.mutexes j = some addr') := by
    intro j addr'
    by_cases hj : j = idx
    · subst hj
      rw [update_self, Option.some_inj]
      constructor
      · rintro rfl
        exact Or.inl ⟨rfl, rfl⟩
      · rintro (⟨-, rfl⟩ | ⟨hne, hkey⟩)
        · rfl
        · exact (hne (hold hkey)).elim
    · rw [update_of_ne hj]
      constructor
      · intro hkey
        refine Or.inr ⟨?_, hkey⟩
        rintro rfl
        exact hj (hslot j hkey)
      · rintro (⟨heq, -⟩ | ⟨-, hkey⟩)
        · exact (hj heq).elim
        · exact hkey
  refine ⟨?_, fun addr' => ?_, ?_⟩
  · intro i j addr' hi hj
    rw [hkeys, hafter] at hi hj
    rcases hi with ⟨rfl, rfl⟩ | ⟨hne, hi⟩
    · rcases hj with ⟨rfl, -⟩ | ⟨hne, -⟩
      · rfl
      · exact (hne rfl).elim
    · rcases hj with ⟨-, rfl⟩ | ⟨-, hj⟩
      · exact (hne rfl).elim
      · exact h.unique hi hj
  · rw [isSome_tsanMutexFind, hkeys]
    simp only [hafter, mutexCreated, Bool.or_eq_true, beq_iff_eq]
    constructor
    · rintro ⟨j, ⟨-, rfl⟩ | ⟨-, hkey⟩⟩
      · exact Or.inl rfl
      · exact Or.inr ((h.found addr').mp ⟨j, hkey⟩)
    · intro hcreated
      by_cases haddr : addr' = addr
      · exact ⟨idx, Or.inl ⟨rfl, haddr⟩⟩
      · obtain ⟨j, hkey⟩ := (h.found addr').mpr (hcreated.resolve_left fun heq => haddr heq.symm)
        exact ⟨j, Or.inr ⟨haddr, hkey⟩⟩
  · intro addr' before heq j table hfound
    cases heq
    rw [tsanMutexFind_false_eq] at hfound
    obtain ⟨j', hj', heq⟩ := Option.map_eq_some_iff.mp hfound
    cases heq
    have hkey := mutexKeys_of_slot hj'
    rw [hkeys, hafter] at hkey
    obtain ⟨rfl, -⟩ := hkey.resolve_right fun hne => hne.1 rfl
    rw [TsanState.setMutex_mutexes_self]

theorem MutexTableOk.destroy (h : MutexTableOk history s) :
    MutexTableOk (.mutexDestroy addr :: history) (tsanMutexDestroy s addr) := by
  have hafter : ∀ j addr', mutexKeys (tsanMutexDestroy s addr).mutexes j = some addr' ↔
      addr' ≠ addr ∧ mutexKeys s.mutexes j = some addr' := by
    intro j addr'
    rw [tsanMutexDestroy_eq]
    cases hslot : mutexSlot s.mutexes addr with
    | none =>
        refine ⟨fun hkey => ⟨?_, hkey⟩, fun hkey => hkey.2⟩
        rintro rfl
        exact mutexSlot_eq_none_iff.mp hslot j hkey
    | some idx =>
        have hidx := mutexKeys_of_slot hslot
        dsimp only
        rw [mutexKeys_setMutex, if_neg Bool.false_ne_true]
        by_cases hj : j = idx
        · subst hj
          rw [update_self, hidx, Option.some_inj]
          exact iff_of_false (fun heq => by cases heq) fun heq => heq.1 heq.2.symm
        · rw [update_of_ne hj]
          refine ⟨fun hkey => ⟨?_, hkey⟩, fun hkey => hkey.2⟩
          rintro rfl
          exact hj (h.unique hkey hidx)
  refine ⟨?_, fun addr' => ?_, fun _ _ heq => by cases heq⟩
  · intro i j addr' hi hj
    exact h.unique ((hafter i addr').mp hi).2 ((hafter j addr').mp hj).2
  · rw [isSome_tsanMutexFind, mutexCreated, Bool.and_eq_true, bne_iff_ne, ← h.found]
    simp only [hafter, exists_and_left]
    rw [ne_comm]

theorem MutexTableOk.other (h : MutexTableOk history s)
    (hkeys : mutexKeys s'.mutexes = mutexKeys s.mutexes)
    (hother : ∀ addr, c ≠ .mutexCreate addr ∧ c ≠ .mutexDestroy addr) :
    MutexTableOk (c :: history) s' := by
  refine ⟨fun hi hj => h.unique (hkeys ▸ hi) (hkeys ▸ hj), fun addr => ?_, fun addr _ heq => ?_⟩
  · rw [isSome_tsanMutexFind, hkeys, h.found]
    cases c with
    | mutexCreate addr' => exact ((hother addr').1 rfl).elim
    | mutexDestroy addr' => exact ((hother addr').2 rfl).elim
    | init | access | preLock | postLock | preUnlock | postUnlock => rfl
  · cases heq
    exact ((hother addr).1 rfl).elim

end

theorem MutexTableOk.step (h : MutexTableOk history s) (hmeets : s.CreateMeets c)
    (hroom : ∀ addr, c = .mutexCreate addr →
      ∃ idx, (s.mutexes idx).active = false ∨ (s.mutexes idx).addr = addr)
    (hcall : tsanStep s c = .ok s') : MutexTableOk (c :: history) s' := by
  cases c with
  | mutexCreate addr =>
      rw [tsanStep, tsanMutexCreate_eq] at hcall
      obtain ⟨idx, hidx⟩ := Option.ne_none_iff_exists'.mp (mutexRoom_ne_none (hroom addr rfl))
      rw [hidx] at hcall
      cases hcall
      exact h.create hmeets hidx
  | mutexDestroy addr =>
      cases hcall
      exact h.destroy
  | init | access | preLock | postLock | preUnlock | postUnlock =>
      have hother : ∀ (d : TsanCall Thr) addr, d.thread? ≠ none →
          d ≠ .mutexCreate addr ∧ d ≠ .mutexDestroy addr := by
        intro d addr hthread
        constructor <;> rintro rfl <;> exact hthread rfl
      exact h.other (tsanStep_mutexKeys hcall fun addr => hother _ addr (Option.some_ne_none _))
        fun addr => hother _ addr (Option.some_ne_none _)

/-- A creation that stops at a hole while the address has an entry leaves it with two. -/
theorem not_unique_of_createMisses (hmisses : ¬ s.CreateMeets c) (hcall : tsanStep s c = .ok s') :
    ∃ i j addr, i ≠ j ∧ mutexKeys s'.mutexes i = some addr ∧
      mutexKeys s'.mutexes j = some addr := by
  rw [TsanState.CreateMeets] at hmisses
  push Not at hmisses
  obtain ⟨addr, idx, rfl, ⟨j, hj⟩, hroom, hhole⟩ := hmisses
  have hne : j ≠ idx := by
    rintro rfl
    exact hhole (mutexKeys_eq_some.mp hj).1
  rw [tsanStep, tsanMutexCreate_eq, hroom] at hcall
  cases hcall
  refine ⟨idx, j, addr, hne.symm, ?_, ?_⟩
  · rw [mutexKeys_setMutex, update_self, if_pos rfl]
  · rw [mutexKeys_setMutex, update_of_ne hne, hj]

/-! ### Whole histories -/

/-- **The table of mutexes, exactly.** After every call of a history the table holds each mutex that
was created and not destroyed since, once, and holds no other, if and only if every creation of an
address that still has an entry meets this entry before a hole. -/
theorem tsan_mutexTable_iff (hroom : MutexesFit history) :
    (∀ before s, before <:+ history → tsanRun before = .ok s → MutexTableOk before s) ↔
      Along (fun c before => ∀ s, tsanRun before = .ok s → s.CreateMeets c) history := by
  constructor
  · intro hok c before hsuffix s hs
    by_contra hmisses
    have hcreate : ∃ addr, c = .mutexCreate addr := by
      by_contra hnone
      exact hmisses fun addr _ heq => (hnone ⟨addr, heq⟩).elim
    obtain ⟨addr, rfl⟩ := hcreate
    have hcall : tsanStep s (.mutexCreate addr) = .ok (tsanMutexCreate s addr) := rfl
    have hafter := hok _ _ hsuffix (tsanRun_cons_ok.mpr ⟨s, hs, hcall⟩)
    obtain ⟨i, j, addr', hne, hi, hj⟩ := not_unique_of_createMisses hmisses hcall
    exact hne (hafter.unique hi hj)
  · intro hmeets before s hsuffix hs
    induction before generalizing s with
    | nil =>
        cases hs
        exact mutexTableOk_initial
    | cons c before ih =>
        obtain ⟨s₀, hs₀, hcall⟩ := tsanRun_cons_ok.mp hs
        have htable := ih s₀ ((List.suffix_cons c before).trans hsuffix) hs₀
        exact htable.step (hmeets c before hsuffix s₀ hs₀)
          (fun addr heq => hroom c before hsuffix addr s₀ heq hs₀) hcall

/-- A table whose first entry is never in use has room for every creation. -/
theorem mutexesFit_of_unused
    (hunused : ∀ b ∈ history.tails,
      ((tsanRun b).toOption.all fun s => !(s.mutexes 0).active) = true) :
    MutexesFit history := by
  intro c before hsuffix addr s _ hs
  have hbefore := hunused before
    ((List.mem_tails ..).mpr ((List.suffix_cons c before).trans hsuffix))
  rw [hs] at hbefore
  exact ⟨0, Or.inl (Bool.not_eq_true' _ |>.mp hbefore)⟩

/-- Two mutexes of one hash: the second is created twice, and then the first one destroyed. -/
def collidingMutexes : List (TsanCall Bool) :=
  [.mutexDestroy 0x1000, .mutexCreate 0x3000, .mutexCreate 0x3000, .mutexCreate 0x1000]

theorem tsan_mutexTable_collidingMutexes :
    ∃ s, tsanRun collidingMutexes = .ok s ∧ MutexTableOk collidingMutexes s ∧
      mutexCreated 0x3000 collidingMutexes = true := by
  have hfit : MutexesFit collidingMutexes := mutexesFit_of_unused (by decide +kernel)
  have hmeets : Along (fun c before => ∀ s, tsanRun before = .ok s → s.CreateMeets c)
      collidingMutexes := by
    rw [collidingMutexes, along_cons, along_cons, along_cons, along_cons]
    refine ⟨?_, ?_, ?_, ?_, along_nil _⟩
    · rintro s - addr idx ⟨⟩
    · obtain ⟨s₀, hs₀, hroom, hactive⟩ : ∃ s, tsanRun (collidingMutexes.drop 2) = .ok s ∧
          mutexRoom s.mutexes 0x3000 = some 513 ∧ (s.mutexes 513).active = true :=
        exists_tsanRun_ok (by decide +kernel)
      rintro s hs addr idx heq - hidx
      cases heq
      cases hs₀.symm.trans hs
      cases hroom.symm.trans hidx
      exact hactive
    · -- the address has no entry yet
      obtain ⟨s₀, hs₀, habsent⟩ : ∃ s, tsanRun (collidingMutexes.drop 3) = .ok s ∧
          (tsanMutexFind s.mutexes 0x3000 false).isSome = false :=
        exists_tsanRun_ok (by decide +kernel)
      rintro s hs addr idx heq hkey -
      cases heq
      cases hs₀.symm.trans hs
      rw [← isSome_tsanMutexFind, habsent] at hkey
      cases hkey
    · rintro s hs addr idx - ⟨j, hj⟩ -
      cases hs
      cases hj
  obtain ⟨s, hs, -⟩ : ∃ s, tsanRun collidingMutexes = .ok s ∧ s.threadCount = 0 :=
    exists_tsanRun_ok (by decide +kernel)
  exact ⟨s, hs, (tsan_mutexTable_iff hfit).mpr hmeets _ s (List.suffix_refl _) hs, rfl⟩

/-- Two mutexes of one hash: the first is destroyed, and the second created again. -/
def mutexCreatedTwice : List (TsanCall Bool) :=
  [.mutexCreate 0x3000, .mutexDestroy 0x1000, .mutexCreate 0x3000, .mutexCreate 0x1000]

/-- The second creation takes the hole the first mutex left, and the table holds the address
twice. -/
theorem not_tsan_mutexTable :
    ¬ ∀ (history : List (TsanCall Bool)) (s : TsanState Bool), MutexesFit history →
      (∀ c ∈ history, ∃ addr, c = .mutexCreate addr ∨ c = .mutexDestroy addr) →
      tsanRun history = .ok s → MutexTableOk history s := by
  intro hclaim
  obtain ⟨s, hs, hfirst, hsecond⟩ : ∃ s, tsanRun mutexCreatedTwice = .ok s ∧
      mutexKeys s.mutexes 512 = some 0x3000 ∧ mutexKeys s.mutexes 513 = some 0x3000 :=
    exists_tsanRun_ok (by decide +kernel)
  have honly : ∀ c ∈ mutexCreatedTwice, ∃ addr, c = .mutexCreate addr ∨ c = .mutexDestroy addr := by
    intro c hc
    simp only [mutexCreatedTwice, List.mem_cons, List.not_mem_nil, or_false] at hc
    rcases hc with rfl | rfl | rfl | rfl
    · exact ⟨_, Or.inl rfl⟩
    · exact ⟨_, Or.inr rfl⟩
    · exact ⟨_, Or.inl rfl⟩
    · exact ⟨_, Or.inl rfl⟩
  have hfit : MutexesFit mutexCreatedTwice := mutexesFit_of_unused (by decide +kernel)
  have hok := hclaim mutexCreatedTwice s hfit honly hs
  exact absurd (hok.unique hfirst hsecond) (by decide)

end Misan
