import Misan.TsanHistory

/-!
# What a call can do

A call first gives its thread an identifier, if it has none, and then does one of a few things to
the tables. Everything proved about runs goes through this case distinction; the probing of the
tables and the branches of the hooks are dealt with here.
-/

namespace Misan

open Function

/-! ### Slots -/

/-- The address each shadow entry is in use for. -/
def shadowKeys (table : TsanShadowTable) (idx : Fin 65536) : Option Addr :=
  if (table idx).active then some (table idx).addr else none

def mutexKeys (table : TsanMutexTable) (idx : Fin 1024) : Option Addr :=
  if (table idx).active then some (table idx).addr else none

/-- Where an access to `addr` is recorded. -/
def shadowSlot (table : TsanShadowTable) (addr : Addr) : Option (Fin 65536) :=
  probe (keyOrHole (shadowKeys table) addr) (tsanShadowHash addr)

def mutexRoom (table : TsanMutexTable) (addr : Addr) : Option (Fin 1024) :=
  probe (keyOrHole (mutexKeys table) addr) (tsanMutexHash addr)

def mutexSlot (table : TsanMutexTable) (addr : Addr) : Option (Fin 1024) :=
  probe (fun idx => (table idx).active && (table idx).addr == addr) (tsanMutexHash addr)

theorem shadowKeys_eq_some {table : TsanShadowTable} {idx : Fin 65536} {addr : Addr} :
    shadowKeys table idx = some addr ↔ (table idx).active = true ∧ (table idx).addr = addr := by
  rw [shadowKeys]
  split
  · rename_i hactive
    simp [hactive]
  · rename_i hactive
    simp [hactive]

theorem tsanShadowGet_eq (table : TsanShadowTable) (addr : Addr) :
    tsanShadowGet table addr true = (shadowSlot table addr).map fun idx =>
      (idx, update table idx { table idx with addr := addr, active := true }) := by
  have hstop : (fun idx => ((table idx).active && (table idx).addr == addr) ||
      (!(table idx).active && true)) = keyOrHole (shadowKeys table) addr := by
    funext idx
    rw [keyOrHole, shadowKeys]
    cases (table idx).active <;> simp
  rw [tsanShadowGet, hstop, ← shadowSlot]
  cases hslot : shadowSlot table addr with
  | none => rfl
  | some idx =>
      by_cases hactive : (table idx).active = true
      · have haddr : (table idx).addr = addr := by
          have hfound := probe_sound hslot
          simpa [keyOrHole, shadowKeys, hactive] using hfound
        have hsame : { table idx with addr := addr, active := true } = table idx := by
          rw [← haddr, ← hactive]
        simp only [hactive, if_true, Option.map_some, hsame, update_eq_self]
      · simp [hactive]

theorem tsanMutexFind_true_eq (table : TsanMutexTable) (addr : Addr) :
    tsanMutexFind table addr true = (mutexRoom table addr).map fun idx =>
      (idx, if (table idx).active then table
        else update table idx { table idx with addr := addr, active := true, vc := 0 }) := by
  have hstop : (fun idx => ((table idx).active && (table idx).addr == addr) ||
      (!(table idx).active && true)) = keyOrHole (mutexKeys table) addr := by
    funext idx
    rw [keyOrHole, mutexKeys]
    cases (table idx).active <;> simp
  rw [tsanMutexFind, hstop, ← mutexRoom]
  cases hslot : mutexRoom table addr with
  | none => rfl
  | some idx =>
      simp only [Option.map_some]
      split <;> rfl

theorem mutexRoom_spec {table : TsanMutexTable} {addr : Addr} {idx : Fin 1024}
    (hroom : mutexRoom table addr = some idx) (hactive : (table idx).active = true) :
    (table idx).addr = addr := by
  have hfound := probe_sound hroom
  simpa [keyOrHole, mutexKeys, hactive] using hfound

theorem tsanMutexFind_false_eq (table : TsanMutexTable) (addr : Addr) :
    tsanMutexFind table addr false = (mutexSlot table addr).map fun idx => (idx, table) := by
  have hstop : (fun idx => ((table idx).active && (table idx).addr == addr) ||
      (!(table idx).active && false)) =
        fun idx => (table idx).active && (table idx).addr == addr := by
    funext idx
    simp
  rw [tsanMutexFind, hstop, ← mutexSlot]
  cases hslot : mutexSlot table addr with
  | none => rfl
  | some idx =>
      have hfound := probe_sound hslot
      simp only [Bool.and_eq_true] at hfound
      simp [hfound.1]

theorem mutexSlot_spec {table : TsanMutexTable} {addr : Addr} {idx : Fin 1024}
    (hslot : mutexSlot table addr = some idx) :
    (table idx).active = true ∧ (table idx).addr = addr := by
  simpa using probe_sound hslot

section Step

variable {Thr : Type} {s s' s₁ : TsanState Thr} {c : TsanCall Thr} {thr : Thr} {tid : Tid}
  {addr : Addr} {w : Bool}

def TsanState.recorded (s : TsanState Thr) (addr : Addr) (idx : Fin 65536) (tid : Tid)
    (w : Bool) : TsanState Thr :=
  { s with
    shadow := update s.shadow idx ⟨addr, (s.threads tid).vc, tid, w, true⟩
    threads := update s.threads tid
      { s.threads tid with vc := tsanVcInc (s.threads tid).vc tid } }

def TsanState.setMutex (s : TsanState Thr) (idx : Fin 1024) (m : TsanMutex) : TsanState Thr :=
  { s with mutexes := update s.mutexes idx m }

/-- An access by `tid` is judged a race with the one recorded in slot `idx`. -/
def TsanState.Races (s : TsanState Thr) (idx : Fin 65536) (tid : Tid) (w : Bool) : Prop :=
  (s.shadow idx).tid ≠ tid ∧ (w || (s.shadow idx).isWrite) = true ∧
    ¬ (s.threads (s.shadow idx).tid).vc (s.shadow idx).tid
        ≤ (s.threads tid).vc (s.shadow idx).tid ∧
    ¬ (s.threads tid).vc tid ≤ (s.threads (s.shadow idx).tid).vc tid

instance (s : TsanState Thr) (idx : Fin 65536) (tid : Tid) (w : Bool) :
    Decidable (s.Races idx tid w) :=
  inferInstanceAs (Decidable (_ ∧ _))

theorem tsanIsRace_iff (s : TsanState Thr) (idx : Fin 65536) (addr : Addr) (tid : Tid)
    (w : Bool) :
    tsanIsRace s.threads { s.shadow idx with addr := addr, active := true } addr tid w = true ↔
      s.Races idx tid w := by
  simp [tsanIsRace, tsanVcHappensBefore, TsanState.Races, and_assoc]

/-! ### The states a call leaves -/

namespace TsanState

variable {t : Tid} {slot slot' : Fin 65536} {idx idx' : Fin 1024} {m : TsanMutex}
  {table : TsanMutexTable}

@[simp]
theorem recorded_shadow_self :
    (s.recorded addr slot tid w).shadow slot = ⟨addr, (s.threads tid).vc, tid, w, true⟩ :=
  update_self ..

theorem recorded_shadow_of_ne (hne : slot' ≠ slot) :
    (s.recorded addr slot tid w).shadow slot' = s.shadow slot' :=
  update_of_ne hne ..

@[simp]
theorem recorded_threads_self :
    (s.recorded addr slot tid w).threads tid =
      { s.threads tid with vc := tsanVcInc (s.threads tid).vc tid } :=
  update_self ..

theorem recorded_threads_of_ne (hne : t ≠ tid) :
    (s.recorded addr slot tid w).threads t = s.threads t :=
  update_of_ne hne ..

@[simp]
theorem setMutex_mutexes_self : (s.setMutex idx m).mutexes idx = m :=
  update_self ..

theorem setMutex_mutexes_of_ne (hne : idx' ≠ idx) :
    (s.setMutex idx m).mutexes idx' = s.mutexes idx' :=
  update_of_ne hne ..

@[simp]
theorem acquire_threads_self :
    (s.acquire table idx tid).threads tid =
      { s.threads tid with vc := tsanVcJoin (s.threads tid).vc (table idx).vc } :=
  update_self ..

theorem acquire_threads_of_ne (hne : t ≠ tid) :
    (s.acquire table idx tid).threads t = s.threads t :=
  update_of_ne hne ..

@[simp]
theorem acquire_mutexes_self :
    (s.acquire table idx tid).mutexes idx = { table idx with ownerTid := some tid } :=
  update_self ..

theorem acquire_mutexes_of_ne (hne : idx' ≠ idx) :
    (s.acquire table idx tid).mutexes idx' = table idx' :=
  update_of_ne hne ..

@[simp]
theorem release_mutexes_self :
    (s.release table idx tid).mutexes idx =
      { table idx with vc := tsanVcInc (s.threads tid).vc tid } :=
  update_self ..

theorem release_mutexes_of_ne (hne : idx' ≠ idx) :
    (s.release table idx tid).mutexes idx' = table idx' :=
  update_of_ne hne ..

variable [DecidableEq Thr] {thr' : Thr}

@[simp]
theorem register_threads_self :
    (s.register thr tid).threads tid = ⟨update 0 tid 1, true⟩ :=
  update_self ..

theorem register_threads_of_ne (hne : t ≠ tid) :
    (s.register thr tid).threads t = s.threads t :=
  update_of_ne hne ..

@[simp]
theorem register_currentTid_self : (s.register thr tid).currentTid thr = some tid :=
  update_self ..

theorem register_currentTid_of_ne (hne : thr' ≠ thr) :
    (s.register thr tid).currentTid thr' = s.currentTid thr' :=
  update_of_ne hne ..

end TsanState

/-! ### The meaning of a call, by slots -/

theorem tsanAct_access (s : TsanState Thr) (haccess : c.access? = some (thr, addr, w)) :
    tsanAct s c =
      match shadowSlot s.shadow addr with
      | some _ => .tick thr
      | none => .idle := by
  cases c with
  | access | preLock | preUnlock =>
      cases haccess
      rw [tsanAct, tsanShadowGet_eq]
      cases shadowSlot s.shadow addr <;> rfl
  | init | mutexCreate | mutexDestroy | postLock | postUnlock => cases haccess

theorem tsanAct_mutexCreate (s : TsanState Thr) (addr : Addr) :
    tsanAct s (.mutexCreate addr) =
      match mutexRoom s.mutexes addr with
      | some idx => .reset idx
      | none => .idle := by
  rw [tsanAct, tsanMutexFind_true_eq]
  cases mutexRoom s.mutexes addr <;> rfl

theorem tsanAct_postLock (s : TsanState Thr) (thr : Thr) (addr : Addr) (rw : Int) :
    tsanAct s (.postLock thr addr rw) =
      match mutexSlot s.mutexes addr with
      | some idx => .acquire thr idx
      | none => .idle := by
  rw [tsanAct, tsanMutexFind_false_eq]
  cases mutexSlot s.mutexes addr <;> rfl

theorem tsanAct_postUnlock (s : TsanState Thr) (thr : Thr) (addr : Addr) (rw : Int) :
    tsanAct s (.postUnlock thr addr rw) =
      match mutexSlot s.mutexes addr with
      | some idx => .release thr idx
      | none => .idle := by
  rw [tsanAct, tsanMutexFind_false_eq]
  cases mutexSlot s.mutexes addr <;> rfl

theorem tsanAct_eq_release {idx : Fin 1024} (h : tsanAct s c = .release thr idx) :
    ∃ addr rw, c = .postUnlock thr addr rw ∧ mutexSlot s.mutexes addr = some idx := by
  cases c with
  | init | mutexDestroy => cases h
  | access | preLock | preUnlock | mutexCreate | postLock =>
      rw [tsanAct] at h
      split at h <;> cases h
  | postUnlock thr' addr rw =>
      rw [tsanAct_postUnlock] at h
      split at h
      · rename_i hslot
        cases h
        exact ⟨addr, rw, rfl, hslot⟩
      · cases h

/-! ### Entering a hook -/

variable [DecidableEq Thr]

/-- The state in which the body of a hook runs: its thread has an identifier. -/
inductive TsanEntered (s : TsanState Thr) (thr : Thr) (tid : Tid) : TsanState Thr → Prop
  | known (htid : s.currentTid thr = some tid) : TsanEntered s thr tid s
  | fresh (hnone : s.currentTid thr = none) (htid : tid.val = s.threadCount + 1) :
      TsanEntered s thr tid (s.register thr tid)

theorem tsanGetTid_ok_iff :
    tsanGetTid s thr = .ok (tid, s₁) ↔ TsanEntered s thr tid s₁ := by
  constructor
  · intro h
    rw [tsanGetTid] at h
    split at h
    · rename_i tid' htid
      cases h
      exact .known htid
    · rename_i hnone
      split at h
      · cases h
        exact .fresh hnone rfl
      · cases h
  · intro h
    cases h with
    | known htid => simp [tsanGetTid, htid]
    | fresh hnone htid =>
        have hlt : s.threadCount + 1 < 64 := htid ▸ tid.isLt
        have heq : (⟨s.threadCount + 1, hlt⟩ : Tid) = tid := Fin.ext htid.symm
        simp [tsanGetTid, hnone, hlt, heq]

theorem tsanGetTid_error {e : TsanHalt} (h : tsanGetTid s thr = .error e) :
    e = .tooManyThreads ∧ s.currentTid thr = none ∧ 63 ≤ s.threadCount := by
  rw [tsanGetTid] at h
  split at h
  · cases h
  · rename_i hnone
    split at h
    · cases h
    · cases h
      exact ⟨rfl, hnone, by omega⟩

namespace TsanEntered

theorem currentTid (h : TsanEntered s thr tid s₁) : s₁.currentTid thr = some tid := by
  cases h with
  | known htid => exact htid
  | fresh => exact TsanState.register_currentTid_self

theorem shadow (h : TsanEntered s thr tid s₁) : s₁.shadow = s.shadow := by
  cases h <;> rfl

theorem mutexes (h : TsanEntered s thr tid s₁) : s₁.mutexes = s.mutexes := by
  cases h <;> rfl

end TsanEntered

/-! ### The bodies of the hooks -/

theorem tsanAccess_eq (h : TsanEntered s thr tid s₁) (size : Addr) :
    tsanAccess s thr addr size w =
      match shadowSlot s₁.shadow addr with
      | none => .ok s₁
      | some idx =>
          if s₁.Races idx tid w then
            .error (.race ⟨addr, tid, w, (s₁.shadow idx).tid, (s₁.shadow idx).isWrite⟩)
          else .ok (s₁.recorded addr idx tid w) := by
  rw [tsanAccess, tsanGetTid_ok_iff.mpr h]
  dsimp only [bind, Except.bind]
  rw [tsanShadowGet_eq]
  cases hslot : shadowSlot s₁.shadow addr with
  | none => rfl
  | some idx =>
      simp only [Option.map_some, update_self, tsanIsRace_iff, TsanState.record, update_idem,
        TsanState.recorded]
      rfl

theorem tsanMutexPostLock_eq (h : TsanEntered s thr tid s₁) (rw : Int) :
    tsanMutexPostLock s thr addr rw =
      match mutexSlot s₁.mutexes addr with
      | none => .ok s₁
      | some idx => .ok (s₁.acquire s₁.mutexes idx tid) := by
  rw [tsanMutexPostLock, tsanGetTid_ok_iff.mpr h]
  dsimp only [bind, Except.bind]
  rw [tsanMutexFind_false_eq]
  cases mutexSlot s₁.mutexes addr <;> rfl

theorem tsanMutexPostUnlock_eq (h : TsanEntered s thr tid s₁) (rw : Int) :
    tsanMutexPostUnlock s thr addr rw =
      match mutexSlot s₁.mutexes addr with
      | none => .ok s₁
      | some idx => .ok (s₁.release s₁.mutexes idx tid) := by
  rw [tsanMutexPostUnlock, tsanGetTid_ok_iff.mpr h]
  dsimp only [bind, Except.bind]
  rw [tsanMutexFind_false_eq]
  cases mutexSlot s₁.mutexes addr <;> rfl

omit [DecidableEq Thr] in
theorem tsanMutexCreate_eq (s : TsanState Thr) (addr : Addr) :
    tsanMutexCreate s addr =
      match mutexRoom s.mutexes addr with
      | none => s
      | some idx => s.setMutex idx ⟨addr, 0, none, true⟩ := by
  rw [tsanMutexCreate, tsanMutexFind_true_eq]
  cases hroom : mutexRoom s.mutexes addr with
  | none => rfl
  | some idx =>
      simp only [Option.map_some, TsanState.setMutex]
      split
      · rename_i hactive
        rw [mutexRoom_spec hroom hactive, hactive]
      · rw [update_self, update_idem]

omit [DecidableEq Thr] in
theorem tsanMutexDestroy_eq (s : TsanState Thr) (addr : Addr) :
    tsanMutexDestroy s addr =
      match mutexSlot s.mutexes addr with
      | none => s
      | some idx => s.setMutex idx { s.mutexes idx with active := false } := by
  rw [tsanMutexDestroy, tsanMutexFind_false_eq]
  cases mutexSlot s.mutexes addr <;> rfl

/-! ### The case distinction -/

/-- What the body of a hook can do to the state. -/
inductive TsanMove (s : TsanState Thr) : TsanCall Thr → TsanState Thr → Prop
  | idle {c : TsanCall Thr} (hidle : tsanAct s c = .idle) : TsanMove s c s
  | recorded {c : TsanCall Thr} {thr : Thr} {addr : Addr} {w : Bool} {tid : Tid}
      {idx : Fin 65536} (haccess : c.access? = some (thr, addr, w))
      (htid : s.currentTid thr = some tid) (hslot : shadowSlot s.shadow addr = some idx)
      (hsilent : ¬ s.Races idx tid w) : TsanMove s c (s.recorded addr idx tid w)
  | created {addr : Addr} {idx : Fin 1024} (hroom : mutexRoom s.mutexes addr = some idx) :
      TsanMove s (.mutexCreate addr) (s.setMutex idx ⟨addr, 0, none, true⟩)
  | destroyed {addr : Addr} {idx : Fin 1024} (hslot : mutexSlot s.mutexes addr = some idx) :
      TsanMove s (.mutexDestroy addr) (s.setMutex idx { s.mutexes idx with active := false })
  | acquired {thr : Thr} {addr : Addr} {rw : Int} {tid : Tid} {idx : Fin 1024}
      (htid : s.currentTid thr = some tid) (hslot : mutexSlot s.mutexes addr = some idx) :
      TsanMove s (.postLock thr addr rw) (s.acquire s.mutexes idx tid)
  | released {thr : Thr} {addr : Addr} {rw : Int} {tid : Tid} {idx : Fin 1024}
      (htid : s.currentTid thr = some tid) (hslot : mutexSlot s.mutexes addr = some idx) :
      TsanMove s (.postUnlock thr addr rw) (s.release s.mutexes idx tid)

/-- The thread of the call, if it has one, has its identifier in `s₁`. -/
def TsanEnters (s : TsanState Thr) (c : TsanCall Thr) (s₁ : TsanState Thr) : Prop :=
  (c.thread? = none ∧ s₁ = s) ∨ ∃ thr tid, c.thread? = some thr ∧ TsanEntered s thr tid s₁

theorem tsanStep_access (s : TsanState Thr) (haccess : c.access? = some (thr, addr, w)) :
    c.thread? = some thr ∧ ∃ size, tsanStep s c = tsanAccess s thr addr size w := by
  cases c with
  | access thr' addr' size w' =>
      cases haccess
      exact ⟨rfl, size, rfl⟩
  | preLock thr' addr' rw =>
      cases haccess
      exact ⟨rfl, 8, rfl⟩
  | preUnlock thr' addr' rw =>
      cases haccess
      exact ⟨rfl, 8, rfl⟩
  | init | mutexCreate | mutexDestroy | postLock | postUnlock => cases haccess

theorem tsanStep_of_getTid_error {e : TsanHalt} (hthread : c.thread? = some thr)
    (hget : tsanGetTid s thr = .error e) : tsanStep s c = .error e := by
  cases c with
  | mutexCreate | mutexDestroy => cases hthread
  | init | access | preLock | postLock | preUnlock | postUnlock =>
      cases hthread
      simp only [tsanStep, tsanAccess, tsanMutexPreLock, tsanMutexPostLock, tsanMutexPreUnlock,
        tsanMutexPostUnlock, hget]
      rfl

theorem exists_entered_of_tsanStep_ok (h : tsanStep s c = .ok s') (hthread : c.thread? = some thr) :
    ∃ tid s₁, TsanEntered s thr tid s₁ := by
  cases hget : tsanGetTid s thr with
  | ok p => exact ⟨p.1, p.2, tsanGetTid_ok_iff.mp hget⟩
  | error e =>
      rw [tsanStep_of_getTid_error hthread hget] at h
      cases h

theorem tsanStep_cases_of_access (h : tsanStep s c = .ok s')
    (haccess : c.access? = some (thr, addr, w)) : ∃ s₁, TsanEnters s c s₁ ∧ TsanMove s₁ c s' := by
  obtain ⟨hthread, size, heq⟩ := tsanStep_access s haccess
  obtain ⟨tid, s₁, hs₁⟩ := exists_entered_of_tsanStep_ok h hthread
  refine ⟨s₁, Or.inr ⟨thr, tid, hthread, hs₁⟩, ?_⟩
  rw [heq, tsanAccess_eq hs₁] at h
  cases hslot : shadowSlot s₁.shadow addr with
  | none =>
      rw [hslot] at h
      cases h
      exact .idle (by rw [tsanAct_access _ haccess, hslot])
  | some idx =>
      rw [hslot] at h
      dsimp only at h
      split at h
      · cases h
      · rename_i hsilent
        cases h
        exact .recorded haccess hs₁.currentTid hslot hsilent

/-- **The case distinction**: a call that returns has entered its hook and made one of the moves. -/
theorem tsanStep_cases (h : tsanStep s c = .ok s') :
    ∃ s₁, TsanEnters s c s₁ ∧ TsanMove s₁ c s' := by
  cases c with
  | init thr =>
      obtain ⟨tid, s₁, hs₁⟩ := exists_entered_of_tsanStep_ok h rfl
      rw [tsanStep, tsanGetTid_ok_iff.mpr hs₁] at h
      cases h
      exact ⟨_, Or.inr ⟨thr, tid, rfl, hs₁⟩, .idle rfl⟩
  | access thr addr size w => exact tsanStep_cases_of_access h rfl
  | preLock thr addr rw => exact tsanStep_cases_of_access h rfl
  | preUnlock thr addr rw => exact tsanStep_cases_of_access h rfl
  | mutexCreate addr =>
      refine ⟨s, Or.inl ⟨rfl, rfl⟩, ?_⟩
      rw [tsanStep, tsanMutexCreate_eq] at h
      cases hroom : mutexRoom s.mutexes addr with
      | none =>
          rw [hroom] at h
          cases h
          exact .idle (by rw [tsanAct_mutexCreate, hroom])
      | some idx =>
          rw [hroom] at h
          cases h
          exact .created hroom
  | mutexDestroy addr =>
      refine ⟨s, Or.inl ⟨rfl, rfl⟩, ?_⟩
      rw [tsanStep, tsanMutexDestroy_eq] at h
      cases hslot : mutexSlot s.mutexes addr with
      | none =>
          rw [hslot] at h
          cases h
          exact .idle rfl
      | some idx =>
          rw [hslot] at h
          cases h
          exact .destroyed hslot
  | postLock thr addr rw =>
      obtain ⟨tid, s₁, hs₁⟩ := exists_entered_of_tsanStep_ok h rfl
      refine ⟨s₁, Or.inr ⟨thr, tid, rfl, hs₁⟩, ?_⟩
      rw [tsanStep, tsanMutexPostLock_eq hs₁] at h
      cases hslot : mutexSlot s₁.mutexes addr with
      | none =>
          rw [hslot] at h
          cases h
          exact .idle (by rw [tsanAct_postLock, hslot])
      | some idx =>
          rw [hslot] at h
          cases h
          exact .acquired hs₁.currentTid hslot
  | postUnlock thr addr rw =>
      obtain ⟨tid, s₁, hs₁⟩ := exists_entered_of_tsanStep_ok h rfl
      refine ⟨s₁, Or.inr ⟨thr, tid, rfl, hs₁⟩, ?_⟩
      rw [tsanStep, tsanMutexPostUnlock_eq hs₁] at h
      cases hslot : mutexSlot s₁.mutexes addr with
      | none =>
          rw [hslot] at h
          cases h
          exact .idle (by rw [tsanAct_postUnlock, hslot])
      | some idx =>
          rw [hslot] at h
          cases h
          exact .released hs₁.currentTid hslot

theorem tsanStep_error_of_entered {e : TsanHalt} (h : tsanStep s c = .error e)
    (hthread : c.thread? = some thr) (hs₁ : TsanEntered s thr tid s₁) :
    ∃ addr w idx, c.access? = some (thr, addr, w) ∧ shadowSlot s₁.shadow addr = some idx ∧
      s₁.Races idx tid w ∧
      e = .race ⟨addr, tid, w, (s₁.shadow idx).tid, (s₁.shadow idx).isWrite⟩ := by
  cases haccess : c.access? with
  | some a =>
      obtain ⟨thr', addr, w⟩ := a
      obtain ⟨hthread', size, heq⟩ := tsanStep_access s haccess
      cases hthread.symm.trans hthread'
      rw [heq, tsanAccess_eq hs₁] at h
      cases hslot : shadowSlot s₁.shadow addr with
      | none =>
          rw [hslot] at h
          cases h
      | some idx =>
          rw [hslot] at h
          dsimp only at h
          split at h
          · rename_i hraces
            cases h
            exact ⟨addr, w, idx, rfl, hslot, hraces, rfl⟩
          · cases h
  | none =>
      cases c with
      | mutexCreate | mutexDestroy => cases hthread
      | access | preLock | preUnlock => cases haccess
      | init =>
          cases hthread
          rw [tsanStep, tsanGetTid_ok_iff.mpr hs₁] at h
          cases h
      | postLock _ addr rw =>
          cases hthread
          rw [tsanStep, tsanMutexPostLock_eq hs₁] at h
          split at h <;> cases h
      | postUnlock _ addr rw =>
          cases hthread
          rw [tsanStep, tsanMutexPostUnlock_eq hs₁] at h
          split at h <;> cases h

/-- A call that is refused has no identifier left for its thread, or it has found a race. -/
theorem tsanStep_error {e : TsanHalt} (h : tsanStep s c = .error e) :
    (e = .tooManyThreads ∧ ∃ thr, c.thread? = some thr ∧ s.currentTid thr = none ∧
      63 ≤ s.threadCount) ∨
    ∃ thr addr w tid s₁ idx, c.access? = some (thr, addr, w) ∧ TsanEntered s thr tid s₁ ∧
      shadowSlot s₁.shadow addr = some idx ∧ s₁.Races idx tid w ∧
      e = .race ⟨addr, tid, w, (s₁.shadow idx).tid, (s₁.shadow idx).isWrite⟩ := by
  cases hthread : c.thread? with
  | none =>
      cases c with
      | mutexCreate | mutexDestroy => cases h
      | init | access | preLock | postLock | preUnlock | postUnlock => cases hthread
  | some thr =>
      cases hget : tsanGetTid s thr with
      | error e' =>
          obtain ⟨rfl, hnone, hcount⟩ := tsanGetTid_error hget
          cases h.symm.trans (tsanStep_of_getTid_error hthread hget)
          exact Or.inl ⟨rfl, thr, rfl, hnone, hcount⟩
      | ok p =>
          have hs₁ : TsanEntered s thr p.1 p.2 := tsanGetTid_ok_iff.mp hget
          obtain ⟨addr, w, idx, haccess, hrest⟩ := tsanStep_error_of_entered h hthread hs₁
          exact Or.inr ⟨thr, addr, w, p.1, p.2, idx, haccess, hs₁, hrest⟩

/-- **A report, exactly.** -/
theorem tsanStep_race_iff (haccess : c.access? = some (thr, addr, w))
    (h : TsanEntered s thr tid s₁) :
    (∃ r, tsanStep s c = .error (.race r)) ↔
      ∃ idx, shadowSlot s₁.shadow addr = some idx ∧ s₁.Races idx tid w := by
  obtain ⟨-, size, heq⟩ := tsanStep_access s haccess
  rw [heq, tsanAccess_eq h]
  cases hslot : shadowSlot s₁.shadow addr with
  | none => simp
  | some idx =>
      by_cases hraces : s₁.Races idx tid w <;> simp [hraces]

end Step

end Misan
