import Misan.TsanHistory
import Misan.Foundation.Locking

/-!
# The thread sanitizer under threads

The code between `drt_spin_lock(&tsan_lock)` and `drt_spin_unlock(&tsan_lock)` one store at a time,
and in front of it `tsan_get_tid`, which gives a thread its identifier and fills its record without
the lock. A copy or a fill of a clock is one store. The thread-local variable is written together
with the atomic addition its value comes from: no other thread reads it.
-/

namespace Misan

structure TsanTables where
  threads : Tid → TsanThread
  shadow : TsanShadowTable
  mutexes : TsanMutexTable

def TsanState.tables {Thr : Type} (s : TsanState Thr) : TsanTables :=
  ⟨s.threads, s.shadow, s.mutexes⟩

namespace TsanTables

def storeThread (t : TsanTables) (tid : Tid) (store : TsanThread → TsanThread) : TsanTables :=
  { t with threads := Function.update t.threads tid (store (t.threads tid)) }

def storeShadow (t : TsanTables) (idx : Fin 65536) (store : TsanShadow → TsanShadow) :
    TsanTables :=
  { t with shadow := Function.update t.shadow idx (store (t.shadow idx)) }

def storeMutex (t : TsanTables) (idx : Fin 1024) (store : TsanMutex → TsanMutex) : TsanTables :=
  { t with mutexes := Function.update t.mutexes idx (store (t.mutexes idx)) }

end TsanTables

/-! ### Under the lock -/

/-- The arguments of `tsan_access` behind `tsan_get_tid`. -/
structure TsanAccess where
  tid : Tid
  addr : Addr
  isWrite : Bool
deriving DecidableEq

/-- Where a call is between taking the lock and giving it back. A report ends in `drt_arch_abort`,
with the lock still taken. -/
inductive TsanPoint where
  | shadowProbe (a : TsanAccess) (idx : Fin 65536)
  | claimAddr (a : TsanAccess) (idx : Fin 65536)
  | claimActive (a : TsanAccess) (idx : Fin 65536)
  | raceCheck (a : TsanAccess) (idx : Fin 65536)
  | recordVc (a : TsanAccess) (idx : Fin 65536)
  | recordTid (a : TsanAccess) (idx : Fin 65536)
  | recordWrite (a : TsanAccess) (idx : Fin 65536)
  | recordInc (a : TsanAccess)
  | reporting (r : TsanRace)
  | createProbe (addr : Addr) (idx : Fin 1024)
  | createAddr (addr : Addr) (idx : Fin 1024)
  | createActive (idx : Fin 1024)
  | createVc (idx : Fin 1024)
  | createOwner (idx : Fin 1024)
  | createZero (idx : Fin 1024)
  | destroyProbe (addr : Addr) (idx : Fin 1024)
  | destroyStore (idx : Fin 1024)
  | lockProbe (tid : Tid) (addr : Addr) (idx : Fin 1024)
  | lockJoin (tid : Tid) (idx : Fin 1024) (i : Nat)
  | lockOwner (tid : Tid) (idx : Fin 1024)
  | unlockProbe (tid : Tid) (addr : Addr) (idx : Fin 1024)
  | unlockCopy (tid : Tid) (idx : Fin 1024)
  | unlockInc (tid : Tid) (idx : Fin 1024)
  | done
deriving DecidableEq

/-- The loop of `tsan_mutex_find`, from `idx` on. -/
def tsanMutexProbe (t : TsanTables) (addr : Addr) (alloc : Bool) (idx : Fin 1024)
    (found hole : TsanPoint) (next : Fin 1024 → TsanPoint) : TsanPoint :=
  if (t.mutexes idx).active && (t.mutexes idx).addr == addr then found
  else if !(t.mutexes idx).active && alloc then hole
  else if idx + 1 = tsanMutexHash addr then .done
  else next (idx + 1)

/-- One step of the code under the lock. -/
def tsanPointStep (t : TsanTables) : TsanPoint → Option (TsanPoint × TsanTables)
  | .shadowProbe a idx =>
      if (t.shadow idx).active && (t.shadow idx).addr == a.addr then some (.raceCheck a idx, t)
      else if !(t.shadow idx).active then some (.claimAddr a idx, t)
      else if idx + 1 = tsanShadowHash a.addr then some (.done, t)
      else some (.shadowProbe a (idx + 1), t)
  | .claimAddr a idx =>
      some (.claimActive a idx, t.storeShadow idx fun e => { e with addr := a.addr })
  | .claimActive a idx =>
      some (.raceCheck a idx, t.storeShadow idx fun e => { e with active := true })
  | .raceCheck a idx =>
      if tsanIsRace t.threads (t.shadow idx) a.addr a.tid a.isWrite then
        some (.reporting
          ⟨a.addr, a.tid, a.isWrite, (t.shadow idx).tid, (t.shadow idx).isWrite⟩, t)
      else some (.recordVc a idx, t)
  | .recordVc a idx =>
      some (.recordTid a idx, t.storeShadow idx fun e => { e with vc := (t.threads a.tid).vc })
  | .recordTid a idx =>
      some (.recordWrite a idx, t.storeShadow idx fun e => { e with tid := a.tid })
  | .recordWrite a idx =>
      some (.recordInc a, t.storeShadow idx fun e => { e with isWrite := a.isWrite })
  | .recordInc a =>
      some (.done, t.storeThread a.tid fun r => { r with vc := tsanVcInc r.vc a.tid })
  | .reporting r => some (.reporting r, t)
  | .createProbe addr idx =>
      some (tsanMutexProbe t addr true idx (.createOwner idx) (.createAddr addr idx)
        (.createProbe addr), t)
  | .createAddr addr idx =>
      some (.createActive idx, t.storeMutex idx fun m => { m with addr := addr })
  | .createActive idx => some (.createVc idx, t.storeMutex idx fun m => { m with active := true })
  | .createVc idx => some (.createOwner idx, t.storeMutex idx fun m => { m with vc := 0 })
  | .createOwner idx =>
      some (.createZero idx, t.storeMutex idx fun m => { m with ownerTid := none })
  | .createZero idx => some (.done, t.storeMutex idx fun m => { m with vc := 0 })
  | .destroyProbe addr idx =>
      some (tsanMutexProbe t addr false idx (.destroyStore idx) .done (.destroyProbe addr), t)
  | .destroyStore idx => some (.done, t.storeMutex idx fun m => { m with active := false })
  | .lockProbe tid addr idx =>
      some (tsanMutexProbe t addr false idx (.lockJoin tid idx 0) .done (.lockProbe tid addr), t)
  | .lockJoin tid idx i =>
      if hi : i < 64 then
        some (.lockJoin tid idx (i + 1),
          if (t.mutexes idx).vc ⟨i, hi⟩ > (t.threads tid).vc ⟨i, hi⟩ then
            t.storeThread tid fun r =>
              { r with vc := Function.update r.vc ⟨i, hi⟩ ((t.mutexes idx).vc ⟨i, hi⟩) }
          else t)
      else some (.lockOwner tid idx, t)
  | .lockOwner tid idx => some (.done, t.storeMutex idx fun m => { m with ownerTid := some tid })
  | .unlockProbe tid addr idx =>
      some (tsanMutexProbe t addr false idx (.unlockCopy tid idx) .done (.unlockProbe tid addr), t)
  | .unlockCopy tid idx =>
      some (.unlockInc tid idx, t.storeMutex idx fun m => { m with vc := (t.threads tid).vc })
  | .unlockInc tid idx =>
      some (.done, t.storeMutex idx fun m => { m with vc := tsanVcInc m.vc tid })
  | .done => none

variable {Thr : Type}

/-- Where a call begins under the lock, with the identifier of its thread. Creating and destroying a
mutex do not ask for it. -/
def TsanCall.point (c : TsanCall Thr) (tid : Tid) : TsanPoint :=
  match c with
  | init _ => .done
  | access _ addr _ isWrite => .shadowProbe ⟨tid, addr, isWrite⟩ (tsanShadowHash addr)
  | preLock _ addr _ | preUnlock _ addr _ => .shadowProbe ⟨tid, addr, true⟩ (tsanShadowHash addr)
  | mutexCreate addr => .createProbe addr (tsanMutexHash addr)
  | mutexDestroy addr => .destroyProbe addr (tsanMutexHash addr)
  | postLock _ addr _ => .lockProbe tid addr (tsanMutexHash addr)
  | postUnlock _ addr _ => .unlockProbe tid addr (tsanMutexHash addr)

def tsanCritical (Thr : Type) : Critical (TsanCall Thr × Tid) TsanPoint TsanTables where
  enter c := c.1.point c.2
  step l t := tsanPointStep t l

/-! ### In front of it -/

/-- The stores of a registration to `tsan_threads[tid]`, the fill of the clock word by word. -/
def tsanRegisterStores (tid : Tid) : List (TsanThread → TsanThread) :=
  (fun r => { r with active := true }) ::
    ((List.finRange 64).map fun i r => { r with vc := Function.update r.vc i 0 }) ++
      [fun r => { r with vc := Function.update r.vc tid 1 }]

/-- Where a thread is in `tsan_get_tid`. -/
inductive TsanEntry (Thr : Type) where
  | idle
  | entering (c : TsanCall Thr)
  | registering (c : TsanCall Thr) (tid : Tid) (stores : List (TsanThread → TsanThread))
  /-- In `drt_die`. -/
  | dead (c : TsanCall Thr)

/-- What the threads have done, as calls that take effect one after another. -/
inductive TsanEvent (Thr : Type) where
  | registered (thr : Thr)
  | returned (thr : Thr) (c : TsanCall Thr)

def TsanEvent.call : TsanEvent Thr → TsanCall Thr
  | registered thr => .init thr
  | returned _ c => c

/-- An event is noted, the latest first, when a thread is given an identifier, and when a call gives
the lock back. -/
structure TsanThreads (Thr : Type) where
  threadCount : Nat
  currentTid : Thr → Option Tid
  entry : Thr → TsanEntry Thr
  locked : Locked Thr (TsanCall Thr × Tid) TsanPoint TsanTables
  events : List (TsanEvent Thr)

inductive TsanThreadAct (Thr : Type) where
  | call (thr : Thr) (c : TsanCall Thr)
  | step (thr : Thr)

namespace TsanThreads

def initial (Thr : Type) : TsanThreads Thr where
  threadCount := 0
  currentTid := fun _ => none
  entry := fun _ => .idle
  locked := .initial (TsanState.initial Thr).tables
  events := []

variable [DecidableEq Thr]

def enter (s : TsanThreads Thr) (thr : Thr) (entry : TsanEntry Thr) : TsanThreads Thr :=
  { s with entry := Function.update s.entry thr entry }

def atLock (s : TsanThreads Thr) (act : LockAct Thr (TsanCall Thr × Tid)) :
    Option (TsanThreads Thr) :=
  (lockStep (tsanCritical Thr) s.locked act).map fun locked => { s with locked := locked }

/-- Behind `tsan_get_tid`. -/
def proceed (s : TsanThreads Thr) (thr : Thr) (c : TsanCall Thr) (tid : Tid) :
    Option (TsanThreads Thr) :=
  match c with
  | .init _ => some { s.enter thr .idle with events := .returned thr c :: s.events }
  | _ => (s.enter thr .idle).atLock (.call thr (c, tid))

/-- `drt_atomic_add` returns the new count. -/
def register (s : TsanThreads Thr) (thr : Thr) (c : TsanCall Thr) : TsanThreads Thr :=
  if hlt : s.threadCount + 1 < 64 then
    let tid : Tid := ⟨s.threadCount + 1, hlt⟩
    { s.enter thr (.registering c tid (tsanRegisterStores tid)) with
      threadCount := s.threadCount + 1
      currentTid := Function.update s.currentTid thr (some tid)
      events := .registered thr :: s.events }
  else { s.enter thr (.dead c) with threadCount := s.threadCount + 1 }

def idle (s : TsanThreads Thr) (thr : Thr) : Bool :=
  match s.entry thr with
  | .idle => (s.locked.phase thr).call?.isNone
  | _ => false

end TsanThreads

end Misan
