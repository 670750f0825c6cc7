import Misan.Common
import Misan.Foundation.Probing

/-!
# The thread sanitizer runtime

The hooks of `tsan_rtl.c` as one state transition each: their bodies run under `tsan_lock`, and the
part of `tsan_get_tid` before it touches a slot no other thread uses yet. A reported race and a
failed registration abort the process, so they end the run. The type of threads is left open; a
thread is known to the runtime by the identifier its thread-local variable holds.
-/

namespace Misan

abbrev Tid := Fin 64

instance neZero_threads : NeZero 64 := ⟨by decide⟩

abbrev TsanVc := Tid → BitVec 64

structure TsanThread where
  vc : TsanVc
  active : Bool

structure TsanShadow where
  addr : Addr
  vc : TsanVc
  tid : Tid
  isWrite : Bool
  active : Bool

/-- `owner_tid` is `-1` where it is `none` here. -/
structure TsanMutex where
  addr : Addr
  vc : TsanVc
  ownerTid : Option Tid
  active : Bool

abbrev TsanShadowTable := Fin 65536 → TsanShadow

instance neZero_shadows : NeZero 65536 := ⟨by decide⟩

abbrev TsanMutexTable := Fin 1024 → TsanMutex

instance neZero_mutexes : NeZero 1024 := ⟨by decide⟩

structure TsanRace where
  addr : Addr
  tid : Tid
  isWrite : Bool
  otherTid : Tid
  otherIsWrite : Bool
deriving DecidableEq

inductive TsanHalt where
  | race (r : TsanRace)
  | tooManyThreads
deriving DecidableEq

structure TsanState (Thr : Type) where
  threads : Tid → TsanThread
  shadow : TsanShadowTable
  mutexes : TsanMutexTable
  threadCount : Nat
  currentTid : Thr → Option Tid

def TsanState.initial (Thr : Type) : TsanState Thr where
  threads := fun _ => ⟨0, false⟩
  shadow := fun _ => ⟨0, 0, 0, false, false⟩
  mutexes := fun _ => ⟨0, 0, some 0, false⟩
  threadCount := 0
  currentTid := fun _ => none

/-! ### Vector clocks -/

def tsanVcInc (vc : TsanVc) (tid : Tid) : TsanVc := Function.update vc tid (vc tid + 1)

def tsanVcJoin (dst src : TsanVc) : TsanVc := fun i => if src i > dst i then src i else dst i

def tsanVcHappensBefore (a b : TsanVc) (tidA : Tid) : Bool := a tidA ≤ b tidA

/-! ### The tables -/

def tsanShadowHash (addr : Addr) : Fin 65536 :=
  let p := addr ^^^ addr >>> 16
  let p := p ^^^ p >>> 8
  Fin.ofNat 65536 p.toNat

/-- The slot of `addr` and the table afterwards, in which a hole may have become that slot. -/
def tsanShadowGet (table : TsanShadowTable) (addr : Addr) (allocIfMissing : Bool) :
    Option (Fin 65536 × TsanShadowTable) :=
  match probe (fun idx => ((table idx).active && (table idx).addr == addr) ||
      (!(table idx).active && allocIfMissing)) (tsanShadowHash addr) with
  | none => none
  | some idx =>
      if (table idx).active then some (idx, table)
      else some (idx, Function.update table idx { table idx with addr := addr, active := true })

def tsanMutexHash (addr : Addr) : Fin 1024 := Fin.ofNat 1024 (addr.toNat / 8)

def tsanMutexFind (table : TsanMutexTable) (addr : Addr) (alloc : Bool) :
    Option (Fin 1024 × TsanMutexTable) :=
  match probe (fun idx => ((table idx).active && (table idx).addr == addr) ||
      (!(table idx).active && alloc)) (tsanMutexHash addr) with
  | none => none
  | some idx =>
      if (table idx).active then some (idx, table)
      else some (idx, Function.update table idx
        { table idx with addr := addr, active := true, vc := 0 })

section Hooks

variable {Thr : Type} [DecidableEq Thr]

/-! ### Threads -/

/-- The record a thread starts with: it knows of itself alone. -/
def TsanState.register (s : TsanState Thr) (thr : Thr) (tid : Tid) : TsanState Thr :=
  { s with
    threads := Function.update s.threads tid ⟨Function.update 0 tid 1, true⟩
    threadCount := s.threadCount + 1
    currentTid := Function.update s.currentTid thr (some tid) }

/-- The identifiers are handed out from `1` on: the atomic addition returns the new count. -/
def tsanGetTid (s : TsanState Thr) (thr : Thr) : Except TsanHalt (Tid × TsanState Thr) :=
  match s.currentTid thr with
  | some tid => .ok (tid, s)
  | none =>
      if hlt : s.threadCount + 1 < 64 then
        .ok (⟨s.threadCount + 1, hlt⟩, s.register thr ⟨s.threadCount + 1, hlt⟩)
      else .error .tooManyThreads

/-! ### Accesses -/

/-- The nested tests of `tsan_access`. -/
def tsanIsRace (threads : Tid → TsanThread) (shadow : TsanShadow) (addr : Addr) (tid : Tid)
    (isWrite : Bool) : Bool :=
  (shadow.active && shadow.addr == addr) && shadow.tid != tid && (isWrite || shadow.isWrite) &&
    !tsanVcHappensBefore (threads shadow.tid).vc (threads tid).vc shadow.tid &&
    !tsanVcHappensBefore (threads tid).vc (threads shadow.tid).vc tid

/-- The access is recorded, and the clock of its thread moves on. -/
def TsanState.record (s : TsanState Thr) (table : TsanShadowTable) (idx : Fin 65536) (tid : Tid)
    (isWrite : Bool) : TsanState Thr :=
  { s with
    shadow := Function.update table idx
      { table idx with vc := (s.threads tid).vc, tid := tid, isWrite := isWrite }
    threads := Function.update s.threads tid
      { s.threads tid with vc := tsanVcInc (s.threads tid).vc tid } }

def tsanAccess (s : TsanState Thr) (thr : Thr) (addr _size : Addr) (isWrite : Bool) :
    Except TsanHalt (TsanState Thr) := do
  let (tid, s) ← tsanGetTid s thr
  match tsanShadowGet s.shadow addr true with
  | none => pure s
  | some (idx, table) =>
      if tsanIsRace s.threads (table idx) addr tid isWrite then
        throw (.race ⟨addr, tid, isWrite, (table idx).tid, (table idx).isWrite⟩)
      else pure (s.record table idx tid isWrite)

/-! ### Mutexes -/

def tsanMutexCreate (s : TsanState Thr) (addr : Addr) : TsanState Thr :=
  match tsanMutexFind s.mutexes addr true with
  | none => s
  | some (idx, table) =>
      { s with mutexes := Function.update table idx { table idx with ownerTid := none, vc := 0 } }

def tsanMutexDestroy (s : TsanState Thr) (addr : Addr) : TsanState Thr :=
  match tsanMutexFind s.mutexes addr false with
  | none => s
  | some (idx, table) =>
      { s with mutexes := Function.update table idx { table idx with active := false } }

/-- The thread joins the clock of the mutex into its own and becomes the owner. -/
def TsanState.acquire (s : TsanState Thr) (table : TsanMutexTable) (idx : Fin 1024) (tid : Tid) :
    TsanState Thr :=
  { s with
    threads := Function.update s.threads tid
      { s.threads tid with vc := tsanVcJoin (s.threads tid).vc (table idx).vc }
    mutexes := Function.update table idx { table idx with ownerTid := some tid } }

/-- The mutex gets a copy of the thread's clock, moved on by one. -/
def TsanState.release (s : TsanState Thr) (table : TsanMutexTable) (idx : Fin 1024) (tid : Tid) :
    TsanState Thr :=
  { s with
    mutexes := Function.update table idx
      { table idx with vc := tsanVcInc (s.threads tid).vc tid } }

def tsanMutexPreLock (s : TsanState Thr) (thr : Thr) (addr : Addr) (_rw : Int) :
    Except TsanHalt (TsanState Thr) := tsanAccess s thr addr 8 true

def tsanMutexPostLock (s : TsanState Thr) (thr : Thr) (addr : Addr) (_rw : Int) :
    Except TsanHalt (TsanState Thr) := do
  let (tid, s) ← tsanGetTid s thr
  match tsanMutexFind s.mutexes addr false with
  | none => pure s
  | some (idx, table) => pure (s.acquire table idx tid)

def tsanMutexPreUnlock (s : TsanState Thr) (thr : Thr) (addr : Addr) (_rw : Int) :
    Except TsanHalt (TsanState Thr) := tsanAccess s thr addr 8 true

def tsanMutexPostUnlock (s : TsanState Thr) (thr : Thr) (addr : Addr) (_rw : Int) :
    Except TsanHalt (TsanState Thr) := do
  let (tid, s) ← tsanGetTid s thr
  match tsanMutexFind s.mutexes addr false with
  | none => pure s
  | some (idx, table) => pure (s.release table idx tid)

/-! ### Runs -/

/-- A call of a hook. The sized reads and writes, the atomic loads and stores and the two `vptr`
hooks are all a `tsan_access`, and the range hooks are one for each byte. -/
inductive TsanCall (Thr : Type) where
  | init (thr : Thr)
  | access (thr : Thr) (addr size : Addr) (isWrite : Bool)
  | mutexCreate (addr : Addr)
  | mutexDestroy (addr : Addr)
  | preLock (thr : Thr) (addr : Addr) (rw : Int)
  | postLock (thr : Thr) (addr : Addr) (rw : Int)
  | preUnlock (thr : Thr) (addr : Addr) (rw : Int)
  | postUnlock (thr : Thr) (addr : Addr) (rw : Int)
deriving DecidableEq

def tsanStep (s : TsanState Thr) : TsanCall Thr → Except TsanHalt (TsanState Thr)
  | .init thr => do
      let (_, s) ← tsanGetTid s thr
      pure s
  | .access thr addr size isWrite => tsanAccess s thr addr size isWrite
  | .mutexCreate addr => pure (tsanMutexCreate s addr)
  | .mutexDestroy addr => pure (tsanMutexDestroy s addr)
  | .preLock thr addr rw => tsanMutexPreLock s thr addr rw
  | .postLock thr addr rw => tsanMutexPostLock s thr addr rw
  | .preUnlock thr addr rw => tsanMutexPreUnlock s thr addr rw
  | .postUnlock thr addr rw => tsanMutexPostUnlock s thr addr rw

/-- The state after a history of calls, which lists the latest call first. -/
def tsanRun : List (TsanCall Thr) → Except TsanHalt (TsanState Thr)
  | [] => .ok (.initial Thr)
  | c :: history => do
      let s ← tsanRun history
      tsanStep s c

end Hooks

end Misan
