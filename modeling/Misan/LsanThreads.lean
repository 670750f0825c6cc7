import Misan.LsanHistory
import Misan.LsanOutput

/-!
# The leak sanitizer under threads

The tables as the arrays and counts they are, and the code between `drt_spin_lock(&lsan_lock)` and
`drt_spin_unlock(&lsan_lock)` one store and one printed byte at a time. `__lsan_register_alloc` and
`__lsan_unregister_alloc` read `lsan_disabled` before they take the lock, and `__lsan_disable` and
`__lsan_enable` write it without taking it.
-/

namespace Misan

/-- What `lsan_lock` guards, and what is printed under it. The arrays are indexed as C indexes them;
no index reaches behind the counts' bounds. -/
structure LsanTables where
  allocs : Nat → LsanAlloc
  allocCount : Nat
  roots : Nat → LsanRoot
  rootCount : Nat
  out : List Byte
  allocCount_le : allocCount ≤ lsanMaxAllocs
  rootCount_le : rootCount ≤ lsanMaxRoots

namespace LsanTables

def initial : LsanTables where
  allocs := fun _ => ⟨0, 0, .active, false, ⟨[], Nat.zero_le _⟩⟩
  allocCount := 0
  roots := fun _ => ⟨0, 0⟩
  rootCount := 0
  out := []
  allocCount_le := Nat.zero_le _
  rootCount_le := Nat.zero_le _

def storeAlloc (t : LsanTables) (i : Nat) (store : LsanAlloc → LsanAlloc) : LsanTables :=
  { t with allocs := Function.update t.allocs i (store (t.allocs i)) }

def storeRoot (t : LsanTables) (i : Nat) (store : LsanRoot → LsanRoot) : LsanTables :=
  { t with roots := Function.update t.roots i (store (t.roots i)) }

/-- The tables cut to their counts. -/
def state (t : LsanTables) : LsanState where
  allocs := (List.range t.allocCount).map t.allocs
  roots := (List.range t.rootCount).map t.roots
  lsanDisabled := false
  allocs_le := by
    rw [List.length_map, List.length_range]
    exact t.allocCount_le
  roots_le := by
    rw [List.length_map, List.length_range]
    exact t.rootCount_le

end LsanTables

/-- The calls that take the lock. A check finds the program's memory as `m`. -/
inductive LsanOp where
  | registerAlloc (addr size : Addr) (stack : DrtStackTrace)
  | unregisterAlloc (addr : Addr)
  | registerRootRegion (p size : Addr)
  | unregisterRootRegion (p size : Addr)
  | ignoreObject (p : Addr)
  | check (m : Memory)

/-- Where a call is between taking the lock and giving it back. -/
inductive LsanPoint where
  | registerTest (addr size : Addr) (stack : DrtStackTrace)
  | registerStores (idx : Nat) (stores : List (LsanAlloc → LsanAlloc))
  | unregisterScan (addr : Addr) (i : Nat)
  | unregisterStore (i : Nat)
  | rootTest (p size : Addr)
  | rootStores (idx : Nat) (stores : List (LsanRoot → LsanRoot))
  | rootScan (p : Addr) (i : Nat)
  | rootCount (i : Nat)
  | rootCopy (i last : Nat)
  | ignoreScan (p : Addr) (i : Nat)
  | ignoreStore (i : Nat)
  | checkScan (m : Memory) (i leaksFound : Nat) (reports : List LsanAlloc)
  | checkPrint (m : Memory) (i leaksFound : Nat) (reports : List LsanAlloc) (left : PrintPoint Byte)
  | done
  | checked (leaksFound : Nat) (reports : List LsanAlloc)

def LsanOp.enter : LsanOp → LsanPoint
  | registerAlloc addr size stack => .registerTest addr size stack
  | unregisterAlloc addr => .unregisterScan addr 0
  | registerRootRegion p size => .rootTest p size
  | unregisterRootRegion p _size => .rootScan p 0
  | ignoreObject p => .ignoreScan p 0
  | check m => .checkScan m 0 0 []

/-- The stores to `lsan_allocs[idx]`, in their order. -/
def registerStores (addr size : Addr) (stack : DrtStackTrace) : List (LsanAlloc → LsanAlloc) :=
  [fun a => { a with addr := addr }, fun a => { a with size := size },
    fun a => { a with state := .active }, fun a => { a with ignored := false },
    fun a => { a with stack := stack }]

/-- The stores to `lsan_roots[idx]`. -/
def rootStores (p size : Addr) : List (LsanRoot → LsanRoot) :=
  [fun r => { r with addr := p }, fun r => { r with size := size }]

/-- One step of the code under the lock. -/
def lsanPointStep (budget : Nat) (t : LsanTables) : LsanPoint → Option (LsanPoint × LsanTables)
  | .registerTest addr size stack =>
      if hfull : t.allocCount ≥ lsanMaxAllocs then some (.done, t)
      else some (.registerStores t.allocCount (registerStores addr size stack),
        { t with allocCount := t.allocCount + 1, allocCount_le := Nat.lt_of_not_le hfull })
  | .registerStores _ [] => some (.done, t)
  | .registerStores idx (store :: stores) =>
      some (.registerStores idx stores, t.storeAlloc idx store)
  | .unregisterScan addr i =>
      if i < t.allocCount then
        if (t.allocs i).addr == addr && (t.allocs i).state == .active then
          some (.unregisterStore i, t)
        else some (.unregisterScan addr (i + 1), t)
      else some (.done, t)
  | .unregisterStore i => some (.done, t.storeAlloc i fun a => { a with state := .freed })
  | .rootTest p size =>
      if hroom : t.rootCount < lsanMaxRoots then
        some (.rootStores t.rootCount (rootStores p size),
          { t with rootCount := t.rootCount + 1, rootCount_le := hroom })
      else some (.done, t)
  | .rootStores _ [] => some (.done, t)
  | .rootStores idx (store :: stores) => some (.rootStores idx stores, t.storeRoot idx store)
  | .rootScan p i =>
      if i < t.rootCount then
        if (t.roots i).addr == p then some (.rootCount i, t) else some (.rootScan p (i + 1), t)
      else some (.done, t)
  | .rootCount i =>
      some (.rootCopy i (t.rootCount - 1),
        { t with
          rootCount := t.rootCount - 1
          rootCount_le := (Nat.sub_le _ _).trans t.rootCount_le })
  | .rootCopy i last => some (.done, t.storeRoot i fun _ => t.roots last)
  | .ignoreScan p i =>
      if i < t.allocCount then
        if (t.allocs i).addr == p then some (.ignoreStore i, t)
        else some (.ignoreScan p (i + 1), t)
      else some (.done, t)
  | .ignoreStore i => some (.done, t.storeAlloc i fun a => { a with ignored := true })
  | .checkScan m i leaksFound reports =>
      if i < t.allocCount then
        if (t.allocs i).state ≠ .active then some (.checkScan m (i + 1) leaksFound reports, t)
        else if (t.allocs i).ignored then some (.checkScan m (i + 1) leaksFound reports, t)
        else if !lsanMarkReachable t.state m (t.allocs i) then
          some (.checkPrint m i (leaksFound + 1) (reports ++ [t.allocs i])
            (lsanPrinted budget (t.allocs i)), t)
        else some (.checkScan m (i + 1) leaksFound reports, t)
      else some (.checked leaksFound reports, t)
  | .checkPrint m i leaksFound reports left =>
      match printPointStep t.out left with
      | some (left, out) => some (.checkPrint m i leaksFound reports left, { t with out := out })
      | none => some (.checkScan m (i + 1) leaksFound reports, t)
  | .done | .checked _ _ => none

def lsanCritical (budget : Nat) : Critical LsanOp LsanPoint LsanTables where
  enter := LsanOp.enter
  step l t := lsanPointStep budget t l

/-! ### The flag -/

/-- `if (lsan_disabled) return;` stands before the lock. -/
def LsanOp.looks : LsanOp → Bool
  | registerAlloc _ _ _ | unregisterAlloc _ => true
  | _ => false

/-- The call in a history, when it is one that changes anything. -/
def LsanOp.call? : LsanOp → Option LsanCall
  | registerAlloc addr size stack => some (.registerAlloc addr size stack)
  | unregisterAlloc addr => some (.unregisterAlloc addr)
  | registerRootRegion p size => some (.registerRootRegion p size)
  | unregisterRootRegion p size => some (.unregisterRootRegion p size)
  | ignoreObject p => some (.ignoreObject p)
  | check _ => none

/-- The flag, the threads at the lock, and those that have yet to look at the flag. A call enters
`history`, the latest first, when it stores to the flag, finds it set or gives the lock back. -/
structure LsanThreads (Thread : Type) where
  lsanDisabled : Bool
  locked : Locked Thread LsanOp LsanPoint LsanTables
  looking : Thread → Option LsanOp
  history : List (Thread × LsanCall)

inductive LsanThreadAct (Thread : Type) where
  | disable (t : Thread)
  | enable (t : Thread)
  | call (t : Thread) (op : LsanOp)
  | look (t : Thread)
  | step (t : Thread)

namespace LsanThreads

variable {Thread : Type}

def initial (Thread : Type) : LsanThreads Thread where
  lsanDisabled := false
  locked := .initial .initial
  looking := fun _ => none
  history := []

/-- The thread is in no call. -/
def idle (s : LsanThreads Thread) (t : Thread) : Bool :=
  (s.looking t).isNone && (s.locked.phase t).call?.isNone

def enters (s : LsanThreads Thread) (t : Thread) (calls : Option LsanCall) :
    LsanThreads Thread :=
  { s with history := calls.toList.map (fun c => (t, c)) ++ s.history }

variable [DecidableEq Thread]

def atLock (budget : Nat) (s : LsanThreads Thread) (act : LockAct Thread LsanOp) :
    Option (LsanThreads Thread) :=
  (lockStep (lsanCritical budget) s.locked act).map fun locked => { s with locked := locked }

def setLooking (s : LsanThreads Thread) (t : Thread) (op : Option LsanOp) : LsanThreads Thread :=
  { s with looking := Function.update s.looking t op }

end LsanThreads

def lsanThreadStep {Thread : Type} [DecidableEq Thread] (budget : Nat) (s : LsanThreads Thread) :
    LsanThreadAct Thread → Option (LsanThreads Thread)
  | .disable t =>
      if s.idle t then some { s.enters t (some .disable) with lsanDisabled := true } else none
  | .enable t =>
      if s.idle t then some { s.enters t (some .enable) with lsanDisabled := false } else none
  | .call t op =>
      if s.idle t then
        if op.looks then some (s.setLooking t (some op)) else s.atLock budget (.call t op)
      else none
  | .look t =>
      match s.looking t with
      | none => none
      | some op =>
          if s.lsanDisabled then some ((s.setLooking t none).enters t op.call?)
          else (s.setLooking t none).atLock budget (.call t op)
  | .step t =>
      (s.enters t ((s.locked.releases (lsanCritical budget) (.step t)).bind LsanOp.call?)).atLock
        budget (.step t)

end Misan
