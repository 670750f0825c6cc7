import Misan.AsanFakeStack
import Misan.Report
import Misan.Foundation.Footprints
import Misan.Foundation.Printing
import Misan.Proof.AsanRefinement

/-!
# The address sanitizer under threads

After initialisation, the hooks by the stores they make to the shadow, one byte at a time, the check
by the one byte it reads, and `asan_report_error` by the bytes it prints under `asan_lock`.
-/

namespace Misan

/-! ### Hooks -/

/-- The stores of a loop body. -/
def ShadowAction.stores : ShadowAction → List (Addr × Byte)
  | .poison beg size => asanPoisonStores beg size asanShadowPoisoned
  | .unpoison beg size => asanUnpoisonStores beg size
  | .register g =>
      asanUnpoisonStores g.beg g.size ++
        asanPoisonStores (g.beg + g.size) (g.sizeWithRedzone - g.size) asanShadowGlobalRedzone
  | .unregister g => asanPoisonStores g.beg g.sizeWithRedzone asanShadowPoisoned

/-- A call that changes the shadow. The six `__asan_set_shadow_*` hooks are `misan_set_shadow` with
their value. -/
inductive AsanHook where
  | call (c : AsanCall)
  | setShadow (addr size : Addr) (val : Byte)

/-- The stores of `misan_set_shadow`. -/
def misanSetShadowStores (addr size : Addr) (val : Byte) : List (Addr × Byte) :=
  (List.range (size >>> 3).toNat).map fun i =>
    ((addr >>> 3) + asanShadowBase + BitVec.ofNat 64 i, val)

def AsanHook.stores : AsanHook → List (Addr × Byte)
  | call c => c.actions.flatMap ShadowAction.stores
  | setShadow addr size val => misanSetShadowStores addr size val

def asanHookStep (mmap : Mmap) (s : AsanState) : AsanHook → AsanState
  | .call c => asanCallStep mmap s c
  | .setShadow addr size val => { s with mem := misanSetShadow s.mem addr size val }

def asanHookRun (mmap : Mmap) (s : AsanState) (hooks : List AsanHook) : AsanState :=
  hooks.foldl (asanHookStep mmap) s

/-! ### Reports -/

/-- What `asan_report_error` prints between taking `asan_lock` and giving it back. -/
def asanReportError (budget : Nat) (r : AsanReport) (st : DrtStackTrace) : Print Unit := do
  drtPrintf budget (bytesOf "\n==ASAN ERROR==\n") []
  drtPrintf budget (bytesOf "  %s of size %zu at %p\n")
    [.str (some (bytesOf r.kind)), .long r.size, .ptr r.addr]
  drtPrintf budget (bytesOf "  Shadow byte value: 0x%02x\n") [.int (r.shadowVal.setWidth 32)]
  drtPrintStackTrace budget st

/-- What it prints within the budget, with nobody else running, and whether it comes to
`drt_spin_unlock` behind it. -/
def asanPrinted (budget : Nat) (c : AsanReport × DrtStackTrace) : PrintPoint Byte :=
  match asanReportError budget c.1 c.2 ⟨[], []⟩ with
  | .ok _ s => ⟨s.out, true⟩
  | .error _ s => ⟨s.out, false⟩

def asanCritical (budget : Nat) :
    Critical (AsanReport × DrtStackTrace) (PrintPoint Byte) (List Byte) :=
  printing (asanPrinted budget)

/-! ### Threads -/

structure AsanShared (Thread : Type) where
  hooks : InFlight Thread AsanHook 64
  locked : Locked Thread (AsanReport × DrtStackTrace) (PrintPoint Byte) (List Byte)

def AsanShared.initial (Thread : Type) (m : Memory) : AsanShared Thread where
  hooks := .initial Thread AsanHook m
  locked := .initial []

/-- The state a check finds. -/
def AsanShared.state {Thread : Type} (s : AsanShared Thread) : AsanState := ⟨s.hooks.mem, true⟩

inductive AsanSharedAct (Thread : Type) where
  | hook (t : Thread) (h : AsanHook)
  | store (t : Thread)
  /-- `st` is the stack a report of the check captures. -/
  | check (t : Thread) (addr size : Addr) (isWrite : Bool) (st : DrtStackTrace)
  | print (t : Thread)

variable {Thread : Type} [DecidableEq Thread]

namespace AsanShared

/-- A thread that has given the lock back is in `drt_arch_abort`, which stops the processor the
thread runs on and no other. -/
def halted (s : AsanShared Thread) (t : Thread) : Bool := s.locked.returned.any fun r => r.1 = t

def idle (s : AsanShared Thread) (t : Thread) : Bool :=
  (s.hooks.pending t).isNone && (s.locked.phase t).call?.isNone && !s.halted t

def onHooks (s : AsanShared Thread) (act : FlightAct Thread AsanHook) :
    Option (AsanShared Thread) :=
  (flightStep AsanHook.stores s.hooks act).map fun hooks => { s with hooks := hooks }

def atLock (budget : Nat) (s : AsanShared Thread)
    (act : LockAct Thread (AsanReport × DrtStackTrace)) : Option (AsanShared Thread) :=
  (lockStep (asanCritical budget) s.locked act).map fun locked => { s with locked := locked }

end AsanShared

def asanSharedStep (budget : Nat) (s : AsanShared Thread) :
    AsanSharedAct Thread → Option (AsanShared Thread)
  | .hook t h => if s.idle t then s.onHooks (.call t h) else none
  | .store t => s.onHooks (.step t)
  | .check t addr size isWrite st =>
      if s.idle t then
        match asanCheckAccess s.state addr size isWrite with
        | none => some s
        | some report => s.atLock budget (.call t (report, st))
      else none
  | .print t => s.atLock budget (.step t)

end Misan
