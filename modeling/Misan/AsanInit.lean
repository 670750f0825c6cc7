import Misan.Asan
import Misan.Foundation.Runs

/-!
# Initialization by any number of threads

The steps of `__asan_init`, `__asan_register_globals` and `asan_check_access`, between which other
threads may run: the test of the flag, the exchange, the mapping, each turn of the registration
loop, and the check behind its test. Each of the three functions is entered with its first look at
the flag, since nothing before that is shared.
-/

namespace Misan

/-- What a thread does next. Inside `__asan_init`, the globals are those its caller registers
afterwards. -/
inductive AsanPhase where
  | outside
  | exchanging (globals : List AsanGlobal)
  | mapping (globals : List AsanGlobal)
  | registering (g : AsanGlobal) (globals : List AsanGlobal)
  | checking (addr size : Addr) (isWrite : Bool)
  | reporting (report : AsanReport)

/-- The registration loop with these globals left. -/
def AsanPhase.loop : List AsanGlobal → AsanPhase
  | [] => .outside
  | g :: globals => .registering g globals

/-- Behind the check: `asan_report_error` does not return. -/
def AsanPhase.behindCheck : Option AsanReport → AsanPhase
  | none => .outside
  | some report => .reporting report

structure AsanThreads (Thr : Type) extends AsanState where
  /-- What the calls of `drt_arch_map_shadow_memory` returned, the latest first. -/
  mapResults : List Int
  phase : Thr → AsanPhase

def AsanThreads.initial (Thr : Type) (m : Memory) : AsanThreads Thr where
  mem := m
  asanInitialized := false
  mapResults := []
  phase := fun _ => .outside

inductive AsanAct (Thr : Type) where
  | init (thr : Thr)
  | register (thr : Thr) (globals : List AsanGlobal)
  | check (thr : Thr) (addr size : Addr) (isWrite : Bool)
  | step (thr : Thr)

variable {Thr : Type} [DecidableEq Thr]

namespace AsanThreads

def enter (s : AsanThreads Thr) (thr : Thr) (phase : AsanPhase) : AsanThreads Thr :=
  { s with phase := Function.update s.phase thr phase }

/-- `__atomic_exchange_n(&asan_initialized, 1)`, and on to the mapping if it was `0`. -/
def exchange (s : AsanThreads Thr) (thr : Thr) (globals : List AsanGlobal) : AsanThreads Thr :=
  if s.asanInitialized then s.enter thr (.loop globals)
  else { s.enter thr (.mapping globals) with asanInitialized := true }

def map (mmap : Mmap) (s : AsanThreads Thr) (thr : Thr) (globals : List AsanGlobal) :
    AsanThreads Thr :=
  let mapped := drtArchMapShadowMemory mmap s.mem asanShadowBase (1 <<< 47)
  { s.enter thr (.loop globals) with
    mem := mapped.1
    mapResults := mapped.2 :: s.mapResults }

end AsanThreads

def asanStep (mmap : Mmap) (s : AsanThreads Thr) : AsanAct Thr → Option (AsanThreads Thr)
  | .init thr =>
      match s.phase thr with
      | .outside => some (s.exchange thr [])
      | _ => none
  | .register thr globals =>
      match s.phase thr with
      | .outside =>
          if !s.asanInitialized then some (s.enter thr (.exchanging globals))
          else some (s.enter thr (.loop globals))
      | _ => none
  | .check thr addr size isWrite =>
      match s.phase thr with
      | .outside =>
          if !s.asanInitialized then some s
          else some (s.enter thr (.checking addr size isWrite))
      | _ => none
  | .step thr =>
      match s.phase thr with
      | .exchanging globals => some (s.exchange thr globals)
      | .mapping globals => some (s.map mmap thr globals)
      | .registering g globals => some
          { s.enter thr (.loop globals) with mem := asanRegisterGlobal s.mem g }
      | .checking addr size isWrite =>
          let behindTest := { s.toAsanState with asanInitialized := true }
          some (s.enter thr (.behindCheck (asanCheckAccess behindTest addr size isWrite)))
      | _ => none

def asanRun (mmap : Mmap) (m : Memory) (history : List (AsanAct Thr)) :
    Option (AsanThreads Thr) :=
  runFrom (asanStep mmap) (.initial Thr m) history

end Misan
