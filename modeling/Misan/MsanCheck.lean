import Misan.Msan
import Misan.Report

/-!
# The memory sanitizer's check

The operations of a program on its shadow and origins, one after the other, and the check that reads
them back. A check that finds an uninitialized byte prints a report and aborts, so what it returns
depends on the printer.
-/

namespace Misan

inductive MsanCall where
  | poison (addr size : Addr)
  | unpoison (addr size : Addr)
  | setOrigin (addr size : Addr) (originId : BitVec 32)

def msanStep (msanTrackOrigins : Bool) (m : Memory) : MsanCall → Memory
  | .poison addr size => msanPoison m addr size
  | .unpoison addr size => msanUnpoison msanTrackOrigins m addr size
  | .setOrigin addr size originId => msanSetOrigin msanTrackOrigins m addr size originId

/-- The memory after a history of calls, which lists the latest call first. -/
def msanRun (msanTrackOrigins : Bool) (m : Memory) : List MsanCall → Memory
  | [] => m
  | c :: history => msanStep msanTrackOrigins (msanRun msanTrackOrigins m history) c

def msanMaxOrigins : Nat := 65536

structure MsanOrigin where
  stack : DrtStackTrace
  timestamp : BitVec 64
  active : Bool

/-- What a report reads besides its arguments: the memory with the origin words, the flag, the table
of origins, and the stack captured at the access. -/
structure MsanReportEnv where
  memory : Memory
  msanTrackOrigins : Bool
  msanOrigins : Fin msanMaxOrigins → MsanOrigin
  stack : DrtStackTrace

/-- The origin id a report for `addr` reads. -/
def MsanReportEnv.originId (env : MsanReportEnv) (addr : Addr) : BitVec 32 :=
  env.memory.load32 (msanOriginPtr addr)

def msanReportOrigin (budget : Nat) (env : MsanReportEnv) (oid : BitVec 32) : Print Unit :=
  if h : oid ≠ 0 ∧ oid.toNat < msanMaxOrigins then
    let origin := env.msanOrigins ⟨oid.toNat, h.2⟩
    if origin.active then do
      drtPrintf budget (bytesOf "  Origin: #%u  Timestamp: %llu\n")
        [.int oid, .longLong origin.timestamp]
      drtPuts (bytesOf "  Origin stack:\n")
      drtPrintStackTrace budget origin.stack
    else pure ()
  else pure ()

def msanReportUninit (budget : Nat) (env : MsanReportEnv) (addr size : Addr) : Print Unit := do
  drtPrintf budget (bytesOf "\n==MSAN: USE OF UNINITIALIZED MEMORY==\n") []
  drtPrintf budget (bytesOf "  Address: %p  Size: %zu\n") [.ptr addr, .long size]
  if env.msanTrackOrigins then msanReportOrigin budget env (env.originId addr) else pure ()
  drtPuts (bytesOf "  Access stack:\n")
  drtPrintStackTrace budget env.stack

/-- The loop of `__msan_check_mem_is_initialized` from index `i` on: the arguments of the report it
ends with, if it ends with one. -/
def msanCheckLoop (m : Memory) (addr size : Addr) : Nat → Nat → Option (Addr × Addr)
  | 0, _ => none
  | left + 1, i =>
      if m (msanShadowPtr addr + BitVec.ofNat 64 i) ≠ msanInitialized then
        some (addr + BitVec.ofNat 64 i, size - BitVec.ofNat 64 i)
      else msanCheckLoop m addr size left (i + 1)

def msanCheckMem (m : Memory) (addr size : Addr) : Option (Addr × Addr) :=
  if addr = 0 ∨ size = 0 then none else msanCheckLoop m addr size size.toNat 0

def msanCheckMemIsInitialized (budget : Nat) (env : MsanReportEnv) (addr size : Addr) :
    Print DrtExit :=
  match msanCheckMem env.memory addr size with
  | none => pure .returned
  | some (first, rest) => do
      msanReportUninit budget env first rest
      pure .aborted

end Misan
