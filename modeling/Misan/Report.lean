import Misan.Printf

/-!
# Report printing

What the runtimes print their reports with, on top of `drt_vprintf`. Each `drt_printf` reads its own
variadic arguments.
-/

namespace Misan

/-- A string literal of the sources, without its terminator. -/
def bytesOf (s : String) : List Byte := s.toList.map byteOf

def drtPrintf (budget : Nat) (fmt : List Byte) (args : List VaArg) : Print Unit := do
  modify fun st => { st with ap := args }
  drtVprintf budget fmt

/-- The loop of `drt_print_stack_trace` from frame `i` on. -/
def drtPrintFrames (budget : Nat) : Nat → List Addr → Print Unit
  | _, [] => pure ()
  | i, pc :: pcs => do
      drtPrintf budget (bytesOf "  #%zu  0x%p\n") [.long (BitVec.ofNat 64 i), .ptr pc]
      drtPrintFrames budget (i + 1) pcs

def drtPrintStackTrace (budget : Nat) (st : DrtStackTrace) : Print Unit := do
  drtPuts (bytesOf "Stack trace:\n")
  drtPrintFrames budget 0 st.pcs

/-- How a runtime function ends: `drt_arch_abort` does not return. -/
inductive DrtExit where
  | returned
  | aborted
deriving DecidableEq

def drtDie (budget : Nat) (fmt : List Byte) (args : List VaArg) : Print DrtExit := do
  drtPuts (bytesOf "\n[MISAN FATAL] ")
  drtPrintf budget fmt args
  drtPuts (bytesOf "\n")
  pure .aborted

end Misan
