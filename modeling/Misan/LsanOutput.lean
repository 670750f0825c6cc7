import Misan.Lsan
import Misan.Report
import Misan.Foundation.Printing

/-!
# What a leak check prints

`lsan_do_check_internal` prints each leak where its loop finds it, and the message of `drt_die`
behind the last one.
-/

namespace Misan

def lsanPrintLeak (budget : Nat) (a : LsanAlloc) : Print Unit := do
  drtPrintf budget (bytesOf "\n==LSAN: LEAK DETECTED==\n") []
  drtPrintf budget (bytesOf "  Address: %p  Size: %zu bytes\n") [.ptr a.addr, .long a.size]
  drtPrintStackTrace budget a.stack

/-- The loop of `lsan_do_check_internal` from one entry on, with what it prints. -/
def lsanPrintLoop (budget : Nat) (s : LsanState) (m : Memory) : List LsanAlloc → Nat → Print Nat
  | [], leaksFound => pure leaksFound
  | a :: rest, leaksFound =>
      if a.state ≠ .active then lsanPrintLoop budget s m rest leaksFound
      else if a.ignored then lsanPrintLoop budget s m rest leaksFound
      else if !lsanMarkReachable s m a then do
        lsanPrintLeak budget a
        lsanPrintLoop budget s m rest (leaksFound + 1)
      else lsanPrintLoop budget s m rest leaksFound

/-- What the report of a leak prints within the budget, with nobody else running, and whether it
comes to its end. -/
def lsanPrinted (budget : Nat) (a : LsanAlloc) : PrintPoint Byte :=
  match lsanPrintLeak budget a ⟨[], []⟩ with
  | .ok _ s => ⟨s.out, true⟩
  | .error _ s => ⟨s.out, false⟩

/-- The entries whose reports that loop begins within the budget. It gets behind a report only when
the report comes to its end. -/
def lsanBegun (budget : Nat) (s : LsanState) (m : Memory) : List LsanAlloc → List LsanAlloc
  | [] => []
  | a :: rest =>
      if a.state ≠ .active then lsanBegun budget s m rest
      else if a.ignored then lsanBegun budget s m rest
      else if !lsanMarkReachable s m a then
        a :: if (lsanPrinted budget a).ends then lsanBegun budget s m rest else []
      else lsanBegun budget s m rest

/-- The end of `lsan_do_check_internal`, behind the lock. -/
def lsanPrintEnd (budget : Nat) (fatal : Bool) (leaksFound : Nat) : Print (Option Nat) :=
  if leaksFound ≠ 0 && fatal then do
    let _ ← drtDie budget (bytesOf "LSan: %d leak(s) found\n") [.int (BitVec.ofNat 32 leaksFound)]
    pure none
  else pure (some leaksFound)

/-- `lsan_do_check_internal` with what it prints: the value it returned, or `none` when it ended in
`drt_die`. -/
def lsanPrintCheck (budget : Nat) (s : LsanState) (m : Memory) (fatal : Bool) :
    Print (Option Nat) := do
  let leaksFound ← lsanPrintLoop budget s m s.allocs 0
  lsanPrintEnd budget fatal leaksFound

end Misan
