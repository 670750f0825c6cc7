import Misan.Ubsan
import Misan.Foundation.Printing

/-!
# UBSan reports under threads

`drt_arch_print_string` prints one byte at a time, and other threads may print between any two.
What a handler prints depends on its arguments alone, so between taking `ubsan_lock` and giving it
back it prints, byte after byte, what it prints when it runs alone. A report of a float cast
overflow is printed without the lock.
-/

namespace Misan

/-- What a handler prints within the budget, with nobody else running, and whether it comes to
`drt_spin_unlock` behind it, or runs on in a loop. -/
def ubsanPrinted (budget : Nat) (c : UbsanLockedCall × DrtStackTrace) : PrintPoint Byte :=
  match ubsanLockedRun budget c.1 c.2 ⟨⟨[], []⟩, false⟩ with
  | .error .aborted s => ⟨s.print.out, true⟩
  | .error (.print _) s => ⟨s.print.out, false⟩
  | .ok _ s => ⟨s.print.out, false⟩

def ubsanFloatCastPrinted (budget : Nat) (data : UbsanFloatCastOverflowData) : List Byte :=
  match ubsanHandleFloatCastOverflow budget data ⟨[], []⟩ with
  | .ok _ s => s.out
  | .error _ s => s.out

def ubsanCritical (budget : Nat) :
    Critical (UbsanLockedCall × DrtStackTrace) (PrintPoint Byte) (List Byte) :=
  printing (ubsanPrinted budget)

/-- The threads at the lock, what each has left to print of a report without it, and all that is
printed, each byte with the thread that printed it without the lock. -/
structure UbsanThreads (Thread : Type) where
  locked : Locked Thread (UbsanLockedCall × DrtStackTrace) (PrintPoint Byte) (List Byte)
  casting : Thread → List Byte
  out : List (Option Thread × Byte)

def UbsanThreads.initial (Thread : Type) : UbsanThreads Thread where
  locked := .initial []
  casting := fun _ => []
  out := []

/-- Behind `drt_spin_unlock` a thread stops in `drt_arch_abort`, and only that thread. That it could
go on with another call adds runs and takes none away. -/
inductive UbsanThreadAct (Thread : Type) where
  | call (t : Thread) (call : UbsanLockedCall) (st : DrtStackTrace)
  | step (t : Thread)
  | floatCast (t : Thread) (data : UbsanFloatCastOverflowData)
  | castStep (t : Thread)

def ubsanThreadStep {Thread : Type} [DecidableEq Thread] (budget : Nat) (s : UbsanThreads Thread) :
    UbsanThreadAct Thread → Option (UbsanThreads Thread)
  | .call t call st =>
      if s.casting t = [] then
        (lockStep (ubsanCritical budget) s.locked (.call t (call, st))).map fun locked =>
          { s with locked := locked }
      else none
  | .step t =>
      (lockStep (ubsanCritical budget) s.locked (.step t)).map fun locked =>
        { s with
          locked := locked
          out := s.out ++ (locked.shared.drop s.locked.shared.length).map fun b => (none, b) }
  | .floatCast t data =>
      if (s.locked.phase t).call?.isNone && (s.casting t).isEmpty then
        some { s with
          casting := Function.update s.casting t (ubsanFloatCastPrinted budget data) }
      else none
  | .castStep t =>
      match s.casting t with
      | [] => none
      | b :: left => some
          { s with
            casting := Function.update s.casting t left
            out := s.out ++ [(some t, b)] }

end Misan
