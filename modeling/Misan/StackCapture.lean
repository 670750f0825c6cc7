import Misan.Common

/-!
# Capturing a stack

`drt_arch_capture_stack_trace` follows the saved frame pointers. The frames lie in memory the
runtime does not own, so the memory may be another one at each read: other threads write to it, and
a corrupted chain may lead through the trace that is being filled.
-/

namespace Misan

/-- `rbp`, what is left of `skip`, and `*out`. -/
structure StackCapture where
  rbp : Addr
  skip : Addr
  pcs : Fin misanMaxStackFrames → Addr
  count : Nat

inductive CaptureEnd where
  | ended (s : StackCapture)
  | outOfBounds
  | outOfSteps

/-- `out->pcs[out->count++] = pc`, if there is such an entry. -/
def StackCapture.push (s : StackCapture) (pc : Addr) : Option StackCapture :=
  if h : s.count < misanMaxStackFrames then
    some { s with pcs := Function.update s.pcs ⟨s.count, h⟩ pc, count := s.count + 1 }
  else none

/-- The loop, with at most the given number of steps left. In its step `i` it reads `*(rbp + 1)`
from the memory `memory (2 * i)` and `*rbp` from `memory (2 * i + 1)`. -/
def captureLoop (memory : Nat → Memory) : Nat → Nat → StackCapture → CaptureEnd
  | 0, _, s =>
      if s.rbp ≠ 0 ∧ s.count < misanMaxStackFrames then .outOfSteps else .ended s
  | steps + 1, i, s =>
      if s.rbp ≠ 0 ∧ s.count < misanMaxStackFrames then
        let pushed :=
          if s.skip ≠ 0 then some { s with skip := s.skip - 1 }
          else s.push ((memory (2 * i)).load64 (s.rbp + 8))
        match pushed with
        | none => .outOfBounds
        | some s =>
            captureLoop memory steps (i + 1)
              { s with rbp := (memory (2 * i + 1)).load64 s.rbp }
      else .ended s

/-- The trace holds whatever it held when the count is reset. -/
def drtArchCaptureStackTrace (memory : Nat → Memory) (steps : Nat) (rbp skip : Addr)
    (pcs : Fin misanMaxStackFrames → Addr) : CaptureEnd :=
  captureLoop memory steps 0 ⟨rbp, skip, pcs, 0⟩

end Misan
