import Misan.Common
import Misan.Foundation.Runs

/-!
# The bump allocator

`drt_internal_alloc`, by any number of threads at once. A call loads the counter, tests the new
value it computes from it, and puts that value in place by a compare-exchange, or starts over. The
type of threads is left open.
-/

namespace Misan

def drtBumpPoolSize : Addr := 256 * 1024

/-- Where the linker put `drt_bump_pool`. The address one past its end is a pointer too. -/
structure DrtBumpPool where
  base : Addr
  aligned : base.toNat % 4096 = 0
  fits : base.toNat + drtBumpPoolSize.toNat < 2 ^ 64

/-- Where a thread is in `drt_internal_alloc`. -/
inductive AllocPhase where
  | outside
  | looping (size : Addr)
  | loaded (size old newv : Addr)
  | dying
deriving DecidableEq

structure BumpState (Thr : Type) where
  used : Addr
  phase : Thr → AllocPhase
  /-- The blocks returned, as pointer and requested size, the latest first. -/
  blocks : List (Addr × Addr)

def BumpState.initial (Thr : Type) : BumpState Thr where
  used := 0
  phase := fun _ => .outside
  blocks := []

inductive BumpAct (Thr : Type) where
  | call (thr : Thr) (size : Addr)
  | load (thr : Thr)
  | exchange (thr : Thr)

/-- `(old + mask) & ~mask` and `+ size`. -/
def drtBumpNewv (old size : Addr) : Addr :=
  let align : Addr := 8
  let mask := align - 1
  ((old + mask) &&& ~~~mask) + size

variable {Thr : Type} [DecidableEq Thr]

def BumpState.enter (s : BumpState Thr) (thr : Thr) (phase : AllocPhase) : BumpState Thr :=
  { s with phase := Function.update s.phase thr phase }

def bumpStep (pool : DrtBumpPool) (s : BumpState Thr) : BumpAct Thr → Option (BumpState Thr)
  | .call thr size =>
      match s.phase thr with
      | .outside => some (s.enter thr (.looping size))
      | _ => none
  | .load thr =>
      match s.phase thr with
      | .looping size =>
          let newv := drtBumpNewv s.used size
          if newv > drtBumpPoolSize then some (s.enter thr .dying)
          else some (s.enter thr (.loaded size s.used newv))
      | _ => none
  | .exchange thr =>
      match s.phase thr with
      | .loaded size old newv =>
          if s.used = old then
            some { s.enter thr .outside with
              used := newv
              blocks := (pool.base + (newv - size), size) :: s.blocks }
          else some (s.enter thr (.looping size))
      | _ => none

def bumpRun (pool : DrtBumpPool) (history : List (BumpAct Thr)) : Option (BumpState Thr) :=
  runFrom (bumpStep pool) (.initial Thr) history

/-- `drt_internal_alloc` in one thread alone, where the compare-exchange succeeds at once: the
pointer, and the counter behind the block. Without a result if the call dies. -/
def drtInternalAlloc (pool : DrtBumpPool) (used size : Addr) : Option (Addr × Addr) :=
  let newv := drtBumpNewv used size
  if newv > drtBumpPoolSize then none else some (pool.base + (newv - size), newv)

/-! ### With resets -/

inductive BumpResetAct (Thr : Type) where
  | act (a : BumpAct Thr)
  | reset

/-- `drt_internal_alloc_reset` gives all blocks up, while other threads may be anywhere in
`drt_internal_alloc`. What is kept of the blocks are those returned since. -/
def drtInternalAllocReset (s : BumpState Thr) : BumpState Thr := { s with used := 0, blocks := [] }

def bumpResetStep (pool : DrtBumpPool) (s : BumpState Thr) :
    BumpResetAct Thr → Option (BumpState Thr)
  | .act a => bumpStep pool s a
  | .reset => some (drtInternalAllocReset s)

def bumpResetRun (pool : DrtBumpPool) (history : List (BumpResetAct Thr)) :
    Option (BumpState Thr) :=
  runFrom (bumpResetStep pool) (.initial Thr) history

end Misan
