import Misan.Asan
import Misan.Foundation.Runs

/-!
# The fake stack

The steps of `asan_fake_stack_alloc` and `asan_fake_stack_free`, between which other threads may
run: each exchange on an `in_use` flag, each store to the shadow, and the store that lowers the flag
again. Every allocation is an actor of its own, together with the free that ends it. A thread is any
number of them; that it makes its calls one after another only leaves interleavings out.
-/

namespace Misan

def asanFakeStackSize : Nat := 64 * 1024
def asanFakeStackCount : Nat := 16

/-- `sizeof(asan_fake_stack_t)`: `in_use`, padding and `alloc_size` lie behind `mem`. -/
def asanFakeStackStride : Nat := asanFakeStackSize + 16

abbrev FakeStackIdx := Fin asanFakeStackCount

instance neZero_fakeStacks : NeZero asanFakeStackCount := ⟨by decide⟩

/-- `asan_fake_stacks[i].mem`, with the array at `base`. -/
def fakeStackMem (base : Addr) (i : FakeStackIdx) : Addr :=
  base + BitVec.ofNat 64 (asanFakeStackStride * i)

/-! ### The range operations, store by store -/

/-- The stores of `asan_unpoison_range`. -/
def asanUnpoisonStores (beg size : Addr) : List (Addr × Byte) :=
  if size = 0 then []
  else
    ByteMemory.pointerStores (asanMemToShadow beg) (asanMemToShadow (beg + size - 1) + 1)
      asanShadowUnpoisoned

/-- The stores of `asan_poison_range`. -/
def asanPoisonStores (beg size : Addr) (val : Byte) : List (Addr × Byte) :=
  if size = 0 then []
  else
    let grainBeg := beg &&& ~~~asanShadowMask
    ByteMemory.pointerStores (asanMemToShadow beg) (asanMemToShadow (beg + size - 1) + 1) val ++
      (if grainBeg ≠ beg then
        [(asanMemToShadow grainBeg, ((beg - grainBeg) &&& 0x7).setWidth 8)]
      else [])

/-- `__asan_handle_no_return`, while no other thread runs. -/
def asanHandleNoReturn (base : Addr) (inUse : FakeStackIdx → Bool) (m : Memory) : Memory :=
  (List.finRange asanFakeStackCount).foldl
    (fun m i =>
      if inUse i then
        asanPoisonRange m (fakeStackMem base i) (BitVec.ofNat 64 asanFakeStackSize)
          asanShadowPoisoned
      else m) m

/-! ### Allocations -/

/-- A slot with the size it was asked for. -/
structure FakeStackUse where
  slot : FakeStackIdx
  size : Addr
deriving DecidableEq

/-- What an allocation does next, with the stores it has left to make. -/
inductive FakeStackPhase where
  | idle
  | scanning (i : Nat) (size : Addr)
  | unpoisoning (u : FakeStackUse) (stores : List (Addr × Byte))
  | held (u : FakeStackUse)
  | poisoning (u : FakeStackUse) (stores : List (Addr × Byte))

/-- From the exchange that takes the slot to the store that gives it back. -/
def FakeStackPhase.use? : FakeStackPhase → Option FakeStackUse
  | unpoisoning u _ | held u | poisoning u _ => some u
  | _ => none

structure FakeStacks (Alloc : Type) where
  mem : Memory
  inUse : FakeStackIdx → Bool
  phase : Alloc → FakeStackPhase

def FakeStacks.initial (Alloc : Type) (m : Memory) : FakeStacks Alloc where
  mem := m
  inUse := fun _ => false
  phase := fun _ => .idle

inductive FakeStackAct (Alloc : Type) where
  | alloc (a : Alloc) (size : Addr)
  | free (a : Alloc)
  | step (a : Alloc)

def FakeStackAct.actor {Alloc : Type} : FakeStackAct Alloc → Alloc
  | alloc a _ | free a | step a => a

variable {Alloc : Type} [DecidableEq Alloc]

namespace FakeStacks

def enter (s : FakeStacks Alloc) (a : Alloc) (phase : FakeStackPhase) : FakeStacks Alloc :=
  { s with phase := Function.update s.phase a phase }

/-- Behind a successful exchange. -/
def claim (base : Addr) (s : FakeStacks Alloc) (a : Alloc) (u : FakeStackUse) :
    FakeStacks Alloc :=
  { s.enter a (.unpoisoning u (asanUnpoisonStores (fakeStackMem base u.slot) u.size)) with
    inUse := Function.update s.inUse u.slot true }

def store (s : FakeStacks Alloc) (st : Addr × Byte) : FakeStacks Alloc :=
  { s with mem := s.mem.store st.1 st.2 }

/-- `__atomic_store_n(&asan_fake_stacks[idx].in_use, 0)`. -/
def release (s : FakeStacks Alloc) (a : Alloc) (u : FakeStackUse) : FakeStacks Alloc :=
  { s.enter a .idle with inUse := Function.update s.inUse u.slot false }

end FakeStacks

/-- An allocation is freed with the index it returned, which passes the test of its range, and with
the size it was made with. One that finds no slot returns null. -/
def fakeStackStep (base : Addr) (s : FakeStacks Alloc) :
    FakeStackAct Alloc → Option (FakeStacks Alloc)
  | .alloc a size =>
      match s.phase a with
      | .idle => some (s.enter a (.scanning 0 size))
      | _ => none
  | .free a =>
      match s.phase a with
      | .held u => some (s.enter a (.poisoning u
          (asanPoisonStores (fakeStackMem base u.slot) u.size asanShadowStackLeft)))
      | _ => none
  | .step a =>
      match s.phase a with
      | .scanning i size =>
          if h : i < asanFakeStackCount then
            if s.inUse ⟨i, h⟩ then some (s.enter a (.scanning (i + 1) size))
            else some (s.claim base a ⟨⟨i, h⟩, size⟩)
          else some (s.enter a .idle)
      | .unpoisoning u [] => some (s.enter a (.held u))
      | .unpoisoning u (st :: stores) => some ((s.enter a (.unpoisoning u stores)).store st)
      | .poisoning u [] => some (s.release a u)
      | .poisoning u (st :: stores) => some ((s.enter a (.poisoning u stores)).store st)
      | _ => none

def fakeStackRun (base : Addr) (m : Memory) (history : List (FakeStackAct Alloc)) :
    Option (FakeStacks Alloc) :=
  runFrom (fakeStackStep base) (.initial Alloc m) history

end Misan
