import Misan.TsanHistory

/-!
# The access hooks

What instrumented code calls. Every hook ends in `tsan_access`: the sized ones once, whatever their
size, the range hooks once for each byte, and the atomic ones as a plain access in front of the
memory operation, whatever their memory order.
-/

namespace Misan

section Hooks

variable {Thr : Type} [DecidableEq Thr] (s : TsanState Thr) (thr : Thr) (addr : Addr)

def tsanRead1 := tsanAccess s thr addr 1 false
def tsanRead2 := tsanAccess s thr addr 2 false
def tsanRead4 := tsanAccess s thr addr 4 false
def tsanRead8 := tsanAccess s thr addr 8 false
def tsanRead16 := tsanAccess s thr addr 16 false
def tsanWrite1 := tsanAccess s thr addr 1 true
def tsanWrite2 := tsanAccess s thr addr 2 true
def tsanWrite4 := tsanAccess s thr addr 4 true
def tsanWrite8 := tsanAccess s thr addr 8 true
def tsanWrite16 := tsanAccess s thr addr 16 true
def tsanVptrRead := tsanAccess s thr addr 8 false
def tsanVptrUpdate := tsanAccess s thr addr 8 true

/-- The sizes there is a sized hook for. -/
inductive AccessWidth where
  | w1
  | w2
  | w4
  | w8
  | w16
deriving DecidableEq

def AccessWidth.bytes : AccessWidth → Nat
  | w1 => 1
  | w2 => 2
  | w4 => 4
  | w8 => 8
  | w16 => 16

/-- `__tsan_readN` and `__tsan_writeN`. -/
def tsanSized : AccessWidth → (isWrite : Bool) → Except TsanHalt (TsanState Thr)
  | .w1, false => tsanRead1 s thr addr
  | .w2, false => tsanRead2 s thr addr
  | .w4, false => tsanRead4 s thr addr
  | .w8, false => tsanRead8 s thr addr
  | .w16, false => tsanRead16 s thr addr
  | .w1, true => tsanWrite1 s thr addr
  | .w2, true => tsanWrite2 s thr addr
  | .w4, true => tsanWrite4 s thr addr
  | .w8, true => tsanWrite8 s thr addr
  | .w16, true => tsanWrite16 s thr addr

/-- The loop of the range hooks: `while (a < e) { tsan_access(a, 1, is_write); a++; }` -/
def tsanAccessRange (s : TsanState Thr) (thr : Thr) (a e : Addr) (isWrite : Bool) :
    Except TsanHalt (TsanState Thr) :=
  if a < e then do
    let s ← tsanAccess s thr a 1 isWrite
    tsanAccessRange s thr (a + 1) e isWrite
  else pure s
termination_by e.toNat - a.toNat
decreasing_by
  rename_i hlt
  have hstep := ByteMemory.toNat_add_one_of_lt hlt
  have hae : a.toNat < e.toNat := hlt
  omega

def tsanReadRange (fin : Addr) := tsanAccessRange s thr addr fin false
def tsanWriteRange (fin : Addr) := tsanAccessRange s thr addr fin true

/-- `__tsan_read_range` and `__tsan_write_range`. -/
def tsanRange (fin : Addr) (isWrite : Bool) : Except TsanHalt (TsanState Thr) :=
  if isWrite then tsanWriteRange s thr addr fin else tsanReadRange s thr addr fin

/-! ### Atomics -/

/-- The shape of `__tsan_atomicN_load`: an access, then `*addr`. -/
def tsanAtomicLoad {k : Nat} (size : Addr) (read : Memory → Addr → BitVec k) (m : Memory)
    (_mo : BitVec 32) : Except TsanHalt (BitVec k × TsanState Thr) := do
  let s ← tsanAccess s thr addr size false
  pure (read m addr, s)

/-- The shape of `__tsan_atomicN_store`: an access, then `*addr = val`. -/
def tsanAtomicStore {k : Nat} (size : Addr) (m : Memory) (val : BitVec k) (_mo : BitVec 32) :
    Except TsanHalt (Memory × TsanState Thr) := do
  let s ← tsanAccess s thr addr size true
  pure (m.storeEach addr (ByteMemory.wordByte val) size.toNat, s)

def tsanAtomic8Load (m : Memory) (mo : BitVec 32) : Except TsanHalt (BitVec 8 × TsanState Thr) :=
  tsanAtomicLoad s thr addr 1 (fun m p => m p) m mo

def tsanAtomic16Load (m : Memory) (mo : BitVec 32) : Except TsanHalt (BitVec 16 × TsanState Thr) :=
  tsanAtomicLoad s thr addr 2 (fun m p => m (p + 1) ++ m p) m mo

def tsanAtomic32Load (m : Memory) (mo : BitVec 32) : Except TsanHalt (BitVec 32 × TsanState Thr) :=
  tsanAtomicLoad s thr addr 4 ByteMemory.load32 m mo

def tsanAtomic64Load (m : Memory) (mo : BitVec 32) : Except TsanHalt (BitVec 64 × TsanState Thr) :=
  tsanAtomicLoad s thr addr 8 ByteMemory.load64 m mo

def tsanAtomic8Store (m : Memory) (val : BitVec 8) (mo : BitVec 32) :=
  tsanAtomicStore s thr addr 1 m val mo

def tsanAtomic16Store (m : Memory) (val : BitVec 16) (mo : BitVec 32) :=
  tsanAtomicStore s thr addr 2 m val mo

def tsanAtomic32Store (m : Memory) (val : BitVec 32) (mo : BitVec 32) :=
  tsanAtomicStore s thr addr 4 m val mo

def tsanAtomic64Store (m : Memory) (val : BitVec 64) (mo : BitVec 32) :=
  tsanAtomicStore s thr addr 8 m val mo

end Hooks

/-! ### Runs with atomics -/

inductive AtomicWidth where
  | w8
  | w16
  | w32
  | w64
deriving DecidableEq

def AtomicWidth.bits : AtomicWidth → Nat
  | w8 => 8
  | w16 => 16
  | w32 => 32
  | w64 => 64

def AtomicWidth.bytes : AtomicWidth → Addr
  | w8 => 1
  | w16 => 2
  | w32 => 4
  | w64 => 8

/-- A call of a hook, the atomic ones with their memory order and the memory they find. -/
inductive TsanHook (Thr : Type) where
  | call (c : TsanCall Thr)
  | atomicLoad (width : AtomicWidth) (thr : Thr) (addr : Addr) (m : Memory) (mo : BitVec 32)
  | atomicStore (width : AtomicWidth) (thr : Thr) (addr : Addr) (m : Memory)
      (val : BitVec width.bits) (mo : BitVec 32)

variable {Thr : Type} [DecidableEq Thr]

def hookStep (s : TsanState Thr) : TsanHook Thr → Except TsanHalt (TsanState Thr)
  | .call c => tsanStep s c
  | .atomicLoad .w8 thr addr m mo => (tsanAtomic8Load s thr addr m mo).map Prod.snd
  | .atomicLoad .w16 thr addr m mo => (tsanAtomic16Load s thr addr m mo).map Prod.snd
  | .atomicLoad .w32 thr addr m mo => (tsanAtomic32Load s thr addr m mo).map Prod.snd
  | .atomicLoad .w64 thr addr m mo => (tsanAtomic64Load s thr addr m mo).map Prod.snd
  | .atomicStore .w8 thr addr m val mo => (tsanAtomic8Store s thr addr m val mo).map Prod.snd
  | .atomicStore .w16 thr addr m val mo => (tsanAtomic16Store s thr addr m val mo).map Prod.snd
  | .atomicStore .w32 thr addr m val mo => (tsanAtomic32Store s thr addr m val mo).map Prod.snd
  | .atomicStore .w64 thr addr m val mo => (tsanAtomic64Store s thr addr m val mo).map Prod.snd

/-- The state after a history of hooks, which lists the latest one first. -/
def hookRun : List (TsanHook Thr) → Except TsanHalt (TsanState Thr)
  | [] => .ok (.initial Thr)
  | h :: history => do
      let s ← hookRun history
      hookStep s h

namespace TsanHook

/-- The call a hook is, as far as the runtime's state goes. -/
def toCall : TsanHook Thr → TsanCall Thr
  | .call c => c
  | .atomicLoad width thr addr _ _ => .access thr addr width.bytes false
  | .atomicStore width thr addr _ _ _ => .access thr addr width.bytes true

def atomicWidth? : TsanHook Thr → Option AtomicWidth
  | .call _ => none
  | .atomicLoad width _ _ _ _ | .atomicStore width _ _ _ _ _ => some width

end TsanHook

end Misan
