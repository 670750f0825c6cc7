import Misan.Foundation.Copying

/-!
# The common infrastructure

What every runtime shares: 64-bit addresses, the memory behind them, captured stacks, and the
platform hook that maps a shadow region. The kernel's `mmap` is not part of the sources, so it is a
parameter here, with its documented behaviour as a named hypothesis.
-/

namespace Misan

/-- `uintptr_t`, and `size_t` with it. -/
abbrev Addr := BitVec 64

abbrev Memory := ByteMemory 64

abbrev Byte := BitVec 8

def byteOf (c : Char) : Byte := BitVec.ofNat 8 c.toNat

/-- The addresses a program itself can use, `0` excluded. -/
def userHalf : Set Addr := {a | 0 < a ∧ a.toNat < 2 ^ 47}

/-- `drt_memset(dst, c, n)`. -/
def drtMemset (m : Memory) (dst : Addr) (c : BitVec 32) (n : Addr) : Memory :=
  m.fillBytes dst (c.setWidth 8) n.toNat

/-- `drt_memcpy(dst, src, n)`. -/
def drtMemcpy (m : Memory) (dst src n : Addr) : Memory :=
  m.copyBytes dst src n.toNat

def misanMaxStackFrames : Nat := 32

/-- `drt_stack_trace_t`, with `pcs` cut to the first `count` entries. -/
structure DrtStackTrace where
  pcs : List Addr
  count_le : pcs.length ≤ misanMaxStackFrames

def mapPrivate : Nat := 0x02
def mapFixed : Nat := 0x10
def mapAnonymous : Nat := 0x20
def mapNoreserve : Nat := 0x4000
def mapFixedNoreplace : Nat := 0x100000
def protRead : Nat := 1
def protWrite : Nat := 2

/-- `mmap(addr, length, prot, flags, -1, 0)`: the memory afterwards, or `MAP_FAILED`. -/
abbrev Mmap := Memory → (addr length : Addr) → (prot flags : Nat) → Option Memory

/-- An anonymous mapping changes bytes inside the mapped range only, and those it changes read as
zero. -/
def Mmap.ZeroFills (mmap : Mmap) : Prop :=
  ∀ m addr length prot flags m', mmap m addr length prot flags = some m' →
    ∀ x, m' x ≠ m x → x - addr < length ∧ m' x = 0

/-- The default `drt_arch_map_shadow_memory`, with the memory it leaves. -/
def drtArchMapShadowMemory (mmap : Mmap) (m : Memory) (addr size : Addr) : Memory × Int :=
  let addr := if addr = 0 then 0x7fff8000 else addr
  let size := if size = 0 then 0x100000000000 - addr else size
  let prot := protRead ||| protWrite
  let flags := mapPrivate ||| mapAnonymous ||| mapNoreserve
  match mmap m addr size prot (flags ||| mapFixedNoreplace) with
  | some m' => (m', 0)
  | none =>
      match mmap m addr size prot (flags ||| mapFixed) with
      | some m' => (m', 0)
      | none => (m, -1)

theorem Mmap.ZeroFills.eq_or_zero {mmap : Mmap} (hmmap : mmap.ZeroFills) {m m' : Memory}
    {addr length : Addr} {prot flags : Nat} (hmapped : mmap m addr length prot flags = some m')
    (x : Addr) : m' x = m x ∨ m' x = 0 := by
  by_cases hsame : m' x = m x
  · exact Or.inl hsame
  · exact Or.inr (hmmap _ _ _ _ _ _ hmapped x hsame).2

theorem drtArchMapShadowMemory_eq_or_zero {mmap : Mmap} (hmmap : mmap.ZeroFills) (m : Memory)
    (addr size x : Addr) :
    (drtArchMapShadowMemory mmap m addr size).1 x = m x ∨
      (drtArchMapShadowMemory mmap m addr size).1 x = 0 := by
  unfold drtArchMapShadowMemory
  dsimp only
  split
  · rename_i m' hfirst
    exact hmmap.eq_or_zero hfirst x
  · split
    · rename_i m' hsecond
      exact hmmap.eq_or_zero hsecond x
    · exact Or.inl rfl

end Misan
