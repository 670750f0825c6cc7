import Misan.Common

/-!
# The address sanitizer runtime

One shadow byte describes a grain of eight application bytes: `0` when all eight may be accessed,
`k` in `1..7` when only the first `k` may, and anything from `8` on when none may.
-/

namespace Misan

def asanShadowScale : Nat := 3
def asanShadowGrain : Addr := 1 <<< asanShadowScale
def asanShadowMask : Addr := asanShadowGrain - 1
def asanShadowBase : Addr := 0xFFFF800000000000

def asanShadowUnpoisoned : BitVec 8 := 0x00
def asanShadowStackLeft : BitVec 8 := 0xF1
def asanShadowGlobalRedzone : BitVec 8 := 0xF9
def asanShadowPoisoned : BitVec 8 := 0xFF

structure AsanState where
  mem : Memory
  asanInitialized : Bool

def asanMemToShadow (addr : Addr) : Addr :=
  asanShadowBase + (addr >>> asanShadowScale)

def asanShadowToMem (shadow : Addr) : Addr :=
  (shadow - asanShadowBase) <<< asanShadowScale

def asanShadowGet (m : Memory) (addr : Addr) : BitVec 8 :=
  m (asanMemToShadow addr)

def asanPoisonRange (m : Memory) (beg size : Addr) (val : BitVec 8) : Memory :=
  if size = 0 then m
  else
    let fin := beg + size
    let shadowBeg := asanMemToShadow beg
    let shadowEnd := asanMemToShadow (fin - 1) + 1
    let m := m.fillUpTo shadowBeg shadowEnd val
    let grainBeg := beg &&& ~~~asanShadowMask
    if grainBeg ≠ beg then
      m.store (asanMemToShadow grainBeg) (((beg - grainBeg) &&& 0x7).setWidth 8)
    else m

def asanUnpoisonRange (m : Memory) (beg size : Addr) : Memory :=
  if size = 0 then m
  else
    let fin := beg + size
    let shadowBeg := asanMemToShadow beg
    let shadowEnd := asanMemToShadow (fin - 1) + 1
    m.fillUpTo shadowBeg shadowEnd asanShadowUnpoisoned

/-- What `asan_report_error` is called with. It never returns. -/
structure AsanReport where
  kind : String
  addr : Addr
  size : Addr
  shadowVal : BitVec 8
deriving DecidableEq

/-- `none` when the check returns, the report it makes otherwise. -/
def asanCheckAccess (s : AsanState) (addr size : Addr) (isWrite : Bool) : Option AsanReport :=
  if !s.asanInitialized then none
  else
    let grain := addr &&& ~~~asanShadowMask
    let shadow := asanShadowGet s.mem grain
    let report : AsanReport := ⟨if isWrite then "WRITE" else "READ", addr, size, shadow⟩
    if shadow = asanShadowUnpoisoned then none
    else if shadow > 0 ∧ shadow.setWidth 64 < asanShadowGrain then
      let accessible : Addr := shadow.setWidth 64
      if (addr - grain) + size ≤ accessible then none else some report
    else some report

/-! ### The instrumented-access hooks -/

def asanReportLoad1 (s : AsanState) (addr : Addr) := asanCheckAccess s addr 1 false
def asanReportLoad2 (s : AsanState) (addr : Addr) := asanCheckAccess s addr 2 false
def asanReportLoad4 (s : AsanState) (addr : Addr) := asanCheckAccess s addr 4 false
def asanReportLoad8 (s : AsanState) (addr : Addr) := asanCheckAccess s addr 8 false
def asanReportLoad16 (s : AsanState) (addr : Addr) := asanCheckAccess s addr 16 false
def asanReportLoadN (s : AsanState) (addr size : Addr) := asanCheckAccess s addr size false
def asanReportStore1 (s : AsanState) (addr : Addr) := asanCheckAccess s addr 1 true
def asanReportStore2 (s : AsanState) (addr : Addr) := asanCheckAccess s addr 2 true
def asanReportStore4 (s : AsanState) (addr : Addr) := asanCheckAccess s addr 4 true
def asanReportStore8 (s : AsanState) (addr : Addr) := asanCheckAccess s addr 8 true
def asanReportStore16 (s : AsanState) (addr : Addr) := asanCheckAccess s addr 16 true
def asanReportStoreN (s : AsanState) (addr size : Addr) := asanCheckAccess s addr size true

/-- The shape of `__asan_loadN` and `__asan_storeN`, which test the flag a second time. -/
def asanGuardedAccess (s : AsanState) (addr size : Addr) (isWrite : Bool) : Option AsanReport :=
  if s.asanInitialized then asanCheckAccess s addr size isWrite else none

def asanLoad1 (s : AsanState) (addr : Addr) := asanGuardedAccess s addr 1 false
def asanLoad2 (s : AsanState) (addr : Addr) := asanGuardedAccess s addr 2 false
def asanLoad4 (s : AsanState) (addr : Addr) := asanGuardedAccess s addr 4 false
def asanLoad8 (s : AsanState) (addr : Addr) := asanGuardedAccess s addr 8 false
def asanLoad16 (s : AsanState) (addr : Addr) := asanGuardedAccess s addr 16 false
def asanStore1 (s : AsanState) (addr : Addr) := asanGuardedAccess s addr 1 true
def asanStore2 (s : AsanState) (addr : Addr) := asanGuardedAccess s addr 2 true
def asanStore4 (s : AsanState) (addr : Addr) := asanGuardedAccess s addr 4 true
def asanStore8 (s : AsanState) (addr : Addr) := asanGuardedAccess s addr 8 true
def asanStore16 (s : AsanState) (addr : Addr) := asanGuardedAccess s addr 16 true

/-- The second test of the flag changes nothing. -/
theorem asanGuardedAccess_eq (s : AsanState) (addr size : Addr) (isWrite : Bool) :
    asanGuardedAccess s addr size isWrite = asanCheckAccess s addr size isWrite := by
  cases hinit : s.asanInitialized <;> simp [asanGuardedAccess, asanCheckAccess, hinit]

/-! ### The interposed copies -/

/-- `__asan_memcpy`, with the memory it leaves. It looks at no shadow. -/
def asanMemcpy (m : Memory) (dest src n : Addr) : Memory × Addr :=
  (drtMemcpy m dest src n, dest)

def asanMemset (m : Memory) (s : Addr) (c : BitVec 32) (n : Addr) : Memory × Addr :=
  (drtMemset m s c n, s)

/-! ### Regions, globals and shadow fillers -/

def asanPoisonMemoryRegion (s : AsanState) (addr size : Addr) : AsanState :=
  { s with mem := asanPoisonRange s.mem addr size asanShadowPoisoned }

def asanUnpoisonMemoryRegion (s : AsanState) (addr size : Addr) : AsanState :=
  { s with mem := asanUnpoisonRange s.mem addr size }

def asanAddressIsPoisoned (s : AsanState) (addr : Addr) : Bool :=
  asanShadowGet s.mem addr != asanShadowUnpoisoned

def asanInit (mmap : Mmap) (s : AsanState) : AsanState :=
  if s.asanInitialized then s
  else
    { mem := (drtArchMapShadowMemory mmap s.mem asanShadowBase (1 <<< 47)).1
      asanInitialized := true }

/-- The fields of `__asan_global` the runtime reads. -/
structure AsanGlobal where
  beg : Addr
  size : Addr
  sizeWithRedzone : Addr
deriving DecidableEq

/-- The body of the loop in `__asan_register_globals`. -/
def asanRegisterGlobal (m : Memory) (g : AsanGlobal) : Memory :=
  asanPoisonRange (asanUnpoisonRange m g.beg g.size)
    (g.beg + g.size) (g.sizeWithRedzone - g.size) asanShadowGlobalRedzone

/-- The body of the loop in `__asan_unregister_globals`. -/
def asanUnregisterGlobal (m : Memory) (g : AsanGlobal) : Memory :=
  asanPoisonRange m g.beg g.sizeWithRedzone asanShadowPoisoned

def asanRegisterGlobals (mmap : Mmap) (s : AsanState) (globals : List AsanGlobal) : AsanState :=
  let s := if !s.asanInitialized then asanInit mmap s else s
  { s with mem := globals.foldl asanRegisterGlobal s.mem }

def asanUnregisterGlobals (s : AsanState) (globals : List AsanGlobal) : AsanState :=
  { s with mem := globals.foldl asanUnregisterGlobal s.mem }

def misanSetShadow (m : Memory) (addr size : Addr) (val : BitVec 8) : Memory :=
  m.fillBytes ((addr >>> 3) + asanShadowBase) val (size >>> 3).toNat

def asanSetShadow00 (m : Memory) (addr size : Addr) := misanSetShadow m addr size 0x00
def asanSetShadowF1 (m : Memory) (addr size : Addr) := misanSetShadow m addr size 0xf1
def asanSetShadowF2 (m : Memory) (addr size : Addr) := misanSetShadow m addr size 0xf2
def asanSetShadowF3 (m : Memory) (addr size : Addr) := misanSetShadow m addr size 0xf3
def asanSetShadowF5 (m : Memory) (addr size : Addr) := misanSetShadow m addr size 0xf5
def asanSetShadowF8 (m : Memory) (addr size : Addr) := misanSetShadow m addr size 0xf8

end Misan
