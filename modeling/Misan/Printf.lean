import Misan.Common
import Misan.Foundation.Budget

/-!
# The printer

`drt_vprintf` and the functions under it. A computation carries the bytes printed so far and the
arguments not yet taken. It stops short when a loop has used up its budget, or when it does what the
language leaves undefined: a read past the terminator, a store past the digit buffer, a signed
overflow, an argument of the wrong type. How a compiled printer goes on from there is up to the
machine, and is modelled with it.
-/

namespace Misan

inductive PrintFault where
  | readPastEnd
  | bufferOverflow
  | signedOverflow
  | badArgument
deriving DecidableEq

inductive PrintStop where
  | fault (f : PrintFault)
  | outOfBudget
deriving DecidableEq

/-- A variadic argument, by its type after promotion. `size_t` and `ptrdiff_t` are the `long`
types. -/
inductive VaArg where
  | int (v : BitVec 32)
  | long (v : BitVec 64)
  | longLong (v : BitVec 64)
  | ptr (v : Addr)
  | str (s : Option (List Byte))

structure PrintState where
  out : List Byte
  ap : List VaArg

abbrev Print := EStateM PrintStop PrintState

/-- `drt_arch_print_string` prints up to the terminator. -/
def drtArchPrintString (str : List Byte) : Print Unit :=
  modify fun st => { st with out := st.out ++ str.takeWhile (· ≠ 0) }

def drtPutchar (c : Byte) : Print Unit := drtArchPrintString [c, 0]

def drtPuts (s : List Byte) : Print Unit := drtArchPrintString s

def digitsLower : List Byte :=
  ['0', '1', '2', '3', '4', '5', '6', '7', '8', '9', 'a', 'b', 'c', 'd', 'e', 'f'].map byteOf

def digitsUpper : List Byte :=
  ['0', '1', '2', '3', '4', '5', '6', '7', '8', '9', 'A', 'B', 'C', 'D', 'E', 'F'].map byteOf

def digitByte (upper : Bool) (d : Nat) : Byte :=
  (if upper then digitsUpper else digitsLower).getD d 0

/-- `do { buf[i++] = digits[n % base]; n /= base; } while (n);`, the last digit stored first in the
list. -/
def drtDigitLoop (base : Nat) (upper : Bool) : Nat → Nat → List Byte → Print (List Byte)
  | 0, _, _ => throw .outOfBudget
  | budget + 1, n, buf =>
      if 32 ≤ buf.length then throw (.fault .bufferOverflow)
      else if n / base ≠ 0 then
        drtDigitLoop base upper budget (n / base) (digitByte upper (n % base) :: buf)
      else pure (digitByte upper (n % base) :: buf)

/-- `while (i < width) drt_putchar(pad);` -/
def drtPadLoop (i width : Int) (pad : Byte) : Nat → Print Unit
  | 0 => throw .outOfBudget
  | budget + 1 =>
      if i < width then do
        drtPutchar pad
        drtPadLoop i width pad budget
      else pure ()

/-- `while (i--) drt_putchar(buf[i]);` -/
def drtOutLoop : List Byte → Print Unit
  | [] => pure ()
  | c :: buf => do
      drtPutchar c
      drtOutLoop buf

def drtPutn (budget : Nat) (n : BitVec 64) (base : Nat) (width : Int) (pad : Byte)
    (upper : Bool) : Print Unit := do
  let buf ← drtDigitLoop base upper budget n.toNat []
  drtPadLoop buf.length width pad budget
  drtOutLoop buf

def intMax : Int := 2 ^ 31 - 1

/-- A signed result, if it fits an `int`. The printer only computes nonnegative ones. -/
def checkedInt (z : Int) : Print Int :=
  if -intMax - 1 ≤ z ∧ z ≤ intMax then pure z else throw (.fault .signedOverflow)

/-- `-n` on `long long`, undefined at the minimum. -/
def checkedNeg (n : BitVec 64) : Print (BitVec 64) :=
  if n = BitVec.intMin 64 then throw (.fault .signedOverflow) else pure (-n)

def drtPutsn (budget : Nat) (n : BitVec 64) (base : Nat) (width : Int) (pad : Byte) :
    Print Unit :=
  if n.toInt < 0 then do
    drtPutchar (byteOf '-')
    let n ← checkedNeg n
    drtPutn budget n base (if width > 0 then width - 1 else width) pad false
  else drtPutn budget n base width pad false

/-! ### Reading the format and the arguments -/

/-- `*p`, with the format's terminator behind its last character and nothing behind that. -/
def drtRead (fmt : List Byte) (p : Nat) : Print Byte :=
  match fmt[p]? with
  | some c => pure c
  | none => if p = fmt.length then pure 0 else throw (.fault .readPastEnd)

def vaInt : Print (BitVec 32) := fun st =>
  match st.ap with
  | .int v :: ap => .ok v { st with ap := ap }
  | _ => .error (.fault .badArgument) st

def vaLong : Print (BitVec 64) := fun st =>
  match st.ap with
  | .long v :: ap => .ok v { st with ap := ap }
  | _ => .error (.fault .badArgument) st

def vaLongLong : Print (BitVec 64) := fun st =>
  match st.ap with
  | .longLong v :: ap => .ok v { st with ap := ap }
  | _ => .error (.fault .badArgument) st

def vaPtr : Print Addr := fun st =>
  match st.ap with
  | .ptr v :: ap => .ok v { st with ap := ap }
  | _ => .error (.fault .badArgument) st

def vaStr : Print (Option (List Byte)) := fun st =>
  match st.ap with
  | .str s :: ap => .ok s { st with ap := ap }
  | _ => .error (.fault .badArgument) st

/-- The argument of `%d`: `long long`, `long`, `ptrdiff_t` or a sign-extended `int`. -/
def vaSigned (longness : Nat) : Print (BitVec 64) :=
  if longness = 2 then vaLongLong
  else if longness = 1 then vaLong
  else if longness = 3 then vaLong
  else do
    let v ← vaInt
    pure (v.signExtend 64)

/-- The argument of `%u`, `%x` and `%X`. -/
def vaUnsigned (longness : Nat) : Print (BitVec 64) :=
  if longness = 2 then vaLongLong
  else if longness = 1 then vaLong
  else if longness = 3 then vaLong
  else do
    let v ← vaInt
    pure (v.setWidth 64)

/-- `if (*p == c) { x = v; p++; }` -/
def drtSkip {α : Type} (fmt : List Byte) (c : Byte) (v : α) (p : Nat) (x : α) :
    Print (Nat × α) := do
  let c' ← drtRead fmt p
  if c' = c then pure (p + 1, v) else pure (p, x)

/-- The width loop: `width = width * 10 + (*p - '0')` over the digits at `p`. -/
def drtWidthLoop (fmt : List Byte) : Nat → Nat → Int → Print (Nat × Int)
  | 0, _, _ => throw .outOfBudget
  | budget + 1, p, width => do
      let c ← drtRead fmt p
      if byteOf '0' ≤ c ∧ c ≤ byteOf '9' then do
        let scaled ← checkedInt (width * 10)
        let width ← checkedInt (scaled + (c.toNat - (byteOf '0').toNat))
        drtWidthLoop fmt budget (p + 1) width
      else pure (p, width)

def nullString : List Byte := ['(', 'n', 'u', 'l', 'l', ')'].map byteOf

def drtConvert (budget : Nat) (c : Byte) (width : Int) (pad : Byte) (longness : Nat) :
    Print Unit :=
  if c = byteOf 'd' then do
    let v ← vaSigned longness
    drtPutsn budget v 10 width pad
  else if c = byteOf 'u' then do
    let v ← vaUnsigned longness
    drtPutn budget v 10 width pad false
  else if c = byteOf 'x' then do
    let v ← vaUnsigned longness
    drtPutn budget v 16 width pad false
  else if c = byteOf 'X' then do
    let v ← vaUnsigned longness
    drtPutn budget v 16 width pad true
  else if c = byteOf 'p' then do
    drtPuts [byteOf '0', byteOf 'x']
    let v ← vaPtr
    drtPutn budget v 16 16 (byteOf '0') false
  else if c = byteOf 's' then do
    let s ← vaStr
    drtPuts (s.getD nullString)
  else if c = byteOf 'c' then do
    let v ← vaInt
    drtPutchar (v.setWidth 8)
  else if c = byteOf '%' then drtPutchar (byteOf '%')
  else do
    drtPutchar (byteOf '%')
    drtPutchar c

def drtLongness (fmt : List Byte) (p : Nat) : Print (Nat × Nat) := do
  let (p, longness) ← drtSkip fmt (byteOf 'l') 1 p 0
  let (p, longness) ← drtSkip fmt (byteOf 'l') 2 p longness
  drtSkip fmt (byteOf 'z') 3 p longness

/-- One directive, from the character behind the `%`. The result points at its conversion
character. -/
def drtDirective (budget : Nat) (fmt : List Byte) (p : Nat) : Print Nat := do
  let (p, pad) ← drtSkip fmt (byteOf '0') (byteOf '0') p (byteOf ' ')
  let (p, width) ← drtWidthLoop fmt budget p 0
  let (p, longness) ← drtLongness fmt p
  let c ← drtRead fmt p
  drtConvert budget c width pad longness
  pure p

/-- `for (p = fmt; *p; p++)`. What an iteration leaves of the budget is what the loops inside it
may use. -/
def drtVprintfLoop (fmt : List Byte) : Nat → Nat → Print Unit
  | 0, _ => throw .outOfBudget
  | budget + 1, p => do
      let c ← drtRead fmt p
      if c = 0 then pure ()
      else if c ≠ byteOf '%' then do
        drtPutchar c
        drtVprintfLoop fmt budget (p + 1)
      else do
        let p ← drtDirective budget fmt (p + 1)
        drtVprintfLoop fmt budget (p + 1)

def drtVprintf (budget : Nat) (fmt : List Byte) : Print Unit := drtVprintfLoop fmt budget 0

end Misan
