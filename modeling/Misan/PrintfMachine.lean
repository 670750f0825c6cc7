import Misan.Printf

/-!
# The printer on a machine

`va_arg` checks nothing. An argument that was not passed, or was passed in another type, is whatever
the next slot of the argument area holds, and the printer goes on with it. It also goes on after a
signed overflow, with a value that the language does not fix. Both are left to a machine here. The
format is memory: its characters, the terminator, and what lies behind it.
-/

namespace Misan

/-- What the printer meets where the language promises nothing. The slots are those `va_arg` takes
its arguments from, with whatever stands behind the ones that were passed. `strAt` is the text up to
the terminator at an address. `wide` and `negMin` are what the printer goes on with where a result
fits no `int` and where it negates the minimum of `long long`. Each may be missing: the printer then
stops there. -/
structure Machine where
  slots : Nat → Option (BitVec 64)
  strAt : Addr → Option (List Byte)
  wide : Int → Option Int
  negMin : Option (BitVec 64)

/-- `ap` counts the slots taken. -/
structure SlotState where
  out : List Byte
  ap : Nat

abbrev SlotPrint := EStateM PrintStop SlotState

/-- A part of the printer that takes no argument. -/
def onOutput {α : Type} (x : Print α) : SlotPrint α := fun st =>
  match x ⟨st.out, []⟩ with
  | .ok a t => .ok a { st with out := t.out }
  | .error e t => .error e { st with out := t.out }

namespace Machine

variable (m : Machine)

/-! ### Signed results -/

def orOverflow {α : Type} : Option α → SlotPrint α
  | some a => pure a
  | none => throw (.fault .signedOverflow)

/-- A result of an `int` computation. -/
def int (z : Int) : Option Int :=
  if -intMax - 1 ≤ z ∧ z ≤ intMax then some z else m.wide z

/-- `-n` on `long long`. -/
def neg (n : BitVec 64) : Option (BitVec 64) :=
  if n = BitVec.intMin 64 then m.negMin else some (-n)

def drtPutsn (budget : Nat) (n : BitVec 64) (base : Nat) (width : Int) (pad : Byte) :
    SlotPrint Unit :=
  if n.toInt < 0 then do
    onOutput (drtPutchar (byteOf '-'))
    let n ← orOverflow (m.neg n)
    onOutput (drtPutn budget n base (if width > 0 then width - 1 else width) pad false)
  else onOutput (drtPutn budget n base width pad false)

/-! ### Reading the format and the arguments -/

/-- `*p`, as far as the memory behind the format can be read. -/
def drtRead (mem : List Byte) (p : Nat) : SlotPrint Byte :=
  match mem[p]? with
  | some c => pure c
  | none => throw (.fault .readPastEnd)

def vaSlot : SlotPrint (BitVec 64) := fun st =>
  match m.slots st.ap with
  | some v => .ok v { st with ap := st.ap + 1 }
  | none => .error (.fault .badArgument) st

/-- The argument of `%d`: a whole slot, or the `int` in its lower half. -/
def vaSigned (longness : Nat) : SlotPrint (BitVec 64) :=
  if longness = 2 then m.vaSlot
  else if longness = 1 then m.vaSlot
  else if longness = 3 then m.vaSlot
  else do
    let v ← m.vaSlot
    pure ((v.setWidth 32).signExtend 64)

/-- The argument of `%u`, `%x` and `%X`. -/
def vaUnsigned (longness : Nat) : SlotPrint (BitVec 64) :=
  if longness = 2 then m.vaSlot
  else if longness = 1 then m.vaSlot
  else if longness = 3 then m.vaSlot
  else do
    let v ← m.vaSlot
    pure ((v.setWidth 32).setWidth 64)

/-- The text of `%s`, which the null pointer replaces by `(null)`. -/
def stringAt (s : Addr) : Option (List Byte) := if s = 0 then some nullString else m.strAt s

def vaStr : SlotPrint (List Byte) := do
  let s ← m.vaSlot
  match m.stringAt s with
  | some text => pure text
  | none => throw (.fault .badArgument)

/-- `if (*p == c) { x = v; p++; }` -/
def drtSkip {α : Type} (mem : List Byte) (c : Byte) (v : α) (p : Nat) (x : α) :
    SlotPrint (Nat × α) := do
  let c' ← drtRead mem p
  if c' = c then pure (p + 1, v) else pure (p, x)

/-- The width loop: `width = width * 10 + (*p - '0')` over the digits at `p`. -/
def drtWidthLoop (mem : List Byte) : Nat → Nat → Int → SlotPrint (Nat × Int)
  | 0, _, _ => throw .outOfBudget
  | budget + 1, p, width => do
      let c ← drtRead mem p
      if byteOf '0' ≤ c ∧ c ≤ byteOf '9' then do
        let scaled ← orOverflow (m.int (width * 10))
        let width ← orOverflow (m.int (scaled + (c.toNat - (byteOf '0').toNat)))
        drtWidthLoop mem budget (p + 1) width
      else pure (p, width)

def drtConvert (budget : Nat) (c : Byte) (width : Int) (pad : Byte) (longness : Nat) :
    SlotPrint Unit :=
  if c = byteOf 'd' then do
    let v ← m.vaSigned longness
    m.drtPutsn budget v 10 width pad
  else if c = byteOf 'u' then do
    let v ← m.vaUnsigned longness
    onOutput (drtPutn budget v 10 width pad false)
  else if c = byteOf 'x' then do
    let v ← m.vaUnsigned longness
    onOutput (drtPutn budget v 16 width pad false)
  else if c = byteOf 'X' then do
    let v ← m.vaUnsigned longness
    onOutput (drtPutn budget v 16 width pad true)
  else if c = byteOf 'p' then do
    onOutput (drtPuts [byteOf '0', byteOf 'x'])
    let v ← m.vaSlot
    onOutput (drtPutn budget v 16 16 (byteOf '0') false)
  else if c = byteOf 's' then do
    let s ← m.vaStr
    onOutput (drtPuts s)
  else if c = byteOf 'c' then do
    let v ← m.vaSlot
    onOutput (drtPutchar (v.setWidth 8))
  else if c = byteOf '%' then onOutput (drtPutchar (byteOf '%'))
  else do
    onOutput (drtPutchar (byteOf '%'))
    onOutput (drtPutchar c)

def drtLongness (mem : List Byte) (p : Nat) : SlotPrint (Nat × Nat) := do
  let (p, longness) ← drtSkip mem (byteOf 'l') 1 p 0
  let (p, longness) ← drtSkip mem (byteOf 'l') 2 p longness
  drtSkip mem (byteOf 'z') 3 p longness

/-- One directive, from the character behind the `%`. The result points at its conversion
character. -/
def drtDirective (budget : Nat) (mem : List Byte) (p : Nat) : SlotPrint Nat := do
  let (p, pad) ← drtSkip mem (byteOf '0') (byteOf '0') p (byteOf ' ')
  let (p, width) ← m.drtWidthLoop mem budget p 0
  let (p, longness) ← drtLongness mem p
  let c ← drtRead mem p
  m.drtConvert budget c width pad longness
  pure p

/-- `for (p = fmt; *p; p++)`. -/
def drtVprintfLoop (mem : List Byte) : Nat → Nat → SlotPrint Unit
  | 0, _ => throw .outOfBudget
  | budget + 1, p => do
      let c ← drtRead mem p
      if c = 0 then pure ()
      else if c ≠ byteOf '%' then do
        onOutput (drtPutchar c)
        drtVprintfLoop mem budget (p + 1)
      else do
        let p ← m.drtDirective budget mem (p + 1)
        drtVprintfLoop mem budget (p + 1)

/-- The format `fmt` in memory, with `behind` behind its terminator. -/
def drtVprintf (budget : Nat) (fmt behind : List Byte) : SlotPrint Unit :=
  m.drtVprintfLoop (fmt ++ 0 :: behind) budget 0

/-- The same machine, stopping at the first signed overflow. -/
def stopping : Machine := { m with wide := fun _ => none, negMin := none }

/-- The slots from `i` on hold the arguments `ap`. -/
def Holds : Nat → List VaArg → Prop
  | _, [] => True
  | i, .int v :: ap => (m.slots i).map (·.setWidth 32) = some v ∧ Holds (i + 1) ap
  | i, .long v :: ap => m.slots i = some v ∧ Holds (i + 1) ap
  | i, .longLong v :: ap => m.slots i = some v ∧ Holds (i + 1) ap
  | i, .ptr v :: ap => m.slots i = some v ∧ Holds (i + 1) ap
  | i, .str s :: ap => (∃ a, m.slots i = some a ∧ m.stringAt a = some (s.getD nullString)) ∧
      Holds (i + 1) ap

end Machine

end Misan
