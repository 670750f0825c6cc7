import Misan.Lsan

/-!
# Histories of the leak sanitizer

The calls a program makes, and what they say about its blocks apart from the table: which addresses
are live and which have been given back. Histories list the latest call first.
-/

namespace Misan

inductive LsanCall where
  | registerAlloc (addr size : Addr) (stack : DrtStackTrace)
  | unregisterAlloc (addr : Addr)
  | registerRootRegion (p size : Addr)
  | unregisterRootRegion (p size : Addr)
  | ignoreObject (p : Addr)
  | disable
  | enable

def lsanStep (s : LsanState) : LsanCall → LsanState
  | .registerAlloc addr size stack => lsanRegisterAlloc s addr size stack
  | .unregisterAlloc addr => lsanUnregisterAlloc s addr
  | .registerRootRegion p size => lsanRegisterRootRegion s p size
  | .unregisterRootRegion p size => lsanUnregisterRootRegion s p size
  | .ignoreObject p => lsanIgnoreObject s p
  | .disable => lsanDisable s
  | .enable => lsanEnable s

def lsanRun : List LsanCall → LsanState
  | [] => .initial
  | c :: history => lsanStep (lsanRun history) c

namespace LsanCall

/-- No `__lsan_disable` is made. -/
def Tracked (history : List LsanCall) : Prop := ∀ c ∈ history, c ≠ .disable

/-- Registered and not unregistered since. -/
def live (p : Addr) : List LsanCall → Bool
  | [] => false
  | .registerAlloc addr _ _ :: before => addr == p || live p before
  | .unregisterAlloc addr :: before => addr != p && live p before
  | _ :: before => live p before

/-- Unregistered and not registered since. -/
def freed (p : Addr) : List LsanCall → Bool
  | [] => false
  | .registerAlloc addr _ _ :: before => addr != p && freed p before
  | .unregisterAlloc addr :: before => addr == p || freed p before
  | _ :: before => freed p before

/-- Each address is registered only while it is not live. -/
def RegistersFresh (history : List LsanCall) : Prop :=
  ∀ addr size stack before, .registerAlloc addr size stack :: before <:+ history →
    live addr before = false

def registers? : LsanCall → Option Addr
  | .registerAlloc addr _ _ => some addr
  | _ => none

/-- How many registrations there are. -/
def registrations (history : List LsanCall) : Nat :=
  history.countP fun c => c.registers?.isSome

/-- The address and the size of each live block, in the order of their registrations; giving an
address back ends the oldest of its blocks. -/
def liveBlocks : List LsanCall → List (Addr × Addr)
  | [] => []
  | .registerAlloc addr size _ :: before => liveBlocks before ++ [(addr, size)]
  | .unregisterAlloc addr :: before => (liveBlocks before).eraseP (fun block => block.1 == addr)
  | _ :: before => liveBlocks before

end LsanCall

end Misan
