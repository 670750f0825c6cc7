import Misan.Common

/-!
# The memory sanitizer runtime: shadow and origin memory

Every application byte has one shadow byte and one 32-bit origin word. Both live in the same address
space as the application, at fixed bases.
-/

namespace Misan

def msanShadowBase : Addr := 0xFFFF700000000000
def msanOriginBase : Addr := 0xFFFF600000000000

def msanInitialized : BitVec 8 := 0x00
def msanUninitialized : BitVec 8 := 0xFF

def msanShadowPtr (addr : Addr) : Addr := msanShadowBase + addr

def msanOriginPtr (addr : Addr) : Addr := msanOriginBase + addr * 4

def msanUnpoison (msanTrackOrigins : Bool) (m : Memory) (addr size : Addr) : Memory :=
  if addr = 0 ∨ size = 0 then m
  else
    let m := m.fillBytes (msanShadowPtr addr) msanInitialized size.toNat
    if msanTrackOrigins then m.fillWords (msanOriginPtr addr) 0 size.toNat else m

def msanPoison (m : Memory) (addr size : Addr) : Memory :=
  if addr = 0 ∨ size = 0 then m
  else m.fillBytes (msanShadowPtr addr) msanUninitialized size.toNat

def msanSetOrigin (msanTrackOrigins : Bool) (m : Memory) (addr size : Addr)
    (originId : BitVec 32) : Memory :=
  if !msanTrackOrigins ∨ addr = 0 ∨ size = 0 then m
  else m.fillWords (msanOriginPtr addr) originId size.toNat

end Misan
