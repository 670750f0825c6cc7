import Misan.MsanCheck
import Misan.Foundation.Runs

/-!
# The table of origins

`msan_alloc_origin` takes an id from a counter and starts over at `1` when the counter has reached
the end of the table. `__msan_chain_origin` allocates a new origin and gives it the stack of an old
one. Between the addition to the counter and the store that resets it other threads may run.
-/

namespace Misan

abbrev OriginId := Fin msanMaxOrigins

structure MsanOrigins where
  msanOriginCounter : BitVec 32
  msanOrigins : OriginId → MsanOrigin

def MsanOrigins.initial : MsanOrigins where
  msanOriginCounter := 1
  msanOrigins := fun _ => ⟨⟨[], by decide⟩, 0, false⟩

def firstOriginId : OriginId := ⟨1, by decide⟩

/-- The id a call gets from the counter value its addition returns. -/
def msanOriginIdOf (id : BitVec 32) : OriginId :=
  if h : id.toNat < msanMaxOrigins then ⟨id.toNat, h⟩ else firstOriginId

theorem msanOriginIdOf_of_lt {id : BitVec 32} (h : id.toNat < msanMaxOrigins) :
    (msanOriginIdOf id).val = id.toNat := by
  rw [msanOriginIdOf, dif_pos h]

theorem msanOriginIdOf_of_ge {id : BitVec 32} (h : msanMaxOrigins ≤ id.toNat) :
    msanOriginIdOf id = firstOriginId :=
  dif_neg (Nat.not_lt.mpr h)

/-- The counter of `n` additions, one step on. -/
theorem msanOriginCounter_next {counter : BitVec 32} {n : Nat}
    (h : counter = BitVec.ofNat 32 (n + 1)) : counter + 1 = BitVec.ofNat 32 (n + 2) := by
  rw [h]
  exact BitVec.ofNat_add_ofNat ..

theorem msanOriginCounter_next_lt {counter : BitVec 32} {n : Nat}
    (h : counter = BitVec.ofNat 32 (n + 1)) (hn : n < 65534) :
    (counter + 1).toNat < msanMaxOrigins := by
  rw [msanOriginCounter_next h, BitVec.toNat_ofNat, msanMaxOrigins]
  omega

/-- A call of `msan_alloc_origin` alone, with the time and the stack it captures. -/
def msanAllocOrigin (o : MsanOrigins) (now : BitVec 64) (captured : DrtStackTrace) :
    OriginId × MsanOrigins :=
  let id := o.msanOriginCounter + 1
  let newId := msanOriginIdOf id
  (newId,
    { msanOriginCounter := if id.toNat ≥ msanMaxOrigins then 2 else id
      msanOrigins := Function.update o.msanOrigins newId ⟨captured, now, true⟩ })

/-- There is no result when the old id is not one of the table. -/
def msanChainOrigin (o : MsanOrigins) (origin : BitVec 32) (now : BitVec 64)
    (captured : DrtStackTrace) : Option (BitVec 32 × MsanOrigins) :=
  if origin = 0 then some (0, o)
  else
    let (newId, o) := msanAllocOrigin o now captured
    if h : origin.toNat < msanMaxOrigins then
      let stack := (o.msanOrigins ⟨origin.toNat, h⟩).stack
      some (BitVec.ofNat 32 newId.val,
        { o with msanOrigins :=
            Function.update o.msanOrigins newId { o.msanOrigins newId with stack := stack } })
    else none

structure MsanChainCall where
  origin : BitVec 32
  now : BitVec 64
  captured : DrtStackTrace

def msanChainStep (o : MsanOrigins) (c : MsanChainCall) : Option MsanOrigins :=
  (msanChainOrigin o c.origin c.now c.captured).map Prod.snd

/-- The table after a history of calls, which lists the latest call first. -/
def msanChainRun (history : List MsanChainCall) : Option MsanOrigins :=
  runFrom msanChainStep .initial history

/-! ### Any number of threads -/

/-- Where a thread is in `msan_alloc_origin`, as far as the counter goes. -/
inductive OriginPhase where
  | outside
  | wrapping
deriving DecidableEq

structure OriginThreads (Thr : Type) where
  msanOriginCounter : BitVec 32
  phase : Thr → OriginPhase
  /-- The ids the calls get, in the order of their additions, the latest first. -/
  ids : List OriginId

def OriginThreads.initial (Thr : Type) : OriginThreads Thr where
  msanOriginCounter := 1
  phase := fun _ => .outside
  ids := []

/-- The two steps of a call: `drt_atomic_add`, and `drt_atomic_store` where it wraps around. -/
inductive OriginAct (Thr : Type) where
  | add (thr : Thr)
  | store (thr : Thr)

variable {Thr : Type} [DecidableEq Thr]

def originStep (s : OriginThreads Thr) : OriginAct Thr → Option (OriginThreads Thr)
  | .add thr =>
      match s.phase thr with
      | .outside =>
          let id := s.msanOriginCounter + 1
          some
            { msanOriginCounter := id
              phase := if id.toNat ≥ msanMaxOrigins then Function.update s.phase thr .wrapping
                else s.phase
              ids := msanOriginIdOf id :: s.ids }
      | .wrapping => none
  | .store thr =>
      match s.phase thr with
      | .outside => none
      | .wrapping => some
          { s with
            msanOriginCounter := 2
            phase := Function.update s.phase thr .outside }

def originRun (history : List (OriginAct Thr)) : Option (OriginThreads Thr) :=
  runFrom originStep (.initial Thr) history

/-- A call of one thread from its first step to its last, with no other thread in between. -/
def originCall (s : OriginThreads Thr) (thr : Thr) : Option (OriginThreads Thr) :=
  (originStep s (.add thr)).bind fun s =>
    match s.phase thr with
    | .outside => some s
    | .wrapping => originStep s (.store thr)

end Misan
