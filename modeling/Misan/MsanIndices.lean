import Misan.MsanOrigins

/-!
# The indices used on the table of origins

Nothing in the language checks the index of `msan_origins[id]`. For each function that uses the
table, here are its indices in the order of the accesses, and the calls of a program through which
ids get there: as an argument, or through the origin memory.
-/

namespace Misan

/-- The id `msan_alloc_origin` returns. -/
def msanAllocOriginId (msanOriginCounter : BitVec 32) : BitVec 32 :=
  let id := msanOriginCounter + 1
  if id.toNat ≥ msanMaxOrigins then 1 else id

/-- The accesses to `id`, `active`, `timestamp` and `stack`. -/
def msanAllocOriginIndices (msanOriginCounter : BitVec 32) : List (BitVec 32) :=
  let id := msanAllocOriginId msanOriginCounter
  [id, id, id, id]

def msanChainOriginIndices (o : MsanOrigins) (origin : BitVec 32) : List (BitVec 32) :=
  if origin = 0 then []
  else
    let newId := msanAllocOriginId o.msanOriginCounter
    msanAllocOriginIndices o.msanOriginCounter ++ [newId, origin]

/-- The accesses to `active`, `timestamp` and `stack`, the last two for an active entry only. -/
def msanReportIndices (env : MsanReportEnv) (addr : Addr) : List (BitVec 32) :=
  if env.msanTrackOrigins then
    let oid := env.originId addr
    if h : oid ≠ 0 ∧ oid.toNat < msanMaxOrigins then
      if (env.msanOrigins ⟨oid.toNat, h.2⟩).active then [oid, oid, oid] else [oid]
    else []
  else []

def msanCheckIndices (env : MsanReportEnv) (addr size : Addr) : List (BitVec 32) :=
  match msanCheckMem env.memory addr size with
  | none => []
  | some (first, _) => msanReportIndices env first

/-! ### Programs -/

/-- The memory with the shadow and the origin words, and the table with its counter. -/
structure MsanRuntime where
  memory : Memory
  origins : MsanOrigins

def MsanRuntime.reportEnv (s : MsanRuntime) (msanTrackOrigins : Bool) (stack : DrtStackTrace) :
    MsanReportEnv where
  memory := s.memory
  msanTrackOrigins := msanTrackOrigins
  msanOrigins := s.origins.msanOrigins
  stack := stack

inductive MsanRuntimeCall where
  | chain (c : MsanChainCall)
  | write (c : MsanCall)
  | check (addr size : Addr) (stack : DrtStackTrace)

/-- There is no state behind an access past the end of the table, nor behind a check that aborts. -/
def msanRuntimeStep (msanTrackOrigins : Bool) (s : MsanRuntime) :
    MsanRuntimeCall → Option MsanRuntime
  | .chain c => (msanChainStep s.origins c).map fun origins => { s with origins := origins }
  | .write c => some { s with memory := msanStep msanTrackOrigins s.memory c }
  | .check addr size _ =>
      match msanCheckMem s.memory addr size with
      | none => some s
      | some _ => none

def msanRuntimeIndices (msanTrackOrigins : Bool) (s : MsanRuntime) :
    MsanRuntimeCall → List (BitVec 32)
  | .chain c => msanChainOriginIndices s.origins c.origin
  | .write _ => []
  | .check addr size stack => msanCheckIndices (s.reportEnv msanTrackOrigins stack) addr size

end Misan
