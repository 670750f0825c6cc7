import Misan.Bump
import Misan.Report
import Misan.Foundation.LinkedLists
import Mathlib.Data.Finset.Card

/-!
# The control flow integrity runtime

A hash table of linked entries, each a type hash with the vtable it was registered for, and the slow
path that looks a pair up. Entries come from `drt_internal_alloc`, one block for each, and are never
given back; the table carries the blocks still to come.
-/

namespace Misan

def cfiHashTableBits : Nat := 12
def cfiHashTableSize : Nat := 1 <<< cfiHashTableBits
def cfiHashMask : BitVec 32 := BitVec.ofNat 32 (cfiHashTableSize - 1)

/-- A type hash and a vtable. -/
abbrev CfiPair := BitVec 64 × Addr

structure CfiEntry where
  typeHash : BitVec 64
  vtable : Addr
  next : Addr
deriving DecidableEq

/-- `sizeof(cfi_entry_t)`. -/
def cfiEntrySize : Nat := 24

structure CfiTable where
  /-- The entries behind their pointers. -/
  entries : Addr → Option CfiEntry
  cfiHashTable : Fin cfiHashTableSize → Addr
  /-- The blocks `drt_internal_alloc` has yet to return. Behind the last one it dies. -/
  blocks : List Addr

def CfiTable.empty (blocks : List Addr) : CfiTable where
  entries := fun _ => none
  cfiHashTable := fun _ => 0
  blocks := blocks

/-- The eight rounds over the bytes of `val`. -/
def cfiHashRounds (val : BitVec 64) : BitVec 32 :=
  (List.range 8).foldl
    (fun h i => (h ^^^ ((val >>> (i * 8)) &&& 0xFF).setWidth 32) * 16777619) 2166136261

def cfiHashUint64 (val : BitVec 64) : BitVec 32 := cfiHashRounds val &&& cfiHashMask

theorem cfiHashUint64_lt (val : BitVec 64) : (cfiHashUint64 val).toNat < cfiHashTableSize := by
  rw [cfiHashUint64, BitVec.toNat_and]
  exact lt_of_le_of_lt Nat.and_le_right (by decide)

/-- `idx` in `cfi_lookup` and `cfi_insert`. -/
def cfiBucket (typeHash : BitVec 64) (vtable : Addr) : Fin cfiHashTableSize :=
  ⟨(cfiHashUint64 (typeHash ^^^ vtable)).toNat, cfiHashUint64_lt _⟩

def cfiLookup (budget : Nat) (t : CfiTable) (typeHash : BitVec 64) (vtable : Addr) :
    Option Addr :=
  searchList t.entries CfiEntry.next 0
    (fun e => decide (e.typeHash = typeHash) && decide (e.vtable = vtable)) budget
    (t.cfiHashTable (cfiBucket typeHash vtable))

/-- Without a result if the lookup has none, and if the allocation dies. -/
def cfiInsert (budget : Nat) (t : CfiTable) (typeHash : BitVec 64) (vtable : Addr) :
    Option CfiTable :=
  match cfiLookup budget t typeHash vtable with
  | none => none
  | some found =>
      if found ≠ 0 then some t
      else
        let idx := cfiBucket typeHash vtable
        match t.blocks with
        | [] => none
        | e :: blocks => some
            { entries := Function.update t.entries e
                (some ⟨typeHash, vtable, t.cfiHashTable idx⟩)
              cfiHashTable := Function.update t.cfiHashTable idx e
              blocks := blocks }

/-- The table after inserting the pairs, the latest first. -/
def cfiRun (budget : Nat) (blocks : List Addr) : List CfiPair → Option CfiTable
  | [] => some (.empty blocks)
  | pair :: before =>
      (cfiRun budget blocks before).bind fun t => cfiInsert budget t pair.1 pair.2

/-- The table, and the counter of the pool its entries come from. -/
structure CfiRuntime where
  used : Addr
  table : CfiTable

def CfiRuntime.empty : CfiRuntime := ⟨0, .empty []⟩

/-- `cfi_insert` with the allocator it calls. -/
def cfiInsertIn (pool : DrtBumpPool) (budget : Nat) (r : CfiRuntime) (typeHash : BitVec 64)
    (vtable : Addr) : Option CfiRuntime :=
  match cfiLookup budget r.table typeHash vtable with
  | none => none
  | some found =>
      if found ≠ 0 then some r
      else
        let idx := cfiBucket typeHash vtable
        match drtInternalAlloc pool r.used (BitVec.ofNat 64 cfiEntrySize) with
        | none => none
        | some (e, used) => some
            { used := used
              table :=
                { entries := Function.update r.table.entries e
                    (some ⟨typeHash, vtable, r.table.cfiHashTable idx⟩)
                  cfiHashTable := Function.update r.table.cfiHashTable idx e
                  blocks := r.table.blocks } }

def cfiRunIn (pool : DrtBumpPool) (budget : Nat) : List CfiPair → Option CfiRuntime
  | [] => some .empty
  | pair :: before =>
      (cfiRunIn pool budget before).bind fun r => cfiInsertIn pool budget r pair.1 pair.2

def cfiFail (budget : Nat) : Print DrtExit := drtDie budget (bytesOf "CFI check failed") []

def cfiSlowpath (budget : Nat) (t : CfiTable) (m : Memory) (trace : DrtStackTrace)
    (callSiteType : BitVec 64) (addr : Addr) : Print DrtExit :=
  let vtable := m.load64 addr
  match cfiLookup budget t callSiteType vtable with
  | none => throw .outOfBudget
  | some found =>
      if found = 0 then do
        drtPrintf budget (bytesOf "\n==CFI ERROR: type mismatch==\n") []
        drtPrintf budget (bytesOf "  Call site type hash: 0x%016llx\n") [.longLong callSiteType]
        drtPrintf budget (bytesOf "  Target address:      %p\n") [.ptr addr]
        drtPrintf budget (bytesOf "  Vtable:              %p\n") [.ptr vtable]
        drtPrintStackTrace budget trace
        cfiFail budget
      else pure .returned

def cfiSlowpathDiag (budget : Nat) (t : CfiTable) (m : Memory) (trace : DrtStackTrace)
    (callSiteType : BitVec 64) (addr _diagData : Addr) : Print DrtExit :=
  cfiSlowpath budget t m trace callSiteType addr

end Misan
