import Misan.Common

/-!
# The leak sanitizer runtime

An allocation table and a root table, each an array with a count, and a check that reports the
active allocations nothing points to. A report is the call that prints it; the text itself is the
printer's business.
-/

namespace Misan

def lsanMaxAllocs : Nat := 4096
def lsanMaxRoots : Nat := 256

inductive LsanAllocState where
  | active
  | freed
deriving DecidableEq

structure LsanAlloc where
  addr : Addr
  size : Addr
  state : LsanAllocState
  ignored : Bool
  stack : DrtStackTrace

structure LsanRoot where
  addr : Addr
  size : Addr
deriving DecidableEq

/-- The two tables, cut to their counts. -/
structure LsanState where
  allocs : List LsanAlloc
  roots : List LsanRoot
  lsanDisabled : Bool
  allocs_le : allocs.length ≤ lsanMaxAllocs
  roots_le : roots.length ≤ lsanMaxRoots

def LsanState.initial : LsanState where
  allocs := []
  roots := []
  lsanDisabled := false
  allocs_le := by decide
  roots_le := by decide

def lsanRegisterAlloc (s : LsanState) (addr size : Addr) (stack : DrtStackTrace) : LsanState :=
  if s.lsanDisabled then s
  else if hfull : s.allocs.length ≥ lsanMaxAllocs then s
  else
    { s with
      allocs := s.allocs ++ [⟨addr, size, .active, false, stack⟩]
      allocs_le := by
        rw [List.length_append, List.length_singleton]
        omega }

/-- A search loop that updates the first match and stops. -/
def updateFirst {α : Type} (found : α → Bool) (update : α → α) : List α → List α
  | [] => []
  | a :: rest => if found a then update a :: rest else a :: updateFirst found update rest

@[simp]
theorem length_updateFirst {α : Type} (found : α → Bool) (update : α → α) (l : List α) :
    (updateFirst found update l).length = l.length := by
  induction l with
  | nil => rfl
  | cons a rest ih =>
      rw [updateFirst]
      split <;> simp [ih]

theorem updateFirst_of_none {α : Type} {found : α → Bool} {update : α → α} {l : List α}
    (hnone : ∀ a ∈ l, found a = false) : updateFirst found update l = l := by
  induction l with
  | nil => rfl
  | cons a rest ih =>
      rw [updateFirst, if_neg (ne_true_of_eq_false (hnone a List.mem_cons_self)),
        ih fun b hb => hnone b (List.mem_cons_of_mem a hb)]

def lsanUnregisterAlloc (s : LsanState) (addr : Addr) : LsanState :=
  if s.lsanDisabled then s
  else
    { s with
      allocs := updateFirst (fun a => a.addr == addr && a.state == .active)
        (fun a => { a with state := .freed }) s.allocs
      allocs_le := by rw [length_updateFirst]; exact s.allocs_le }

def lsanRegisterRootRegion (s : LsanState) (p size : Addr) : LsanState :=
  if hroom : s.roots.length < lsanMaxRoots then
    { s with
      roots := s.roots ++ [⟨p, size⟩]
      roots_le := by
        rw [List.length_append, List.length_singleton]
        omega }
  else s

/-- `roots[i] = roots[--count]` at the first entry with address `p`. -/
def removeRoot (p : Addr) (roots : List LsanRoot) : List LsanRoot :=
  match roots.getLast? with
  | none => roots
  | some last =>
      if roots.any (fun r => r.addr == p) then
        (updateFirst (fun r => r.addr == p) (fun _ => last) roots).dropLast
      else roots

theorem length_removeRoot_le (p : Addr) (roots : List LsanRoot) :
    (removeRoot p roots).length ≤ roots.length := by
  unfold removeRoot
  split
  · exact le_rfl
  · split
    · rw [List.length_dropLast, length_updateFirst]
      exact Nat.sub_le _ _
    · exact le_rfl

def lsanUnregisterRootRegion (s : LsanState) (p _size : Addr) : LsanState :=
  { s with
    roots := removeRoot p s.roots
    roots_le := (length_removeRoot_le p s.roots).trans s.roots_le }

def lsanIgnoreObject (s : LsanState) (p : Addr) : LsanState :=
  { s with
    allocs := updateFirst (fun a => a.addr == p) (fun a => { a with ignored := true }) s.allocs
    allocs_le := by rw [length_updateFirst]; exact s.allocs_le }

def lsanDisable (s : LsanState) : LsanState := { s with lsanDisabled := true }

def lsanEnable (s : LsanState) : LsanState := { s with lsanDisabled := false }

def lsanIsPointerInside (ptr base size : Addr) : Bool :=
  ptr ≥ base && ptr < base + size

/-- The scan loop `for (w = 0; w < size / sizeof(void *); w++) if (scan[w] == target)`. -/
def lsanScan (m : Memory) (scan size target : Addr) : Bool :=
  (List.range (size / 8).toNat).any fun w => m.load64 (scan + BitVec.ofNat 64 (8 * w)) == target

def lsanMarkReachable (s : LsanState) (m : Memory) (alloc : LsanAlloc) : Bool :=
  s.roots.any (fun r =>
    lsanIsPointerInside alloc.addr r.addr r.size || lsanScan m r.addr r.size alloc.addr) ||
  s.allocs.any (fun a => a.state == .active && lsanScan m a.addr a.size alloc.addr)

/-- What a check did: the entries it reported, in order, and the value it returned, or `none` when
it ended in `drt_die`. -/
structure LsanCheck where
  reports : List LsanAlloc
  returned : Option Nat

/-- The loop of `lsan_do_check_internal` from one entry on, without what it prints. -/
def lsanCheckLoop (s : LsanState) (m : Memory) :
    List LsanAlloc → Nat → List LsanAlloc → Nat × List LsanAlloc
  | [], leaksFound, reports => (leaksFound, reports)
  | a :: rest, leaksFound, reports =>
      if a.state ≠ .active then lsanCheckLoop s m rest leaksFound reports
      else if a.ignored then lsanCheckLoop s m rest leaksFound reports
      else if !lsanMarkReachable s m a then
        lsanCheckLoop s m rest (leaksFound + 1) (reports ++ [a])
      else lsanCheckLoop s m rest leaksFound reports

/-- `lsan_do_check_internal` without what it prints: a check whose reports all come to their ends.
With the printing it is `lsanPrintCheck`. -/
def lsanDoCheckInternal (s : LsanState) (m : Memory) (fatal : Bool) : LsanCheck :=
  let (leaksFound, reports) := lsanCheckLoop s m s.allocs 0 []
  if leaksFound ≠ 0 && fatal then ⟨reports, none⟩ else ⟨reports, some leaksFound⟩

def lsanDoLeakCheck (s : LsanState) (m : Memory) : LsanCheck := lsanDoCheckInternal s m true

def lsanDoRecoverableLeakCheck (s : LsanState) (m : Memory) : LsanCheck :=
  lsanDoCheckInternal s m false

end Misan
