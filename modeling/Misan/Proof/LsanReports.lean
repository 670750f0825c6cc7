import Misan.Lsan

/-!
# What the check loop selects

Reachability is a closure: a block counts when a reachable block points to it. The check replaces
the closure by one round of scans, in which every active block counts as a source, reachable or not.
-/

namespace Misan

/-- The least set of addresses closed under the root regions and the words of reachable active
blocks. -/
inductive LsanReachable (s : LsanState) (m : Memory) : Addr → Prop where
  | inside {p : Addr} (r : LsanRoot) (hr : r ∈ s.roots) (hlow : r.addr.toNat ≤ p.toNat)
      (hhigh : p.toNat < r.addr.toNat + r.size.toNat) : LsanReachable s m p
  | root {p : Addr} (r : LsanRoot) (hr : r ∈ s.roots) (hscan : lsanScan m r.addr r.size p = true) :
      LsanReachable s m p
  | block {p : Addr} (a : LsanAlloc) (ha : a ∈ s.allocs) (hactive : a.state = .active)
      (hreach : LsanReachable s m a.addr) (hscan : lsanScan m a.addr a.size p = true) :
      LsanReachable s m p

def LsanAlloc.Candidate (a : LsanAlloc) : Prop := a.state = .active ∧ a.ignored = false

variable {s : LsanState} {m : Memory}

def lsanLeaks (s : LsanState) (m : Memory) (a : LsanAlloc) : Bool :=
  decide (a.state = .active) && !a.ignored && !lsanMarkReachable s m a

theorem lsanCheckLoop_eq (allocs : List LsanAlloc) (leaksFound : Nat) (reports : List LsanAlloc) :
    lsanCheckLoop s m allocs leaksFound reports
      = (leaksFound + (allocs.filter (lsanLeaks s m)).length,
          reports ++ allocs.filter (lsanLeaks s m)) := by
  induction allocs generalizing leaksFound reports with
  | nil => simp [lsanCheckLoop]
  | cons b rest ih =>
      rw [lsanCheckLoop, List.filter_cons]
      by_cases hactive : b.state = .active
      · cases hignored : b.ignored
        · cases hmark : lsanMarkReachable s m b
          · have hleaks : lsanLeaks s m b = true := by simp [lsanLeaks, hactive, hignored, hmark]
            simp [hactive, hleaks, ih, Nat.add_assoc, Nat.add_comm 1]
          · have hleaks : lsanLeaks s m b = false := by simp [lsanLeaks, hmark]
            simp [hactive, hleaks, ih]
        · have hleaks : lsanLeaks s m b = false := by simp [lsanLeaks, hignored]
          simp [hactive, hleaks, ih]
      · have hleaks : lsanLeaks s m b = false := by simp [lsanLeaks, hactive]
        simp [hactive, hleaks, ih]

theorem lsanDoCheckInternal_reports (fatal : Bool) :
    (lsanDoCheckInternal s m fatal).reports = s.allocs.filter (lsanLeaks s m) := by
  unfold lsanDoCheckInternal
  rw [lsanCheckLoop_eq]
  dsimp only
  split <;> rfl

/-- **What a check reports**: the candidates its own scans do not reach. -/
theorem mem_reports_iff (fatal : Bool) (a : LsanAlloc) :
    a ∈ (lsanDoCheckInternal s m fatal).reports ↔
      a ∈ s.allocs ∧ a.Candidate ∧ lsanMarkReachable s m a = false := by
  rw [lsanDoCheckInternal_reports, List.mem_filter, lsanLeaks, LsanAlloc.Candidate]
  simp only [Bool.and_eq_true, decide_eq_true_eq, Bool.not_eq_true', and_assoc]

/-- An address the code finds inside a region is inside it: the code's bound may have wrapped, which
only shrinks the region. -/
theorem lsanReachable_of_isPointerInside {r : LsanRoot} (hr : r ∈ s.roots) {p : Addr}
    (hinside : lsanIsPointerInside p r.addr r.size = true) : LsanReachable s m p := by
  rw [lsanIsPointerInside, Bool.and_eq_true, decide_eq_true_eq, decide_eq_true_eq] at hinside
  obtain ⟨hlow, hhigh⟩ := hinside
  rw [BitVec.lt_def, BitVec.toNat_add] at hhigh
  exact LsanReachable.inside r hr hlow (lt_of_lt_of_le hhigh (Nat.mod_le _ _))

theorem lsanMarkReachable_iff (a : LsanAlloc) :
    lsanMarkReachable s m a = true ↔
      (∃ r ∈ s.roots, lsanIsPointerInside a.addr r.addr r.size = true ∨
        lsanScan m r.addr r.size a.addr = true) ∨
      ∃ b ∈ s.allocs, b.state = .active ∧ lsanScan m b.addr b.size a.addr = true := by
  simp only [lsanMarkReachable, Bool.or_eq_true, List.any_eq_true, Bool.and_eq_true, beq_iff_eq]

/-- For an unreachable block only the words of active blocks can silence the check. -/
theorem lsanMarkReachable_iff_of_unreachable {a : LsanAlloc}
    (hunreachable : ¬ LsanReachable s m a.addr) :
    lsanMarkReachable s m a = true ↔
      ∃ b ∈ s.allocs, b.state = .active ∧ lsanScan m b.addr b.size a.addr = true := by
  rw [lsanMarkReachable_iff]
  apply or_iff_right
  rintro ⟨r, hr, hinside | hscan⟩
  · exact hunreachable (lsanReachable_of_isPointerInside hr hinside)
  · exact hunreachable (LsanReachable.root r hr hscan)

end Misan
