import Misan.Proof.LsanGarbage

/-!
# No false leak

A chain starts in a root region and goes from word to word, each word holding the base address of
the next active block. The last link of a chain is enough for the check to stay silent, since it
scans all root regions and all active blocks, those reached or not.
-/

namespace Misan

variable {s : LsanState} {m : Memory} {a : LsanAlloc}

/-- Some word that lies in `[base, base + size)`, at a word offset, holds `p`. -/
def LsanHolds (m : Memory) (base size p : Addr) : Prop :=
  ∃ w : Nat, 8 * (w + 1) ≤ size.toNat ∧ m.load64 (base + BitVec.ofNat 64 (8 * w)) = p

/-- The active blocks at the end of a chain of words that starts in a root region. -/
inductive LsanChained (s : LsanState) (m : Memory) : LsanAlloc → Prop where
  | root {r : LsanRoot} {a : LsanAlloc} : r ∈ s.roots → a ∈ s.allocs → a.state = .active →
      LsanHolds m r.addr r.size a.addr → LsanChained s m a
  | next {b a : LsanAlloc} : LsanChained s m b → a ∈ s.allocs → a.state = .active →
      LsanHolds m b.addr b.size a.addr → LsanChained s m a

/-- The scan visits the words that lie in the region, also when the last bytes are no whole word. -/
theorem lsanScan_iff (m : Memory) (base size p : Addr) :
    lsanScan m base size p = true ↔ LsanHolds m base size p := by
  have hwords : (size / 8).toNat = size.toNat / 8 := by simp
  simp only [lsanScan, List.any_eq_true, List.mem_range, beq_iff_eq, hwords, LsanHolds]
  apply exists_congr
  intro w
  have hlt : w < size.toNat / 8 ↔ 8 * (w + 1) ≤ size.toNat := by omega
  rw [hlt]

theorem LsanChained.active (h : LsanChained s m a) : a ∈ s.allocs ∧ a.state = .active := by
  cases h with
  | root _ ha hactive _ => exact ⟨ha, hactive⟩
  | next _ ha hactive _ => exact ⟨ha, hactive⟩

/-- The source of the last link is a root region or an active block, and the check scans both. -/
theorem LsanChained.marked (h : LsanChained s m a) : lsanMarkReachable s m a = true := by
  rw [lsanMarkReachable_iff]
  cases h with
  | root hr _ _ hholds => exact Or.inl ⟨_, hr, Or.inr ((lsanScan_iff ..).mpr hholds)⟩
  | next hb _ _ hholds =>
      obtain ⟨hmem, hactive⟩ := hb.active
      exact Or.inr ⟨_, hmem, hactive, (lsanScan_iff ..).mpr hholds⟩

/-- What a check comes to within the budget, by the reports it begins. -/
theorem lsanPrintCheck_begun (budget : Nat) (s : LsanState) (m : Memory) (fatal : Bool)
    (st : PrintState) :
    let begun := lsanBegun budget s m s.allocs
    match lsanPrintCheck budget s m fatal st with
    | .ok returned t =>
        returned = (if fatal = true ∧ begun ≠ [] then none else some begun.length) ∧
        t.out = st.out ++ begun.flatMap lsanLeakText ++ lsanEndText begun.length returned
    | .error _ t => ∃ rest,
        t.out = st.out ++ (begun.flatMap fun a => (lsanPrinted budget a).left) ++ rest := by
  intro begun
  rw [lsanPrintCheck]
  rcases lsanPrintLoop_begun budget s m s.allocs 0 st with ⟨hends, ap, hok⟩ | ⟨e, ap, hfail⟩
  · have htext : begun.flatMap (fun a => (lsanPrinted budget a).left) =
        begun.flatMap lsanLeakText :=
      List.flatMap_congr fun a ha => (lsanPrinted_of_ends (hends a ha)).2
    rw [bind_run hok, Nat.zero_add, htext]
    have hreturned : (if begun.length ≠ 0 && fatal then none else some begun.length) =
        if fatal = true ∧ begun ≠ [] then none else some begun.length := by
      cases fatal <;> simp
    let reported : PrintState := ⟨st.out ++ begun.flatMap lsanLeakText, ap⟩
    cases hend : lsanPrintEnd budget fatal begun.length reported with
    | ok returned t =>
        obtain ⟨ap', hruns⟩ := lsanPrintEnd_prints fatal begun.length reported
        obtain ⟨-, rfl, rfl⟩ := hruns.sound budget returned t hend
        exact ⟨hreturned, rfl⟩
    | error e t =>
        obtain ⟨rest, hout⟩ := exists_printedBy_eq
          (lsanPrintEnd_framed reported.out budget fatal begun.length)
        rw [hend] at hout
        exact ⟨rest, hout⟩
  · rw [bind_eq_error.mpr (Or.inl hfail)]
    exact ⟨[], (List.append_nil _).symm⟩

/-- **No false leak.** Within any budget the reports a check begins are those of active blocks that
are not ignored, none of them at the end of a chain. A check that comes to its end has printed these
reports whole, and it returns how many they are, unless it is fatal and there are some. -/
theorem lsanPrintCheck_no_false_leak (budget : Nat) (s : LsanState) (m : Memory) (fatal : Bool)
    (st : PrintState) :
    let begun := lsanBegun budget s m s.allocs
    (∀ a, LsanChained s m a → a ∉ begun) ∧ (∀ a ∈ begun, a ∈ s.allocs ∧ a.Candidate) ∧
      match lsanPrintCheck budget s m fatal st with
      | .ok returned t =>
          returned = (if fatal = true ∧ begun ≠ [] then none else some begun.length) ∧
          t.out = st.out ++ begun.flatMap lsanLeakText ++ lsanEndText begun.length returned
      | .error _ t => ∃ rest,
          t.out = st.out ++ (begun.flatMap fun a => (lsanPrinted budget a).left) ++ rest := by
  refine ⟨fun a hchained hbegun => ?_, fun a hbegun => ?_,
    lsanPrintCheck_begun budget s m fatal st⟩
  · have hleaks := (leaks_of_mem_lsanBegun hbegun).2
    simp [lsanLeaks, hchained.marked] at hleaks
  · obtain ⟨ha, hleaks⟩ := leaks_of_mem_lsanBegun hbegun
    simp only [lsanLeaks, Bool.and_eq_true, decide_eq_true_eq, Bool.not_eq_true'] at hleaks
    exact ⟨ha, hleaks.1⟩

/-- The block at `0x1000` holds its own address, and a root region with an odd size holds it too. -/
example : let s := lsanRegisterRootRegion selfReference 0x1000 11
    LsanChained s selfReferenceMemory ⟨0x1000, 8, .active, false, ⟨[], by decide⟩⟩ :=
  .root (r := ⟨0x1000, 11⟩) (by decide) (List.mem_singleton.mpr rfl) rfl ⟨0, by decide, by decide⟩

end Misan
