import Misan.StackCapture

/-!
# Captured stacks

The loop counts `skip` down first and the entries up then, so together they count its steps: after
`i` of them it stands at frame `i` of the chain and has recorded the frames from `skip` on. Nothing
is assumed of the chain. It may end anywhere, lead into a cycle, or change while it is read.
-/

namespace Misan

variable {memory : Nat → Memory} {rbp skip : Addr} {s s' : StackCapture} {i : Nat}

/-- Frame `i` of the chain that starts at `rbp`. -/
def captureFrame (memory : Nat → Memory) (rbp : Addr) : Nat → Addr
  | 0 => rbp
  | i + 1 => (memory (2 * i + 1)).load64 (captureFrame memory rbp i)

def captureReturn (memory : Nat → Memory) (rbp : Addr) (i : Nat) : Addr :=
  (memory (2 * i)).load64 (captureFrame memory rbp i + 8)

/-- The state after `i` steps. -/
structure Captured (memory : Nat → Memory) (rbp skip : Addr) (i : Nat) (s : StackCapture) :
    Prop where
  frame : s.rbp = captureFrame memory rbp i
  skipped : s.skip.toNat = skip.toNat - i
  count : s.count = i - skip.toNat
  count_le : s.count ≤ misanMaxStackFrames
  nonnull : ∀ j < i, captureFrame memory rbp j ≠ 0
  recorded : ∀ j (h : j < misanMaxStackFrames), j < s.count →
    s.pcs ⟨j, h⟩ = captureReturn memory rbp (skip.toNat + j)

theorem Captured.start (memory : Nat → Memory) (rbp skip : Addr)
    (pcs : Fin misanMaxStackFrames → Addr) : Captured memory rbp skip 0 ⟨rbp, skip, pcs, 0⟩ where
  frame := rfl
  skipped := rfl
  count := (Nat.zero_sub _).symm
  count_le := Nat.zero_le _
  nonnull j hj := absurd hj (Nat.not_lt_zero j)
  recorded j _ hj := absurd hj (Nat.not_lt_zero j)

theorem Captured.nonnull_succ (h : Captured memory rbp skip i s) (hrbp : s.rbp ≠ 0) :
    ∀ j < i + 1, captureFrame memory rbp j ≠ 0 := by
  intro j hj
  rcases Nat.lt_succ_iff_lt_or_eq.mp hj with hj | rfl
  · exact h.nonnull j hj
  · exact h.frame ▸ hrbp

theorem Captured.skip_step (h : Captured memory rbp skip i s) (hrbp : s.rbp ≠ 0)
    (hskip : s.skip ≠ 0) :
    Captured memory rbp skip (i + 1)
      { s with skip := s.skip - 1, rbp := (memory (2 * i + 1)).load64 s.rbp } := by
  have hpos : s.skip.toNat ≠ 0 := fun hzero => hskip (BitVec.eq_of_toNat_eq hzero)
  have hskipped := h.skipped
  have hcount := h.count
  constructor
  · rw [captureFrame, h.frame]
  · have hlt := s.skip.isLt
    rw [BitVec.toNat_sub, show (1 : Addr).toNat = 1 from rfl]
    omega
  · dsimp only
    omega
  · exact h.count_le
  · exact h.nonnull_succ hrbp
  · exact h.recorded

theorem Captured.push_step (h : Captured memory rbp skip i s) (hrbp : s.rbp ≠ 0)
    (hskip : s.skip = 0) (hroom : s.count < misanMaxStackFrames) :
    ∃ s', s.push ((memory (2 * i)).load64 (s.rbp + 8)) = some s' ∧
      Captured memory rbp skip (i + 1) { s' with rbp := (memory (2 * i + 1)).load64 s'.rbp } := by
  have hzero : s.skip.toNat = 0 := by rw [hskip]; rfl
  have hskipped := h.skipped
  have hcount := h.count
  refine ⟨_, dif_pos hroom, ?_⟩
  constructor
  · rw [captureFrame, ← h.frame]
  · dsimp only
    omega
  · dsimp only
    omega
  · exact hroom
  · exact h.nonnull_succ hrbp
  · intro j hj hlt
    dsimp only at hlt ⊢
    by_cases hlast : j = s.count
    · subst hlast
      rw [Function.update_self, captureReturn, show skip.toNat + s.count = i by omega, h.frame]
    · rw [Function.update_of_ne (by simpa [Fin.ext_iff] using hlast)]
      exact h.recorded j hj (by omega)

/-- Where the loop ends, and how. -/
theorem captureLoop_ends {steps : Nat} (h : Captured memory rbp skip i s)
    (hsteps : skip.toNat + misanMaxStackFrames ≤ steps + i) :
    ∃ n s', captureLoop memory steps i s = .ended s' ∧ Captured memory rbp skip n s' ∧
      (captureFrame memory rbp n = 0 ∨ s'.count = misanMaxStackFrames) := by
  induction steps generalizing i s with
  | zero =>
      have hfull : ¬ (s.rbp ≠ 0 ∧ s.count < misanMaxStackFrames) := by
        have hcount := h.count
        omega
      refine ⟨i, s, if_neg hfull, h, Or.inr ?_⟩
      have hcount := h.count
      have hle := h.count_le
      omega
  | succ steps ih =>
      rw [captureLoop]
      by_cases htest : s.rbp ≠ 0 ∧ s.count < misanMaxStackFrames
      · obtain ⟨hrbp, hroom⟩ := htest
        rw [if_pos ⟨hrbp, hroom⟩]
        by_cases hskip : s.skip = 0
        · obtain ⟨s', hpush, hnext⟩ := h.push_step hrbp hskip hroom
          rw [if_neg (not_not_intro hskip), hpush]
          exact ih hnext (by omega)
        · rw [if_pos hskip]
          exact ih (h.skip_step hrbp hskip) (by omega)
      · rw [if_neg htest]
        refine ⟨i, s, rfl, h, ?_⟩
        rw [← h.frame]
        have hle := h.count_le
        by_cases hnull : s.rbp = 0
        · exact Or.inl hnull
        · exact Or.inr (le_antisymm hle (not_lt.mp fun hroom => htest ⟨hnull, hroom⟩))

/-- **Capturing a stack** ends after at most `skip + 32` steps, without a store out of bounds. It
has then recorded the return addresses of the frames from `skip` on, in order, up to the first null
link or until the trace was full. -/
theorem drtArchCaptureStackTrace_spec (memory : Nat → Memory) (rbp skip : Addr)
    (pcs : Fin misanMaxStackFrames → Addr) :
    ∃ n s, drtArchCaptureStackTrace memory (skip.toNat + misanMaxStackFrames) rbp skip pcs =
        .ended s ∧
      s.count ≤ misanMaxStackFrames ∧ s.count = n - skip.toNat ∧
      (∀ j (h : j < misanMaxStackFrames), j < s.count →
        s.pcs ⟨j, h⟩ = captureReturn memory rbp (skip.toNat + j)) ∧
      (∀ i < n, captureFrame memory rbp i ≠ 0) ∧
      (captureFrame memory rbp n = 0 ∨ s.count = misanMaxStackFrames) := by
  obtain ⟨n, s, hends, hcaptured, hstop⟩ :=
    captureLoop_ends (Captured.start memory rbp skip pcs) (Nat.le_refl _)
  exact ⟨n, s, hends, hcaptured.count_le, hcaptured.count, hcaptured.recorded, hcaptured.nonnull,
    hstop⟩

/-- A frame whose link points to itself is recorded again and again. -/
example : captureFrame (fun _ x => if x = 0x1001 then 0x10 else 0) 0x1000 5 = 0x1000 := by decide

end Misan
