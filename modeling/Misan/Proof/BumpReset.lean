import Misan.Proof.BumpBlocks

/-!
# Resets of the bump allocator

A reset puts the counter back to zero while other threads may have loaded its old value. An
exchange against a value loaded before the reset can still succeed, when the counter happens to
have that value again, but then the block it returns lies where one computed from that value lies,
at or above the counter: the blocks returned since the last reset are apart all the same.
-/

namespace Misan

variable {Thr : Type} [DecidableEq Thr] {pool : DrtBumpPool} {s s' : BumpState Thr}
  {a : BumpResetAct Thr} {history before : List (BumpResetAct Thr)}

def BumpState.ResetLoadsUnwrapped (s : BumpState Thr) : BumpResetAct Thr → Prop
  | .act a => s.LoadsUnwrapped a
  | .reset => True

/-- A load of a request that does not fit goes to `drt_die`. -/
def BumpState.OversizedDies (pool : DrtBumpPool) (s : BumpState Thr) (a : BumpResetAct Thr) :
    Prop :=
  ∀ thr size s', a = .act (.load thr) → s.phase thr = .looping size →
    drtBumpPoolSize.toNat < bumpEnd s.used size → bumpResetStep pool s a = some s' →
    s'.phase thr = .dying

omit [DecidableEq Thr] in
theorem CounterOk.reset (h : CounterOk s) : CounterOk (drtInternalAllocReset s) :=
  ⟨Nat.zero_le _, h.newv⟩

theorem CounterOk.resetStep (h : CounterOk s) (hstep : bumpResetStep pool s a = some s') :
    CounterOk s' := by
  cases a with
  | act a => exact h.move (bumpStep_cases hstep)
  | reset =>
      cases hstep
      exact h.reset

omit [DecidableEq Thr] in
/-- Nothing has been returned since. The threads that have loaded a value keep what they computed
from it. -/
theorem BlocksInv.reset (h : BlocksInv pool s) : BlocksInv pool (drtInternalAllocReset s) where
  ends := h.ends
  below _ hb := (List.not_mem_nil hb).elim
  blocks := ⟨fun _ hb => (List.not_mem_nil hb).elim, fun _ hb => (List.not_mem_nil hb).elim, .nil⟩

theorem BlocksInv.resetStep (h : BlocksInv pool s) (hcounter : CounterOk s)
    (hunwrapped : s.ResetLoadsUnwrapped a) (hstep : bumpResetStep pool s a = some s') :
    BlocksInv pool s' := by
  cases a with
  | act a => exact h.move hcounter hunwrapped (bumpStep_cases hstep)
  | reset =>
      cases hstep
      exact h.reset

omit [DecidableEq Thr] in
theorem counterOk_initial : CounterOk (BumpState.initial Thr) where
  used := Nat.zero_le _
  newv _ _ _ _ heq := by cases heq

omit [DecidableEq Thr] in
theorem blocksInv_initial (pool : DrtBumpPool) : BlocksInv pool (BumpState.initial Thr) where
  ends _ _ _ _ heq := by cases heq
  below _ hb := (List.not_mem_nil hb).elim
  blocks := ⟨fun _ hb => (List.not_mem_nil hb).elim, fun _ hb => (List.not_mem_nil hb).elim, .nil⟩

theorem bumpResetRun_counterOk (h : bumpResetRun pool history = some s) : CounterOk s :=
  runFrom_invariant (P := fun _ _ => True) counterOk_initial
    (fun _ _ _ hs _ hstep => hs.resetStep hstep) (fun _ _ _ _ _ => trivial) h

theorem bumpResetRun_blocksInv
    (hunwrapped : EachStep (bumpResetStep pool) (.initial Thr) BumpState.ResetLoadsUnwrapped
      history)
    (h : bumpResetRun pool history = some s) : BlocksInv pool s := by
  have hinv : CounterOk s ∧ BlocksInv pool s := by
    refine runFrom_invariant (I := fun s => CounterOk s ∧ BlocksInv pool s)
      ⟨counterOk_initial, blocksInv_initial pool⟩ ?_ hunwrapped h
    rintro s a s' ⟨hcounter, hblocks⟩ hload hstep
    exact ⟨hcounter.resetStep hstep, hblocks.resetStep hcounter hload hstep⟩
  exact hinv.2

/-- **The blocks of one round**: over any interleaving of allocations and resets, the blocks
returned since the last reset are in the pool, aligned and apart, and every request that does not
fit dies, exactly when no load finds a counter whose rounded value and the requested size add up to
`2 ^ 64` or more. -/
theorem bumpReset_blocks_iff (pool : DrtBumpPool) (history : List (BumpResetAct Thr)) :
    ((∀ before s, before <:+ history → bumpResetRun pool before = some s →
        BlocksOk pool s.blocks) ∧
      EachStep (bumpResetStep pool) (.initial Thr) (BumpState.OversizedDies pool) history) ↔
        EachStep (bumpResetStep pool) (.initial Thr) BumpState.ResetLoadsUnwrapped history := by
  constructor
  · rintro ⟨-, hdies⟩ a before s hsuffix hbefore
    cases a with
    | reset => trivial
    | act a =>
        rintro thr size rfl hphase
        by_contra hwraps
        have hused := (bumpResetRun_counterOk hbefore).used
        obtain ⟨s', hload⟩ := exists_bumpStep_load pool hphase
        have hlarge : drtBumpPoolSize.toNat < bumpEnd s.used size := by
          rw [toNat_drtBumpPoolSize]
          omega
        have hdying := hdies _ before s hsuffix hbefore thr size s' rfl hphase hlarge hload
        exact (bumpStep_cases hload).phase_of_wrapped hused hphase (by omega) hdying
  · intro hunwrapped
    refine ⟨fun before s hbefore hrun => ?_, fun a before s hsuffix hbefore => ?_⟩
    · exact (bumpResetRun_blocksInv (hunwrapped.of_suffix hbefore) hrun).blocks
    · rintro thr size s' rfl hphase hlarge hstep
      have hused := (bumpResetRun_counterOk hbefore).used
      have hfits := hunwrapped _ before s hsuffix hbefore thr size rfl hphase
      have hload : bumpStep pool s (.load thr) = some s' := hstep
      exact (bumpStep_cases hload).phase_of_oversized hused hphase hlarge hfits

end Misan
