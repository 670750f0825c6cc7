import Misan.Bump
import Misan.Foundation.Alignment

/-!
# The blocks of the bump allocator

The counter never passes the end of the pool, whatever is requested. Each block ends at or below the
counter and starts at or above where it was, so blocks are apart, as long as the new value was not
computed modulo `2 ^ 64`: the test that should refuse a request that large looks at the sum after it
has wrapped.
-/

namespace Misan

open Function

variable {Thr : Type} [DecidableEq Thr] {pool : DrtBumpPool} {s s' : BumpState Thr}
  {a : BumpAct Thr} {history before : List (BumpAct Thr)} {thr : Thr} {size : Addr}

/-- Every block lies in the pool, starts at a multiple of the pointer size, and is apart from every
other. -/
structure BlocksOk (pool : DrtBumpPool) (blocks : List (Addr × Addr)) : Prop where
  inside : ∀ b ∈ blocks, pool.base.toNat ≤ b.1.toNat ∧
    b.1.toNat + b.2.toNat ≤ pool.base.toNat + drtBumpPoolSize.toNat
  aligned : ∀ b ∈ blocks, b.1.toNat % 8 = 0
  apart : blocks.Pairwise fun b c =>
    b.1.toNat + b.2.toNat ≤ c.1.toNat ∨ c.1.toNat + c.2.toNat ≤ b.1.toNat

/-- Where the next block would end, in numbers that do not wrap around. -/
def bumpEnd (used size : Addr) : Nat := (used.toNat + 7) / 8 * 8 + size.toNat

/-- Every load of a request that does not fit ends in `drt_die`, for good. -/
def OversizedDie (pool : DrtBumpPool) (history : List (BumpAct Thr)) : Prop :=
  ∀ thr before s size, .load thr :: before <:+ history → bumpRun pool before = some s →
    s.phase thr = .looping size → drtBumpPoolSize.toNat < bumpEnd s.used size →
    ∀ later s', later ++ .load thr :: before <:+ history →
      bumpRun pool (later ++ .load thr :: before) = some s' → s'.phase thr = .dying

/-- A load does not compute a new value modulo `2 ^ 64`. -/
def BumpState.LoadsUnwrapped (s : BumpState Thr) (a : BumpAct Thr) : Prop :=
  ∀ thr size, a = .load thr → s.phase thr = .looping size → bumpEnd s.used size < 2 ^ 64

/-! ### The new value -/

theorem toNat_drtBumpPoolSize : drtBumpPoolSize.toNat = 262144 := rfl

theorem toNat_drtBumpNewv {used : Addr} (hused : used.toNat ≤ drtBumpPoolSize.toNat)
    (size : Addr) : (drtBumpNewv used size).toNat = bumpEnd used size % 2 ^ 64 := by
  rw [toNat_drtBumpPoolSize] at hused
  have hround : ((used + 7) &&& ~~~7).toNat = (used.toNat + 7) / 8 * 8 :=
    toNat_alignUp (k := 3) (by omega)
  rw [bumpEnd, ← hround]
  exact BitVec.toNat_add _ _

theorem drtBumpNewv_le_of_wraps {used : Addr} (hused : used.toNat ≤ drtBumpPoolSize.toNat)
    (hwraps : 2 ^ 64 ≤ bumpEnd used size) : drtBumpNewv used size ≤ drtBumpPoolSize := by
  have hsize := size.isLt
  rw [BitVec.le_def, toNat_drtBumpNewv hused]
  rw [bumpEnd] at hwraps ⊢
  rw [toNat_drtBumpPoolSize] at hused ⊢
  omega

/-! ### Steps -/

/-- What a step can do. -/
inductive BumpMove (pool : DrtBumpPool) (s : BumpState Thr) : BumpAct Thr → BumpState Thr → Prop
  | called {thr : Thr} {size : Addr} (hphase : s.phase thr = .outside) :
      BumpMove pool s (.call thr size) (s.enter thr (.looping size))
  | died {thr : Thr} {size : Addr} (hphase : s.phase thr = .looping size)
      (hlarge : drtBumpPoolSize < drtBumpNewv s.used size) :
      BumpMove pool s (.load thr) (s.enter thr .dying)
  | loaded {thr : Thr} {size : Addr} (hphase : s.phase thr = .looping size)
      (hsmall : drtBumpNewv s.used size ≤ drtBumpPoolSize) :
      BumpMove pool s (.load thr) (s.enter thr (.loaded size s.used (drtBumpNewv s.used size)))
  | returned {thr : Thr} {size newv : Addr} (hphase : s.phase thr = .loaded size s.used newv) :
      BumpMove pool s (.exchange thr) { s.enter thr .outside with
        used := newv
        blocks := (pool.base + (newv - size), size) :: s.blocks }
  | retried {thr : Thr} {size old newv : Addr} (hphase : s.phase thr = .loaded size old newv)
      (hchanged : s.used ≠ old) : BumpMove pool s (.exchange thr) (s.enter thr (.looping size))

theorem bumpStep_cases (h : bumpStep pool s a = some s') : BumpMove pool s a s' := by
  cases a with
  | call thr size =>
      rw [bumpStep] at h
      split at h
      · rename_i hphase
        cases h
        exact .called hphase
      · cases h
  | load thr =>
      rw [bumpStep] at h
      split at h
      · rename_i size hphase
        dsimp only at h
        split at h
        · rename_i hlarge
          cases h
          exact .died hphase hlarge
        · rename_i hsmall
          cases h
          exact .loaded hphase (BitVec.not_lt.mp hsmall)
      · cases h
  | exchange thr =>
      rw [bumpStep] at h
      split at h
      · rename_i size old newv hphase
        split at h
        · rename_i heq
          subst heq
          cases h
          exact .returned hphase
        · rename_i hchanged
          cases h
          exact .retried hphase hchanged
      · cases h

@[simp]
theorem BumpState.enter_phase_self (s : BumpState Thr) (thr : Thr) (phase : AllocPhase) :
    (s.enter thr phase).phase thr = phase :=
  update_self ..

theorem BumpState.enter_phase_of_ne {v : Thr} (hne : v ≠ thr) (phase : AllocPhase) :
    (s.enter thr phase).phase v = s.phase v :=
  update_of_ne hne ..

/-- What holds of every size, old value and new value a thread goes to the exchange with. -/
def BumpState.EachLoaded (s : BumpState Thr) (P : Addr → Addr → Addr → Prop) : Prop :=
  ∀ thr size old newv, s.phase thr = .loaded size old newv → P size old newv

theorem BumpState.EachLoaded.enter {P : Addr → Addr → Addr → Prop} {phase : AllocPhase}
    (h : s.EachLoaded P) (hnew : ∀ size old newv, phase = .loaded size old newv → P size old newv) :
    (s.enter thr phase).EachLoaded P := by
  intro v size old newv hv
  by_cases heq : v = thr
  · subst heq
    rw [enter_phase_self] at hv
    exact hnew size old newv hv
  · rw [enter_phase_of_ne heq] at hv
    exact h v size old newv hv

theorem BumpMove.dying (h : BumpMove pool s a s') (hdying : s.phase thr = .dying) :
    s'.phase thr = .dying := by
  have hother : ∀ {v phase}, s.phase v ≠ .dying → (s.enter v phase).phase thr = .dying := by
    intro v phase hv
    rw [BumpState.enter_phase_of_ne, hdying]
    rintro rfl
    exact hv hdying
  cases h with
  | called hphase | loaded hphase | retried hphase | died hphase | returned hphase =>
      apply hother
      rw [hphase]
      exact AllocPhase.noConfusion

/-! ### Whatever is requested -/

structure CounterOk (s : BumpState Thr) : Prop where
  used : s.used.toNat ≤ drtBumpPoolSize.toNat
  newv : s.EachLoaded fun _ _ newv => newv.toNat ≤ drtBumpPoolSize.toNat

theorem CounterOk.move (h : CounterOk s) (hmove : BumpMove pool s a s') : CounterOk s' := by
  cases hmove with
  | called | died | retried =>
      exact ⟨h.used, h.newv.enter fun _ _ _ heq => AllocPhase.noConfusion heq⟩
  | loaded hphase hsmall =>
      refine ⟨h.used, h.newv.enter fun size old newv heq => ?_⟩
      cases heq
      exact BitVec.le_def.mp hsmall
  | returned hphase =>
      exact ⟨h.newv _ _ _ _ hphase, h.newv.enter fun _ _ _ heq => AllocPhase.noConfusion heq⟩

theorem bumpRun_counterOk (h : bumpRun pool history = some s) : CounterOk s := by
  refine runFrom_invariant (P := fun _ _ => True) ⟨Nat.zero_le _, fun _ _ _ _ heq => ?_⟩ ?_
    (fun _ _ _ _ _ => trivial) h
  · cases heq
  · intro s a s' hs _ hstep
    exact hs.move (bumpStep_cases hstep)

/-! ### As long as no sum wraps around -/

structure BlocksInv (pool : DrtBumpPool) (s : BumpState Thr) : Prop where
  ends : s.EachLoaded fun size old newv => newv.toNat = bumpEnd old size
  below : ∀ b ∈ s.blocks, b.1.toNat + b.2.toNat ≤ pool.base.toNat + s.used.toNat
  blocks : BlocksOk pool s.blocks

theorem toNat_block (pool : DrtBumpPool) {used newv : Addr} (hnewv : newv.toNat = bumpEnd used size)
    (hle : newv.toNat ≤ drtBumpPoolSize.toNat) :
    (pool.base + (newv - size)).toNat = pool.base.toNat + (used.toNat + 7) / 8 * 8 := by
  have hfits := pool.fits
  rw [bumpEnd] at hnewv
  have hsize : size ≤ newv := BitVec.le_def.mpr (by omega)
  rw [BitVec.toNat_add, BitVec.toNat_sub_of_le hsize, hnewv, Nat.add_sub_cancel]
  exact Nat.mod_eq_of_lt (by omega)

theorem BlocksOk.cons {blocks : List (Addr × Addr)} {used newv : Addr} (h : BlocksOk pool blocks)
    (hbelow : ∀ b ∈ blocks, b.1.toNat + b.2.toNat ≤ pool.base.toNat + used.toNat)
    (hnewv : newv.toNat = bumpEnd used size) (hle : newv.toNat ≤ drtBumpPoolSize.toNat) :
    BlocksOk pool ((pool.base + (newv - size), size) :: blocks) := by
  have hstart := toNat_block pool hnewv hle
  rw [bumpEnd] at hnewv
  have haligned := pool.aligned
  refine ⟨fun b hb => ?_, fun b hb => ?_, List.pairwise_cons.mpr ⟨fun b hb => ?_, h.apart⟩⟩
  · rcases List.mem_cons.mp hb with rfl | hb
    · dsimp only
      omega
    · exact h.inside b hb
  · rcases List.mem_cons.mp hb with rfl | hb
    · dsimp only
      omega
    · exact h.aligned b hb
  · have hend := hbelow b hb
    right
    dsimp only
    omega

theorem BlocksInv.move (h : BlocksInv pool s) (hcounter : CounterOk s)
    (hunwrapped : s.LoadsUnwrapped a) (hmove : BumpMove pool s a s') : BlocksInv pool s' := by
  cases hmove with
  | called | died | retried =>
      exact ⟨h.ends.enter fun _ _ _ heq => AllocPhase.noConfusion heq, h.below, h.blocks⟩
  | @loaded thr size hphase hsmall =>
      refine ⟨h.ends.enter fun _ _ _ heq => ?_, h.below, h.blocks⟩
      cases heq
      rw [toNat_drtBumpNewv hcounter.used]
      exact Nat.mod_eq_of_lt (hunwrapped thr size rfl hphase)
  | @returned thr size newv hphase =>
      have hnewv : newv.toNat = bumpEnd s.used size := h.ends _ _ _ _ hphase
      have hle : newv.toNat ≤ drtBumpPoolSize.toNat := hcounter.newv _ _ _ _ hphase
      refine ⟨h.ends.enter fun _ _ _ heq => AllocPhase.noConfusion heq, fun b hb => ?_,
        h.blocks.cons h.below hnewv hle⟩
      have hstart := toNat_block pool hnewv hle
      rw [bumpEnd] at hnewv
      rcases List.mem_cons.mp hb with rfl | hb
      · dsimp only
        omega
      · have hend := h.below b hb
        dsimp only
        omega

theorem bumpRun_blocksInv
    (hunwrapped : EachStep (bumpStep pool) (.initial Thr) BumpState.LoadsUnwrapped history)
    (h : bumpRun pool history = some s) : BlocksInv pool s := by
  have hinv : CounterOk s ∧ BlocksInv pool s := by
    refine runFrom_invariant (I := fun s => CounterOk s ∧ BlocksInv pool s) ?_ ?_ hunwrapped h
    · refine ⟨⟨Nat.zero_le _, fun _ _ _ _ heq => ?_⟩, fun _ _ _ _ heq => ?_, fun b hb => ?_, ?_⟩
      · cases heq
      · cases heq
      · cases hb
      · exact ⟨fun b hb => (List.not_mem_nil hb).elim, fun b hb => (List.not_mem_nil hb).elim,
          .nil⟩
    · rintro s a s' ⟨hcounter, hblocks⟩ hload hstep
      have hmove := bumpStep_cases hstep
      exact ⟨hcounter.move hmove, hblocks.move hcounter hload hmove⟩
  exact hinv.2

/-- A load of a request that does not fit dies, unless the sum wraps around. -/
theorem BumpMove.phase_of_oversized (h : BumpMove pool s (.load thr) s')
    (hused : s.used.toNat ≤ drtBumpPoolSize.toNat) (hphase : s.phase thr = .looping size)
    (hlarge : drtBumpPoolSize.toNat < bumpEnd s.used size)
    (hunwrapped : bumpEnd s.used size < 2 ^ 64) : s'.phase thr = .dying := by
  cases h with
  | died => exact BumpState.enter_phase_self ..
  | @loaded _ size' hphase' hsmall =>
      have heq : AllocPhase.looping size = .looping size' := hphase.symm.trans hphase'
      cases heq
      rw [BitVec.le_def, toNat_drtBumpNewv hused, Nat.mod_eq_of_lt hunwrapped] at hsmall
      exact absurd hlarge (Nat.not_lt.mpr hsmall)

/-- A load whose sum wraps around does not die. -/
theorem BumpMove.phase_of_wrapped (h : BumpMove pool s (.load thr) s')
    (hused : s.used.toNat ≤ drtBumpPoolSize.toNat) (hphase : s.phase thr = .looping size)
    (hwraps : 2 ^ 64 ≤ bumpEnd s.used size) : s'.phase thr ≠ .dying := by
  cases h with
  | @died _ size' hphase' hlarge =>
      have heq : AllocPhase.looping size = .looping size' := hphase.symm.trans hphase'
      cases heq
      exact absurd (drtBumpNewv_le_of_wraps hused hwraps) (BitVec.not_le.mpr hlarge)
  | loaded =>
      rw [BumpState.enter_phase_self]
      exact AllocPhase.noConfusion

theorem oversizedDie_of_unwrapped
    (hunwrapped : EachStep (bumpStep pool) (.initial Thr) BumpState.LoadsUnwrapped history) :
    OversizedDie pool history := by
  intro thr before s size hsuffix hbefore hphase hlarge later s' _ hrun
  obtain ⟨s₁, hs₁⟩ := exists_runFrom_of_suffix (List.suffix_append later _) hrun
  obtain ⟨s₀, hs₀, hload⟩ := runFrom_cons_eq_some.mp hs₁
  cases hbefore.symm.trans hs₀
  have hused := (bumpRun_counterOk hbefore).used
  have hfits := hunwrapped _ before s hsuffix hbefore thr size rfl hphase
  have hdying := (bumpStep_cases hload).phase_of_oversized hused hphase hlarge hfits
  exact runFrom_preserves (I := fun s => s.phase thr = .dying)
    (fun _ _ _ hs hstep => (bumpStep_cases hstep).dying hs) hs₁ hdying hrun

theorem exists_bumpStep_load (pool : DrtBumpPool) (hphase : s.phase thr = .looping size) :
    ∃ s', bumpStep pool s (.load thr) = some s' := by
  by_cases hlarge : drtBumpNewv s.used size > drtBumpPoolSize
  · refine ⟨s.enter thr .dying, ?_⟩
    rw [bumpStep, hphase]
    exact if_pos hlarge
  · refine ⟨s.enter thr (.loaded size s.used (drtBumpNewv s.used size)), ?_⟩
    rw [bumpStep, hphase]
    exact if_neg hlarge

/-- **The bump allocator.** Over any interleaving, all blocks returned are in the pool, aligned and
apart, and every request that does not fit dies, exactly when no load finds a counter whose rounded
value and the requested size add up to `2 ^ 64` or more. -/
theorem bump_blocks_iff (pool : DrtBumpPool) (history : List (BumpAct Thr)) :
    ((∀ before s, before <:+ history → bumpRun pool before = some s → BlocksOk pool s.blocks) ∧
      OversizedDie pool history) ↔
        EachStep (bumpStep pool) (.initial Thr) BumpState.LoadsUnwrapped history := by
  constructor
  · rintro ⟨-, hdie⟩ a before s hsuffix hbefore thr size rfl hphase
    by_contra hwraps
    obtain ⟨s', hload⟩ := exists_bumpStep_load pool hphase
    have hrun := runFrom_cons_eq_some.mpr ⟨s, hbefore, hload⟩
    have hlarge : drtBumpPoolSize.toNat < bumpEnd s.used size := by
      rw [toNat_drtBumpPoolSize]
      omega
    have hdying := hdie thr before s size hsuffix hbefore hphase hlarge [] s' hsuffix hrun
    have hused := (bumpRun_counterOk hbefore).used
    exact (bumpStep_cases hload).phase_of_wrapped hused hphase (by omega) hdying
  · intro hunwrapped
    refine ⟨fun before s hbefore hrun => ?_, oversizedDie_of_unwrapped hunwrapped⟩
    exact (bumpRun_blocksInv (hunwrapped.of_suffix hbefore) hrun).blocks

/-- A call that nothing interferes with. -/
def bumpCall (size : Addr) : List (BumpAct Unit) := [.exchange (), .load (), .call () size]

/-- Eight bytes, and then a size for which the new value is zero: the counter starts again at the
bottom of the pool, and the next eight bytes are the first eight once more. -/
theorem not_bump_blocks :
    ¬ ∀ (pool : DrtBumpPool) (history : List (BumpAct Unit)),
      (∀ before s, before <:+ history → bumpRun pool before = some s →
        BlocksOk pool s.blocks) ∧ OversizedDie pool history := by
  intro hall
  let pool : DrtBumpPool := ⟨4096, by decide, by decide⟩
  let history := bumpCall 8 ++ (bumpCall (0 - 8) ++ bumpCall 8)
  have hrun : (bumpRun pool history).map BumpState.blocks =
      some [(4096, 8), (4104, 0 - 8), (4096, 8)] := by decide
  obtain ⟨s, hs, hblocks⟩ := Option.map_eq_some_iff.mp hrun
  have hapart := ((hall pool history).1 history s (List.suffix_refl _) hs).apart
  rw [hblocks] at hapart
  have hmem : ((4096, 8) : Addr × Addr) ∈ [(4104, 0 - 8), (4096, 8)] := by decide
  have hsame := List.rel_of_pairwise_cons hapart hmem
  revert hsame
  decide

end Misan
