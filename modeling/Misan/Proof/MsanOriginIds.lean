import Misan.MsanOrigins

/-!
# Origin ids of concurrent calls

The counter wraps around by an addition and a separate store. As long as no addition falls between
the two, the ids run through the table and an id comes back only after `65533` others. The first
addition that does fall between them is given the id `1` a second time in a row.
-/

namespace Misan

open Function

variable {Thr : Type} [DecidableEq Thr] {s s' : OriginThreads Thr} {a : OriginAct Thr}
  {history : List (OriginAct Thr)} {thr : Thr} {n k : Nat} {id : OriginId} {ids : List OriginId}

/-- Every id is one of the table but `0`, and between two calls with the same id there are at least
`65533` others. -/
structure OriginIdsApart (ids : List OriginId) : Prop where
  bounds : ∀ id ∈ ids, 1 ≤ id.val ∧ id.val ≤ 65535
  apart : ∀ later id between before, ids = later ++ id :: (between ++ id :: before) →
    65533 ≤ between.length

/-- No call is between its addition and its store. -/
def OriginThreads.Settled (s : OriginThreads Thr) : Prop := ∀ thr, s.phase thr = .outside

omit [DecidableEq Thr] in
theorem OriginThreads.Settled.not_wrapping (h : s.Settled) (thr : Thr) :
    s.phase thr ≠ .wrapping := by
  rw [h thr]
  decide

/-- A call is only begun while no other is about to reset the counter. -/
def AddsSettled (s : OriginThreads Thr) (a : OriginAct Thr) : Prop :=
  ∀ thr, a = .add thr → s.Settled

/-! ### The ids in their order -/

/-- The `n`-th call, counting from `1`, meets the end of the table. -/
def WrapsAt (n : Nat) : Prop := 1 < n ∧ (n - 1) % 65534 = 0

instance : DecidablePred WrapsAt := fun n => inferInstanceAs (Decidable (1 < n ∧ _))

/-- The counter after `n` calls that have all run to their ends. -/
def originCounterAfter (n : Nat) : Nat := if n = 0 then 1 else (n - 1) % 65534 + 2

/-- The id of the `n`-th call. -/
def originIdAt (n : Nat) : Nat := if WrapsAt n then 1 else originCounterAfter n

theorem originCounterAfter_of_pos (hn : 0 < n) : originCounterAfter n = (n - 1) % 65534 + 2 :=
  if_neg (Nat.ne_of_gt hn)

theorem originCounterAfter_succ (hn : ¬ WrapsAt (n + 1)) :
    originCounterAfter (n + 1) = originCounterAfter n + 1 := by
  rw [WrapsAt] at hn
  rw [originCounterAfter, originCounterAfter]
  split <;> split <;> omega

theorem originCounterAfter_of_wraps (hn : WrapsAt (n + 1)) : originCounterAfter n = 65535 := by
  rw [WrapsAt] at hn
  rw [originCounterAfter]
  split <;> omega

theorem originCounterAfter_lt (n : Nat) : originCounterAfter n < 65536 := by
  rw [originCounterAfter]
  split <;> omega

theorem originIdAt_pos (n : Nat) : 1 ≤ originIdAt n := by
  rw [originIdAt]
  split
  · exact le_refl 1
  · rw [originCounterAfter]
    split <;> omega

theorem originIdAt_apart (hk : 0 < k) (hlt : k < n) (heq : originIdAt k = originIdAt n) :
    65534 ≤ n - k := by
  rw [originIdAt, originIdAt, originCounterAfter_of_pos hk,
    originCounterAfter_of_pos (hk.trans hlt)] at heq
  split at heq <;> split at heq <;> (simp only [WrapsAt] at *; omega)

/-- The ids are those of the first calls, the latest first. -/
def InOrder : List OriginId → Prop
  | [] => True
  | id :: ids => id.val = originIdAt (ids.length + 1) ∧ InOrder ids

theorem InOrder.of_append {later : List OriginId} (h : InOrder (later ++ ids)) : InOrder ids := by
  induction later with
  | nil => exact h
  | cons _ later ih => exact ih h.2

theorem InOrder.apart (h : InOrder ids) : OriginIdsApart ids where
  bounds := by
    intro id hid
    obtain ⟨later, before, rfl⟩ := List.mem_iff_append.mp hid
    refine ⟨?_, Nat.le_of_lt_succ id.isLt⟩
    rw [h.of_append.1]
    exact originIdAt_pos _
  apart := by
    rintro later id between before rfl
    have hlatest := h.of_append.1
    have hearlier := h.of_append.2.of_append.1
    have hgap := originIdAt_apart (Nat.succ_pos before.length) ?_ (hearlier.symm.trans hlatest)
    · rw [List.length_append, List.length_cons] at hgap
      omega
    · rw [List.length_append, List.length_cons]
      omega

/-! ### Steps -/

theorem originStep_add_eq_some :
    originStep s (.add thr) = some s' ↔ s.phase thr = .outside ∧
      s' =
        { msanOriginCounter := s.msanOriginCounter + 1
          phase := if (s.msanOriginCounter + 1).toNat ≥ msanMaxOrigins
            then update s.phase thr .wrapping else s.phase
          ids := msanOriginIdOf (s.msanOriginCounter + 1) :: s.ids } := by
  cases hphase : s.phase thr <;> simp [originStep, hphase, eq_comm]

theorem originStep_store_eq_some :
    originStep s (.store thr) = some s' ↔ s.phase thr = .wrapping ∧
      s' = ⟨2, update s.phase thr .outside, s.ids⟩ := by
  cases hphase : s.phase thr <;> simp [originStep, hphase, eq_comm]

/-! ### The invariant of runs that keep additions and resets apart -/

structure OriginIdsOk (s : OriginThreads Thr) : Prop where
  inOrder : InOrder s.ids
  settled : s.Settled → s.msanOriginCounter.toNat = originCounterAfter s.ids.length
  wrapping : ∀ thr, s.phase thr = .wrapping → s.msanOriginCounter.toNat = 65536 ∧
    WrapsAt s.ids.length ∧ ∀ thr', s.phase thr' = .wrapping → thr' = thr

omit [DecidableEq Thr] in
theorem originIdsOk_initial : OriginIdsOk (OriginThreads.initial Thr) where
  inOrder := trivial
  settled := fun _ => rfl
  wrapping := by
    intro thr hthr
    cases hthr

theorem OriginIdsOk.add (h : OriginIdsOk s) (hs : s.Settled)
    (hstep : originStep s (.add thr) = some s') : OriginIdsOk s' := by
  obtain ⟨-, rfl⟩ := originStep_add_eq_some.mp hstep
  have hcounter := h.settled hs
  have hlt := originCounterAfter_lt s.ids.length
  have hnext : (s.msanOriginCounter + 1).toNat = originCounterAfter s.ids.length + 1 := by
    rw [BitVec.toNat_add, hcounter]
    exact Nat.mod_eq_of_lt (Nat.lt_of_le_of_lt hlt (by decide))
  by_cases hwraps : WrapsAt (s.ids.length + 1)
  · have hend : (s.msanOriginCounter + 1).toNat = 65536 := by
      rw [hnext, originCounterAfter_of_wraps hwraps]
    have hge : (s.msanOriginCounter + 1).toNat ≥ msanMaxOrigins := hend.ge
    have hid : (msanOriginIdOf (s.msanOriginCounter + 1)).val = originIdAt (s.ids.length + 1) := by
      rw [msanOriginIdOf_of_ge hge, originIdAt, if_pos hwraps]
      rfl
    rw [if_pos hge]
    refine ⟨⟨hid, h.inOrder⟩, ?_, ?_⟩
    · intro hs'
      have hthr := hs' thr
      simp at hthr
    · have honly : ∀ thr', update s.phase thr .wrapping thr' = .wrapping → thr' = thr := by
        intro thr' hthr'
        by_contra hne
        rw [update_of_ne hne] at hthr'
        exact hs.not_wrapping thr' hthr'
      intro thr' hthr'
      exact ⟨hend, hwraps, fun thr'' hthr'' => (honly thr'' hthr'').trans (honly thr' hthr').symm⟩
  · have hsucc := originCounterAfter_succ hwraps
    have hend : ¬ (s.msanOriginCounter + 1).toNat ≥ msanMaxOrigins := by
      rw [hnext, ← hsucc]
      exact Nat.not_le.mpr (originCounterAfter_lt _)
    have hid : (msanOriginIdOf (s.msanOriginCounter + 1)).val = originIdAt (s.ids.length + 1) := by
      rw [msanOriginIdOf_of_lt (Nat.not_le.mp hend), originIdAt, if_neg hwraps, hsucc]
      exact hnext
    rw [if_neg hend]
    refine ⟨⟨hid, h.inOrder⟩, fun _ => hnext.trans hsucc.symm, ?_⟩
    intro thr' hthr'
    exact absurd hthr' (hs.not_wrapping thr')

theorem OriginIdsOk.store (h : OriginIdsOk s) (hstep : originStep s (.store thr) = some s') :
    OriginIdsOk s' := by
  obtain ⟨hphase, rfl⟩ := originStep_store_eq_some.mp hstep
  obtain ⟨-, hwraps, hthr⟩ := h.wrapping thr hphase
  have hout : ∀ thr', update s.phase thr .outside thr' ≠ .wrapping := by
    intro thr'
    by_cases heq : thr' = thr
    · rw [heq, update_self]
      decide
    · rw [update_of_ne heq]
      exact fun hthr' => heq (hthr thr' hthr')
  refine ⟨h.inOrder, fun _ => ?_, fun thr' hthr' => absurd hthr' (hout thr')⟩
  rw [originCounterAfter_of_pos (Nat.lt_of_succ_lt hwraps.1), hwraps.2]
  rfl

theorem originRun_idsOk (hadds : EachStep originStep (.initial Thr) AddsSettled history)
    (h : originRun history = some s) : OriginIdsOk s := by
  refine runFrom_invariant originIdsOk_initial ?_ hadds h
  intro s a s' hs hadd hstep
  cases a with
  | add thr => exact hs.add (hadd thr rfl) hstep
  | store thr => exact hs.store hstep

/-! ### An addition between another and its store -/

theorem OriginIdsApart.of_suffix {ids' : List OriginId} (h : OriginIdsApart ids')
    (hsuffix : ids <:+ ids') : OriginIdsApart ids := by
  obtain ⟨latest, rfl⟩ := hsuffix
  refine ⟨fun id hid => h.bounds id (List.mem_append_right latest hid), ?_⟩
  intro later id between before hids
  exact h.apart (latest ++ later) id between before (by rw [hids, List.append_assoc])

theorem originStep_ids_suffix (hstep : originStep s a = some s') : s.ids <:+ s'.ids := by
  cases a with
  | add thr =>
      obtain ⟨-, rfl⟩ := originStep_add_eq_some.mp hstep
      exact List.suffix_cons _ _
  | store thr =>
      obtain ⟨-, rfl⟩ := originStep_store_eq_some.mp hstep
      exact List.suffix_refl _

/-- An addition while a store is outstanding is given the id `1` right after another one was. -/
theorem OriginIdsOk.not_apart_add (h : OriginIdsOk s) (hs : ¬ s.Settled)
    (hstep : originStep s (.add thr) = some s') : ¬ OriginIdsApart s'.ids := by
  obtain ⟨-, rfl⟩ := originStep_add_eq_some.mp hstep
  obtain ⟨thr', hthr'⟩ := not_forall.mp hs
  have hphase : s.phase thr' = .wrapping := by
    cases hcase : s.phase thr' with
    | outside => exact absurd hcase hthr'
    | wrapping => rfl
  obtain ⟨hcounter, hwraps, -⟩ := h.wrapping thr' hphase
  have hfirst : msanOriginIdOf (s.msanOriginCounter + 1) = firstOriginId := by
    apply msanOriginIdOf_of_ge
    rw [BitVec.toNat_add, hcounter]
    decide
  intro hapart
  have hids := h.inOrder
  cases hlog : s.ids with
  | nil =>
      rw [hlog] at hwraps
      exact Nat.not_lt_zero 1 hwraps.1
  | cons id ids =>
      rw [hlog] at hwraps hids hapart
      have hsame : id = firstOriginId := Fin.ext (hids.1.trans (if_pos hwraps))
      rw [hfirst, hsame] at hapart
      exact Nat.not_succ_le_zero _ (hapart.apart [] firstOriginId [] ids rfl)

/-- **Origin ids** are apart in the runs in which no call is begun while another is about to reset
the counter, and in no others. -/
theorem originRun_idsApart_iff (h : originRun history = some s) :
    OriginIdsApart s.ids ↔ EachStep originStep (.initial Thr) AddsSettled history := by
  refine ⟨fun hapart => ?_, fun hadds => (originRun_idsOk hadds h).inOrder.apart⟩
  induction history generalizing s with
  | nil => exact EachStep.nil
  | cons a history ih =>
      obtain ⟨s₀, hs₀, hstep⟩ := runFrom_cons_eq_some.mp h
      have hbefore := ih hs₀ (hapart.of_suffix (originStep_ids_suffix hstep))
      apply hbefore.cons hs₀
      rintro thr rfl
      by_contra hs
      exact (originRun_idsOk hbefore hs₀).not_apart_add hs hstep hapart

/-- Two calls of two threads, the first of the run. -/
def twoOrigins : List (OriginAct Bool) := [.add true, .add false]

theorem originRun_idsApart_twoOrigins :
    ∃ s, originRun twoOrigins = some s ∧ OriginIdsApart s.ids := by
  refine ⟨_, rfl, (originRun_idsApart_iff (show originRun twoOrigins = some _ from rfl)).mpr ?_⟩
  refine EachStep.cons ?_ rfl fun _ _ _ => rfl
  exact EachStep.nil.cons rfl fun _ _ _ => rfl

/-- `n` calls have been made and have all run to their ends, none of them at that of the table. -/
structure CallsEnded (n : Nat) (s : OriginThreads Thr) : Prop where
  settled : s.Settled
  counter : s.msanOriginCounter = BitVec.ofNat 32 (n + 1)

theorem CallsEnded.add (h : CallsEnded n s) (thr : Thr) (hn : n < 65534) :
    ∃ s', originStep s (.add thr) = some s' ∧ CallsEnded (n + 1) s' := by
  have hlt := msanOriginCounter_next_lt h.counter hn
  refine ⟨_, originStep_add_eq_some.mpr ⟨h.settled thr, rfl⟩, ?_, msanOriginCounter_next h.counter⟩
  rw [if_neg (Nat.not_le.mpr hlt)]
  exact h.settled

/-- One thread makes `65535` calls, and another one calls before the store of the last. -/
theorem msanOrigin_given_twice :
    ¬ ∀ (history : List (OriginAct Bool)) (s : OriginThreads Bool), originRun history = some s →
      OriginIdsApart s.ids := by
  intro hclaim
  obtain ⟨s, hrun, hs, hcounter⟩ : ∃ s,
      originRun (List.replicate 65534 (.add false)) = some s ∧ CallsEnded 65534 s :=
    exists_runFrom_replicate ⟨fun _ => rfl, rfl⟩ (fun n hn s h => h.add false hn) (le_refl 65534)
  have hnext : s.msanOriginCounter + 1 = 65536 := msanOriginCounter_next hcounter
  let first : OriginThreads Bool :=
    ⟨65536, update s.phase false .wrapping, firstOriginId :: s.ids⟩
  have hfirst : originStep s (.add false) = some first := by
    rw [originStep_add_eq_some, hnext]
    exact ⟨hs false, rfl⟩
  have hphase : first.phase true = .outside := hs true
  have hrun' := runFrom_cons_eq_some.mpr ⟨first, runFrom_cons_eq_some.mpr ⟨s, hrun, hfirst⟩,
    originStep_add_eq_some.mpr ⟨hphase, rfl⟩⟩
  exact Nat.not_succ_le_zero _ ((hclaim _ _ hrun').apart [] firstOriginId [] s.ids rfl)

/-! ### A call alone -/

/-- A call nothing interferes with does to the counter what `msan_alloc_origin` does. -/
theorem originCall_eq (o : MsanOrigins) (now : BitVec 64) (captured : DrtStackTrace)
    (hcounter : s.msanOriginCounter = o.msanOriginCounter) (hphase : s.phase thr = .outside) :
    originCall s thr = some
      { msanOriginCounter := (msanAllocOrigin o now captured).2.msanOriginCounter
        phase := s.phase
        ids := (msanAllocOrigin o now captured).1 :: s.ids } := by
  rw [originCall, originStep_add_eq_some.mpr ⟨hphase, rfl⟩, Option.bind_some, hcounter]
  by_cases hwraps : (o.msanOriginCounter + 1).toNat ≥ msanMaxOrigins
  · have hstore : update (update s.phase thr .wrapping) thr .outside = s.phase := by
      rw [update_idem, ← hphase, update_eq_self]
    simp only [if_pos hwraps, update_self, originStep, hstore, msanAllocOrigin]
  · simp only [if_neg hwraps, hphase, msanAllocOrigin]

end Misan
