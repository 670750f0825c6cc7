import Misan.UbsanThreads
import Misan.Proof.UbsanHandlers

/-!
# Reports stay whole

Leaving out what was printed without the lock, the output is one whole report after another, and a
part of one more while the lock is held. That a report is whole is also what it takes to give the
lock back: one with an address of fewer than sixteen digits keeps it, and nobody else gets to
report anything.
-/

namespace Misan

variable {Thread : Type} [DecidableEq Thread] {budget : Nat} {s s' : UbsanThreads Thread}
  {act : UbsanThreadAct Thread} {acts later : List (UbsanThreadAct Thread)} {t : Thread}
  {c : UbsanLockedCall × DrtStackTrace} {l : PrintPoint Byte}

/-! ### One report -/

def reportText (c : UbsanLockedCall × DrtStackTrace) : List Byte := c.1.text c.2

/-- Every address in the report has sixteen digits. -/
def ReportFits (c : UbsanLockedCall × DrtStackTrace) : Prop :=
  ∀ v ∈ c.1.pointers ++ c.2.pcs, SixteenDigits v

/-- A handler that comes to its abort alone has printed its text, with all the digits. -/
theorem ubsanPrinted_of_ends (hends : (ubsanPrinted budget c).ends = true) :
    ReportFits c ∧ (ubsanPrinted budget c).left = reportText c := by
  obtain ⟨ap, hstops⟩ := ubsanLockedRun_aborts c.2 c.1 ⟨[], []⟩
  rw [ubsanPrinted] at hends ⊢
  split at hends
  · next st hrun =>
      obtain ⟨hfits, rfl⟩ := hstops.sound budget st hrun
      exact ⟨hfits, rfl⟩
  · cases hends
  · cases hends

theorem exists_ubsanPrinted_eq (hfits : ReportFits c) :
    ∃ N, ∀ budget, N ≤ budget → ubsanPrinted budget c = ⟨reportText c, true⟩ := by
  obtain ⟨ap, hstops⟩ := ubsanLockedRun_aborts c.2 c.1 ⟨[], []⟩
  obtain ⟨N, hN⟩ := hstops.total hfits
  refine ⟨N, fun budget hbudget => ?_⟩
  rw [ubsanPrinted, hN budget hbudget]
  rfl

/-- The reports of the returned calls, one after another. -/
def reportsOf {τ : Type}
    (returned : List (τ × (UbsanLockedCall × DrtStackTrace) × PrintPoint Byte)) : List Byte :=
  returned.reverse.flatMap fun r => reportText r.2.1

theorem printsOfReturned_ubsanPrinted {τ : Type}
    {returned : List (τ × (UbsanLockedCall × DrtStackTrace) × PrintPoint Byte)}
    (hends : ∀ r ∈ returned, (ubsanPrinted budget r.2.1).ends = true) :
    printsOfReturned (ubsanPrinted budget) returned = reportsOf returned := by
  refine List.flatMap_congr fun r hr => ?_
  exact (ubsanPrinted_of_ends (hends r (List.mem_reverse.mp hr))).2

/-! ### Steps -/

/-- What was printed under the lock, or by one thread without it. -/
def printsOf (who : Option Thread) (out : List (Option Thread × Byte)) : List Byte :=
  out.filterMap fun p => if p.1 = who then some p.2 else none

theorem printsOf_append (who : Option Thread) (out new : List (Option Thread × Byte)) :
    printsOf who (out ++ new) = printsOf who out ++ printsOf who new :=
  List.filterMap_append

/-- Bytes printed by one. -/
theorem printsOf_map (who whose : Option Thread) (bs : List Byte) :
    printsOf who (bs.map fun b => (whose, b)) = if whose = who then bs else [] := by
  rw [printsOf, List.filterMap_map]
  by_cases hwho : whose = who
  · simp [hwho]
  · simp [hwho]

/-- The reports of float casts a thread has begun, the latest first. -/
def floatCastsOf (t : Thread) (acts : List (UbsanThreadAct Thread)) :
    List UbsanFloatCastOverflowData :=
  acts.filterMap fun
    | .floatCast u data => if u = t then some data else none
    | _ => none

/-- What an action does to the threads at the lock, and to the output. -/
inductive UbsanThreads.Move (budget : Nat) (s : UbsanThreads Thread) :
    UbsanThreadAct Thread → UbsanThreads Thread → Prop
  | call {t call st locked}
      (hstep : lockStep (ubsanCritical budget) s.locked (.call t (call, st)) = some locked) :
      Move budget s (.call t call st) { s with locked := locked }
  | step {t locked} (hstep : lockStep (ubsanCritical budget) s.locked (.step t) = some locked) :
      Move budget s (.step t)
        { s with
          locked := locked
          out := s.out ++ (locked.shared.drop s.locked.shared.length).map fun b => (none, b) }
  | floatCast {t data} (hleft : s.casting t = []) :
      Move budget s (.floatCast t data)
        { s with casting := Function.update s.casting t (ubsanFloatCastPrinted budget data) }
  | castStep {t b left} (hleft : s.casting t = b :: left) :
      Move budget s (.castStep t)
        { s with casting := Function.update s.casting t left, out := s.out ++ [(some t, b)] }

theorem ubsanThreadStep_move (h : ubsanThreadStep budget s act = some s') :
    s.Move budget act s' := by
  cases act with
  | call t call st =>
      rw [ubsanThreadStep] at h
      split at h
      · obtain ⟨locked, hlocked, rfl⟩ := Option.map_eq_some_iff.mp h
        exact .call hlocked
      · cases h
  | step t =>
      rw [ubsanThreadStep] at h
      obtain ⟨locked, hlocked, rfl⟩ := Option.map_eq_some_iff.mp h
      exact .step hlocked
  | floatCast t data =>
      rw [ubsanThreadStep] at h
      split at h
      · next hidle =>
          cases h
          have hempty := (Bool.and_eq_true_iff.mp hidle).2
          exact .floatCast (List.isEmpty_iff.mp hempty)
      · cases h
  | castStep t =>
      rw [ubsanThreadStep] at h
      split at h
      · cases h
      · next hleft =>
          cases h
          exact .castStep hleft

/-- The sections that have ended, and the output under the lock. -/
structure UbsanThreads.Whole (budget : Nat) (s : UbsanThreads Thread) : Prop where
  serialized : ∃ out, Serialized (ubsanCritical budget) [] out s.locked
  shared : printsOf none s.out = s.locked.shared

theorem UbsanThreads.Whole.move (h : s.Whole budget) (hmove : s.Move budget act s') :
    s'.Whole budget := by
  obtain ⟨out, hserialized⟩ := h.serialized
  cases hmove with
  | call hstep =>
      obtain ⟨out', hserialized', -⟩ := hserialized.move (lockStep_move hstep)
      obtain ⟨-, rfl⟩ := lockStep_call hstep
      exact ⟨⟨out', hserialized'⟩, h.shared⟩
  | @step t locked hstep =>
      obtain ⟨out', hserialized', -⟩ := hserialized.move (lockStep_move hstep)
      refine ⟨⟨out', hserialized'⟩, ?_⟩
      obtain ⟨new, hnew⟩ := printing_shared hstep
      rw [printsOf_append, h.shared, printsOf_map, if_pos rfl, ← hnew, List.drop_left]
  | floatCast => exact ⟨⟨out, hserialized⟩, h.shared⟩
  | @castStep t b left hleft =>
      refine ⟨⟨out, hserialized⟩, ?_⟩
      have hnone : printsOf none [(some t, b)] = [] := by simp [printsOf]
      rw [printsOf_append, h.shared, hnone, List.append_nil]

theorem ubsanThreads_whole
    (h : runFrom (ubsanThreadStep budget) (.initial Thread) acts = some s) : s.Whole budget := by
  refine runFrom_invariant (P := fun _ _ => True) ⟨⟨[], Serialized.initial _ _⟩, rfl⟩ ?_
    (fun _ _ _ _ _ => trivial) h
  intro s act s' hs _ hstep
  exact hs.move (ubsanThreadStep_move hstep)

theorem ubsanThreads_underLock
    (h : runFrom (ubsanThreadStep budget) (.initial Thread) acts = some s) :
    (∀ r ∈ s.locked.returned, ReportFits r.2.1) ∧
      ∃ printed, printsOf none s.out = reportsOf s.locked.returned ++ printed ∧
        (s.locked.lock = false → printed = []) ∧
        (s.locked.lock = true → ∃ t c l, s.locked.phase t = .inside c l) ∧
        ∀ t c l, s.locked.phase t = .inside c l →
          printed ++ l.left = (ubsanPrinted budget c).left := by
  have hwhole := ubsanThreads_whole h
  obtain ⟨out, hserialized⟩ := hwhole.serialized
  obtain ⟨hends, printed, hprinted, hfree, hheld, hinside⟩ := hserialized.whole
  refine ⟨fun r hr => (ubsanPrinted_of_ends (hends r hr)).1, printed, ?_, hfree, hheld,
    fun t c l ht => (hinside t c l ht).1⟩
  rw [hwhole.shared, hprinted, printsOfReturned_ubsanPrinted hends]

/-- The output of a thread without the lock, and what it has left, grow by the reports it begins. -/
theorem UbsanThreads.Move.casting (hmove : s.Move budget act s') (t : Thread) :
    printsOf (some t) s'.out ++ s'.casting t =
      printsOf (some t) s.out ++ s.casting t ++
        (floatCastsOf t [act]).flatMap (ubsanFloatCastPrinted budget) := by
  cases hmove with
  | call => simp [floatCastsOf]
  | step =>
      rw [printsOf_append, printsOf_map]
      simp [floatCastsOf]
  | @floatCast u data hleft =>
      by_cases hut : u = t
      · subst hut
        simp [floatCastsOf, hleft]
      · have htu : t ≠ u := fun heq => hut heq.symm
        simp [floatCastsOf, hut, htu]
  | @castStep u b left hleft =>
      rw [printsOf_append]
      by_cases hut : u = t
      · subst hut
        simp [floatCastsOf, printsOf, hleft]
      · have htu : t ≠ u := fun heq => hut heq.symm
        simp [floatCastsOf, printsOf, hut, htu]

/-- What a thread has printed outside the lock and what it has left to print are its reports. -/
theorem ubsanThreads_casting
    (h : runFrom (ubsanThreadStep budget) (.initial Thread) acts = some s) (t : Thread) :
    printsOf (some t) s.out ++ s.casting t =
      (floatCastsOf t acts).reverse.flatMap (ubsanFloatCastPrinted budget) := by
  induction acts generalizing s with
  | nil =>
      cases h
      rfl
  | cons act acts ih =>
      obtain ⟨s₀, hs₀, hstep⟩ := runFrom_cons_eq_some.mp h
      have hcons : floatCastsOf t (act :: acts) = floatCastsOf t [act] ++ floatCastsOf t acts :=
        List.filterMap_append (l := [act])
      have hone : (floatCastsOf t [act]).reverse = floatCastsOf t [act] := by
        cases act with
        | floatCast u data => by_cases hut : u = t <;> simp [floatCastsOf, hut]
        | _ => rfl
      rw [(ubsanThreadStep_move hstep).casting t, ih hs₀, hcons, List.reverse_append,
        List.flatMap_append, hone]

/-- **Reports stay whole** in every interleaving. What is printed under the lock is the whole
reports of the calls that have given it back, in that order, and the first part of one more report
while a thread is inside. Around and between these bytes each thread prints its reports of float
casts, one after another. -/
theorem ubsanThreads_reports
    (h : runFrom (ubsanThreadStep budget) (.initial Thread) acts = some s) :
    (∀ r ∈ s.locked.returned, ReportFits r.2.1) ∧
      (∃ printed, printsOf none s.out = reportsOf s.locked.returned ++ printed ∧
        (s.locked.lock = false → printed = []) ∧
        (s.locked.lock = true → ∃ t c l, s.locked.phase t = .inside c l) ∧
        ∀ t c l, s.locked.phase t = .inside c l →
          printed ++ l.left = (ubsanPrinted budget c).left) ∧
      ∀ t, printsOf (some t) s.out ++ s.casting t =
        (floatCastsOf t acts).reverse.flatMap (ubsanFloatCastPrinted budget) := by
  obtain ⟨hfits, hunder⟩ := ubsanThreads_underLock h
  exact ⟨hfits, hunder, ubsanThreads_casting h⟩

/-- A whole report, and the first byte of another one, with a byte outside the lock before it. -/
def reportBehind : List (UbsanThreadAct Nat) :=
  [.step 1, .castStep 2, .floatCast 2 ⟨⟨none, 0, 0⟩, none, none⟩, .step 1] ++
    List.replicate 69 (.step 0) ++
    [.call 1 (.builtinUnreachable none) ⟨[], Nat.zero_le _⟩,
      .call 0 (.builtinUnreachable none) ⟨[], Nat.zero_le _⟩]

theorem ubsanThreads_reports_reportBehind :
    ∃ s, runFrom (ubsanThreadStep 200) (.initial Nat) reportBehind = some s ∧
      s.locked.returned.map Prod.fst = [0] ∧ (s.out.drop 67).map Prod.fst = [some 2, none] ∧
      ∃ printed, printsOf none s.out = reportsOf s.locked.returned ++ printed ∧
        ∃ t c l, s.locked.phase t = .inside c l ∧
          printed ++ l.left = (ubsanPrinted 200 c).left := by
  have hrun : (runFrom (ubsanThreadStep 200) (.initial Nat) reportBehind).map
      (fun s => (s.locked.returned.map Prod.fst, (s.out.drop 67).map Prod.fst, s.locked.lock)) =
        some ([0], [some 2, none], true) := by decide +kernel
  obtain ⟨s, hs, hfields⟩ := Option.map_eq_some_iff.mp hrun
  simp only [Prod.mk.injEq] at hfields
  obtain ⟨hreturned, hout, hlock⟩ := hfields
  obtain ⟨-, ⟨printed, hprinted, -, hheld, hinside⟩, -⟩ := ubsanThreads_reports hs
  obtain ⟨t, c, l, ht⟩ := hheld hlock
  exact ⟨s, hs, hreturned, hout, printed, hprinted, t, c, l, ht, hinside t c l ht⟩

/-! ### A report that keeps the lock -/

/-- A thread is inside a report that does not end, after the same reports as before. -/
def UbsanThreads.Stuck (budget : Nat) (t : Thread) (c : UbsanLockedCall × DrtStackTrace)
    (returned : List (Thread × (UbsanLockedCall × DrtStackTrace) × PrintPoint Byte))
    (s : UbsanThreads Thread) : Prop :=
  s.Whole budget ∧ s.locked.returned = returned ∧
    ∃ l, s.locked.phase t = .inside c l ∧ l.ends = false

theorem UbsanThreads.Stuck.move
    {returned : List (Thread × (UbsanLockedCall × DrtStackTrace) × PrintPoint Byte)}
    (h : s.Stuck budget t c returned) (hmove : s.Move budget act s') :
    s'.Stuck budget t c returned := by
  obtain ⟨hwhole, hreturned, l, ht, hends⟩ := h
  refine ⟨hwhole.move hmove, ?_⟩
  obtain ⟨out, hserialized⟩ := hwhole.serialized
  cases hmove with
  | floatCast | castStep => exact ⟨hreturned, l, ht, hends⟩
  | call hstep | step hstep =>
      obtain ⟨hsame, hstuck⟩ := hserialized.printing_stuck ht hends hstep
      exact ⟨hsame.trans hreturned, hstuck⟩

/-- **A report that does not fit keeps the lock**: no other call returns behind it, and all that is
printed under the lock is a part of it. -/
theorem ubsanThreads_stuck
    (h : runFrom (ubsanThreadStep budget) (.initial Thread) acts = some s)
    (ht : s.locked.phase t = .inside c l) (hshort : ¬ ReportFits c)
    (hlater : runFrom (ubsanThreadStep budget) (.initial Thread) (later ++ acts) = some s') :
    s'.locked.returned = s.locked.returned ∧ (∃ l', s'.locked.phase t = .inside c l') ∧
      ∃ printed, printsOf none s'.out = reportsOf s.locked.returned ++ printed ∧
        printed <+: (ubsanPrinted budget c).left := by
  have hwhole := ubsanThreads_whole h
  have hends : l.ends = false := by
    obtain ⟨out, hserialized⟩ := hwhole.serialized
    obtain ⟨printed, -, -, hends⟩ := printing_leads (hserialized.leads t c l ht)
    rw [hends, ← Bool.not_eq_true]
    intro hdone
    exact hshort (ubsanPrinted_of_ends hdone).1
  have hstuck : s'.Stuck budget t c s.locked.returned :=
    runFrom_preserves (fun _ _ _ hs hstep => hs.move (ubsanThreadStep_move hstep)) h
      ⟨hwhole, rfl, l, ht, hends⟩ hlater
  obtain ⟨-, hreturned, l', ht', -⟩ := hstuck
  obtain ⟨-, printed, hout, -, -, hinside⟩ := ubsanThreads_underLock hlater
  refine ⟨hreturned, ⟨l', ht'⟩, printed, ?_, l'.left, hinside t c l' ht'⟩
  rw [hout, hreturned]

/-- An overflow from `0x1000`, which has four digits. -/
def shortActs : List (UbsanThreadAct Bool) :=
  [.step false, .call false (.pointerOverflow ⟨none⟩ 0x1000 0) ⟨[], Nat.zero_le _⟩]

theorem ubsanThreads_stuck_short :
    ∃ s, runFrom (ubsanThreadStep 3) (.initial Bool) shortActs = some s ∧
      ∀ later s', runFrom (ubsanThreadStep 3) (.initial Bool) (later ++ shortActs) = some s' →
        s'.locked.returned = [] := by
  have hshort : ¬ ReportFits (.pointerOverflow ⟨none⟩ 0x1000 0, ⟨[], Nat.zero_le _⟩) := by
    intro hfits
    have hbase := hfits 0x1000 (by simp [UbsanLockedCall.pointers])
    revert hbase
    rw [SixteenDigits]
    decide
  obtain ⟨s, hs, ht, hnone⟩ : ∃ s, runFrom (ubsanThreadStep 3) (.initial Bool) shortActs = some s ∧
      s.locked.phase false = .inside (.pointerOverflow ⟨none⟩ 0x1000 0, ⟨[], Nat.zero_le _⟩)
        (ubsanPrinted 3 (.pointerOverflow ⟨none⟩ 0x1000 0, ⟨[], Nat.zero_le _⟩)) ∧
      s.locked.returned = [] := ⟨_, rfl, rfl, rfl⟩
  exact ⟨s, hs, fun later s' hlater => (ubsanThreads_stuck hs ht hshort hlater).1.trans hnone⟩

end Misan
