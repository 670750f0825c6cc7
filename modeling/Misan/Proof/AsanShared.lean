import Misan.Proof.AsanErrors
import Misan.Proof.AsanFakeStack

/-!
# Hooks, checks and reports of many threads

A hook is not atomic, but a grain that no two threads work on at a time cannot tell. A check takes
no lock for its look at the shadow, and only its report does.
-/

namespace Misan

open ByteMemory

/-! ### One hook after another -/

theorem storeAll_shadowAction (m : Memory) (a : ShadowAction) :
    m.storeAll a.stores = a.onShadow m := by
  cases a with
  | poison beg size => exact storeAll_asanPoisonStores m beg size _
  | unpoison beg size => exact storeAll_asanUnpoisonStores m beg size
  | register g =>
      rw [ShadowAction.stores, storeAll_append, storeAll_asanUnpoisonStores,
        storeAll_asanPoisonStores]
      rfl
  | unregister g => exact storeAll_asanPoisonStores m g.beg g.sizeWithRedzone _

theorem storeAll_shadowActions (m : Memory) (actions : List ShadowAction) :
    m.storeAll (actions.flatMap ShadowAction.stores) = actionsOnShadow m actions := by
  induction actions generalizing m with
  | nil => rfl
  | cons a actions ih =>
      rw [List.flatMap_cons, storeAll_append, storeAll_shadowAction, ih]
      rfl

theorem storeAll_misanSetShadowStores (m : Memory) (addr size : Addr) (val : Byte) :
    m.storeAll (misanSetShadowStores addr size val) = misanSetShadow m addr size val := by
  have hfill : ∀ n, m.storeAll ((List.range n).map fun i =>
      ((addr >>> 3) + asanShadowBase + BitVec.ofNat 64 i, val)) =
        m.fillBytes ((addr >>> 3) + asanShadowBase) val n := by
    intro n
    induction n with
    | zero => rfl
    | succ n ih =>
        rw [List.range_succ, List.map_append, storeAll_append, ih]
        rfl
  exact hfill _

theorem asanHookStep_eq (mmap : Mmap) {s : AsanState} (hinit : s.asanInitialized = true)
    (h : AsanHook) : asanHookStep mmap s h = { s with mem := s.mem.storeAll h.stores } := by
  cases h with
  | call c =>
      rw [asanHookStep, asanCallStep_of_initialized mmap hinit, AsanHook.stores,
        storeAll_shadowActions]
  | setShadow addr size val =>
      rw [asanHookStep, AsanHook.stores, storeAll_misanSetShadowStores]

theorem asanHookRun_eq (mmap : Mmap) (m : Memory) (hooks : List AsanHook) :
    asanHookRun mmap ⟨m, true⟩ hooks.reverse = ⟨storeCalls AsanHook.stores m hooks, true⟩ := by
  induction hooks with
  | nil => rfl
  | cons h hooks ih =>
      have hrun : asanHookRun mmap ⟨m, true⟩ (h :: hooks).reverse =
          asanHookStep mmap (asanHookRun mmap ⟨m, true⟩ hooks.reverse) h := by
        rw [List.reverse_cons, asanHookRun, List.foldl_append]
        rfl
      rw [hrun, ih, asanHookStep_eq mmap rfl]
      rfl

/-! ### Verdicts -/

section Verdicts

variable {Thread : Type} [DecidableEq Thread] {budget : Nat} {m : Memory}
  {s s' : AsanShared Thread} {act : AsanSharedAct Thread} {acts : List (AsanSharedAct Thread)}

/-- The byte a check of `addr` reads. -/
def asanCheckedShadow (addr : Addr) : Addr := asanMemToShadow (addr &&& ~~~asanShadowMask)

/-- A hook that stores to the byte begins while no other hook in progress does. -/
def AsanShared.Alone (x : Addr) (s : AsanShared Thread) : AsanSharedAct Thread → Prop
  | .hook t h => s.hooks.Alone AsanHook.stores x (.call t h)
  | _ => True

theorem AsanShared.hooks_oneAt {x : Addr} (h : s.hooks.OneAt AsanHook.stores m x)
    (halone : s.Alone x act) (hstep : asanSharedStep budget s act = some s') :
    s'.hooks.OneAt AsanHook.stores m x := by
  cases act with
  | hook t c =>
      rw [asanSharedStep] at hstep
      split at hstep
      · obtain ⟨hooks, hhooks, rfl⟩ := Option.map_eq_some_iff.mp hstep
        exact h.step hhooks halone
      · cases hstep
  | store t =>
      obtain ⟨hooks, hhooks, rfl⟩ := Option.map_eq_some_iff.mp hstep
      exact h.step hhooks trivial
  | check t addr size isWrite st =>
      rw [asanSharedStep] at hstep
      split at hstep
      · split at hstep
        · cases hstep
          exact h
        · obtain ⟨locked, -, rfl⟩ := Option.map_eq_some_iff.mp hstep
          exact h
      · cases hstep
  | print t =>
      obtain ⟨locked, -, rfl⟩ := Option.map_eq_some_iff.mp hstep
      exact h

/-- A check depends on one byte. -/
theorem asanCheckAccess_congr {m m' : Memory} {addr : Addr}
    (heq : m (asanCheckedShadow addr) = m' (asanCheckedShadow addr)) (size : Addr)
    (isWrite : Bool) :
    asanCheckAccess ⟨m, true⟩ addr size isWrite = asanCheckAccess ⟨m', true⟩ addr size isWrite := by
  have hget : asanShadowGet m (addr &&& ~~~asanShadowMask) =
      asanShadowGet m' (addr &&& ~~~asanShadowMask) := heq
  simp only [asanCheckAccess, hget]

/-- **Hooks look atomic** to a check of a grain that no two of them work on at the same time: in any
interleaving, while none of them works on it, it gives the verdict it gives after the hooks that
have returned, made one after another in the order they returned. -/
theorem asanShared_verdicts
    (h : runFrom (asanSharedStep budget) (.initial Thread m) acts = some s) (addr : Addr)
    (halone : EachStep (asanSharedStep budget) (.initial Thread m)
      (AsanShared.Alone (asanCheckedShadow addr)) acts)
    (hquiet : s.hooks.Quiet AsanHook.stores (asanCheckedShadow addr)) (mmap : Mmap) (size : Addr)
    (isWrite : Bool) :
    asanCheckAccess s.state addr size isWrite =
      asanCheckAccess (asanHookRun mmap ⟨m, true⟩ s.hooks.returned.reverse) addr size isWrite := by
  have hone : s.hooks.OneAt AsanHook.stores m (asanCheckedShadow addr) :=
    runFrom_invariant (I := fun s : AsanShared Thread =>
        s.hooks.OneAt AsanHook.stores m (asanCheckedShadow addr))
      (InFlight.OneAt.initial _ _ _) (fun _ _ _ hs ha hstep => AsanShared.hooks_oneAt hs ha hstep)
      halone h
  rw [asanHookRun_eq]
  exact asanCheckAccess_congr (hone.quiet hquiet) size isWrite

end Verdicts

/-- Two threads poison a grain each. One has returned, the other one has made its store. -/
def twoHooks : List (AsanSharedAct Bool) :=
  [.store true, .store false, .store true, .hook false (.setShadow 0x2000 8 0xf8),
    .hook true (.setShadow 0x1000 8 0xf1)]

theorem asanShared_verdicts_twoHooks :
    ∃ s, runFrom (asanSharedStep 0) (.initial Bool fun _ => 0) twoHooks = some s ∧
      asanCheckAccess s.state 0x1000 1 false =
        asanCheckAccess (asanHookRun grantingMmap ⟨fun _ => 0, true⟩ [.setShadow 0x1000 8 0xf1])
          0x1000 1 false := by
  have hother :
      ¬ StoresAt AsanHook.stores (asanCheckedShadow 0x1000) (.setShadow 0x2000 8 0xf8) := by
    have hstores : AsanHook.stores (.setShadow 0x2000 8 0xf8) =
        [(asanCheckedShadow 0x2000, 0xf8)] :=
      rfl
    rintro ⟨st, hst, heq⟩
    rw [hstores, List.mem_singleton] at hst
    subst hst
    exact absurd heq (by decide)
  have hrun : runFrom (asanSharedStep 0) (.initial Bool fun _ => 0) twoHooks = some _ := rfl
  refine ⟨_, hrun, asanShared_verdicts hrun 0x1000 ?_ ?_ grantingMmap 1 false⟩
  · refine EachStep.cons (EachStep.cons (EachStep.cons (EachStep.cons (EachStep.cons .nil rfl ?_)
      rfl ?_) rfl trivial) rfl trivial) rfl trivial
    · rintro - t c left hpending
      cases hpending
    · exact fun hat => absurd hat hother
  · intro t c left hpending
    cases t with
    | true => cases hpending
    | false =>
        cases hpending
        exact hother

/-! ### Reports -/

section Reports

variable {Thread : Type} [DecidableEq Thread] {budget : Nat} {m : Memory}
  {s s' : AsanShared Thread} {act : AsanSharedAct Thread} {acts later : List (AsanSharedAct Thread)}
  {t : Thread} {c : AsanReport × DrtStackTrace} {l : PrintPoint Byte}

/-- The thread made a check that came out with this report. -/
def CheckedBy (budget : Nat) (m : Memory) (acts : List (AsanSharedAct Thread)) (t : Thread)
    (c : AsanReport × DrtStackTrace) : Prop :=
  ∃ before s addr size isWrite, .check t addr size isWrite c.2 :: before <:+ acts ∧
    runFrom (asanSharedStep budget) (.initial Thread m) before = some s ∧
    asanCheckAccess s.state addr size isWrite = some c.1

theorem CheckedBy.cons (h : CheckedBy budget m acts t c) (act : AsanSharedAct Thread) :
    CheckedBy budget m (act :: acts) t c := by
  obtain ⟨before, s, addr, size, isWrite, hsuffix, hrest⟩ := h
  exact ⟨before, s, addr, size, isWrite, hsuffix.trans (List.suffix_cons act acts), hrest⟩

/-- A thread reports a check of its own, and once. -/
structure AsanShared.Reported (budget : Nat) (m : Memory) (acts : List (AsanSharedAct Thread))
    (s : AsanShared Thread) : Prop where
  serialized : ∃ out, Serialized (asanCritical budget) [] out s.locked
  once : (s.locked.returned.map Prod.fst).Nodup
  away : ∀ r ∈ s.locked.returned, s.locked.phase r.1 = .outside
  waiting : ∀ t c, (s.locked.phase t).call? = some c → CheckedBy budget m acts t c
  returned : ∀ r ∈ s.locked.returned, CheckedBy budget m acts r.1 r.2.1

namespace AsanShared.Reported

theorem initial : (AsanShared.initial Thread m).Reported budget m [] where
  serialized := ⟨[], Serialized.initial _ _⟩
  once := List.nodup_nil
  away r hr := by cases hr
  waiting t c ht := by cases ht
  returned r hr := by cases hr

/-- Nothing happens at the lock. -/
theorem elsewhere (h : s.Reported budget m acts) (act : AsanSharedAct Thread)
    (hlocked : s'.locked = s.locked) : s'.Reported budget m (act :: acts) where
  serialized := hlocked ▸ h.serialized
  once := hlocked ▸ h.once
  away := hlocked ▸ h.away
  waiting t c ht := (h.waiting t c (hlocked ▸ ht)).cons act
  returned r hr := (h.returned r (hlocked ▸ hr)).cons act

theorem check (h : s.Reported budget m acts) (hidle : s.idle t = true)
    {locked : Locked Thread (AsanReport × DrtStackTrace) (PrintPoint Byte) (List Byte)}
    (hstep : lockStep (asanCritical budget) s.locked (.call t c) = some locked)
    (hchecked : CheckedBy budget m (act :: acts) t c) :
    ({ s with locked := locked }).Reported budget m (act :: acts) := by
  obtain ⟨out, hserialized⟩ := h.serialized
  obtain ⟨out', hserialized', -⟩ := hserialized.move (lockStep_move hstep)
  obtain ⟨-, rfl⟩ := lockStep_call hstep
  have hnever : ∀ r ∈ s.locked.returned, r.1 ≠ t := by
    rintro r hr rfl
    have hhalted : s.halted r.1 = true := List.any_eq_true.mpr ⟨r, hr, by simp⟩
    simp [AsanShared.idle, hhalted] at hidle
  refine ⟨⟨out', hserialized'⟩, h.once, fun r hr => ?_, fun u d hu => ?_, fun r hr => ?_⟩
  · exact (Function.update_of_ne (hnever r hr) ..).trans (h.away r hr)
  · by_cases hut : u = t
    · subst hut
      simp only [Locked.enter_phase, Function.update_self, LockPhase.call?, Option.some.injEq] at hu
      subst hu
      exact hchecked
    · simp only [Locked.enter_phase, Function.update_of_ne hut] at hu
      exact (h.waiting u d hu).cons act
  · exact (h.returned r hr).cons act

theorem print (h : s.Reported budget m acts)
    {locked : Locked Thread (AsanReport × DrtStackTrace) (PrintPoint Byte) (List Byte)}
    (hstep : lockStep (asanCritical budget) s.locked (.step t) = some locked)
    (act : AsanSharedAct Thread) :
    ({ s with locked := locked }).Reported budget m (act :: acts) := by
  obtain ⟨out, hserialized⟩ := h.serialized
  obtain ⟨out', hserialized', -⟩ := hserialized.move (lockStep_move hstep)
  obtain ⟨hothers, -, hsame, hends⟩ := lockStep_step hstep
  have hwaiting : ∀ u d, (locked.phase u).call? = some d → (s.locked.phase u).call? = some d := by
    intro u d hu
    by_cases hut : u = t
    · subst hut
      cases hreleases : s.locked.releases (asanCritical budget) (.step u) with
      | none => exact (hsame hreleases).symm.trans hu
      | some e =>
          rw [(hends e hreleases).2] at hu
          cases hu
    · rw [← hothers u hut]
      exact hu
  have hnever : ∀ r ∈ s.locked.returned, r.1 ≠ t := by
    rintro r hr rfl
    obtain ⟨d, hd⟩ := (lockStep_step hstep).2.1
    rw [h.away r hr] at hd
    cases hd
  have hreturned : locked.returned = s.locked.returned ∨
      ∃ c l, s.locked.phase t = .inside c l ∧ locked.returned = (t, c, l) :: s.locked.returned ∧
        locked.phase t = .outside := by
    cases lockStep_move hstep with
    | spin | acquire | work => exact Or.inl rfl
    | release ht => exact Or.inr ⟨_, _, ht, rfl, Function.update_self ..⟩
  refine ⟨⟨out', hserialized'⟩, ?_, ?_,
    fun u d hu => (h.waiting u d (hwaiting u d hu)).cons act, ?_⟩
  · rcases hreturned with heq | ⟨c, l, -, heq, -⟩
    · exact heq ▸ h.once
    · change (locked.returned.map Prod.fst).Nodup
      rw [heq, List.map_cons, List.nodup_cons]
      refine ⟨fun hmem => ?_, h.once⟩
      obtain ⟨r, hr, hrt⟩ := List.mem_map.mp hmem
      exact hnever r hr hrt
  · intro r hr
    change locked.phase r.1 = .outside
    rcases hreturned with heq | ⟨c, l, -, heq, hout⟩
    · rw [hothers r.1 (hnever r (heq ▸ hr))]
      exact h.away r (heq ▸ hr)
    · have hr' : r ∈ (t, c, l) :: s.locked.returned := heq ▸ hr
      rcases List.mem_cons.mp hr' with rfl | hr'
      · exact hout
      · rw [hothers r.1 (hnever r hr')]
        exact h.away r hr'
  · intro r hr
    rcases hreturned with heq | ⟨c, l, ht, heq, -⟩
    · exact (h.returned r (heq ▸ hr)).cons act
    · have hr' : r ∈ (t, c, l) :: s.locked.returned := heq ▸ hr
      rcases List.mem_cons.mp hr' with rfl | hr'
      · refine (h.waiting t c ?_).cons act
        rw [ht]
        rfl
      · exact (h.returned r hr').cons act

end AsanShared.Reported

theorem asanShared_reported
    (h : runFrom (asanSharedStep budget) (.initial Thread m) acts = some s) :
    s.Reported budget m acts := by
  induction acts generalizing s with
  | nil =>
      cases h
      exact .initial
  | cons act acts ih =>
      obtain ⟨s₀, hs₀, hstep⟩ := runFrom_cons_eq_some.mp h
      have hbefore := ih hs₀
      cases act with
      | hook t c =>
          rw [asanSharedStep] at hstep
          split at hstep
          · obtain ⟨hooks, -, rfl⟩ := Option.map_eq_some_iff.mp hstep
            exact hbefore.elsewhere (.hook t c) (by rfl)
          · cases hstep
      | store t =>
          obtain ⟨hooks, -, rfl⟩ := Option.map_eq_some_iff.mp hstep
          exact hbefore.elsewhere (.store t) (by rfl)
      | check t addr size isWrite st =>
          rw [asanSharedStep] at hstep
          split at hstep
          · next hidle =>
              split at hstep
              · cases hstep
                exact hbefore.elsewhere _ rfl
              · next report hreport =>
                  obtain ⟨locked, hlocked, rfl⟩ := Option.map_eq_some_iff.mp hstep
                  exact hbefore.check hidle hlocked
                    ⟨acts, s₀, addr, size, isWrite, List.suffix_refl _, hs₀, hreport⟩
          · cases hstep
      | print t =>
          obtain ⟨locked, hlocked, rfl⟩ := Option.map_eq_some_iff.mp hstep
          exact hbefore.print hlocked _

/-- The reports of the threads that have given the lock back, one after another. -/
def asanReportsOf (returned : List (Thread × (AsanReport × DrtStackTrace) × PrintPoint Byte)) :
    List Byte :=
  returned.reverse.flatMap fun r => asanReportText r.2.1

omit [DecidableEq Thread] in
theorem printsOfReturned_asanPrinted
    {returned : List (Thread × (AsanReport × DrtStackTrace) × PrintPoint Byte)}
    (hends : ∀ r ∈ returned, (asanPrinted budget r.2.1).ends = true) :
    printsOfReturned (asanPrinted budget) returned = asanReportsOf returned := by
  refine List.flatMap_congr fun r hr => ?_
  exact (asanPrinted_of_ends (hends r (List.mem_reverse.mp hr))).2

theorem asanShared_output
    (h : runFrom (asanSharedStep budget) (.initial Thread m) acts = some s) :
    (∀ r ∈ s.locked.returned, AsanReportFits r.2.1) ∧
      ∃ printed, s.locked.shared = asanReportsOf s.locked.returned ++ printed ∧
        (s.locked.lock = false → printed = []) ∧
        (s.locked.lock = true → ∃ t c l, s.locked.phase t = .inside c l) ∧
        ∀ t c l, s.locked.phase t = .inside c l →
          printed ++ l.left = (asanPrinted budget c).left := by
  obtain ⟨out, hserialized⟩ := (asanShared_reported h).serialized
  obtain ⟨hends, printed, hprinted, hfree, hheld, hinside⟩ := hserialized.whole
  refine ⟨fun r hr => (asanPrinted_of_ends (hends r hr)).1, printed, ?_, hfree, hheld,
    fun t c l ht => (hinside t c l ht).1⟩
  rw [hprinted, printsOfReturned_asanPrinted hends]

/-- **Reports stay whole**, in every interleaving: the output is the whole reports of the threads
that have given the lock back, in that order, and the first part of one more while it is held. No
thread has given it back twice, and each report, in the output or still to come, is the verdict of a
check its thread made. -/
theorem asanShared_reports
    (h : runFrom (asanSharedStep budget) (.initial Thread m) acts = some s) :
    (s.locked.returned.map Prod.fst).Nodup ∧
      (∃ printed, s.locked.shared = asanReportsOf s.locked.returned ++ printed ∧
        (s.locked.lock = false → printed = []) ∧
        (s.locked.lock = true → ∃ t c l, s.locked.phase t = .inside c l) ∧
        ∀ t c l, s.locked.phase t = .inside c l →
          printed ++ l.left = (asanPrinted budget c).left) ∧
      (∀ r ∈ s.locked.returned, CheckedBy budget m acts r.1 r.2.1) ∧
      ∀ t c, (s.locked.phase t).call? = some c → CheckedBy budget m acts t c := by
  have hreported := asanShared_reported h
  exact ⟨hreported.once, (asanShared_output h).2, hreported.returned, hreported.waiting⟩

/-- One report, from the check to the release of the lock. -/
def oneReport : List (AsanSharedAct Bool) :=
  List.replicate 96 (.print false) ++ [.check false 0x1000000000000000 1 false ⟨[], Nat.zero_le _⟩]

/-- Another report has begun behind it. -/
def oneReportAndMore : List (AsanSharedAct Bool) :=
  [.print true, .print true, .check true 0x1000000000000008 8 true ⟨[], Nat.zero_le _⟩] ++ oneReport

theorem asanShared_reports_oneReportAndMore :
    ∃ s, runFrom (asanSharedStep 200) (.initial Bool fun _ => 0xff) oneReportAndMore = some s ∧
      s.locked.returned.map Prod.fst = [false] ∧
      ∃ printed, s.locked.shared = asanReportsOf s.locked.returned ++ printed ∧
        ∃ t c l, s.locked.phase t = .inside c l ∧ printed ++ l.left = (asanPrinted 200 c).left := by
  have hrun : (runFrom (asanSharedStep 200) (.initial Bool fun _ => 0xff) oneReportAndMore).map
      (fun s => (s.locked.returned.map Prod.fst, s.locked.lock)) = some ([false], true) := by
    decide +kernel
  obtain ⟨s, hs, hfields⟩ := Option.map_eq_some_iff.mp hrun
  obtain ⟨hreturned, hlock⟩ := Prod.mk.inj hfields
  obtain ⟨-, ⟨printed, hprinted, -, hheld, hinside⟩, -⟩ := asanShared_reports hs
  obtain ⟨t, c, l, ht⟩ := hheld hlock
  exact ⟨s, hs, hreturned, printed, hprinted, t, c, l, ht, hinside t c l ht⟩

/-! ### A report that keeps the lock -/

theorem AsanShared.stuck_step (hreported : s.Reported budget m acts)
    (ht : s.locked.phase t = .inside c l) (hends : l.ends = false)
    (hstep : asanSharedStep budget s act = some s') :
    s'.locked.returned = s.locked.returned ∧
      ∃ l, s'.locked.phase t = .inside c l ∧ l.ends = false := by
  obtain ⟨out, hserialized⟩ := hreported.serialized
  cases act with
  | hook u d =>
      rw [asanSharedStep] at hstep
      split at hstep
      · obtain ⟨hooks, -, rfl⟩ := Option.map_eq_some_iff.mp hstep
        exact ⟨rfl, l, ht, hends⟩
      · cases hstep
  | store u =>
      obtain ⟨hooks, -, rfl⟩ := Option.map_eq_some_iff.mp hstep
      exact ⟨rfl, l, ht, hends⟩
  | check u addr size isWrite st =>
      rw [asanSharedStep] at hstep
      split at hstep
      · split at hstep
        · cases hstep
          exact ⟨rfl, l, ht, hends⟩
        · obtain ⟨locked, hlocked, rfl⟩ := Option.map_eq_some_iff.mp hstep
          exact hserialized.printing_stuck ht hends hlocked
      · cases hstep
  | print u =>
      obtain ⟨locked, hlocked, rfl⟩ := Option.map_eq_some_iff.mp hstep
      exact hserialized.printing_stuck ht hends hlocked

/-- **A report that does not fit keeps the lock**: whatever the threads do, no other report is
printed behind it, and it is never printed to its end. -/
theorem asanShared_stuck
    (h : runFrom (asanSharedStep budget) (.initial Thread m) acts = some s)
    (ht : s.locked.phase t = .inside c l) (hshort : ¬ AsanReportFits c)
    (hlater : runFrom (asanSharedStep budget) (.initial Thread m) (later ++ acts) = some s') :
    s'.locked.returned = s.locked.returned ∧ (∃ l', s'.locked.phase t = .inside c l') ∧
      ∃ printed, s'.locked.shared = asanReportsOf s.locked.returned ++ printed ∧
        printed <+: (asanPrinted budget c).left := by
  have hends : l.ends = false := by
    obtain ⟨out, hserialized⟩ := (asanShared_reported h).serialized
    obtain ⟨printed, -, -, hends⟩ := printing_leads (hserialized.leads t c l ht)
    rw [hends, ← Bool.not_eq_true]
    intro hdone
    exact hshort (asanPrinted_of_ends hdone).1
  have hstuck : s'.locked.returned = s.locked.returned ∧
      ∃ l, s'.locked.phase t = .inside c l ∧ l.ends = false := by
    induction later generalizing s' with
    | nil =>
        cases h.symm.trans hlater
        exact ⟨rfl, l, ht, hends⟩
    | cons act later ih =>
        obtain ⟨s₁, hs₁, hstep⟩ := runFrom_cons_eq_some.mp hlater
        obtain ⟨hreturned, l₁, ht₁, hends₁⟩ := ih hs₁
        obtain ⟨hsame, hinside⟩ := AsanShared.stuck_step (asanShared_reported hs₁) ht₁ hends₁ hstep
        exact ⟨hsame.trans hreturned, hinside⟩
  obtain ⟨hreturned, l', ht', -⟩ := hstuck
  obtain ⟨-, printed, hout, -, -, hinside⟩ := asanShared_output hlater
  refine ⟨hreturned, ⟨l', ht'⟩, printed, ?_, l'.left, hinside t c l' ht'⟩
  rw [hout, hreturned]

/-- A report of `0x1000`, which has four digits. -/
def shortReport : List (AsanSharedAct Bool) :=
  [.print false, .check false 0x1000 1 false ⟨[], Nat.zero_le _⟩]

theorem asanShared_stuck_shortReport :
    ∃ s, runFrom (asanSharedStep 3) (.initial Bool fun _ => 0xff) shortReport = some s ∧
      ∀ later s', runFrom (asanSharedStep 3) (.initial Bool fun _ => 0xff) (later ++ shortReport) =
        some s' → s'.locked.returned = [] := by
  let c : AsanReport × DrtStackTrace := (⟨"READ", 0x1000, 1, 0xff⟩, ⟨[], Nat.zero_le _⟩)
  have hrun : runFrom (asanSharedStep 3) (.initial Bool fun _ => 0xff) shortReport = some _ := rfl
  have hshort : ¬ AsanReportFits c := by decide
  exact ⟨_, hrun, fun later s' hlater =>
    (asanShared_stuck (t := false) (c := c) (l := asanPrinted 3 c) hrun (by rfl) hshort hlater).1⟩

end Reports

end Misan
