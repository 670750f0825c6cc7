import Misan.AsanInit

/-!
# Who gets to the shadow, and when

The exchange lets one thread through to the mapping, so there is at most one. But the flag is set
before the mapping, not behind it: whoever looks in between, and whoever comes after a mapping that
failed, goes on to a shadow that is not there.
-/

namespace Misan

open Function

variable {Thr : Type} [DecidableEq Thr] {mmap : Mmap} {m : Memory} {s s' : AsanThreads Thr}
  {a : AsanAct Thr} {history before : List (AsanAct Thr)} {thr : Thr} {globals : List AsanGlobal}

/-- The turn of the registration loop writes a shadow byte: there is a memory it changes. -/
def AsanGlobal.Writes (g : AsanGlobal) : Prop := ∃ m, asanRegisterGlobal m g ≠ m

/-- The thread's next step reads or writes a shadow byte. -/
def AsanPhase.AccessesShadow : AsanPhase → Prop
  | .registering g _ => g.Writes
  | .checking _ _ _ => True
  | _ => False

/-- A mapping call has returned `0`. -/
def AsanThreads.Mapped (s : AsanThreads Thr) : Prop := 0 ∈ s.mapResults

def AsanThreads.NoEarlyAccess (s : AsanThreads Thr) (a : AsanAct Thr) : Prop :=
  ∀ thr, a = .step thr → (s.phase thr).AccessesShadow → s.Mapped

/-- A look at the flag that finds it set, or the end of a mapping call, lets a thread on to the
shadow only when the shadow is mapped. -/
def AsanThreads.AdmitsMapped (mmap : Mmap) (s : AsanThreads Thr) : AsanAct Thr → Prop
  | .init _ => True
  | .register _ globals =>
      s.asanInitialized = true → (∃ g ∈ globals, g.Writes) → s.Mapped
  | .check _ _ _ _ => s.asanInitialized = true → s.Mapped
  | .step thr =>
      match s.phase thr with
      | .exchanging globals =>
          s.asanInitialized = true → (∃ g ∈ globals, g.Writes) → s.Mapped
      | .mapping globals => (∃ g ∈ globals, g.Writes) →
          (drtArchMapShadowMemory mmap s.mem asanShadowBase (1 <<< 47)).2 = 0
      | _ => True

/-! ### Steps -/

/-- The action is the exchange, by a thread that registers the globals afterwards. -/
inductive Exchanges (s : AsanThreads Thr) : AsanAct Thr → Thr → List AsanGlobal → Prop
  | init {thr : Thr} (hphase : s.phase thr = .outside) : Exchanges s (.init thr) thr []
  | register {thr : Thr} {globals : List AsanGlobal} (hphase : s.phase thr = .exchanging globals) :
      Exchanges s (.step thr) thr globals

/-- What a step can do. -/
inductive AsanMove (mmap : Mmap) (s : AsanThreads Thr) : AsanAct Thr → AsanThreads Thr → Prop
  | won {a : AsanAct Thr} {thr : Thr} {globals : List AsanGlobal}
      (hexchange : Exchanges s a thr globals) (hflag : s.asanInitialized = false) :
      AsanMove mmap s a { s.enter thr (.mapping globals) with asanInitialized := true }
  | lost {a : AsanAct Thr} {thr : Thr} {globals : List AsanGlobal}
      (hexchange : Exchanges s a thr globals) (hflag : s.asanInitialized = true) :
      AsanMove mmap s a (s.enter thr (.loop globals))
  | mapped {thr : Thr} {globals : List AsanGlobal} (hphase : s.phase thr = .mapping globals) :
      AsanMove mmap s (.step thr) (s.map mmap thr globals)
  | ready {thr : Thr} {globals : List AsanGlobal} (hphase : s.phase thr = .outside)
      (hflag : s.asanInitialized = true) :
      AsanMove mmap s (.register thr globals) (s.enter thr (.loop globals))
  | unready {thr : Thr} {globals : List AsanGlobal} (hphase : s.phase thr = .outside)
      (hflag : s.asanInitialized = false) :
      AsanMove mmap s (.register thr globals) (s.enter thr (.exchanging globals))
  | tested {thr : Thr} {addr size : Addr} {isWrite : Bool} (hphase : s.phase thr = .outside)
      (hflag : s.asanInitialized = true) :
      AsanMove mmap s (.check thr addr size isWrite) (s.enter thr (.checking addr size isWrite))
  | skipped {thr : Thr} {addr size : Addr} {isWrite : Bool} (hphase : s.phase thr = .outside)
      (hflag : s.asanInitialized = false) : AsanMove mmap s (.check thr addr size isWrite) s
  | registered {thr : Thr} {g : AsanGlobal} {globals : List AsanGlobal}
      (hphase : s.phase thr = .registering g globals) :
      AsanMove mmap s (.step thr)
        { s.enter thr (.loop globals) with mem := asanRegisterGlobal s.mem g }
  | checked {thr : Thr} {addr size : Addr} {isWrite : Bool}
      (hphase : s.phase thr = .checking addr size isWrite) :
      AsanMove mmap s (.step thr) (s.enter thr (.behindCheck
        (asanCheckAccess { s.toAsanState with asanInitialized := true } addr size isWrite)))

theorem exchange_move (hexchange : Exchanges s a thr globals) :
    AsanMove mmap s a (s.exchange thr globals) := by
  rw [AsanThreads.exchange]
  by_cases hflag : s.asanInitialized = true
  · rw [if_pos hflag]
    exact .lost hexchange hflag
  · rw [if_neg hflag]
    exact .won hexchange (Bool.not_eq_true _ ▸ hflag)

theorem asanStep_cases (h : asanStep mmap s a = some s') : AsanMove mmap s a s' := by
  cases a with
  | init thr =>
      rw [asanStep] at h
      split at h
      · rename_i hphase
        cases h
        exact exchange_move (.init hphase)
      · cases h
  | register thr globals =>
      rw [asanStep] at h
      split at h
      · rename_i hphase
        cases hflag : s.asanInitialized with
        | true =>
            rw [hflag] at h
            cases h
            exact .ready hphase hflag
        | false =>
            rw [hflag] at h
            cases h
            exact .unready hphase hflag
      · cases h
  | check thr addr size isWrite =>
      rw [asanStep] at h
      split at h
      · rename_i hphase
        cases hflag : s.asanInitialized with
        | true =>
            rw [hflag] at h
            cases h
            exact .tested hphase hflag
        | false =>
            rw [hflag] at h
            cases h
            exact .skipped hphase hflag
      · cases h
  | step thr =>
      rw [asanStep] at h
      split at h
      · rename_i globals hphase
        cases h
        exact exchange_move (.register hphase)
      · rename_i globals hphase
        cases h
        exact .mapped hphase
      · rename_i g globals hphase
        cases h
        exact .registered hphase
      · rename_i addr size isWrite hphase
        cases h
        exact .checked hphase
      · cases h

/-! ### At most one mapping -/

/-- The thread is about to map the shadow. -/
def AsanThreads.Maps (s : AsanThreads Thr) (thr : Thr) : Prop :=
  ∃ globals, s.phase thr = .mapping globals

theorem AsanPhase.loop_ne_mapping (globals globals' : List AsanGlobal) :
    AsanPhase.loop globals ≠ .mapping globals' := by
  cases globals <;> exact AsanPhase.noConfusion

theorem AsanPhase.behindCheck_ne_mapping (report : Option AsanReport) :
    AsanPhase.behindCheck report ≠ .mapping globals := by
  cases report <;> exact AsanPhase.noConfusion

theorem AsanThreads.Maps.of_update {v : Thr} {phase : AsanPhase} (h : s'.Maps v)
    (hphase : s'.phase = update s.phase thr phase) (hquiet : ∀ globals, phase ≠ .mapping globals) :
    v ≠ thr ∧ s.Maps v := by
  obtain ⟨globals, hv⟩ := h
  rw [hphase] at hv
  by_cases heq : v = thr
  · subst heq
    rw [update_self] at hv
    exact absurd hv (hquiet globals)
  · rw [update_of_ne heq] at hv
    exact ⟨heq, globals, hv⟩

structure MapOnce (s : AsanThreads Thr) : Prop where
  before : s.asanInitialized = false → s.mapResults = [] ∧ ∀ thr, ¬ s.Maps thr
  ahead : ∀ thr, s.Maps thr → s.mapResults = []
  unique : ∀ thr thr', s.Maps thr → s.Maps thr' → thr = thr'
  once : s.mapResults.length ≤ 1

/-- A step that neither sets the flag nor maps. -/
theorem MapOnce.of_quiet {phase : AsanPhase} (h : MapOnce s)
    (hflag : s'.asanInitialized = s.asanInitialized) (hresults : s'.mapResults = s.mapResults)
    (hphase : s'.phase = update s.phase thr phase)
    (hquiet : ∀ globals, phase ≠ .mapping globals) : MapOnce s' := by
  have hmaps : ∀ v, s'.Maps v → s.Maps v := fun v hv => (hv.of_update hphase hquiet).2
  refine ⟨fun hfalse => ?_, fun v hv => ?_, fun v v' hv hv' => ?_, ?_⟩
  · obtain ⟨hnil, hnone⟩ := h.before (hflag.symm.trans hfalse)
    exact ⟨hresults.trans hnil, fun v hv => hnone v (hmaps v hv)⟩
  · exact hresults.trans (h.ahead v (hmaps v hv))
  · exact h.unique v v' (hmaps v hv) (hmaps v' hv')
  · rw [hresults]
    exact h.once

theorem MapOnce.won (h : MapOnce s) (hflag : s.asanInitialized = false) :
    MapOnce { s.enter thr (.mapping globals) with asanInitialized := true } := by
  obtain ⟨hnil, hnone⟩ := h.before hflag
  have hself : ∀ v, { s.enter thr (.mapping globals) with asanInitialized := true }.Maps v →
      v = thr := by
    rintro v ⟨globals', hv⟩
    by_contra hne
    exact hnone v ⟨globals', (update_of_ne hne ..).symm.trans hv⟩
  refine ⟨fun hfalse => absurd hfalse Bool.false_ne_true.symm, fun _ _ => hnil, ?_, h.once⟩
  intro v v' hv hv'
  rw [hself v hv, hself v' hv']

theorem MapOnce.map (h : MapOnce s) (hphase : s.phase thr = .mapping globals) :
    MapOnce (s.map mmap thr globals) := by
  have hmaps : s.Maps thr := ⟨globals, hphase⟩
  have hnone : ∀ v, ¬ (s.map mmap thr globals).Maps v := by
    intro v hv
    obtain ⟨hne, hv⟩ := hv.of_update rfl (AsanPhase.loop_ne_mapping globals)
    exact hne (h.unique v thr hv hmaps)
  refine ⟨fun hfalse => absurd hmaps ((h.before hfalse).2 thr), fun v hv => absurd hv (hnone v),
    fun v _ hv => absurd hv (hnone v), ?_⟩
  change (_ :: s.mapResults).length ≤ 1
  rw [h.ahead thr hmaps, List.length_singleton]

theorem MapOnce.move (h : MapOnce s) (hmove : AsanMove mmap s a s') : MapOnce s' := by
  cases hmove with
  | won _ hflag => exact h.won hflag
  | mapped hphase => exact h.map hphase
  | lost | ready | registered => exact h.of_quiet rfl rfl rfl (AsanPhase.loop_ne_mapping _)
  | unready | tested => exact h.of_quiet rfl rfl rfl fun _ => AsanPhase.noConfusion
  | skipped => exact h
  | checked =>
      exact h.of_quiet rfl rfl rfl fun _ => AsanPhase.behindCheck_ne_mapping _

theorem asanRun_mapOnce (h : asanRun mmap m history = some s) : MapOnce s := by
  refine runFrom_invariant (P := fun _ _ => True) ?_
    (fun _ _ _ hs _ hstep => hs.move (asanStep_cases hstep)) (fun _ _ _ _ _ => trivial) h
  refine ⟨fun _ => ⟨rfl, ?_⟩, fun _ _ => rfl, ?_, Nat.zero_le 1⟩
  · rintro thr ⟨globals, hphase⟩
    exact AsanPhase.noConfusion hphase
  · rintro thr thr' ⟨globals, hphase⟩
    exact AsanPhase.noConfusion hphase

/-! ### No early access -/

/-- The thread reads or writes a shadow byte before it is done. -/
def AsanPhase.Pending : AsanPhase → Prop
  | .registering g globals => ∃ g' ∈ g :: globals, g'.Writes
  | .checking _ _ _ => True
  | _ => False

theorem AsanPhase.AccessesShadow.pending {phase : AsanPhase} (h : phase.AccessesShadow) :
    phase.Pending := by
  cases phase with
  | registering g globals => exact ⟨g, List.mem_cons_self, h⟩
  | checking => exact h
  | outside | exchanging | mapping | reporting => exact h.elim

theorem AsanPhase.pending_loop_iff :
    (AsanPhase.loop globals).Pending ↔ ∃ g ∈ globals, g.Writes := by
  cases globals with
  | nil => exact iff_of_false id fun ⟨_, hmem, _⟩ => List.not_mem_nil hmem
  | cons g globals => exact Iff.rfl

theorem AsanPhase.not_pending_behindCheck (report : Option AsanReport) :
    ¬ (AsanPhase.behindCheck report).Pending := by
  cases report <;> exact id

/-- Whoever has an access ahead finds the shadow mapped. -/
def PendingMapped (s : AsanThreads Thr) : Prop := ∀ thr, (s.phase thr).Pending → s.Mapped

theorem PendingMapped.update {phase : AsanPhase} (h : PendingMapped s)
    (hphase : s'.phase = update s.phase thr phase) (hmapped : s.Mapped → s'.Mapped)
    (hnew : phase.Pending → s'.Mapped) : PendingMapped s' := by
  intro v hv
  rw [hphase] at hv
  by_cases heq : v = thr
  · subst heq
    rw [update_self] at hv
    exact hnew hv
  · rw [update_of_ne heq] at hv
    exact hmapped (h v hv)

omit [DecidableEq Thr] in
theorem Exchanges.mapped (hexchange : Exchanges s a thr globals)
    (hadmits : s.AdmitsMapped mmap a) (hflag : s.asanInitialized = true)
    (hwrites : ∃ g ∈ globals, g.Writes) : s.Mapped := by
  cases hexchange with
  | init =>
      obtain ⟨g, hmem, -⟩ := hwrites
      exact (List.not_mem_nil hmem).elim
  | register hphase =>
      rw [AsanThreads.AdmitsMapped, hphase] at hadmits
      exact hadmits hflag hwrites

theorem PendingMapped.move (h : PendingMapped s) (hadmits : s.AdmitsMapped mmap a)
    (hmove : AsanMove mmap s a s') : PendingMapped s' := by
  cases hmove with
  | won => exact h.update rfl id False.elim
  | unready => exact h.update rfl id False.elim
  | skipped => exact h
  | lost hexchange hflag =>
      refine h.update rfl id ?_
      rw [AsanPhase.pending_loop_iff]
      exact hexchange.mapped hadmits hflag
  | ready _ hflag =>
      refine h.update rfl id ?_
      rw [AsanPhase.pending_loop_iff]
      exact hadmits hflag
  | tested _ hflag => exact h.update rfl id fun _ => hadmits hflag
  | mapped hphase =>
      rw [AsanThreads.AdmitsMapped, hphase] at hadmits
      refine h.update rfl (List.mem_cons_of_mem _) ?_
      rw [AsanPhase.pending_loop_iff]
      intro hwrites
      exact List.mem_cons.mpr (Or.inl (hadmits hwrites).symm)
  | @registered thr g globals hphase =>
      refine h.update rfl id ?_
      rw [AsanPhase.pending_loop_iff]
      rintro ⟨g', hmem, hwrites⟩
      apply h thr
      rw [hphase]
      exact ⟨g', List.mem_cons_of_mem g hmem, hwrites⟩
  | checked =>
      exact h.update rfl id fun hpending => (AsanPhase.not_pending_behindCheck _ hpending).elim

theorem asanRun_pendingMapped
    (hadmits : EachStep (asanStep mmap) (.initial Thr m) (AsanThreads.AdmitsMapped mmap) history)
    (h : asanRun mmap m history = some s) : PendingMapped s := by
  have hinit : PendingMapped (.initial Thr m) := fun _ hpending => False.elim hpending
  exact runFrom_invariant hinit
    (fun _ _ _ hs hadmits hstep => hs.move hadmits (asanStep_cases hstep)) hadmits h

theorem noEarlyAccess_of_admitsMapped
    (hadmits : EachStep (asanStep mmap) (.initial Thr m) (AsanThreads.AdmitsMapped mmap) history) :
    EachStep (asanStep mmap) (.initial Thr m) AsanThreads.NoEarlyAccess history := by
  intro a before s hsuffix hs thr _ haccess
  exact asanRun_pendingMapped (hadmits.of_suffix ((List.suffix_cons a before).trans hsuffix)) hs thr
    haccess.pending

/-! ### Early admissions -/

theorem AsanThreads.pending_enter_iff (s : AsanThreads Thr) (thr : Thr) (phase : AsanPhase) :
    ((s.enter thr phase).phase thr).Pending ↔ phase.Pending := by
  change (update s.phase thr phase thr).Pending ↔ _
  rw [update_self]

theorem AsanThreads.pending_enter_loop (s : AsanThreads Thr) (thr : Thr)
    (hwrites : ∃ g ∈ globals, g.Writes) : ((s.enter thr (.loop globals)).phase thr).Pending := by
  rw [pending_enter_iff, AsanPhase.pending_loop_iff]
  exact hwrites

/-- A step that lets a thread on to a shadow that is not mapped. -/
theorem AsanMove.exists_pending (h : AsanMove mmap s a s') (honce : MapOnce s)
    (hnot : ¬ s.AdmitsMapped mmap a) : ∃ thr, (s'.phase thr).Pending ∧ ¬ s'.Mapped := by
  cases h with
  | won hexchange hflag =>
      cases hexchange with
      | init => exact absurd trivial hnot
      | register hphase =>
          rw [AsanThreads.AdmitsMapped, hphase] at hnot
          exact absurd (fun htrue => absurd htrue (ne_true_of_eq_false hflag)) hnot
  | @lost a thr globals hexchange hflag =>
      cases hexchange with
      | init => exact absurd trivial hnot
      | register hphase =>
          rw [AsanThreads.AdmitsMapped, hphase] at hnot
          push Not at hnot
          obtain ⟨-, hwrites, hunmapped⟩ := hnot
          exact ⟨thr, s.pending_enter_loop thr hwrites, hunmapped⟩
  | @mapped thr globals hphase =>
      rw [AsanThreads.AdmitsMapped, hphase] at hnot
      push Not at hnot
      obtain ⟨hwrites, hfailed⟩ := hnot
      refine ⟨thr, s.pending_enter_loop thr hwrites, fun hmem => ?_⟩
      change 0 ∈ _ :: s.mapResults at hmem
      rw [honce.ahead thr ⟨globals, hphase⟩] at hmem
      exact hfailed (List.mem_singleton.mp hmem).symm
  | @ready thr globals hphase hflag =>
      rw [AsanThreads.AdmitsMapped] at hnot
      push Not at hnot
      obtain ⟨-, hwrites, hunmapped⟩ := hnot
      exact ⟨thr, s.pending_enter_loop thr hwrites, hunmapped⟩
  | @tested thr addr size isWrite hphase hflag =>
      rw [AsanThreads.AdmitsMapped] at hnot
      push Not at hnot
      refine ⟨thr, ?_, hnot.2⟩
      rw [AsanThreads.pending_enter_iff]
      exact trivial
  | unready _ hflag | skipped _ hflag =>
      exact absurd (fun htrue => absurd htrue (ne_true_of_eq_false hflag)) hnot
  | registered hphase | checked hphase =>
      rw [AsanThreads.AdmitsMapped, hphase] at hnot
      exact absurd trivial hnot

/-- A thread with an access ahead gets to it, if it runs on alone. -/
theorem exists_access_of_pending (h : asanRun mmap m before = some s)
    (hpending : (s.phase thr).Pending) (hunmapped : ¬ s.Mapped) :
    ∃ k s', asanRun mmap m (List.replicate k (.step thr) ++ before) = some s' ∧
      (s'.phase thr).AccessesShadow ∧ ¬ s'.Mapped := by
  cases hphase : s.phase thr with
  | registering g globals =>
      rw [hphase] at hpending
      induction globals generalizing g s before with
      | nil =>
          obtain ⟨g', hmem, hwrites⟩ := hpending
          rw [List.mem_singleton.mp hmem] at hwrites
          refine ⟨0, s, h, ?_, hunmapped⟩
          rw [hphase]
          exact hwrites
      | cons g' globals ih =>
          by_cases hwrites : g.Writes
          · refine ⟨0, s, h, ?_, hunmapped⟩
            rw [hphase]
            exact hwrites
          · have hpending' : ∃ g'' ∈ g' :: globals, g''.Writes := by
              obtain ⟨g'', hmem, hwrites'⟩ := hpending
              rcases List.mem_cons.mp hmem with rfl | hmem
              · exact absurd hwrites' hwrites
              · exact ⟨g'', hmem, hwrites'⟩
            let next : AsanThreads Thr := { s.enter thr (.registering g' globals) with
              mem := asanRegisterGlobal s.mem g }
            have hnext : next.phase thr = .registering g' globals := update_self ..
            have hstep : asanStep mmap s (.step thr) = some next := by
              rw [asanStep, hphase]
              rfl
            have hrun := runFrom_cons_eq_some.mpr ⟨s, h, hstep⟩
            obtain ⟨k, s', hs', hrest⟩ := ih hrun hunmapped g' hpending' hnext
            refine ⟨k + 1, s', ?_, hrest⟩
            rw [List.replicate_succ', List.append_assoc]
            exact hs'
  | checking addr size isWrite =>
      refine ⟨0, s, h, ?_, hunmapped⟩
      rw [hphase]
      exact trivial
  | outside | exchanging | mapping | reporting =>
      rw [hphase] at hpending
      exact hpending.elim

/-- **Initialization.** In every interleaving the shadow is mapped at most once. No shadow byte is
accessed before the mapping has succeeded, as long as nobody is let on to the shadow before that;
and whoever is, accesses it too early by running on alone. -/
theorem asan_shadow_exact (mmap : Mmap) (m : Memory) (history : List (AsanAct Thr)) :
    (∀ s, asanRun mmap m history = some s → s.mapResults.length ≤ 1) ∧
    (EachStep (asanStep mmap) (.initial Thr m) (AsanThreads.AdmitsMapped mmap) history →
      EachStep (asanStep mmap) (.initial Thr m) AsanThreads.NoEarlyAccess history) ∧
    ∀ (before : List (AsanAct Thr)) a s s', asanRun mmap m before = some s →
      asanStep mmap s a = some s' → ¬ s.AdmitsMapped mmap a →
      ∃ thr k s'', asanRun mmap m (List.replicate k (.step thr) ++ a :: before) = some s'' ∧
        (s''.phase thr).AccessesShadow ∧ ¬ s''.Mapped := by
  refine ⟨fun s hs => (asanRun_mapOnce hs).once, noEarlyAccess_of_admitsMapped, ?_⟩
  intro before a s s' hs hstep hnot
  obtain ⟨thr, hpending, hunmapped⟩ :=
    (asanStep_cases hstep).exists_pending (asanRun_mapOnce hs) hnot
  have hrun : asanRun mmap m (a :: before) = some s' := runFrom_cons_eq_some.mpr ⟨s, hs, hstep⟩
  exact ⟨thr, exists_access_of_pending hrun hpending hunmapped⟩

/-- One thread has set the flag and not mapped the shadow yet when another one looks and reads. -/
theorem not_asan_shadow :
    ¬ ∀ (mmap : Mmap) (m : Memory) (history : List (AsanAct Bool)),
      (∀ s, asanRun mmap m history = some s → s.mapResults.length ≤ 1) ∧
        EachStep (asanStep mmap) (.initial Bool m) AsanThreads.NoEarlyAccess history := by
  intro hall
  let before : List (AsanAct Bool) := [.check true 0x1000 8 false, .init false]
  have hsteps := (hall (fun m _ _ _ _ => some m) (fun _ => 0) (.step true :: before)).2
  have hmapped := hsteps (.step true) before _ (List.suffix_refl _) rfl true rfl trivial
  exact List.not_mem_nil hmapped

/-! ### One call at a time -/

theorem AsanThreads.enter_enter (s : AsanThreads Thr) (thr : Thr) (phase phase' : AsanPhase) :
    (s.enter thr phase).enter thr phase' = s.enter thr phase' := by
  simp only [enter, update_idem]

/-- Behind the registration loop. -/
def AsanThreads.registered (s : AsanThreads Thr) (thr : Thr) (globals : List AsanGlobal) :
    AsanThreads Thr :=
  { s.enter thr .outside with mem := globals.foldl asanRegisterGlobal s.mem }

theorem run_register_loop (s : AsanThreads Thr) (thr : Thr) (globals : List AsanGlobal) :
    runFrom (asanStep mmap) (s.enter thr (.loop globals))
        (List.replicate globals.length (.step thr)) = some (s.registered thr globals) := by
  induction globals generalizing s with
  | nil => rfl
  | cons g globals ih =>
      let next : AsanThreads Thr := { s with mem := asanRegisterGlobal s.mem g }
      have hstep : asanStep mmap (s.enter thr (.loop (g :: globals))) (.step thr) =
          some (next.enter thr (.loop globals)) := by
        have hphase : (s.enter thr (.loop (g :: globals))).phase thr = .registering g globals :=
          update_self ..
        rw [asanStep, hphase]
        dsimp only
        rw [AsanThreads.enter_enter]
        rfl
      rw [List.length_cons, List.replicate_succ', runFrom_append, runFrom, runFrom,
        Option.bind_some, hstep, Option.bind_some, ih]
      rfl

/-- A call of `__asan_register_globals` that nobody interferes with is what one thread sees. -/
theorem run_register_alone (mmap : Mmap) (globals : List AsanGlobal)
    (houtside : s.phase thr = .outside) :
    ∃ k s', runFrom (asanStep mmap) s (List.replicate k (.step thr) ++ [.register thr globals]) =
        some s' ∧ s'.toAsanState = asanRegisterGlobals mmap s.toAsanState globals ∧
      s'.phase thr = .outside := by
  cases hflag : s.asanInitialized with
  | true =>
      have hcall : asanStep mmap s (.register thr globals) =
          some (s.enter thr (.loop globals)) := by
        rw [asanStep, houtside, hflag]
        rfl
      refine ⟨globals.length, s.registered thr globals, ?_, ?_, update_self ..⟩
      · rw [runFrom_append, runFrom, runFrom, Option.bind_some, hcall, Option.bind_some]
        exact run_register_loop s thr globals
      · rw [asanRegisterGlobals, hflag]
        rfl
  | false =>
      let tested := s.enter thr (.exchanging globals)
      let won : AsanThreads Thr := { s.enter thr (.mapping globals) with asanInitialized := true }
      have hcall : asanStep mmap s (.register thr globals) = some tested := by
        rw [asanStep, houtside, hflag]
        rfl
      have hexchange : asanStep mmap tested (.step thr) = some won := by
        have hphase : tested.phase thr = .exchanging globals := update_self ..
        have hclear : tested.asanInitialized = false := hflag
        rw [asanStep, hphase]
        dsimp only
        rw [AsanThreads.exchange, hclear, if_neg Bool.false_ne_true, AsanThreads.enter_enter]
      have hmap : asanStep mmap won (.step thr) = some (won.map mmap thr globals) := by
        have hphase : won.phase thr = .mapping globals := update_self ..
        rw [asanStep, hphase]
      let mapped : AsanThreads Thr :=
        let result := drtArchMapShadowMemory mmap s.mem asanShadowBase (1 <<< 47)
        { won with mem := result.1, mapResults := result.2 :: s.mapResults }
      refine ⟨globals.length + 2, mapped.registered thr globals, ?_, ?_, update_self ..⟩
      · rw [List.replicate_add, List.append_assoc, runFrom_append]
        change (((asanStep mmap s (.register thr globals)).bind fun s =>
          asanStep mmap s (.step thr)).bind fun s => asanStep mmap s (.step thr)).bind _ = _
        rw [hcall, Option.bind_some, hexchange, Option.bind_some, hmap, Option.bind_some]
        exact run_register_loop mapped thr globals
      · rw [asanRegisterGlobals, asanInit, hflag]
        rfl

theorem run_check_alone (mmap : Mmap) (addr size : Addr) (isWrite : Bool)
    (houtside : s.phase thr = .outside) :
    ∃ k s', runFrom (asanStep mmap) s
        (List.replicate k (.step thr) ++ [.check thr addr size isWrite]) = some s' ∧
      s'.toAsanState = s.toAsanState ∧
      s'.phase thr = .behindCheck (asanCheckAccess s.toAsanState addr size isWrite) := by
  cases hflag : s.asanInitialized with
  | true =>
      let tested := s.enter thr (.checking addr size isWrite)
      have hcall : asanStep mmap s (.check thr addr size isWrite) = some tested := by
        rw [asanStep, houtside, hflag]
        rfl
      have hphase : tested.phase thr = .checking addr size isWrite := update_self ..
      have hstate : { s.toAsanState with asanInitialized := true } = s.toAsanState := by
        rw [← hflag]
      refine ⟨1, tested.enter thr _, ?_, rfl, update_self ..⟩
      change (asanStep mmap s (.check thr addr size isWrite)).bind
        (fun s => asanStep mmap s (.step thr)) = _
      rw [hcall, Option.bind_some, asanStep, hphase, ← hstate]
      rfl
  | false =>
      refine ⟨0, s, ?_, rfl, ?_⟩
      · change asanStep mmap s (.check thr addr size isWrite) = _
        rw [asanStep, houtside, hflag]
        rfl
      · rw [houtside, asanCheckAccess, hflag]
        rfl

end Misan
