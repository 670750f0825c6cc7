import Misan.Proof.LsanSections
import Misan.Foundation.Slots

/-!
# One lock for both tables

The leak sanitizer's calls, made by any threads, have the effect of the same calls made one at a
time in the order in which they give the lock back. The flag is not under the lock: only while no
registration is between its look at the flag and its return do `__lsan_disable` and `__lsan_enable`
have a place in that order. A check prints under the lock, so a leak with an address that is padded
keeps it for good, and nothing else does.
-/

namespace Misan

/-! ### Threads -/

/-- What one action does. -/
inductive LsanThreads.Move {Thread : Type} [DecidableEq Thread] (budget : Nat)
    (s : LsanThreads Thread) :
    LsanThreadAct Thread → LsanThreads Thread → Prop
  | disable {t} : s.idle t = true →
      Move budget s (.disable t) { s.enters t (some .disable) with lsanDisabled := true }
  | enable {t} : s.idle t = true →
      Move budget s (.enable t) { s.enters t (some .enable) with lsanDisabled := false }
  | begin {t op} : s.idle t = true → op.looks = true →
      Move budget s (.call t op) (s.setLooking t (some op))
  | take {t op locked} : s.idle t = true → op.looks = false →
      lockStep (lsanCritical budget) s.locked (.call t op) = some locked →
      Move budget s (.call t op) { s with locked := locked }
  | skip {t op} : s.looking t = some op → s.lsanDisabled = true →
      Move budget s (.look t) ((s.setLooking t none).enters t op.call?)
  | pass {t op locked} : s.looking t = some op → s.lsanDisabled = false →
      lockStep (lsanCritical budget) s.locked (.call t op) = some locked →
      Move budget s (.look t) { s.setLooking t none with locked := locked }
  | step {t locked} : lockStep (lsanCritical budget) s.locked (.step t) = some locked →
      Move budget s (.step t) { s.enters t
        ((s.locked.releases (lsanCritical budget) (.step t)).bind LsanOp.call?) with
        locked := locked }

section Threads

variable {Thread : Type} [DecidableEq Thread] {s s' : LsanThreads Thread}
  {act : LsanThreadAct Thread} {acts : List (LsanThreadAct Thread)} {t u : Thread} {op : LsanOp}
  {budget : Nat}

theorem lsanThreadStep_move (h : lsanThreadStep budget s act = some s') : s.Move budget act s' := by
  cases act with
  | disable t =>
      rw [lsanThreadStep] at h
      split at h
      · next hidle =>
          cases h
          exact .disable hidle
      · cases h
  | enable t =>
      rw [lsanThreadStep] at h
      split at h
      · next hidle =>
          cases h
          exact .enable hidle
      · cases h
  | call t op =>
      rw [lsanThreadStep] at h
      split at h
      · next hidle =>
          split at h
          · next hlooks =>
              cases h
              exact .begin hidle hlooks
          · next hlooks =>
              obtain ⟨locked, hlocked, rfl⟩ := Option.map_eq_some_iff.mp h
              exact .take hidle (by simpa using hlooks) hlocked
      · cases h
  | look t =>
      rw [lsanThreadStep] at h
      split at h
      · cases h
      · next op hlooking =>
          split at h
          · next hset =>
              cases h
              exact .skip hlooking hset
          · next hset =>
              obtain ⟨locked, hlocked, rfl⟩ := Option.map_eq_some_iff.mp h
              exact .pass hlooking (by simpa using hset) hlocked
  | step t =>
      obtain ⟨locked, hlocked, rfl⟩ := Option.map_eq_some_iff.mp h
      exact .step hlocked

theorem LsanThreads.Move.locked (hmove : s.Move budget act s') :
    Reaches (lockStep (lsanCritical budget)) s.locked s'.locked := by
  cases hmove with
  | disable | enable | begin | skip => exact ⟨[], rfl⟩
  | take _ _ hlocked | pass _ _ hlocked | step hlocked => exact Reaches.single hlocked

/-- At the lock the threads make a run of the sections. -/
theorem lsanThreads_reaches (h : runFrom (lsanThreadStep budget) (.initial Thread) acts = some s) :
    Reaches (lockStep (lsanCritical budget)) (.initial .initial) s.locked := by
  refine runFrom_invariant (P := fun _ _ => True)
    (I := fun s => Reaches (lockStep (lsanCritical budget)) (.initial .initial) s.locked)
    ⟨[], rfl⟩ ?_ (fun _ _ _ _ _ => trivial) h
  intro s act s' hs _ hstep
  exact hs.trans (lsanThreadStep_move hstep).locked

theorem lsanThreads_sectioned
    (h : runFrom (lsanThreadStep budget) (.initial Thread) acts = some s) :
    ∃ t₁, Sectioned (lsanCritical budget) t₁ s.locked := by
  obtain ⟨history, hhistory⟩ := lsanThreads_reaches h
  obtain ⟨t₁, hserialized⟩ := lockRun_serialized hhistory
  exact ⟨t₁, hserialized.toSectioned⟩

/-- One thread registers a block, with the lock in its hands. -/
def registeringActs : List (LsanThreadAct Bool) :=
  [.step false, .step false, .step false, .look false,
    .call false (.registerAlloc 0x2000 16 ⟨[], Nat.zero_le _⟩)]

/-- Another one waits for the lock and registers a root. -/
def crossedActs : List (LsanThreadAct Bool) :=
  List.replicate 6 (.step true) ++ List.replicate 6 (.step false) ++
    [.step true, .call true (.registerRootRegion 0x1000 64)] ++ registeringActs

def stateAfter (acts : List (LsanThreadAct Bool)) : LsanThreads Bool :=
  (runFrom (lsanThreadStep 0) (.initial Bool) acts).getD (.initial Bool)

theorem runFrom_registeringActs :
    runFrom (lsanThreadStep 0) (.initial Bool) registeringActs =
      some (stateAfter registeringActs) := by
  rfl

theorem runFrom_crossedActs :
    runFrom (lsanThreadStep 0) (.initial Bool) crossedActs = some (stateAfter crossedActs) := by
  rfl

/-- **The tables and the output are those of the calls made one at a time**, in the order in which
the calls give the lock back, whenever nobody holds it; and every leak check that has returned has
reported what it reports there. -/
theorem lsanThreads_serialized
    (h : runFrom (lsanThreadStep budget) (.initial Thread) acts = some s) :
    (s.locked.lock = false →
      s.locked.shared.view = runReturned LsanOp.onView (.initial, []) s.locked.returned) ∧
    ∀ t op l before, (t, op, l) :: before <:+ s.locked.returned →
      op.Returns (runReturned LsanOp.onView (.initial, []) before).1 l := by
  obtain ⟨history, hhistory⟩ := lsanThreads_reaches h
  exact (lsanCritical_refines budget).lockRun_eq hhistory

theorem lsanThreads_serialized_crossed :
    (stateAfter crossedActs).locked.shared.view =
      runReturned LsanOp.onView (.initial, []) (stateAfter crossedActs).locked.returned :=
  (lsanThreads_serialized runFrom_crossedActs).1 rfl

omit [DecidableEq Thread] in
theorem LsanThreads.phase_of_idle (hidle : s.idle t = true) :
    s.looking t = none ∧ s.locked.phase t = .outside := by
  obtain ⟨hlooking, hphase⟩ := Bool.and_eq_true_iff.mp hidle
  refine ⟨by simpa using hlooking, ?_⟩
  cases hcase : s.locked.phase t <;> simp_all [LockPhase.call?]

/-- Only registrations look at the flag, and they do it before they are at the lock. -/
def LsanThreads.Placed (s : LsanThreads Thread) : Prop :=
  ∀ u op, s.looking u = some op → op.looks = true ∧ s.locked.phase u = .outside

theorem LsanThreads.Placed.move (h : s.Placed) (hmove : s.Move budget act s') : s'.Placed := by
  cases hmove with
  | disable | enable => exact h
  | @begin t op hidle hlooks =>
      intro u op' hu
      obtain ⟨rfl, rfl⟩ | ⟨-, hu⟩ := update_some_eq_some.mp hu
      · exact ⟨hlooks, (phase_of_idle hidle).2⟩
      · exact h u op' hu
  | @take t op locked hidle hlooks hcall =>
      intro u op' hu
      obtain ⟨-, rfl⟩ := lockStep_call hcall
      have hne : u ≠ t := by
        rintro rfl
        rw [(phase_of_idle hidle).1] at hu
        cases hu
      rw [Locked.enter_phase, Function.update_of_ne hne]
      exact h u op' hu
  | @skip t op hlook hset =>
      intro u op' hu
      exact h u op' (update_none_eq_some.mp hu).2
  | @pass t op locked hlook hset hcall =>
      intro u op' hu
      obtain ⟨-, rfl⟩ := lockStep_call hcall
      obtain ⟨hne, hu⟩ := update_none_eq_some.mp hu
      rw [Locked.enter_phase, Function.update_of_ne hne]
      exact h u op' hu
  | @step t locked hstep =>
      intro u op hu
      obtain ⟨hothers, ⟨c, hc⟩, -, -⟩ := lockStep_step hstep
      obtain ⟨hlooks, houtside⟩ := h u op hu
      have hut : u ≠ t := by
        rintro rfl
        rw [houtside] at hc
        cases hc
      exact ⟨hlooks, (hothers u hut).trans houtside⟩

theorem lsanThreads_placed (h : runFrom (lsanThreadStep budget) (.initial Thread) acts = some s) :
    s.Placed := by
  refine runFrom_invariant (P := fun _ _ => True) (fun u op hu => ?_) ?_
    (fun _ _ _ _ _ => trivial) h
  · cases hu
  · intro s act s' hs _ hstep
    exact hs.move (lsanThreadStep_move hstep)

/-! ### The flag -/

/-- The state with the flag as it is. -/
def LsanState.withFlag (s : LsanState) (disabled : Bool) : LsanState :=
  { s with lsanDisabled := disabled }

/-- What a call does as a step of a history, where the flag lets it. -/
theorem lsanStep_withFlag (s : LsanState) (hs : s.lsanDisabled = false) {disabled : Bool}
    (hlooks : op.looks = true → disabled = false) :
    op.call?.elim (s.withFlag disabled) (lsanStep (s.withFlag disabled)) =
      (op.onState s).withFlag disabled := by
  cases op with
  | registerAlloc addr size stack =>
      obtain rfl := hlooks rfl
      simp only [LsanOp.call?, Option.elim_some, lsanStep, lsanRegisterAlloc, LsanOp.onState,
        LsanState.withFlag, hs]
      split_ifs <;> rfl
  | unregisterAlloc addr =>
      obtain rfl := hlooks rfl
      simp [LsanOp.call?, lsanStep, lsanUnregisterAlloc, LsanOp.onState, LsanState.withFlag, hs]
  | registerRootRegion p size =>
      simp only [LsanOp.call?, Option.elim_some, lsanStep, lsanRegisterRootRegion, LsanOp.onState,
        LsanState.withFlag]
      split_ifs <;> rfl
  | unregisterRootRegion p size => rfl
  | ignoreObject p => rfl
  | check m => rfl

theorem lsanStep_skipped (s : LsanState) (hlooks : op.looks = true) :
    op.call?.elim (s.withFlag true) (lsanStep (s.withFlag true)) = s.withFlag true := by
  cases op <;> simp_all [LsanOp.looks, LsanOp.call?, lsanStep, lsanRegisterAlloc,
    lsanUnregisterAlloc, LsanState.withFlag]

omit [DecidableEq Thread] in
theorem lsanRun_enters (s : LsanThreads Thread) (t : Thread) (c : Option LsanCall) :
    lsanRun ((s.enters t c).history.map Prod.snd) =
      c.elim (lsanRun (s.history.map Prod.snd)) (lsanStep (lsanRun (s.history.map Prod.snd))) := by
  cases c <;> simp [LsanThreads.enters, lsanRun]

/-- No store to the flag is made while a registration that has looked at it has yet to return. -/
def FlagQuiet (s : LsanThreads Thread) : LsanThreadAct Thread → Prop
  | .disable _ | .enable _ => ∀ u op, (s.locked.phase u).call? = some op → op.looks = false
  | _ => True

/-- The sections that have ended, with the flag as it is, are the history. A registration that has
looked at the flag has found it down, and it is down still. -/
structure LsanThreads.Linear (budget : Nat) (s : LsanThreads Thread) (t₁ : LsanTables) : Prop where
  serialized : Serialized (lsanCritical budget) .initial t₁ s.locked
  history : lsanRun (s.history.map Prod.snd) = t₁.state.withFlag s.lsanDisabled
  admitted : ∀ u op, (s.locked.phase u).call? = some op → op.looks = true →
    s.lsanDisabled = false

/-- What a whole section does to the lists. -/
theorem onState_of_performs {t₁ t₂ : LsanTables} {l : LsanPoint}
    (h : (lsanCritical budget).Performs op t₁ l t₂) : t₂.state = op.onState t₁.state := by
  exact congrArg Prod.fst ((lsanCritical_refines budget).performs op t₁ l t₂ h).1

namespace LsanThreads.Linear

variable {t₁ : LsanTables}

theorem initial (Thread : Type) : (LsanThreads.initial Thread).Linear budget .initial where
  serialized := Serialized.initial _ _
  history := rfl
  admitted u op hu := by cases hu

/-- A call takes its place at the lock. -/
theorem take (h : s.Linear budget t₁) {locked : Locked Thread LsanOp LsanPoint LsanTables}
    {looking : Thread → Option LsanOp}
    (hcall : lockStep (lsanCritical budget) s.locked (.call t op) = some locked)
    (hadmitted : op.looks = true → s.lsanDisabled = false) :
    LsanThreads.Linear budget { s with locked := locked, looking := looking } t₁ := by
  obtain ⟨t₂, hserialized, hsame, -⟩ := h.serialized.move (lockStep_move hcall)
  obtain rfl := hsame rfl
  obtain ⟨-, rfl⟩ := lockStep_call hcall
  constructor
  · exact hserialized
  · exact h.history
  · intro u op' hu hlooks
    rw [Locked.enter_phase] at hu
    by_cases hut : u = t
    · subst hut
      obtain rfl : op = op' := by simpa [LockPhase.call?] using hu
      exact hadmitted hlooks
    · rw [Function.update_of_ne hut] at hu
      exact h.admitted u op' hu hlooks

theorem step (h : s.Linear budget t₁) {locked : Locked Thread LsanOp LsanPoint LsanTables}
    (hstep : lockStep (lsanCritical budget) s.locked (.step t) = some locked) :
    ∃ t₂, LsanThreads.Linear budget
      { s.enters t ((s.locked.releases (lsanCritical budget) (.step t)).bind LsanOp.call?) with
        locked := locked } t₂ := by
  obtain ⟨t₂, hserialized, hsame, hended⟩ := h.serialized.move (lockStep_move hstep)
  obtain ⟨hothers, -, hstays, hleaves⟩ := lockStep_step hstep
  refine ⟨t₂, ⟨hserialized, ?_, ?_⟩⟩
  · rw [show (LsanThreads.history _) = (s.enters t _).history from rfl, lsanRun_enters, h.history]
    cases hreleases : s.locked.releases (lsanCritical budget) (.step t) with
    | none =>
        rw [hsame hreleases]
        rfl
    | some op =>
        obtain ⟨l, hperforms⟩ := hended op hreleases
        rw [onState_of_performs hperforms, Option.bind_some]
        exact lsanStep_withFlag _ rfl (h.admitted t op (hleaves op hreleases).1)
  · intro u op hu hlooks
    by_cases hut : u = t
    · subst hut
      cases hreleases : s.locked.releases (lsanCritical budget) (.step u) with
      | none => exact h.admitted u op ((hstays hreleases).symm.trans hu) hlooks
      | some d =>
          change (locked.phase u).call? = some op at hu
          rw [(hleaves d hreleases).2] at hu
          cases hu
    · change (locked.phase u).call? = some op at hu
      rw [hothers u hut] at hu
      exact h.admitted u op hu hlooks

theorem move (h : s.Linear budget t₁) (hplaced : s.Placed) (hquiet : FlagQuiet s act)
    (hmove : s.Move budget act s') : ∃ t₂, s'.Linear budget t₂ := by
  cases hmove with
  | @disable t hidle =>
      refine ⟨t₁, h.serialized, ?_, fun u op hu hlooks => ?_⟩
      · refine (lsanRun_enters s t _).trans ?_
        rw [h.history]
        rfl
      · rw [hquiet u op hu] at hlooks
        cases hlooks
  | @enable t hidle =>
      refine ⟨t₁, h.serialized, ?_, fun _ _ _ _ => rfl⟩
      refine (lsanRun_enters s t _).trans ?_
      rw [h.history]
      rfl
  | begin => exact ⟨t₁, h.serialized, h.history, h.admitted⟩
  | take hidle hlooks hcall =>
      refine ⟨t₁, h.take hcall fun hyes => ?_⟩
      rw [hlooks] at hyes
      cases hyes
  | @skip t op hlooking hset =>
      refine ⟨t₁, h.serialized, ?_, h.admitted⟩
      have hskip := lsanStep_skipped t₁.state (hplaced t op hlooking).1
      rw [← hset, ← h.history] at hskip
      exact (lsanRun_enters (s.setLooking t none) t op.call?).trans (hskip.trans h.history)
  | pass hlooking hset hcall => exact ⟨t₁, h.take hcall fun _ => hset⟩
  | step hstep => exact h.step hstep

end LsanThreads.Linear

theorem lsanThreads_linear (h : runFrom (lsanThreadStep budget) (.initial Thread) acts = some s)
    (hquiet : EachStep (lsanThreadStep budget) (.initial Thread) FlagQuiet acts) :
    ∃ t₁, s.Linear budget t₁ := by
  have hboth : s.Placed ∧ ∃ t₁, s.Linear budget t₁ := by
    refine runFrom_invariant (I := fun s => s.Placed ∧ ∃ t₁, s.Linear budget t₁)
      ⟨fun u op hu => ?_, .initial, .initial Thread⟩ ?_ hquiet h
    · cases hu
    · rintro s act s' ⟨hplaced, t₁, hs⟩ hact hstep
      have hmove := lsanThreadStep_move hstep
      exact ⟨hplaced.move hmove, hs.move hplaced hact hmove⟩
  exact hboth.2

/-! ### Program order -/

/-- The call an action begins, if it is one that changes anything. -/
def LsanThreadAct.callBy (t : Thread) : LsanThreadAct Thread → Option LsanCall
  | .disable u => if u = t then some .disable else none
  | .enable u => if u = t then some .enable else none
  | .call u op => if u = t then op.call? else none
  | .look _ | .step _ => none

def lsanCallsOf (t : Thread) (acts : List (LsanThreadAct Thread)) : List LsanCall :=
  acts.filterMap (LsanThreadAct.callBy t)

namespace LsanThreads

/-- The call a thread is in. -/
def pending (s : LsanThreads Thread) (t : Thread) : Option LsanCall :=
  match s.looking t with
  | some op => op.call?
  | none => (s.locked.phase t).call?.bind LsanOp.call?

/-- The calls of a thread that are in the history, and the one it is in. -/
def callsMade (s : LsanThreads Thread) (t : Thread) : List LsanCall :=
  (s.pending t).toList ++ s.history.filterMap fun r => if r.1 = t then some r.2 else none

/-- One action begins at most the call it is about, and loses none. -/
theorem Move.callsMade (hmove : s.Move budget act s') (hplaced : s.Placed) (u : Thread) :
    s'.callsMade u = (act.callBy u).toList ++ s.callsMade u := by
  cases hmove with
  | @disable t hidle =>
      obtain ⟨hnone, houtside⟩ := phase_of_idle hidle
      by_cases htu : t = u
      · subst htu
        simp [LsanThreads.callsMade, pending, enters, hnone, houtside, LockPhase.call?,
          LsanThreadAct.callBy]
      · simp [LsanThreads.callsMade, pending, enters, htu, LsanThreadAct.callBy]
  | @enable t hidle =>
      obtain ⟨hnone, houtside⟩ := phase_of_idle hidle
      by_cases htu : t = u
      · subst htu
        simp [LsanThreads.callsMade, pending, enters, hnone, houtside, LockPhase.call?,
          LsanThreadAct.callBy]
      · simp [LsanThreads.callsMade, pending, enters, htu, LsanThreadAct.callBy]
  | @begin t op hidle hlooks =>
      obtain ⟨hnone, houtside⟩ := phase_of_idle hidle
      by_cases htu : t = u
      · subst htu
        simp [LsanThreads.callsMade, pending, setLooking, hnone, houtside, LockPhase.call?,
          LsanThreadAct.callBy]
      · have hut : u ≠ t := fun heq => htu heq.symm
        simp [LsanThreads.callsMade, pending, setLooking, htu, hut, LsanThreadAct.callBy]
  | @take t op locked hidle hlooks hcall =>
      obtain ⟨hnone, houtside⟩ := phase_of_idle hidle
      obtain ⟨-, rfl⟩ := lockStep_call hcall
      by_cases htu : t = u
      · subst htu
        simp [LsanThreads.callsMade, pending, hnone, houtside, LockPhase.call?,
          LsanThreadAct.callBy]
      · have hut : u ≠ t := fun heq => htu heq.symm
        simp [LsanThreads.callsMade, pending, htu, hut, LsanThreadAct.callBy]
  | @skip t op hlook hset =>
      by_cases htu : t = u
      · subst htu
        simp [LsanThreads.callsMade, pending, setLooking, hlook,
          (hplaced t op hlook).2, LockPhase.call?, LsanThreadAct.callBy, enters]
      · have hut : u ≠ t := fun heq => htu heq.symm
        simp [LsanThreads.callsMade, pending, setLooking, htu, hut,
          LsanThreadAct.callBy, enters]
  | @pass t op locked hlook hset hcall =>
      obtain ⟨-, rfl⟩ := lockStep_call hcall
      by_cases htu : t = u
      · subst htu
        simp [LsanThreads.callsMade, pending, setLooking, hlook, LockPhase.call?,
          LsanThreadAct.callBy]
      · have hut : u ≠ t := fun heq => htu heq.symm
        simp [LsanThreads.callsMade, pending, setLooking, hut, LsanThreadAct.callBy]
  | @step t locked hstep =>
      obtain ⟨hothers, ⟨c, hc⟩, hstays, hleaves⟩ := lockStep_step hstep
      have hnone : s.looking t = none := by
        cases hlook : s.looking t with
        | none => rfl
        | some op =>
            rw [(hplaced t op hlook).2] at hc
            cases hc
      by_cases htu : t = u
      · subst htu
        cases hreleases : s.locked.releases (lsanCritical budget) (.step t) with
        | none =>
            simp [LsanThreads.callsMade, pending, enters, hnone, hstays hreleases,
              LsanThreadAct.callBy]
        | some d =>
            obtain ⟨hbefore, hafter⟩ := hleaves d hreleases
            have hout : (locked.phase t).call? = none := by
              rw [hafter]
              rfl
            cases hd : d.call? <;> simp [LsanThreads.callsMade, pending, enters, hnone, hbefore,
              hout, hd, LsanThreadAct.callBy]
      · have hut : u ≠ t := fun heq => htu heq.symm
        cases hcall : (s.locked.releases (lsanCritical budget) (.step t)).bind LsanOp.call? <;>
          simp [LsanThreads.callsMade, pending, enters, hothers u hut, htu, LsanThreadAct.callBy]

end LsanThreads

theorem lsanCallsOf_eq (h : runFrom (lsanThreadStep budget) (.initial Thread) acts = some s)
    (t : Thread) : lsanCallsOf t acts = s.callsMade t := by
  induction acts generalizing s with
  | nil =>
      cases h
      rfl
  | cons act acts ih =>
      obtain ⟨s', hs', hstep⟩ := runFrom_cons_eq_some.mp h
      have hcalls := (lsanThreadStep_move hstep).callsMade (lsanThreads_placed hs') t
      rw [hcalls, ← ih hs', lsanCallsOf, lsanCallsOf, List.filterMap_cons]
      cases act.callBy t <;> rfl

/-- **The calls have an order**, `__lsan_disable` and `__lsan_enable` among them, that is each
thread's own and that the tables and the flag are the outcome of, in every run in which the flag is
only stored to while no registration that has looked at it has yet to return. -/
theorem lsanThreads_linearizable
    (h : runFrom (lsanThreadStep budget) (.initial Thread) acts = some s)
    (hquiet : EachStep (lsanThreadStep budget) (.initial Thread) FlagQuiet acts) :
    (s.locked.lock = false →
      s.locked.shared.state.withFlag s.lsanDisabled = lsanRun (s.history.map Prod.snd)) ∧
    ∀ t, lsanCallsOf t acts = s.callsMade t := by
  refine ⟨fun hfree => ?_, lsanCallsOf_eq h⟩
  obtain ⟨t₁, hlinear⟩ := lsanThreads_linear h hquiet
  rw [hlinear.history, hlinear.serialized.free hfree]

theorem eachStep_crossedActs :
    EachStep (lsanThreadStep budget) (.initial Bool) FlagQuiet crossedActs := by
  intro act before s hsuffix _
  have hact : act ∈ crossedActs := hsuffix.subset (List.mem_cons_self ..)
  simp [crossedActs, registeringActs] at hact
  rcases hact with rfl | rfl | rfl | rfl | rfl | rfl | rfl <;> trivial

theorem lsanThreads_linearizable_crossed :
    (stateAfter crossedActs).locked.shared.state.withFlag false =
      lsanRun ((stateAfter crossedActs).history.map Prod.snd) :=
  (lsanThreads_linearizable runFrom_crossedActs eachStep_crossedActs).1 rfl

/-! ### Every call returns -/

/-- The block an action registers can be reported. -/
def LsanThreadAct.Printable (budget : Nat) : LsanThreadAct Thread → Prop
  | .call _ op => op.Printable budget
  | _ => True

/-- The blocks in the table and those about to be registered can be reported. -/
structure LsanThreads.Printable (budget : Nat) (s : LsanThreads Thread) (t₁ : LsanTables) :
    Prop where
  sectioned : Sectioned (lsanCritical budget) t₁ s.locked
  state : t₁.state.Printable budget
  calls : ∀ u op, (s.locked.phase u).call? = some op → op.Printable budget
  looking : ∀ u op, s.looking u = some op → op.Printable budget

namespace LsanThreads.Printable

variable {t₁ : LsanTables}

theorem initial (Thread : Type) : (LsanThreads.initial Thread).Printable budget .initial where
  sectioned := Sectioned.initial _ _
  state a ha := by cases ha
  calls u op hu := by cases hu
  looking u op hu := by cases hu

theorem atLock (h : s.Printable budget t₁) {lockAct : LockAct Thread LsanOp}
    {locked : Locked Thread LsanOp LsanPoint LsanTables}
    (hstep : lockStep (lsanCritical budget) s.locked lockAct = some locked)
    (hcall : ∀ u op, lockAct = .call u op → op.Printable budget)
    {looking : Thread → Option LsanOp}
    (hlooking : ∀ u op, looking u = some op → s.looking u = some op) {disabled : Bool}
    {history : List (Thread × LsanCall)} :
    ∃ t₂, LsanThreads.Printable budget ⟨disabled, locked, looking, history⟩ t₂ := by
  obtain ⟨t₂, hsectioned, hsame, hended⟩ := h.sectioned.move (lockStep_move hstep)
  refine ⟨t₂, hsectioned, ?_, fun u op hu => ?_, fun u op hu => h.looking u op (hlooking u op hu)⟩
  · cases hreleases : s.locked.releases (lsanCritical budget) lockAct with
    | none =>
        rw [(hsame hreleases).1]
        exact h.state
    | some op =>
        obtain ⟨t, l, -, ht, -, hperforms⟩ := hended op hreleases
        have hop : op.Printable budget := h.calls t op (by rw [ht]; rfl)
        obtain ⟨l', t', hperforms', hprintable⟩ := lsanCritical_performs hop h.state
        obtain ⟨-, rfl⟩ := hperforms'.unique hperforms
        exact hprintable
  · rcases lockStep_call? hstep hu with hbefore | hnew
    · exact h.calls u op hbefore
    · exact hcall u op hnew

theorem move (h : s.Printable budget t₁) (hact : act.Printable budget)
    (hmove : s.Move budget act s') : ∃ t₂, s'.Printable budget t₂ := by
  cases hmove with
  | disable | enable => exact ⟨t₁, h.sectioned, h.state, h.calls, h.looking⟩
  | begin =>
      refine ⟨t₁, h.sectioned, h.state, h.calls, fun u op hu => ?_⟩
      obtain ⟨-, rfl⟩ | ⟨-, hu⟩ := update_some_eq_some.mp hu
      · exact hact
      · exact h.looking u op hu
  | take _ _ hlocked =>
      refine h.atLock hlocked (fun u op hcall => ?_) fun _ _ hu => hu
      cases hcall
      exact hact
  | skip =>
      exact ⟨t₁, h.sectioned, h.state, h.calls, fun u op hu =>
        h.looking u op (update_none_eq_some.mp hu).2⟩
  | @pass t op locked hlooking _ hlocked =>
      refine h.atLock hlocked (fun u op' hcall => ?_) fun u op' hu => (update_none_eq_some.mp hu).2
      cases hcall
      exact h.looking t op hlooking
  | step hlocked => exact h.atLock hlocked (fun _ _ hcall => by cases hcall) fun _ _ hu => hu

end LsanThreads.Printable

theorem lsanThreads_printable (h : runFrom (lsanThreadStep budget) (.initial Thread) acts = some s)
    (hacts : ∀ act ∈ acts, act.Printable budget) : ∃ t₁, s.Printable budget t₁ := by
  refine runFrom_invariant (I := fun s => ∃ t₁, s.Printable budget t₁)
    (P := fun _ act => act.Printable budget) ⟨.initial, .initial Thread⟩ ?_
    (fun act before s hsuffix _ => hacts act (hsuffix.subset (List.mem_cons_self ..))) h
  rintro s act s' ⟨t₁, hs⟩ hact hstep
  exact hs.move hact (lsanThreadStep_move hstep)

/-- A thread goes on with the call it is in. -/
def lsanGo (budget : Nat) (s : LsanThreads Thread) (t : Thread) : Option (LsanThreads Thread) :=
  if (s.looking t).isSome then lsanThreadStep budget s (.look t)
  else lsanThreadStep budget s (.step t)

/-- What the threads can do at the lock they can do. -/
theorem reaches_of_lockGo (hplaced : s.Placed)
    {locked : Locked Thread LsanOp LsanPoint LsanTables}
    (h : Reaches (lockGo (lsanCritical budget)) s.locked locked) :
    ∃ s', Reaches (lsanGo budget) s s' ∧ s'.Placed ∧ s'.locked = locked ∧
      s'.looking = s.looking := by
  obtain ⟨history, hhistory⟩ := h
  induction history generalizing locked with
  | nil =>
      cases hhistory
      exact ⟨s, ⟨[], rfl⟩, hplaced, rfl, rfl⟩
  | cons t history ih =>
      obtain ⟨before, hbefore, hgo⟩ := runFrom_cons_eq_some.mp hhistory
      obtain ⟨s', hreaches, hplaced', rfl, hlooking⟩ := ih hbefore
      obtain ⟨-, ⟨c, hc⟩, -, -⟩ := lockStep_step hgo
      have hnone : s'.looking t = none := by
        cases hlook : s'.looking t with
        | none => rfl
        | some op =>
            rw [(hplaced' t op hlook).2] at hc
            cases hc
      have hstep : lsanThreadStep budget s' (.step t) = some { s'.enters t
          ((s'.locked.releases (lsanCritical budget) (.step t)).bind LsanOp.call?) with
          locked := locked } :=
        Option.map_eq_some_iff.mpr ⟨locked, hgo, rfl⟩
      refine ⟨_, hreaches.trans (Reaches.single (a := t) ?_),
        hplaced'.move (lsanThreadStep_move hstep), rfl, hlooking⟩
      simpa [lsanGo, hnone] using hstep

theorem exists_reaches_idle (h : runFrom (lsanThreadStep budget) (.initial Thread) acts = some s)
    (hacts : ∀ act ∈ acts, act.Printable budget) (hnone : s.looking t = none) :
    ∃ s', Reaches (lsanGo budget) s s' ∧ s'.idle t = true := by
  obtain ⟨t₁, hprintable⟩ := lsanThreads_printable h hacts
  obtain ⟨locked, hlocked, houtside⟩ := hprintable.sectioned.exists_reaches_outside
    (fun _ _ => lsanCritical_performs) hprintable.state hprintable.calls t
  obtain ⟨s', hreaches, -, rfl, hlooking⟩ := reaches_of_lockGo (lsanThreads_placed h) hlocked
  refine ⟨s', hreaches, ?_⟩
  simp [LsanThreads.idle, hlooking, hnone, houtside, LockPhase.call?]

theorem exists_reaches_idle_of_printable
    (h : runFrom (lsanThreadStep budget) (.initial Thread) acts = some s)
    (hacts : ∀ act ∈ acts, act.Printable budget) (t : Thread) :
    ∃ s', Reaches (lsanGo budget) s s' ∧ s'.idle t = true := by
  cases hlook : s.looking t with
  | none => exact exists_reaches_idle h hacts hlook
  | some op =>
      obtain ⟨-, houtside⟩ := lsanThreads_placed h t op hlook
      obtain ⟨s', hstep, hnone⟩ : ∃ s', lsanThreadStep budget s (.look t) = some s' ∧
          s'.looking t = none := by
        cases hset : s.lsanDisabled with
        | true => simp [lsanThreadStep, hlook, hset, LsanThreads.enters, LsanThreads.setLooking]
        | false =>
            simp [lsanThreadStep, hlook, hset, LsanThreads.atLock, LsanThreads.setLooking,
              lockStep, houtside]
      have hlooked : runFrom (lsanThreadStep budget) (.initial Thread) (.look t :: acts) =
          some s' :=
        runFrom_cons_eq_some.mpr ⟨s, h, hstep⟩
      obtain ⟨s'', hreaches, hidle⟩ := exists_reaches_idle hlooked
        (List.forall_mem_cons.mpr ⟨trivial, hacts⟩) hnone
      refine ⟨s'', (Reaches.single (a := t) ?_).trans hreaches, hidle⟩
      simpa [lsanGo, hlook] using hstep

/-- **No call hangs that prints only long addresses**: if every address and every frame of the
blocks a run registers fills sixteen digits, then from each of its states the threads can go on with
the calls they are in until a given one is in none. -/
theorem lsanThreads_return {blocks : List LsanAlloc} (hfits : ∀ a ∈ blocks, LsanLeakFits a) :
    ∃ N, ∀ budget, N ≤ budget → ∀ (acts : List (LsanThreadAct Thread)) s,
      runFrom (lsanThreadStep budget) (.initial Thread) acts = some s →
        (∀ t addr size stack, .call t (.registerAlloc addr size stack) ∈ acts →
          ⟨addr, size, .active, false, stack⟩ ∈ blocks) →
            ∀ t, ∃ s', Reaches (lsanGo budget) s s' ∧ s'.idle t = true := by
  obtain ⟨N, hN⟩ := exists_forall_lsanPrinted hfits
  refine ⟨N, fun budget hbudget acts s h hblocks t => exists_reaches_idle_of_printable h ?_ t⟩
  intro act hact
  cases act with
  | call u op =>
      cases op with
      | registerAlloc addr size stack => exact hN budget hbudget _ (hblocks u addr size stack hact)
      | _ => trivial
  | _ => trivial

/-- One thread has registered a block, and another one is at it in its check. -/
def checkingActs (addr : Addr) : List (LsanThreadAct Bool) :=
  [.step true, .call true (.check fun _ => 0)] ++ List.replicate 9 (.step false) ++
    [.look false, .call false (.registerAlloc addr 16 ⟨[], Nat.zero_le _⟩)]

theorem lsanThreads_return_checking :
    ∃ N, ∀ budget, N ≤ budget → ∃ s,
      runFrom (lsanThreadStep budget) (.initial Bool) (checkingActs 0x1000000000000000) = some s ∧
        s.idle true = false ∧ ∃ s', Reaches (lsanGo budget) s s' ∧ s'.idle true = true := by
  let block : LsanAlloc := ⟨0x1000000000000000, 16, .active, false, ⟨[], Nat.zero_le _⟩⟩
  have hfits : ∀ a ∈ [block], LsanLeakFits a := by
    intro a ha
    rw [List.mem_singleton.mp ha]
    exact ⟨Nat.le_refl _, fun pc hpc => by cases hpc⟩
  obtain ⟨N, hN⟩ := @lsanThreads_return Bool _ _ hfits
  refine ⟨N, fun budget hbudget => ?_⟩
  obtain ⟨s, hs, hbusy⟩ : ∃ s, runFrom (lsanThreadStep budget) (.initial Bool)
      (checkingActs 0x1000000000000000) = some s ∧ s.idle true = false := by
    refine ⟨_, rfl, ?_⟩
    rfl
  refine ⟨s, hs, hbusy, hN budget hbudget _ s hs ?_ true⟩
  intro t addr size stack hcall
  simp [checkingActs] at hcall
  obtain ⟨-, rfl, rfl, rfl⟩ := hcall
  exact List.mem_singleton_self _

/-! ### A report that does not end -/

/-- A point in a report remembers the block. -/
def LsanPoint.Reporting (budget : Nat) : LsanPoint → Prop
  | .checkPrint _ _ _ reports left =>
      ∃ a ∈ reports.getLast?, left.ends = (lsanPrinted budget a).ends
  | _ => True

omit [DecidableEq Thread] in
theorem LsanOp.enter_reporting (op : LsanOp) :
    ((lsanCritical budget).enter op).Reporting budget := by
  cases op <;> trivial

theorem LsanPoint.Reporting.step {l l' : LsanPoint} {t t' : LsanTables} (h : l.Reporting budget)
    (hstep : (lsanCritical budget).step l t = some (l', t')) : l'.Reporting budget := by
  rw [lsanCritical_step] at hstep
  cases l with
  | registerStores idx stores =>
      cases stores <;> cases hstep <;> trivial
  | rootStores idx stores =>
      cases stores <;> cases hstep <;> trivial
  | registerTest | unregisterScan | rootTest | rootScan | ignoreScan =>
      rw [lsanPointStep] at hstep
      split_ifs at hstep <;> cases hstep <;> trivial
  | checkScan m i leaksFound reports =>
      rw [lsanPointStep] at hstep
      split_ifs at hstep <;> cases hstep
      · trivial
      · trivial
      · exact ⟨_, by simp, rfl⟩
      · trivial
      · trivial
  | checkPrint m i leaksFound reports left =>
      rw [lsanPointStep] at hstep
      split at hstep
      · next hprint =>
          obtain ⟨-, -, -, hends⟩ := printPointStep_cases hprint
          obtain ⟨a, ha, hsame⟩ := h
          cases hstep
          exact ⟨a, ha, hends.trans hsame⟩
      · cases hstep
        trivial
  | rootCount | unregisterStore | ignoreStore | rootCopy =>
      cases hstep
      trivial
  | done | checked => cases hstep

theorem lsanThreads_reporting (h : runFrom (lsanThreadStep budget) (.initial Thread) acts = some s)
    {l : LsanPoint} (ht : s.locked.phase t = .inside op l) : l.Reporting budget := by
  obtain ⟨t₁, hsectioned⟩ := lsanThreads_sectioned h
  exact hsectioned.inside_invariant (I := fun l _ => l.Reporting budget)
    (fun op _ => op.enter_reporting) (fun _ _ _ _ hl hstep => hl.step hstep) ht

/-- The thread is in the report of one block and will not come to its end. The tables are as they
were, and so is what was printed before. -/
structure LsanThreads.Blocked (s : LsanThreads Thread) (t : Thread) (op : LsanOp)
    (point : PrintPoint Byte → LsanPoint) (tables : LsanState) (out : List Byte) : Prop where
  inside : ∃ left, s.locked.phase t = .inside op (point left) ∧ left.ends = false
  state : s.locked.shared.state = tables
  out : out <+: s.locked.shared.out

section Blocked

variable {m : Memory} {i leaksFound : Nat} {reports : List LsanAlloc} {left : PrintPoint Byte}
  {tables : LsanState} {out : List Byte}

theorem LsanThreads.Blocked.atLock
    (h : s.Blocked t op (.checkPrint m i leaksFound reports) tables out) {t₁ : LsanTables}
    (hsectioned : Sectioned (lsanCritical budget) t₁ s.locked) {lockAct : LockAct Thread LsanOp}
    (hstep : lockStep (lsanCritical budget) s.locked lockAct = some s'.locked) :
    s'.Blocked t op (.checkPrint m i leaksFound reports) tables out ∧
      s'.locked.returned = s.locked.returned := by
  let Here : LsanPoint → LsanTables → Prop := fun l t =>
    (∃ left, l = .checkPrint m i leaksFound reports left ∧ left.ends = false) ∧
      t.state = tables ∧ out <+: t.out
  have hstays : ∀ l t l' t', Here l t → (lsanCritical budget).step l t = some (l', t') →
      Here l' t' := by
    rintro _ t l' t' ⟨⟨left, rfl, hends⟩, hstate, hout⟩ hpoint
    rw [lsanCritical_step, lsanPointStep] at hpoint
    split at hpoint
    · next hprint =>
        obtain ⟨new, hnew, -, hsame⟩ := printPointStep_cases hprint
        cases hpoint
        exact ⟨⟨_, rfl, hsame.trans hends⟩, hstate, hout.trans ⟨new, hnew.symm⟩⟩
    · next hprint => exact absurd hprint (printPointStep_ne_none hends)
  have hnever : ∀ l t, Here l t → (lsanCritical budget).step l t ≠ none := by
    rintro _ t ⟨⟨left, rfl, hends⟩, -⟩
    exact LsanPoint.Stuck.step_ne_none hends
  obtain ⟨left, ht, hends⟩ := h.inside
  obtain ⟨hreturned, l, hl, ⟨left, rfl, hends⟩, hstate, hout⟩ := hsectioned.move_stuck hstays hnever
    ht ⟨⟨left, rfl, hends⟩, h.state, h.out⟩ (lockStep_move hstep)
  exact ⟨⟨⟨left, hl, hends⟩, hstate, hout⟩, hreturned⟩

theorem LsanThreads.Blocked.move
    (h : s.Blocked t op (.checkPrint m i leaksFound reports) tables out) {t₁ : LsanTables}
    (hsectioned : Sectioned (lsanCritical budget) t₁ s.locked) (hmove : s.Move budget act s') :
    s'.Blocked t op (.checkPrint m i leaksFound reports) tables out ∧
      s'.locked.returned = s.locked.returned := by
  cases hmove with
  | disable | enable | begin | skip => exact ⟨⟨h.inside, h.state, h.out⟩, rfl⟩
  | take _ _ hlocked | pass _ _ hlocked | step hlocked => exact h.atLock hsectioned hlocked

/-- **A leak with a short address blocks the runtime**: once a thread is in the report of a block
with an address or a frame of fewer than sixteen digits, it stays there in every continuation, no
other call gives the lock back, and the tables do not change. -/
theorem lsanThreads_stuck {later : List (LsanThreadAct Thread)} {a : LsanAlloc}
    (h : runFrom (lsanThreadStep budget) (.initial Thread) acts = some s)
    (ht : s.locked.phase t = .inside op (.checkPrint m i leaksFound (reports ++ [a]) left))
    (hshort : ¬ LsanLeakFits a)
    (hlater : runFrom (lsanThreadStep budget) (.initial Thread) (later ++ acts) = some s') :
    (∃ left, s'.locked.phase t = .inside op (.checkPrint m i leaksFound (reports ++ [a]) left)) ∧
      s'.locked.lock = true ∧ s'.locked.returned = s.locked.returned ∧
      s'.locked.shared.state = s.locked.shared.state ∧
      s.locked.shared.out <+: s'.locked.shared.out := by
  have hends : left.ends = false := by
    obtain ⟨b, hb, hsame⟩ := lsanThreads_reporting h ht
    obtain rfl : a = b := by simpa using hb
    rw [hsame, ← Bool.not_eq_true]
    exact fun hends => hshort (lsanPrinted_of_ends hends).1
  have hblocked := runFrom_preserves (I := fun s' =>
    (∃ history, runFrom (lsanThreadStep budget) (.initial Thread) history = some s') ∧
      s'.Blocked t op (.checkPrint m i leaksFound (reports ++ [a])) s.locked.shared.state
        s.locked.shared.out ∧ s'.locked.returned = s.locked.returned) ?_ h ?_ hlater
  · obtain ⟨⟨history, hhistory⟩, ⟨⟨left, hl, -⟩, hstate, hout⟩, hreturned⟩ := hblocked
    obtain ⟨t₁, hsectioned⟩ := lsanThreads_sectioned hhistory
    exact ⟨⟨left, hl⟩, hsectioned.held.mpr ⟨t, op, _, hl⟩, hreturned, hstate, hout⟩
  · rintro s₁ act s₂ ⟨⟨history, hhistory⟩, hs₁, hreturned⟩ hstep
    obtain ⟨t₁, hsectioned⟩ := lsanThreads_sectioned hhistory
    obtain ⟨hs₂, hsame⟩ := hs₁.move hsectioned (lsanThreadStep_move hstep)
    exact ⟨⟨act :: history, runFrom_cons_eq_some.mpr ⟨s₁, hhistory, hstep⟩⟩, hs₂,
      hsame.trans hreturned⟩
  · exact ⟨⟨acts, h⟩, ⟨⟨left, ht, hends⟩, rfl, List.prefix_refl _⟩, rfl⟩

end Blocked

variable (budget) in
/-- A leak check that is at a leak goes on to print it. -/
theorem exists_lsanThreadStep_leak {m : Memory} {i leaksFound : Nat} {reports : List LsanAlloc}
    (ht : s.locked.phase t = .inside op (.checkScan m i leaksFound reports))
    (hi : i < s.locked.shared.allocCount)
    (hleaks : lsanLeaks s.locked.shared.state m (s.locked.shared.allocs i) = true) :
    ∃ s', lsanThreadStep budget s (.step t) = some s' ∧ s'.locked.phase t =
      .inside op (.checkPrint m i (leaksFound + 1) (reports ++ [s.locked.shared.allocs i])
        (lsanPrinted budget (s.locked.shared.allocs i))) := by
  have hstep : (lsanCritical budget).step (.checkScan m i leaksFound reports) s.locked.shared = _ :=
    checkScan_step_leak hi hleaks
  simp [lsanThreadStep, LsanThreads.atLock, LsanThreads.enters, lockStep, ht, hstep]

theorem lsanThreads_stuck_checking :
    ∃ s, runFrom (lsanThreadStep 100) (.initial Bool) (.step true :: checkingActs 0x2000) =
        some s ∧
      ∀ later s', runFrom (lsanThreadStep 100) (.initial Bool)
        (later ++ .step true :: checkingActs 0x2000) = some s' →
          s'.locked.returned = s.locked.returned := by
  obtain ⟨s, hs, hphase, hcount, hstate, hblock⟩ : ∃ s,
      runFrom (lsanThreadStep 100) (.initial Bool) (checkingActs 0x2000) = some s ∧
        s.locked.phase true = .inside (.check fun _ => 0) (.checkScan (fun _ => 0) 0 0 []) ∧
        s.locked.shared.allocCount = 1 ∧
        s.locked.shared.state = lsanRegisterAlloc .initial 0x2000 16 ⟨[], Nat.zero_le _⟩ ∧
        s.locked.shared.allocs 0 = ⟨0x2000, 16, .active, false, ⟨[], Nat.zero_le _⟩⟩ := by
    refine ⟨_, rfl, ?_⟩
    exact ⟨rfl, rfl, rfl, rfl⟩
  have hleaks : lsanLeaks s.locked.shared.state (fun _ => 0) (s.locked.shared.allocs 0) = true := by
    rw [hstate, hblock]
    decide +kernel
  have hi : 0 < s.locked.shared.allocCount := by simp [hcount]
  obtain ⟨s', hstep, hprint⟩ := exists_lsanThreadStep_leak 100 hphase hi hleaks
  have hs' := runFrom_cons_eq_some.mpr ⟨s, hs, hstep⟩
  refine ⟨s', hs', fun later s'' hlater => ?_⟩
  have hshort : ¬ LsanLeakFits (s.locked.shared.allocs 0) := by
    rw [hblock]
    rintro ⟨hlong, -⟩
    rw [SixteenDigits] at hlong
    exact absurd hlong (by decide)
  exact (lsanThreads_stuck hs' hprint hshort hlater).2.2.1

/-! ### Bounds -/

/-- The entries of `lsan_allocs` the next step reads or stores to. -/
def LsanPoint.allocEntries (t : LsanTables) : LsanPoint → List Nat
  | .registerStores idx (_ :: _) => [idx]
  | .unregisterScan _ i | .ignoreScan _ i => if i < t.allocCount then [i] else []
  | .unregisterStore i | .ignoreStore i => [i]
  | .checkScan _ i _ _ => if i < t.allocCount then List.range t.allocCount else []
  | .checkPrint _ i _ _ _ => [i]
  | _ => []

/-- The entries of `lsan_roots` the next step reads or stores to. -/
def LsanPoint.rootEntries (t : LsanTables) : LsanPoint → List Nat
  | .rootStores idx (_ :: _) => [idx]
  | .rootScan _ i => if i < t.rootCount then [i] else []
  | .rootCopy i last => [i, last]
  | .checkScan _ i _ _ => if i < t.allocCount then List.range t.rootCount else []
  | _ => []

/-- What a point remembers of the tables is inside them. -/
def LsanPoint.Within (t : LsanTables) : LsanPoint → Prop
  | .registerStores idx _ => idx < lsanMaxAllocs
  | .unregisterStore i | .ignoreStore i | .checkPrint _ i _ _ _ => i < lsanMaxAllocs
  | .rootStores idx _ => idx < lsanMaxRoots
  | .rootCount i => i < t.rootCount
  | .rootCopy i last => i < lsanMaxRoots ∧ last < lsanMaxRoots
  | _ => True

omit [DecidableEq Thread] in
theorem LsanOp.enter_within (op : LsanOp) (t : LsanTables) :
    ((lsanCritical budget).enter op).Within t := by
  cases op <;> trivial

theorem LsanPoint.Within.step {l l' : LsanPoint} {t t' : LsanTables} (h : l.Within t)
    (hstep : (lsanCritical budget).step l t = some (l', t')) : l'.Within t' := by
  have hallocs := t.allocCount_le
  have hroots := t.rootCount_le
  rw [lsanCritical_step] at hstep
  cases l with
  | registerStores idx stores =>
      cases stores <;> cases hstep <;> trivial
  | rootStores idx stores =>
      cases stores <;> cases hstep <;> trivial
  | registerTest | unregisterScan | rootTest | rootScan | ignoreScan | checkScan =>
      rw [lsanPointStep] at hstep
      split_ifs at hstep <;> cases hstep <;> first | trivial | (simp only [Within]; omega)
  | rootCount i =>
      cases hstep
      simp only [Within] at h ⊢
      omega
  | unregisterStore | ignoreStore | rootCopy =>
      cases hstep
      trivial
  | checkPrint m i leaksFound reports left =>
      rw [lsanPointStep] at hstep
      split at hstep
      · cases hstep
        exact h
      · cases hstep
        trivial
  | done | checked => cases hstep

theorem LsanPoint.Within.allocEntries {l : LsanPoint} {t : LsanTables} (h : l.Within t) {i : Nat}
    (hi : i ∈ l.allocEntries t) : i < lsanMaxAllocs := by
  have hallocs := t.allocCount_le
  cases l with
  | registerStores idx stores =>
      cases stores with
      | nil => simp [LsanPoint.allocEntries] at hi
      | cons store stores =>
          obtain rfl : i = idx := by simpa [LsanPoint.allocEntries] using hi
          exact h
  | unregisterStore j | ignoreStore j | checkPrint _ j =>
      obtain rfl : i = j := by simpa [LsanPoint.allocEntries] using hi
      exact h
  | unregisterScan _ j | ignoreScan _ j =>
      rw [LsanPoint.allocEntries] at hi
      split_ifs at hi <;> grind
  | checkScan _ j =>
      rw [LsanPoint.allocEntries] at hi
      split_ifs at hi <;> grind
  | registerTest | rootTest | rootStores | rootScan | rootCount | rootCopy | done | checked =>
      simp [LsanPoint.allocEntries] at hi

theorem LsanPoint.Within.rootEntries {l : LsanPoint} {t : LsanTables} (h : l.Within t) {i : Nat}
    (hi : i ∈ l.rootEntries t) : i < lsanMaxRoots := by
  have hroots := t.rootCount_le
  cases l with
  | rootStores idx stores =>
      cases stores with
      | nil => simp [LsanPoint.rootEntries] at hi
      | cons store stores =>
          obtain rfl : i = idx := by simpa [LsanPoint.rootEntries] using hi
          exact h
  | rootCopy j last =>
      rw [LsanPoint.rootEntries, List.mem_pair] at hi
      rcases hi with rfl | rfl
      · exact h.1
      · exact h.2
  | rootScan _ j | checkScan _ j =>
      rw [LsanPoint.rootEntries] at hi
      split_ifs at hi <;> grind
  | registerTest | registerStores | unregisterScan | unregisterStore | rootTest | rootCount |
    ignoreScan | ignoreStore | checkPrint | done | checked =>
      simp [LsanPoint.rootEntries] at hi

/-- **No thread leaves the tables**: in every interleaving each index used is inside its array, and
the count of the roots is only lowered when it is positive. -/
theorem lsanThreads_in_bounds (h : runFrom (lsanThreadStep budget) (.initial Thread) acts = some s)
    {l : LsanPoint} (ht : s.locked.phase t = .inside op l) :
    (∀ i ∈ l.allocEntries s.locked.shared, i < lsanMaxAllocs) ∧
    (∀ i ∈ l.rootEntries s.locked.shared, i < lsanMaxRoots) ∧
    ∀ i, l = .rootCount i → 0 < s.locked.shared.rootCount := by
  obtain ⟨t₁, hsectioned⟩ := lsanThreads_sectioned h
  have hwithin : l.Within s.locked.shared :=
    hsectioned.inside_invariant (I := fun l t => l.Within t) (fun op t => op.enter_within t)
      (fun l t l' t' hl hstep => hl.step hstep) ht
  refine ⟨fun i hi => hwithin.allocEntries hi, fun i hi => hwithin.rootEntries hi, ?_⟩
  rintro i rfl
  exact Nat.zero_lt_of_lt hwithin

theorem lsanThreads_in_bounds_registering :
    ∃ op l, (stateAfter registeringActs).locked.phase false = .inside op l ∧
      l.allocEntries (stateAfter registeringActs).locked.shared = [0] ∧
      ∀ i ∈ l.allocEntries (stateAfter registeringActs).locked.shared, i < lsanMaxAllocs :=
  ⟨_, _, rfl, rfl, (lsanThreads_in_bounds runFrom_registeringActs (t := false) rfl).1⟩

end Threads

end Misan
