import Misan.Proof.TsanSections
import Misan.Proof.TsanShadowTable

/-!
# One lock, and a registration in front of it

A thread that is given its identifier fills its record while others run their sections. Nobody looks
at the record before it is complete, so the threads together do what the calls do one after another:
the registration when the counter moves on, everything else when the lock is given back.
-/

namespace Misan

open Function

variable {Thr : Type}

/-! ### The stores of a registration -/

def storeAll (stores : List (TsanThread → TsanThread)) (r : TsanThread) : TsanThread :=
  stores.foldl (fun r store => store r) r

theorem storeAll_append (stores stores' : List (TsanThread → TsanThread)) (r : TsanThread) :
    storeAll (stores ++ stores') r = storeAll stores' (storeAll stores r) := by
  simp [storeAll]

theorem storeAll_zeros (is : List Tid) (r : TsanThread) :
    storeAll (is.map fun i r => { r with vc := update r.vc i 0 }) r =
      { r with vc := fun k => if k ∈ is then 0 else r.vc k } := by
  induction is generalizing r with
  | nil => simp [storeAll]
  | cons i is ih =>
      have hcons := ih { r with vc := update r.vc i 0 }
      rw [storeAll] at hcons
      simp only [List.map_cons, storeAll, List.foldl_cons, hcons, TsanThread.mk.injEq, and_true]
      funext k
      by_cases hk : k = i <;> simp [hk]

theorem storeAll_register (tid : Tid) (r : TsanThread) :
    storeAll (tsanRegisterStores tid) r = ⟨update 0 tid 1, true⟩ := by
  have hzeros := storeAll_zeros (List.finRange 64) { r with active := true }
  have hcleared : (fun k : Tid => if k ∈ List.finRange 64 then 0 else r.vc k) = 0 := by
    funext k
    simp
  rw [hcleared] at hzeros
  rw [tsanRegisterStores, storeAll_append]
  have hfilled : storeAll ((fun r => { r with active := true }) ::
      (List.finRange 64).map fun i r => { r with vc := update r.vc i 0 }) r = ⟨0, true⟩ := hzeros
  rw [hfilled]
  rfl

/-! ### Records that are being filled -/

/-- The record with this identifier is not being filled. -/
def Complete (entry : Thr → TsanEntry Thr) (tid : Tid) : Prop :=
  ∀ thr c stores, entry thr ≠ .registering c tid stores

/-- `g` does the stores that are left. -/
structure Completes (entry : Thr → TsanEntry Thr) (g : Tid → TsanThread → TsanThread) : Prop where
  complete : ∀ tid, Complete entry tid → g tid = id
  registering : ∀ thr c tid stores, entry thr = .registering c tid stores → g tid = storeAll stores

section Entry

variable [DecidableEq Thr] {entry : Thr → TsanEntry Thr} {e : TsanEntry Thr} {thr : Thr}
  {c : TsanCall Thr} {tid : Tid} {g : Tid → TsanThread → TsanThread}
  {stores : List (TsanThread → TsanThread)}

theorem Complete.update (h : Complete entry tid) (he : ∀ c stores, e ≠ .registering c tid stores) :
    Complete (update entry thr e) tid := by
  intro u d stores
  by_cases hu : u = thr
  · subst hu
    simpa using he d stores
  · simpa [hu] using h u d stores

/-- A thread that has nothing left to store goes on. -/
theorem Completes.leave (h : Completes entry g)
    (hbefore : ∀ c tid stores, entry thr = .registering c tid stores → stores = [])
    (hafter : ∀ c tid stores, e ≠ .registering c tid stores) :
    Completes (update entry thr e) g := by
  have hother : ∀ u d tid stores, Function.update entry thr e u = .registering d tid stores →
      u ≠ thr := by
    rintro u d tid stores hu rfl
    rw [update_self] at hu
    exact hafter d tid stores hu
  constructor
  · intro tid hcomplete
    by_cases hregistering : ∃ c stores, entry thr = .registering c tid stores
    · obtain ⟨c, stores, hthr⟩ := hregistering
      obtain rfl := hbefore c tid stores hthr
      exact h.registering thr c tid [] hthr
    · refine h.complete tid fun u d stores hu => ?_
      by_cases hthr : u = thr
      · subst hthr
        exact hregistering ⟨d, stores, hu⟩
      · exact hcomplete u d stores (by simpa [hthr] using hu)
  · intro u d tid stores hu
    have hthr := hother u d tid stores hu
    exact h.registering u d tid stores (by simpa [hthr] using hu)

/-- The stores of one record are left to one thread. -/
theorem Completes.store (h : Completes entry g)
    (hothers : ∀ u d stores, u ≠ thr → entry u ≠ .registering d tid stores)
    (hbefore : ∀ d k stores, entry thr = .registering d k stores → k = tid) :
    Completes (update entry thr (.registering c tid stores)) (update g tid (storeAll stores)) := by
  constructor
  · intro k hcomplete
    have hne : k ≠ tid := by
      rintro rfl
      exact hcomplete thr c stores (by simp)
    rw [update_of_ne hne]
    refine h.complete k fun u d stores' hu => ?_
    by_cases hthr : u = thr
    · subst hthr
      exact hne (hbefore d k stores' hu)
    · exact hcomplete u d stores' (by simpa [hthr] using hu)
  · intro u d k stores' hu
    by_cases hthr : u = thr
    · subst hthr
      rw [update_self] at hu
      cases hu
      exact update_self ..
    · rw [update_of_ne hthr] at hu
      have hne : k ≠ tid := by
        rintro rfl
        exact hothers u d stores' hthr hu
      rw [update_of_ne hne]
      exact h.registering u d k stores' hu

end Entry

theorem patch_update (t : TsanTables) (g : Tid → TsanThread → TsanThread) (tid : Tid)
    (f : TsanThread → TsanThread) : t.patch (update g tid f) =
      { t.patch g with threads := update (t.patch g).threads tid (f (t.threads tid)) } := by
  simp only [TsanTables.patch]
  congr 1
  funext k
  by_cases hk : k = tid
  · subst hk
    simp
  · simp [hk]

theorem storeThread_patch (t : TsanTables) {g : Tid → TsanThread → TsanThread} {tid : Tid}
    {f store : TsanThread → TsanThread} (hg : g tid = fun r => f (store r)) :
    (t.storeThread tid store).patch (update g tid f) = t.patch g := by
  rw [patch_update]
  simp only [TsanTables.patch, TsanTables.storeThread]
  congr 1
  funext k
  by_cases hk : k = tid
  · subst hk
    simp [hg]
  · simp [hk]

theorem storeThread_eq_patch (t : TsanTables) (tid : Tid) (store : TsanThread → TsanThread) :
    t.storeThread tid store = t.patch (update (fun _ => id) tid store) := by
  rw [patch_update]
  rfl

/-! ### Moves -/

variable [DecidableEq Thr]

/-- The thread is behind `tsan_get_tid`. -/
def TsanThreads.Entered (s : TsanThreads Thr) (thr : Thr) (c : TsanCall Thr) (tid : Tid) : Prop :=
  (s.entry thr = .entering c ∧ s.currentTid thr = some tid) ∨ s.entry thr = .registering c tid []

/-- What one action does. -/
inductive TsanThreads.Move (s : TsanThreads Thr) : TsanThreadAct Thr → TsanThreads Thr → Prop
  | enter {thr c} : s.idle thr = true → c.thread? = some thr →
      Move s (.call thr c) (s.enter thr (.entering c))
  | take {thr c locked} : s.idle thr = true → c.thread? = none →
      lockStep (tsanCritical Thr) s.locked (.call thr (c, 0)) = some locked →
      Move s (.call thr c) { s with locked := locked }
  | register {thr c} {tid : Tid} : s.entry thr = .entering c → s.currentTid thr = none →
      tid.val = s.threadCount + 1 →
      Move s (.step thr) { s.enter thr (.registering c tid (tsanRegisterStores tid)) with
        threadCount := s.threadCount + 1
        currentTid := update s.currentTid thr (some tid)
        events := .registered thr :: s.events }
  | die {thr c} : s.entry thr = .entering c → 63 ≤ s.threadCount →
      Move s (.step thr) { s.enter thr (.dead c) with threadCount := s.threadCount + 1 }
  | store {thr c tid store stores} : s.entry thr = .registering c tid (store :: stores) →
      Move s (.step thr) { s.enter thr (.registering c tid stores) with
        locked := { s.locked with shared := s.locked.shared.storeThread tid store } }
  | known {thr u tid} : s.Entered thr (.init u) tid →
      Move s (.step thr) { s.enter thr .idle with events := .returned thr (.init u) :: s.events }
  | proceed {thr c tid locked} : s.Entered thr c tid → (∀ u, c ≠ .init u) →
      lockStep (tsanCritical Thr) s.locked (.call thr (c, tid)) = some locked →
      Move s (.step thr) { s.enter thr .idle with locked := locked }
  | step {thr locked} : s.entry thr = .idle →
      lockStep (tsanCritical Thr) s.locked (.step thr) = some locked →
      Move s (.step thr) { s with
        locked := locked
        events := ((s.locked.releases (tsanCritical Thr) (.step thr)).map
          fun c : TsanCall Thr × Tid => TsanEvent.returned thr c.1).toList ++ s.events }

section Moves

variable {s s' : TsanThreads Thr} {act : TsanThreadAct Thr} {thr : Thr} {c : TsanCall Thr}
  {tid : Tid}

omit [DecidableEq Thr] in
theorem idle_iff : s.idle thr = true ↔
    s.entry thr = .idle ∧ (s.locked.phase thr).call? = none := by
  rw [TsanThreads.idle]
  cases hentry : s.entry thr <;> simp

end Moves

/-! ### Threads and their calls -/

def TsanThreadAct.thread : TsanThreadAct Thr → Thr
  | call thr _ | step thr => thr

def TsanEvent.returnedTo (thr : Thr) : TsanEvent Thr → Option (TsanCall Thr)
  | registered _ => none
  | returned u c => if u = thr then some c else none

@[simp] theorem returnedTo_registered (thr u : Thr) :
    TsanEvent.returnedTo thr (.registered u) = none := rfl
@[simp] theorem returnedTo_returned (thr u : Thr) (c : TsanCall Thr) :
    TsanEvent.returnedTo thr (.returned u c) = if u = thr then some c else none := rfl

/-- What belongs to one thread. -/
structure SameFor (thr : Thr) (s s' : TsanThreads Thr) : Prop where
  entry : s'.entry thr = s.entry thr
  phase : s'.locked.phase thr = s.locked.phase thr
  currentTid : s'.currentTid thr = s.currentTid thr
  returned : s'.events.filterMap (TsanEvent.returnedTo thr) =
    s.events.filterMap (TsanEvent.returnedTo thr)

/-- A thread is on its own call, with its own identifier, and at the lock with nothing else. -/
structure EntryOk (s : TsanThreads Thr) (thr : Thr) : Prop where
  entering : ∀ c, s.entry thr = .entering c → c.thread? = some thr
  registering : ∀ c tid stores, s.entry thr = .registering c tid stores →
    c.thread? = some thr ∧ s.currentTid thr = some tid
  locked : ∀ c tid, (s.locked.phase thr).call? = some (c, tid) → s.entry thr = .idle ∧
    (∀ u, c ≠ .init u) ∧ ∀ u, c.thread? = some u → u = thr ∧ s.currentTid thr = some tid

section Threads

variable {s s' : TsanThreads Thr} {act : TsanThreadAct Thr} {thr u : Thr} {c : TsanCall Thr}
  {tid : Tid}

theorem TsanThreads.Move.sameFor (hmove : s.Move act s') (hu : u ≠ act.thread) :
    SameFor u s s' := by
  cases hmove with
  | enter | die | store =>
      exact ⟨update_of_ne hu .., rfl, rfl, rfl⟩
  | register =>
      exact ⟨update_of_ne hu .., rfl, update_of_ne hu .., by simp [List.filterMap_cons]⟩
  | @take thr c locked _ _ hlocked =>
      obtain ⟨-, rfl⟩ := lockStep_call hlocked
      exact ⟨rfl, update_of_ne hu .., rfl, rfl⟩
  | @known thr v tid =>
      have hthr : thr ≠ u := fun heq => hu heq.symm
      exact ⟨update_of_ne hu .., rfl, rfl, by simp [hthr]⟩
  | @proceed thr c tid locked _ _ hlocked =>
      obtain ⟨-, rfl⟩ := lockStep_call hlocked
      exact ⟨update_of_ne hu .., update_of_ne hu .., rfl, rfl⟩
  | @step thr locked _ hlocked =>
      have hthr : thr ≠ u := fun heq => hu heq.symm
      refine ⟨rfl, (lockStep_step hlocked).1 u hu, rfl, ?_⟩
      rw [List.filterMap_append]
      cases s.locked.releases (tsanCritical Thr) (.step thr) <;> simp [hthr]

omit [DecidableEq Thr] in
/-- Away from the lock. -/
theorem EntryOk.phase_none (h : EntryOk s thr) (hentry : s.entry thr ≠ .idle) :
    (s.locked.phase thr).call? = none := by
  cases hcall : (s.locked.phase thr).call? with
  | none => rfl
  | some p => exact absurd (h.locked p.1 p.2 hcall).1 hentry

omit [DecidableEq Thr] in
theorem TsanThreads.Entered.ne_idle (h : s.Entered thr c tid) : s.entry thr ≠ .idle := by
  rcases h with ⟨hentry, -⟩ | hentry <;> simp [hentry]

omit [DecidableEq Thr] in
theorem TsanThreads.Entered.nothing_left (h : s.Entered thr c tid) :
    ∀ d k stores, s.entry thr = .registering d k stores → stores = [] := by
  rcases h with ⟨hentry, -⟩ | hentry <;> simp [hentry]

omit [DecidableEq Thr] in
theorem TsanThreads.Entered.known (h : s.Entered thr c tid) (hs : EntryOk s thr) :
    c.thread? = some thr ∧ s.currentTid thr = some tid := by
  rcases h with ⟨hentry, htid⟩ | hentry
  · exact ⟨hs.entering c hentry, htid⟩
  · exact hs.registering c tid [] hentry

/-- The call a thread is in. -/
def TsanThreads.call? (s : TsanThreads Thr) (thr : Thr) : Option (TsanCall Thr) :=
  match s.entry thr with
  | .idle => (s.locked.phase thr).call?.map Prod.fst
  | .entering c | .registering c _ _ | .dead c => some c

/-- The calls a thread has made, as its state and the events have them. -/
def TsanThreads.calls (s : TsanThreads Thr) (thr : Thr) : List (TsanCall Thr) :=
  (s.call? thr).toList ++ s.events.filterMap (TsanEvent.returnedTo thr)

def TsanThreadAct.callBy (thr : Thr) : TsanThreadAct Thr → Option (TsanCall Thr)
  | call u c => if u = thr then some c else none
  | step _ => none

omit [DecidableEq Thr] in
theorem TsanThreads.Entered.call? (h : s.Entered thr c tid) : s.call? thr = some c := by
  rcases h with ⟨hentry, -⟩ | hentry <;> simp [TsanThreads.call?, hentry]

theorem TsanThreads.Move.calls_self (hmove : s.Move act s') (h : EntryOk s act.thread) :
    s'.calls act.thread = (act.callBy act.thread).toList ++ s.calls act.thread := by
  cases hmove with
  | @enter thr c hidle =>
      obtain ⟨hentry, hphase⟩ := idle_iff.mp hidle
      simp [TsanThreads.calls, TsanThreads.call?, TsanThreads.enter, TsanThreadAct.callBy,
        TsanThreadAct.thread, hentry, hphase]
  | @take thr c locked hidle hthread hlocked =>
      obtain ⟨hentry, hphase⟩ := idle_iff.mp hidle
      obtain ⟨-, rfl⟩ := lockStep_call hlocked
      have hwaiting : (LockPhase.waiting (c, 0) : LockPhase (TsanCall Thr × Tid) TsanPoint).call? =
          some (c, 0) := rfl
      simp [TsanThreads.calls, TsanThreads.call?, TsanThreadAct.callBy, TsanThreadAct.thread,
        hentry, hphase, hwaiting]
  | @register thr c tid hentry =>
      simp [TsanThreads.calls, TsanThreads.call?, TsanThreads.enter, TsanThreadAct.callBy,
        TsanThreadAct.thread, hentry, List.filterMap_cons]
  | @die thr c hentry | @store thr c tid store stores hentry =>
      simp [TsanThreads.calls, TsanThreads.call?, TsanThreads.enter, TsanThreadAct.callBy,
        TsanThreadAct.thread, hentry]
  | @known thr v tid hentered =>
      have hcall := hentered.call?
      have hphase : (s.locked.phase thr).call? = none := h.phase_none hentered.ne_idle
      simp [TsanThreads.calls, TsanThreads.enter, TsanThreadAct.callBy, TsanThreadAct.thread, hcall]
      simp [TsanThreads.call?, hphase]
  | @proceed thr c tid locked hentered hinit hlocked =>
      have hcall := hentered.call?
      obtain ⟨-, rfl⟩ := lockStep_call hlocked
      simp [TsanThreads.calls, TsanThreads.enter, TsanThreadAct.callBy, TsanThreadAct.thread, hcall]
      simp [TsanThreads.call?, LockPhase.call?]
  | @step thr locked hentry hlocked =>
      obtain ⟨-, -, hsame, hends⟩ := lockStep_step hlocked
      cases hreleases : s.locked.releases (tsanCritical Thr) (.step thr) with
      | none =>
          simp [TsanThreads.calls, TsanThreads.call?, TsanThreadAct.callBy, TsanThreadAct.thread,
            hentry, hsame hreleases]
      | some d =>
          obtain ⟨hcall, hout⟩ := hends d hreleases
          have houtside : (locked.phase thr).call? = none := by
            rw [hout]
            rfl
          simp [TsanThreads.calls, TsanThreads.call?, TsanThreadAct.callBy, TsanThreadAct.thread,
            hentry, hcall, houtside]

theorem TsanThreads.Move.calls (hmove : s.Move act s') (h : EntryOk s act.thread) (thr : Thr) :
    s'.calls thr = (act.callBy thr).toList ++ s.calls thr := by
  by_cases hthr : thr = act.thread
  · subst hthr
    exact hmove.calls_self h
  · have hsame := hmove.sameFor hthr
    have hnone : act.callBy thr = none := by
      cases act with
      | call u c =>
          have hu : u ≠ thr := fun heq => hthr heq.symm
          simp [TsanThreadAct.callBy, hu]
      | step u => rfl
    simp [TsanThreads.calls, TsanThreads.call?, hsame.entry, hsame.phase, hsame.returned, hnone]

end Threads

/-! ### One call after another -/

/-- The calls so far lead to `S`, whose tables are those between the sections, `T`, with every
record complete. -/
structure Linear (s : TsanThreads Thr) (T : TsanTables) (S : TsanState Thr)
    (g : Tid → TsanThread → TsanThread) : Prop where
  sectioned : Sectioned (tsanCritical Thr) T s.locked
  run : tsanRun (s.events.map TsanEvent.call) = .ok S
  tables : S.tables = T.patch g
  completes : Completes s.entry g
  named : ∀ i, Complete s.entry (T.shadow i).tid
  threadCount : S.threadCount = min s.threadCount 63
  currentTid : S.currentTid = s.currentTid

section Linear

variable {s s' : TsanThreads Thr} {act : TsanThreadAct Thr} {thr u : Thr} {c : TsanCall Thr}
  {tid : Tid} {T : TsanTables} {S : TsanState Thr} {g : Tid → TsanThread → TsanThread}
  {l : TsanPoint}

/-- Whose record is being filled is not at the lock. -/
theorem Linear.complete_of_call (h : Linear s T S g) (hs : ∀ thr, EntryOk s thr)
    (hcall : (s.locked.phase thr).call? = some (c, tid)) {k : Tid}
    (hk : (c.point tid).tid? = some k) : Complete s.entry k := by
  obtain ⟨rfl, u, hu⟩ := point_tid hk
  obtain ⟨hidle, -, hknown⟩ := (hs thr).locked c k hcall
  obtain ⟨rfl, htid⟩ := hknown u hu
  intro v d stores hv
  have hholds := ((hs v).registering d k stores hv).2
  rw [← h.currentTid] at htid hholds
  obtain rfl := (tsanRun_threadsOk h.run).inj htid hholds
  rw [hidle] at hv
  cases hv

theorem Linear.looksAt (h : Linear s T S g) (hs : ∀ thr, EntryOk s thr)
    (hcall : (s.locked.phase thr).call? = some (c, tid)) :
    LooksAt (Complete s.entry) (c.point tid) T :=
  ⟨fun _ hk => h.complete_of_call hs hcall hk, h.named⟩

/-- What a section does, it does to the state of the calls before it. -/
theorem Linear.leads (h : Linear s T S g) (hs : ∀ thr, EntryOk s thr)
    (hcall : (s.locked.phase thr).call? = some (c, tid)) {t : TsanTables}
    (hleads : (tsanCritical Thr).Leads (c.point tid, T) (l, t)) :
    (tsanCritical Thr).Leads (c.point tid, S.tables) (l, t.patch g) := by
  rw [h.tables]
  exact leads_patch Thr h.completes.complete (h.looksAt hs hcall) hleads

theorem Linear.section (h : Linear s T S g) (hs : ∀ thr, EntryOk s thr)
    (hcall : (s.locked.phase thr).call? = some (c, tid)) :
    (∃ S', tsanStep S c = .ok S' ∧ SectionReturns S c tid S') ∨
      ∃ r, tsanStep S c = .error (.race r) ∧ SectionReports S c tid r := by
  obtain ⟨-, hinit, hknown⟩ := (hs thr).locked c tid hcall
  refine tsanStep_section hinit fun u hu => ?_
  obtain ⟨rfl, htid⟩ := hknown u hu
  rw [h.currentTid]
  exact htid

/-- A section that is over did what its call does. -/
theorem Linear.performs (h : Linear s T S g) (hs : ∀ thr, EntryOk s thr)
    (hcall : (s.locked.phase thr).call? = some (c, tid)) {T' : TsanTables}
    (hperforms : (tsanCritical Thr).Performs (c, tid) T l T') :
    ∃ S', tsanStep S c = .ok S' ∧ S'.tables = T'.patch g ∧ S'.threadCount = S.threadCount ∧
      S'.currentTid = S.currentTid := by
  obtain rfl := tsanPointStep_eq_none hperforms.2
  have hall : (tsanCritical Thr).Performs (c, tid) S.tables .done (T'.patch g) :=
    ⟨h.leads hs hcall hperforms.1, rfl⟩
  rcases h.section hs hcall with ⟨S', hstep, hreturns⟩ | ⟨r, -, t, hreports⟩
  · have hsection : (tsanCritical Thr).Performs (c, tid) S.tables .done S'.tables :=
      ⟨hreturns.leads, rfl⟩
    obtain ⟨-, htables⟩ := hall.unique hsection
    exact ⟨S', hstep, htables, hreturns.threadCount, hreturns.currentTid⟩
  · cases leads_reporting (hreports.of_performs hall)

/-! ### One action -/

/-- A thread with nothing left to store moves, and no section ends. -/
theorem Linear.goes (h : Linear s T S g) {e : TsanEntry Thr}
    (hsectioned : Sectioned (tsanCritical Thr) T s'.locked)
    (hentry : s'.entry = update s.entry thr e)
    (hbefore : ∀ c tid stores, s.entry thr = .registering c tid stores → stores = [])
    (hafter : ∀ c tid stores, e ≠ .registering c tid stores)
    (hrun : tsanRun (s'.events.map TsanEvent.call) = .ok S)
    (hcount : min s'.threadCount 63 = min s.threadCount 63)
    (htid : s'.currentTid = s.currentTid) : Linear s' T S g where
  sectioned := hsectioned
  run := hrun
  tables := h.tables
  completes := by
    rw [hentry]
    exact h.completes.leave hbefore hafter
  named i := by
    rw [hentry]
    exact (h.named i).update fun c stores => hafter c _ stores
  threadCount := by
    rw [hcount]
    exact h.threadCount
  currentTid := by
    rw [htid]
    exact h.currentTid

/-- A call at the lock leaves the sections as they are. -/
theorem Linear.sectioned_call (h : Linear s T S g)
    {locked : Locked Thr (TsanCall Thr × Tid) TsanPoint TsanTables} {d : TsanCall Thr × Tid}
    (hlocked : lockStep (tsanCritical Thr) s.locked (.call thr d) = some locked) :
    Sectioned (tsanCritical Thr) T locked := by
  obtain ⟨T', hsectioned, hsame, -⟩ := h.sectioned.move (lockStep_move hlocked)
  obtain ⟨rfl, -⟩ := hsame rfl
  exact hsectioned

/-- The shadow does not name an identifier before it is handed out. -/
theorem Linear.ne_fresh (h : Linear s T S g) (htid : tid.val = S.threadCount + 1)
    (i : Fin 65536) : (T.shadow i).tid ≠ tid := by
  have hshadow : T.shadow = S.shadow := congrArg TsanTables.shadow h.tables.symm
  have htracks := tsanRun_shadowTracks h.run
  rintro hi
  rw [hshadow] at hi
  cases hkey : shadowKeys S.shadow i with
  | none =>
      rw [← hi, htracks.hole hkey] at htid
      simp at htid
  | some addr =>
      obtain ⟨v, -, hv⟩ := htracks.entry hkey
      rw [hi] at hv
      exact (tsanRun_threadsOk h.run).fresh htid v hv

theorem Linear.register (h : Linear s T S g) (hs : ∀ thr, EntryOk s thr)
    (hentry : s.entry thr = .entering c) (hnone : s.currentTid thr = none)
    (htid : tid.val = s.threadCount + 1) :
    Linear { s.enter thr (.registering c tid (tsanRegisterStores tid)) with
        threadCount := s.threadCount + 1
        currentTid := update s.currentTid thr (some tid)
        events := .registered thr :: s.events } T (S.register thr tid)
      (update g tid (storeAll (tsanRegisterStores tid))) := by
  have hcount : S.threadCount = s.threadCount := by
    rw [h.threadCount]
    omega
  have hfresh : tid.val = S.threadCount + 1 := by omega
  have hnobody : Complete s.entry tid := by
    intro u d stores hu
    have hholds := ((hs u).registering d tid stores hu).2
    rw [← h.currentTid] at hholds
    exact (tsanRun_threadsOk h.run).fresh hfresh u hholds
  have hnone' : S.currentTid thr = none := by
    rw [h.currentTid]
    exact hnone
  constructor
  · exact h.sectioned
  · have hinit : tsanStep S (.init thr) = .ok (S.register thr tid) := by
      rw [tsanStep, tsanGetTid_ok_iff.mpr (.fresh hnone' hfresh)]
      rfl
    exact tsanRun_cons_ok.mpr ⟨S, h.run, hinit⟩
  · rw [patch_update, storeAll_register, ← h.tables]
    rfl
  · exact h.completes.store (fun u d stores _ => hnobody u d stores)
      (fun d k stores hthr => by rw [hentry] at hthr; cases hthr)
  · intro i u d stores hu
    by_cases hthr : u = thr
    · subst hthr
      simp only [TsanThreads.enter, update_self] at hu
      cases hu
      exact h.ne_fresh hfresh i rfl
    · exact h.named i u d stores (by simpa [TsanThreads.enter, hthr] using hu)
  · change S.threadCount + 1 = min (s.threadCount + 1) 63
    omega
  · change update S.currentTid thr (some tid) = update s.currentTid thr (some tid)
    rw [h.currentTid]

/-- A store to a record that nobody looks at. -/
theorem Linear.store (h : Linear s T S g) (hs : ∀ thr, EntryOk s thr)
    {store : TsanThread → TsanThread} {stores : List (TsanThread → TsanThread)}
    (hentry : s.entry thr = .registering c tid (store :: stores)) :
    Linear { s.enter thr (.registering c tid stores) with
        locked := { s.locked with shared := s.locked.shared.storeThread tid store } }
      (T.storeThread tid store) S (update g tid (storeAll stores)) := by
  have hothers : ∀ u d stores', u ≠ thr → s.entry u ≠ .registering d tid stores' := by
    intro u d stores' hu hregistering
    have hu' := ((hs u).registering d tid stores' hregistering).2
    have hthr := ((hs thr).registering c tid _ hentry).2
    rw [← h.currentTid] at hu' hthr
    exact hu ((tsanRun_threadsOk h.run).inj hu' hthr)
  constructor
  · refine h.sectioned.disturb (f := fun t => t.storeThread tid store) fun u d p hu => ?_
    have hcall : (s.locked.phase u).call? = some (d.1, d.2) := by
      rw [hu]
      rfl
    have hlooks := h.looksAt hs hcall
    rw [storeThread_eq_patch, storeThread_eq_patch]
    refine leads_patch Thr (P := Complete s.entry) (fun k hk => ?_) hlooks
      (h.sectioned.leads u d p hu)
    refine update_of_ne (fun heq => ?_) ..
    exact hk thr c _ (heq ▸ hentry)
  · exact h.run
  · rw [storeThread_patch]
    · exact h.tables
    · exact h.completes.registering thr c tid _ hentry
  · refine h.completes.store hothers fun d k stores' hthr => ?_
    rw [hentry] at hthr
    cases hthr
    rfl
  · intro i u d stores' hu
    change (s.enter thr (.registering c tid stores)).entry u =
      .registering d (T.shadow i).tid stores' at hu
    by_cases hthr : u = thr
    · subst hthr
      simp only [TsanThreads.enter, update_self, TsanEntry.registering.injEq] at hu
      exact h.named i u c _ (hu.2.1 ▸ hentry)
    · exact h.named i u d stores' (by simpa [TsanThreads.enter, hthr] using hu)
  · exact h.threadCount
  · exact h.currentTid

theorem Linear.step (h : Linear s T S g) (hs : ∀ thr, EntryOk s thr)
    {locked : Locked Thr (TsanCall Thr × Tid) TsanPoint TsanTables}
    (hlocked : lockStep (tsanCritical Thr) s.locked (.step thr) = some locked) :
    ∃ T' S', Linear { s with
        locked := locked
        events := ((s.locked.releases (tsanCritical Thr) (.step thr)).map
          fun c : TsanCall Thr × Tid => TsanEvent.returned thr c.1).toList ++ s.events }
      T' S' g := by
  obtain ⟨T', hsectioned, hsame, hends⟩ := h.sectioned.move (lockStep_move hlocked)
  cases hreleases : s.locked.releases (tsanCritical Thr) (.step thr) with
  | none =>
      obtain ⟨rfl, -⟩ := hsame hreleases
      exact ⟨_, S, hsectioned, h.run, h.tables, h.completes, h.named, h.threadCount, h.currentTid⟩
  | some d =>
      obtain ⟨u, p, hu, hphase, -, hperforms⟩ := hends d hreleases
      cases hu
      have hcall : (s.locked.phase thr).call? = some (d.1, d.2) := by
        rw [hphase]
        rfl
      obtain ⟨S', hstep, htables, hcount, htid⟩ := h.performs hs hcall hperforms
      have hlooks := leads_looksAt (h.looksAt hs hcall) hperforms.1
      exact ⟨T', S', hsectioned, tsanRun_cons_ok.mpr ⟨S, h.run, hstep⟩, htables, h.completes,
        hlooks.named, hcount.trans h.threadCount, htid.trans h.currentTid⟩

theorem Linear.move (h : Linear s T S g) (hs : ∀ thr, EntryOk s thr) (hmove : s.Move act s') :
    ∃ T' S' g', Linear s' T' S' g' := by
  cases hmove with
  | @enter thr c hidle =>
      have hentry := (idle_iff.mp hidle).1
      exact ⟨T, S, g, h.goes h.sectioned rfl (by simp [hentry]) (by simp) h.run rfl rfl⟩
  | @take thr c locked hidle hthread hlocked =>
      have hentry := (idle_iff.mp hidle).1
      have hsame : s.entry = update s.entry thr .idle := by
        rw [← hentry, update_eq_self]
      exact ⟨T, S, g, h.goes (h.sectioned_call hlocked) hsame (by simp [hentry]) (by simp) h.run rfl
        rfl⟩
  | @register thr c tid hentry hnone htid => exact ⟨T, _, _, h.register hs hentry hnone htid⟩
  | @die thr c hentry hmany =>
      refine ⟨T, S, g, h.goes h.sectioned rfl (by simp [hentry]) (by simp) h.run ?_ rfl⟩
      change min (s.threadCount + 1) 63 = min s.threadCount 63
      omega
  | @store thr c tid store stores hentry => exact ⟨_, S, _, h.store hs hentry⟩
  | @known thr u tid hentered =>
      obtain ⟨hthread, htid⟩ := hentered.known (hs thr)
      cases hthread
      have hinit : tsanStep S (.init thr) = .ok S := by
        rw [← h.currentTid] at htid
        rw [tsanStep, tsanGetTid_ok_iff.mpr (.known htid)]
        rfl
      exact ⟨T, S, g, h.goes h.sectioned rfl hentered.nothing_left (by simp)
        (tsanRun_cons_ok.mpr ⟨S, h.run, hinit⟩) rfl rfl⟩
  | @proceed thr c tid locked hentered hinit hlocked =>
      exact ⟨T, S, g, h.goes (h.sectioned_call hlocked) rfl hentered.nothing_left (by simp) h.run
        rfl rfl⟩
  | @step thr locked hentry hlocked =>
      obtain ⟨T', S', h'⟩ := h.step hs hlocked
      exact ⟨T', S', g, h'⟩

end Linear

/-! ### Runs of the threads -/

section Runs

variable {s s' : TsanThreads Thr} {acts : List (TsanThreadAct Thr)} {thr : Thr} {c : TsanCall Thr}
  {tid : Tid}

end Runs

end Misan
