import Misan.Proof.TsanReports

/-!
# False alarms and the lock discipline

In a disciplined run the mutexes are what tells one thread of another, so as long as each mutex is
locked by one thread alone nothing is ordered between threads and nothing is known across them. Then
the hooks' own accesses decide: a race-free disciplined run whose data lies apart from its mutexes
is silent exactly if no mutex is locked by two threads.
-/

namespace Misan

open Relation

variable {Thr : Type} [DecidableEq Thr] {s : TsanState Thr} {c d : TsanCall Thr}
  {history before : List (TsanCall Thr)} {thr thr' t u : Thr} {addr : Addr} {w : Bool} {i j : Nat}

/-! ### Who locks what -/

/-- The lock hook of a thread a call is, with the mutex. -/
def TsanCall.section? : TsanCall Thr → Option (Thr × Addr)
  | .preLock thr addr _ | .postLock thr addr _ | .preUnlock thr addr _
  | .postUnlock thr addr _ => some (thr, addr)
  | _ => none

def Locks (history : List (TsanCall Thr)) (thr : Thr) (addr : Addr) : Prop :=
  ∃ rw, .preLock thr addr rw ∈ history

def SoleLockers (history : List (TsanCall Thr)) : Prop :=
  ∀ addr thr thr', Locks history thr addr → Locks history thr' addr → thr = thr'

/-- No data access is made to the address of a mutex. -/
def DataApart (history : List (TsanCall Thr)) : Prop :=
  ∀ c ∈ history, ∀ thr addr w, c.dataAccess? = some (thr, addr, w) →
    ∀ thr', ¬ Locks history thr' addr

section Locks

omit [DecidableEq Thr]

theorem Locks.cons (h : Locks history thr addr) (c : TsanCall Thr) :
    Locks (c :: history) thr addr := by
  obtain ⟨rw, hmem⟩ := h
  exact ⟨rw, List.mem_cons_of_mem c hmem⟩

theorem DataApart.tail (h : DataApart (c :: history)) : DataApart history :=
  fun d hd thr addr w haccess thr' hlocks =>
    h d (List.mem_cons_of_mem c hd) thr addr w haccess thr' (hlocks.cons c)

theorem section?_of_locks? (h : c.locks? = some addr) :
    ∃ thr, c.thread? = some thr ∧ c.section? = some (thr, addr) := by
  cases c <;> cases h
  exact ⟨_, rfl, rfl⟩

theorem section?_of_unlocks? (h : c.unlocks? = some addr) :
    ∃ thr, c.thread? = some thr ∧ c.section? = some (thr, addr) := by
  cases c <;> cases h <;> exact ⟨_, rfl, rfl⟩

/-- An access is one of the data, or the write of a lock hook. -/
theorem access?_cases (h : c.access? = some (thr, addr, w)) :
    c.dataAccess? = some (thr, addr, w) ∨ c.section? = some (thr, addr) ∧ w = true := by
  cases c <;> cases h
  · exact Or.inl rfl
  · exact Or.inr ⟨rfl, rfl⟩
  · exact Or.inr ⟨rfl, rfl⟩

end Locks

/-! ### Lock sections -/

/-- A thread on its way through a lock section has gone through its `pre_lock`. -/
structure LockView.Entered (l : LockView Thr) (history : List (TsanCall Thr)) : Prop where
  locking : ∀ {thr addr}, l.locking thr = some addr → Locks history thr addr
  holder : ∀ {thr addr}, l.holder addr = some thr → Locks history thr addr
  unlocking : ∀ {thr addr}, l.unlocking thr = some addr → Locks history thr addr

/-- What is true of all values of a partial map stays so when it gets another such value. -/
theorem of_update_some {α β : Type} [DecidableEq α] {f : α → Option β} {P : α → β → Prop} {x : α}
    {o : Option β} (hvalue : ∀ b ∈ o, P x b) (hf : ∀ {a b}, f a = some b → P a b) {a : α} {b : β}
    (h : Function.update f x o a = some b) : P a b := by
  by_cases ha : a = x
  · subst ha
    rw [Function.update_self] at h
    exact hvalue b h
  · rw [Function.update_of_ne ha] at h
    exact hf h

namespace LockView.Entered

variable {l l' : LockView Thr}

omit [DecidableEq Thr] in
theorem cons (h : l.Entered history) (c : TsanCall Thr) : l.Entered (c :: history) :=
  ⟨fun hl => (h.locking hl).cons c, fun hl => (h.holder hl).cons c,
    fun hl => (h.unlocking hl).cons c⟩

theorem section? (h : l.Entered history) (hstep : l.step c = some l')
    (hsection : c.section? = some (thr, addr)) : Locks (c :: history) thr addr := by
  cases c with
  | init | access | mutexCreate | mutexDestroy => cases hsection
  | preLock _ _ rw =>
      cases hsection
      exact ⟨rw, List.mem_cons_self ..⟩
  | postLock =>
      cases hsection
      rw [LockView.step] at hstep
      split at hstep
      · rename_i hguard
        exact (h.locking hguard.1).cons _
      · cases hstep
  | preUnlock =>
      cases hsection
      rw [LockView.step] at hstep
      split at hstep
      · rename_i hguard
        exact (h.holder hguard.1).cons _
      · cases hstep
  | postUnlock =>
      cases hsection
      rw [LockView.step] at hstep
      split at hstep
      · rename_i hguard
        exact (h.unlocking hguard).cons _
      · cases hstep

/-- What a call changes is a field of its own thread, or of the mutex it locks or unlocks. -/
theorem step (h : l.Entered history) (hstep : l.step c = some l') : l'.Entered (c :: history) := by
  have hold := h.cons c
  cases hc : c.section? with
  | none =>
      cases c with
      | preLock | postLock | preUnlock | postUnlock => cases hc
      | mutexDestroy => cases hstep
      | init =>
          cases hstep
          exact hold
      | access | mutexCreate =>
          rw [LockView.step] at hstep
          split at hstep
          · cases hstep
            exact ⟨hold.locking, hold.holder, hold.unlocking⟩
          · cases hstep
  | some p =>
      obtain ⟨thr, addr⟩ := p
      have hown := h.section? hstep hc
      have hsome : ∀ a ∈ some addr, Locks (c :: history) thr a := by
        rintro a ⟨⟩
        exact hown
      have hsome' : ∀ t ∈ some thr, Locks (c :: history) t addr := by
        rintro t ⟨⟩
        exact hown
      have hnone : ∀ a ∈ (none : Option Addr), Locks (c :: history) thr a := by simp
      have hnone' : ∀ t ∈ (none : Option Thr), Locks (c :: history) t addr := by simp
      cases c with
      | init | access | mutexCreate | mutexDestroy => cases hc
      | preLock =>
          cases hc
          rw [LockView.step] at hstep
          split at hstep
          · cases hstep
            exact ⟨of_update_some hsome hold.locking, hold.holder, hold.unlocking⟩
          · cases hstep
      | postLock =>
          cases hc
          rw [LockView.step] at hstep
          split at hstep
          · cases hstep
            exact ⟨of_update_some hnone hold.locking,
              of_update_some (P := fun a t => Locks _ t a) hsome' hold.holder, hold.unlocking⟩
          · cases hstep
      | preUnlock =>
          cases hc
          rw [LockView.step] at hstep
          split at hstep
          · cases hstep
            exact ⟨hold.locking, of_update_some (P := fun a t => Locks _ t a) hnone' hold.holder,
              of_update_some hsome hold.unlocking⟩
          · cases hstep
      | postUnlock =>
          cases hc
          rw [LockView.step] at hstep
          split at hstep
          · cases hstep
            exact ⟨hold.locking, hold.holder, of_update_some hnone hold.unlocking⟩
          · cases hstep

end LockView.Entered

theorem lockView_entered {l : LockView Thr} (h : lockView history = some l) :
    l.Entered history := by
  induction history generalizing l with
  | nil =>
      cases h
      refine ⟨fun hl => ?_, fun hl => ?_, fun hl => ?_⟩ <;> cases hl
  | cons c history ih =>
      obtain ⟨l₀, hbefore, hstep⟩ := Option.bind_eq_some_iff.mp h
      exact (ih hbefore).step hstep

theorem LockDiscipline.tail (h : LockDiscipline (c :: history)) : LockDiscipline history := by
  obtain ⟨l, hl⟩ := Option.isSome_iff_exists.mp h
  obtain ⟨l₀, hbefore, -⟩ := Option.bind_eq_some_iff.mp hl
  exact Option.isSome_iff_exists.mpr ⟨l₀, hbefore⟩

/-- Every lock hook is called by a thread that has gone through `pre_lock` of its mutex. -/
theorem LockDiscipline.locks (h : LockDiscipline history) (hmem : c ∈ history)
    (hsection : c.section? = some (thr, addr)) : Locks history thr addr := by
  induction history with
  | nil => cases hmem
  | cons d history ih =>
      rcases List.mem_cons.mp hmem with rfl | htail
      · obtain ⟨l, hl⟩ := Option.isSome_iff_exists.mp h
        obtain ⟨l₀, hbefore, hstep⟩ := Option.bind_eq_some_iff.mp hl
        exact (lockView_entered hbefore).section? hstep hsection
      · exact (ih h.tail htail).cons d

/-! ### With mutexes of one thread each -/

/-- Nothing is ordered between threads. -/
theorem HappensBefore.sameThread (hdiscipline : LockDiscipline history)
    (hsole : SoleLockers history) (h : HappensBefore history i j) :
    ∃ c d thr, history.reverse[i]? = some c ∧ history.reverse[j]? = some d ∧
      c.thread? = some thr ∧ d.thread? = some thr := by
  have hedge : ∀ {i j}, SyncOrder history i j →
      ∃ c d thr, history.reverse[i]? = some c ∧ history.reverse[j]? = some d ∧
        c.thread? = some thr ∧ d.thread? = some thr := by
    rintro i j ⟨-, c, d, hc, hd, ⟨thr, hcthr, hdthr⟩ | ⟨addr, hunlocks, hlocks⟩⟩
    · exact ⟨c, d, thr, hc, hd, hcthr, hdthr⟩
    · obtain ⟨thr, hcthr, hcsection⟩ := section?_of_unlocks? hunlocks
      obtain ⟨thr', hdthr, hdsection⟩ := section?_of_locks? hlocks
      have hcmem := List.mem_reverse.mp (List.mem_of_getElem? hc)
      have hdmem := List.mem_reverse.mp (List.mem_of_getElem? hd)
      cases hsole addr thr thr' (hdiscipline.locks hcmem hcsection)
        (hdiscipline.locks hdmem hdsection)
      exact ⟨c, d, thr, hc, hd, hcthr, hdthr⟩
  induction h with
  | single h => exact hedge h
  | tail _ h ih =>
      obtain ⟨c, d, thr, hc, hd, hcthr, hdthr⟩ := ih
      obtain ⟨d', e, thr', hd', he, hdthr', hethr⟩ := hedge h
      cases hd.symm.trans hd'
      cases hdthr.symm.trans hdthr'
      exact ⟨c, e, thr, hc, he, hcthr, hethr⟩

/-- Nobody is told of another thread. -/
theorem not_upToDate_of_soleLockers (h : tsanRun history = .ok s)
    (hdiscipline : LockDiscipline history) (hsole : SoleLockers history) (hne : u ≠ t) :
    ¬ (tsanKnowledge history).UpToDate t u := by
  rintro ⟨n, hknown, -⟩
  obtain ⟨i, j, d, hreleased, hbefore, hd, hdthr⟩ := (tsanRun_knowledgeOrdered h).known hknown
  obtain ⟨addr, rw, before, hsuffix, rfl, -⟩ := hreleased
  obtain ⟨c, d', thr, hc, hd', hcthr, hdthr'⟩ := hbefore.sameThread hdiscipline hsole
  cases hd.symm.trans hd'
  cases hdthr.symm.trans hdthr'
  cases hc.symm.trans (getElem?_reverse_of_suffix hsuffix)
  cases hcthr
  exact hne rfl

/-- The latest access to the address of a mutex is one of a lock hook. -/
theorem exists_locks_of_lastAccess (hdiscipline : LockDiscipline history)
    (hapart : DataApart history) (hlocks : Locks history thr addr) :
    ∃ thr', lastAccess addr history = some (thr', true) ∧ Locks history thr' addr := by
  have haccessed : lastAccess addr history ≠ none := by
    rw [lastAccess_ne_none_iff, accessedAddrs, List.mem_toFinset, List.mem_filterMap]
    obtain ⟨rw, hmem⟩ := hlocks
    exact ⟨_, hmem, rfl⟩
  obtain ⟨⟨thr', w⟩, hlast⟩ := Option.ne_none_iff_exists'.mp haccessed
  obtain ⟨c, before, hsuffix, haccess⟩ := exists_of_lastAccess hlast
  have hmem := hsuffix.subset (List.mem_cons_self ..)
  rcases access?_cases haccess with hdata | ⟨hsection, rfl⟩
  · exact absurd hlocks (hapart c hmem thr' addr w hdata thr)
  · exact ⟨thr', hlast, hdiscipline.locks hmem hsection⟩

/-- The first `pre_lock` by a second thread is exposed. -/
theorem exposed_of_not_soleLockers (h : tsanRun history = .ok s)
    (hdiscipline : LockDiscipline history) (hapart : DataApart history)
    (hsole : SoleLockers history) (hlocks : Locks history thr' addr) (hne : thr' ≠ thr) (rw : Int) :
    Exposed (.preLock thr addr rw) history := by
  obtain ⟨v, hlast, hv⟩ := exists_locks_of_lastAccess hdiscipline hapart hlocks
  cases hsole addr v thr' hv hlocks
  exact ⟨thr, addr, true, thr', true, rfl, hlast, hne, rfl,
    not_upToDate_of_soleLockers h hdiscipline hsole hne,
    not_upToDate_of_soleLockers h hdiscipline hsole hne.symm⟩

theorem soleLockers_of_silent (hthreads : ThreadsFit history)
    (hdiscipline : LockDiscipline history) (hapart : DataApart history)
    (hsilent : Along (fun c before => ¬ Exposed c before) history)
    (hrun : ∀ r, tsanRun history ≠ .error (.race r)) : SoleLockers history := by
  induction history with
  | nil =>
      rintro addr thr thr' ⟨rw, hmem⟩
      cases hmem
  | cons c history ih =>
      have hrun' : ∀ r, tsanRun history ≠ .error (.race r) :=
        fun r hr => hrun r (tsanRun_error_cons hr)
      have hsole := ih hthreads.tail hdiscipline.tail hapart.tail hsilent.tail hrun'
      obtain ⟨s, hs⟩ := tsanRun_ok_of_silent hthreads.tail hrun'
      -- only the latest call can bring in a second thread
      have hlatest : ∀ {addr thr thr' rw}, c = .preLock thr addr rw →
          Locks history thr' addr → thr' = thr := by
        rintro addr thr thr' rw rfl hlocks
        by_contra hne
        exact hsilent.head (exposed_of_not_soleLockers hs hdiscipline.tail hapart.tail hsole hlocks
          hne rw)
      rintro addr thr thr' ⟨rw, hmem⟩ ⟨rw', hmem'⟩
      rcases List.mem_cons.mp hmem with heq | hold
      · rcases List.mem_cons.mp hmem' with heq' | hold'
        · cases heq.trans heq'.symm
          rfl
        · exact (hlatest heq.symm ⟨rw', hold'⟩).symm
      · rcases List.mem_cons.mp hmem' with heq' | hold'
        · exact hlatest heq'.symm ⟨rw, hold⟩
        · exact hsole addr thr thr' ⟨rw, hold⟩ ⟨rw', hold'⟩

/-- A race-free run has no conflicting accesses of two threads at all. -/
theorem not_exposed_of_soleLockers (hdiscipline : LockDiscipline history)
    (hapart : DataApart history) (hfree : RaceFree history) (hsole : SoleLockers history) :
    Along (fun c before => ¬ Exposed c before) history := by
  rintro c before hsuffix ⟨thr, addr, w, thr', w', haccess, hlast, hne, hconflict, -, -⟩
  obtain ⟨d, earlier, hearlier, haccess'⟩ := exists_of_lastAccess hlast
  have hsuffix' := hearlier.trans ((List.suffix_cons c before).trans hsuffix)
  have hc := hsuffix.subset (List.mem_cons_self ..)
  have hd := hsuffix'.subset (List.mem_cons_self ..)
  rcases access?_cases haccess with hdata | ⟨hsection, -⟩
  · rcases access?_cases haccess' with hdata' | ⟨hsection', -⟩
    · have hposition := getElem?_reverse_of_suffix hsuffix
      have hposition' := getElem?_reverse_of_suffix hsuffix'
      have hlt : earlier.length < before.length := by
        simpa using hearlier.length_le
      obtain ⟨d', c', v, hd', hc', hdthr, hcthr⟩ := (hfree _ _ d c thr' thr addr w' w hlt
        hposition' hposition hdata' hdata hne (by rwa [Bool.or_comm])).sameThread hdiscipline hsole
      cases hposition.symm.trans hc'
      cases hposition'.symm.trans hd'
      have hthr := (tsanStep_access (.initial Thr) haccess).1
      have hthr' := (tsanStep_access (.initial Thr) haccess').1
      exact hne (Option.some.inj (hthr'.symm.trans (hdthr.trans (hcthr.symm.trans hthr))))
    · exact hapart c hc thr addr w hdata thr' (hdiscipline.locks hd hsection')
  · rcases access?_cases haccess' with hdata' | ⟨hsection', -⟩
    · exact hapart d hd thr' addr w' hdata' thr (hdiscipline.locks hc hsection)
    · exact hne (hsole addr thr' thr (hdiscipline.locks hd hsection')
        (hdiscipline.locks hc hsection))

/-- **Silence of disciplined programs.** A race-free disciplined run whose data lies apart from its
mutexes is silent if and only if no mutex is locked by two threads. -/
theorem tsanRun_silent_iff_soleLockers (hthreads : ThreadsFit history)
    (hshadow : ShadowFits history) (hclocks : ClocksFit history)
    (hdiscipline : LockDiscipline history) (hapart : DataApart history)
    (hfree : RaceFree history) :
    (∀ r, tsanRun history ≠ .error (.race r)) ↔ SoleLockers history := by
  have hsilent := tsanRun_silent_iff hthreads hshadow hclocks
  constructor
  · intro hrun
    exact soleLockers_of_silent hthreads hdiscipline hapart (hsilent.mp hrun) hrun
  · intro hsole
    exact hsilent.mpr (not_exposed_of_soleLockers hdiscipline hapart hfree hsole)

/-! ### False alarms -/

/-- **False alarms.** A race-free history runs without a report exactly if none of its accesses is
exposed. -/
theorem tsan_noFalseAlarm_iff (hthreads : ThreadsFit history) (hshadow : ShadowFits history)
    (hclocks : ClocksFit history) :
    (RaceFree history → ∀ r, tsanRun history ≠ .error (.race r)) ↔
      (RaceFree history → Along (fun c before => ¬ Exposed c before) history) := by
  exact forall_congr' fun _ => tsanRun_silent_iff hthreads hshadow hclocks

/-- Two threads, each in a section of its own mutex, read an address they share. -/
def sharedReads : List (TsanCall Bool) :=
  [.postUnlock true 0x2040 0, .preUnlock true 0x2040 0, .access true 0x3000 8 false,
    .postLock true 0x2040 0, .preLock true 0x2040 0, .postUnlock false 0x2000 0,
    .preUnlock false 0x2000 0, .access false 0x3000 8 false, .access false 0x1000 8 true,
    .postLock false 0x2000 0, .preLock false 0x2000 0, .mutexCreate 0x2040, .mutexCreate 0x2000]

theorem tsan_noFalseAlarm_sharedReads :
    RaceFree sharedReads ∧ ∀ r, tsanRun sharedReads ≠ .error (.race r) := by
  have hdata : ∀ c ∈ sharedReads, ∀ thr addr w, c.dataAccess? = some (thr, addr, w) →
      addr = 0x3000 ∧ w = false ∨ addr = 0x1000 ∧ thr = false := by
    simp [sharedReads, TsanCall.dataAccess?]
  have hlocks : ∀ thr addr, Locks sharedReads thr addr →
      addr = 0x2000 ∧ thr = false ∨ addr = 0x2040 ∧ thr = true := by
    simp [Locks, sharedReads]
  have hfree : RaceFree sharedReads := by
    intro i j c d thr thr' addr w w' _ hi hj hc hd hne hconflict
    have hcmem := List.mem_reverse.mp (List.mem_of_getElem? hi)
    have hdmem := List.mem_reverse.mp (List.mem_of_getElem? hj)
    rcases hdata c hcmem thr addr w hc with ⟨rfl, rfl⟩ | ⟨rfl, rfl⟩
    · rcases hdata d hdmem thr' _ w' hd with ⟨-, rfl⟩ | ⟨haddr, -⟩
      · cases hconflict
      · exact absurd haddr (by decide)
    · rcases hdata d hdmem thr' _ w' hd with ⟨haddr, -⟩ | ⟨-, rfl⟩
      · exact absurd haddr (by decide)
      · exact (hne rfl).elim
  have hapart : DataApart sharedReads := by
    intro c hc thr addr w haccess thr' hthr'
    rcases hdata c hc thr addr w haccess with ⟨rfl, -⟩ | ⟨rfl, -⟩ <;>
      rcases hlocks thr' _ hthr' with ⟨haddr, -⟩ | ⟨haddr, -⟩ <;> exact absurd haddr (by decide)
  have hsole : SoleLockers sharedReads := by
    intro addr thr thr' hthr hthr'
    rcases hlocks thr addr hthr with ⟨rfl, rfl⟩ | ⟨rfl, rfl⟩ <;>
      rcases hlocks thr' _ hthr' with ⟨haddr, rfl⟩ | ⟨haddr, rfl⟩ <;>
      first | rfl | exact absurd haddr (by decide)
  refine ⟨hfree, (tsan_noFalseAlarm_iff (by decide) (by decide)
    (clocksFit_of_length (by decide))).mpr (fun _ => ?_) hfree⟩
  exact not_exposed_of_soleLockers (by decide) hapart hfree hsole

def lockHandover : List (TsanCall Bool) :=
  [.preLock true 0x1000 0, .postUnlock false 0x1000 0, .preUnlock false 0x1000 0,
    .postLock false 0x1000 0, .preLock false 0x1000 0, .mutexCreate 0x1000]

/-- Without a single access of the program, handing over a lock is reported: the hooks' own accesses
to the mutex are taken for accesses of the program. -/
theorem tsan_falseAlarm_lockHandover :
    ¬ ∀ history : List (TsanCall Bool), LockDiscipline history → ThreadsFit history →
      ShadowFits history → RaceFree history → ∀ r, tsanRun history ≠ .error (.race r) := by
  intro hclaim
  have hfree : RaceFree lockHandover := by
    intro i j c d thr thr' addr w w' _ hi _ hc _ _ _
    have hmem := List.mem_reverse.mp (List.mem_of_getElem? hi)
    simp only [lockHandover, List.mem_cons, List.not_mem_nil, or_false] at hmem
    rcases hmem with rfl | rfl | rfl | rfl | rfl | rfl <;> cases hc
  have hreport : tsanRun lockHandover = .error (.race ⟨0x1000, 2, true, 1, true⟩) :=
    tsanRun_eq_error (by decide +kernel)
  exact hclaim lockHandover (by decide) (by decide) (by decide) hfree _ hreport

end Misan
