import Misan.Proof.TsanClocks

/-!
# What is known happened before

A release gets to a thread through mutexes, each handed on by an unlock and a later lock, and that
is a chain of happens-before. So a thread whose access races with an earlier one knows of no release
its partner has made since. The converse fails: an unlock of a mutex the table does not hold, or one
overwritten by a later unlock, is ordered before a later lock and tells it nothing.
-/

namespace Misan

open Relation Function

variable {Thr : Type} {c d : TsanCall Thr} {history before : List (TsanCall Thr)} {thr t u : Thr}
  {addr : Addr} {i j n : Nat}

/-! ### Happens-before -/

theorem SyncOrder.suffix (h : SyncOrder before i j) (hsuffix : before <:+ history) :
    SyncOrder history i j := by
  obtain ⟨hlt, c, d, hc, hd, hedge⟩ := h
  exact ⟨hlt, c, d, getElem?_reverse_suffix hsuffix hc, getElem?_reverse_suffix hsuffix hd, hedge⟩

theorem HappensBefore.suffix (h : HappensBefore before i j) (hsuffix : before <:+ history) :
    HappensBefore history i j :=
  TransGen.mono (fun _ _ hedge => hedge.suffix hsuffix) i j h

/-- The latest call comes after the earlier calls of its thread. -/
theorem syncOrder_thread (hc : history.reverse[i]? = some c) (hthread : c.thread? = some thr)
    (hdthread : d.thread? = some thr) : SyncOrder (d :: history) i history.length := by
  have hlt : i < history.length := by
    simpa using (List.getElem?_eq_some_iff.mp hc).1
  exact ⟨hlt, c, d, getElem?_reverse_suffix (List.suffix_cons d history) hc,
    getElem?_reverse_of_suffix (List.suffix_refl _), Or.inl ⟨thr, hthread, hdthread⟩⟩

/-- A lock comes after the earlier unlocks of its mutex. -/
theorem syncOrder_lock (hc : history.reverse[i]? = some c) (hunlocks : c.unlocks? = some addr)
    (hlocks : d.locks? = some addr) : SyncOrder (d :: history) i history.length := by
  have hlt : i < history.length := by
    simpa using (List.getElem?_eq_some_iff.mp hc).1
  exact ⟨hlt, c, d, getElem?_reverse_suffix (List.suffix_cons d history) hc,
    getElem?_reverse_of_suffix (List.suffix_refl _), Or.inr ⟨addr, hunlocks, hlocks⟩⟩

/-- Nothing comes after a call that is no unlock and the last one of its thread. -/
theorem not_happensBefore_of_last (hc : history.reverse[i]? = some c) (hunlocks : c.unlocks? = none)
    (hlast : ∀ k d, i < k → history.reverse[k]? = some d → d.thread? ≠ c.thread?) :
    ¬ HappensBefore history i j := by
  intro hbefore
  obtain ⟨k, ⟨hlt, c', d, hc', hd, hedge⟩, -⟩ := TransGen.head'_iff.mp hbefore
  cases hc.symm.trans hc'
  rcases hedge with ⟨thr, hthr, hthr'⟩ | ⟨addr, hunlocks', -⟩
  · exact hlast k d hlt hd (hthr'.trans hthr.symm)
  · cases hunlocks.symm.trans hunlocks'

/-! ### Releases on their way -/

variable [DecidableEq Thr] {s s' s₁ : TsanState Thr}

/-- The call at position `i` is the release that `u` made at its time `n`. -/
def ReleasedAt (history : List (TsanCall Thr)) (u : Thr) (n i : Nat) : Prop :=
  ∃ addr rw before, .postUnlock u addr rw :: before <:+ history ∧ before.length = i ∧
    (tsanKnowledge before).time u = n

theorem ReleasedAt.suffix (h : ReleasedAt before u n i) (hsuffix : before <:+ history) :
    ReleasedAt history u n i := by
  obtain ⟨addr, rw, earlier, hrelease, hrest⟩ := h
  exact ⟨addr, rw, earlier, hrelease.trans hsuffix, hrest⟩

/-- A release is known to a thread if it happened before some call of the thread. -/
def ReachesThread (history : List (TsanCall Thr)) (u : Thr) (n : Nat) (t : Thr) : Prop :=
  ∃ i j c, ReleasedAt history u n i ∧ HappensBefore history i j ∧
    history.reverse[j]? = some c ∧ c.thread? = some t

/-- A release is kept by a mutex if it is, or happened before, some unlock of the mutex. -/
def ReachesMutex (history : List (TsanCall Thr)) (u : Thr) (n : Nat) (addr : Addr) : Prop :=
  ∃ i j c, ReleasedAt history u n i ∧ ReflTransGen (SyncOrder history) i j ∧
    history.reverse[j]? = some c ∧ c.unlocks? = some addr

theorem ReachesThread.cons (h : ReachesThread history u n t) (c : TsanCall Thr) :
    ReachesThread (c :: history) u n t := by
  obtain ⟨i, j, d, hreleased, hbefore, hd, hthread⟩ := h
  have hsuffix := List.suffix_cons c history
  exact ⟨i, j, d, hreleased.suffix hsuffix, hbefore.suffix hsuffix,
    getElem?_reverse_suffix hsuffix hd, hthread⟩

theorem ReachesMutex.cons (h : ReachesMutex history u n addr) (c : TsanCall Thr) :
    ReachesMutex (c :: history) u n addr := by
  obtain ⟨i, j, d, hreleased, hbefore, hd, hunlocks⟩ := h
  have hsuffix := List.suffix_cons c history
  exact ⟨i, j, d, hreleased.suffix hsuffix,
    ReflTransGen.mono (fun _ _ hedge => hedge.suffix hsuffix) i j hbefore,
    getElem?_reverse_suffix hsuffix hd, hunlocks⟩

theorem ReachesThread.happensBefore (h : ReachesThread history u n t)
    (hthread : c.thread? = some t) :
    ∃ i, ReleasedAt history u n i ∧ HappensBefore (c :: history) i history.length := by
  obtain ⟨i, j, d, hreleased, hbefore, hd, hdthread⟩ := h
  exact ⟨i, hreleased, (hbefore.suffix (List.suffix_cons c history)).tail
    (syncOrder_thread hd hdthread hthread)⟩

/-- A thread that locks a mutex is reached by what the mutex keeps. -/
theorem ReachesMutex.postLock (h : ReachesMutex history u n addr) (thr : Thr) (rw : Int) :
    ReachesThread (.postLock thr addr rw :: history) u n thr := by
  obtain ⟨i, j, c, hreleased, hbefore, hc, hunlocks⟩ := h
  have hsuffix := List.suffix_cons (.postLock thr addr rw) history
  refine ⟨i, history.length, .postLock thr addr rw, hreleased.suffix hsuffix, ?_,
    getElem?_reverse_of_suffix (List.suffix_refl _), rfl⟩
  exact TransGen.tail' (ReflTransGen.mono (fun _ _ hedge => hedge.suffix hsuffix) i j hbefore)
    (syncOrder_lock hc hunlocks rfl)

/-- A thread that unlocks a mutex puts there what has reached it. -/
theorem ReachesThread.postUnlock (h : ReachesThread history u n thr) (addr : Addr) (rw : Int) :
    ReachesMutex (.postUnlock thr addr rw :: history) u n addr := by
  obtain ⟨i, hreleased, hbefore⟩ := h.happensBefore (c := .postUnlock thr addr rw) rfl
  exact ⟨i, history.length, .postUnlock thr addr rw,
    hreleased.suffix (List.suffix_cons _ history), hbefore.to_reflTransGen,
    getElem?_reverse_of_suffix (List.suffix_refl _), rfl⟩

/-- What is known, and what is stored, has come by way of happens-before. -/
structure KnowledgeOrdered (history : List (TsanCall Thr)) (s : TsanState Thr) : Prop where
  known : ∀ {t u n}, (u, n) ∈ (tsanKnowledge history).known t → ReachesThread history u n t
  stored : ∀ {idx u n}, (u, n) ∈ (tsanKnowledge history).stored idx →
    ReachesMutex history u n (s.mutexes idx).addr

theorem knowledgeOrdered_initial : KnowledgeOrdered [] (TsanState.initial Thr) where
  known h := h.elim
  stored h := h.elim

namespace KnowledgeOrdered

theorem enters (h : KnowledgeOrdered history s) (henters : TsanEnters s c s₁) :
    KnowledgeOrdered history s₁ := by
  refine ⟨h.known, fun {idx u n} hstored => ?_⟩
  rw [henters.mutexes]
  exact h.stored hstored

/-- A call that neither locks nor unlocks moves nothing. -/
theorem quiet (h : KnowledgeOrdered history s)
    (hknown : (tsanKnowledge (c :: history)).known = (tsanKnowledge history).known)
    (hstored : (tsanKnowledge (c :: history)).stored = (tsanKnowledge history).stored)
    (haddr : ∀ idx, (s'.mutexes idx).addr = (s.mutexes idx).addr) :
    KnowledgeOrdered (c :: history) s' := by
  refine ⟨fun {t u n} hmem => ?_, fun {idx u n} hmem => ?_⟩
  · rw [hknown] at hmem
    exact (h.known hmem).cons c
  · rw [hstored] at hmem
    rw [haddr]
    exact (h.stored hmem).cons c

theorem created (h : KnowledgeOrdered history s) {idx : Fin 1024} {m : TsanMutex}
    (hknow : tsanKnowledge (c :: history) = (tsanKnowledge history).step (.reset idx)) :
    KnowledgeOrdered (c :: history) (s.setMutex idx m) := by
  refine ⟨fun {t u n} hmem => ?_, fun {idx' u n} hmem => ?_⟩
  · rw [hknow] at hmem
    exact (h.known hmem).cons c
  · rw [hknow, Knowledge.step] at hmem
    dsimp only at hmem
    by_cases hidx : idx' = idx
    · subst hidx
      rw [update_self] at hmem
      exact hmem.elim
    · rw [update_of_ne hidx] at hmem
      rw [TsanState.setMutex_mutexes_of_ne hidx]
      exact (h.stored hmem).cons c

theorem acquired (h : KnowledgeOrdered history s) {idx : Fin 1024} {tid : Tid} {rw : Int}
    (haddr : (s.mutexes idx).addr = addr)
    (hknow : tsanKnowledge (.postLock thr addr rw :: history)
      = (tsanKnowledge history).step (.acquire thr idx)) :
    KnowledgeOrdered (.postLock thr addr rw :: history) (s.acquire s.mutexes idx tid) := by
  refine ⟨fun {t u n} hmem => ?_, fun {idx' u n} hmem => ?_⟩
  · rw [hknow, Knowledge.step] at hmem
    dsimp only at hmem
    by_cases ht : t = thr
    · subst ht
      rw [update_self] at hmem
      rcases hmem with hmem | hmem
      · exact (h.known hmem).cons _
      · exact (haddr ▸ h.stored hmem).postLock t rw
    · rw [update_of_ne ht] at hmem
      exact (h.known hmem).cons _
  · rw [hknow] at hmem
    have hsame : ((s.acquire s.mutexes idx tid).mutexes idx').addr = (s.mutexes idx').addr := by
      by_cases hidx : idx' = idx
      · subst hidx
        rw [TsanState.acquire_mutexes_self]
      · rw [TsanState.acquire_mutexes_of_ne hidx]
    rw [hsame]
    exact (h.stored hmem).cons _

theorem released (h : KnowledgeOrdered history s) {idx : Fin 1024} {tid : Tid} {rw : Int}
    (haddr : (s.mutexes idx).addr = addr)
    (hknow : tsanKnowledge (.postUnlock thr addr rw :: history)
      = (tsanKnowledge history).step (.release thr idx)) :
    KnowledgeOrdered (.postUnlock thr addr rw :: history) (s.release s.mutexes idx tid) := by
  refine ⟨fun {t u n} hmem => ?_, fun {idx' u n} hmem => ?_⟩
  · rw [hknow] at hmem
    exact (h.known hmem).cons _
  · rw [hknow, Knowledge.step] at hmem
    dsimp only at hmem
    by_cases hidx : idx' = idx
    · subst hidx
      rw [update_self] at hmem
      rw [TsanState.release_mutexes_self, haddr]
      rcases hmem with hown | hmem
      · cases hown
        exact ⟨history.length, history.length, _,
          ⟨addr, rw, history, List.suffix_refl _, rfl, rfl⟩, .refl,
          getElem?_reverse_of_suffix (List.suffix_refl _), rfl⟩
      · exact (h.known hmem).postUnlock addr rw
    · rw [update_of_ne hidx] at hmem
      rw [TsanState.release_mutexes_of_ne hidx]
      exact (h.stored hmem).cons _

theorem move (h : KnowledgeOrdered history s) (hmove : TsanMove s c s')
    (hknow : tsanKnowledge (c :: history) = (tsanKnowledge history).step (tsanAct s c)) :
    KnowledgeOrdered (c :: history) s' := by
  cases hmove with
  | idle hidle =>
      rw [hidle] at hknow
      exact h.quiet (by rw [hknow]; rfl) (by rw [hknow]; rfl) fun _ => rfl
  | recorded haccess htid hslot _ =>
      rw [tsanAct_access s haccess, hslot] at hknow
      exact h.quiet (by rw [hknow]; rfl) (by rw [hknow]; rfl) fun _ => rfl
  | created hroom =>
      rw [tsanAct_mutexCreate, hroom] at hknow
      exact h.created hknow
  | @destroyed _ idx _ =>
      refine h.quiet (by rw [hknow]; rfl) (by rw [hknow]; rfl) fun idx' => ?_
      by_cases hidx : idx' = idx
      · subst hidx
        rw [TsanState.setMutex_mutexes_self]
      · rw [TsanState.setMutex_mutexes_of_ne hidx]
  | acquired htid hslot =>
      rw [tsanAct_postLock, hslot] at hknow
      exact h.acquired (mutexSlot_spec hslot).2 hknow
  | released htid hslot =>
      rw [tsanAct_postUnlock, hslot] at hknow
      exact h.released (mutexSlot_spec hslot).2 hknow

end KnowledgeOrdered

/-- **What a thread knows happened before** its calls, in every run. -/
theorem tsanRun_knowledgeOrdered (h : tsanRun history = .ok s) : KnowledgeOrdered history s := by
  refine tsanRun_induction (P := KnowledgeOrdered) knowledgeOrdered_initial ?_ h
  intro c history s s' hs ih hcall
  obtain ⟨s₁, henters, hmove⟩ := tsanStep_cases hcall
  refine (ih.enters henters).move hmove ?_
  rw [henters.tsanAct_eq]
  exact tsanKnowledge_cons hs

/-! ### Races -/

/-- **A racy access** is made by a thread that knows of no release its partner made after the access
it races with. -/
theorem Racy.known_le (h : tsanRun before = .ok s) (hracy : Racy c before addr) :
    ∃ thr w thr' w' d earlier, c.access? = some (thr, addr, w) ∧ d :: earlier <:+ before ∧
      d.access? = some (thr', addr, w') ∧ thr' ≠ thr ∧ (w || w') = true ∧
      ∀ n, (thr', n) ∈ (tsanKnowledge before).known thr →
        n ≤ (tsanKnowledge earlier).time thr' := by
  obtain ⟨thr, w, haccess, i, d, thr', w', hd, haccess', hne, hconflict, hnot⟩ := hracy
  obtain ⟨earlier, hsuffix, rfl⟩ := exists_before_of_position hd
  refine ⟨thr, w, thr', w', d, earlier, haccess, hsuffix, haccess', hne, hconflict, fun n hn => ?_⟩
  obtain ⟨r, hreleased, hbefore⟩ :=
    ((tsanRun_knowledgeOrdered h).known hn).happensBefore (tsanStep_access s haccess).1
  obtain ⟨addr', rw, made, hmade, rfl, rfl⟩ := hreleased
  have hcons := List.suffix_cons c before
  -- a release made after the access would order the two accesses
  have hle : made.length ≤ earlier.length := by
    by_contra hlt
    have hedge : SyncOrder (c :: before) earlier.length made.length :=
      ⟨by omega, d, _, getElem?_reverse_suffix hcons hd,
        getElem?_reverse_suffix hcons (getElem?_reverse_of_suffix hmade),
        Or.inl ⟨thr', (tsanStep_access s haccess').1, rfl⟩⟩
    exact hnot (.head hedge hbefore)
  have hmade' := (List.suffix_cons _ made).trans hmade
  have hearlier := (List.suffix_cons d earlier).trans hsuffix
  exact tsanKnowledge_time_mono (List.suffix_of_suffix_length_le hmade' hearlier hle) thr'

end Misan
