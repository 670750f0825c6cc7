import Misan.TsanLocking
import Misan.Proof.TsanStep

/-!
# What the code under the lock does

A section does to the tables what the body of its hook does in one step, or it reports a race and
goes no further. It reads no record of a thread but its own and those the shadow names, so nothing
it does depends on a record that is just being filled.
-/

namespace Misan

open Function

variable {Thr : Type} {t t' : TsanTables} {l l' : TsanPoint} {a : TsanAccess} {addr : Addr}
  {tid : Tid} {idx : Fin 1024} {s : TsanState Thr}

theorem tsanCritical_step (l : TsanPoint) (t : TsanTables) :
    (tsanCritical Thr).step l t = tsanPointStep t l := rfl

/-! ### The search loops -/

variable (Thr) in
/-- The slot an access uses, as its own from now on. -/
theorem shadowProbe_leads (t : TsanTables) (a : TsanAccess) :
    (tsanCritical Thr).Leads (.shadowProbe a (tsanShadowHash a.addr), t)
      ((shadowSlot t.shadow a.addr).elim (.done, t) fun i =>
        (.raceCheck a i, t.storeShadow i fun e => { e with addr := a.addr, active := true })) := by
  have hpoint : ∀ i, (tsanCritical Thr).step (.shadowProbe a i) t =
      some (if keyOrHole (shadowKeys t.shadow) a.addr i then
          (if (t.shadow i).active then .raceCheck a i else .claimAddr a i)
        else if i + 1 = tsanShadowHash a.addr then .done else .shadowProbe a (i + 1), t) := by
    intro i
    rw [tsanCritical_step, tsanPointStep, keyOrHole, shadowKeys]
    cases hactive : (t.shadow i).active with
    | false => simp
    | true =>
        by_cases haddr : (t.shadow i).addr = a.addr
        · simp [haddr]
        · by_cases hlast : i + 1 = tsanShadowHash a.addr <;> simp [haddr, hlast]
  have hleads := Critical.leads_probe hpoint
  cases hslot : shadowSlot t.shadow a.addr with
  | none =>
      rw [← shadowSlot, hslot] at hleads
      exact hleads
  | some i =>
      rw [← shadowSlot, hslot] at hleads
      simp only [Option.elim_some] at hleads ⊢
      by_cases hactive : (t.shadow i).active = true
      · have haddr : (t.shadow i).addr = a.addr := by
          have hfound := probe_sound hslot
          simpa [keyOrHole, shadowKeys, hactive] using hfound
        have hsame : { t.shadow i with addr := a.addr, active := true } = t.shadow i := by
          rw [← haddr, ← hactive]
        have hstore : (t.storeShadow i fun e => { e with addr := a.addr, active := true }) = t := by
          rw [TsanTables.storeShadow, hsame, update_eq_self]
        rw [if_pos hactive] at hleads
        rw [hstore]
        exact hleads
      · rw [if_neg hactive] at hleads
        have hclaimed := (hleads.next rfl).next rfl
        simpa [TsanTables.storeShadow] using hclaimed

variable (Thr) in
theorem mutexSlot_leads {point found : Fin 1024 → TsanPoint} {hole : TsanPoint}
    (hstep : ∀ i, tsanPointStep t (point i) =
      some (tsanMutexProbe t addr false i (found i) hole point, t)) :
    (tsanCritical Thr).Leads (point (tsanMutexHash addr), t)
      ((mutexSlot t.mutexes addr).elim .done found, t) := by
  apply Critical.leads_probe
  intro i
  rw [tsanCritical_step, hstep, tsanMutexProbe]
  simp

variable (Thr) in
theorem mutexRoom_leads {point found hole : Fin 1024 → TsanPoint}
    (hstep : ∀ i, tsanPointStep t (point i) =
      some (tsanMutexProbe t addr true i (found i) (hole i) point, t)) :
    (tsanCritical Thr).Leads (point (tsanMutexHash addr), t)
      ((mutexRoom t.mutexes addr).elim .done fun i =>
        if (t.mutexes i).active then found i else hole i, t) := by
  apply Critical.leads_probe
  intro i
  rw [tsanCritical_step, hstep, tsanMutexProbe, keyOrHole, mutexKeys]
  cases hactive : (t.mutexes i).active with
  | false => simp
  | true => by_cases haddr : (t.mutexes i).addr = addr <;> simp [haddr]

/-! ### The sections -/

theorem access_section (s : TsanState Thr) (a : TsanAccess) :
    match shadowSlot s.shadow a.addr with
    | none => (tsanCritical Thr).Leads (.shadowProbe a (tsanShadowHash a.addr), s.tables)
        (.done, s.tables)
    | some i =>
        if s.Races i a.tid a.isWrite then
          ∃ t, (tsanCritical Thr).Leads (.shadowProbe a (tsanShadowHash a.addr), s.tables)
            (.reporting ⟨a.addr, a.tid, a.isWrite, (s.shadow i).tid, (s.shadow i).isWrite⟩, t)
        else (tsanCritical Thr).Leads (.shadowProbe a (tsanShadowHash a.addr), s.tables)
          (.done, (s.recorded a.addr i a.tid a.isWrite).tables) := by
  have hleads := shadowProbe_leads Thr s.tables a
  cases hslot : shadowSlot s.shadow a.addr with
  | none =>
      rw [TsanState.tables, hslot] at hleads
      exact hleads
  | some i =>
      rw [TsanState.tables, hslot] at hleads
      let claimed := s.tables.storeShadow i fun e => { e with addr := a.addr, active := true }
      have hslotted : (tsanCritical Thr).Leads (.shadowProbe a (tsanShadowHash a.addr), s.tables)
          (.raceCheck a i, claimed) := hleads
      have hrace := tsanIsRace_iff s i a.addr a.tid a.isWrite
      dsimp only
      split
      · next hraces =>
          have hcheck : (tsanCritical Thr).step (.raceCheck a i) claimed = some (.reporting
              ⟨a.addr, a.tid, a.isWrite, (s.shadow i).tid, (s.shadow i).isWrite⟩, claimed) := by
            rw [tsanCritical_step, tsanPointStep]
            simp [claimed, TsanTables.storeShadow, TsanState.tables, hrace.mpr hraces]
          exact ⟨claimed, hslotted.next hcheck⟩
      · next hsilent =>
          have hcheck : (tsanCritical Thr).step (.raceCheck a i) claimed =
              some (.recordVc a i, claimed) := by
            rw [tsanCritical_step, tsanPointStep]
            simp [claimed, TsanTables.storeShadow, TsanState.tables, mt hrace.mp hsilent]
          have hrecorded := ((((hslotted.next hcheck).next rfl).next rfl).next rfl).next rfl
          simpa [claimed, TsanTables.storeShadow, TsanTables.storeThread, TsanState.tables,
            TsanState.recorded] using hrecorded

theorem mutexCreate_section (s : TsanState Thr) (addr : Addr) :
    (tsanCritical Thr).Leads (.createProbe addr (tsanMutexHash addr), s.tables)
      (.done, (tsanMutexCreate s addr).tables) := by
  have hstep : ∀ i, tsanPointStep s.tables (.createProbe addr i) =
      some (tsanMutexProbe s.tables addr true i (.createOwner i) (.createAddr addr i)
        (.createProbe addr), s.tables) := fun _ => rfl
  have hleads := mutexRoom_leads Thr hstep
  rw [tsanMutexCreate_eq]
  cases hroom : mutexRoom s.mutexes addr with
  | none =>
      rw [TsanState.tables, hroom] at hleads
      exact hleads
  | some i =>
      rw [TsanState.tables, hroom] at hleads
      simp only [Option.elim_some] at hleads
      have hclear : ∀ t : TsanTables, (tsanCritical Thr).Leads (.createOwner i, t)
          (.done, t.storeMutex i fun m => { m with ownerTid := none, vc := 0 }) := by
        intro t
        have hstores := (Critical.Leads.single (C := tsanCritical Thr) (l := .createOwner i)
          (s := t) rfl).next rfl
        simpa [TsanTables.storeMutex] using hstores
      split at hleads
      · next hactive =>
          have haddr := mutexRoom_spec hroom hactive
          have hcreated := hleads.trans (hclear s.tables)
          simpa [TsanTables.storeMutex, TsanState.tables, TsanState.setMutex, haddr, hactive]
            using hcreated
      · have hclaimed := ((hleads.next rfl).next rfl).next rfl
        have hcreated := hclaimed.trans (hclear _)
        simpa [TsanTables.storeMutex, TsanState.tables, TsanState.setMutex] using hcreated

theorem mutexDestroy_section (s : TsanState Thr) (addr : Addr) :
    (tsanCritical Thr).Leads (.destroyProbe addr (tsanMutexHash addr), s.tables)
      (.done, (tsanMutexDestroy s addr).tables) := by
  have hstep : ∀ i, tsanPointStep s.tables (.destroyProbe addr i) =
      some (tsanMutexProbe s.tables addr false i (.destroyStore i) .done (.destroyProbe addr),
        s.tables) := fun _ => rfl
  have hleads := mutexSlot_leads Thr hstep
  rw [tsanMutexDestroy_eq]
  cases hslot : mutexSlot s.mutexes addr with
  | none =>
      rw [TsanState.tables, hslot] at hleads
      exact hleads
  | some i =>
      rw [TsanState.tables, hslot] at hleads
      exact hleads.next rfl

/-- The clock of the thread, joined with the mutex's up to component `i`. -/
def joinedTo (t : TsanTables) (tid : Tid) (idx : Fin 1024) (i : Nat) : TsanTables :=
  t.storeThread tid fun r =>
    { r with vc := fun k => if k.val < i then tsanVcJoin r.vc (t.mutexes idx).vc k else r.vc k }

theorem joinedTo_zero (t : TsanTables) (tid : Tid) (idx : Fin 1024) :
    joinedTo t tid idx 0 = t := by
  simp [joinedTo, TsanTables.storeThread]

theorem joinedTo_all (t : TsanTables) (tid : Tid) (idx : Fin 1024) :
    joinedTo t tid idx 64 =
      t.storeThread tid fun r => { r with vc := tsanVcJoin r.vc (t.mutexes idx).vc } := by
  simp [joinedTo]

theorem tsanPointStep_joinedTo (t : TsanTables) (tid : Tid) (idx : Fin 1024) {i : Nat}
    (hi : i < 64) : tsanPointStep (joinedTo t tid idx i) (.lockJoin tid idx i) =
      some (.lockJoin tid idx (i + 1), joinedTo t tid idx (i + 1)) := by
  have hclock : ((joinedTo t tid idx i).threads tid).vc ⟨i, hi⟩ = (t.threads tid).vc ⟨i, hi⟩ := by
    simp [joinedTo, TsanTables.storeThread]
  have hmutexes : (joinedTo t tid idx i).mutexes = t.mutexes := rfl
  let joined := tsanVcJoin (t.threads tid).vc (t.mutexes idx).vc
  have hnext : joinedTo t tid idx (i + 1) = (joinedTo t tid idx i).storeThread tid fun r =>
      { r with vc := update r.vc ⟨i, hi⟩ (joined ⟨i, hi⟩) } := by
    simp only [joinedTo, TsanTables.storeThread, update_self, update_idem]
    congr 3
    funext k
    by_cases hk : k = ⟨i, hi⟩
    · subst hk
      simp [joined]
    · have hne : k.val ≠ i := fun heq => hk (Fin.ext heq)
      rw [update_of_ne hk]
      exact if_congr (by omega) rfl rfl
  rw [tsanPointStep, dif_pos hi, hclock, hmutexes, hnext]
  by_cases hmore : (t.mutexes idx).vc ⟨i, hi⟩ > (t.threads tid).vc ⟨i, hi⟩
  · simp [joined, tsanVcJoin, hmore]
  · have hsame : ∀ r : TsanThread, r.vc ⟨i, hi⟩ = (t.threads tid).vc ⟨i, hi⟩ →
        { r with vc := update r.vc ⟨i, hi⟩ ((t.threads tid).vc ⟨i, hi⟩) } = r := by
      intro r hr
      rw [← hr, update_eq_self]
    simp only [joined, tsanVcJoin, if_neg hmore, TsanTables.storeThread]
    rw [hsame _ hclock, update_eq_self]

theorem lockJoin_leads (t : TsanTables) (tid : Tid) (idx : Fin 1024) :
    (tsanCritical Thr).Leads (.lockJoin tid idx 0, t) (.lockOwner tid idx,
      t.storeThread tid fun r => { r with vc := tsanVcJoin r.vc (t.mutexes idx).vc }) := by
  have hto : ∀ i ≤ 64, (tsanCritical Thr).Leads (.lockJoin tid idx 0, t)
      (.lockJoin tid idx i, joinedTo t tid idx i) := by
    intro i hi
    induction i with
    | zero =>
        rw [joinedTo_zero]
        exact Critical.Leads.refl _
    | succ i ih => exact (ih (Nat.le_of_succ_le hi)).next (tsanPointStep_joinedTo t tid idx hi)
  rw [← joinedTo_all]
  exact (hto 64 (Nat.le_refl 64)).next rfl

theorem postLock_section (s : TsanState Thr) (tid : Tid) (addr : Addr) :
    (tsanCritical Thr).Leads (.lockProbe tid addr (tsanMutexHash addr), s.tables)
      (.done, ((mutexSlot s.mutexes addr).elim s fun i => s.acquire s.mutexes i tid).tables) := by
  have hstep : ∀ i, tsanPointStep s.tables (.lockProbe tid addr i) =
      some (tsanMutexProbe s.tables addr false i (.lockJoin tid i 0) .done
        (.lockProbe tid addr), s.tables) := fun _ => rfl
  have hleads := mutexSlot_leads Thr hstep
  cases hslot : mutexSlot s.mutexes addr with
  | none =>
      rw [TsanState.tables, hslot] at hleads
      exact hleads
  | some i =>
      rw [TsanState.tables, hslot] at hleads
      exact (hleads.trans (lockJoin_leads s.tables tid i)).next rfl

theorem postUnlock_section (s : TsanState Thr) (tid : Tid) (addr : Addr) :
    (tsanCritical Thr).Leads (.unlockProbe tid addr (tsanMutexHash addr), s.tables)
      (.done, ((mutexSlot s.mutexes addr).elim s fun i => s.release s.mutexes i tid).tables) := by
  have hstep : ∀ i, tsanPointStep s.tables (.unlockProbe tid addr i) =
      some (tsanMutexProbe s.tables addr false i (.unlockCopy tid i) .done
        (.unlockProbe tid addr), s.tables) := fun _ => rfl
  have hleads := mutexSlot_leads Thr hstep
  cases hslot : mutexSlot s.mutexes addr with
  | none =>
      rw [TsanState.tables, hslot] at hleads
      exact hleads
  | some i =>
      rw [TsanState.tables, hslot] at hleads
      have hreleased := (hleads.next rfl).next rfl
      simpa [TsanTables.storeMutex, TsanState.tables, TsanState.release] using hreleased

/-- What the section of a call leaves is what the call leaves, in the state with the tables it
begins with. -/
structure SectionReturns (s : TsanState Thr) (c : TsanCall Thr) (tid : Tid) (s' : TsanState Thr) :
    Prop where
  leads : (tsanCritical Thr).Leads (c.point tid, s.tables) (.done, s'.tables)
  threadCount : s'.threadCount = s.threadCount
  currentTid : s'.currentTid = s.currentTid

def SectionReports (s : TsanState Thr) (c : TsanCall Thr) (tid : Tid) (r : TsanRace) : Prop :=
  ∃ t, (tsanCritical Thr).Leads (c.point tid, s.tables) (.reporting r, t)

section Sections

variable [DecidableEq Thr] {c : TsanCall Thr} {thr : Thr}

theorem tsanAccess_section {w : Bool} (haccess : c.access? = some (thr, addr, w))
    (hpoint : c.point tid = .shadowProbe ⟨tid, addr, w⟩ (tsanShadowHash addr))
    (htid : s.currentTid thr = some tid) :
    (∃ s', tsanStep s c = .ok s' ∧ SectionReturns s c tid s') ∨
      ∃ r, tsanStep s c = .error (.race r) ∧ SectionReports s c tid r := by
  obtain ⟨-, size, hstep⟩ := tsanStep_access s haccess
  rw [hstep, tsanAccess_eq (.known htid)]
  have hsection := access_section s ⟨tid, addr, w⟩
  cases hslot : shadowSlot s.shadow addr with
  | none =>
      rw [hslot] at hsection
      refine Or.inl ⟨s, rfl, ?_, rfl, rfl⟩
      rw [hpoint]
      exact hsection
  | some i =>
      rw [hslot] at hsection
      dsimp only at hsection ⊢
      split at hsection
      · next hraces =>
          rw [if_pos hraces]
          refine Or.inr ⟨_, rfl, ?_⟩
          rw [SectionReports, hpoint]
          exact hsection
      · next hsilent =>
          rw [if_neg hsilent]
          refine Or.inl ⟨_, rfl, ?_, rfl, rfl⟩
          rw [hpoint]
          exact hsection

/-- **Every section** does what its hook does. -/
theorem tsanStep_section (hinit : ∀ thr, c ≠ .init thr)
    (htid : ∀ thr, c.thread? = some thr → s.currentTid thr = some tid) :
    (∃ s', tsanStep s c = .ok s' ∧ SectionReturns s c tid s') ∨
      ∃ r, tsanStep s c = .error (.race r) ∧ SectionReports s c tid r := by
  cases c with
  | init thr => exact absurd rfl (hinit thr)
  | access thr addr size w => exact tsanAccess_section rfl rfl (htid thr rfl)
  | preLock thr addr rw => exact tsanAccess_section rfl rfl (htid thr rfl)
  | preUnlock thr addr rw => exact tsanAccess_section rfl rfl (htid thr rfl)
  | mutexCreate addr =>
      refine Or.inl ⟨_, rfl, mutexCreate_section s addr, ?_, ?_⟩ <;>
        rw [tsanMutexCreate_eq] <;> split <;> rfl
  | mutexDestroy addr =>
      refine Or.inl ⟨_, rfl, mutexDestroy_section s addr, ?_, ?_⟩ <;>
        rw [tsanMutexDestroy_eq] <;> split <;> rfl
  | postLock thr addr rw =>
      have hsection := postLock_section s tid addr
      rw [tsanStep, tsanMutexPostLock_eq (.known (htid thr rfl))]
      cases hslot : mutexSlot s.mutexes addr with
      | none =>
          rw [hslot] at hsection
          exact Or.inl ⟨s, rfl, hsection, rfl, rfl⟩
      | some i =>
          rw [hslot] at hsection
          exact Or.inl ⟨_, rfl, hsection, rfl, rfl⟩
  | postUnlock thr addr rw =>
      have hsection := postUnlock_section s tid addr
      rw [tsanStep, tsanMutexPostUnlock_eq (.known (htid thr rfl))]
      cases hslot : mutexSlot s.mutexes addr with
      | none =>
          rw [hslot] at hsection
          exact Or.inl ⟨s, rfl, hsection, rfl, rfl⟩
      | some i =>
          rw [hslot] at hsection
          exact Or.inl ⟨_, rfl, hsection, rfl, rfl⟩

end Sections

/-! ### Records that a section does not look at -/

theorem tsanPointStep_eq_none (h : tsanPointStep t l = none) : l = .done := by
  cases l with
  | done => rfl
  | shadowProbe | raceCheck | lockJoin =>
      rw [tsanPointStep] at h
      split_ifs at h
  | _ => cases h

/-- A change of some records of threads. -/
def TsanTables.patch (g : Tid → TsanThread → TsanThread) (t : TsanTables) : TsanTables :=
  { t with threads := fun k => g k (t.threads k) }

/-- The identifier a section works for. -/
def TsanPoint.tid? : TsanPoint → Option Tid
  | shadowProbe a _ | claimAddr a _ | claimActive a _ | raceCheck a _ | recordVc a _
  | recordTid a _ | recordWrite a _ | recordInc a => some a.tid
  | lockProbe tid _ _ | lockJoin tid _ _ | lockOwner tid _ | unlockProbe tid _ _ | unlockCopy tid _
  | unlockInc tid _ => some tid
  | _ => none

/-- The records a section looks at are in `P`: its own, and those the shadow names. -/
structure LooksAt (P : Tid → Prop) (l : TsanPoint) (t : TsanTables) : Prop where
  own : ∀ tid, l.tid? = some tid → P tid
  named : ∀ i, P (t.shadow i).tid

section Patch

variable {P : Tid → Prop} {g : Tid → TsanThread → TsanThread}

/-- A step keeps the identifier, and writes no other into the shadow. -/
theorem LooksAt.of_step (h : LooksAt P l t) (hown : ∀ tid, l'.tid? = some tid → l.tid? = some tid)
    (hnamed : ∀ i, (t'.shadow i).tid = (t.shadow i).tid ∨ l.tid? = some (t'.shadow i).tid) :
    LooksAt P l' t' where
  own tid htid := h.own tid (hown tid htid)
  named i := by
    rcases hnamed i with hsame | hmine
    · rw [hsame]
      exact h.named i
    · exact h.own _ hmine

theorem patch_threads (hg : g tid = id) : (t.patch g).threads tid = t.threads tid := by
  simp [TsanTables.patch, hg]

theorem patch_storeThread (hg : g tid = id) (store : TsanThread → TsanThread) :
    (t.patch g).storeThread tid store = (t.storeThread tid store).patch g := by
  simp only [TsanTables.patch, TsanTables.storeThread, hg, id_eq]
  congr 1
  funext k
  by_cases hk : k = tid
  · subst hk
    simp [hg]
  · simp [hk]

theorem storeShadow_named (t : TsanTables) (i : Fin 65536) {store : TsanShadow → TsanShadow}
    (hstore : ∀ e, (store e).tid = e.tid) (k : Fin 65536) :
    ((t.storeShadow i store).shadow k).tid = (t.shadow k).tid := by
  by_cases hk : k = i
  · subst hk
    simp [TsanTables.storeShadow, hstore]
  · simp [TsanTables.storeShadow, hk]

theorem tsanIsRace_patch {i : Fin 65536} (hown : g a.tid = id) (hnamed : g (t.shadow i).tid = id) :
    tsanIsRace (t.patch g).threads (t.shadow i) a.addr a.tid a.isWrite =
      tsanIsRace t.threads (t.shadow i) a.addr a.tid a.isWrite := by
  simp only [tsanIsRace, patch_threads hown, patch_threads hnamed]

theorem tsanMutexProbe_own {alloc : Bool} {found hole : TsanPoint} {next : Fin 1024 → TsanPoint}
    {o : Option Tid} (hfound : ∀ tid, found.tid? = some tid → o = some tid)
    (hhole : ∀ tid, hole.tid? = some tid → o = some tid)
    (hnext : ∀ i tid, (next i).tid? = some tid → o = some tid) (tid : Tid)
    (htid : (tsanMutexProbe t addr alloc idx found hole next).tid? = some tid) : o = some tid := by
  rw [tsanMutexProbe] at htid
  split_ifs at htid with hhit hroom hlast
  · exact hfound tid htid
  · exact hhole tid htid
  · cases htid
  · exact hnext _ tid htid

/-- **No step notices** a change of the other records. -/
theorem tsanPointStep_patch (hg : ∀ tid, P tid → g tid = id) (h : LooksAt P l t)
    (hstep : tsanPointStep t l = some (l', t')) :
    LooksAt P l' t' ∧ tsanPointStep (t.patch g) l = some (l', t'.patch g) := by
  have hon : (∀ tid, l'.tid? = some tid → l.tid? = some tid) →
      (∀ i, (t'.shadow i).tid = (t.shadow i).tid) → LooksAt P l' t' :=
    fun hown hnamed => h.of_step hown fun i => Or.inl (hnamed i)
  cases l with
  | done => cases hstep
  | shadowProbe a i =>
      have hsame : tsanPointStep (t.patch g) (.shadowProbe a i) =
          (tsanPointStep t (.shadowProbe a i)).map fun p => (p.1, p.2.patch g) := by
        have hshadow : (t.patch g).shadow = t.shadow := rfl
        rw [tsanPointStep, tsanPointStep, hshadow]
        split_ifs <;> rfl
      rw [hsame, hstep]
      refine ⟨hon ?_ ?_, rfl⟩ <;> rw [tsanPointStep] at hstep <;> split_ifs at hstep <;>
        cases hstep <;> simp [TsanPoint.tid?]
  | claimAddr a i | claimActive a i =>
      cases hstep
      exact ⟨hon (fun _ htid => htid) (storeShadow_named t i fun _ => rfl), rfl⟩
  | raceCheck a i =>
      rw [tsanPointStep] at hstep ⊢
      have hrace := tsanIsRace_patch (hg _ (h.own a.tid rfl)) (hg _ (h.named i))
      have hshadow : (t.patch g).shadow = t.shadow := rfl
      rw [hshadow, hrace]
      split at hstep
      · next hraces =>
          cases hstep
          rw [if_pos hraces]
          exact ⟨hon (by simp [TsanPoint.tid?]) fun _ => rfl, rfl⟩
      · next hsilent =>
          cases hstep
          rw [if_neg hsilent]
          exact ⟨hon (fun _ htid => htid) fun _ => rfl, rfl⟩
  | recordVc a i =>
      cases hstep
      refine ⟨hon (fun _ htid => htid) (storeShadow_named t i fun _ => rfl), ?_⟩
      rw [tsanPointStep, patch_threads (hg _ (h.own _ rfl))]
      rfl
  | recordTid a i =>
      cases hstep
      refine ⟨h.of_step (fun _ htid => htid) fun k => ?_, rfl⟩
      by_cases hk : k = i
      · subst hk
        exact Or.inr (by simp [TsanPoint.tid?, TsanTables.storeShadow])
      · exact Or.inl (by simp [TsanTables.storeShadow, hk])
  | recordWrite a i =>
      cases hstep
      exact ⟨hon (fun _ htid => htid) (storeShadow_named t i fun _ => rfl), rfl⟩
  | recordInc a =>
      cases hstep
      refine ⟨hon (by simp [TsanPoint.tid?]) fun _ => rfl, ?_⟩
      rw [tsanPointStep, patch_storeThread (hg _ (h.own _ rfl))]
  | reporting r =>
      cases hstep
      exact ⟨h, rfl⟩
  | createProbe addr i | destroyProbe addr i | lockProbe tid addr i | unlockProbe tid addr i =>
      cases hstep
      refine ⟨hon (tsanMutexProbe_own ?_ ?_ ?_) fun _ => rfl, rfl⟩ <;> simp [TsanPoint.tid?]
  | createAddr addr i | createActive i | createVc i | createOwner i | createZero i
  | destroyStore i | lockOwner tid i | unlockInc tid i =>
      cases hstep
      exact ⟨hon (by simp [TsanPoint.tid?]) fun _ => rfl, rfl⟩
  | unlockCopy tid i =>
      cases hstep
      refine ⟨hon (fun _ htid => htid) fun _ => rfl, ?_⟩
      rw [tsanPointStep, patch_threads (hg _ (h.own _ rfl))]
      rfl
  | lockJoin tid idx i =>
      rw [tsanPointStep] at hstep ⊢
      split at hstep
      · next hi =>
          cases hstep
          refine ⟨hon (fun _ htid => htid) fun _ => by split <;> rfl, ?_⟩
          have hmutexes : (t.patch g).mutexes = t.mutexes := rfl
          rw [dif_pos hi, patch_threads (hg _ (h.own _ rfl)), hmutexes,
            patch_storeThread (hg _ (h.own _ rfl))]
          split <;> rfl
      · next hi =>
          cases hstep
          rw [dif_neg hi]
          exact ⟨hon (fun _ htid => htid) fun _ => rfl, rfl⟩

variable (Thr) in
theorem leads_patch {p p' : TsanPoint} (hg : ∀ tid, P tid → g tid = id) (hlooks : LooksAt P p t)
    (hleads : (tsanCritical Thr).Leads (p, t) (p', t')) :
    (tsanCritical Thr).Leads (p, t.patch g) (p', t'.patch g) :=
  hleads.map (I := LooksAt P) (fun _ _ _ _ h hstep => tsanPointStep_patch hg h hstep) hlooks

theorem leads_looksAt {p p' : TsanPoint} (hlooks : LooksAt P p t)
    (hleads : (tsanCritical Thr).Leads (p, t) (p', t')) : LooksAt P p' t' :=
  hleads.invariant (I := LooksAt P)
    (fun _ _ _ _ h hstep => (tsanPointStep_patch (g := fun _ => id) (fun _ _ => rfl) h hstep).1)
    hlooks

end Patch

/-! ### The end of a section -/

theorem point_tid {c : TsanCall Thr} {k : Tid} (h : (c.point tid).tid? = some k) :
    k = tid ∧ ∃ thr, c.thread? = some thr := by
  cases c <;> simp_all [TsanCall.point, TsanPoint.tid?, TsanCall.thread?]

/-- A report is where its section stays. -/
theorem leads_reporting {r : TsanRace} {p : TsanPoint}
    (hleads : (tsanCritical Thr).Leads (.reporting r, t) (p, t')) : p = .reporting r := by
  refine hleads.invariant (I := fun p _ => p = .reporting r) ?_ rfl
  rintro _ _ _ _ rfl hstep
  cases hstep
  rfl

end Misan
