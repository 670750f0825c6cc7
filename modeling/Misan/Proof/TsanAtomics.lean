import Misan.TsanHooks
import Misan.Proof.TsanReports

/-!
# Atomics are plain accesses

The atomic hooks drop their memory order and check like any other access. So two atomic accesses of
one address by different threads, one of them a store, are silent only where locks have told one of
the threads of the other. This file says so for addresses that nothing but atomics of one width
touches.
-/

namespace Misan

variable {Thr : Type} [DecidableEq Thr] {history before : List (TsanHook Thr)} {addr : Addr}

/-! ### Hooks and calls -/

theorem tsanAtomicLoad_state {k : Nat} (s : TsanState Thr) (thr : Thr) (addr size : Addr)
    (read : Memory → Addr → BitVec k) (m : Memory) (mo : BitVec 32) :
    (tsanAtomicLoad s thr addr size read m mo).map Prod.snd
      = tsanAccess s thr addr size false := by
  rw [tsanAtomicLoad]
  cases tsanAccess s thr addr size false <;> rfl

theorem tsanAtomicStore_state {k : Nat} (s : TsanState Thr) (thr : Thr) (addr size : Addr)
    (m : Memory) (val : BitVec k) (mo : BitVec 32) :
    (tsanAtomicStore s thr addr size m val mo).map Prod.snd
      = tsanAccess s thr addr size true := by
  rw [tsanAtomicStore]
  cases tsanAccess s thr addr size true <;> rfl

/-- **An atomic hook** does to the runtime what a plain access does, whatever its order. -/
theorem hookStep_eq (s : TsanState Thr) (h : TsanHook Thr) :
    hookStep s h = tsanStep s h.toCall := by
  cases h with
  | call c => rfl
  | atomicLoad width thr addr m mo =>
      cases width <;> exact tsanAtomicLoad_state s thr addr _ _ m mo
  | atomicStore width thr addr m val mo =>
      cases width <;> exact tsanAtomicStore_state s thr addr _ m val mo

theorem hookRun_eq (history : List (TsanHook Thr)) :
    hookRun history = tsanRun (history.map TsanHook.toCall) := by
  induction history with
  | nil => rfl
  | cons h history ih =>
      rw [hookRun, ih, List.map_cons, tsanRun]
      congr 1
      funext s
      exact hookStep_eq s h

/-! ### Covered accesses -/

/-- Every access to `addr` is an atomic one of the width. -/
def AtomicOnly (addr : Addr) (width : AtomicWidth) (history : List (TsanHook Thr)) : Prop :=
  ∀ h ∈ history, ∀ thr w, h.toCall.access? = some (thr, addr, w) → h.atomicWidth? = some width

/-- No atomic access of the width to `addr` that is made is exposed, once `addr` has an entry in the
table. -/
def AtomicsCovered (addr : Addr) (width : AtomicWidth) (history : List (TsanHook Thr)) : Prop :=
  ∀ h before s thr w, h :: before <:+ history → hookRun before = .ok s →
    h.atomicWidth? = some width → h.toCall.access? = some (thr, addr, w) →
    Shadowed addr (before.map TsanHook.toCall) → ¬ Exposed h.toCall (before.map TsanHook.toCall)

def ReportedAt (addr : Addr) (history : List (TsanHook Thr)) : Prop :=
  ∃ r, hookRun history = .error (.race r) ∧ r.addr = addr

/-! ### Runs -/

theorem hookRun_error_append {e : TsanHalt} (later : List (TsanHook Thr))
    (herror : hookRun before = .error e) : hookRun (later ++ before) = .error e := by
  induction later with
  | nil => exact herror
  | cons h later ih =>
      rw [List.cons_append, hookRun, ih]
      rfl

/-- A run that ends in an error ends in the step of one of its hooks. -/
theorem exists_step_of_hookRun_error {e : TsanHalt} (herror : hookRun history = .error e) :
    ∃ h before s, h :: before <:+ history ∧ hookRun before = .ok s ∧ hookStep s h = .error e := by
  induction history with
  | nil => cases herror
  | cons h history ih =>
      rw [hookRun] at herror
      cases hrun : hookRun history with
      | ok s =>
          rw [hrun] at herror
          exact ⟨h, history, s, List.suffix_refl _, hrun, herror⟩
      | error e' =>
          rw [hrun] at herror
          obtain ⟨h', before, s, hsuffix, hrest⟩ := ih (hrun.trans herror)
          exact ⟨h', before, s, hsuffix.trans (List.suffix_cons h history), hrest⟩

/-- **Atomic accesses** of an address nothing else touches are silent exactly if each of them is
covered. -/
theorem tsanAtomics_silent_iff {width : AtomicWidth} (hatomic : AtomicOnly addr width history)
    (hthreads : ThreadsFit (history.map TsanHook.toCall))
    (hclocks : ClocksFit (history.map TsanHook.toCall)) :
    ¬ ReportedAt addr history ↔ AtomicsCovered addr width history := by
  constructor
  · rintro hsilent h before s thr w hsuffix hs - haccess hshadowed hexposed
    have hcalls := hsuffix.map TsanHook.toCall
    have hrun := hs
    rw [hookRun_eq] at hrun
    obtain ⟨r, hr⟩ := (tsanStep_race_iff_shadowed (hthreads.suffix hcalls)
      (hclocks.suffix hcalls).tail hrun haccess).mpr ⟨hexposed, hshadowed⟩
    have herror : hookRun (h :: before) = .error (.race r) := by
      rw [hookRun, hs]
      exact (hookStep_eq s h).trans hr
    obtain ⟨later, rfl⟩ := hsuffix
    exact hsilent ⟨r, hookRun_error_append later herror, tsanStep_race_addr haccess hr⟩
  · rintro hcovered ⟨r, herror, rfl⟩
    obtain ⟨h, before, s, hsuffix, hs, hstep⟩ := exists_step_of_hookRun_error herror
    have hcalls := hsuffix.map TsanHook.toCall
    have hrun := hs
    rw [hookRun_eq] at hrun
    rw [hookStep_eq] at hstep
    obtain ⟨thr, w, _, _, _, _, _, haccess, -⟩ := exists_uncovered_of_race hrun hstep
    have hwidth := hatomic h (hsuffix.subset (List.mem_cons_self ..)) thr w haccess
    obtain ⟨hexposed, hshadowed⟩ := (tsanStep_race_iff_shadowed (hthreads.suffix hcalls)
      (hclocks.suffix hcalls).tail hrun haccess).mp ⟨r, hstep⟩
    exact hcovered h before s thr w hsuffix hs hwidth haccess hshadowed hexposed

def emptyMemory : Memory := fun _ => 0

/-- Two threads store to an address, and a mutex is handed over in between. -/
def storesHandedOver : List (TsanHook Bool) :=
  [.atomicStore .w64 true 0x1000 emptyMemory 1 5, .call (.postLock true 0x2000 0),
    .call (.postUnlock false 0x2000 0), .atomicStore .w64 false 0x1000 emptyMemory 0 5,
    .call (.mutexCreate 0x2000)]

theorem tsanAtomics_silent_storesHandedOver : ¬ ReportedAt 0x1000 storesHandedOver := by
  have hatomic : AtomicOnly 0x1000 .w64 storesHandedOver := by
    intro h hmem thr w haccess
    simp only [storesHandedOver, List.mem_cons, List.not_mem_nil, or_false] at hmem
    rcases hmem with rfl | rfl | rfl | rfl | rfl <;> first | rfl | cases haccess
  have hthreads : ThreadsFit (storesHandedOver.map TsanHook.toCall) := by decide
  have hclocks : ClocksFit (storesHandedOver.map TsanHook.toCall) :=
    clocksFit_of_length (by decide)
  refine (tsanAtomics_silent_iff hatomic hthreads hclocks).mpr ?_
  obtain ⟨s, hs, -⟩ : ∃ s, tsanRun (storesHandedOver.map TsanHook.toCall) = .ok s ∧
      s.threadCount = 2 := exists_tsanRun_ok (by decide +kernel)
  have hsilent := (tsanRun_silent_iff hthreads (by decide) hclocks).mp fun r hr => by
    cases hs.symm.trans hr
  rintro h before - - - hsuffix - - - -
  exact hsilent _ _ (hsuffix.map TsanHook.toCall)

/-- Two threads store to an address, one after the other, in the strongest order. -/
def twoStores : List (TsanHook Bool) :=
  [.atomicStore .w64 true 0x1000 emptyMemory 1 5, .atomicStore .w64 false 0x1000 emptyMemory 0 5]

theorem tsanAtomics_report_stores :
    ¬ ∀ (history : List (TsanHook Bool)) (addr : Addr) (width : AtomicWidth),
      ThreadsFit (history.map TsanHook.toCall) → AtomicOnly addr width history →
      ¬ ReportedAt addr history := by
  intro hclaim
  have hatomic : AtomicOnly 0x1000 .w64 twoStores := by
    intro h hmem thr w _
    simp only [twoStores, List.mem_cons, List.not_mem_nil, or_false] at hmem
    rcases hmem with rfl | rfl <;> rfl
  have hreport : hookRun twoStores = .error (.race ⟨0x1000, 2, true, 1, true⟩) := by
    rw [hookRun_eq]
    exact tsanRun_eq_error (by decide +kernel)
  exact hclaim twoStores 0x1000 .w64 (by decide) hatomic ⟨_, hreport, rfl⟩

end Misan
