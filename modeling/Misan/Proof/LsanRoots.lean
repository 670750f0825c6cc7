import Misan.LsanHistory
import Mathlib.Data.Multiset.Basic
import Mathlib.Data.Multiset.AddSub

/-!
# The root table as a multiset

A region is registered under its address and size and taken back by its address. Which of several
regions at one address goes is then a matter of the table: the first one there, and the last entry
moves into its place. So the table follows the regions a program means exactly as long as the first
region at the address is one of the size the program gives.
-/

namespace Misan

open LsanCall

variable {history before : List LsanCall} {p size : Addr} {roots : List LsanRoot}

/-! ### Removing by overwriting with the last -/

section SwapRemove

variable {α : Type} {found : α → Bool} {update : α → α} {a last : α} {init rest : List α}

theorem updateFirst_append_cons (hnone : ∀ b ∈ init, found b = false) (ha : found a = true) :
    updateFirst found update (init ++ a :: rest) = init ++ update a :: rest := by
  induction init with
  | nil => exact if_pos ha
  | cons b init ih =>
      have hb : ¬ found b = true := ne_true_of_eq_false (hnone b (List.mem_cons_self ..))
      rw [List.cons_append, updateFirst, if_neg hb,
        ih fun c hc => hnone c (List.mem_cons_of_mem b hc)]
      rfl

/-- Behind the first match stands the last entry, or the first match is the last entry. -/
theorem dropLast_updateFirst_perm (hnone : ∀ b ∈ init, found b = false) (ha : found a = true)
    (hlast : (init ++ a :: rest).getLast? = some last) :
    (updateFirst found (fun _ => last) (init ++ a :: rest)).dropLast.Perm (init ++ rest) := by
  rw [updateFirst_append_cons hnone ha]
  rcases List.eq_nil_or_concat rest with rfl | ⟨rest, z, rfl⟩
  · rw [List.dropLast_concat, List.append_nil]
  · rw [List.concat_eq_append, ← List.cons_append, ← List.append_assoc, List.getLast?_concat,
      Option.some_inj] at hlast
    rw [List.concat_eq_append, hlast, ← List.cons_append, ← List.append_assoc,
      List.dropLast_concat]
    refine List.Perm.append_left init ?_
    exact (List.perm_append_singleton last rest).symm

end SwapRemove

theorem removeRoot_of_not_mem (hnone : ∀ r ∈ roots, r.addr ≠ p) : removeRoot p roots = roots := by
  have hany : ¬ roots.any (fun r => r.addr == p) = true := by simpa using hnone
  unfold removeRoot
  split
  · rfl
  · rw [if_neg hany]

/-- Of all the regions, one at the address is gone: the first one in the table. -/
theorem coe_removeRoot {r : LsanRoot} (hfirst : roots.find? (fun r => r.addr == p) = some r) :
    (removeRoot p roots : Multiset LsanRoot) = (roots : Multiset LsanRoot).erase r := by
  obtain ⟨hr, init, rest, rfl, hnone⟩ := List.find?_eq_some_iff_append.mp hfirst
  have hnone : ∀ b ∈ init, (b.addr == p) = false := by simpa using hnone
  have hany : (init ++ r :: rest).any (fun r => r.addr == p) = true := by simp_all
  obtain ⟨last, hlast⟩ : ∃ last, (init ++ r :: rest).getLast? = some last :=
    Option.ne_none_iff_exists'.mp (by simp)
  have hnot : r ∉ init := fun hmem => ne_true_of_eq_false (hnone r hmem) hr
  rw [removeRoot, hlast]
  dsimp only
  rw [if_pos hany, Multiset.coe_erase, List.erase_append_right _ hnot, List.erase_cons_head,
    Multiset.coe_eq_coe]
  exact dropLast_updateFirst_perm hnone hr hlast

/-! ### What is registered -/

namespace LsanCall

/-- The regions registered and not unregistered since, where a call unregisters its own pair. -/
def registeredPairs : List LsanCall → Multiset LsanRoot
  | [] => 0
  | .registerRootRegion p size :: before => ⟨p, size⟩ ::ₘ registeredPairs before
  | .unregisterRootRegion p size :: before => (registeredPairs before).erase ⟨p, size⟩
  | _ :: before => registeredPairs before

/-- The addresses of the regions registered and not unregistered since, where a call unregisters
some region at its address. -/
def registeredAddrs : List LsanCall → Multiset Addr
  | [] => 0
  | .registerRootRegion p _ :: before => p ::ₘ registeredAddrs before
  | .unregisterRootRegion p _ :: before => (registeredAddrs before).erase p
  | _ :: before => registeredAddrs before

/-- `regions` are registered after the history, if each call has unregistered one region at its
address, the first one in the table, whatever its size, and nothing where there was none. -/
inductive RegisteredRoots : List LsanCall → Multiset LsanRoot → Prop where
  | nil : RegisteredRoots [] 0
  | register {before regions p size} : RegisteredRoots before regions →
      RegisteredRoots (.registerRootRegion p size :: before) (⟨p, size⟩ ::ₘ regions)
  | unregister {before regions p size r} : RegisteredRoots before regions → r ∈ regions →
      (lsanRun before).roots.find? (fun r => r.addr == p) = some r →
      RegisteredRoots (.unregisterRootRegion p size :: before) (regions.erase r)
  | unregister_none {before regions p size} : RegisteredRoots before regions →
      (∀ r ∈ regions, r.addr ≠ p) →
      RegisteredRoots (.unregisterRootRegion p size :: before) regions
  | other {before regions c} : RegisteredRoots before regions →
      (∀ p size, c ≠ .registerRootRegion p size) → (∀ p size, c ≠ .unregisterRootRegion p size) →
      RegisteredRoots (c :: before) regions

/-- Which of several regions at an address go does not change how many are left there. -/
theorem RegisteredRoots.map_addr {regions : Multiset LsanRoot}
    (h : RegisteredRoots history regions) : regions.map (·.addr) = registeredAddrs history := by
  induction h with
  | nil => rfl
  | register _ ih => rw [Multiset.map_cons, ih, registeredAddrs]
  | @unregister before regions p size r _ hr hfirst ih =>
      have haddr : r.addr = p := by simpa using List.find?_some hfirst
      rw [Multiset.map_erase_of_mem _ _ hr, ih, haddr, registeredAddrs]
  | unregister_none _ hnone ih =>
      rw [ih, registeredAddrs, Multiset.erase_of_notMem]
      rw [← ih, Multiset.mem_map]
      rintro ⟨r, hr, haddr⟩
      exact hnone r hr haddr
  | @other before regions c _ hregister hunregister ih =>
      cases c with
      | registerRootRegion p size => exact (hregister p size rfl).elim
      | unregisterRootRegion p size => exact (hunregister p size rfl).elim
      | registerAlloc | unregisterAlloc | ignoreObject | disable | enable => exact ih

/-- At most `LSAN_MAX_ROOTS` regions are registered at a time. -/
def RootsFit (history : List LsanCall) : Prop :=
  ∀ before, before <:+ history → (registeredAddrs before).card ≤ lsanMaxRoots

theorem RootsFit.of_suffix (h : RootsFit history) (hsuffix : before <:+ history) :
    RootsFit before :=
  fun b hb => h b (hb.trans hsuffix)

/-- No call unregisters a region of another size: where a region is found at its address, the first
one in the table has the size the call gives. -/
def UnregistersFirst (history : List LsanCall) : Prop :=
  ∀ p size before, .unregisterRootRegion p size :: before <:+ history →
    ∀ r, (lsanRun before).roots.find? (fun r => r.addr == p) = some r → r.size = size

theorem UnregistersFirst.of_suffix (h : UnregistersFirst history) (hsuffix : before <:+ history) :
    UnregistersFirst before :=
  fun p size b hb => h p size b (hb.trans hsuffix)

end LsanCall

/-! ### The table -/

theorem coe_roots_register {s : LsanState} (hroom : s.roots.length < lsanMaxRoots) (p size : Addr) :
    ((lsanRegisterRootRegion s p size).roots : Multiset LsanRoot) = ⟨p, size⟩ ::ₘ s.roots := by
  rw [lsanRegisterRootRegion, dif_pos hroom, Multiset.cons_coe, Multiset.coe_eq_coe]
  exact List.perm_append_singleton ..

theorem length_roots_lt (hfit : RootsFit (.registerRootRegion p size :: before))
    (hbefore : RegisteredRoots before ((lsanRun before).roots : Multiset LsanRoot)) :
    (lsanRun before).roots.length < lsanMaxRoots := by
  have hcard : (registeredAddrs before).card = (lsanRun before).roots.length := by
    rw [← hbefore.map_addr, Multiset.card_map, Multiset.coe_card]
  have hnow := hfit _ (List.suffix_refl _)
  rw [registeredAddrs, Multiset.card_cons, hcard] at hnow
  exact hnow

theorem roots_lsanStep_of_other {s : LsanState} {c : LsanCall}
    (hregister : ∀ p size, c ≠ .registerRootRegion p size)
    (hunregister : ∀ p size, c ≠ .unregisterRootRegion p size) :
    (lsanStep s c).roots = s.roots := by
  cases c with
  | registerAlloc addr size stack =>
      rw [lsanStep, lsanRegisterAlloc]
      split
      · rfl
      · split <;> rfl
  | unregisterAlloc addr =>
      rw [lsanStep, lsanUnregisterAlloc]
      split <;> rfl
  | registerRootRegion p size => exact (hregister p size rfl).elim
  | unregisterRootRegion p size => exact (hunregister p size rfl).elim
  | ignoreObject | disable | enable => rfl

theorem registeredRoots_lsanRun (hfit : RootsFit history) :
    RegisteredRoots history ((lsanRun history).roots : Multiset LsanRoot) := by
  induction history with
  | nil => exact .nil
  | cons c before ih =>
      have hbefore := ih (hfit.of_suffix (List.suffix_cons c before))
      cases c with
      | registerRootRegion p size =>
          rw [lsanRun, lsanStep, coe_roots_register (length_roots_lt hfit hbefore)]
          exact .register hbefore
      | unregisterRootRegion p size =>
          rw [lsanRun, lsanStep, lsanUnregisterRootRegion]
          dsimp only
          cases hfirst : (lsanRun before).roots.find? (fun r => r.addr == p) with
          | none =>
              have hnone : ∀ r ∈ (lsanRun before).roots, r.addr ≠ p := by simpa using hfirst
              rw [removeRoot_of_not_mem hnone]
              exact .unregister_none hbefore hnone
          | some r =>
              rw [coe_removeRoot hfirst]
              exact .unregister hbefore (List.mem_of_find?_eq_some hfirst) hfirst
      | registerAlloc | unregisterAlloc | ignoreObject | disable | enable =>
          rw [lsanRun, roots_lsanStep_of_other (by simp) (by simp)]
          exact .other hbefore (by simp) (by simp)

/-- One call keeps the table to the pairs exactly when it does not take a region of another size. -/
theorem coe_roots_unregister_eq_iff (hbefore : ((lsanRun before).roots : Multiset LsanRoot) =
    registeredPairs before) (p size : Addr) :
    ((lsanRun (.unregisterRootRegion p size :: before)).roots : Multiset LsanRoot) =
        registeredPairs (.unregisterRootRegion p size :: before) ↔
      ∀ r, (lsanRun before).roots.find? (fun r => r.addr == p) = some r → r.size = size := by
  rw [lsanRun, lsanStep, lsanUnregisterRootRegion, registeredPairs, ← hbefore]
  dsimp only
  cases hfirst : (lsanRun before).roots.find? (fun r => r.addr == p) with
  | none =>
      have hnone : ∀ r ∈ (lsanRun before).roots, r.addr ≠ p := by simpa using hfirst
      have hnot : (⟨p, size⟩ : LsanRoot) ∉ ((lsanRun before).roots : Multiset LsanRoot) :=
        fun hmem => hnone _ hmem rfl
      rw [removeRoot_of_not_mem hnone, Multiset.erase_of_notMem hnot]
      exact iff_of_true rfl (by simp)
  | some r =>
      have hmem : r ∈ ((lsanRun before).roots : Multiset LsanRoot) :=
        List.mem_of_find?_eq_some hfirst
      have haddr : r.addr = p := by simpa using List.find?_some hfirst
      rw [coe_removeRoot hfirst]
      constructor
      · intro heq r' hr'
        cases hr'
        by_contra hsize
        have hne : r ≠ ⟨p, size⟩ := fun h => hsize (congrArg LsanRoot.size h)
        have hcount := congrArg (Multiset.count r) heq
        rw [Multiset.count_erase_self, Multiset.count_erase_of_ne hne] at hcount
        have hpos := Multiset.count_pos.mpr hmem
        omega
      · intro hsize
        have hsame : r = ⟨p, size⟩ := by
          rw [← haddr, ← hsize r rfl]
        rw [hsame]

theorem coe_roots_lsanRun (hfit : RootsFit history) (hfirst : UnregistersFirst history) :
    ((lsanRun history).roots : Multiset LsanRoot) = registeredPairs history := by
  induction history with
  | nil => rfl
  | cons c before ih =>
      have hsuffix := List.suffix_cons c before
      have hbefore := ih (hfit.of_suffix hsuffix) (hfirst.of_suffix hsuffix)
      cases c with
      | registerRootRegion p size =>
          have hroom := length_roots_lt hfit (registeredRoots_lsanRun (hfit.of_suffix hsuffix))
          rw [lsanRun, lsanStep, coe_roots_register hroom, hbefore, registeredPairs]
      | unregisterRootRegion p size =>
          exact (coe_roots_unregister_eq_iff hbefore p size).mpr
            (hfirst p size before (List.suffix_refl _))
      | registerAlloc | unregisterAlloc | ignoreObject | disable | enable =>
          rw [lsanRun, roots_lsanStep_of_other (by simp) (by simp), hbefore]
          rfl

/-- **The root table.** It holds the regions registered and not unregistered since, where a call
unregisters the first region of the table at its address, and does nothing if there is none. These
are the regions of the pairs the calls give, throughout a history, exactly when no call meets a
region of another size first. -/
theorem lsan_roots (hfit : RootsFit history) :
    RegisteredRoots history ((lsanRun history).roots : Multiset LsanRoot) ∧
      (∀ p size, (∀ r ∈ (lsanRun history).roots, r.addr ≠ p) →
        (lsanRun (.unregisterRootRegion p size :: history)).roots = (lsanRun history).roots) ∧
      ((∀ before, before <:+ history →
          ((lsanRun before).roots : Multiset LsanRoot) = registeredPairs before) ↔
        UnregistersFirst history) := by
  refine ⟨registeredRoots_lsanRun hfit, fun p size hnone => removeRoot_of_not_mem hnone, ?_⟩
  constructor
  · intro hpairs p size before hsuffix
    have hbefore := hpairs before ((List.suffix_cons _ before).trans hsuffix)
    exact (coe_roots_unregister_eq_iff hbefore p size).mp (hpairs _ hsuffix)
  · intro hfirst before hsuffix
    exact coe_roots_lsanRun (hfit.of_suffix hsuffix) (hfirst.of_suffix hsuffix)

/-- Of two regions at one address the first one goes, and the last region takes its place. -/
theorem lsan_roots_overlapping :
    let history : List LsanCall := [.unregisterRootRegion 0x1000 16,
      .registerRootRegion 0x1008 32, .registerRootRegion 0x1000 16, .registerRootRegion 0x1000 8]
    RegisteredRoots history ((lsanRun history).roots : Multiset LsanRoot) ∧
      (lsanRun history).roots = [⟨0x1008, 32⟩, ⟨0x1000, 16⟩] := by
  intro history
  have hfit : RootsFit history := by
    intro before hsuffix
    have hmem := (List.mem_tails before history).mpr hsuffix
    have hall : ∀ b ∈ history.tails, (registeredAddrs b).card ≤ lsanMaxRoots := by decide
    exact hall before hmem
  exact ⟨(lsan_roots hfit).1, by decide⟩

/-- Of two regions at one address, the second one is taken back and the first one is gone. -/
theorem lsan_roots_wrong_size :
    ¬ ∀ history : List LsanCall,
      (∀ before, before <:+ history → (registeredPairs before).card ≤ lsanMaxRoots) →
      ((lsanRun history).roots : Multiset LsanRoot) = registeredPairs history := by
  intro hclaim
  let calls : List LsanCall := [.unregisterRootRegion 0x1000 16, .registerRootRegion 0x1000 16,
    .registerRootRegion 0x1000 8]
  have hfit : ∀ before, before <:+ calls → (registeredPairs before).card ≤ lsanMaxRoots := by
    intro before hsuffix
    have hmem := List.mem_tails before calls |>.mpr hsuffix
    have hall : ∀ b ∈ calls.tails, (registeredPairs b).card ≤ lsanMaxRoots := by decide
    exact hall before hmem
  exact absurd (hclaim calls hfit) (by decide)

end Misan
