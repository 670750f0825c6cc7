import Misan.Proof.AsanGlobals
import Misan.Proof.AsanRegions

/-!
# The query and the check

`__asan_address_is_poisoned` calls every grain poisoned whose shadow is not zero; the check decodes
a partial grain. They part on the addressable bytes of partial grains and nowhere else. Only a
poisoning that starts inside a grain makes a grain partial, so runs without one never show the
difference.
-/

namespace Misan

/-- The check is made with the runtime initialised, whatever the state says. -/
def AsanState.armed (s : AsanState) : AsanState := { s with asanInitialized := true }

def QueryAgrees (s : AsanState) (a : Addr) (isWrite : Bool) : Prop :=
  asanAddressIsPoisoned s a = true ↔ asanCheckAccess s.armed a 1 isWrite ≠ none

theorem asanCheckAccess_one_eq_none_iff {s : AsanState} (hinit : s.asanInitialized = true)
    (a : Addr) (isWrite : Bool) :
    asanCheckAccess s a 1 isWrite = none ↔ AsanAddressable s.mem a := by
  have hsum : (a.toNat % 8 + (1 : Addr).toNat) % 2 ^ 64 = a.toNat % 8 + 1 := by
    rw [show (1 : Addr).toNat = 1 from rfl]
    omega
  rw [asanCheckAccess_eq_none_iff hinit, hsum]
  exact Iff.rfl

def WholeGrains (m : Memory) : Prop :=
  ∀ x, asanShadowGet m x = 0 ∨ 8 ≤ (asanShadowGet m x).toNat

/-- The query and the check part on the addressable bytes of a partial grain. -/
theorem queryAgrees_iff (s : AsanState) (a : Addr) (isWrite : Bool) :
    QueryAgrees s a isWrite ↔
      ¬ (asanShadowGet s.mem a ≠ 0 ∧ AsanAddressable s.mem a) := by
  rw [QueryAgrees, Ne, asanCheckAccess_one_eq_none_iff (by rfl)]
  have hquery : asanAddressIsPoisoned s a = true ↔ asanShadowGet s.mem a ≠ 0 := by
    simp [asanAddressIsPoisoned, asanShadowUnpoisoned]
  have hzero : asanShadowGet s.mem a = 0 → AsanAddressable s.mem a := Or.inl
  rw [hquery]
  change (_ ↔ ¬ AsanAddressable s.mem a) ↔ _
  tauto

theorem WholeGrains.queryAgrees {s : AsanState} (hwhole : WholeGrains s.mem) (a : Addr)
    (isWrite : Bool) : QueryAgrees s a isWrite := by
  rw [queryAgrees_iff]
  rintro ⟨hpoisoned, hclean | ⟨-, hseven, -⟩⟩
  · exact hpoisoned hclean
  · rcases hwhole a with hclean | hbig
    · exact hpoisoned hclean
    · omega

/-! ### One range operation -/

section Ranges

variable {m : Memory} {beg size : Addr} {val : BitVec 8}

theorem WholeGrains.fillUpTo (hwhole : WholeGrains m) (hval : val = 0 ∨ 8 ≤ val.toNat)
    (a b : Addr) : WholeGrains (m.fillUpTo a b val) := by
  intro x
  rw [asanShadowGet, ByteMemory.fillUpTo_apply]
  split
  · exact hval
  · exact hwhole x

theorem WholeGrains.asanUnpoisonRange (hwhole : WholeGrains m) :
    WholeGrains (asanUnpoisonRange m beg size) := by
  unfold Misan.asanUnpoisonRange
  split
  · exact hwhole
  · exact hwhole.fillUpTo (Or.inl rfl) _ _

theorem WholeGrains.asanPoisonRange (hwhole : WholeGrains m) (hval : 8 ≤ val.toNat)
    (hstart : size = 0 ∨ beg.toNat % 8 = 0) : WholeGrains (asanPoisonRange m beg size val) := by
  unfold Misan.asanPoisonRange
  split
  · exact hwhole
  · rename_i hsize
    have hbeg : ¬ (beg &&& ~~~asanShadowMask) ≠ beg := by
      rw [and_not_asanShadowMask_ne_iff]
      have := hstart.resolve_left hsize
      omega
    dsimp only
    rw [if_neg hbeg]
    exact hwhole.fillUpTo (Or.inr hval) _ _

/-- Any other poisoning leaves its first grain partial. -/
theorem asanShadowGet_asanPoisonRange_head (hsize : size ≠ 0) (hpart : beg.toNat % 8 ≠ 0) :
    asanShadowGet (asanPoisonRange m beg size val) (beg &&& ~~~asanShadowMask)
      = BitVec.ofNat 8 (beg.toNat % 8) := by
  unfold asanPoisonRange
  rw [if_neg hsize]
  dsimp only
  rw [if_pos ((and_not_asanShadowMask_ne_iff beg).mpr hpart), asanShadowGet,
    ByteMemory.store_apply, if_pos rfl, setWidth_sub_grain]

theorem not_queryAgrees_asanPoisonRange (hsize : size ≠ 0) (hpart : beg.toNat % 8 ≠ 0)
    {s : AsanState} (hs : s.mem = asanPoisonRange m beg size val) (isWrite : Bool) :
    ¬ QueryAgrees s (beg &&& ~~~asanShadowMask) isWrite := by
  rw [queryAgrees_iff, not_not, AsanAddressable, hs,
    asanShadowGet_asanPoisonRange_head hsize hpart, Ne, ← BitVec.toNat_inj, BitVec.toNat_ofNat,
    toNat_and_not_asanShadowMask, show (0 : BitVec 8).toNat = 0 from rfl]
  omega

end Ranges

/-! ### Runs of calls -/

inductive AsanCall where
  | poison (addr size : Addr)
  | unpoison (addr size : Addr)
  | onGlobals (c : GlobalsCall)

/-- The regions a call poisons, as start and size. -/
def AsanCall.poisonings : AsanCall → List (Addr × Addr)
  | .poison addr size => [(addr, size)]
  | .unpoison _ _ => []
  | .onGlobals (.register globals) =>
      globals.map fun g => (g.beg + g.size, g.sizeWithRedzone - g.size)
  | .onGlobals (.unregister globals) => globals.map fun g => (g.beg, g.sizeWithRedzone)

/-- Nothing is poisoned from the middle of a grain on. -/
def AsanCall.StartsWhole (c : AsanCall) : Prop :=
  ∀ r ∈ c.poisonings, r.2 = 0 ∨ r.1.toNat % 8 = 0

def asanCallStep (mmap : Mmap) (s : AsanState) : AsanCall → AsanState
  | .poison addr size => asanPoisonMemoryRegion s addr size
  | .unpoison addr size => asanUnpoisonMemoryRegion s addr size
  | .onGlobals c => globalsStep mmap s c

def asanCallRun (mmap : Mmap) (s : AsanState) (calls : List AsanCall) : AsanState :=
  calls.foldl (asanCallStep mmap) s

/-- The query agrees with the check on every byte in every state the run goes through. -/
def QueryAgreesAlong (mmap : Mmap) (s : AsanState) (calls : List AsanCall) : Prop :=
  ∀ before, before <+: calls → ∀ a isWrite, QueryAgrees (asanCallRun mmap s before) a isWrite

section Runs

variable {mmap : Mmap} {s : AsanState} {calls : List AsanCall}

theorem WholeGrains.foldl_globalsBody (isRegister : Bool) (globals : List AsanGlobal)
    (hstart : ∀ g ∈ globals, ∀ m, WholeGrains m → WholeGrains (globalsBody isRegister m g))
    {m : Memory} (hwhole : WholeGrains m) :
    WholeGrains (globals.foldl (globalsBody isRegister) m) := by
  induction globals generalizing m with
  | nil => exact hwhole
  | cons g rest ih =>
      apply ih fun h hh => hstart h (List.mem_cons_of_mem _ hh)
      exact hstart g (List.mem_cons_self ..) m hwhole

theorem WholeGrains.globalsEnter (hmmap : mmap.ZeroFills) (hwhole : WholeGrains s.mem)
    (c : GlobalsCall) : WholeGrains (globalsEnter mmap s c).mem := by
  intro x
  rcases globalsEnter_eq_or_zero hmmap s c x with hsame | hcleared
  · rw [hsame]
    exact hwhole x
  · exact Or.inl hcleared

theorem WholeGrains.asanCallStep (hmmap : mmap.ZeroFills) (hwhole : WholeGrains s.mem)
    {c : AsanCall} (hc : c.StartsWhole) : WholeGrains (asanCallStep mmap s c).mem := by
  cases c with
  | poison addr size => exact hwhole.asanPoisonRange (by decide) (hc (addr, size) (by
      simp [AsanCall.poisonings]))
  | unpoison addr size => exact hwhole.asanUnpoisonRange
  | onGlobals c =>
      rw [Misan.asanCallStep, globalsStep_eq]
      apply WholeGrains.foldl_globalsBody _ _ _ (hwhole.globalsEnter hmmap c)
      intro g hg m hm
      cases c with
      | register globals =>
          apply (hm.asanUnpoisonRange).asanPoisonRange (by decide)
          exact hc _ (List.mem_map.mpr ⟨g, hg, rfl⟩)
      | unregister globals =>
          apply hm.asanPoisonRange (by decide)
          exact hc _ (List.mem_map.mpr ⟨g, hg, rfl⟩)

theorem WholeGrains.asanCallRun (hmmap : mmap.ZeroFills) (hwhole : WholeGrains s.mem)
    (hcalls : ∀ c ∈ calls, c.StartsWhole) : WholeGrains (asanCallRun mmap s calls).mem := by
  induction calls generalizing s with
  | nil => exact hwhole
  | cons c rest ih =>
      apply ih (hwhole.asanCallStep hmmap (hcalls c (List.mem_cons_self ..)))
      exact fun c' hc' => hcalls c' (List.mem_cons_of_mem _ hc')

theorem asanCallStep_mem_of_poisonings (mmap : Mmap) (s : AsanState) {c : AsanCall}
    {beg size : Addr} (hc : c.poisonings = [(beg, size)]) :
    ∃ m val, (asanCallStep mmap s c).mem = asanPoisonRange m beg size val := by
  cases c with
  | poison addr size =>
      obtain ⟨rfl, rfl⟩ := Prod.mk.inj (List.singleton_inj.mp hc)
      exact ⟨_, _, rfl⟩
  | unpoison addr size => simp [AsanCall.poisonings] at hc
  | onGlobals c =>
      cases c with
      | register globals =>
          obtain ⟨g, rfl, hg⟩ := List.map_eq_singleton_iff.mp hc
          obtain ⟨rfl, rfl⟩ := Prod.mk.inj hg
          exact ⟨_, _, by rw [asanCallStep, globalsStep_eq]; rfl⟩
      | unregister globals =>
          obtain ⟨g, rfl, hg⟩ := List.map_eq_singleton_iff.mp hc
          obtain ⟨rfl, rfl⟩ := Prod.mk.inj hg
          exact ⟨_, _, by rw [asanCallStep, globalsStep_eq]; rfl⟩

theorem startsWhole_of_queryAgrees (mmap : Mmap) (s : AsanState) {c : AsanCall}
    (hone : c.poisonings.length ≤ 1)
    (hagrees : ∀ a isWrite, QueryAgrees (asanCallStep mmap s c) a isWrite) : c.StartsWhole := by
  intro r hr
  obtain ⟨r', hsingle⟩ := List.length_eq_one_iff.mp
    (Nat.le_antisymm hone (List.length_pos_of_mem hr))
  obtain rfl : r = r' := by simpa [hsingle] using hr
  obtain ⟨m, val, hmem⟩ := asanCallStep_mem_of_poisonings mmap s hsingle
  by_contra hmiddle
  obtain ⟨hsize, hpart⟩ := not_or.mp hmiddle
  exact not_queryAgrees_asanPoisonRange hsize hpart hmem false (hagrees _ _)

/-- **The query and the check agree** on every byte in every state of a run whose calls poison from
grain boundaries on. For calls that poison one region each, as an array of globals does when it is
registered global by global, they do so in no other run. -/
theorem queryAgreesAlong_iff (hmmap : mmap.ZeroFills) (hwhole : WholeGrains s.mem) :
    ((∀ c ∈ calls, c.StartsWhole) → QueryAgreesAlong mmap s calls) ∧
    ((∀ c ∈ calls, c.poisonings.length ≤ 1) →
      (QueryAgreesAlong mmap s calls ↔ ∀ c ∈ calls, c.StartsWhole)) := by
  have henough : (∀ c ∈ calls, c.StartsWhole) → QueryAgreesAlong mmap s calls := by
    intro hcalls before hbefore a isWrite
    apply WholeGrains.queryAgrees
    exact hwhole.asanCallRun hmmap fun c hc => hcalls c (hbefore.subset hc)
  refine ⟨henough, fun hone => ⟨fun halong c hc => ?_, henough⟩⟩
  obtain ⟨before, after, rfl⟩ := List.append_of_mem hc
  apply startsWhole_of_queryAgrees mmap (asanCallRun mmap s before) (hone c hc)
  have hagrees := halong (before ++ [c]) ⟨after, by simp⟩
  rwa [asanCallRun, List.foldl_append] at hagrees

end Runs

/-- Four bytes poisoned in the second half of a grain: the first half can be accessed, and the query
calls it poisoned. -/
theorem not_queryAgrees_half_grain :
    ¬ ∀ (mmap : Mmap), mmap.ZeroFills → ∀ (s : AsanState), WholeGrains s.mem →
      ∀ (calls : List AsanCall) a isWrite,
        QueryAgrees (asanCallRun mmap s calls) a isWrite := by
  intro hclaim
  have hagrees := hclaim grantingMmap grantingMmap_zeroFills ⟨fun _ => 0, true⟩
    (fun _ => Or.inl rfl) [.poison 0x1004 4] (0x1004 &&& ~~~asanShadowMask) false
  have hsize : (4 : Addr) ≠ 0 := by decide
  have hpart : (0x1004 : Addr).toNat % 8 ≠ 0 := by decide
  exact not_queryAgrees_asanPoisonRange hsize hpart rfl false hagrees

theorem queryAgreesAlong_poison_unpoison :
    QueryAgreesAlong grantingMmap ⟨fun _ => 0, true⟩ [.poison 0x1000 12, .unpoison 0x1003 2] :=
  (queryAgreesAlong_iff grantingMmap_zeroFills fun _ => Or.inl rfl).1 (by
    intro c hc
    simp only [List.mem_cons, List.not_mem_nil, or_false] at hc
    rcases hc with rfl | rfl
    · simp [AsanCall.StartsWhole, AsanCall.poisonings]
    · simp [AsanCall.StartsWhole, AsanCall.poisonings])

end Misan
