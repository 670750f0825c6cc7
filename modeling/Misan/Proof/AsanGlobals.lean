import Misan.Proof.AsanCheck

/-!
# Registered globals

A global is a grain-aligned extent whose first `size` bytes are data and whose rest is redzone. One
registration rewrites the shadow of the extent from scratch and leaves every other grain alone, so
after a whole run the shadow of an extent is what the last call about it left there. The one thing
that can interfere is the mapping the first register call makes: it may discard what was written
before it.
-/

namespace Misan

/-- What the compiler emits: grain-aligned bounds, data inside the extent, in the low half. -/
structure AsanGlobal.WellFormed (g : AsanGlobal) : Prop where
  beg_aligned : g.beg.toNat % 8 = 0
  redzone_aligned : g.sizeWithRedzone.toNat % 8 = 0
  size_le : g.size.toNat ≤ g.sizeWithRedzone.toNat
  fits : g.beg.toNat + g.sizeWithRedzone.toNat ≤ 2 ^ 47

def AsanGlobal.InExtent (g : AsanGlobal) (x : Addr) : Prop :=
  g.beg.toNat ≤ x.toNat ∧ x.toNat < g.beg.toNat + g.sizeWithRedzone.toNat

instance (g : AsanGlobal) (x : Addr) : Decidable (g.InExtent x) :=
  inferInstanceAs (Decidable (_ ∧ _))

structure GlobalLayout (G : Set AsanGlobal) : Prop where
  wellFormed : ∀ g ∈ G, g.WellFormed
  disjoint : ∀ g ∈ G, ∀ h ∈ G, g ≠ h → ∀ x, g.InExtent x → ¬ h.InExtent x

inductive GlobalsCall where
  | register (globals : List AsanGlobal)
  | unregister (globals : List AsanGlobal)

def GlobalsCall.globals : GlobalsCall → List AsanGlobal
  | .register globals => globals
  | .unregister globals => globals

def GlobalsCall.isRegister : GlobalsCall → Bool
  | .register _ => true
  | .unregister _ => false

def globalsStep (mmap : Mmap) (s : AsanState) : GlobalsCall → AsanState
  | .register globals => asanRegisterGlobals mmap s globals
  | .unregister globals => asanUnregisterGlobals s globals

def globalsRun (mmap : Mmap) (s : AsanState) (calls : List GlobalsCall) : AsanState :=
  calls.foldl (globalsStep mmap) s

def ZeroShadow (m : Memory) : Prop := ∀ x, asanShadowGet m x = 0

/-- The last call about `g` is `c`, and `before` are the calls made before it. -/
def LastCallAbout (calls : List GlobalsCall) (g : AsanGlobal) (before : List GlobalsCall)
    (c : GlobalsCall) : Prop :=
  ∃ after, calls = before ++ c :: after ∧ g ∈ c.globals ∧ ∀ c' ∈ after, g ∉ c'.globals

/-- Data accesses pass and accesses that start in the redzone are reported. -/
def RegisteredExactly (s : AsanState) (g : AsanGlobal) : Prop :=
  (∀ addr size isWrite, 1 ≤ size.toNat → g.beg.toNat ≤ addr.toNat →
      addr.toNat + size.toNat ≤ g.beg.toNat + g.size.toNat →
      asanCheckAccess s addr size isWrite = none) ∧
  ∀ addr size isWrite, 1 ≤ size.toNat → size.toNat < 2 ^ 63 →
    g.beg.toNat + g.size.toNat ≤ addr.toNat →
    addr.toNat < g.beg.toNat + g.sizeWithRedzone.toNat →
    asanCheckAccess s addr size isWrite ≠ none

def UnregisteredExactly (s : AsanState) (g : AsanGlobal) : Prop :=
  ∀ addr size isWrite, g.InExtent addr → asanCheckAccess s addr size isWrite ≠ none

def registeredShadow (g : AsanGlobal) (x : Addr) : BitVec 8 :=
  if asanGrain x < (g.beg.toNat + g.size.toNat) / 8 then 0
  else if asanGrain x = (g.beg.toNat + g.size.toNat) / 8 ∧ g.size.toNat % 8 ≠ 0 then
    BitVec.ofNat 8 (g.size.toNat % 8)
  else asanShadowGlobalRedzone

section OneGlobal

variable {g : AsanGlobal} (m : Memory)

theorem asanTouches_of_aligned (hg : g.WellFormed) (x : Addr) :
    AsanTouches g.beg g.sizeWithRedzone x ↔ g.InExtent x := by
  have hbeg := hg.beg_aligned
  have hred := hg.redzone_aligned
  simp only [AsanTouches, AsanGlobal.InExtent, asanGrain]
  omega

theorem asanShadowGet_asanRegisterGlobal (hg : g.WellFormed) (x : Addr) :
    asanShadowGet (asanRegisterGlobal m g) x
      = if g.InExtent x then registeredShadow g x else asanShadowGet m x := by
  have hbeg := hg.beg_aligned
  have hred := hg.redzone_aligned
  have hle := hg.size_le
  have hfits := hg.fits
  have hmid : (g.beg + g.size).toNat = g.beg.toNat + g.size.toNat := by
    rw [BitVec.toNat_add]
    omega
  have hrest : (g.sizeWithRedzone - g.size).toNat = g.sizeWithRedzone.toNat - g.size.toNat := by
    rw [BitVec.toNat_sub]
    omega
  rw [asanRegisterGlobal, asanShadowGet_asanPoisonRange _ _ (by rw [hmid, hrest]; omega),
    asanShadowGet_asanUnpoisonRange _ (by omega)]
  have hmod : (g.beg.toNat + g.size.toNat) % 8 = g.size.toNat % 8 := by omega
  have hpoison : AsanTouches (g.beg + g.size) (g.sizeWithRedzone - g.size) x ↔
      g.InExtent x ∧ ¬ asanGrain x < (g.beg.toNat + g.size.toNat) / 8 := by
    simp only [AsanTouches, AsanGlobal.InExtent, asanGrain, hmid, hrest]
    omega
  have hunpoison : ¬ AsanTouches (g.beg + g.size) (g.sizeWithRedzone - g.size) x →
      (AsanTouches g.beg g.size x ↔ g.InExtent x) := by
    rw [hpoison]
    simp only [AsanTouches, AsanGlobal.InExtent, asanGrain]
    omega
  by_cases hin : g.InExtent x
  · rw [if_pos hin, registeredShadow]
    by_cases hdata : asanGrain x < (g.beg.toNat + g.size.toNat) / 8
    · have hnot : ¬ AsanTouches (g.beg + g.size) (g.sizeWithRedzone - g.size) x :=
        fun htouch => (hpoison.mp htouch).2 hdata
      rw [if_neg hnot, if_pos ((hunpoison hnot).mpr hin), if_pos hdata]
    · rw [if_pos (hpoison.mpr ⟨hin, hdata⟩), if_neg hdata, hmid, hmod, asanGrain, asanGrain, hmid]
  · have hnot : ¬ AsanTouches (g.beg + g.size) (g.sizeWithRedzone - g.size) x :=
      fun htouch => hin (hpoison.mp htouch).1
    rw [if_neg hnot, if_neg (mt (hunpoison hnot).mp hin), if_neg hin]

theorem asanShadowGet_asanUnregisterGlobal (hg : g.WellFormed) (x : Addr) :
    asanShadowGet (asanUnregisterGlobal m g) x
      = if g.InExtent x then asanShadowPoisoned else asanShadowGet m x := by
  have hbeg := hg.beg_aligned
  have hfits := hg.fits
  rw [asanUnregisterGlobal, asanShadowGet_asanPoisonRange _ _ (by omega)]
  refine if_congr (asanTouches_of_aligned hg x) ?_ rfl
  rw [if_neg]
  rintro ⟨-, hpart⟩
  exact hpart hbeg

theorem registeredExactly_of_shadow {s : AsanState} (hinit : s.asanInitialized = true)
    (hg : g.WellFormed)
    (hshadow : ∀ x, g.InExtent x → asanShadowGet s.mem x = registeredShadow g x) :
    RegisteredExactly s g := by
  have hbeg := hg.beg_aligned
  have hred := hg.redzone_aligned
  have hle := hg.size_le
  have hfits := hg.fits
  constructor
  · intro addr size isWrite hsize hlow hhigh
    have hin : g.InExtent addr := ⟨hlow, by omega⟩
    rw [asanCheckAccess_eq_none_iff hinit, hshadow addr hin, registeredShadow, asanGrain]
    by_cases hdata : addr.toNat / 8 < (g.beg.toNat + g.size.toNat) / 8
    · exact Or.inl (by rw [if_pos hdata])
    · apply Or.inr
      rw [if_neg hdata, if_pos (by omega), BitVec.toNat_ofNat]
      omega
  · intro addr size isWrite hsize hhuge hlow hhigh
    have hin : g.InExtent addr := ⟨by omega, hhigh⟩
    rw [Ne, asanCheckAccess_eq_none_iff hinit, hshadow addr hin, registeredShadow, asanGrain,
      if_neg (by omega)]
    split_ifs with hpart
    · rintro (hzero | ⟨-, -, hfitsIn⟩)
      · have := congrArg BitVec.toNat hzero
        rw [BitVec.toNat_ofNat, show (0 : BitVec 8).toNat = 0 from rfl] at this
        omega
      · rw [BitVec.toNat_ofNat] at hfitsIn
        omega
    · rintro (hzero | ⟨-, hseven, -⟩)
      · exact absurd hzero (by decide)
      · exact absurd hseven (by decide)

theorem unregisteredExactly_of_shadow {s : AsanState} (hinit : s.asanInitialized = true)
    (hshadow : ∀ x, g.InExtent x → asanShadowGet s.mem x = asanShadowPoisoned) :
    UnregisteredExactly s g := by
  intro addr size isWrite hin
  rw [Ne, asanCheckAccess_eq_none_iff hinit, hshadow addr hin]
  rintro (hzero | ⟨-, hseven, -⟩)
  · exact absurd hzero (by decide)
  · exact absurd hseven (by decide)

end OneGlobal

/-! ### One call -/

section OneCall

variable {G : Set AsanGlobal} {mmap : Mmap}

/-- One loop body over an array of globals of the layout, for either call. -/
def globalsBody : Bool → Memory → AsanGlobal → Memory
  | true => asanRegisterGlobal
  | false => asanUnregisterGlobal

def globalsShadow (isRegister : Bool) (g : AsanGlobal) (x : Addr) : BitVec 8 :=
  if isRegister then registeredShadow g x else asanShadowPoisoned

theorem asanShadowGet_globalsBody {g : AsanGlobal} (hg : g.WellFormed) (isRegister : Bool)
    (m : Memory) (x : Addr) :
    asanShadowGet (globalsBody isRegister m g) x
      = if g.InExtent x then globalsShadow isRegister g x else asanShadowGet m x := by
  cases isRegister with
  | true => exact asanShadowGet_asanRegisterGlobal m hg x
  | false => exact asanShadowGet_asanUnregisterGlobal m hg x

theorem foldl_globalsBody_of_notMem (hG : GlobalLayout G) (isRegister : Bool) {x : Addr}
    (globals : List AsanGlobal) (hsub : ∀ g ∈ globals, g ∈ G)
    (hout : ∀ g ∈ globals, ¬ g.InExtent x) (m : Memory) :
    asanShadowGet (globals.foldl (globalsBody isRegister) m) x = asanShadowGet m x := by
  induction globals generalizing m with
  | nil => rfl
  | cons h rest ih =>
      rw [List.foldl_cons, ih (fun g hg => hsub g (List.mem_cons_of_mem _ hg))
          (fun g hg => hout g (List.mem_cons_of_mem _ hg)),
        asanShadowGet_globalsBody (hG.wellFormed h (hsub h (List.mem_cons_self ..))),
        if_neg (hout h (List.mem_cons_self ..))]

/-- Every extent named in the array ends up as one body about it leaves it: the bodies about the
other globals do not reach it. -/
theorem foldl_globalsBody_of_mem (hG : GlobalLayout G) (isRegister : Bool) {g : AsanGlobal}
    {x : Addr} (hx : g.InExtent x) (globals : List AsanGlobal) (hsub : ∀ h ∈ globals, h ∈ G)
    (hmem : g ∈ globals) (m : Memory) :
    asanShadowGet (globals.foldl (globalsBody isRegister) m) x = globalsShadow isRegister g x := by
  induction globals generalizing m with
  | nil => simp at hmem
  | cons h rest ih =>
      have hsub' : ∀ k ∈ rest, k ∈ G := fun k hk => hsub k (List.mem_cons_of_mem _ hk)
      rw [List.foldl_cons]
      by_cases hrest : g ∈ rest
      · exact ih hsub' hrest _
      · have hgh : g = h := by
          rcases List.mem_cons.mp hmem with heq | hin
          · exact heq
          · exact absurd hin hrest
        subst hgh
        have hgG := hsub g (List.mem_cons_self ..)
        have hout : ∀ k ∈ rest, ¬ k.InExtent x := by
          intro k hk
          exact hG.disjoint g hgG k (hsub' k hk) (fun heq => hrest (heq ▸ hk)) x hx
        rw [foldl_globalsBody_of_notMem hG isRegister rest hsub' hout,
          asanShadowGet_globalsBody (hG.wellFormed g hgG), if_pos hx]

/-- The state a call starts its loop from: the first register call initialises. -/
def globalsEnter (mmap : Mmap) (s : AsanState) (c : GlobalsCall) : AsanState :=
  if c.isRegister && !s.asanInitialized then asanInit mmap s else s

theorem globalsStep_eq (mmap : Mmap) (s : AsanState) (c : GlobalsCall) :
    globalsStep mmap s c =
      { globalsEnter mmap s c with
        mem := c.globals.foldl (globalsBody c.isRegister) (globalsEnter mmap s c).mem } := by
  cases c <;> simp [globalsStep, globalsEnter, asanRegisterGlobals, asanUnregisterGlobals,
    GlobalsCall.isRegister, GlobalsCall.globals, globalsBody]

theorem globalsEnter_of_initialized {s : AsanState} (hinit : s.asanInitialized = true)
    (c : GlobalsCall) : globalsEnter mmap s c = s := by
  simp [globalsEnter, hinit]

theorem globalsEnter_initialized (s : AsanState) (c : GlobalsCall) :
    (globalsEnter mmap s c).asanInitialized = (s.asanInitialized || c.isRegister) := by
  cases hinit : s.asanInitialized <;> cases hreg : c.isRegister <;>
    simp [globalsEnter, asanInit, hinit, hreg]

theorem globalsStep_initialized (s : AsanState) (c : GlobalsCall) :
    (globalsStep mmap s c).asanInitialized = (s.asanInitialized || c.isRegister) := by
  rw [globalsStep_eq]
  exact globalsEnter_initialized s c

theorem globalsEnter_eq_or_zero (hmmap : mmap.ZeroFills) (s : AsanState) (c : GlobalsCall)
    (x : Addr) :
    asanShadowGet (globalsEnter mmap s c).mem x = asanShadowGet s.mem x ∨
      asanShadowGet (globalsEnter mmap s c).mem x = 0 := by
  unfold globalsEnter asanInit
  split_ifs
  · exact Or.inl rfl
  · exact drtArchMapShadowMemory_eq_or_zero hmmap _ _ _ _
  · exact Or.inl rfl

end OneCall

/-! ### Whole runs -/

section Runs

variable {G : Set AsanGlobal} {mmap : Mmap} {calls : List GlobalsCall}

theorem globalsRun_initialized (s : AsanState) (calls : List GlobalsCall) :
    (globalsRun mmap s calls).asanInitialized
      = (s.asanInitialized || calls.any GlobalsCall.isRegister) := by
  induction calls generalizing s with
  | nil => simp [globalsRun]
  | cons c rest ih =>
      have hrest := ih (globalsStep mmap s c)
      rw [globalsStep_initialized] at hrest
      rw [List.any_cons, ← Bool.or_assoc]
      exact hrest

theorem globalsRun_outside (hmmap : mmap.ZeroFills) (hG : GlobalLayout G)
    (hcalls : ∀ c ∈ calls, ∀ g ∈ c.globals, g ∈ G) {x : Addr} (hout : ∀ g ∈ G, ¬ g.InExtent x)
    {s : AsanState} (hzero : asanShadowGet s.mem x = 0) :
    asanShadowGet (globalsRun mmap s calls).mem x = 0 := by
  induction calls generalizing s with
  | nil => exact hzero
  | cons c rest ih =>
      apply ih (fun c' hc' => hcalls c' (List.mem_cons_of_mem _ hc'))
      have hsub := hcalls c (List.mem_cons_self ..)
      rw [globalsStep_eq]
      rw [foldl_globalsBody_of_notMem hG _ _ hsub fun g hg => hout g (hsub g hg)]
      rcases globalsEnter_eq_or_zero hmmap s c x with hsame | hcleared
      · rw [hsame, hzero]
      · exact hcleared

theorem globalsRun_frame (hG : GlobalLayout G) {g : AsanGlobal} (hg : g ∈ G) {x : Addr}
    (hx : g.InExtent x) (hcalls : ∀ c ∈ calls, ∀ h ∈ c.globals, h ∈ G)
    (hother : ∀ c ∈ calls, g ∉ c.globals) {s : AsanState} (hinit : s.asanInitialized = true) :
    asanShadowGet (globalsRun mmap s calls).mem x = asanShadowGet s.mem x := by
  induction calls generalizing s with
  | nil => rfl
  | cons c rest ih =>
      have hsub := hcalls c (List.mem_cons_self ..)
      have hnot := hother c (List.mem_cons_self ..)
      have hinit' : (globalsStep mmap s c).asanInitialized = true := by
        rw [globalsStep_initialized, hinit, Bool.true_or]
      have htail := ih (fun c' hc' => hcalls c' (List.mem_cons_of_mem _ hc'))
        (fun c' hc' => hother c' (List.mem_cons_of_mem _ hc')) hinit'
      have hhead : asanShadowGet (globalsStep mmap s c).mem x = asanShadowGet s.mem x := by
        rw [globalsStep_eq, globalsEnter_of_initialized hinit]
        refine foldl_globalsBody_of_notMem hG _ _ hsub (fun h hh => ?_) _
        exact hG.disjoint g hg h (hsub h hh) (fun heq => hnot (heq ▸ hh)) x hx
      exact htail.trans hhead

/-- **The last call decides.** If the runtime is initialised by the time of the last call about `g`,
the shadow of the extent is what that call's loop body leaves. -/
theorem globalsRun_last (hG : GlobalLayout G) {g : AsanGlobal} (hg : g ∈ G)
    (hcalls : ∀ c ∈ calls, ∀ h ∈ c.globals, h ∈ G) {s : AsanState}
    {before : List GlobalsCall} {c : GlobalsCall} (hlast : LastCallAbout calls g before c)
    (hready : s.asanInitialized = true ∨ before.any GlobalsCall.isRegister ∨ c.isRegister)
    {x : Addr} (hx : g.InExtent x) :
    asanShadowGet (globalsRun mmap s calls).mem x = globalsShadow c.isRegister g x := by
  obtain ⟨after, rfl, hmem, hafter⟩ := hlast
  have hsub : ∀ h ∈ c.globals, h ∈ G := hcalls c (by simp)
  have hinit : (globalsStep mmap (globalsRun mmap s before) c).asanInitialized = true := by
    rw [globalsStep_initialized, globalsRun_initialized]
    rcases hready with h | h | h <;> simp [h]
  calc
    asanShadowGet (globalsRun mmap s (before ++ c :: after)).mem x =
        asanShadowGet
          (globalsRun mmap (globalsStep mmap (globalsRun mmap s before) c) after).mem x := by
      simp [globalsRun]
    _ = asanShadowGet (globalsStep mmap (globalsRun mmap s before) c).mem x :=
      globalsRun_frame hG hg hx (fun c' hc' => hcalls c' (by simp [hc'])) hafter hinit
    _ = globalsShadow c.isRegister g x := by
      rw [globalsStep_eq]
      exact foldl_globalsBody_of_mem hG _ hx _ hsub hmem _

end Runs

/-- The state after `calls` is exact: every registered global is guarded, every unregistered one is
fenced off, and the rest of the shadow is still zero. -/
def RegistrationExact (G : Set AsanGlobal) (calls : List GlobalsCall) (s : AsanState) : Prop :=
  (∀ g ∈ G, ∀ before globals, LastCallAbout calls g before (.register globals) →
    RegisteredExactly s g) ∧
  (∀ g ∈ G, ∀ before globals, LastCallAbout calls g before (.unregister globals) →
    UnregisteredExactly s g) ∧
  ∀ x, (∀ g ∈ G, ¬ g.InExtent x) → asanShadowGet s.mem x = 0

/-- **Registration is exact**, except that an unregister made before the runtime is initialised
promises nothing: the mapping made by the first register call may discard it. -/
theorem asanGlobals_exact {mmap : Mmap} (hmmap : mmap.ZeroFills) {G : Set AsanGlobal}
    (hG : GlobalLayout G) {calls : List GlobalsCall}
    (hcalls : ∀ c ∈ calls, ∀ g ∈ c.globals, g ∈ G) (hreg : ∃ c ∈ calls, c.isRegister = true)
    {s : AsanState} (hzero : ZeroShadow s.mem) :
    (∀ g ∈ G, ∀ before globals, LastCallAbout calls g before (.register globals) →
      RegisteredExactly (globalsRun mmap s calls) g) ∧
    (∀ g ∈ G, ∀ before globals, LastCallAbout calls g before (.unregister globals) →
      (s.asanInitialized = true ∨ ∃ c ∈ before, c.isRegister = true) →
      UnregisteredExactly (globalsRun mmap s calls) g) ∧
    ∀ x, (∀ g ∈ G, ¬ g.InExtent x) → asanShadowGet (globalsRun mmap s calls).mem x = 0 := by
  have hinit : (globalsRun mmap s calls).asanInitialized = true := by
    rw [globalsRun_initialized, List.any_eq_true.mpr hreg, Bool.or_true]
  refine ⟨?_, ?_, ?_⟩
  · intro g hg before globals hlast
    exact registeredExactly_of_shadow hinit (hG.wellFormed g hg) fun x hx =>
      globalsRun_last hG hg hcalls hlast (Or.inr (Or.inr rfl)) hx
  · intro g hg before globals hlast hready
    refine unregisteredExactly_of_shadow hinit fun x hx =>
      globalsRun_last hG hg hcalls hlast ?_ hx
    exact hready.imp_right fun hbefore => Or.inl (List.any_eq_true.mpr hbefore)
  · intro x hout
    exact globalsRun_outside hmmap hG hcalls hout (hzero x)

/-! ### The first register call may undo an early unregister -/

def firstGlobal : AsanGlobal := ⟨0x1000, 8, 16⟩
def secondGlobal : AsanGlobal := ⟨0x2000, 8, 16⟩

def grantingMmap : Mmap := fun m addr length _ _ =>
  some fun x => if x - addr < length then 0 else m x

theorem grantingMmap_zeroFills : grantingMmap.ZeroFills := by
  intro m addr length prot flags m' hmapped x hne
  have hm' : m' = fun x => if x - addr < length then 0 else m x := (Option.some.inj hmapped).symm
  subst hm'
  by_cases hin : x - addr < length
  · exact ⟨hin, if_pos hin⟩
  · exact absurd (if_neg hin) hne

theorem globalLayout_firstGlobal_secondGlobal : GlobalLayout {firstGlobal, secondGlobal} := by
  refine ⟨?_, ?_⟩
  · rintro g (rfl | rfl) <;> exact ⟨by decide, by decide, by decide, by decide⟩
  · rintro g (rfl | rfl) h (rfl | rfl) hne x hx hx'
    · exact hne rfl
    · have hhigh : x.toNat < 0x1010 := hx.2
      have hlow : 0x2000 ≤ x.toNat := hx'.1
      omega
    · have hlow : 0x2000 ≤ x.toNat := hx.1
      have hhigh : x.toNat < 0x1010 := hx'.2
      omega
    · exact hne rfl

/-- Unregistering one global and then registering another leaves the first one accessible. -/
theorem not_registrationExact_early_unregister :
    ¬ ∀ (mmap : Mmap), mmap.ZeroFills → ∀ G, GlobalLayout G → ∀ calls : List GlobalsCall,
      (∀ c ∈ calls, ∀ g ∈ c.globals, g ∈ G) → (∃ c ∈ calls, c.isRegister = true) →
      ∀ s : AsanState, ZeroShadow s.mem →
        RegistrationExact G calls (globalsRun mmap s calls) := by
  intro hclaim
  have hlayout := globalLayout_firstGlobal_secondGlobal
  have hexact := hclaim grantingMmap grantingMmap_zeroFills _ hlayout
    [.unregister [firstGlobal], .register [secondGlobal]]
    (by simp [GlobalsCall.globals]) (by simp [GlobalsCall.isRegister]) ⟨fun _ => 0, false⟩
    (fun _ => rfl)
  have hunregistered := hexact.2.1 firstGlobal (by simp) [] [firstGlobal]
    ⟨[.register [secondGlobal]], rfl, by simp [GlobalsCall.globals],
      by simp [GlobalsCall.globals, firstGlobal, secondGlobal]⟩
  refine hunregistered 0x1000 1 false ⟨by decide, by decide⟩ ?_
  rw [asanCheckAccess_eq_none_iff (by rw [globalsRun_initialized]; rfl)]
  left
  -- the register call maps the shadow afresh and then touches the second extent only
  rw [globalsRun, List.foldl_cons, List.foldl_cons, List.foldl_nil, globalsStep_eq,
    foldl_globalsBody_of_notMem hlayout _ _ (by simp [GlobalsCall.globals])]
  · rfl
  · intro g hg
    obtain rfl : g = secondGlobal := by simpa [GlobalsCall.globals] using hg
    exact fun hin => absurd hin.1 (by decide)

theorem registeredExactly_firstGlobal :
    RegisteredExactly
      (globalsRun grantingMmap ⟨fun _ => 0, false⟩ [.register [firstGlobal]]) firstGlobal :=
  (asanGlobals_exact grantingMmap_zeroFills globalLayout_firstGlobal_secondGlobal
    (by simp [GlobalsCall.globals]) (by simp [GlobalsCall.isRegister]) (fun _ => rfl)).1
    firstGlobal (by simp) [] [firstGlobal] ⟨[], rfl, by simp [GlobalsCall.globals], by simp⟩

end Misan
