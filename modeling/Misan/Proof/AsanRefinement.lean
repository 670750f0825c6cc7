import Misan.Foundation.Refinement
import Misan.Proof.AsanQuery

/-!
# The shadow as a set of bytes

What the region and global hooks are for is a set of bytes, those the program may access: poisoning
takes a region out of it and unpoisoning puts one in. The shadow only knows grains, so a hook can
part from its meaning at the two ends of its region. Whether it does is decided by the set alone.
-/

namespace Misan

/-- One region operation, or one element of an array of globals. -/
inductive ShadowAction where
  | poison (beg size : Addr)
  | unpoison (beg size : Addr)
  | register (g : AsanGlobal)
  | unregister (g : AsanGlobal)

def AsanCall.actions : AsanCall → List ShadowAction
  | .poison addr size => [.poison addr size]
  | .unpoison addr size => [.unpoison addr size]
  | .onGlobals (.register globals) => globals.map .register
  | .onGlobals (.unregister globals) => globals.map .unregister

namespace ShadowAction

def onShadow (m : Memory) : ShadowAction → Memory
  | .poison beg size => asanPoisonRange m beg size asanShadowPoisoned
  | .unpoison beg size => asanUnpoisonRange m beg size
  | .register g => asanRegisterGlobal m g
  | .unregister g => asanUnregisterGlobal m g

/-- What the operation means for the set of bytes the program may access. -/
def onBytes (A : Set Addr) : ShadowAction → Set Addr
  | .poison beg size => A \ {b | InRegion beg size b}
  | .unpoison beg size => A ∪ {b | InRegion beg size b}
  | .register g =>
      (A ∪ {b | InRegion g.beg g.size b}) \
        {b | InRegion (g.beg + g.size) (g.sizeWithRedzone - g.size) b}
  | .unregister g => A \ {b | InRegion g.beg g.sizeWithRedzone b}

/-- The regions of the operation end below the last grain of the shadow window. -/
def Fits : ShadowAction → Prop
  | .poison beg size => beg.toNat + size.toNat ≤ 2 ^ 50 - 8
  | .unpoison beg size => beg.toNat + size.toNat ≤ 2 ^ 50 - 8
  | .register g =>
      g.size.toNat ≤ g.sizeWithRedzone.toNat ∧ g.beg.toNat + g.sizeWithRedzone.toNat ≤ 2 ^ 50 - 8
  | .unregister g => g.beg.toNat + g.sizeWithRedzone.toNat ≤ 2 ^ 50 - 8

end ShadowAction

/-- A poisoned region has only accessible bytes before it in its first grain and only inaccessible
ones behind it in its last. -/
def PoisonExact (A : Set Addr) (beg size : Addr) : Prop :=
  size.toNat ≠ 0 → (∀ b, SharesHead beg b → b ∈ A) ∧ ∀ b, SharesTail beg size b → b ∉ A

def UnpoisonExact (A : Set Addr) (beg size : Addr) : Prop :=
  size.toNat ≠ 0 → ∀ b, SharesHead beg b ∨ SharesTail beg size b → b ∈ A

/-- The bytes that share a grain with the operation's region are as it is going to leave them. A
global's redzone is poisoned right after the global is unpoisoned, which makes up for what the
first operation does behind the global, unless there is no redzone. -/
def ShadowAction.Exact : ShadowAction → Set Addr → Prop
  | .poison beg size, A => PoisonExact A beg size
  | .unpoison beg size, A => UnpoisonExact A beg size
  | .register g, A =>
      if g.size = g.sizeWithRedzone then UnpoisonExact A g.beg g.size
      else PoisonExact A g.beg g.sizeWithRedzone
  | .unregister g, A => PoisonExact A g.beg g.sizeWithRedzone

/-- The bytes the program may access, as the shadow encodes them. -/
def addressableBytes (m : Memory) : Set Addr := {b | AsanAddressable m b}

@[simp] theorem mem_addressableBytes {m : Memory} {b : Addr} :
    b ∈ addressableBytes m ↔ AsanAddressable m b := Iff.rfl

/-! ### One operation -/

section Actions

variable {beg size : Addr}

theorem SharesHead.not_inRegion {b : Addr} (hhead : SharesHead beg b) : ¬ InRegion beg size b :=
  fun hin => Nat.not_lt.mpr hin.1 hhead.2

theorem SharesTail.not_inRegion {b : Addr} (htail : SharesTail beg size b) :
    ¬ InRegion beg size b :=
  fun hin => Nat.not_lt.mpr htail.1 hin.2

/-- An operation gives the bytes of the grains it touches by `P` and is meant to do so for those of
the region only. The difference is at the two ends. -/
theorem eq_iff_of_asanTouches (beg size : Addr) {A F G : Set Addr} {P : Addr → Prop}
    (hF : ∀ b, b ∈ F ↔ if AsanTouches beg size b then P b else b ∈ A)
    (hin : ∀ b, InRegion beg size b → (b ∈ G ↔ P b))
    (hout : ∀ b, ¬ InRegion beg size b → (b ∈ G ↔ b ∈ A)) :
    F = G ↔ (size.toNat ≠ 0 →
      ∀ b, SharesHead beg b ∨ SharesTail beg size b → (P b ↔ b ∈ A)) := by
  rw [Set.ext_iff]
  constructor
  · intro heq hsize b hshares
    have htouch := (asanTouches_iff b).mpr ⟨Nat.pos_of_ne_zero hsize, Or.inr hshares⟩
    have hnot : ¬ InRegion beg size b :=
      hshares.elim SharesHead.not_inRegion SharesTail.not_inRegion
    have hb := heq b
    rwa [hF, if_pos htouch, hout b hnot] at hb
  · intro hends b
    rw [hF]
    by_cases htouch : AsanTouches beg size b
    · rw [if_pos htouch]
      obtain ⟨hsize, hregion | hshares⟩ := (asanTouches_iff b).mp htouch
      · exact (hin b hregion).symm
      · have hnot : ¬ InRegion beg size b :=
          hshares.elim SharesHead.not_inRegion SharesTail.not_inRegion
        rw [hout b hnot]
        exact hends (Nat.pos_iff_ne_zero.mp hsize) b hshares
    · rw [if_neg htouch, hout b (mt InRegion.asanTouches htouch)]

theorem poisonExact_iff {A : Set Addr} {P : Addr → Prop} (hheads : ∀ b, SharesHead beg b → P b)
    (htails : ∀ b, SharesTail beg size b → ¬ P b) :
    (size.toNat ≠ 0 → ∀ b, SharesHead beg b ∨ SharesTail beg size b → (P b ↔ b ∈ A)) ↔
      PoisonExact A beg size := by
  rw [PoisonExact]
  apply imp_congr_right
  intro _
  constructor
  · intro hends
    exact ⟨fun b hhead => (hends b (Or.inl hhead)).mp (hheads b hhead),
      fun b htail hb => htails b htail ((hends b (Or.inr htail)).mpr hb)⟩
  · rintro ⟨hin, hout⟩ b (hhead | htail)
    · exact iff_of_true (hheads b hhead) (hin b hhead)
    · exact iff_of_false (htails b htail) (hout b htail)

variable (m : Memory)

theorem addressableBytes_asanPoisonRange {val : BitVec 8}
    (hfit : beg.toNat + size.toNat ≤ 2 ^ 50 - 8) (hval : 8 ≤ val.toNat) :
    addressableBytes (asanPoisonRange m beg size val) =
        addressableBytes m \ {b | InRegion beg size b} ↔
      PoisonExact (addressableBytes m) beg size := by
  rw [eq_iff_of_asanTouches beg size (F := addressableBytes (asanPoisonRange m beg size val))
    (A := addressableBytes m) (asanAddressable_asanPoisonRange m hfit hval)]
  · apply poisonExact_iff
    · exact fun b hhead => hhead
    · intro b htail hhead
      have hlow := htail.1
      have hhigh := hhead.2
      omega
  · intro b hin
    exact iff_of_false (fun hb => hb.2 hin) fun hhead => SharesHead.not_inRegion hhead hin
  · intro b hout
    exact and_iff_left hout

theorem addressableBytes_asanUnpoisonRange (hfit : beg.toNat + size.toNat ≤ 2 ^ 50 - 8) :
    addressableBytes (asanUnpoisonRange m beg size) =
        addressableBytes m ∪ {b | InRegion beg size b} ↔
      UnpoisonExact (addressableBytes m) beg size := by
  rw [eq_iff_of_asanTouches beg size (A := addressableBytes m) (P := fun _ => True)]
  · simp [UnpoisonExact]
  · intro b
    rw [mem_addressableBytes, asanAddressable_asanUnpoisonRange m hfit]
    split <;> simp_all
  · intro b hin
    exact iff_of_true (Or.inr hin) trivial
  · intro b hout
    exact or_iff_left hout

/-- A global with a redzone: the bytes before the redzone can be accessed in every grain touched. -/
theorem asanAddressable_asanRegisterGlobal {g : AsanGlobal}
    (hred : g.size.toNat < g.sizeWithRedzone.toNat)
    (hfit : g.beg.toNat + g.sizeWithRedzone.toNat ≤ 2 ^ 50 - 8) (b : Addr) :
    AsanAddressable (asanRegisterGlobal m g) b ↔
      if AsanTouches g.beg g.sizeWithRedzone b then b.toNat < g.beg.toNat + g.size.toNat
      else AsanAddressable m b := by
  have hend : (g.beg + g.size).toNat = g.beg.toNat + g.size.toNat := by
    rw [BitVec.toNat_add]
    omega
  have hrest : (g.sizeWithRedzone - g.size).toNat = g.sizeWithRedzone.toNat - g.size.toNat := by
    rw [BitVec.toNat_sub]
    omega
  rw [asanRegisterGlobal, asanAddressable_asanPoisonRange _ (by omega) (by decide),
    asanAddressable_asanUnpoisonRange _ (by omega)]
  simp only [AsanTouches, asanGrain, hend, hrest]
  split_ifs <;> grind

theorem addressableBytes_asanRegisterGlobal {g : AsanGlobal}
    (hle : g.size.toNat ≤ g.sizeWithRedzone.toNat)
    (hfit : g.beg.toNat + g.sizeWithRedzone.toNat ≤ 2 ^ 50 - 8) :
    addressableBytes (asanRegisterGlobal m g) =
        ShadowAction.onBytes (addressableBytes m) (.register g) ↔
      ShadowAction.Exact (.register g) (addressableBytes m) := by
  have hend : (g.beg + g.size).toNat = g.beg.toNat + g.size.toNat := by
    rw [BitVec.toNat_add]
    omega
  have hrest : (g.sizeWithRedzone - g.size).toNat = g.sizeWithRedzone.toNat - g.size.toNat := by
    rw [BitVec.toNat_sub]
    omega
  rw [ShadowAction.onBytes, ShadowAction.Exact]
  by_cases hsame : g.size = g.sizeWithRedzone
  · have hnone :
        {b | InRegion (g.beg + g.size) (g.sizeWithRedzone - g.size) b} = (∅ : Set Addr) := by
      ext b
      rw [Set.mem_ofPred_eq, InRegion, hrest, hsame]
      simp
    rw [if_pos hsame, hnone, Set.sdiff_empty, asanRegisterGlobal, hsame, sub_self, asanPoisonRange,
      if_pos rfl]
    exact addressableBytes_asanUnpoisonRange m hfit
  · have hred : g.size.toNat < g.sizeWithRedzone.toNat :=
      lt_of_le_of_ne hle (mt BitVec.eq_of_toNat_eq hsame)
    rw [if_neg hsame, eq_iff_of_asanTouches g.beg g.sizeWithRedzone
      (F := addressableBytes (asanRegisterGlobal m g)) (A := addressableBytes m)
      (asanAddressable_asanRegisterGlobal m hred hfit)]
    · apply poisonExact_iff
      · intro b hhead
        exact Nat.lt_add_right _ hhead.2
      · intro b htail
        have hlow := htail.1
        omega
    · intro b hin
      simp only [InRegion] at hin
      simp only [Set.mem_sdiff, Set.mem_union, Set.mem_ofPred_eq, InRegion, hend, hrest]
      omega
    · intro b hout
      simp only [InRegion] at hout
      simp only [Set.mem_sdiff, Set.mem_union, Set.mem_ofPred_eq, InRegion, hend, hrest]
      constructor
      · rintro ⟨hb | hb, -⟩
        · exact hb
        · omega
      · intro hb
        exact ⟨Or.inl hb, by omega⟩

/-- **One operation** does to the set of accessible bytes what it is for exactly when the bytes
that share a grain with its region are as it is going to leave them. -/
theorem addressableBytes_onShadow {a : ShadowAction} (hfit : a.Fits) :
    addressableBytes (a.onShadow m) = a.onBytes (addressableBytes m) ↔
      a.Exact (addressableBytes m) := by
  cases a with
  | poison beg size => exact addressableBytes_asanPoisonRange m hfit (by decide)
  | unpoison beg size => exact addressableBytes_asanUnpoisonRange m hfit
  | register g => exact addressableBytes_asanRegisterGlobal m hfit.1 hfit.2
  | unregister g => exact addressableBytes_asanPoisonRange m hfit (by decide)

end Actions

/-! ### Runs of calls -/

section Runs

variable {s : AsanState} {calls : List AsanCall}

def actionsOnShadow (m : Memory) (actions : List ShadowAction) : Memory :=
  actions.foldl ShadowAction.onShadow m

def actionsOnBytes (A : Set Addr) (actions : List ShadowAction) : Set Addr :=
  actions.foldl ShadowAction.onBytes A

theorem asanCallStep_of_initialized (mmap : Mmap) (hinit : s.asanInitialized = true)
    (c : AsanCall) :
    asanCallStep mmap s c = { s with mem := actionsOnShadow s.mem c.actions } := by
  cases c with
  | poison addr size => rfl
  | unpoison addr size => rfl
  | onGlobals c =>
      rw [asanCallStep, globalsStep_eq, globalsEnter_of_initialized hinit]
      cases c <;> simp [AsanCall.actions, actionsOnShadow, List.foldl_map,
        GlobalsCall.isRegister, GlobalsCall.globals, globalsBody, ShadowAction.onShadow]

/-- After initialisation a run of calls is the run of their loop bodies. -/
theorem asanCallRun_of_initialized (mmap : Mmap) (hinit : s.asanInitialized = true) :
    asanCallRun mmap s calls =
      { s with mem := actionsOnShadow s.mem (calls.flatMap AsanCall.actions) } := by
  induction calls generalizing s with
  | nil => rfl
  | cons c rest ih =>
      rw [List.flatMap_cons, actionsOnShadow, List.foldl_append]
      calc
        asanCallRun mmap s (c :: rest) = asanCallRun mmap (asanCallStep mmap s c) rest := rfl
        _ = _ := by
          rw [asanCallStep_of_initialized mmap hinit]
          exact ih hinit

/-- **The hooks do what they are for** along a run of calls, one loop body after another, exactly
when every one of them finds the neighbours of its region in the state it leaves them in. The bytes
the calls are about decide that, not the shadow. -/
theorem asanCallRun_refines_iff (mmap : Mmap) (hinit : s.asanInitialized = true)
    (hfits : ∀ c ∈ calls, ∀ a ∈ c.actions, a.Fits) :
    (∀ before, before <+: calls →
      (asanCallRun mmap s before).mem = actionsOnShadow s.mem (before.flatMap AsanCall.actions)) ∧
    (FollowsAlong ShadowAction.onShadow ShadowAction.onBytes addressableBytes s.mem
        (calls.flatMap AsanCall.actions) ↔
      ExactAlong ShadowAction.onBytes ShadowAction.Exact (addressableBytes s.mem)
        (calls.flatMap AsanCall.actions)) := by
  constructor
  · intro before _
    rw [asanCallRun_of_initialized mmap hinit]
  · apply followsAlong_iff
    intro m a ha
    obtain ⟨c, hc, hac⟩ := List.mem_flatMap.mp ha
    exact addressableBytes_onShadow m (hfits c hc a hac)

end Runs

/-- Regions that start and end between grains have no neighbours in them. -/
theorem PoisonExact.of_aligned (A : Set Addr) {beg size : Addr} (hbeg : beg.toNat % 8 = 0)
    (hend : (beg.toNat + size.toNat) % 8 = 0) : PoisonExact A beg size := by
  intro hsize
  constructor
  · rintro b ⟨hgrain, hlt⟩
    rw [asanGrain, asanGrain] at hgrain
    omega
  · rintro b ⟨hle, hgrain⟩
    rw [asanGrain] at hgrain
    omega

theorem UnpoisonExact.of_aligned (A : Set Addr) {beg size : Addr} (hbeg : beg.toNat % 8 = 0)
    (hend : (beg.toNat + size.toNat) % 8 = 0) : UnpoisonExact A beg size := by
  rintro hsize b (⟨hgrain, hlt⟩ | ⟨hle, hgrain⟩)
  · rw [asanGrain, asanGrain] at hgrain
    omega
  · rw [asanGrain] at hgrain
    omega

/-- Two grains taken away, and the first one given back. -/
def twoGrainCalls : List AsanCall := [.poison 0x1000 16, .unpoison 0x1000 8]

theorem twoGrainCalls_fit : ∀ c ∈ twoGrainCalls, ∀ a ∈ c.actions, a.Fits := by
  simp [twoGrainCalls, AsanCall.actions, ShadowAction.Fits]

theorem twoGrainCalls_exact (A : Set Addr) :
    ExactAlong ShadowAction.onBytes ShadowAction.Exact A
      (twoGrainCalls.flatMap AsanCall.actions) :=
  ⟨PoisonExact.of_aligned A (by decide) (by decide),
    UnpoisonExact.of_aligned _ (by decide) (by decide), trivial⟩

theorem twoGrainCalls_followed :
    FollowsAlong ShadowAction.onShadow ShadowAction.onBytes addressableBytes (fun _ => 0)
      (twoGrainCalls.flatMap AsanCall.actions) :=
  (asanCallRun_refines_iff (s := ⟨fun _ => 0, true⟩) grantingMmap rfl
    twoGrainCalls_fit).2.mpr (twoGrainCalls_exact _)

/-! ### The check -/

/-- The bytes an armed check answers for: those of the access when it stays in one grain, those of
the whole first grain when it does not. -/
def CheckedByte (addr size b : Addr) : Prop :=
  if addr.toNat % 8 + size.toNat ≤ 8 then InRegion addr size b else asanGrain b = asanGrain addr

theorem asanCheckAccess_eq_none_iff_bytes {s : AsanState} (hinit : s.asanInitialized = true)
    {addr size : Addr} (hsize : 1 ≤ size.toNat) (hbig : size.toNat ≤ 2 ^ 63) (isWrite : Bool) :
    asanCheckAccess s addr size isWrite = none ↔
      ∀ b, CheckedByte addr size b → b ∈ addressableBytes s.mem := by
  have hsum : (addr.toNat % 8 + size.toNat) % 2 ^ 64 = addr.toNat % 8 + size.toNat := by omega
  rw [asanCheckAccess_eq_none_iff hinit, hsum]
  by_cases hone : addr.toNat % 8 + size.toNat ≤ 8
  · simp only [CheckedByte, if_pos hone, mem_addressableBytes]
    constructor
    · intro hsilent b hin
      have hgrain : asanGrain b = asanGrain addr := by
        rw [asanGrain, asanGrain]
        rw [InRegion] at hin
        omega
      rw [AsanAddressable, asanShadowGet_congr _ hgrain]
      apply hsilent.imp_right
      rintro ⟨hpos, hseven, hle⟩
      rw [InRegion] at hin
      exact ⟨hpos, hseven, by omega⟩
    · intro hbytes
      have hlast : addr.toNat % 8 + (size.toNat - 1) < 8 := by omega
      have haddr := hbytes (accessByte addr (size.toNat - 1)) (by
        rw [InRegion, accessByte, toNat_add_of_lt_grain hlast]
        omega)
      rw [AsanAddressable, asanShadowGet_accessByte_of_lt _ hlast, accessByte_mod_of_lt hlast]
        at haddr
      apply haddr.imp_right
      rintro ⟨hpos, hseven, hlt⟩
      exact ⟨hpos, hseven, by omega⟩
  · simp only [CheckedByte, if_neg hone, mem_addressableBytes]
    constructor
    · rintro (hclean | ⟨-, hseven, hle⟩) b hgrain
      · rw [AsanAddressable, asanShadowGet_congr _ hgrain]
        exact Or.inl hclean
      · omega
    · intro hbytes
      have hlast : addr.toNat % 8 + (7 - addr.toNat % 8) < 8 := by omega
      have haddr := hbytes (accessByte addr (7 - addr.toNat % 8)) (asanGrain_add_of_lt hlast)
      rw [AsanAddressable, asanShadowGet_accessByte_of_lt _ hlast, accessByte_mod_of_lt hlast]
        at haddr
      apply haddr.imp_right
      rintro ⟨hpos, hseven, hlt⟩
      omega

/-- **Verdicts.** After a run of exact calls a check of any size reports an access exactly when it
answers for a byte that the calls took away and did not give back. -/
theorem asanCheckAccess_after_exact {mmap : Mmap} {s : AsanState}
    (hinit : s.asanInitialized = true) {calls : List AsanCall}
    (hfits : ∀ c ∈ calls, ∀ a ∈ c.actions, a.Fits)
    (hexact : ExactAlong ShadowAction.onBytes ShadowAction.Exact (addressableBytes s.mem)
      (calls.flatMap AsanCall.actions))
    {addr size : Addr} (hsize : 1 ≤ size.toNat) (hbig : size.toNat ≤ 2 ^ 63) (isWrite : Bool) :
    asanCheckAccess (asanCallRun mmap s calls) addr size isWrite ≠ none ↔
      ∃ b, CheckedByte addr size b ∧
        b ∉ actionsOnBytes (addressableBytes s.mem) (calls.flatMap AsanCall.actions) := by
  have hfollows : FollowsAlong ShadowAction.onShadow ShadowAction.onBytes addressableBytes s.mem
      (calls.flatMap AsanCall.actions) := by
    refine (followsAlong_iff fun m a ha => ?_).mpr hexact
    obtain ⟨c, hc, hac⟩ := List.mem_flatMap.mp ha
    exact addressableBytes_onShadow m (hfits c hc a hac)
  have hmem : addressableBytes (asanCallRun mmap s calls).mem =
      actionsOnBytes (addressableBytes s.mem) (calls.flatMap AsanCall.actions) := by
    rw [asanCallRun_of_initialized mmap hinit]
    exact hfollows.eq
  have hstill : (asanCallRun mmap s calls).asanInitialized = true := by
    rw [asanCallRun_of_initialized mmap hinit]
    exact hinit
  rw [Ne, asanCheckAccess_eq_none_iff_bytes hstill hsize hbig, hmem]
  simp

theorem asanCheckAccess_after_twoGrainCalls :
    asanCheckAccess (asanCallRun (fun _ _ _ _ _ => none) ⟨fun _ => 0, true⟩ twoGrainCalls) 0x1008 8
      true ≠ none := by
  apply (asanCheckAccess_after_exact rfl twoGrainCalls_fit (twoGrainCalls_exact _) (by decide)
    (by decide) true).mpr
  refine ⟨0x1008, by simp [CheckedByte, InRegion], ?_⟩
  simp [twoGrainCalls, AsanCall.actions, actionsOnBytes, ShadowAction.onBytes, InRegion]

end Misan
