import Misan.AsanFakeStack
import Misan.Foundation.Slots
import Misan.Proof.AsanWindow

/-!
# Isolation of fake-stack slots

Two things keep allocations apart. The flags do whatever the sizes: no slot has two owners. The
shadow is kept apart by the regions only, which nothing compares with the slot: as long as a slot is
claimed with a region that meets no other, every store of the range loops lands in the shadow of its
own slot, and what an allocation has unpoisoned stays so until it is freed.
-/

namespace Misan

open ByteMemory

/-! ### The range operations, store by store -/

theorem storeAll_asanUnpoisonStores (m : Memory) (beg size : Addr) :
    m.storeAll (asanUnpoisonStores beg size) = asanUnpoisonRange m beg size := by
  rw [asanUnpoisonStores, asanUnpoisonRange]
  split
  · rfl
  · exact storeAll_pointerStores ..

theorem storeAll_asanPoisonStores (m : Memory) (beg size : Addr) (val : Byte) :
    m.storeAll (asanPoisonStores beg size val) = asanPoisonRange m beg size val := by
  rw [asanPoisonStores, asanPoisonRange]
  split
  · rfl
  · dsimp only
    rw [storeAll_append, storeAll_pointerStores]
    split <;> rfl

section Stores

variable {beg size : Addr} {val : Byte} {st : Addr × Byte}

/-- The pointer loop of either range operation stays in the shadow of its region. -/
theorem mem_asanRegionShadow_of_mem_pointerStores (hsize : 1 ≤ size.toNat)
    (hfit : beg.toNat + size.toNat ≤ 2 ^ 50 - 8)
    (hst : st ∈ pointerStores (asanMemToShadow beg) (asanMemToShadow (beg + size - 1) + 1) val) :
    st.1 ∈ asanRegionShadow beg size := by
  rw [← asanLoopRange_eq hsize hfit]
  exact le_and_lt_of_mem_pointerStores hst

theorem mem_asanRegionShadow_of_mem_unpoisonStores (hfit : beg.toNat + size.toNat ≤ 2 ^ 50 - 8)
    (hst : st ∈ asanUnpoisonStores beg size) : st.1 ∈ asanRegionShadow beg size := by
  rw [asanUnpoisonStores] at hst
  split at hst
  · cases hst
  · next hsize => exact mem_asanRegionShadow_of_mem_pointerStores (toNat_pos_of_ne hsize) hfit hst

theorem mem_asanRegionShadow_of_mem_poisonStores (hfit : beg.toNat + size.toNat ≤ 2 ^ 50 - 8)
    (hst : st ∈ asanPoisonStores beg size val) : st.1 ∈ asanRegionShadow beg size := by
  rw [asanPoisonStores] at hst
  split at hst
  · cases hst
  · next hsize =>
      have hpos := toNat_pos_of_ne hsize
      rcases List.mem_append.mp hst with hloop | hfirst
      · exact mem_asanRegionShadow_of_mem_pointerStores hpos hfit hloop
      · split at hfirst
        · obtain rfl := List.mem_singleton.mp hfirst
          have hhead : asanMemToShadow (beg &&& ~~~asanShadowMask) = asanMemToShadow beg :=
            asanMemToShadow_congr (asanGrain_and_not_asanShadowMask beg)
          rw [hhead]
          exact asanRegionShadow_first hpos
        · cases hfirst

end Stores

/-! ### The array -/

/-- Where the linker may place the array: at the alignment of a `size_t`, inside the window. -/
structure FakeStackBase (base : Addr) : Prop where
  aligned : base.toNat % 8 = 0
  below : base.toNat + asanFakeStackStride * asanFakeStackCount ≤ 2 ^ 50 - 8

theorem toNat_fakeStackMem {base : Addr} (hbase : FakeStackBase base) (i : FakeStackIdx) :
    (fakeStackMem base i).toNat = base.toNat + asanFakeStackStride * i := by
  have hi := i.isLt
  have hbelow := hbase.below
  simp only [asanFakeStackStride, asanFakeStackSize, asanFakeStackCount] at hi hbelow ⊢
  rw [fakeStackMem, BitVec.toNat_add, BitVec.toNat_ofNat, asanFakeStackStride, asanFakeStackSize]
  omega

theorem fakeStackMem_aligned {base : Addr} (haligned : base.toNat % 8 = 0) (i : FakeStackIdx) :
    (fakeStackMem base i).toNat % 8 = 0 := by
  rw [fakeStackMem, BitVec.toNat_add, BitVec.toNat_ofNat, asanFakeStackStride, asanFakeStackSize]
  omega

namespace FakeStackUse

def Covers (base : Addr) (u : FakeStackUse) (x : Addr) : Prop :=
  InRegion (fakeStackMem base u.slot) u.size x

def shadow (base : Addr) (u : FakeStackUse) : Set Addr :=
  asanRegionShadow (fakeStackMem base u.slot) u.size

def Fits (base : Addr) (u : FakeStackUse) : Prop :=
  (fakeStackMem base u.slot).toNat + u.size.toNat ≤ 2 ^ 50 - 8

def Apart (base : Addr) (u v : FakeStackUse) : Prop := ∀ x, u.Covers base x → ¬ v.Covers base x

/-- Regions that begin with a grain and share no byte share no grain. -/
theorem Apart.shadow_apart {base : Addr} (haligned : base.toNat % 8 = 0) {u v : FakeStackUse}
    (hapart : u.Apart base v) (hu : u.Fits base) : ∀ a ∈ u.shadow base, a ∉ v.shadow base := by
  rintro _ ⟨x, hx, rfl⟩ ⟨y, hy, heq⟩
  have hualigned := fakeStackMem_aligned haligned u.slot
  have hvaligned := fakeStackMem_aligned haligned v.slot
  rw [Fits] at hu
  obtain ⟨hxlow, hxhigh⟩ := hx
  obtain ⟨hylow, hyhigh⟩ := hy
  have hgrain : asanGrain y = asanGrain x := (asanMemToShadow_inj_of_lt (by omega)).mp heq
  rw [asanGrain, asanGrain] at hgrain
  have hfirst : (x &&& ~~~asanShadowMask).toNat = x.toNat / 8 * 8 :=
    toNat_and_not_asanShadowMask x
  apply hapart (x &&& ~~~asanShadowMask)
  · rw [Covers, InRegion, hfirst]
    omega
  · rw [Covers, InRegion, hfirst]
    omega

end FakeStackUse

/-! ### Steps -/

variable {Alloc : Type} {base : Addr} {s s' : FakeStacks Alloc} {a b : Alloc} {u v : FakeStackUse}
  {m m' : Memory} {p : FakeStackPhase} {act : FakeStackAct Alloc}
  {history : List (FakeStackAct Alloc)}

namespace FakeStacks

def uses (s : FakeStacks Alloc) (a : Alloc) : Option FakeStackUse := (s.phase a).use?

theorem uses_of_phase (hphase : s.phase a = p) : s.uses a = p.use? :=
  congrArg FakeStackPhase.use? hphase

variable [DecidableEq Alloc]

/-- What an action can do. -/
inductive Move (base : Addr) (s : FakeStacks Alloc) :
    FakeStackAct Alloc → FakeStacks Alloc → Prop where
  | call {a : Alloc} {size : Addr} (hphase : s.phase a = .idle) :
      Move base s (.alloc a size) (s.enter a (.scanning 0 size))
  | pass {a : Alloc} {i : Nat} {size : Addr} (hphase : s.phase a = .scanning i size) :
      Move base s (.step a) (s.enter a (.scanning (i + 1) size))
  | fail {a : Alloc} {i : Nat} {size : Addr} (hphase : s.phase a = .scanning i size) :
      Move base s (.step a) (s.enter a .idle)
  | claim {a : Alloc} {u : FakeStackUse} (hphase : s.phase a = .scanning u.slot u.size)
      (hdown : s.inUse u.slot = false) : Move base s (.step a) (s.claim base a u)
  | unpoison {a : Alloc} {u : FakeStackUse} {st : Addr × Byte} {stores : List (Addr × Byte)}
      (hphase : s.phase a = .unpoisoning u (st :: stores)) :
      Move base s (.step a) ((s.enter a (.unpoisoning u stores)).store st)
  | hold {a : Alloc} {u : FakeStackUse} (hphase : s.phase a = .unpoisoning u []) :
      Move base s (.step a) (s.enter a (.held u))
  | free {a : Alloc} {u : FakeStackUse} (hphase : s.phase a = .held u) :
      Move base s (.free a) (s.enter a (.poisoning u
        (asanPoisonStores (fakeStackMem base u.slot) u.size asanShadowStackLeft)))
  | poison {a : Alloc} {u : FakeStackUse} {st : Addr × Byte} {stores : List (Addr × Byte)}
      (hphase : s.phase a = .poisoning u (st :: stores)) :
      Move base s (.step a) ((s.enter a (.poisoning u stores)).store st)
  | release {a : Alloc} {u : FakeStackUse} (hphase : s.phase a = .poisoning u []) :
      Move base s (.step a) (s.release a u)

end FakeStacks

variable [DecidableEq Alloc]

theorem fakeStackStep_move (h : fakeStackStep base s act = some s') : s.Move base act s' := by
  cases act with
  | alloc a size =>
      rw [fakeStackStep] at h
      split at h
      · next hphase =>
          cases h
          exact .call hphase
      · cases h
  | free a =>
      rw [fakeStackStep] at h
      split at h
      · next hphase =>
          cases h
          exact .free hphase
      · cases h
  | step a =>
      rw [fakeStackStep] at h
      split at h
      · next i size hphase =>
          split at h
          · next hi =>
              split at h
              · cases h
                exact .pass hphase
              · next hdown =>
                  cases h
                  have hslot : s.inUse ⟨i, hi⟩ = false := eq_false_of_ne_true hdown
                  exact .claim (u := ⟨⟨i, hi⟩, size⟩) hphase hslot
          · cases h
            exact .fail hphase
      · next hphase =>
          cases h
          exact .hold hphase
      · next hphase =>
          cases h
          exact .unpoison hphase
      · next hphase =>
          cases h
          exact .release hphase
      · next hphase =>
          cases h
          exact .poison hphase
      · cases h

/-! ### The flags -/

namespace FakeStacks

theorem uses_enter (s : FakeStacks Alloc) (a : Alloc) (p : FakeStackPhase) :
    (s.enter a p).uses = Function.update s.uses a p.use? := by
  funext b
  by_cases hb : b = a <;> simp [uses, enter, hb]

theorem uses_claim (base : Addr) (s : FakeStacks Alloc) (a : Alloc) (u : FakeStackUse) :
    (s.claim base a u).uses = Function.update s.uses a (some u) := uses_enter ..

theorem uses_release (s : FakeStacks Alloc) (a : Alloc) (u : FakeStackUse) :
    (s.release a u).uses = Function.update s.uses a none := uses_enter ..

/-- Only the exchange and the last store of a free change who uses what. -/
theorem uses_enter_of_eq {q : FakeStackPhase} (hphase : s.phase a = p)
    (huse : q.use? = p.use?) : (s.enter a q).uses = s.uses := by
  rw [uses_enter, huse, ← uses_of_phase hphase, Function.update_eq_self]

end FakeStacks

/-- A slot in use has its flag raised and one owner. -/
def FakeStacksGuarded (s : FakeStacks Alloc) : Prop :=
  Guarded FakeStackUse.slot s.inUse s.uses

theorem FakeStacksGuarded.enter {q : FakeStackPhase} (h : FakeStacksGuarded s)
    (hphase : s.phase a = p) (huse : q.use? = p.use?) : FakeStacksGuarded (s.enter a q) := by
  rw [FakeStacksGuarded, FakeStacks.uses_enter_of_eq hphase huse]
  exact h

theorem FakeStacksGuarded.move (h : FakeStacksGuarded s) (hmove : s.Move base act s') :
    FakeStacksGuarded s' := by
  cases hmove with
  | call hphase => exact h.enter hphase rfl
  | pass hphase => exact h.enter hphase rfl
  | fail hphase => exact h.enter hphase rfl
  | claim hphase hdown =>
      rw [FakeStacksGuarded, FakeStacks.uses_claim]
      exact Guarded.claim h hdown
  | unpoison hphase => exact h.enter hphase rfl
  | hold hphase => exact h.enter hphase rfl
  | free hphase => exact h.enter hphase rfl
  | poison hphase => exact h.enter hphase rfl
  | release hphase =>
      rw [FakeStacksGuarded, FakeStacks.uses_release]
      exact Guarded.release h (FakeStacks.uses_of_phase hphase)

theorem fakeStackRun_guarded (h : fakeStackRun base m history = some s) :
    FakeStacksGuarded s := by
  have hinit : FakeStacksGuarded (.initial Alloc m) := Guarded.empty ..
  refine runFrom_invariant (P := fun _ _ => True) hinit ?_ ?_ h
  · intro s₁ act s₂ hguarded _ hstep
    exact hguarded.move (fakeStackStep_move hstep)
  · intro act before s₁ _ _
    trivial

/-! ### The shadow -/

/-- The stores left to an allocation lie in the shadow of its region. Until it is freed, they leave
zeros there. -/
def FakeStackPhase.Ok (base : Addr) (m : Memory) : FakeStackPhase → Prop
  | unpoisoning u stores => u.Fits base ∧ (∀ st ∈ stores, st.1 ∈ u.shadow base) ∧
      ∀ x ∈ u.shadow base, m.storeAll stores x = 0
  | held u => u.Fits base ∧ ∀ x ∈ u.shadow base, m x = 0
  | poisoning u stores => u.Fits base ∧ ∀ st ∈ stores, st.1 ∈ u.shadow base
  | _ => True

namespace FakeStackPhase

theorem Ok.fits (h : p.Ok base m) (huse : p.use? = some u) : u.Fits base := by
  cases p with
  | idle => cases huse
  | scanning i size => cases huse
  | unpoisoning v stores =>
      cases huse
      exact h.1
  | held v =>
      cases huse
      exact h.1
  | poisoning v stores =>
      cases huse
      exact h.1

theorem Ok.frame (h : p.Ok base m)
    (hsame : ∀ u, p.use? = some u → ∀ x ∈ u.shadow base, m x = m' x) : p.Ok base m' := by
  cases p with
  | idle => trivial
  | scanning i size => trivial
  | unpoisoning u stores =>
      obtain ⟨hfits, hwithin, hzero⟩ := h
      refine ⟨hfits, hwithin, fun x hx => ?_⟩
      rw [← storeAll_congr (hsame u rfl x hx)]
      exact hzero x hx
  | held u =>
      obtain ⟨hfits, hzero⟩ := h
      refine ⟨hfits, fun x hx => ?_⟩
      rw [← hsame u rfl x hx]
      exact hzero x hx
  | poisoning u stores => exact h

theorem Ok.claimed (hfits : u.Fits base) (m : Memory) :
    (unpoisoning u (asanUnpoisonStores (fakeStackMem base u.slot) u.size)).Ok base m := by
  refine ⟨hfits, fun st hst => mem_asanRegionShadow_of_mem_unpoisonStores hfits hst, ?_⟩
  rintro _ ⟨x, hx, rfl⟩
  have hshadow := asanShadowGet_asanUnpoisonRange m hfits x
  rw [if_pos hx.asanTouches] at hshadow
  rw [storeAll_asanUnpoisonStores]
  exact hshadow

theorem Ok.freed (h : (held u).Ok base m) (m' : Memory) :
    (poisoning u (asanPoisonStores (fakeStackMem base u.slot) u.size asanShadowStackLeft)).Ok
      base m' :=
  ⟨h.1, fun _ hst => mem_asanRegionShadow_of_mem_poisonStores h.1 hst⟩

end FakeStackPhase

/-- The allocations in use, each in the shadow of its own region. -/
structure FakeStacksApart (base : Addr) (s : FakeStacks Alloc) : Prop where
  phases : ∀ a, (s.phase a).Ok base s.mem
  apart : ∀ a b u v, a ≠ b → s.uses a = some u → s.uses b = some v →
    ∀ x ∈ u.shadow base, x ∉ v.shadow base

/-- Room for what `a` claims next: a region inside the window that meets no region in use. -/
def FakeStackRoom (base : Addr) (s : FakeStacks Alloc) (a : Alloc) : Prop :=
  ∀ u : FakeStackUse, s.phase a = .scanning u.slot u.size → s.inUse u.slot = false →
    u.Fits base ∧ ∀ b v, s.uses b = some v → u.Apart base v

namespace FakeStacksApart

omit [DecidableEq Alloc] in
theorem initial (base : Addr) (m : Memory) : FakeStacksApart base (.initial Alloc m) where
  phases _ := trivial
  apart a b u v _ hu := by cases hu

omit [DecidableEq Alloc] in
theorem ok (h : FakeStacksApart base s) (hphase : s.phase a = p) : p.Ok base s.mem :=
  hphase ▸ h.phases a

theorem phases_update {f : Alloc → FakeStackPhase} {q : FakeStackPhase} (hq : q.Ok base m)
    (hothers : ∀ b ≠ a, (f b).Ok base m) : ∀ b, (Function.update f a q b).Ok base m :=
  (Function.forall_update_iff f fun _ p => p.Ok base m).mpr ⟨hq, hothers⟩

theorem enter {q : FakeStackPhase} (h : FakeStacksApart base s) (hphase : s.phase a = p)
    (huse : q.use? = p.use?) (hq : q.Ok base s.mem) : FakeStacksApart base (s.enter a q) where
  phases := phases_update hq fun b _ => h.phases b
  apart := by
    rw [FakeStacks.uses_enter_of_eq hphase huse]
    exact h.apart

theorem store {q : FakeStackPhase} {st : Addr × Byte} (h : FakeStacksApart base s)
    (hphase : s.phase a = p) (huse : q.use? = p.use?) (hu : p.use? = some u)
    (hst : st.1 ∈ u.shadow base) (hq : q.Ok base (s.mem.store st.1 st.2)) :
    FakeStacksApart base ((s.enter a q).store st) where
  phases := by
    apply phases_update hq
    intro b hb
    apply (h.phases b).frame
    intro v hv x hx
    have hapart := h.apart b a v u hb hv ((FakeStacks.uses_of_phase hphase).trans hu)
    have hne : x ≠ st.1 := by
      rintro rfl
      exact hapart _ hx hst
    exact (store_of_ne s.mem st.2 hne).symm
  apart := by
    have huses : ((s.enter a q).store st).uses = s.uses :=
      FakeStacks.uses_enter_of_eq hphase huse
    rw [huses]
    exact h.apart

theorem claim (haligned : base.toNat % 8 = 0) (h : FakeStacksApart base s) (hfits : u.Fits base)
    (hroom : ∀ b v, s.uses b = some v → u.Apart base v) :
    FakeStacksApart base (s.claim base a u) where
  phases := phases_update (.claimed hfits s.mem) fun b _ => h.phases b
  apart b c v w hne hv hw := by
    have hnew : ∀ {c w}, s.uses c = some w → ∀ x ∈ u.shadow base, x ∉ w.shadow base :=
      fun hw => (hroom _ _ hw).shadow_apart haligned hfits
    rw [FakeStacks.uses_claim] at hv hw
    obtain ⟨rfl, rfl⟩ | ⟨-, hvold⟩ := update_some_eq_some.mp hv
    · obtain ⟨rfl, -⟩ | ⟨-, hwold⟩ := update_some_eq_some.mp hw
      · exact absurd rfl hne
      · exact hnew hwold
    · obtain ⟨-, rfl⟩ | ⟨-, hwold⟩ := update_some_eq_some.mp hw
      · exact fun x hx hx' => hnew hvold x hx' hx
      · exact h.apart b c v w hne hvold hwold

theorem release (h : FakeStacksApart base s) : FakeStacksApart base (s.release a u) where
  phases := phases_update trivial fun b _ => h.phases b
  apart b c v w hne hv hw := by
    rw [FakeStacks.uses_release] at hv hw
    obtain ⟨-, hv⟩ := update_none_eq_some.mp hv
    obtain ⟨-, hw⟩ := update_none_eq_some.mp hw
    exact h.apart b c v w hne hv hw

/-- **One step** keeps the allocations apart, if there is room for what it claims. -/
theorem move (haligned : base.toNat % 8 = 0) (h : FakeStacksApart base s)
    (hroom : FakeStackRoom base s act.actor) (hmove : s.Move base act s') :
    FakeStacksApart base s' := by
  cases hmove with
  | call hphase => exact h.enter hphase rfl trivial
  | pass hphase => exact h.enter hphase rfl trivial
  | fail hphase => exact h.enter hphase rfl trivial
  | claim hphase hdown =>
      obtain ⟨hfits, hapart⟩ := hroom _ hphase hdown
      exact h.claim haligned hfits hapart
  | unpoison hphase =>
      obtain ⟨hfits, hwithin, hzero⟩ := h.ok hphase
      obtain ⟨hst, hstores⟩ := List.forall_mem_cons.mp hwithin
      exact h.store hphase rfl rfl hst ⟨hfits, hstores, hzero⟩
  | hold hphase =>
      have hok := h.ok hphase
      exact h.enter hphase rfl ⟨hok.1, hok.2.2⟩
  | free hphase => exact h.enter hphase rfl ((h.ok hphase).freed s.mem)
  | poison hphase =>
      obtain ⟨hfits, hwithin⟩ := h.ok hphase
      obtain ⟨hst, hstores⟩ := List.forall_mem_cons.mp hwithin
      exact h.store hphase rfl rfl hst ⟨hfits, hstores⟩
  | release hphase => exact h.release

end FakeStacksApart

theorem fakeStackRun_apart (haligned : base.toNat % 8 = 0)
    (hroom : EachStep (fakeStackStep base) (.initial Alloc m)
      (fun s act => FakeStackRoom base s act.actor) history)
    (h : fakeStackRun base m history = some s) : FakeStacksApart base s := by
  refine runFrom_invariant (FakeStacksApart.initial base m) ?_ hroom h
  intro s₁ act s₂ hapart hact hstep
  exact hapart.move haligned hact (fakeStackStep_move hstep)

/-! ### Sizes that stay inside their slot -/

def FakeStackAct.Small (act : FakeStackAct Alloc) : Prop :=
  ∀ a size, act = .alloc a size → size.toNat ≤ asanFakeStackStride

def FakeStackPhase.Small : FakeStackPhase → Prop
  | idle => True
  | scanning _ size => size.toNat ≤ asanFakeStackStride
  | unpoisoning u _ | held u | poisoning u _ => u.size.toNat ≤ asanFakeStackStride

theorem FakeStackPhase.Small.size_le (h : p.Small) (huse : p.use? = some u) :
    u.size.toNat ≤ asanFakeStackStride := by
  cases p with
  | idle => cases huse
  | scanning i size => cases huse
  | unpoisoning v stores =>
      cases huse
      exact h
  | held v =>
      cases huse
      exact h
  | poisoning v stores =>
      cases huse
      exact h

theorem FakeStacks.Move.small (hmove : s.Move base act s') (hact : act.Small)
    (h : ∀ a, (s.phase a).Small) : ∀ a, (s'.phase a).Small := by
  have hupdate : ∀ {a : Alloc} {p q : FakeStackPhase}, s.phase a = p → (p.Small → q.Small) →
      ∀ b, (Function.update s.phase a q b).Small := by
    intro a p q hphase hq
    have hp := h a
    rw [hphase] at hp
    exact (Function.forall_update_iff s.phase fun _ p => p.Small).mpr ⟨hq hp, fun b _ => h b⟩
  cases hmove with
  | call hphase => exact hupdate hphase fun _ => hact _ _ rfl
  | pass hphase => exact hupdate hphase id
  | fail hphase => exact hupdate hphase fun _ => trivial
  | claim hphase hdown => exact hupdate hphase id
  | unpoison hphase => exact hupdate hphase id
  | hold hphase => exact hupdate hphase id
  | free hphase => exact hupdate hphase id
  | poison hphase => exact hupdate hphase id
  | release hphase => exact hupdate hphase fun _ => trivial

omit [DecidableEq Alloc] in
/-- Different slots have room for small regions. -/
theorem FakeStackUse.apart_of_small (hbase : FakeStackBase base)
    (hu : u.size.toNat ≤ asanFakeStackStride) (hv : v.size.toNat ≤ asanFakeStackStride)
    (hslot : u.slot ≠ v.slot) : u.Apart base v := by
  intro x hx hx'
  rw [FakeStackUse.Covers, InRegion, toNat_fakeStackMem hbase] at hx hx'
  apply hslot
  apply Fin.ext
  simp only [asanFakeStackStride, asanFakeStackSize] at *
  omega

omit [DecidableEq Alloc] in
theorem FakeStacksGuarded.room_of_small (hbase : FakeStackBase base) (h : FakeStacksGuarded s)
    (hsmall : ∀ a, (s.phase a).Small) (a : Alloc) : FakeStackRoom base s a := by
  intro u hphase hdown
  have hu : u.size.toNat ≤ asanFakeStackStride := by
    have hscan := hsmall a
    rwa [hphase] at hscan
  constructor
  · have hslot := u.slot.isLt
    have hbelow := hbase.below
    rw [FakeStackUse.Fits, toNat_fakeStackMem hbase]
    simp only [asanFakeStackStride, asanFakeStackSize, asanFakeStackCount] at *
    omega
  · intro b v hv
    exact FakeStackUse.apart_of_small hbase hu ((hsmall b).size_le hv)
      (Ne.symm (Guarded.slot_ne h hdown hv))

theorem eachStep_room_of_small (hbase : FakeStackBase base)
    (hsmall : ∀ act ∈ history, FakeStackAct.Small act) :
    EachStep (fakeStackStep base) (.initial Alloc m)
      (fun s act => FakeStackRoom base s act.actor) history := by
  intro act before s hsuffix hs
  have hbefore : EachStep (fakeStackStep base) (.initial Alloc m)
      (fun _ act => FakeStackAct.Small act) before := by
    intro act' earlier s' hsuffix' _
    exact hsmall act' ((hsuffix'.trans ((List.suffix_cons act before).trans hsuffix)).mem
      (List.mem_cons_self ..))
  have hphases : ∀ a, (s.phase a).Small := by
    refine runFrom_invariant (I := fun s => ∀ a, (s.phase a).Small) (fun a => trivial) ?_ hbefore hs
    intro s₁ act' s₂ h hact hstep
    exact (fakeStackStep_move hstep).small hact h
  exact (fakeStackRun_guarded hs).room_of_small hbase hphases act.actor

/-! ### Calls that run alone -/

namespace FakeStacks

@[simp]
theorem phase_enter (s : FakeStacks Alloc) (a : Alloc) (p : FakeStackPhase) :
    (s.enter a p).phase a = p := Function.update_self ..

@[simp]
theorem enter_enter (s : FakeStacks Alloc) (a : Alloc) (p q : FakeStackPhase) :
    (s.enter a p).enter a q = s.enter a q := by
  simp [enter]

variable {P : FakeStackAct Alloc → Prop}

theorem stores_reaches (hgo : P (.step a)) {c : List (Addr × Byte) → FakeStackPhase}
    (hstep : ∀ (s : FakeStacks Alloc) st stores, s.phase a = c (st :: stores) →
      fakeStackStep base s (.step a) = some ((s.enter a (c stores)).store st))
    (stores : List (Addr × Byte)) (hphase : s.phase a = c stores) :
    ReachesBy (fakeStackStep base) P s { s.enter a (c []) with mem := s.mem.storeAll stores } := by
  induction stores generalizing s with
  | nil =>
      have hsame : s.enter a (c []) = s := by
        rw [enter, ← hphase, Function.update_eq_self]
      rw [hsame]
      exact .refl s
  | cons st stores ih =>
      have hrest := ih (s := (s.enter a (c stores)).store st) (phase_enter ..)
      rw [enter, store, enter, Function.update_idem] at hrest
      exact (ReachesBy.single hgo (hstep s st stores hphase)).trans hrest

/-- The scan passes the slots in use and takes the first that is not. -/
theorem scan_reaches (hgo : P (.step a)) {i : Nat} (hphase : s.phase a = .scanning i u.size)
    (hi : i ≤ u.slot)
    (hup : ∀ k : FakeStackIdx, i ≤ k → k < u.slot → s.inUse k = true)
    (hdown : s.inUse u.slot = false) :
    ReachesBy (fakeStackStep base) P s (s.claim base a u) := by
  have hlt := Nat.lt_of_le_of_lt hi u.slot.isLt
  obtain ⟨n, hn⟩ := Nat.exists_eq_add_of_le hi
  induction n generalizing s i with
  | zero =>
      have hslot : (⟨i, hlt⟩ : FakeStackIdx) = u.slot := Fin.ext hn.symm
      apply ReachesBy.single hgo
      simp only [fakeStackStep, hphase]
      rw [dif_pos hlt, hslot, hdown]
      rfl
  | succ n ih =>
      have hbefore : (⟨i, hlt⟩ : FakeStackIdx) < u.slot := Fin.lt_def.mpr (by simp only; omega)
      have hpass : fakeStackStep base s (.step a) =
          some (s.enter a (.scanning (i + 1) u.size)) := by
        simp only [fakeStackStep, hphase]
        rw [dif_pos hlt, if_pos (hup _ (Nat.le_refl i) hbefore)]
      have hrest := ih (s := s.enter a (.scanning (i + 1) u.size)) (phase_enter ..)
        (by omega) (fun k hk => hup k (by omega)) hdown (by omega) (by omega)
      rw [claim, enter_enter] at hrest
      exact (ReachesBy.single hgo hpass).trans hrest

/-- The state behind a whole `asan_fake_stack_alloc`. -/
def allocated (base : Addr) (s : FakeStacks Alloc) (a : Alloc) (u : FakeStackUse) :
    FakeStacks Alloc where
  mem := asanUnpoisonRange s.mem (fakeStackMem base u.slot) u.size
  inUse := Function.update s.inUse u.slot true
  phase := Function.update s.phase a (.held u)

def freed (base : Addr) (s : FakeStacks Alloc) (a : Alloc) (u : FakeStackUse) :
    FakeStacks Alloc where
  mem := asanPoisonRange s.mem (fakeStackMem base u.slot) u.size asanShadowStackLeft
  inUse := Function.update s.inUse u.slot false
  phase := Function.update s.phase a .idle

/-- **An allocation that runs alone** takes the first free slot and unpoisons its region. -/
theorem alloc_reaches (base : Addr) (halloc : P (.alloc a u.size)) (hgo : P (.step a))
    (hphase : s.phase a = .idle)
    (hup : ∀ k : FakeStackIdx, k < u.slot → s.inUse k = true) (hdown : s.inUse u.slot = false) :
    ReachesBy (fakeStackStep base) P s (s.allocated base a u) := by
  have hcall : fakeStackStep base s (.alloc a u.size) = some (s.enter a (.scanning 0 u.size)) := by
    simp only [fakeStackStep, hphase]
  have hscan : ReachesBy (fakeStackStep base) P (s.enter a (.scanning 0 u.size))
      ((s.enter a (.scanning 0 u.size)).claim base a u) :=
    scan_reaches hgo (phase_enter ..) (Nat.zero_le _) (fun k _ => hup k) hdown
  have hloop : ∀ (s : FakeStacks Alloc) st stores, s.phase a = .unpoisoning u (st :: stores) →
      fakeStackStep base s (.step a) = some ((s.enter a (.unpoisoning u stores)).store st) := by
    intro s st stores hphase
    simp only [fakeStackStep, hphase]
  have hstores := stores_reaches hgo hloop (s := s.claim base a u) _ (phase_enter ..)
  rw [claim, enter_enter] at hscan
  apply (ReachesBy.single halloc hcall).trans (hscan.trans (hstores.trans _))
  apply ReachesBy.single hgo
  simp [fakeStackStep, allocated, claim, enter, storeAll_asanUnpoisonStores]

/-- **A free that runs alone** poisons the region and gives the slot back. -/
theorem free_reaches (base : Addr) (hfree : P (.free a)) (hgo : P (.step a))
    (hphase : s.phase a = .held u) :
    ReachesBy (fakeStackStep base) P s (s.freed base a u) := by
  let stores := asanPoisonStores (fakeStackMem base u.slot) u.size asanShadowStackLeft
  have hcall : fakeStackStep base s (.free a) = some (s.enter a (.poisoning u stores)) := by
    simp only [fakeStackStep, hphase, stores]
  have hloop : ∀ (s : FakeStacks Alloc) st stores, s.phase a = .poisoning u (st :: stores) →
      fakeStackStep base s (.step a) = some ((s.enter a (.poisoning u stores)).store st) := by
    intro s st stores hphase
    simp only [fakeStackStep, hphase]
  have hstores := stores_reaches hgo hloop (s := s.enter a (.poisoning u stores)) _ (phase_enter ..)
  apply (ReachesBy.single hfree hcall).trans (hstores.trans _)
  apply ReachesBy.single hgo
  simp [fakeStackStep, freed, release, enter, stores, storeAll_asanPoisonStores]

end FakeStacks

/-! ### Isolation -/

/-- No slot has two owners, and every byte of a held region is addressable. -/
structure FakeStacksIsolated (base : Addr) (s : FakeStacks Alloc) : Prop where
  exclusive : ∀ a b u v, s.uses a = some u → s.uses b = some v → u.slot = v.slot → a = b
  addressable : ∀ a u, s.phase a = .held u → ∀ x, u.Covers base x → AsanAddressable s.mem x

omit [DecidableEq Alloc] in
theorem FakeStacksApart.isolated (h : FakeStacksApart base s) (hguarded : FakeStacksGuarded s) :
    FakeStacksIsolated base s where
  exclusive := hguarded.exclusive
  addressable a u hphase x hx := by
    obtain ⟨-, hzero⟩ := h.ok hphase
    exact Or.inl (hzero _ ⟨x, hx, rfl⟩)

/-- **Isolation**, in every run that has room for each region it claims. -/
theorem fakeStacks_isolated (haligned : base.toNat % 8 = 0)
    (hroom : EachStep (fakeStackStep base) (.initial Alloc m)
      (fun s act => FakeStackRoom base s act.actor) history)
    (h : fakeStackRun base m history = some s) : FakeStacksIsolated base s :=
  (fakeStackRun_apart haligned hroom h).isolated (fakeStackRun_guarded h)

/-- Three slots are taken, and the one in the middle is given back. -/
theorem fakeStacks_isolated_threeSlots :
    ∃ (history : List (FakeStackAct (Fin 3))) (s : FakeStacks (Fin 3)),
      fakeStackRun 0x100000 (fun _ => 0xF1) history = some s ∧
      s.phase 0 = .held ⟨0, 24⟩ ∧ s.phase 2 = .held ⟨2, 100⟩ ∧ s.inUse 1 = false ∧
      FakeStacksIsolated 0x100000 s := by
  let base : Addr := 0x100000
  let s₀ : FakeStacks (Fin 3) := .initial (Fin 3) fun _ => 0xF1
  let s₁ := s₀.allocated base 0 ⟨0, 24⟩
  let s₂ := s₁.allocated base 1 ⟨1, 8⟩
  let s₃ := s₂.allocated base 2 ⟨2, 100⟩
  let s₄ := s₃.freed base 1 ⟨1, 8⟩
  have hask : ∀ (a : Fin 3) (size : Addr), size.toNat ≤ asanFakeStackStride →
      (FakeStackAct.alloc a size).Small := by
    intro a size hsize b size' heq
    cases heq
    exact hsize
  have hgo : ∀ a : Fin 3, (FakeStackAct.step a).Small := fun a b size heq => by cases heq
  have hgive : (FakeStackAct.free (1 : Fin 3)).Small := fun b size heq => by cases heq
  have hfirst : ReachesBy (fakeStackStep base) FakeStackAct.Small s₀ s₁ :=
    FakeStacks.alloc_reaches base (hask 0 24 (by decide)) (hgo 0) rfl (by decide) rfl
  have hsecond : ReachesBy (fakeStackStep base) FakeStackAct.Small s₁ s₂ :=
    FakeStacks.alloc_reaches base (hask 1 8 (by decide)) (hgo 1) rfl (by decide) rfl
  have hthird : ReachesBy (fakeStackStep base) FakeStackAct.Small s₂ s₃ :=
    FakeStacks.alloc_reaches base (hask 2 100 (by decide)) (hgo 2) rfl (by decide) rfl
  have hfree : ReachesBy (fakeStackStep base) FakeStackAct.Small s₃ s₄ :=
    FakeStacks.free_reaches base hgive (hgo 1) rfl
  obtain ⟨history, hsmall, hrun⟩ := hfirst.trans (hsecond.trans (hthird.trans hfree))
  have hbase : FakeStackBase base := ⟨by decide, by decide⟩
  exact ⟨history, s₄, hrun, rfl, rfl, rfl,
    fakeStacks_isolated (by decide) (eachStep_room_of_small hbase hsmall) hrun⟩

/-- Without room: freeing one of two held regions that meet poisons the other. -/
theorem FakeStacks.freed_not_isolated {x : Addr} (hne : a ≠ b) (hphase : s.phase b = .held v)
    (hfits : u.Fits base) (hu : u.Covers base x) (hv : v.Covers base x) :
    ¬ FakeStacksIsolated base (s.freed base a u) := by
  intro hisolated
  have hstill : (s.freed base a u).phase b = .held v :=
    (Function.update_of_ne (Ne.symm hne) ..).trans hphase
  have haddr := hisolated.addressable b v hstill x hv
  rw [freed, asanAddressable_asanPoisonRange s.mem hfits (by decide),
    if_pos (InRegion.asanTouches hu)] at haddr
  exact absurd haddr.2 (Nat.not_lt.mpr hu.1)

/-- Eight bytes more than the distance of two slots. -/
def oversized : FakeStackUse := ⟨0, 65560⟩

/-- Freeing it poisons the first grain of the next slot, which another allocation holds. -/
theorem not_fakeStacksIsolated_oversized :
    ¬ ∀ (history : List (FakeStackAct Bool)) s, fakeStackRun 0x100000 (fun _ => 0) history =
      some s → FakeStacksIsolated 0x100000 s := by
  intro hclaim
  let base : Addr := 0x100000
  let neighbour : FakeStackUse := ⟨1, 8⟩
  let s₀ : FakeStacks Bool := .initial Bool fun _ => 0
  let s₁ := s₀.allocated base false oversized
  let s₂ := s₁.allocated base true neighbour
  let s₃ := s₂.freed base false oversized
  have hfirst : ReachesBy (fakeStackStep base) (fun _ => True) s₀ s₁ :=
    FakeStacks.alloc_reaches base trivial trivial rfl (by decide) rfl
  have hsecond : ReachesBy (fakeStackStep base) (fun _ => True) s₁ s₂ :=
    FakeStacks.alloc_reaches base trivial trivial rfl (by decide) rfl
  have hfree : ReachesBy (fakeStackStep base) (fun _ => True) s₂ s₃ :=
    FakeStacks.free_reaches base trivial trivial rfl
  obtain ⟨history, -, hrun⟩ := hfirst.trans (hsecond.trans hfree)
  have hmine : oversized.Covers base (fakeStackMem base 1) :=
    (by decide : InRegion (fakeStackMem base 0) 65560 (fakeStackMem base 1))
  have htheirs : neighbour.Covers base (fakeStackMem base 1) :=
    (by decide : InRegion (fakeStackMem base 1) 8 (fakeStackMem base 1))
  have hfits : oversized.Fits base :=
    (by decide : (fakeStackMem base 0).toNat + (65560 : Addr).toNat ≤ 2 ^ 50 - 8)
  exact FakeStacks.freed_not_isolated (b := true) (by decide) rfl hfits hmine htheirs
    (hclaim history s₃ hrun)

/-- As long as no request exceeds the distance of two slots, the slots are isolated. -/
theorem fakeStacks_isolated_of_small (hbase : FakeStackBase base)
    (hsmall : ∀ act ∈ history, FakeStackAct.Small act)
    (h : fakeStackRun base m history = some s) : FakeStacksIsolated base s :=
  (fakeStackRun_apart hbase.aligned (eachStep_room_of_small hbase hsmall) h).isolated
    (fakeStackRun_guarded h)

end Misan
