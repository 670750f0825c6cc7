import Misan.MsanOrigins

/-!
# Chained origins

`__msan_chain_origin` lets `msan_alloc_origin` fill the new entry with a captured stack before it
copies the stack of the old one. Where the counter gives out the old id itself, the stack it was to
keep is gone by then.
-/

namespace Misan

open Function

variable {o : MsanOrigins} {origin : BitVec 32} {now : BitVec 64} {captured : DrtStackTrace}

/-- The next id of the counter is `origin`. -/
def MsanOrigins.Recycles (o : MsanOrigins) (origin : BitVec 32) : Prop :=
  if (o.msanOriginCounter + 1).toNat < msanMaxOrigins then o.msanOriginCounter + 1 = origin
  else origin = 1

/-- Chaining `origin` returns an id whose stack is the one `origin` had, and changes no other
entry. -/
def ChainKeepsStack (o : MsanOrigins) (origin : BitVec 32) (now : BitVec 64)
    (captured : DrtStackTrace) : Prop :=
  ∃ (horigin : origin.toNat < msanMaxOrigins) (newId : OriginId) (o' : MsanOrigins),
    msanChainOrigin o origin now captured = some (BitVec.ofNat 32 newId.val, o') ∧
    (o'.msanOrigins newId).stack = (o.msanOrigins ⟨origin.toNat, horigin⟩).stack ∧
    ∀ id ≠ newId, o'.msanOrigins id = o.msanOrigins id

theorem ofNat_msanOriginId_inj {id id' : OriginId} :
    BitVec.ofNat 32 id.val = BitVec.ofNat 32 id'.val ↔ id = id' := by
  have hid : id.val < 65536 := id.isLt
  have hid' : id'.val < 65536 := id'.isLt
  rw [← BitVec.toNat_inj, BitVec.toNat_ofNat, BitVec.toNat_ofNat, Fin.ext_iff]
  omega

theorem msanOriginIdOf_eq_iff (horigin : origin.toNat < msanMaxOrigins) :
    msanOriginIdOf (o.msanOriginCounter + 1) = ⟨origin.toNat, horigin⟩ ↔ o.Recycles origin := by
  rw [MsanOrigins.Recycles, msanOriginIdOf, Fin.ext_iff]
  split
  · exact BitVec.toNat_inj
  · exact eq_comm.trans (BitVec.toNat_inj (y := 1))

/-- The entry of the new id ends up with the stack the old entry has once the new one is filled. -/
theorem msanChainOrigin_eq (o : MsanOrigins) (now : BitVec 64) (captured : DrtStackTrace)
    {old : OriginId} (hne : origin ≠ 0) (hold : origin.toNat = old.val) :
    let newId := msanOriginIdOf (o.msanOriginCounter + 1)
    let filled := update o.msanOrigins newId ⟨captured, now, true⟩
    msanChainOrigin o origin now captured = some (BitVec.ofNat 32 newId.val,
      ⟨(msanAllocOrigin o now captured).2.msanOriginCounter,
        update o.msanOrigins newId ⟨(filled old).stack, now, true⟩⟩) := by
  intro newId filled
  rw [msanChainOrigin, if_neg hne]
  simp only [msanAllocOrigin, hold, dif_pos old.isLt, update_self, update_idem]
  rfl

theorem msanChainStep_eq (o : MsanOrigins) (now : BitVec 64) (captured : DrtStackTrace)
    {old : OriginId} (hne : origin ≠ 0) (hold : origin.toNat = old.val) :
    let newId := msanOriginIdOf (o.msanOriginCounter + 1)
    let filled := update o.msanOrigins newId ⟨captured, now, true⟩
    msanChainStep o ⟨origin, now, captured⟩ =
      some ⟨(msanAllocOrigin o now captured).2.msanOriginCounter,
        update o.msanOrigins newId ⟨(filled old).stack, now, true⟩⟩ :=
  congrArg (Option.map Prod.snd) (msanChainOrigin_eq o now captured hne hold)

theorem chainKeepsStack_iff_stack {old : OriginId} (hne : origin ≠ 0)
    (hold : origin.toNat = old.val) :
    ChainKeepsStack o origin now captured ↔
      (update o.msanOrigins (msanOriginIdOf (o.msanOriginCounter + 1)) ⟨captured, now, true⟩
        old).stack = (o.msanOrigins old).stack := by
  constructor
  · rintro ⟨horigin, newId, o', hchain, hstack, -⟩
    have hsame : ⟨origin.toNat, horigin⟩ = old := Fin.ext hold
    rw [msanChainOrigin_eq o now captured hne hold, Option.some_inj, Prod.mk.injEq,
      ofNat_msanOriginId_inj] at hchain
    obtain ⟨rfl, rfl⟩ := hchain
    dsimp only at hstack
    rwa [update_self, hsame] at hstack
  · intro hstack
    have horigin : origin.toNat < msanMaxOrigins := hold ▸ old.isLt
    have hsame : ⟨origin.toNat, horigin⟩ = old := Fin.ext hold
    refine ⟨horigin, _, _, msanChainOrigin_eq o now captured hne hold, ?_,
      fun id hid => update_of_ne hid _ _⟩
    dsimp only
    rwa [update_self, hsame]

/-- **Chaining keeps the stack** exactly when the old id is not recycled for the new origin, or the
captured stack happens to be the one to keep. -/
theorem chainKeepsStack_iff (o : MsanOrigins) (now : BitVec 64) (captured : DrtStackTrace)
    (hne : origin ≠ 0) (horigin : origin.toNat < msanMaxOrigins) :
    ChainKeepsStack o origin now captured ↔
      ¬ o.Recycles origin ∨ captured = (o.msanOrigins ⟨origin.toNat, horigin⟩).stack := by
  rw [chainKeepsStack_iff_stack hne (Fin.val_mk horigin).symm, ← msanOriginIdOf_eq_iff horigin]
  by_cases hrecycled : msanOriginIdOf (o.msanOriginCounter + 1) = ⟨origin.toNat, horigin⟩
  · rw [hrecycled, update_self]
    exact (or_iff_right (not_not_intro rfl)).symm
  · rw [update_of_ne (Ne.symm hrecycled)]
    exact iff_of_true rfl (Or.inl hrecycled)

def here : DrtStackTrace := ⟨[0x401000], by decide⟩

def there : DrtStackTrace := ⟨[0x402000], by decide⟩

def secondOriginId : OriginId := ⟨2, by decide⟩

/-- The first call fills the entry it is to read, so that the entry has a stack. The second one
chains this entry. -/
theorem chainKeepsStack_filled :
    ∃ o, msanChainRun [⟨2, 0, here⟩] = some o ∧ (o.msanOrigins secondOriginId).stack = here ∧
      ChainKeepsStack o 2 1 there := by
  have hstep := msanChainStep_eq .initial 0 here (show 2#32 ≠ 0 by decide)
    (show _ = secondOriginId.val from rfl)
  have hsecond : msanOriginIdOf (MsanOrigins.initial.msanOriginCounter + 1) = secondOriginId := rfl
  refine ⟨_, runFrom_cons_eq_some.mpr ⟨_, rfl, hstep⟩, ?_,
    (chainKeepsStack_iff _ 1 there (by decide) (by decide)).mpr (Or.inl ?_)⟩
  · rw [hsecond]
    simp
  · rw [MsanOrigins.Recycles, if_pos (by decide)]
    decide

/-! ### A recycled parent -/

/-- `n` calls have chained the origin `1`, which none of them has filled. -/
structure FirstChained (n : Nat) (o : MsanOrigins) : Prop where
  counter : o.msanOriginCounter = BitVec.ofNat 32 (n + 1)
  stack : ∀ id, (o.msanOrigins id).stack = (MsanOrigins.initial.msanOrigins id).stack

theorem FirstChained.step {n : Nat} (h : FirstChained n o) (hn : n < 65534) :
    ∃ o', msanChainStep o ⟨1, 0, here⟩ = some o' ∧ FirstChained (n + 1) o' := by
  have hlt := msanOriginCounter_next_lt h.counter hn
  have hnew : firstOriginId ≠ msanOriginIdOf (o.msanOriginCounter + 1) := by
    rw [ne_eq, Fin.ext_iff, msanOriginIdOf_of_lt hlt, msanOriginCounter_next h.counter,
      BitVec.toNat_ofNat, firstOriginId]
    dsimp only
    omega
  have hstep := msanChainStep_eq o 0 here (show 1#32 ≠ 0 by decide)
    (show _ = firstOriginId.val from rfl)
  refine ⟨_, hstep, (if_neg (Nat.not_le.mpr hlt)).trans (msanOriginCounter_next h.counter),
    fun id => ?_⟩
  by_cases heq : id = msanOriginIdOf (o.msanOriginCounter + 1)
  · rw [heq]
    dsimp only
    rw [update_self, update_of_ne hnew]
    exact h.stack firstOriginId
  · exact (congrArg MsanOrigin.stack (update_of_ne heq _ _)).trans (h.stack id)

/-- After `65535` calls the counter is back at `2`, and chaining the origin `3` fills the entry `3`
before it is read. -/
theorem msanChain_recycled_parent :
    ¬ ∀ (history : List MsanChainCall) (o : MsanOrigins), msanChainRun history = some o →
      ∀ (origin : BitVec 32) (now : BitVec 64) (captured : DrtStackTrace), origin ≠ 0 →
        origin.toNat < msanMaxOrigins → ChainKeepsStack o origin now captured := by
  intro hclaim
  obtain ⟨o, hrun, hchained⟩ : ∃ o,
      msanChainRun (List.replicate 65534 ⟨1, 0, here⟩) = some o ∧ FirstChained 65534 o :=
    exists_runFrom_replicate ⟨rfl, fun _ => rfl⟩ (fun n hn o h => h.step hn) (le_refl 65534)
  have hwraps := msanOriginCounter_next hchained.counter
  have hstep := msanChainStep_eq o 0 here (show 1#32 ≠ 0 by decide)
    (show _ = firstOriginId.val from rfl)
  have hkeeps := hclaim _ _ (runFrom_cons_eq_some.mpr ⟨o, hrun, hstep⟩) 3 0 here (by decide)
    (by decide)
  have hcounter : (msanAllocOrigin o 0 here).2.msanOriginCounter = 2 := by
    rw [msanAllocOrigin, hwraps]
    rfl
  have hfirst : msanOriginIdOf (o.msanOriginCounter + 1) = firstOriginId := by
    apply msanOriginIdOf_of_ge
    rw [hwraps]
    decide
  let third : OriginId := ⟨3, by decide⟩
  have hthird : msanOriginIdOf (2 + 1) = third := rfl
  have hkept := (chainKeepsStack_iff_stack (by decide) (show _ = third.val from rfl)).mp hkeeps
  have hne : third ≠ firstOriginId := by decide
  dsimp only at hkept
  rw [hcounter, hfirst, hthird, update_self, update_of_ne hne, hchained.stack] at hkept
  cases congrArg DrtStackTrace.pcs hkept

end Misan
