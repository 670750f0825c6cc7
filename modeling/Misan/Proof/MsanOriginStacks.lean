import Misan.Proof.MsanChain

/-!
# Origins without stacks

The only caller of `msan_alloc_origin` overwrites the stack it captures with that of the old origin,
and the origins a table starts with have none. So a stack gets into the table only where the counter
gives out the old origin itself.
-/

namespace Misan

open Function

variable {o o' : MsanOrigins} {c : MsanChainCall} {history : List MsanChainCall}

def NoOriginStacks (o : MsanOrigins) : Prop := ∀ id, (o.msanOrigins id).stack.pcs = []

/-- Where the call chains the origin it is given as the new one, it has captured nothing. -/
def RecyclesEmpty (o : MsanOrigins) (c : MsanChainCall) : Prop :=
  c.origin ≠ 0 → o.Recycles c.origin → c.captured.pcs = []

theorem noOriginStacks_initial : NoOriginStacks .initial := fun _ => rfl

/-- **One call** leaves a table without stacks as it is, unless it recycles the old origin and has
captured a stack. -/
theorem noOriginStacks_step_iff (h : NoOriginStacks o) (hstep : msanChainStep o c = some o') :
    NoOriginStacks o' ↔ RecyclesEmpty o c := by
  by_cases hzero : c.origin = 0
  · have hsame : o' = o := by
      rw [msanChainStep, msanChainOrigin, if_pos hzero] at hstep
      exact (Option.some.inj hstep).symm
    rw [hsame]
    exact iff_of_true h fun hne => absurd hzero hne
  by_cases horigin : c.origin.toNat < msanMaxOrigins
  · let old : OriginId := ⟨c.origin.toNat, horigin⟩
    have heq := msanChainStep_eq o c.now c.captured hzero (show _ = old.val from rfl)
    dsimp only at heq
    rw [heq] at hstep
    obtain rfl := Option.some.inj hstep
    have hrecycles := msanOriginIdOf_eq_iff (o := o) horigin
    rw [RecyclesEmpty, ← hrecycles]
    constructor
    · intro hnone _ hnew
      have hid := hnone old
      dsimp only at hid
      rw [hnew, update_self, update_self] at hid
      exact hid
    · intro hempty id
      by_cases hid : id = msanOriginIdOf (o.msanOriginCounter + 1)
      · rw [hid]
        dsimp only
        rw [update_self]
        by_cases hold : msanOriginIdOf (o.msanOriginCounter + 1) = old
        · rw [hold, update_self]
          exact hempty hzero hold
        · rw [update_of_ne (Ne.symm hold)]
          exact h old
      · dsimp only
        rw [update_of_ne hid]
        exact h id
  · rw [msanChainStep, msanChainOrigin, if_neg hzero] at hstep
    simp [horigin] at hstep

/-- No state the run goes through has an origin with a stack. -/
def NoOriginStacksAlong (history : List MsanChainCall) : Prop :=
  ∀ before o, before <:+ history → msanChainRun before = some o → NoOriginStacks o

/-- **No origin ever has a stack**, in any run, as long as no call recycles the origin it is given
while it has captured a stack; and only as long. -/
theorem noOriginStacksAlong_iff (h : msanChainRun history = some o) :
    NoOriginStacksAlong history ↔ EachStep msanChainStep .initial RecyclesEmpty history := by
  induction history generalizing o with
  | nil =>
      refine iff_of_true (fun before o hsuffix hrun => ?_) EachStep.nil
      obtain rfl := List.suffix_nil.mp hsuffix
      obtain rfl := Option.some.inj hrun
      exact noOriginStacks_initial
  | cons c history ih =>
      obtain ⟨o₁, hbefore, hstep⟩ := runFrom_cons_eq_some.mp h
      have ih := ih hbefore
      constructor
      · intro halong
        have hshort : NoOriginStacksAlong history := fun before o hsuffix =>
          halong before o (hsuffix.trans (List.suffix_cons c history))
        refine (ih.mp hshort).cons hbefore ?_
        exact (noOriginStacks_step_iff (hshort history o₁ (List.suffix_refl _) hbefore) hstep).mp
          (halong (c :: history) o (List.suffix_refl _) h)
      · intro heach before o₂ hsuffix hrun
        have hshort := ih.mpr (heach.of_suffix (List.suffix_cons c history))
        rcases List.suffix_cons_iff.mp hsuffix with rfl | hsuffix
        · obtain rfl := Option.some.inj (hrun.symm.trans h)
          exact (noOriginStacks_step_iff (hshort history o₁ (List.suffix_refl _) hbefore)
            hstep).mpr (heach c history o₁ (List.suffix_refl _) hbefore)
        · exact hshort before o₂ hsuffix hrun

theorem noOriginStacksAlong_once :
    NoOriginStacksAlong [⟨1, 0, here⟩] := by
  have hstep := msanChainStep_eq .initial 0 here (show 1#32 ≠ 0 by decide)
    (show _ = firstOriginId.val from rfl)
  refine (noOriginStacksAlong_iff (runFrom_cons_eq_some.mpr ⟨_, rfl, hstep⟩)).mpr ?_
  refine EachStep.nil.cons rfl fun _ hrecycles => ?_
  rw [MsanOrigins.Recycles, if_pos (by decide)] at hrecycles
  exact absurd hrecycles (by decide)

end Misan
