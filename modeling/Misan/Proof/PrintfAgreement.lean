import Misan.Proof.PrintfMachine
import Misan.Proof.PrintfAppend

/-!
# The printer and the machines

As long as the printer does nothing that the language leaves undefined, every machine whose slots
hold the arguments does what it does: it prints the same, ends where it ends and is left with the
same arguments.
-/

namespace Misan.Machine

/-- The machine has printed the same and holds the remaining arguments. -/
def Represents (m : Machine) (st : PrintState) (t : SlotState) : Prop :=
  st.out = t.out ∧ m.Holds t.ap st.ap

/-- What the language leaves undefined. -/
def Undefined : PrintStop → Prop
  | .fault _ => True
  | .outOfBudget => False

section Agreement

variable {m : Machine}

abbrev Agrees {α : Type} (m : Machine) (x : Print α) (y : SlotPrint α) : Prop :=
  Follows Undefined m.Represents x y

theorem agrees_fault {α : Type} (f : PrintFault) (y : SlotPrint α) :
    m.Agrees (throw (.fault f) : Print α) y := Follows.wrong_throw trivial y

/-- A part that takes no argument does the same behind any arguments. -/
theorem agrees_onOutput {α : Type} {x : Print α} (hleaves : LeavesArgs x)
    (hframed : ∀ more, Framed (fun _ => True) (PrintState.extend [] more) x) :
    m.Agrees x (onOutput x) := by
  rintro ⟨out, ap⟩ ⟨out', i⟩ ⟨rfl, hholds⟩
  have hframe := hframed ap ⟨out, []⟩ fun _ _ _ => trivial
  have hargs := hleaves ⟨out, []⟩
  change x ⟨out, ap⟩ = _ at hframe
  constructor
  · intro a s hrun
    rw [hrun] at hframe
    cases hx : x ⟨out, []⟩ with
    | ok b t =>
        rw [hx] at hframe hargs
        cases hframe
        refine ⟨⟨t.out, i⟩, onOutput_ok hx, rfl, ?_⟩
        obtain ⟨out', ap'⟩ := t
        obtain rfl : ap' = [] := hargs
        exact hholds
    | error e t =>
        rw [hx] at hframe
        cases hframe
  · intro e s hfail _
    rw [hfail] at hframe
    cases hx : x ⟨out, []⟩ with
    | ok b t =>
        rw [hx] at hframe
        cases hframe
    | error e' t =>
        rw [hx] at hframe
        cases hframe
        exact ⟨⟨t.out, i⟩, by rw [onOutput, hx]⟩

theorem agrees_print (text : List Byte) :
    m.Agrees (drtArchPrintString text) (onOutput (drtArchPrintString text)) :=
  agrees_onOutput (printClosed_leavesArgs.print text) fun more =>
    (printClosed_framed _ [] more).print text

theorem agrees_drtPutn (k : Nat) (n : BitVec 64) (base : Nat) (width : Int) (pad : Byte)
    (upper : Bool) : m.Agrees (drtPutn k n base width pad upper)
      (onOutput (drtPutn k n base width pad upper)) :=
  agrees_onOutput
    (printClosed_leavesArgs.drtPutn (leavesArgs_throw (by decide)) k n base width pad upper)
    fun more => (printClosed_framed _ [] more).drtPutn (Framed.throw _) k n base width pad upper

theorem agrees_checkedInt (z : Int) : m.Agrees (checkedInt z) (orOverflow (m.int z)) := by
  unfold checkedInt int
  split
  · exact Follows.pure z
  · exact agrees_fault _ _

theorem agrees_checkedNeg (n : BitVec 64) : m.Agrees (checkedNeg n) (orOverflow (m.neg n)) := by
  unfold checkedNeg neg
  split
  · exact agrees_fault _ _
  · exact Follows.pure _

theorem agrees_drtPutsn (k : Nat) (n : BitVec 64) (base : Nat) (width : Int) (pad : Byte) :
    m.Agrees (Misan.drtPutsn k n base width pad) (m.drtPutsn k n base width pad) := by
  apply Follows.ite
  · apply (agrees_print _).bind
    intro _
    exact (agrees_checkedNeg n).bind fun n => agrees_drtPutn k n base _ pad false
  · exact agrees_drtPutn k n base width pad false

/-! ### Arguments -/

/-- Taking an argument of the right type is taking the slot that holds it. -/
theorem agrees_vaTake {α β : Type} {select : VaArg → Option α} {f : α → Print β}
    {g : BitVec 64 → SlotPrint β}
    (hslot : ∀ i arg ap v, m.Holds i (arg :: ap) → select arg = some v →
      m.Holds (i + 1) ap ∧ ∃ w, m.slots i = some w ∧ m.Agrees (f v) (g w)) :
    m.Agrees (vaTake select >>= f) (m.vaSlot >>= g) := by
  rintro ⟨out, ap⟩ ⟨out', i⟩ ⟨rfl, hholds⟩
  have hwrong : (vaTake select ⟨out, ap⟩ = .error (.fault .badArgument) ⟨out, ap⟩) →
      (vaTake select >>= f) ⟨out, ap⟩ = .error (.fault .badArgument) ⟨out, ap⟩ :=
    fun hfail => bind_eq_error.mpr (Or.inl hfail)
  have hfault := agrees_fault (α := β) .badArgument (m.vaSlot >>= g) ⟨out, ap⟩ ⟨out, i⟩
    ⟨rfl, hholds⟩
  cases ap with
  | nil =>
      rw [hwrong rfl]
      exact hfault
  | cons arg ap =>
      cases hselect : select arg with
      | none =>
          rw [hwrong (by simp only [vaTake, hselect])]
          exact hfault
      | some v =>
          obtain ⟨hrest, w, hw, hagrees⟩ := hslot i arg ap v hholds hselect
          have htake : vaTake select ⟨out, arg :: ap⟩ = .ok v ⟨out, ap⟩ := by
            simp only [vaTake, hselect]
          rw [bind_run htake, bind_run (vaSlot_run hw)]
          exact hagrees ⟨out, ap⟩ ⟨out, i + 1⟩ ⟨rfl, hrest⟩

section Taking

variable {α : Type}

theorem agrees_vaInt {f : BitVec 32 → Print α} {g : BitVec 64 → SlotPrint α}
    (hf : ∀ w, m.Agrees (f (w.setWidth 32)) (g w)) : m.Agrees (vaInt >>= f) (m.vaSlot >>= g) := by
  rw [vaInt_eq]
  apply agrees_vaTake
  intro i arg ap v hholds hselect
  cases arg <;> cases hselect
  obtain ⟨hslot, hrest⟩ := hholds
  obtain ⟨w, hw, rfl⟩ := Option.map_eq_some_iff.mp hslot
  exact ⟨hrest, w, hw, hf w⟩

theorem agrees_vaLong {f : BitVec 64 → Print α} {g : BitVec 64 → SlotPrint α}
    (hf : ∀ w, m.Agrees (f w) (g w)) : m.Agrees (vaLong >>= f) (m.vaSlot >>= g) := by
  rw [vaLong_eq]
  apply agrees_vaTake
  intro i arg ap v hholds hselect
  cases arg <;> cases hselect
  exact ⟨hholds.2, v, hholds.1, hf v⟩

theorem agrees_vaLongLong {f : BitVec 64 → Print α} {g : BitVec 64 → SlotPrint α}
    (hf : ∀ w, m.Agrees (f w) (g w)) : m.Agrees (vaLongLong >>= f) (m.vaSlot >>= g) := by
  rw [vaLongLong_eq]
  apply agrees_vaTake
  intro i arg ap v hholds hselect
  cases arg <;> cases hselect
  exact ⟨hholds.2, v, hholds.1, hf v⟩

theorem agrees_vaPtr {f : Addr → Print α} {g : BitVec 64 → SlotPrint α}
    (hf : ∀ w, m.Agrees (f w) (g w)) : m.Agrees (vaPtr >>= f) (m.vaSlot >>= g) := by
  rw [vaPtr_eq]
  apply agrees_vaTake
  intro i arg ap v hholds hselect
  cases arg <;> cases hselect
  exact ⟨hholds.2, v, hholds.1, hf v⟩

theorem agrees_vaStr :
    m.Agrees (Misan.vaStr >>= fun s => drtPuts (s.getD nullString))
      (m.vaStr >>= fun s => onOutput (drtPuts s)) := by
  rw [vaStr_eq, Machine.vaStr, bind_assoc]
  apply agrees_vaTake
  intro i arg ap v hholds hselect
  cases arg <;> cases hselect
  obtain ⟨⟨w, hw, htext⟩, hrest⟩ := hholds
  refine ⟨hrest, w, hw, ?_⟩
  rw [htext]
  exact agrees_print _

/-- `vaSigned` and `vaUnsigned`, with what the machine makes of a slot that holds an `int`. -/
theorem agrees_vaWiden {widen : BitVec 32 → BitVec 64} {slot : Nat → BitVec 64 → BitVec 64}
    {f : BitVec 64 → Print α} {g : BitVec 64 → SlotPrint α} {longness : Nat}
    (hslot : ∀ v, slot longness v =
      if 1 ≤ longness ∧ longness ≤ 3 then v else widen (v.setWidth 32))
    (hf : ∀ v, m.Agrees (f v) (g v)) :
    m.Agrees (vaWiden widen longness >>= f) (m.vaSlot >>= fun v => g (slot longness v)) := by
  unfold vaWiden
  by_cases hlong : 1 ≤ longness ∧ longness ≤ 3
  · have hself : ∀ v, m.Agrees (f v) (g (slot longness v)) := by
      intro v
      rw [hslot, if_pos hlong]
      exact hf v
    split_ifs
    · exact agrees_vaLongLong hself
    · exact agrees_vaLong hself
    · exact agrees_vaLong hself
    · omega
  · rw [if_neg (by omega), if_neg (by omega), if_neg (by omega), bind_assoc]
    apply agrees_vaInt
    intro w
    rw [pure_bind, hslot, if_neg hlong]
    exact hf _

end Taking

theorem agrees_drtConvert (k : Nat) (c : Byte) (width : Int) (pad : Byte) (longness : Nat) :
    m.Agrees (Misan.drtConvert k c width pad longness) (m.drtConvert k c width pad longness) := by
  rw [Misan.drtConvert, Machine.drtConvert, Misan.vaSigned_eq, Misan.vaUnsigned_eq,
    Machine.vaSigned_eq, Machine.vaUnsigned_eq]
  simp only [bind_assoc, pure_bind]
  have hsigned := fun v => agrees_drtPutsn (m := m) k v 10 width pad
  have hunsigned := fun base upper v => agrees_drtPutn (m := m) k v base width pad upper
  apply Follows.ite (agrees_vaWiden (fun _ => rfl) hsigned)
  apply Follows.ite (agrees_vaWiden (fun _ => rfl) (hunsigned 10 false))
  apply Follows.ite (agrees_vaWiden (fun _ => rfl) (hunsigned 16 false))
  apply Follows.ite (agrees_vaWiden (fun _ => rfl) (hunsigned 16 true))
  apply Follows.ite
  · apply (agrees_print _).bind
    intro _
    exact agrees_vaPtr fun v => agrees_drtPutn k v 16 16 _ false
  apply Follows.ite agrees_vaStr
  apply Follows.ite
  · apply agrees_vaInt
    intro w
    rw [BitVec.setWidth_setWidth_of_le _ (by decide)]
    exact agrees_print _
  apply Follows.ite (agrees_print _)
  exact (agrees_print _).bind fun _ => agrees_print _

/-! ### Scanning -/

section Scanning

variable (fmt behind : List Byte)

theorem agrees_drtRead (p : Nat) :
    m.Agrees (Misan.drtRead fmt p) (drtRead (fmt ++ 0 :: behind) p) := by
  unfold Misan.drtRead drtRead
  cases hread : fmt[p]? with
  | some c =>
      obtain ⟨hlt, -⟩ := List.getElem?_eq_some_iff.mp hread
      rw [List.getElem?_append_left hlt, hread]
      exact Follows.pure c
  | none =>
      dsimp only
      split
      · rename_i hend
        rw [hend, List.getElem?_append_right (Nat.le_refl _), Nat.sub_self]
        exact Follows.pure 0
      · exact agrees_fault _ _

theorem agrees_drtSkip {α : Type} (c : Byte) (v : α) (p : Nat) (x : α) :
    m.Agrees (Misan.drtSkip fmt c v p x) (drtSkip (fmt ++ 0 :: behind) c v p x) :=
  (agrees_drtRead fmt behind p).bind fun _ => Follows.ite (Follows.pure _) (Follows.pure _)

theorem agrees_drtWidthLoop (k p : Nat) (width : Int) :
    m.Agrees (Misan.drtWidthLoop fmt k p width)
      (m.drtWidthLoop (fmt ++ 0 :: behind) k p width) := by
  induction k generalizing p width with
  | zero => exact Follows.throw _
  | succ k ih =>
      apply (agrees_drtRead fmt behind p).bind
      intro c
      apply Follows.ite
      · apply (agrees_checkedInt _).bind
        intro scaled
        exact (agrees_checkedInt _).bind fun width => ih _ width
      · exact Follows.pure _

theorem agrees_drtLongness (p : Nat) :
    m.Agrees (Misan.drtLongness fmt p) (drtLongness (fmt ++ 0 :: behind) p) := by
  apply (agrees_drtSkip fmt behind _ _ p _).bind
  intro r
  apply (agrees_drtSkip fmt behind _ _ r.1 _).bind
  intro r
  exact agrees_drtSkip fmt behind _ _ r.1 _

theorem agrees_drtDirective (k p : Nat) :
    m.Agrees (Misan.drtDirective k fmt p) (m.drtDirective k (fmt ++ 0 :: behind) p) := by
  apply (agrees_drtSkip fmt behind _ _ p _).bind
  intro r
  apply (agrees_drtWidthLoop fmt behind k r.1 0).bind
  intro w
  apply (agrees_drtLongness fmt behind w.1).bind
  intro l
  apply (agrees_drtRead fmt behind l.1).bind
  intro c
  exact (agrees_drtConvert k c w.2 r.2 l.2).bind fun _ => Follows.pure _

theorem agrees_drtVprintfLoop (k p : Nat) :
    m.Agrees (Misan.drtVprintfLoop fmt k p) (m.drtVprintfLoop (fmt ++ 0 :: behind) k p) := by
  induction k generalizing p with
  | zero => exact Follows.throw _
  | succ k ih =>
      apply (agrees_drtRead fmt behind p).bind
      intro c
      apply Follows.ite (Follows.pure ())
      apply Follows.ite
      · exact (agrees_print _).bind fun _ => ih _
      · exact (agrees_drtDirective fmt behind k _).bind fun _ => ih _

end Scanning

end Agreement

/-- **Agreement.** Unless the printer does something undefined, a machine that holds the arguments
prints the same with them, or runs out of the same budget. -/
theorem drtVprintf_agrees (m : Machine) (k : Nat) (fmt behind out : List Byte) {ap : List VaArg}
    {i : Nat} (hholds : m.Holds i ap) :
    (∀ out' ap', Misan.drtVprintf k fmt ⟨out, ap⟩ = .ok () ⟨out', ap'⟩ →
      ∃ j, m.drtVprintf k fmt behind ⟨out, i⟩ = .ok () ⟨out', j⟩ ∧ m.Holds j ap') ∧
    ∀ t, Misan.drtVprintf k fmt ⟨out, ap⟩ = .error .outOfBudget t →
      ∃ t', m.drtVprintf k fmt behind ⟨out, i⟩ = .error .outOfBudget t' := by
  obtain ⟨hok, herror⟩ := agrees_drtVprintfLoop (m := m) fmt behind k 0 ⟨out, ap⟩ ⟨out, i⟩
    ⟨rfl, hholds⟩
  constructor
  · intro out' ap' hrun
    obtain ⟨⟨_, j⟩, hrun', rfl, hrest⟩ := hok () ⟨out', ap'⟩ hrun
    exact ⟨j, hrun', hrest⟩
  · intro t hfail
    exact herror _ t hfail id

end Misan.Machine
