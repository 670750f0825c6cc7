import Misan.Printf

/-!
# What the conversions are made of

Below the format there are few primitive steps: printing a string, taking an argument, and stopping
short. A property that these have and sequencing keeps is one of every conversion, and none of the
loops and branches between has to be gone through again.
-/

namespace Misan

/-- A property of programs that printing has and sequencing keeps. The loops may run out of
budget. -/
structure PrintClosed (P : ∀ {α : Type}, Print α → Prop) : Prop where
  pure : ∀ {α : Type} (a : α), P (pure a : Print α)
  bind : ∀ {α β : Type} {x : Print α} {f : α → Print β}, P x → (∀ a, P (f a)) → P (x >>= f)
  print : ∀ s, P (drtArchPrintString s)
  outOfBudget : ∀ {α : Type}, P (throw .outOfBudget : Print α)

namespace PrintClosed

variable {P : ∀ {α : Type}, Print α → Prop} (hP : PrintClosed P)

include hP

theorem drtPutchar (c : Byte) : P (drtPutchar c) := hP.print _

theorem drtPuts (s : List Byte) : P (drtPuts s) := hP.print s

theorem drtDigitLoop (hfull : P (throw (.fault .bufferOverflow) : Print (List Byte))) (base : Nat)
    (upper : Bool) (k n : Nat) (buf : List Byte) : P (drtDigitLoop base upper k n buf) := by
  induction k generalizing n buf with
  | zero => exact hP.outOfBudget
  | succ k ih =>
      rw [Misan.drtDigitLoop]
      split_ifs
      · exact hfull
      · exact ih _ _
      · exact hP.pure _

theorem drtPadLoop (i width : Int) (pad : Byte) (k : Nat) : P (drtPadLoop i width pad k) := by
  induction k with
  | zero => exact hP.outOfBudget
  | succ k ih =>
      rw [Misan.drtPadLoop]
      split_ifs
      · exact hP.bind (hP.drtPutchar pad) fun _ => ih
      · exact hP.pure ()

theorem drtOutLoop (buf : List Byte) : P (drtOutLoop buf) := by
  induction buf with
  | nil => exact hP.pure ()
  | cons c buf ih => exact hP.bind (hP.drtPutchar c) fun _ => ih

theorem drtPutn_of_digits {k base : Nat} {n : BitVec 64} {upper : Bool}
    (hdigits : P (Misan.drtDigitLoop base upper k n.toNat [])) (width : Int) (pad : Byte) :
    P (drtPutn k n base width pad upper) := by
  apply hP.bind hdigits
  intro buf
  apply hP.bind (hP.drtPadLoop _ _ _ _)
  intro _
  exact hP.drtOutLoop buf

theorem drtPutn (hfull : P (throw (.fault .bufferOverflow) : Print (List Byte))) (k : Nat)
    (n : BitVec 64) (base : Nat) (width : Int) (pad : Byte) (upper : Bool) :
    P (drtPutn k n base width pad upper) :=
  hP.drtPutn_of_digits (hP.drtDigitLoop hfull base upper k n.toNat []) width pad

theorem drtPutsn (hfull : P (throw (.fault .bufferOverflow) : Print (List Byte))) (k : Nat)
    {n : BitVec 64} (hneg : P (checkedNeg n)) (base : Nat) (width : Int) (pad : Byte) :
    P (drtPutsn k n base width pad) := by
  rw [Misan.drtPutsn]
  split
  · apply hP.bind (hP.drtPutchar _)
    intro _
    exact hP.bind hneg fun n => hP.drtPutn hfull k n base _ pad false
  · exact hP.drtPutn hfull k n base width pad false

end PrintClosed

/-! ### Arguments -/

/-- Taking the first argument, if it is of the right type. -/
def vaTake {α : Type} (select : VaArg → Option α) : Print α := fun st =>
  match st.ap with
  | [] => .error (.fault .badArgument) st
  | arg :: ap =>
      match select arg with
      | some v => .ok v { st with ap := ap }
      | none => .error (.fault .badArgument) st

def VaArg.int? : VaArg → Option (BitVec 32)
  | int v => some v
  | _ => none

def VaArg.long? : VaArg → Option (BitVec 64)
  | long v => some v
  | _ => none

def VaArg.longLong? : VaArg → Option (BitVec 64)
  | longLong v => some v
  | _ => none

def VaArg.ptr? : VaArg → Option Addr
  | ptr v => some v
  | _ => none

def VaArg.str? : VaArg → Option (Option (List Byte))
  | str s => some s
  | _ => none

theorem vaInt_eq : vaInt = vaTake VaArg.int? := by
  funext ⟨out, ap⟩
  rcases ap with _ | ⟨arg, ap⟩
  · rfl
  · cases arg <;> rfl

theorem vaLong_eq : vaLong = vaTake VaArg.long? := by
  funext ⟨out, ap⟩
  rcases ap with _ | ⟨arg, ap⟩
  · rfl
  · cases arg <;> rfl

theorem vaLongLong_eq : vaLongLong = vaTake VaArg.longLong? := by
  funext ⟨out, ap⟩
  rcases ap with _ | ⟨arg, ap⟩
  · rfl
  · cases arg <;> rfl

theorem vaPtr_eq : vaPtr = vaTake VaArg.ptr? := by
  funext ⟨out, ap⟩
  rcases ap with _ | ⟨arg, ap⟩
  · rfl
  · cases arg <;> rfl

theorem vaStr_eq : vaStr = vaTake VaArg.str? := by
  funext ⟨out, ap⟩
  rcases ap with _ | ⟨arg, ap⟩
  · rfl
  · cases arg <;> rfl

/-- What `vaSigned` and `vaUnsigned` have in common. -/
def vaWiden (widen : BitVec 32 → BitVec 64) (longness : Nat) : Print (BitVec 64) :=
  if longness = 2 then vaLongLong
  else if longness = 1 then vaLong
  else if longness = 3 then vaLong
  else do
    let v ← vaInt
    pure (widen v)

theorem vaSigned_eq (longness : Nat) : vaSigned longness = vaWiden (·.signExtend 64) longness := rfl

theorem vaUnsigned_eq (longness : Nat) :
    vaUnsigned longness = vaWiden (·.setWidth 64) longness := rfl

namespace PrintClosed

variable {P : ∀ {α : Type}, Print α → Prop} (hP : PrintClosed P)

include hP

theorem vaWiden (htake : ∀ {α : Type} (select : VaArg → Option α), P (vaTake select))
    (widen : BitVec 32 → BitVec 64) (longness : Nat) : P (vaWiden widen longness) := by
  rw [Misan.vaWiden, vaInt_eq, vaLong_eq, vaLongLong_eq]
  split_ifs
  · exact htake _
  · exact htake _
  · exact htake _
  · exact hP.bind (htake _) fun v => hP.pure _

/-- A conversion takes an argument and prints; `%d` may also negate what it took. -/
theorem drtConvert (hfull : P (throw (.fault .bufferOverflow) : Print (List Byte)))
    (htake : ∀ {α : Type} (select : VaArg → Option α), P (vaTake select)) (k : Nat) (c : Byte)
    (hneg : c = byteOf 'd' → ∀ n, P (checkedNeg n)) (width : Int) (pad : Byte) (longness : Nat) :
    P (drtConvert k c width pad longness) := by
  rw [Misan.drtConvert, vaSigned_eq, vaUnsigned_eq, vaPtr_eq, vaStr_eq, vaInt_eq]
  split_ifs with hd
  · exact hP.bind (hP.vaWiden htake _ _) fun v => hP.drtPutsn hfull k (hneg hd v) 10 width pad
  · exact hP.bind (hP.vaWiden htake _ _) fun v => hP.drtPutn hfull k v _ width pad _
  · exact hP.bind (hP.vaWiden htake _ _) fun v => hP.drtPutn hfull k v _ width pad _
  · exact hP.bind (hP.vaWiden htake _ _) fun v => hP.drtPutn hfull k v _ width pad _
  · apply hP.bind (hP.drtPuts _)
    intro _
    exact hP.bind (htake _) fun v => hP.drtPutn hfull k v 16 16 _ _
  · exact hP.bind (htake _) fun s => hP.drtPuts _
  · exact hP.bind (htake _) fun v => hP.drtPutchar _
  · exact hP.drtPutchar _
  · exact hP.bind (hP.drtPutchar _) fun _ => hP.drtPutchar c

/-! ### Scanning -/

theorem drtRead (hpast : P (throw (.fault .readPastEnd) : Print Byte)) (fmt : List Byte) (p : Nat) :
    P (drtRead fmt p) := by
  rw [Misan.drtRead]
  split
  · exact hP.pure _
  · split
    · exact hP.pure _
    · exact hpast

theorem drtSkip (hpast : P (throw (.fault .readPastEnd) : Print Byte)) {α : Type}
    (fmt : List Byte) (c : Byte) (v : α) (p : Nat) (x : α) : P (drtSkip fmt c v p x) := by
  apply hP.bind (hP.drtRead hpast fmt p)
  intro c'
  split <;> exact hP.pure _

theorem checkedInt (hoverflow : P (throw (.fault .signedOverflow) : Print Int)) (z : Int) :
    P (checkedInt z) := by
  rw [Misan.checkedInt]
  split
  · exact hP.pure z
  · exact hoverflow

theorem drtWidthLoop (hpast : P (throw (.fault .readPastEnd) : Print Byte))
    (hoverflow : P (throw (.fault .signedOverflow) : Print Int)) (fmt : List Byte) (k p : Nat)
    (width : Int) : P (drtWidthLoop fmt k p width) := by
  induction k generalizing p width with
  | zero => exact hP.outOfBudget
  | succ k ih =>
      apply hP.bind (hP.drtRead hpast fmt p)
      intro c
      split
      · apply hP.bind (hP.checkedInt hoverflow _)
        intro scaled
        exact hP.bind (hP.checkedInt hoverflow _) fun width => ih (p + 1) width
      · exact hP.pure _

theorem drtLongness (hpast : P (throw (.fault .readPastEnd) : Print Byte)) (fmt : List Byte)
    (p : Nat) : P (drtLongness fmt p) := by
  apply hP.bind (hP.drtSkip hpast fmt _ _ p _)
  intro _
  apply hP.bind (hP.drtSkip hpast fmt _ _ _ _)
  intro _
  exact hP.drtSkip hpast fmt _ _ _ _

end PrintClosed

end Misan
