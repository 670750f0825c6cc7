import Misan.PrintfMachine
import Misan.Proof.PrintfScanning

/-!
# Runs of the printer on a machine

What a directive takes and whether it comes to its end can be read off the format and the slots. So
the places of the format that the printer gets to are those it reaches over complete directives
which come to their ends, and a run that stops short stops in the directive it got to.
-/

namespace Misan

/-! ### Parts that take no argument -/

section Output

variable {α : Type} {x : Nat → Print α} {y : Print α} {st : SlotState} {P : Prop} {a : α}
  {t : PrintState} {e : PrintStop}

theorem onOutput_ok (hrun : y ⟨st.out, []⟩ = .ok a t) : onOutput y st = .ok a ⟨t.out, st.ap⟩ := by
  rw [onOutput, hrun]

theorem onOutput_runs (h : RunsIff x ⟨st.out, []⟩ P a t) :
    RunsIff (fun k => onOutput (x k)) st P a ⟨t.out, st.ap⟩ where
  total hP := by
    obtain ⟨N, hN⟩ := h.total hP
    exact ⟨N, fun k hk => onOutput_ok (hN k hk)⟩
  sound k b s hrun := by
    unfold onOutput at hrun
    split at hrun
    · rename_i hx
      cases hrun
      obtain ⟨hP, rfl, rfl⟩ := h.sound k _ _ hx
      exact ⟨hP, rfl, rfl⟩
    · cases hrun

theorem onOutput_neverFails (h : NeverFails e y) : NeverFails e (onOutput y) := by
  intro s t hfail
  unfold onOutput at hfail
  split at hfail
  · cases hfail
  · rename_i hy
    cases hfail
    exact h _ _ hy

theorem onOutput_drtPutn_neverFails (hbudget : .outOfBudget ≠ e)
    (hfull : .fault .bufferOverflow ≠ e) (k : Nat) (n : BitVec 64) (base : Nat) (width : Int)
    (pad : Byte) (upper : Bool) : NeverFails e (onOutput (drtPutn k n base width pad upper)) :=
  onOutput_neverFails
    ((printClosed_neverFails hbudget).drtPutn (neverFails_throw hfull) k n base width pad upper)

theorem onOutput_print_run (text : List Byte) (st : SlotState) :
    onOutput (drtArchPrintString text) st = .ok () ⟨st.out ++ text.takeWhile (· ≠ 0), st.ap⟩ := rfl

theorem onOutput_print_neverFails (hbudget : .outOfBudget ≠ e) (text : List Byte) :
    NeverFails e (onOutput (drtArchPrintString text)) :=
  onOutput_neverFails ((printClosed_neverFails hbudget).print text)

end Output

namespace Machine

variable {m : Machine}

/-! ### Taking an argument -/

def argumentBytes : List Byte := ['d', 'u', 'x', 'X', 'p', 's', 'c'].map byteOf

def slotsTaken (c : Byte) : Nat := if c ∈ argumentBytes then 1 else 0

/-- What `%d` makes of its slot. -/
def signedSlot (longness : Nat) (v : BitVec 64) : BitVec 64 :=
  if 1 ≤ longness ∧ longness ≤ 3 then v else (v.setWidth 32).signExtend 64

/-- What `%u`, `%x` and `%X` make of it. -/
def unsignedSlot (longness : Nat) (v : BitVec 64) : BitVec 64 :=
  if 1 ≤ longness ∧ longness ≤ 3 then v else (v.setWidth 32).setWidth 64

section Arguments

variable {out : List Byte} {ap longness : Nat} {v : BitVec 64}

theorem vaSlot_run (hslot : m.slots ap = some v) :
    m.vaSlot ⟨out, ap⟩ = .ok v ⟨out, ap + 1⟩ := by
  simp [vaSlot, hslot]

theorem vaSlot_missing (hslot : m.slots ap = none) :
    m.vaSlot ⟨out, ap⟩ = .error (.fault .badArgument) ⟨out, ap⟩ := by
  simp [vaSlot, hslot]

theorem vaSlot_error {st t : SlotState} {e : PrintStop} (hfail : m.vaSlot st = .error e t) :
    e = .fault .badArgument := by
  unfold vaSlot at hfail
  split at hfail
  · cases hfail
  · cases hfail
    rfl

theorem vaSigned_eq (m : Machine) (longness : Nat) :
    m.vaSigned longness = m.vaSlot >>= fun v => pure (signedSlot longness v) := by
  by_cases hlong : 1 ≤ longness ∧ longness ≤ 3
  · obtain rfl | rfl | rfl : longness = 1 ∨ longness = 2 ∨ longness = 3 := by omega
    all_goals simp [vaSigned, signedSlot]
  · have h : longness ≠ 2 ∧ longness ≠ 1 ∧ longness ≠ 3 := by omega
    simp [vaSigned, signedSlot, hlong, h]

theorem vaUnsigned_eq (m : Machine) (longness : Nat) :
    m.vaUnsigned longness = m.vaSlot >>= fun v => pure (unsignedSlot longness v) := by
  by_cases hlong : 1 ≤ longness ∧ longness ≤ 3
  · obtain rfl | rfl | rfl : longness = 1 ∨ longness = 2 ∨ longness = 3 := by omega
    all_goals simp [vaUnsigned, unsignedSlot]
  · have h : longness ≠ 2 ∧ longness ≠ 1 ∧ longness ≠ 3 := by omega
    simp [vaUnsigned, unsignedSlot, hlong, h]

theorem vaSlot_bind_runs {f : Nat → BitVec 64 → SlotPrint Unit} {P : BitVec 64 → Prop}
    (hf : ∀ v, ∃ out', RunsIff (fun k => f k v) ⟨out, ap + 1⟩ (P v) () ⟨out', ap + 1⟩) :
    ∃ out', RunsIff (fun k => m.vaSlot >>= f k) ⟨out, ap⟩ (∃ v, m.slots ap = some v ∧ P v) ()
      ⟨out', ap + 1⟩ := by
  cases hslot : m.slots ap with
  | none =>
      refine ⟨out, (RunsIff.never fun k b t hrun => ?_).congr_iff (by simp)⟩
      rw [bind_eq_error.mpr (Or.inl (vaSlot_missing hslot))] at hrun
      cases hrun
  | some v =>
      obtain ⟨out', hrun⟩ := hf v
      exact ⟨out', (RunsIff.step_bind (vaSlot_run hslot) hrun).congr_iff (by simp)⟩

theorem vaSlot_bind_neverFails {α : Type} {e : PrintStop} {f : BitVec 64 → SlotPrint α}
    (harg : .fault .badArgument ≠ e) (hf : ∀ v, NeverFails e (f v)) :
    NeverFails e (m.vaSlot >>= f) := by
  refine NeverFails.bind (fun s t hfail => ?_) hf
  exact harg (vaSlot_error hfail).symm

end Arguments

/-! ### Converting -/

/-- The magnitude `%d` prints behind the sign, if the machine gets there. -/
def absolute (m : Machine) (v : BitVec 64) : Option (BitVec 64) :=
  if v.toInt < 0 then m.neg v else some v

/-- With `v` in its slot the conversion `c` comes to its end: it has something to print, and that
leaves nothing of the width to pad. -/
def Fills (m : Machine) (c : Byte) (width : Int) (longness : Nat) (v : BitVec 64) : Prop :=
  if c = byteOf 'd' then ∃ n, m.absolute (signedSlot longness v) = some n ∧
    digitWidth (signedSlot longness v) width ≤ (numeral 10 n.toNat).length
  else if c = byteOf 'u' then width ≤ (numeral 10 (unsignedSlot longness v).toNat).length
  else if c = byteOf 'x' ∨ c = byteOf 'X' then
    width ≤ (numeral 16 (unsignedSlot longness v).toNat).length
  else if c = byteOf 'p' then (16 : Int) ≤ (numeral 16 v.toNat).length
  else if c = byteOf 's' then (m.stringAt v).isSome
  else True

/-- The conversion `c` comes to its end with the slots from `ap` on. -/
def Ends (m : Machine) (c : Byte) (width : Int) (longness ap : Nat) : Prop :=
  c ∈ argumentBytes → ∃ v, m.slots ap = some v ∧ m.Fills c width longness v

section Converting

variable {out : List Byte} {ap : Nat}

theorem onOutput_drtPutn_runs {base : Nat} (hbase : base = 10 ∨ base = 16) (n : BitVec 64)
    (width : Int) (pad : Byte) (upper : Bool) (st : SlotState) :
    RunsIff (fun k => onOutput (drtPutn k n base width pad upper)) st
      (width ≤ (numeral base n.toNat).length) ()
      ⟨st.out ++ numeralBytes upper base n.toNat, st.ap⟩ :=
  onOutput_runs (drtPutn_runs hbase n width pad upper ⟨st.out, []⟩)

theorem drtPutsn_runs (m : Machine) (v : BitVec 64) (width : Int) (pad : Byte) (st : SlotState) :
    ∃ out', RunsIff (fun k => m.drtPutsn k v 10 width pad) st
      (∃ n, m.absolute v = some n ∧ digitWidth v width ≤ (numeral 10 n.toNat).length) ()
      ⟨out', st.ap⟩ := by
  by_cases hneg : v.toInt < 0
  · have hwidth : (if width > 0 then width - 1 else width) = digitWidth v width := by
      simp [digitWidth, hneg]
    have hsign := onOutput_ok (drtPutchar_run ⟨st.out, []⟩ (show byteOf '-' ≠ 0 by decide))
    have heq : ∀ k, m.drtPutsn k v 10 width pad st =
        (onOutput (drtPutchar (byteOf '-')) >>= fun _ => orOverflow (m.neg v) >>= fun n =>
          onOutput (drtPutn k n 10 (digitWidth v width) pad false)) st := fun k => by
      rw [drtPutsn, if_pos hneg, hwidth]
    rw [absolute, if_pos hneg]
    cases hn : m.neg v with
    | none =>
        refine ⟨[], (RunsIff.never fun k b t hrun => ?_).congr_iff (by simp)⟩
        rw [heq, bind_run hsign, hn] at hrun
        cases hrun
    | some n =>
        have hnumber := onOutput_drtPutn_runs (Or.inl rfl) n (digitWidth v width) pad false
          ⟨(PrintState.print ⟨st.out, []⟩ [byteOf '-']).out, st.ap⟩
        have hrun := RunsIff.step_bind (f := fun k _ => orOverflow (some n) >>= fun n =>
          onOutput (drtPutn k n 10 (digitWidth v width) pad false)) hsign
          (RunsIff.step_bind (x := orOverflow (some n)) rfl hnumber)
        simp only [hn] at heq
        exact ⟨_, (hrun.congr_iff (by simp)).congr_run heq⟩
  · have hwidth : digitWidth v width = width := by
      simp [digitWidth, hneg]
    rw [absolute, if_neg hneg, hwidth]
    refine ⟨_, ((onOutput_drtPutn_runs (Or.inl rfl) v width pad false st).congr_iff
      (by simp)).congr_run fun k => ?_⟩
    rw [drtPutsn, if_neg hneg]

/-- **A conversion** takes a slot if it has an argument, and ends exactly where `Ends` says. -/
theorem drtConvert_runs (m : Machine) (c : Byte) (width : Int) (pad : Byte) (longness : Nat)
    (out : List Byte) (ap : Nat) :
    ∃ out', RunsIff (fun k => m.drtConvert k c width pad longness) ⟨out, ap⟩
      (m.Ends c width longness ap) () ⟨out', ap + slotsTaken c⟩ := by
  by_cases hc : c ∈ argumentBytes
  · have htaken : slotsTaken c = 1 := if_pos hc
    have hends : m.Ends c width longness ap ↔
        ∃ v, m.slots ap = some v ∧ m.Fills c width longness v := by simp [Ends, hc]
    simp only [argumentBytes, List.map_cons, List.map_nil, List.mem_cons, List.not_mem_nil,
      or_false] at hc
    rw [htaken]
    suffices hrun : ∃ out', RunsIff (fun k => m.drtConvert k c width pad longness) ⟨out, ap⟩
        (∃ v, m.slots ap = some v ∧ m.Fills c width longness v) () ⟨out', ap + 1⟩ by
      obtain ⟨out', hrun⟩ := hrun
      exact ⟨out', hrun.congr_iff hends.symm⟩
    rcases hc with rfl | rfl | rfl | rfl | rfl | rfl | rfl
    · simp only [drtConvert, if_pos, vaSigned_eq, bind_assoc, pure_bind]
      exact vaSlot_bind_runs fun v => m.drtPutsn_runs _ width pad ⟨out, ap + 1⟩
    · simp +decide only [drtConvert, if_true, if_false, vaUnsigned_eq, bind_assoc, pure_bind]
      exact vaSlot_bind_runs fun v => ⟨_, onOutput_drtPutn_runs (Or.inl rfl) _ width pad false _⟩
    · simp +decide only [drtConvert, if_true, if_false, vaUnsigned_eq, bind_assoc, pure_bind]
      exact vaSlot_bind_runs fun v => ⟨_, onOutput_drtPutn_runs (Or.inr rfl) _ width pad false _⟩
    · simp +decide only [drtConvert, if_true, if_false, vaUnsigned_eq, bind_assoc, pure_bind]
      exact vaSlot_bind_runs fun v => ⟨_, onOutput_drtPutn_runs (Or.inr rfl) _ width pad true _⟩
    · have hzerox : onOutput (drtPuts [byteOf '0', byteOf 'x']) ⟨out, ap⟩
          = .ok () ⟨out ++ [byteOf '0', byteOf 'x'], ap⟩ := rfl
      have hputn := fun v => onOutput_drtPutn_runs (Or.inr rfl) v 16 (byteOf '0') false
        ⟨out ++ [byteOf '0', byteOf 'x'], ap + 1⟩
      obtain ⟨out', hrun⟩ := vaSlot_bind_runs (m := m) fun v => ⟨_, hputn v⟩
      simp +decide only [drtConvert, if_true, if_false]
      exact ⟨out', RunsIff.step_bind hzerox hrun⟩
    · simp +decide only [drtConvert, if_true, if_false, vaStr, bind_assoc]
      refine vaSlot_bind_runs fun v => ?_
      cases htext : m.stringAt v with
      | none =>
          refine ⟨[], (RunsIff.never fun k b t hrun => ?_).congr_iff
            (by simp +decide [Fills, htext])⟩
          cases hrun
      | some text =>
          exact ⟨_, (RunsIff.step (x := onOutput (drtPuts text)) rfl).congr_iff
            (by simp +decide [Fills, htext])⟩
    · simp +decide only [drtConvert, if_true, if_false]
      exact vaSlot_bind_runs fun v => ⟨_,
        (RunsIff.step (x := onOutput (drtPutchar _)) rfl).congr_iff (by simp +decide [Fills])⟩
  · have htaken : slotsTaken c = 0 := if_neg hc
    have hends : True ↔ m.Ends c width longness ap := by simp [Ends, hc]
    simp only [argumentBytes, List.map_cons, List.map_nil, List.mem_cons, List.not_mem_nil,
      or_false, not_or] at hc
    obtain ⟨hd, hu, hx, hX, hp, hs, hc⟩ := hc
    rw [htaken]
    by_cases hpercent : c = byteOf '%'
    · refine ⟨_, (RunsIff.step (onOutput_print_run [byteOf '%', 0] ⟨out, ap⟩)).congr_iff hends
        |>.congr_run fun k => ?_⟩
      rw [drtConvert, if_neg hd, if_neg hu, if_neg hx, if_neg hX, if_neg hp, if_neg hs, if_neg hc,
        if_pos hpercent]
      rfl
    · refine ⟨_, (RunsIff.step_bind (f := fun _ _ => onOutput (drtPutchar c))
        (onOutput_print_run [byteOf '%', 0] ⟨out, ap⟩)
        (RunsIff.step (onOutput_print_run [c, 0] _))).congr_iff hends |>.congr_run fun k => ?_⟩
      rw [drtConvert, if_neg hd, if_neg hu, if_neg hx, if_neg hX, if_neg hp, if_neg hs, if_neg hc,
        if_neg hpercent]
      rfl

theorem drtPutsn_stops_iff (m : Machine) (k : Nat) (v : BitVec 64) (width : Int) (pad : Byte)
    (st : SlotState) :
    (∃ t, m.drtPutsn k v 10 width pad st = .error (.fault .signedOverflow) t) ↔
      v = BitVec.intMin 64 ∧ m.negMin = none := by
  have hputn := fun n width => onOutput_drtPutn_neverFails (e := .fault .signedOverflow)
    (by decide) (by decide) k n 10 width pad false
  have hsign := onOutput_print_run [byteOf '-', 0] st
  constructor
  · rintro ⟨t, hfail⟩
    rw [drtPutsn] at hfail
    split at hfail
    · rcases bind_eq_error.mp hfail with hfirst | ⟨_, s, -, hrest⟩
      · exact absurd hfirst (onOutput_print_neverFails (by decide) _ _ _)
      · rcases bind_eq_error.mp hrest with hneg | ⟨n, s', -, hnumber⟩
        · by_contra hnot
          cases hn : m.neg v with
          | none =>
              apply hnot
              by_cases hmin : v = BitVec.intMin 64
              · rw [neg, if_pos hmin] at hn
                exact ⟨hmin, hn⟩
              · rw [neg, if_neg hmin] at hn
                cases hn
          | some n =>
              rw [hn] at hneg
              cases hneg
        · exact absurd hnumber (hputn _ _ _ _)
    · exact absurd hfail (hputn _ _ _ _)
  · rintro ⟨rfl, hnone⟩
    have hneg : m.neg (BitVec.intMin 64) = none := (if_pos rfl).trans hnone
    refine ⟨⟨st.out ++ [byteOf '-', 0].takeWhile (· ≠ 0), st.ap⟩, ?_⟩
    rw [drtPutsn, if_pos (by decide), drtPutchar, bind_run hsign, hneg]
    exact bind_eq_error.mpr (Or.inl rfl)

theorem drtPutsn_inside (m : Machine) (k : Nat) (v : BitVec 64) (width : Int) (pad : Byte) :
    NeverFails (.fault .readPastEnd) (m.drtPutsn k v 10 width pad) := by
  have hputn := fun n width => onOutput_drtPutn_neverFails (e := .fault .readPastEnd)
    (by decide) (by decide) k n 10 width pad false
  apply NeverFails.ite
  · refine (onOutput_print_neverFails (by decide) _).bind fun _ => ?_
    refine NeverFails.bind (fun s t hfail => ?_) fun n => hputn n _
    cases hn : m.neg v <;> rw [hn] at hfail <;> cases hfail
  · exact hputn v width

/-- No conversion but `%d` negates, and none reads the format. -/
theorem drtConvert_neverFails (m : Machine) {e : PrintStop} (hbudget : .outOfBudget ≠ e)
    (hfull : .fault .bufferOverflow ≠ e) (harg : .fault .badArgument ≠ e) (k : Nat) (c : Byte)
    (width : Int) (pad : Byte) (longness : Nat)
    (hputsn : c = byteOf 'd' → ∀ v, NeverFails e (m.drtPutsn k v 10 width pad)) :
    NeverFails e (m.drtConvert k c width pad longness) := by
  have hputn := fun v base width pad upper =>
    onOutput_drtPutn_neverFails (e := e) hbudget hfull k v base width pad upper
  have hprint := onOutput_print_neverFails hbudget
  rw [drtConvert, vaSigned_eq, vaUnsigned_eq]
  split_ifs with hd
  · rw [bind_assoc]
    exact vaSlot_bind_neverFails harg fun v => hputsn hd _
  · rw [bind_assoc]
    exact vaSlot_bind_neverFails harg fun v => hputn _ _ _ _ _
  · rw [bind_assoc]
    exact vaSlot_bind_neverFails harg fun v => hputn _ _ _ _ _
  · rw [bind_assoc]
    exact vaSlot_bind_neverFails harg fun v => hputn _ _ _ _ _
  · exact (hprint _).bind fun _ => vaSlot_bind_neverFails harg fun v => hputn _ _ _ _ _
  · rw [vaStr, bind_assoc]
    refine vaSlot_bind_neverFails harg fun v => NeverFails.bind ?_ fun text => hprint _
    split
    · exact fun s t hfail => by cases hfail
    · intro s t hfail
      cases hfail
      exact harg rfl
  · exact vaSlot_bind_neverFails harg fun v => hprint _
  · exact hprint _
  · exact (hprint _).bind fun _ => hprint _

theorem drtConvert_inside (m : Machine) (k : Nat) (c : Byte) (width : Int) (pad : Byte)
    (longness : Nat) :
    NeverFails (.fault .readPastEnd) (m.drtConvert k c width pad longness) :=
  m.drtConvert_neverFails (by decide) (by decide) (by decide) k c width pad longness
    fun _ v => m.drtPutsn_inside k v width pad

theorem drtConvert_stops_iff (m : Machine) (k : Nat) (c : Byte) (width : Int) (pad : Byte)
    (longness : Nat) (out : List Byte) (ap : Nat) :
    (∃ t, m.drtConvert k c width pad longness ⟨out, ap⟩ = .error (.fault .signedOverflow) t) ↔
      c = byteOf 'd' ∧ m.negMin = none ∧
        (m.slots ap).map (signedSlot longness) = some (BitVec.intMin 64) := by
  by_cases hd : c = byteOf 'd'
  · have heq : m.drtConvert k c width pad longness =
        m.vaSlot >>= fun v => m.drtPutsn k (signedSlot longness v) 10 width pad := by
      rw [drtConvert, if_pos hd, vaSigned_eq, bind_assoc]
      simp only [pure_bind]
    rw [heq]
    cases hslot : m.slots ap with
    | none =>
        rw [bind_eq_error.mpr (Or.inl (vaSlot_missing hslot))]
        simp
    | some v =>
        rw [bind_run (vaSlot_run hslot), m.drtPutsn_stops_iff]
        simp [hd, and_comm]
  · simp only [hd, false_and, iff_false, not_exists]
    exact m.drtConvert_neverFails (by decide) (by decide) (by decide) k c width pad longness
      (fun h => absurd h hd) _

end Converting

/-! ### Scanning a directive -/

/-- The width a directive spells, as the machine computes it. -/
def widthFrom (m : Machine) (digits : List Byte) (width : Int) : Option Int :=
  digits.foldlM (fun w c => (m.int (w * 10)).bind fun scaled =>
    m.int (scaled + ((c.toNat : Int) - (byteOf '0').toNat))) width

def width (m : Machine) (text : List Byte) : Option Int := m.widthFrom (spelledDigits text) 0

section Scanning

variable {mem text rest : List Byte} {p : Nat} {st : SlotState}

theorem drtRead_run {c : Byte} (hat : At mem p (c :: rest)) (st : SlotState) :
    drtRead mem p st = .ok c st := by
  obtain ⟨done, rfl, rfl⟩ := hat
  simp [drtRead, pure, EStateM.pure]

theorem drtRead_end (hat : At mem p []) (st : SlotState) :
    drtRead mem p st = .error (.fault .readPastEnd) st := by
  obtain ⟨done, rfl, rfl⟩ := hat
  simp [drtRead]
  rfl

theorem drtSkip_run {α : Type} {c c' : Byte} (hat : At mem p (c' :: rest)) (v x : α)
    (st : SlotState) :
    ∃ p', drtSkip mem c v p x st = .ok (p', if c' = c then v else x) st ∧
      At mem p' (skipByte c (c' :: rest)) := by
  by_cases hhead : c' = c
  · refine ⟨p + 1, ?_, ?_⟩
    · rw [drtSkip, bind_run (drtRead_run hat st), if_pos hhead, if_pos hhead]
      rfl
    · rw [skipByte, List.headD_cons, if_pos hhead]
      exact hat.next
  · refine ⟨p, ?_, ?_⟩
    · rw [drtSkip, bind_run (drtRead_run hat st), if_neg hhead, if_neg hhead]
      rfl
    · rwa [skipByte, List.headD_cons, if_neg hhead]

theorem drtSkip_end {α : Type} {c : Byte} (hat : At mem p []) (v x : α) (st : SlotState) :
    drtSkip mem c v p x st = .error (.fault .readPastEnd) st :=
  bind_eq_error.mpr (Or.inl (drtRead_end hat st))

/-- The length letters and the conversion character, if the memory holds one. -/
theorem drtLongness_scan {c : Byte} (hat : At mem p (afterWidth text))
    (hconversion : conversionAt text = c :: rest) (st : SlotState) :
    ∃ p', drtLongness mem p st = .ok (p', spelledLongness text) st ∧ At mem p' (c :: rest) := by
  have hchain := hconversion
  rw [conversionAt] at hchain
  obtain ⟨c₂, text₂, h₂⟩ := skipByte_eq_cons hchain
  obtain ⟨c₁, text₁, h₁⟩ := skipByte_eq_cons h₂
  obtain ⟨c₀, text₀, h₀⟩ := skipByte_eq_cons h₁
  have hat₀ : At mem p (c₀ :: text₀) := h₀ ▸ hat
  obtain ⟨p₁, hfirst, hat₁⟩ := drtSkip_run (c := byteOf 'l') hat₀ 1 0 st
  rw [← h₀, h₁] at hat₁
  obtain ⟨p₂, hsecond, hat₂⟩ :=
    drtSkip_run (c := byteOf 'l') hat₁ 2 (if c₀ = byteOf 'l' then 1 else 0) st
  rw [← h₁, h₂] at hat₂
  obtain ⟨p₃, hthird, hat₃⟩ := drtSkip_run (c := byteOf 'z') hat₂ 3
    (if c₁ = byteOf 'l' then 2 else if c₀ = byteOf 'l' then 1 else 0) st
  rw [← h₂, hchain] at hat₃
  refine ⟨p₃, ?_, hat₃⟩
  have hlongness : spelledLongness text = if c₂ = byteOf 'z' then 3 else
      if c₁ = byteOf 'l' then 2 else if c₀ = byteOf 'l' then 1 else 0 := by
    rw [spelledLongness, h₂, h₁, h₀, List.headD_cons, List.headD_cons, List.headD_cons]
  rw [drtLongness, bind_run hfirst]
  dsimp only
  rw [bind_run hsecond, hlongness]
  exact hthird

/-- Memory that ends before the conversion character ends the scan. -/
theorem drtLongness_end {f : Nat × Nat → SlotPrint Nat} (hat : At mem p (afterWidth text))
    (hconversion : conversionAt text = []) (st : SlotState)
    (hread : ∀ r, At mem r.1 [] → f r st = .error (.fault .readPastEnd) st) :
    (drtLongness mem p >>= f) st = .error (.fault .readPastEnd) st := by
  rw [drtLongness, bind_assoc]
  rw [conversionAt] at hconversion
  cases h₀ : afterWidth text with
  | nil =>
      rw [h₀] at hat
      exact bind_eq_error.mpr (Or.inl (drtSkip_end hat 1 0 st))
  | cons c₀ text₀ =>
      rw [h₀] at hat hconversion
      obtain ⟨p₁, hfirst, hat₁⟩ := drtSkip_run (c := byteOf 'l') hat 1 0 st
      rw [bind_run hfirst]
      dsimp only
      rw [bind_assoc]
      cases h₁ : skipByte (byteOf 'l') (c₀ :: text₀) with
      | nil =>
          rw [h₁] at hat₁
          exact bind_eq_error.mpr (Or.inl (drtSkip_end hat₁ _ _ st))
      | cons c₁ text₁ =>
          rw [h₁] at hat₁ hconversion
          obtain ⟨p₂, hsecond, hat₂⟩ :=
            drtSkip_run (c := byteOf 'l') hat₁ 2 (if c₀ = byteOf 'l' then 1 else 0) st
          rw [bind_run hsecond]
          dsimp only
          cases h₂ : skipByte (byteOf 'l') (c₁ :: text₁) with
          | nil =>
              rw [h₂] at hat₂
              exact bind_eq_error.mpr (Or.inl (drtSkip_end hat₂ _ _ st))
          | cons c₂ text₂ =>
              rw [h₂] at hat₂ hconversion
              obtain ⟨p₃, hthird, hat₃⟩ := drtSkip_run (c := byteOf 'z') hat₂ 3
                (if c₁ = byteOf 'l' then 2 else if c₀ = byteOf 'l' then 1 else 0) st
              rw [hconversion] at hat₃
              rw [bind_run hthird]
              exact hread _ hat₃

/-- What the width loop comes to over `digits` when `rest` stands behind them. -/
def widthOutcome (m : Machine) (digits rest : List Byte) (p : Nat) (start : Int) (st : SlotState) :
    EStateM.Result PrintStop SlotState (Nat × Int) :=
  match m.widthFrom digits start with
  | none => .error (.fault .signedOverflow) st
  | some width =>
      if rest = [] then .error (.fault .readPastEnd) st else .ok (p + digits.length, width) st

theorem drtWidthLoop_settles (m : Machine) (digits : List Byte) {start : Int}
    (hdigits : ∀ c ∈ digits, IsDigit c) (hat : At mem p (digits ++ rest))
    (hrest : ∀ c ∈ rest.head?, ¬ IsDigit c) (st : SlotState) :
    Settles (fun k => m.drtWidthLoop mem k p start) st .outOfBudget
      (m.widthOutcome digits rest p start st) := by
  have hzero : ∀ p start, ∃ t, m.drtWidthLoop mem 0 p start st = .error .outOfBudget t :=
    fun p start => ⟨st, rfl⟩
  induction digits generalizing p start with
  | nil =>
      refine Settles.unroll (hzero p start) (fun k => ?_)
        (Settles.done (fun _ => m.widthOutcome [] rest p start st) st .outOfBudget)
      cases rest with
      | nil =>
          rw [drtWidthLoop, bind_eq_error.mpr (Or.inl (drtRead_end hat st))]
          rfl
      | cons c rest =>
          have hc : ¬ (byteOf '0' ≤ c ∧ c ≤ byteOf '9') := hrest c rfl
          rw [drtWidthLoop, bind_run (drtRead_run hat st), if_neg hc]
          rfl
  | cons c digits ih =>
      have hc : byteOf '0' ≤ c ∧ c ≤ byteOf '9' := hdigits c (List.mem_cons_self ..)
      have hstep : ∀ k, m.drtWidthLoop mem (k + 1) p start st = (orOverflow (m.int (start * 10)) >>=
          fun scaled => orOverflow (m.int (scaled + (c.toNat - (byteOf '0').toNat))) >>=
            m.drtWidthLoop mem k (p + 1)) st := by
        intro k
        rw [drtWidthLoop, bind_run (drtRead_run hat st), if_pos hc]
      have hfails : ∀ e, (∀ k, m.drtWidthLoop mem (k + 1) p start st = .error e st) →
          Settles (fun k => m.drtWidthLoop mem k p start) st .outOfBudget (.error e st) := by
        intro e hfail
        exact Settles.unroll (hzero p start) hfail (Settles.done (fun st => .error e st) st _)
      have hcursor : p + 1 + digits.length = p + (c :: digits).length := by
        rw [List.length_cons]
        omega
      cases hscaled : m.int (start * 10) with
      | none =>
          have houtcome : m.widthOutcome (c :: digits) rest p start st
              = .error (.fault .signedOverflow) st := by
            simp [widthOutcome, widthFrom, hscaled]
          rw [houtcome]
          refine hfails _ fun k => ?_
          rw [hstep, hscaled]
          rfl
      | some scaled =>
          cases hwidth : m.int (scaled + (c.toNat - (byteOf '0').toNat)) with
          | none =>
              have houtcome : m.widthOutcome (c :: digits) rest p start st
                  = .error (.fault .signedOverflow) st := by
                simp [widthOutcome, widthFrom, hscaled, hwidth]
              rw [houtcome]
              refine hfails _ fun k => ?_
              rw [hstep, hscaled, bind_run (x := orOverflow (some scaled)) rfl, hwidth]
              rfl
          | some width =>
              have htail := @ih (p + 1) width
                (fun c' hc' => hdigits c' (List.mem_cons_of_mem _ hc')) hat.next
              have houtcome : m.widthOutcome (c :: digits) rest p start st
                  = m.widthOutcome digits rest (p + 1) width st := by
                simp [widthOutcome, widthFrom, hscaled, hwidth, hcursor]
              rw [houtcome]
              refine Settles.unroll (hzero p start) (fun k => ?_) htail
              rw [hstep, hscaled, bind_run (x := orOverflow (some scaled)) rfl, hwidth,
                bind_run (x := orOverflow (some width)) rfl]

theorem exists_drtDirective_eq (m : Machine) (hat : At mem p text) (hne : text ≠ [])
    (st : SlotState) :
    ∃ p₁ pad, At mem (p₁ + (spelledDigits text).length) (afterWidth text) ∧
      Settles (fun k => m.drtWidthLoop mem k p₁ 0) st .outOfBudget
        (m.widthOutcome (spelledDigits text) (afterWidth text) p₁ 0 st) ∧
      ∀ k, m.drtDirective k mem p st = (m.drtWidthLoop mem k p₁ 0 >>= fun r =>
        drtLongness mem r.1 >>= fun l => drtRead mem l.1 >>= fun c =>
          m.drtConvert k c r.2 pad l.2 >>= fun _ => pure l.1) st := by
  obtain ⟨c, tail, rfl⟩ := List.exists_cons_of_ne_nil hne
  obtain ⟨p₁, hflag, hat₁⟩ := drtSkip_run (c := byteOf '0') hat (byteOf '0') (byteOf ' ') st
  have hsplit : spelledDigits (c :: tail) ++ afterWidth (c :: tail) = afterFlag (c :: tail) :=
    List.takeWhile_append_dropWhile
  have hat₁' : At mem p₁ (spelledDigits (c :: tail) ++ afterWidth (c :: tail)) := by
    rw [hsplit]
    exact hat₁
  have hdigits : ∀ c' ∈ spelledDigits (c :: tail), IsDigit c' := fun c' hc' => by
    simpa using List.mem_takeWhile_imp hc'
  have hrest : ∀ c' ∈ (afterWidth (c :: tail)).head?, ¬ IsDigit c' := by
    intro c' hc'
    have hnot := not_isDigit_afterWidth (c :: tail)
    rwa [List.headD_eq_head?_getD, Option.mem_def.mp hc'] at hnot
  refine ⟨p₁, if c = byteOf '0' then byteOf '0' else byteOf ' ', hat₁'.skip,
    m.drtWidthLoop_settles _ hdigits hat₁' hrest st, fun k => ?_⟩
  rw [drtDirective, bind_run hflag]

variable {m : Machine} {c : Byte} {w : Int}

theorem drtDirective_end (hat : At mem p []) (k : Nat) (st : SlotState) :
    m.drtDirective k mem p st = .error (.fault .readPastEnd) st :=
  bind_eq_error.mpr (Or.inl (drtSkip_end hat _ _ st))

theorem afterWidth_ne_nil (hconversion : conversionAt text = c :: rest) : afterWidth text ≠ [] := by
  intro hnil
  rw [conversionAt, hnil] at hconversion
  simp [skipByte] at hconversion

theorem ne_nil_of_afterWidth (hne : afterWidth text ≠ []) : text ≠ [] := by
  rintro rfl
  exact hne rfl

/-- A width the machine does not get through stops the directive. -/
theorem drtDirective_overflows (hat : At mem p text) (hwidth : m.width text = none)
    (st : SlotState) :
    Settles (fun k => m.drtDirective k mem p) st .outOfBudget
      (.error (.fault .signedOverflow) st) := by
  have hne : text ≠ [] := by
    rintro rfl
    cases hwidth
  obtain ⟨p₁, pad, -, hloop, heq⟩ := m.exists_drtDirective_eq hat hne st
  have houtcome : m.widthOutcome (spelledDigits text) (afterWidth text) p₁ 0 st
      = .error (.fault .signedOverflow) st := by
    rw [width] at hwidth
    simp [widthOutcome, hwidth]
  rw [houtcome] at hloop
  exact hloop.bind_error.congr_run heq

/-- So does memory that ends before the conversion character. -/
theorem drtDirective_truncated (hat : At mem p text) (hwidth : m.width text = some w)
    (hconversion : conversionAt text = []) (st : SlotState) :
    Settles (fun k => m.drtDirective k mem p) st .outOfBudget
      (.error (.fault .readPastEnd) st) := by
  by_cases hne : text = []
  · subst hne
    exact (Settles.done (throw (PrintStop.fault .readPastEnd)) st _).congr_run fun k =>
      drtDirective_end hat k st
  · obtain ⟨p₁, pad, hat', hloop, heq⟩ := m.exists_drtDirective_eq hat hne st
    rw [width] at hwidth
    by_cases hend : afterWidth text = []
    · have houtcome : m.widthOutcome (spelledDigits text) (afterWidth text) p₁ 0 st
          = .error (.fault .readPastEnd) st := by simp [widthOutcome, hwidth, hend]
      rw [houtcome] at hloop
      exact hloop.bind_error.congr_run heq
    · have houtcome : m.widthOutcome (spelledDigits text) (afterWidth text) p₁ 0 st
          = .ok (p₁ + (spelledDigits text).length, w) st := by simp [widthOutcome, hwidth, hend]
      rw [houtcome] at hloop
      obtain ⟨⟨N, hN⟩, honly⟩ := hloop.bind_ok (f := fun k r => drtLongness mem r.1 >>= fun l =>
        drtRead mem l.1 >>= fun c => m.drtConvert k c r.2 pad l.2 >>= fun _ => pure l.1)
      have hfails := fun k => drtLongness_end (f := fun l => drtRead mem l.1 >>= fun c =>
        m.drtConvert k c w pad l.2 >>= fun _ => pure l.1) hat' hconversion st
        fun r hr => bind_eq_error.mpr (Or.inl (drtRead_end hr st))
      refine Settles.congr_run ⟨⟨N, fun k hk => (hN k hk).trans (hfails k)⟩, fun k => ?_⟩ heq
      exact (honly k).imp_left fun h => h.trans (hfails k)

/-- A complete directive is its conversion. -/
theorem drtDirective_complete (hat : At mem p text) (hwidth : m.width text = some w)
    (hconversion : conversionAt text = c :: rest) (st : SlotState) :
    ∃ q pad, At mem q (c :: rest) ∧
      (∃ N, ∀ k, N ≤ k → m.drtDirective k mem p st =
        (m.drtConvert k c w pad (spelledLongness text) >>= fun _ => pure q) st) ∧
      ∀ k, m.drtDirective k mem p st =
          (m.drtConvert k c w pad (spelledLongness text) >>= fun _ => pure q) st ∨
        ∃ t, m.drtDirective k mem p st = .error .outOfBudget t := by
  have hne := afterWidth_ne_nil hconversion
  obtain ⟨p₁, pad, hat', hloop, heq⟩ := m.exists_drtDirective_eq hat (ne_nil_of_afterWidth hne) st
  rw [width] at hwidth
  have houtcome : m.widthOutcome (spelledDigits text) (afterWidth text) p₁ 0 st
      = .ok (p₁ + (spelledDigits text).length, w) st := by simp [widthOutcome, hwidth, hne]
  rw [houtcome] at hloop
  obtain ⟨q, hlength, hat''⟩ := drtLongness_scan hat' hconversion st
  have htail : ∀ k, (drtLongness mem (p₁ + (spelledDigits text).length) >>= fun l =>
      drtRead mem l.1 >>= fun c => m.drtConvert k c w pad l.2 >>= fun _ => pure l.1) st
      = (m.drtConvert k c w pad (spelledLongness text) >>= fun _ => pure q) st := by
    intro k
    rw [bind_run hlength]
    dsimp only
    rw [bind_run (drtRead_run hat'' st)]
  obtain ⟨⟨N, hN⟩, honly⟩ := hloop.bind_ok (f := fun k r => drtLongness mem r.1 >>= fun l =>
    drtRead mem l.1 >>= fun c => m.drtConvert k c r.2 pad l.2 >>= fun _ => pure l.1)
  refine ⟨q, pad, hat'', ⟨N, fun k hk => ?_⟩, fun k => ?_⟩
  · rw [heq k, hN k hk]
    exact htail k
  · rw [heq k]
    exact (honly k).imp_left fun h => h.trans (htail k)

theorem drtDirective_ok {k q : Nat} {out : List Byte} {ap : Nat} {t : SlotState}
    (hat : At mem p text) (hok : m.drtDirective k mem p ⟨out, ap⟩ = .ok q t) :
    ∃ c rest w, conversionAt text = c :: rest ∧ m.width text = some w ∧
      m.Ends c w (spelledLongness text) ap ∧ At mem q (c :: rest) ∧ t.ap = ap + slotsTaken c := by
  cases hwidth : m.width text with
  | none => cases (drtDirective_overflows hat hwidth _).eq_of_ok hok
  | some w =>
      cases hconversion : conversionAt text with
      | nil => cases (drtDirective_truncated hat hwidth hconversion _).eq_of_ok hok
      | cons c rest =>
          obtain ⟨q', pad, hat', -, honly⟩ := drtDirective_complete hat hwidth hconversion ⟨out, ap⟩
          rcases honly k with hrun | ⟨s, hlate⟩
          · rw [hrun] at hok
            obtain ⟨⟨⟩, s, hconvert, hpure⟩ := bind_eq_ok.mp hok
            obtain ⟨out', hruns⟩ := m.drtConvert_runs c w pad (spelledLongness text) out ap
            obtain ⟨hends, -, rfl⟩ := hruns.sound k _ _ hconvert
            cases hpure
            exact ⟨c, rest, w, rfl, rfl, hends, hat', rfl⟩
          · cases hok.symm.trans hlate

theorem drtDirective_run (hat : At mem p text) (hwidth : m.width text = some w)
    (hconversion : conversionAt text = c :: rest) {ap : Nat}
    (hends : m.Ends c w (spelledLongness text) ap) (out : List Byte) :
    ∃ q out' N, At mem q (c :: rest) ∧ ∀ k, N ≤ k →
      m.drtDirective k mem p ⟨out, ap⟩ = .ok q ⟨out', ap + slotsTaken c⟩ := by
  obtain ⟨q, pad, hat', ⟨N, hN⟩, -⟩ := drtDirective_complete hat hwidth hconversion ⟨out, ap⟩
  obtain ⟨out', hruns⟩ := m.drtConvert_runs c w pad (spelledLongness text) out ap
  obtain ⟨M, hM⟩ := hruns.total hends
  refine ⟨q, out', max N M, hat', fun k hk => ?_⟩
  rw [hN k (by omega), bind_run (hM k (by omega))]
  rfl

/-- A directive with a conversion character is read inside the memory. -/
theorem drtDirective_inside (hat : At mem p text) (hconversion : conversionAt text = c :: rest)
    (k : Nat) (st t : SlotState) :
    m.drtDirective k mem p st ≠ .error (.fault .readPastEnd) t := by
  intro hfail
  cases hwidth : m.width text with
  | none => cases (drtDirective_overflows hat hwidth _).eq_of_error hfail (by decide)
  | some w =>
      obtain ⟨q, pad, -, -, honly⟩ := drtDirective_complete hat hwidth hconversion st
      rcases honly k with hrun | ⟨s, hlate⟩
      · rw [hrun] at hfail
        rcases bind_eq_error.mp hfail with hconvert | ⟨_, s, -, hpure⟩
        · exact m.drtConvert_inside _ _ _ _ _ _ _ hconvert
        · cases hpure
      · cases hfail.symm.trans hlate

end Scanning

/-! ### The format loop -/

/-- From `text` and the slot `ap` the printer gets to `text'` and the slot `ap'`, over literal
characters and complete directives that come to their ends. -/
inductive Reaches (m : Machine) : List Byte → Nat → List Byte → Nat → Prop where
  | here {text : List Byte} {ap : Nat} : Reaches m text ap text ap
  | literal {c : Byte} {text text' : List Byte} {ap ap' : Nat} (hzero : c ≠ 0)
      (hpercent : c ≠ byteOf '%') (hrest : Reaches m text ap text' ap') :
      Reaches m (c :: text) ap text' ap'
  | directive {c : Byte} {w : Int} {text rest text' : List Byte} {ap ap' : Nat}
      (hwidth : m.width text = some w) (hconversion : conversionAt text = c :: rest)
      (hends : m.Ends c w (spelledLongness text) ap)
      (hrest : Reaches m rest (ap + slotsTaken c) text' ap') :
      Reaches m (byteOf '%' :: text) ap text' ap'

section Formats

variable {m : Machine} {mem text text' : List Byte} {p ap ap' : Nat}

theorem drtVprintfLoop_end (hat : At mem p []) (k : Nat) (st : SlotState) :
    m.drtVprintfLoop mem (k + 1) p st = .error (.fault .readPastEnd) st :=
  bind_eq_error.mpr (Or.inl (drtRead_end hat st))

theorem drtVprintfLoop_literal {c : Byte} (hat : At mem p (c :: text)) (hzero : c ≠ 0)
    (hpercent : c ≠ byteOf '%') (k : Nat) (st : SlotState) :
    m.drtVprintfLoop mem (k + 1) p st = m.drtVprintfLoop mem k (p + 1)
      ⟨st.out ++ [c, 0].takeWhile (· ≠ 0), st.ap⟩ := by
  rw [drtVprintfLoop, bind_run (drtRead_run hat st), if_neg hzero, if_pos hpercent, drtPutchar,
    bind_run (onOutput_print_run _ st)]

theorem drtVprintfLoop_percent (hat : At mem p (byteOf '%' :: text)) (k : Nat) (st : SlotState) :
    m.drtVprintfLoop mem (k + 1) p st
      = (m.drtDirective k mem (p + 1) >>= fun q => m.drtVprintfLoop mem k (q + 1)) st := by
  rw [drtVprintfLoop, bind_run (drtRead_run hat st), if_neg (by decide), if_neg (not_not.mpr rfl)]

/-- **Getting there.** With enough budget the printer is at the place it reaches. -/
theorem Reaches.run (hreaches : m.Reaches text ap text' ap') (hat : At mem p text)
    (out : List Byte) :
    ∃ p' out' d N, At mem p' text' ∧ ∀ k, N ≤ k →
      m.drtVprintfLoop mem (k + d) p ⟨out, ap⟩ = m.drtVprintfLoop mem k p' ⟨out', ap'⟩ := by
  induction hreaches generalizing p out with
  | here => exact ⟨p, out, 0, 0, hat, fun k _ => rfl⟩
  | literal hzero hpercent _ ih =>
      obtain ⟨p', out', d, N, hat', hrun⟩ := ih hat.next _
      refine ⟨p', out', d + 1, N, hat', fun k hk => ?_⟩
      rw [← Nat.add_assoc, drtVprintfLoop_literal hat hzero hpercent]
      exact hrun k hk
  | directive hwidth hconversion hends _ ih =>
      obtain ⟨q, out₁, M, hq, hdirective⟩ :=
        drtDirective_run hat.next hwidth hconversion hends out
      obtain ⟨p', out', d, N, hat', hrun⟩ := ih hq.next out₁
      refine ⟨p', out', d + 1, max N M, hat', fun k hk => ?_⟩
      rw [← Nat.add_assoc, drtVprintfLoop_percent hat, bind_run (hdirective (k + d) (by omega))]
      exact hrun k (by omega)

/-- **Where a run stops.** It stops behind the memory or in a directive it got to. -/
theorem reaches_of_fails {e : PrintStop} (he : e ≠ .outOfBudget) {k : Nat} {out : List Byte}
    {t : SlotState} (hat : At mem p text)
    (hfail : m.drtVprintfLoop mem k p ⟨out, ap⟩ = .error e t) :
    ∃ text' ap', m.Reaches text ap text' ap' ∧ (text' = [] ∧ e = .fault .readPastEnd ∨
      ∃ rest j q out', text' = byteOf '%' :: rest ∧ At mem q rest ∧
        m.drtDirective j mem q ⟨out', ap'⟩ = .error e t) := by
  induction k generalizing p text ap out with
  | zero =>
      cases hfail
      exact absurd rfl he
  | succ k ih =>
      cases text with
      | nil =>
          cases (drtVprintfLoop_end hat k _).symm.trans hfail
          exact ⟨[], ap, .here, Or.inl ⟨rfl, rfl⟩⟩
      | cons c text =>
          by_cases hzero : c = 0
          · rw [drtVprintfLoop, bind_run (drtRead_run hat _), if_pos hzero] at hfail
            cases hfail
          · by_cases hpercent : c = byteOf '%'
            · subst hpercent
              rw [drtVprintfLoop_percent hat] at hfail
              rcases bind_eq_error.mp hfail with hfirst | ⟨q, s, hdirective, hloop⟩
              · exact ⟨_, ap, .here, Or.inr ⟨text, k, p + 1, out, rfl, hat.next, hfirst⟩⟩
              · obtain ⟨c, rest, w, hconversion, hwidth, hends, hq, hap⟩ :=
                  drtDirective_ok hat.next hdirective
                obtain ⟨out', ap₁⟩ := s
                obtain rfl : ap₁ = ap + slotsTaken c := hap
                obtain ⟨text', ap', hreaches, hstops⟩ := ih hq.next hloop
                exact ⟨text', ap', .directive hwidth hconversion hends hreaches, hstops⟩
            · rw [drtVprintfLoop_literal hat hzero hpercent] at hfail
              obtain ⟨text', ap', hreaches, hstops⟩ := ih hat.next hfail
              exact ⟨text', ap', .literal hzero hpercent hreaches, hstops⟩

end Formats

end Machine

end Misan
