import Misan.Proof.PrintfScanning

/-!
# Formats one behind the other

A complete format is a text the scanner gets through without looking at what follows, and behind it
the scanner starts afresh. So the printer runs a format behind a complete one as it runs it alone,
with the arguments the complete one has left. What it prints there does not depend on what it has
printed before, nor what it prints first on the arguments behind its own.
-/

namespace Misan

/-! ### The format behind another -/

section Behind

variable (f g : List Byte)

theorem drtRead_behind (q : Nat) : drtRead (f ++ g) (f.length + q) = drtRead g q := by
  have hend : f.length + q = (f ++ g).length ↔ q = g.length := by
    rw [List.length_append]
    omega
  unfold drtRead
  rw [List.getElem?_append_right (Nat.le_add_right _ _), Nat.add_sub_cancel_left]
  simp only [hend]

theorem drtSkip_behind {α : Type} (c : Byte) (v : α) (q : Nat) (x : α) :
    drtSkip (f ++ g) c v (f.length + q) x =
      (fun r => (f.length + r.1, r.2)) <$> drtSkip g c v q x := by
  unfold drtSkip
  rw [drtRead_behind, map_bind]
  congr 1
  funext c'
  split
  · rw [map_pure, Nat.add_assoc]
  · rw [map_pure]

theorem drtWidthLoop_behind (k q : Nat) (width : Int) :
    drtWidthLoop (f ++ g) k (f.length + q) width =
      (fun r => (f.length + r.1, r.2)) <$> drtWidthLoop g k q width := by
  induction k generalizing q width with
  | zero => rfl
  | succ k ih =>
      rw [drtWidthLoop, drtWidthLoop, drtRead_behind, map_bind]
      congr 1
      funext c
      split
      · simp only [map_bind, Nat.add_assoc, ih]
      · rw [map_pure]

theorem drtLongness_behind (q : Nat) :
    drtLongness (f ++ g) (f.length + q) =
      (fun r => (f.length + r.1, r.2)) <$> drtLongness g q := by
  simp only [drtLongness, drtSkip_behind, bind_map_left, map_bind]

theorem drtDirective_behind (k q : Nat) :
    drtDirective k (f ++ g) (f.length + q) = (f.length + ·) <$> drtDirective k g q := by
  simp only [drtDirective, drtSkip_behind, drtWidthLoop_behind, drtLongness_behind, drtRead_behind,
    bind_map_left, map_bind, map_pure]

/-- **Behind another format** the cursor is off by its length, and nothing else. -/
theorem drtVprintfLoop_behind (k q : Nat) :
    drtVprintfLoop (f ++ g) k (f.length + q) = drtVprintfLoop g k q := by
  induction k generalizing q with
  | zero => rfl
  | succ k ih =>
      rw [drtVprintfLoop, drtVprintfLoop, drtRead_behind]
      simp only [drtDirective_behind, bind_map_left, Nat.add_assoc, ih]

end Behind

/-! ### Complete formats -/

/-- The conversion character `c` takes the arguments `args`, none if it is unknown. -/
def ConversionArgs (c : Byte) (longness : Nat) (args : List VaArg) : Prop :=
  (∃ (m : LengthModifier) (conversion : Conversion m), m.longness = longness ∧
    conversion.byte = c ∧ args = conversion.args) ∨
  (c ∉ conversionBytes ∧ args = [])

/-- The text consists of `pieces` literal characters and complete directives, and `args` are the
arguments its directives take, of the types their length letters select. -/
inductive FormatTakes : Nat → List Byte → List VaArg → Prop where
  | nil : FormatTakes 0 [] []
  | literal {pieces : Nat} {c : Byte} {text : List Byte} {args : List VaArg} (hzero : c ≠ 0)
      (hpercent : c ≠ byteOf '%') (hrest : FormatTakes pieces text args) :
      FormatTakes (pieces + 1) (c :: text) args
  | directive {pieces : Nat} {c : Byte} {text rest : List Byte} {args args' : List VaArg}
      (hconversion : conversionAt text = c :: rest) (hzero : c ≠ 0)
      (hargs : ConversionArgs c (spelledLongness text) args)
      (hrest : FormatTakes pieces rest args') :
      FormatTakes (pieces + 1) (byteOf '%' :: text) (args ++ args')

/-- No directive of the text asks for padding, with these arguments. -/
inductive FormatFits : List Byte → List VaArg → Prop where
  | nil : FormatFits [] []
  | literal {c : Byte} {text : List Byte} {args : List VaArg} (hzero : c ≠ 0)
      (hpercent : c ≠ byteOf '%') (hrest : FormatFits text args) : FormatFits (c :: text) args
  | directive {c : Byte} {text rest : List Byte} {args args' : List VaArg}
      (hwidth : spelledWidth text ≤ intMax) (hconversion : conversionAt text = c :: rest)
      (htakes : ConversionTakes c (spelledWidth text) (spelledLongness text) args args')
      (hrest : FormatFits rest args') : FormatFits (byteOf '%' :: text) args

section Inside

variable {f text : List Byte} {p : Nat} (g : List Byte) (st : PrintState)

theorem At.lt_length (hat : At f p text) (hne : text ≠ []) : p < f.length := by
  obtain ⟨done, rfl, rfl⟩ := hat
  have hpos := List.length_pos_iff.mpr hne
  rw [List.length_append]
  omega

theorem drtRead_inside (hat : At f p text) (hne : text ≠ []) :
    drtRead (f ++ g) p = drtRead f p := by
  unfold drtRead
  rw [List.getElem?_append_left (hat.lt_length hne), List.getElem?_eq_getElem (hat.lt_length hne)]

theorem drtSkip_inside {α : Type} (hat : At f p text) (hne : text ≠ []) (c : Byte) (v x : α) :
    drtSkip (f ++ g) c v p x = drtSkip f c v p x := by
  rw [drtSkip, drtSkip, drtRead_inside g hat hne]

theorem drtWidthLoop_inside (hat : At f p text) (hne : text.dropWhile (IsDigit ·) ≠ []) (k : Nat)
    (width : Int) : drtWidthLoop (f ++ g) k p width st = drtWidthLoop f k p width st := by
  induction k generalizing p text width st with
  | zero => rfl
  | succ k ih =>
      cases text with
      | nil => exact absurd rfl hne
      | cons c text =>
          rw [drtWidthLoop, drtWidthLoop, drtRead_inside g hat (List.cons_ne_nil c text)]
          rw [bind_run (drtRead_run st hat), bind_run (drtRead_run st hat), List.headD_cons]
          split
          · rename_i hdigit
            have hdrop : (c :: text).dropWhile (IsDigit ·) = text.dropWhile (IsDigit ·) :=
              List.dropWhile_cons_of_pos (decide_eq_true hdigit)
            rw [hdrop] at hne
            apply bind_congr_run (x := checkedInt (width * 10)) rfl
            intro scaled s _
            apply bind_congr_run (x := checkedInt _) rfl
            intro w s _
            exact ih s hat.next hne w
          · rfl

theorem drtLongness_inside (hat : At f p (afterWidth text)) (hne : conversionAt text ≠ []) :
    drtLongness (f ++ g) p st = drtLongness f p st := by
  have hl : byteOf 'l' ≠ 0 := by decide
  have hthird : skipByte (byteOf 'l') (skipByte (byteOf 'l') (afterWidth text)) ≠ [] := by
    intro hempty
    exact hne (by rw [conversionAt, hempty, skipByte_nil])
  have hsecond : skipByte (byteOf 'l') (afterWidth text) ≠ [] := by
    intro hempty
    exact hthird (by rw [hempty, skipByte_nil])
  have hfirst : afterWidth text ≠ [] := by
    intro hempty
    exact hsecond (by rw [hempty, skipByte_nil])
  obtain ⟨p₁, hrun₁, hat₁⟩ := drtSkip_run st hl hat 1 0
  obtain ⟨p₂, hrun₂, hat₂⟩ :=
    drtSkip_run st hl hat₁ 2 (if (afterWidth text).headD 0 = byteOf 'l' then 1 else 0)
  rw [drtLongness, drtLongness, drtSkip_inside g hat hfirst, bind_run hrun₁, bind_run hrun₁]
  dsimp only
  rw [drtSkip_inside g hat₁ hsecond, bind_run hrun₂, bind_run hrun₂]
  dsimp only
  rw [drtSkip_inside g hat₂ hthird]

theorem conversionAt_ne_nil (hne : conversionAt text ≠ []) :
    text ≠ [] ∧ afterWidth text ≠ [] := by
  constructor
  · rintro rfl
    exact hne (by decide)
  · intro hempty
    apply hne
    rw [conversionAt, hempty]
    decide

/-- A complete directive does not look at what stands behind it. -/
theorem drtDirective_inside (hat : At f p text) (hne : conversionAt text ≠ []) (k : Nat) :
    drtDirective k (f ++ g) p st = drtDirective k f p st := by
  obtain ⟨htext, hafter⟩ := conversionAt_ne_nil hne
  obtain ⟨p₁, hflag, hat₁⟩ :=
    drtSkip_run st (show byteOf '0' ≠ 0 by decide) hat (byteOf '0') (byteOf ' ')
  obtain ⟨p₂, hat₂, hwidth⟩ := drtWidthLoop_scan st hat₁
  obtain ⟨p₃, hlength, hat₃⟩ := drtLongness_scan st hat₂
  rw [drtDirective, drtDirective, drtSkip_inside g hat htext, bind_run hflag, bind_run hflag]
  apply bind_congr_run (drtWidthLoop_inside g st hat₁ hafter k 0)
  intro r s hloop
  obtain ⟨-, rfl, rfl⟩ := hwidth.sound _ _ _ hloop
  dsimp only
  rw [bind_run hlength, bind_run ((drtLongness_inside g s hat₂ hne).trans hlength)]
  dsimp only
  rw [drtRead_inside g hat₃ hne]

end Inside

/-- **A complete format and another one.** The printer runs the first, and then the other one as if
it stood alone. -/
theorem drtVprintfLoop_append {pieces : Nat} {f : List Byte} {args : List VaArg}
    (hf : FormatTakes pieces f args) (g done : List Byte) (k : Nat) (st : PrintState) :
    drtVprintfLoop ((done ++ f) ++ g) (pieces + k + 1) done.length st =
      (drtVprintfLoop (done ++ f) (pieces + k + 1) done.length >>= fun _ =>
        drtVprintf (k + 1) g) st := by
  induction hf generalizing done st with
  | nil =>
      have hat : At (done ++ []) done.length [] := ⟨done, rfl, rfl⟩
      have hends : drtVprintfLoop (done ++ []) (0 + k + 1) done.length st = .ok () st := by
        rw [drtVprintfLoop, bind_run (drtRead_run st hat)]
        rfl
      have hbehind := drtVprintfLoop_behind done g (k + 1) 0
      rw [bind_run hends, List.append_nil, Nat.zero_add]
      exact congrFun hbehind st
  | @literal pieces c text args hzero hpercent _ ih =>
      have hat : At (done ++ c :: text) done.length (c :: text) := ⟨done, rfl, rfl⟩
      have hat' : At ((done ++ c :: text) ++ g) done.length (c :: (text ++ g)) :=
        ⟨done, by simp, rfl⟩
      have hrest := ih (done ++ [c]) (st.print [c])
      rw [List.append_assoc done, List.singleton_append, List.length_append,
        List.length_singleton] at hrest
      rw [show pieces + 1 + k + 1 = (pieces + k + 1) + 1 by omega,
        drtVprintfLoop_literal hat' hzero hpercent, hrest]
      exact bind_congr_run (drtVprintfLoop_literal hat hzero hpercent _ _).symm fun _ _ _ => rfl
  | @directive pieces c text rest args args' hconversion hzero _ _ ih =>
      have hat : At (done ++ byteOf '%' :: text) done.length (byteOf '%' :: text) :=
        ⟨done, rfl, rfl⟩
      have hat' : At ((done ++ byteOf '%' :: text) ++ g) done.length (byteOf '%' :: (text ++ g)) :=
        ⟨done, by simp, rfl⟩
      have hne : conversionAt text ≠ [] := by rw [hconversion]; exact List.cons_ne_nil c rest
      obtain ⟨p', pad, hscan⟩ := exists_directiveScan hat.next st
      have hstands := hscan.stands
      rw [hconversion] at hstands
      obtain ⟨done', hdone, hlength⟩ := hstands.next
      rw [show pieces + 1 + k + 1 = (pieces + k + 1) + 1 by omega]
      calc drtVprintfLoop ((done ++ byteOf '%' :: text) ++ g) (pieces + k + 1 + 1) done.length st
          = (drtDirective (pieces + k + 1) ((done ++ byteOf '%' :: text) ++ g) (done.length + 1)
              >>= fun q => drtVprintfLoop ((done ++ byteOf '%' :: text) ++ g) (pieces + k + 1)
                (q + 1)) st := drtVprintfLoop_percent hat' _ st
        _ = (drtDirective (pieces + k + 1) (done ++ byteOf '%' :: text) (done.length + 1)
              >>= fun q => drtVprintfLoop (done ++ byteOf '%' :: text) (pieces + k + 1) (q + 1)
                >>= fun _ => drtVprintf (k + 1) g) st := by
            apply bind_congr_run (drtDirective_inside g st hat.next hne _)
            intro q s hdirective
            obtain ⟨-, rfl, -⟩ := hscan.sound _ _ _ hdirective
            rw [hdone, hlength]
            exact ih done' s
        _ = _ := by
            rw [← bind_assoc]
            exact bind_congr_run (drtVprintfLoop_percent hat _ st).symm fun _ _ _ => rfl

/-! ### Arguments of its own -/

/-- What happened took the arguments up to `ap`, or stopped short for another reason than a missing
one. -/
def TakesUpTo {α : Type} (ap : List VaArg) : EStateM.Result PrintStop PrintState α → Prop
  | .ok _ t => t.ap = ap
  | .error e _ => e ≠ .fault .badArgument

theorem TakesUpTo.bind {α β : Type} {x : Print α} {f : α → Print β} {s : PrintState}
    {ap ap' : List VaArg} (hx : TakesUpTo ap' (x s))
    (hf : ∀ a t, x s = .ok a t → t.ap = ap' → TakesUpTo ap (f a t)) :
    TakesUpTo ap ((x >>= f) s) := by
  cases hrun : x s with
  | ok a t =>
      rw [hrun] at hx
      rw [bind_run hrun]
      exact hf a t hrun hx
  | error e t =>
      rw [hrun] at hx
      rw [bind_eq_error.mpr (Or.inl hrun)]
      exact hx

theorem TakesUpTo.after {α β : Type} {x : Print α} {f : α → Print β} {s t : PrintState} {a : α}
    {ap : List VaArg} (hrun : x s = .ok a t) (hf : TakesUpTo ap (f a t)) :
    TakesUpTo ap ((x >>= f) s) := by
  rw [bind_run hrun]
  exact hf

/-- The program takes no argument, and misses none. -/
def LeavesArgs {α : Type} (x : Print α) : Prop := ∀ s, TakesUpTo s.ap (x s)

theorem printClosed_leavesArgs : PrintClosed LeavesArgs where
  pure _ _ := rfl
  bind hx hf s := (hx s).bind fun a t _ hap => hap ▸ hf a t
  print _ _ := rfl
  outOfBudget _ := PrintStop.noConfusion

theorem leavesArgs_throw {α : Type} {f : PrintFault} (hne : f ≠ .badArgument) :
    LeavesArgs (throw (.fault f) : Print α) := by
  intro s h
  cases h
  exact hne rfl

theorem leavesArgs_checkedNeg (n : BitVec 64) : LeavesArgs (checkedNeg n) := by
  unfold checkedNeg
  split
  · exact leavesArgs_throw (by decide)
  · exact printClosed_leavesArgs.pure _

/-- A conversion takes the arguments of its character. -/
theorem drtConvert_takesUpTo {c : Byte} {longness : Nat} {args : List VaArg}
    (hargs : ConversionArgs c longness args) (k : Nat) (width : Int) (pad : Byte)
    (out : List Byte) (ap : List VaArg) :
    TakesUpTo ap (drtConvert k c width pad longness ⟨out, args ++ ap⟩) := by
  have hclosed := printClosed_leavesArgs
  have hfull : LeavesArgs (throw (.fault .bufferOverflow) : Print (List Byte)) :=
    leavesArgs_throw (by decide)
  rcases hargs with ⟨m, conversion, rfl, rfl, rfl⟩ | ⟨hunknown, rfl⟩
  · cases conversion with
    | d v =>
        apply TakesUpTo.after (vaSigned_run out ap v)
        exact hclosed.drtPutsn hfull k (leavesArgs_checkedNeg _) 10 width pad ⟨out, ap⟩
    | u v =>
        apply TakesUpTo.after (vaUnsigned_run out ap v)
        exact hclosed.drtPutn hfull k _ _ width pad _ ⟨out, ap⟩
    | x v =>
        apply TakesUpTo.after (vaUnsigned_run out ap v)
        exact hclosed.drtPutn hfull k _ _ width pad _ ⟨out, ap⟩
    | X v =>
        apply TakesUpTo.after (vaUnsigned_run out ap v)
        exact hclosed.drtPutn hfull k _ _ width pad _ ⟨out, ap⟩
    | p v => exact hclosed.drtPutn hfull k v 16 16 _ _ ⟨_, ap⟩
    | s v => exact hclosed.drtPuts _ ⟨out, ap⟩
    | c v => exact hclosed.drtPutchar _ ⟨out, ap⟩
    | percent => exact hclosed.drtPutchar _ ⟨out, ap⟩
  · rw [List.nil_append, drtConvert_unknown hunknown]
    rfl

section Taking

variable {fmt text rest : List Byte} {p : Nat} {c : Byte} {args ap : List VaArg}

theorem drtDirective_takesUpTo (hat : At fmt p text) (hconversion : conversionAt text = c :: rest)
    (hargs : ConversionArgs c (spelledLongness text) args) (k : Nat) (out : List Byte)
    (ap : List VaArg) : TakesUpTo ap (drtDirective k fmt p ⟨out, args ++ ap⟩) := by
  obtain ⟨p₁, p', pad, hat₁, -, hdirective⟩ := exists_directive_eq hat ⟨out, args ++ ap⟩
  obtain ⟨p₂, -, hwidth⟩ := drtWidthLoop_scan ⟨out, args ++ ap⟩ hat₁
  rw [hdirective]
  apply TakesUpTo.bind (printClosed_leavesArgs.drtWidthLoop (leavesArgs_throw (by decide))
    (leavesArgs_throw (by decide)) fmt k p₁ 0 _)
  intro r s hloop _
  obtain ⟨-, -, rfl⟩ := hwidth.sound _ _ _ hloop
  rw [hconversion, List.headD_cons]
  apply TakesUpTo.bind (drtConvert_takesUpTo hargs k _ _ out ap)
  intro _ t _ hap
  exact hap

theorem drtVprintfLoop_takesUpTo {pieces : Nat} (hf : FormatTakes pieces text args)
    (hat : At fmt p text) (k : Nat) (out : List Byte) (ap : List VaArg) :
    TakesUpTo ap (drtVprintfLoop fmt k p ⟨out, args ++ ap⟩) := by
  induction hf generalizing p k out with
  | nil =>
      cases k with
      | zero => exact PrintStop.noConfusion
      | succ k =>
          rw [drtVprintfLoop, bind_run (drtRead_run _ hat)]
          rfl
  | literal hzero hpercent _ ih =>
      cases k with
      | zero => exact PrintStop.noConfusion
      | succ k =>
          rw [drtVprintfLoop_literal hat hzero hpercent]
          exact ih hat.next k _
  | @directive pieces c text rest args args' hconversion hzero hargs _ ih =>
      cases k with
      | zero => exact PrintStop.noConfusion
      | succ k =>
          obtain ⟨p', pad, hscan⟩ := exists_directiveScan hat.next ⟨out, args ++ (args' ++ ap)⟩
          have hstands := hscan.stands
          rw [hconversion] at hstands
          rw [drtVprintfLoop_percent hat, List.append_assoc]
          apply TakesUpTo.bind (drtDirective_takesUpTo hat.next hconversion hargs k out _)
          rintro q ⟨out', ap'⟩ hdirective rfl
          obtain ⟨-, rfl, -⟩ := hscan.sound _ _ _ hdirective
          exact ih hstands.next k out'

theorem FormatFits.runs (hfits : FormatFits text ap) (hat : At fmt p text) (out : List Byte) :
    ∃ out' N, ∀ k, N ≤ k → drtVprintfLoop fmt k p ⟨out, ap⟩ = .ok () ⟨out', []⟩ := by
  induction hfits generalizing p out with
  | nil =>
      refine ⟨out, 1, fun k hk => ?_⟩
      obtain ⟨j, rfl⟩ : ∃ j, k = j + 1 := ⟨k - 1, by omega⟩
      rw [drtVprintfLoop, bind_run (drtRead_run _ hat)]
      rfl
  | @literal c text args hzero hpercent _ ih =>
      obtain ⟨out', N, hN⟩ := ih hat.next (out ++ [c])
      refine ⟨out', N + 1, fun k hk => ?_⟩
      obtain ⟨j, rfl⟩ : ∃ j, k = j + 1 := ⟨k - 1, by omega⟩
      exact (drtVprintfLoop_literal hat hzero hpercent j ⟨out, args⟩).trans (hN j (by omega))
  | @directive c text rest args args' hwidth hconversion htakes _ ih =>
      obtain ⟨p', pad, hscan⟩ := exists_directiveScan hat.next ⟨out, args⟩
      obtain ⟨N₁, hdirective⟩ := hscan.total hwidth
      obtain ⟨out₁, N₂, hconvert⟩ := htakes.runs pad out
      have hstands := hscan.stands
      rw [hconversion] at hstands hdirective
      obtain ⟨out', N₃, hrest⟩ := ih hstands.next out₁
      refine ⟨out', N₁ + N₂ + N₃ + 1, fun k hk => ?_⟩
      obtain ⟨j, rfl⟩ : ∃ j, k = j + 1 := ⟨k - 1, by omega⟩
      rw [drtVprintfLoop_percent hat,
        bind_run (hdirective j (by omega) _ (hconvert j (by omega))), hrest j (by omega)]

end Taking

/-! ### What was there before -/

/-- More text in front of the output, and more arguments behind the others. -/
def PrintState.extend (before : List Byte) (more : List VaArg) (st : PrintState) : PrintState :=
  ⟨before ++ st.out, st.ap ++ more⟩

section Frames

variable {stable : PrintStop → Prop} {before : List Byte} {more : List VaArg}

theorem printClosed_framed (stable : PrintStop → Prop) (before : List Byte) (more : List VaArg) :
    PrintClosed (Framed stable (PrintState.extend before more)) where
  pure := Framed.pure
  bind := Framed.bind
  print s st _ := by
    have hassoc : (before ++ st.out) ++ s.takeWhile (· ≠ 0) =
        before ++ (st.out ++ s.takeWhile (· ≠ 0)) := List.append_assoc ..
    exact congrArg (fun text => EStateM.Result.ok () (PrintState.mk text (st.ap ++ more))) hassoc
  outOfBudget := Framed.throw _

/-- Behind the end of the arguments there may be more only if nobody looks. -/
theorem vaTake_framed (hmore : more = [] ∨ ¬ stable (.fault .badArgument)) {α : Type}
    (select : VaArg → Option α) :
    Framed stable (PrintState.extend before more) (vaTake select) := by
  rintro ⟨out, ap⟩ hstable
  cases ap with
  | nil =>
      have hbad := hstable _ _ rfl
      rw [hmore.resolve_right (not_not_intro hbad)]
      rfl
  | cons arg ap =>
      change vaTake select ⟨before ++ out, arg :: (ap ++ more)⟩ = _
      cases hsome : select arg <;> simp only [vaTake, hsome] <;> rfl

theorem checkedNeg_framed (n : BitVec 64) :
    Framed stable (PrintState.extend before more) (checkedNeg n) := by
  unfold checkedNeg
  split
  · exact Framed.throw _
  · exact Framed.pure _

theorem drtDirective_framed (hmore : more = [] ∨ ¬ stable (.fault .badArgument)) (k : Nat)
    (fmt : List Byte) (p : Nat) :
    Framed stable (PrintState.extend before more) (drtDirective k fmt p) := by
  have hclosed := printClosed_framed stable before more
  apply Framed.bind (hclosed.drtSkip (Framed.throw _) fmt _ _ _ _)
  intro _
  apply Framed.bind (hclosed.drtWidthLoop (Framed.throw _) (Framed.throw _) fmt k _ _)
  intro _
  apply Framed.bind (hclosed.drtLongness (Framed.throw _) fmt _)
  intro _
  apply Framed.bind (hclosed.drtRead (Framed.throw _) fmt _)
  intro c
  apply Framed.bind (hclosed.drtConvert (Framed.throw _) (vaTake_framed hmore) k c
    (fun _ => checkedNeg_framed) _ _ _)
  intro _
  exact Framed.pure _

theorem drtVprintfLoop_framed (hmore : more = [] ∨ ¬ stable (.fault .badArgument))
    (fmt : List Byte) (k p : Nat) :
    Framed stable (PrintState.extend before more) (drtVprintfLoop fmt k p) := by
  have hclosed := printClosed_framed stable before more
  induction k generalizing p with
  | zero => exact Framed.throw _
  | succ k ih =>
      apply Framed.bind (hclosed.drtRead (Framed.throw _) fmt p)
      intro c
      split_ifs
      · exact Framed.pure _
      · exact Framed.bind (hclosed.drtPutchar c) fun _ => ih _
      · exact Framed.bind (drtDirective_framed hmore k fmt _) fun _ => ih _

end Frames

/-- **The printer is a homomorphism.** A complete format and another one print what the first prints
with its own arguments, and then, if that ends, what the other one prints with the rest. The first
one ends, with all its arguments taken, as soon as it asks for no padding. -/
theorem drtVprintf_append {pieces : Nat} {f : List Byte} {args₁ : List VaArg}
    (hf : FormatTakes pieces f args₁) (g : List Byte) (args₂ : List VaArg) (out : List Byte) :
    (∀ k, drtVprintf (pieces + k + 1) (f ++ g) ⟨out, args₁ ++ args₂⟩ =
      match drtVprintf (pieces + k + 1) f ⟨[], args₁⟩ with
      | .ok _ t => mapState (PrintState.extend (out ++ t.out) []) (drtVprintf (k + 1) g ⟨[], args₂⟩)
      | .error e t => .error e (t.extend out args₂)) ∧
    (FormatFits f args₁ → ∃ text N, ∀ k, N ≤ k →
      drtVprintf k f ⟨[], args₁⟩ = .ok () ⟨text, []⟩) := by
  refine ⟨fun k => ?_, fun hfits => hfits.runs (At.start f) []⟩
  have htakes := drtVprintfLoop_takesUpTo hf (At.start f) (pieces + k + 1) [] []
  rw [List.append_nil] at htakes
  have hframes : Framed (· ≠ .fault .badArgument) (PrintState.extend out args₂)
      (drtVprintfLoop f (pieces + k + 1) 0) :=
    drtVprintfLoop_framed (Or.inr (not_not_intro rfl)) f (pieces + k + 1) 0
  have hframed := hframes ⟨[], args₁⟩
  have hstart : PrintState.extend out args₂ ⟨[], args₁⟩ = ⟨out, args₁ ++ args₂⟩ := by
    rw [PrintState.extend, List.append_nil]
  rw [hstart] at hframed
  have happend := drtVprintfLoop_append hf g [] k ⟨out, args₁ ++ args₂⟩
  rw [drtVprintf, drtVprintf]
  refine happend.trans ?_
  cases hrun : drtVprintfLoop f (pieces + k + 1) 0 ⟨[], args₁⟩ with
  | ok a t =>
      rw [hrun] at htakes hframed
      obtain ⟨text, ap⟩ := t
      obtain rfl : ap = [] := htakes
      have hfirst := hframed fun e t' hfail => by cases hfail
      have hrest : Framed (fun _ => True) (PrintState.extend (out ++ text) [])
          (drtVprintfLoop g (k + 1) 0) := drtVprintfLoop_framed (Or.inl rfl) g (k + 1) 0
      have hsecond := hrest ⟨[], args₂⟩ fun _ _ _ => trivial
      rw [PrintState.extend, List.append_nil, List.append_nil] at hsecond
      exact (bind_run hfirst).trans hsecond
  | error e t =>
      rw [hrun] at htakes hframed
      have hfirst := hframed fun e' t' hfail => by
        cases hfail
        exact htakes
      exact bind_eq_error.mpr (Or.inl hfirst)

theorem drtVprintf_append_decimals :
    drtVprintf 8 ([byteOf '%', byteOf 'd'] ++ [byteOf '%', byteOf 'd']) ⟨[], [.int 5] ++ [.int 6]⟩ =
      .ok () ⟨[byteOf '5', byteOf '6'], []⟩ := by
  have hargs : ConversionArgs (byteOf 'd') 0 [.int 5] :=
    Or.inl ⟨.none, .d 5, rfl, rfl, rfl⟩
  have hconversion : conversionAt [byteOf 'd'] = [byteOf 'd'] := by decide
  have hdecimal : FormatTakes 1 [byteOf '%', byteOf 'd'] ([.int 5] ++ []) :=
    .directive hconversion (by decide) hargs .nil
  exact ((drtVprintf_append hdecimal [byteOf '%', byteOf 'd'] [.int 6] []).1 6).trans rfl

end Misan
