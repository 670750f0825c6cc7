import Misan.Proof.PrintfMachine

/-!
# Where the printer stops reading its format

The scan of a directive stops at the terminator like at any other character it does not know. The
format loop then steps over whatever the scan stopped at. So the printer reads past its format
exactly when the format ends inside a directive and the printer gets that far. Neither a missing
argument nor an overflow keeps it from getting there, unless the machine stops at it.
-/

namespace Misan

/-! ### The terminator -/

section Terminator

variable (text behind : List Byte)

theorem skipByte_terminated {c : Byte} (hc : c ≠ 0) :
    skipByte c (text ++ 0 :: behind) = skipByte c text ++ 0 :: behind := by
  cases text with
  | nil => rw [List.nil_append, skipByte, List.headD_cons, if_neg (Ne.symm hc), skipByte_nil,
      List.nil_append]
  | cons c' text =>
      by_cases hhead : c' = c
      · simp [skipByte, hhead]
      · simp [skipByte, hhead]

theorem afterFlag_terminated : afterFlag (text ++ 0 :: behind) = afterFlag text ++ 0 :: behind :=
  skipByte_terminated text behind (by decide)

theorem takeWhile_terminated :
    (text ++ 0 :: behind).takeWhile (IsDigit ·) = text.takeWhile (IsDigit ·) := by
  induction text with
  | nil => exact List.takeWhile_cons_of_neg (by decide)
  | cons c text ih =>
      by_cases hc : IsDigit c
      · rw [List.cons_append, List.takeWhile_cons_of_pos (by simpa using hc), ih,
          List.takeWhile_cons_of_pos (by simpa using hc)]
      · rw [List.cons_append, List.takeWhile_cons_of_neg (by simpa using hc),
          List.takeWhile_cons_of_neg (by simpa using hc)]

theorem dropWhile_terminated :
    (text ++ 0 :: behind).dropWhile (IsDigit ·) = text.dropWhile (IsDigit ·) ++ 0 :: behind := by
  induction text with
  | nil => exact List.dropWhile_cons_of_neg (by decide)
  | cons c text ih =>
      by_cases hc : IsDigit c
      · rw [List.cons_append, List.dropWhile_cons_of_pos (by simpa using hc), ih,
          List.dropWhile_cons_of_pos (by simpa using hc)]
      · rw [List.cons_append, List.dropWhile_cons_of_neg (by simpa using hc),
          List.dropWhile_cons_of_neg (by simpa using hc), List.cons_append]

theorem spelledDigits_terminated : spelledDigits (text ++ 0 :: behind) = spelledDigits text := by
  rw [spelledDigits, afterFlag_terminated, takeWhile_terminated, spelledDigits]

theorem afterWidth_terminated :
    afterWidth (text ++ 0 :: behind) = afterWidth text ++ 0 :: behind := by
  rw [afterWidth, afterFlag_terminated, dropWhile_terminated, afterWidth]

theorem headD_terminated : (text ++ 0 :: behind).headD 0 = text.headD 0 := by
  cases text <;> rfl

theorem spelledLongness_terminated :
    spelledLongness (text ++ 0 :: behind) = spelledLongness text := by
  have hl : byteOf 'l' ≠ 0 := by decide
  simp only [spelledLongness, afterWidth_terminated, skipByte_terminated _ behind hl,
    headD_terminated]

theorem conversionAt_terminated :
    conversionAt (text ++ 0 :: behind) = conversionAt text ++ 0 :: behind := by
  have hl : byteOf 'l' ≠ 0 := by decide
  have hz : byteOf 'z' ≠ 0 := by decide
  simp only [conversionAt, afterWidth_terminated, skipByte_terminated _ behind hl,
    skipByte_terminated _ behind hz]

end Terminator

theorem skipByte_suffix (c : Byte) (text : List Byte) : skipByte c text <:+ text := by
  unfold skipByte
  split
  · exact List.tail_suffix text
  · exact List.suffix_refl text

theorem conversionAt_suffix (text : List Byte) : conversionAt text <:+ text := by
  have hlength : conversionAt text <:+ afterWidth text :=
    (skipByte_suffix _ _).trans ((skipByte_suffix _ _).trans (skipByte_suffix _ _))
  exact hlength.trans ((List.dropWhile_suffix _).trans (skipByte_suffix _ _))

/-- The format ends inside a directive, whatever its arguments are. -/
inductive EndsInDirective : List Byte → Prop where
  | literal {c : Byte} {text : List Byte} (hpercent : c ≠ byteOf '%')
      (hrest : EndsInDirective text) : EndsInDirective (c :: text)
  | directive {text rest : List Byte} {c : Byte} (hconversion : conversionAt text = c :: rest)
      (hrest : EndsInDirective rest) : EndsInDirective (byteOf '%' :: text)
  | truncated {text : List Byte} (hend : conversionAt text = []) :
      EndsInDirective (byteOf '%' :: text)

namespace Machine

/-- The format ends inside a directive that the printer gets to. -/
def RunsOff (m : Machine) (fmt : List Byte) (ap : Nat) : Prop :=
  ∃ text w ap', m.Reaches fmt ap (byteOf '%' :: text) ap' ∧ m.width text = some w ∧
    conversionAt text = []

/-- No budget makes `drt_vprintf` read a character behind the terminator of `fmt`. -/
def ReadsInside (m : Machine) (fmt : List Byte) (st : SlotState) : Prop :=
  ∀ k t, m.drtVprintf k fmt [] st ≠ .error (.fault .readPastEnd) t

section Terminator

variable {m : Machine} {text text' : List Byte} {ap ap' : Nat}

theorem width_terminated (m : Machine) (text behind : List Byte) :
    m.width (text ++ 0 :: behind) = m.width text := by
  rw [width, spelledDigits_terminated, width]

theorem Reaches.terminated (hreaches : m.Reaches text ap text' ap') (behind : List Byte) :
    m.Reaches (text ++ 0 :: behind) ap (text' ++ 0 :: behind) ap' := by
  induction hreaches with
  | here => exact .here
  | literal hzero hpercent _ ih => exact .literal hzero hpercent ih
  | @directive c w text rest _ _ _ hwidth hconversion hends _ ih =>
      rw [← width_terminated m text behind] at hwidth
      rw [← spelledLongness_terminated text behind] at hends
      have hconversion' := conversionAt_terminated text behind
      rw [hconversion] at hconversion'
      exact .directive hwidth hconversion' hends ih

theorem RunsOff.literal {c : Byte} (hzero : c ≠ 0) (hpercent : c ≠ byteOf '%')
    (hruns : m.RunsOff text ap) : m.RunsOff (c :: text) ap := by
  obtain ⟨last, w, ap', hreaches, hlast⟩ := hruns
  exact ⟨last, w, ap', .literal hzero hpercent hreaches, hlast⟩

theorem RunsOff.directive {c : Byte} {w : Int} {rest : List Byte} (hwidth : m.width text = some w)
    (hconversion : conversionAt text = c :: rest) (hends : m.Ends c w (spelledLongness text) ap)
    (hruns : m.RunsOff rest (ap + slotsTaken c)) : m.RunsOff (byteOf '%' :: text) ap := by
  obtain ⟨last, w', ap', hreaches, hlast⟩ := hruns
  exact ⟨last, w', ap', .directive hwidth hconversion hends hreaches, hlast⟩

/-- A printer that gets behind the terminator was in a directive when it met it. -/
theorem Reaches.of_terminated {mem last : List Byte} (hreaches : m.Reaches mem ap last ap')
    (hmem : mem = text ++ [0]) (hzero : 0 ∉ text) :
    (∃ text', last = text' ++ [0]) ∨ m.RunsOff text ap := by
  induction hreaches generalizing text with
  | here => exact Or.inl ⟨text, hmem⟩
  | literal hc hpercent _ ih =>
      cases text with
      | nil => exact absurd (List.cons.inj hmem).1 hc
      | cons c text =>
          rw [List.cons_append] at hmem
          obtain ⟨rfl, htail⟩ := List.cons.inj hmem
          exact (ih htail fun h => hzero (List.mem_cons_of_mem _ h)).imp_right
            (RunsOff.literal hc hpercent)
  | directive hwidth hconversion hends _ ih =>
      cases text with
      | nil => exact absurd (List.cons.inj hmem).1 (by decide)
      | cons c text =>
          rw [List.cons_append] at hmem
          obtain ⟨rfl, rfl⟩ := List.cons.inj hmem
          rw [width_terminated] at hwidth
          rw [spelledLongness_terminated] at hends
          rw [conversionAt_terminated] at hconversion
          cases hat : conversionAt text with
          | nil => exact Or.inr ⟨text, _, _, .here, hwidth, hat⟩
          | cons c' rest =>
              have hsuffix := conversionAt_suffix text
              rw [hat, List.cons_append] at hconversion
              rw [hat] at hsuffix
              obtain ⟨rfl, hrest⟩ := List.cons.inj hconversion
              have hrest' : 0 ∉ rest := fun h => hzero
                (List.mem_cons_of_mem _ (hsuffix.subset (List.mem_cons_of_mem _ h)))
              exact (ih hrest.symm hrest').imp_right (RunsOff.directive hwidth hat hends)

theorem RunsOff.endsInDirective (hruns : m.RunsOff text ap) : EndsInDirective text := by
  obtain ⟨last, w, ap', hreaches, -, hend⟩ := hruns
  generalize hfinal : byteOf '%' :: last = final at hreaches
  induction hreaches with
  | here =>
      rw [← hfinal]
      exact .truncated hend
  | literal _ hpercent _ ih => exact .literal hpercent (ih hfinal)
  | directive _ hconversion _ _ ih => exact .directive hconversion (ih hfinal)

end Terminator

section Formats

variable {m : Machine} {fmt : List Byte} {st : SlotState}

theorem RunsOff.reads_past_end {ap : Nat} (hruns : m.RunsOff fmt ap) (out : List Byte) :
    ∃ k t, m.drtVprintf k fmt [] ⟨out, ap⟩ = .error (.fault .readPastEnd) t := by
  obtain ⟨text, w, ap', hreaches, hwidth, hend⟩ := hruns
  obtain ⟨p, out₁, d, N, hat, hrun⟩ :=
    (hreaches.terminated []).run (At.start (fmt ++ [0])) out
  have hwidth' : m.width (text ++ [0]) = some w := (width_terminated m text []).trans hwidth
  have hconversion : conversionAt (text ++ [0]) = [0] := by
    rw [conversionAt_terminated, hend, List.nil_append]
  have hends : m.Ends 0 w (spelledLongness (text ++ [0])) ap' := by
    intro hzero
    exact absurd hzero (by decide)
  obtain ⟨q, out₂, M, hq, hdirective⟩ :=
    drtDirective_run hat.next hwidth' hconversion hends out₁
  refine ⟨N + M + 1 + 1 + d, ⟨out₂, ap'⟩, ?_⟩
  have hstep : m.drtVprintfLoop (fmt ++ [0]) (N + M + 1 + 1) p ⟨out₁, ap'⟩
      = .error (.fault .readPastEnd) ⟨out₂, ap'⟩ := by
    rw [drtVprintfLoop_percent hat, bind_run (hdirective _ (by omega))]
    exact drtVprintfLoop_end hq.next _ _
  exact (hrun _ (by omega)).trans hstep

/-- **The printer stays inside its format** exactly when the format does not end inside a directive
that the printer gets to, whatever it finds in its slots and however it goes on after an
overflow. -/
theorem drtVprintf_readsInside_iff (m : Machine) (hfmt : 0 ∉ fmt) (st : SlotState) :
    m.ReadsInside fmt st ↔ ¬ m.RunsOff fmt st.ap := by
  rw [ReadsInside, iff_not_comm]
  constructor
  · intro hruns hinside
    obtain ⟨k, t, ht⟩ := hruns.reads_past_end st.out
    exact hinside k t ht
  · intro hnot
    simp only [ne_eq, not_forall, not_not] at hnot
    obtain ⟨k, t, hfail⟩ := hnot
    obtain ⟨last, ap', hreaches, hstops⟩ := reaches_of_fails (by decide) (At.start _) hfail
    rcases hreaches.of_terminated rfl hfmt with ⟨text', rfl⟩ | hruns
    · rcases hstops with ⟨hnil, -⟩ | ⟨rest, j, q, out, hlast, hat, hdirective⟩
      · simp at hnil
      · cases text' with
        | nil => exact absurd (List.cons.inj hlast).1 (by decide)
        | cons c text =>
            obtain ⟨-, rfl⟩ := List.cons.inj hlast
            obtain ⟨c, rest, hconversion⟩ : ∃ c rest, conversionAt (text ++ [0]) = c :: rest := by
              rw [conversionAt_terminated]
              exact List.exists_cons_of_ne_nil (by simp)
            exact absurd hdirective (drtDirective_inside hat hconversion j _ _)
    · exact hruns

/-- A format whose directives are complete is safe with any arguments. -/
theorem readsInside_of_complete (m : Machine) (hfmt : 0 ∉ fmt) (hcomplete : ¬ EndsInDirective fmt)
    (st : SlotState) : m.ReadsInside fmt st := by
  rw [m.drtVprintf_readsInside_iff hfmt]
  exact fun hruns => hcomplete hruns.endsInDirective

end Formats

/-- A machine on which signed arithmetic wraps around. -/
def wrapping (slots : Nat → Option (BitVec 64)) : Machine where
  slots := slots
  strAt := fun _ => none
  wide := fun z => some (z.bmod (2 ^ 32))
  negMin := some (BitVec.intMin 64)

/-- `"%d%"` without an argument: the printer takes what the slot holds and runs off behind the
second `%`. With `"%d%%"` it stays inside. -/
theorem drtVprintf_readsInside_absent :
    ¬ (wrapping fun _ => some 7).ReadsInside [byteOf '%', byteOf 'd', byteOf '%'] ⟨[], 0⟩ ∧
      (wrapping fun _ => some 7).ReadsInside [byteOf '%', byteOf 'd', byteOf '%', byteOf '%']
        ⟨[], 0⟩ := by
  constructor
  · rw [drtVprintf_readsInside_iff _ (by decide), not_not]
    have hends : (wrapping fun _ => some 7).Ends (byteOf 'd') 0 0 0 := fun _ =>
      ⟨7, rfl, 7, by decide, Int.natCast_nonneg _⟩
    have hconversion : conversionAt [byteOf 'd', byteOf '%'] = byteOf 'd' :: [byteOf '%'] := by
      decide
    exact ⟨[], 0, 1, .directive rfl hconversion hends .here, rfl, rfl⟩
  · apply readsInside_of_complete _ (by decide)
    intro hends
    cases hends with
    | literal hpercent _ => exact hpercent rfl
    | truncated hend => exact absurd hend (by decide)
    | directive hconversion hrest =>
        obtain ⟨-, rfl⟩ := List.cons.inj hconversion
        cases hrest with
        | literal hpercent _ => exact hpercent rfl
        | truncated hend => exact absurd hend (by decide)
        | directive hconversion hrest =>
            obtain ⟨-, rfl⟩ := List.cons.inj hconversion
            cases hrest

/-- A lone `%` sends the printer over the terminator. -/
theorem not_readsInside_lone_percent :
    ¬ ∀ (m : Machine) (fmt : List Byte), 0 ∉ fmt → ∀ st, m.ReadsInside fmt st := by
  intro hclaim
  have hruns : (wrapping fun _ => none).RunsOff [byteOf '%'] 0 :=
    ⟨[], 0, 0, .here, rfl, rfl⟩
  obtain ⟨k, t, hfail⟩ := hruns.reads_past_end []
  exact hclaim _ [byteOf '%'] (by decide) ⟨[], 0⟩ k t hfail

end Machine

end Misan
