import Misan.LsanOutput
import Misan.Proof.LsanReports
import Misan.Proof.ReportFields

/-!
# Leak checks read back

A check ends if and only if every address it prints fills sixteen digits. It has then printed the
leaks it reports in the order of the table, and its text shows which they were and whether the check
was fatal: a leak and the message of `drt_die` part at their second character.
-/

namespace Misan

variable {s s' : LsanState} {m m' : Memory} {fatal fatal' : Bool}

/-! ### Texts -/

def lsanAddressPieces (a : LsanAlloc) : List Piece :=
  textPieces (bytesOf "  Address: ") ++ plainPiece (m := .none) (.p a.addr) ::
    (textPieces (bytesOf "  Size: ") ++ plainPiece (m := .z) (.u a.size) ::
      textPieces (bytesOf " bytes\n"))

theorem lsanAddressPieces_fits_iff (a : LsanAlloc) :
    (∀ piece ∈ lsanAddressPieces a, piece.Fits) ↔ SixteenDigits a.addr := by
  rw [← plainPiece_fits_p]
  constructor
  · intro hfits
    exact hfits _ (by simp [lsanAddressPieces])
  · intro haddr piece hpiece
    simp only [lsanAddressPieces, List.mem_append, List.mem_cons] at hpiece
    rcases hpiece with htext | rfl | htext | rfl | htext
    · exact textPieces_fits htext
    · exact haddr
    · exact textPieces_fits htext
    · exact plainPiece_fits_u _
    · exact textPieces_fits htext

def lsanLeakText (a : LsanAlloc) : List Byte :=
  bytesOf "\n==LSAN: LEAK DETECTED==\n" ++ (formatOutput (lsanAddressPieces a) ++ stackText a.stack)

/-- Every address in the text of the leak fills sixteen digits. -/
def LsanLeakFits (a : LsanAlloc) : Prop :=
  SixteenDigits a.addr ∧ ∀ pc ∈ a.stack.pcs, SixteenDigits pc

theorem lsanPrintLeak_prints (a : LsanAlloc) :
    PrintsIff (fun k => lsanPrintLeak k a) (LsanLeakFits a) (lsanLeakText a) := by
  have htitle : bytesOf "\n==LSAN: LEAK DETECTED==\n" =
      formatText (textPieces (bytesOf "\n==LSAN: LEAK DETECTED==\n")) :=
    rfl
  have hfmt : bytesOf "  Address: %p  Size: %zu bytes\n" = formatText (lsanAddressPieces a) := rfl
  have hargs : [.ptr a.addr, .long a.size] = formatArgs (lsanAddressPieces a) := rfl
  have haddress := (drtPrintf_prints (lsanAddressPieces a) hfmt hargs).congr_iff
    (lsanAddressPieces_fits_iff a)
  have hall := (drtPrintf_text_prints htitle).seq
    (haddress.seq (drtPrintStackTrace_prints a.stack))
  exact hall.congr_iff (by simp [LsanLeakFits])

theorem lsanPrinted_of_ends {budget : Nat} {a : LsanAlloc}
    (hends : (lsanPrinted budget a).ends = true) :
    LsanLeakFits a ∧ (lsanPrinted budget a).left = lsanLeakText a := by
  obtain ⟨ap, hruns⟩ := lsanPrintLeak_prints a ⟨[], []⟩
  rw [lsanPrinted] at hends ⊢
  split at hends
  · next s hrun =>
      obtain ⟨hfits, -, rfl⟩ := hruns.sound budget () s hrun
      exact ⟨hfits, rfl⟩
  · cases hends

theorem exists_lsanPrinted_eq {a : LsanAlloc} (hfits : LsanLeakFits a) :
    ∃ N, ∀ budget, N ≤ budget → lsanPrinted budget a = ⟨lsanLeakText a, true⟩ := by
  obtain ⟨ap, hruns⟩ := lsanPrintLeak_prints a ⟨[], []⟩
  obtain ⟨N, hN⟩ := hruns.total hfits
  refine ⟨N, fun budget hbudget => ?_⟩
  rw [lsanPrinted, hN budget hbudget]
  rfl

/-- One budget for the reports of all blocks of a list. -/
theorem exists_forall_lsanPrinted {blocks : List LsanAlloc} (hfits : ∀ a ∈ blocks, LsanLeakFits a) :
    ∃ N, ∀ budget, N ≤ budget → ∀ a ∈ blocks, (lsanPrinted budget a).ends = true := by
  induction blocks with
  | nil => exact ⟨0, by simp⟩
  | cons a blocks ih =>
      obtain ⟨ha, hblocks⟩ := List.forall_mem_cons.mp hfits
      obtain ⟨N, hN⟩ := ih hblocks
      obtain ⟨M, hM⟩ := exists_lsanPrinted_eq ha
      refine ⟨max M N, fun budget hbudget => List.forall_mem_cons.mpr ⟨?_, ?_⟩⟩
      · rw [hM budget (le_of_max_le_left hbudget)]
      · exact hN budget (le_of_max_le_right hbudget)

def lsanDiePieces (leaksFound : Nat) : List Piece :=
  linePieces (bytesOf "LSan: ") (plainPiece (m := .none) (.d (BitVec.ofNat 32 leaksFound)))
    (bytesOf " leak(s) found\n")

def lsanDieText (leaksFound : Nat) : List Byte :=
  bytesOf "\n[MISAN FATAL] " ++ (formatOutput (lsanDiePieces leaksFound) ++ bytesOf "\n")

theorem lsanDie_prints (leaksFound : Nat) :
    PrintsReturning (fun k => drtDie k (bytesOf "LSan: %d leak(s) found\n")
      [.int (BitVec.ofNat 32 leaksFound)]) True .aborted (lsanDieText leaksFound) := by
  have hfmt : bytesOf "LSan: %d leak(s) found\n" = formatText (lsanDiePieces leaksFound) := rfl
  have hargs : [.int (BitVec.ofNat 32 leaksFound)] = formatArgs (lsanDiePieces leaksFound) := rfl
  have hmessage : PrintsReturning (fun k => drtPrintf k _ _) True () _ :=
    (drtPrintf_prints (lsanDiePieces leaksFound) hfmt hargs).congr_iff
      (iff_true_intro (linePieces_fits_iff.mpr (plainPiece_fits_d _)))
  have hputs (text : List Byte) : PrintsReturning (fun _ => drtPuts text) True () _ :=
    drtPuts_prints text
  have hall := (hputs (bytesOf "\n[MISAN FATAL] ")).bind (f := fun k _ => _)
    (hmessage.bind (f := fun k _ => _)
      ((hputs (bytesOf "\n")).bind (f := fun _ _ => _) (.pure DrtExit.aborted)))
  exact hall.congr_iff (by simp)

/-! ### The check -/

theorem lsanPrintLoop_cons (budget : Nat) (a : LsanAlloc) (rest : List LsanAlloc)
    (leaksFound : Nat) :
    lsanPrintLoop budget s m (a :: rest) leaksFound =
      if lsanLeaks s m a then
        lsanPrintLeak budget a >>= fun _ => lsanPrintLoop budget s m rest (leaksFound + 1)
      else lsanPrintLoop budget s m rest leaksFound := by
  rw [lsanPrintLoop, lsanLeaks]
  by_cases hactive : a.state = .active
  · cases hignored : a.ignored <;> cases hmark : lsanMarkReachable s m a <;> simp [hactive]
  · simp [hactive]

theorem lsanPrintLoop_prints (allocs : List LsanAlloc) (leaksFound : Nat) :
    PrintsReturning (fun k => lsanPrintLoop k s m allocs leaksFound)
      (∀ a ∈ allocs.filter (lsanLeaks s m), LsanLeakFits a)
      (leaksFound + (allocs.filter (lsanLeaks s m)).length)
      ((allocs.filter (lsanLeaks s m)).flatMap lsanLeakText) := by
  induction allocs generalizing leaksFound with
  | nil => exact (PrintsReturning.pure leaksFound).congr_iff (by simp)
  | cons a rest ih =>
      simp only [lsanPrintLoop_cons, List.filter_cons]
      split
      · have hleak : PrintsReturning (fun k => lsanPrintLeak k a) (LsanLeakFits a) ()
          (lsanLeakText a) := lsanPrintLeak_prints a
        have hall := hleak.bind (f := fun k _ => _) (ih (leaksFound + 1))
        rw [Nat.add_assoc, Nat.add_comm 1] at hall
        apply hall.congr_iff
        simp
      · exact ih leaksFound

theorem lsanDoCheckInternal_eq :
    lsanDoCheckInternal s m fatal =
      ⟨s.allocs.filter (lsanLeaks s m),
        if (s.allocs.filter (lsanLeaks s m)).length ≠ 0 && fatal then none
        else some (s.allocs.filter (lsanLeaks s m)).length⟩ := by
  unfold lsanDoCheckInternal
  simp only [lsanCheckLoop_eq, List.nil_append, Nat.zero_add]
  split <;> rfl

/-- What a check that returned `returned` prints behind its leaks. -/
def lsanEndText (leaksFound : Nat) (returned : Option Nat) : List Byte :=
  if returned = none then lsanDieText leaksFound else []

/-- All a check prints. -/
def lsanCheckText (c : LsanCheck) : List Byte :=
  c.reports.flatMap lsanLeakText ++ lsanEndText c.reports.length c.returned

theorem lsanPrintEnd_prints (fatal : Bool) (leaksFound : Nat) :
    PrintsReturning (fun k => lsanPrintEnd k fatal leaksFound) True
      (if leaksFound ≠ 0 && fatal then none else some leaksFound)
      (lsanEndText leaksFound (if leaksFound ≠ 0 && fatal then none else some leaksFound)) := by
  simp only [lsanPrintEnd]
  split
  · have hnone : PrintsReturning (fun _ => pure none) True (none : Option Nat) [] := .pure none
    have hdie := (lsanDie_prints leaksFound).bind (f := fun _ _ => _) hnone
    rw [List.append_nil] at hdie
    apply hdie.congr_iff
    simp
  · exact .pure _

/-- **What a check prints**, if it ends. -/
theorem lsanPrintCheck_prints (s : LsanState) (m : Memory) (fatal : Bool) :
    PrintsReturning (fun k => lsanPrintCheck k s m fatal)
      (∀ a ∈ (lsanDoCheckInternal s m fatal).reports, LsanLeakFits a)
      (lsanDoCheckInternal s m fatal).returned (lsanCheckText (lsanDoCheckInternal s m fatal)) := by
  have hloop := lsanPrintLoop_prints (s := s) (m := m) s.allocs 0
  rw [Nat.zero_add] at hloop
  have hall := hloop.bind (f := fun k => lsanPrintEnd k fatal) (lsanPrintEnd_prints fatal _)
  rw [lsanDoCheckInternal_eq, lsanCheckText]
  apply hall.congr_iff
  simp

/-! ### Reading back -/

theorem lsanLeakText_eq (a : LsanAlloc) :
    lsanLeakText a =
      byteOf '\n' :: byteOf '=' :: (bytesOf "=LSAN: LEAK DETECTED==\n" ++
        (bytesOf "  Address: 0x" ++ (numeralBytes false 16 a.addr.toNat ++ (byteOf ' ' ::
          (bytesOf " Size: " ++ (numeralBytes false 10 a.size.toNat ++ (byteOf ' ' ::
            (bytesOf "bytes\n" ++
              (bytesOf "Stack trace:\n" ++ framesText 0 a.stack.pcs))))))))) := by
  have hsize : a.size.setWidth 64 = a.size := BitVec.setWidth_eq _
  have haddress : formatOutput (lsanAddressPieces a) =
      bytesOf "  Address: 0x" ++ (numeralBytes false 16 a.addr.toNat ++ (byteOf ' ' ::
        (bytesOf " Size: " ++ (numeralBytes false 10 (a.size.setWidth 64).toNat ++
          (byteOf ' ' :: bytesOf "bytes\n"))))) := rfl
  rw [lsanLeakText, haddress, hsize, stackText]
  simp only [List.append_assoc, List.cons_append]
  rfl

/-- A leak ends where no further line of its stack begins. -/
theorem readable_lsanLeakText :
    Readable LsanAlloc.Candidate (StopsAt isSpace) lsanLeakText := by
  rintro ⟨addr, size, state, ignored, pcs, hpcs⟩ ⟨addr', size', state', ignored', pcs', hpcs'⟩ r r'
    ⟨hactive, hkept⟩ ⟨hactive', hkept'⟩ hr hr' heq
  simp only at hactive hkept hactive' hkept'
  subst hactive hkept hactive' hkept'
  simp only [lsanLeakText_eq, List.cons_append, List.append_assoc, List.cons.injEq, true_and,
    List.append_cancel_left_eq] at heq
  obtain ⟨haddr, heq⟩ := readable_numeralBytes (Or.inr rfl) trivial trivial (stopsAt_cons _ rfl)
    (stopsAt_cons _ rfl) heq
  simp only [List.cons.injEq, true_and, List.append_cancel_left_eq] at heq
  obtain ⟨hsize, heq⟩ := readable_numeralBytes (Or.inl rfl) trivial trivial (stopsAt_cons _ rfl)
    (stopsAt_cons _ rfl) heq
  simp only [List.cons.injEq, true_and, List.append_cancel_left_eq] at heq
  obtain ⟨rfl, hrest⟩ := readable_framesText 0 trivial trivial hr hr' heq
  obtain rfl := BitVec.eq_of_toNat_eq haddr
  obtain rfl := BitVec.eq_of_toNat_eq hsize
  exact ⟨rfl, hrest⟩

/-- What can stand behind the leaks of a check: nothing, or the message of `drt_die`. -/
def IsCheckEnd (r : List Byte) : Prop := r = [] ∨ ∃ leaksFound, r = lsanDieText leaksFound

theorem lsanDieText_eq (leaksFound : Nat) :
    ∃ rest, lsanDieText leaksFound = byteOf '\n' :: byteOf '[' :: rest :=
  ⟨_, rfl⟩

/-- The leaks of a check show where they end. -/
theorem readable_lsanLeaks :
    Readable (fun reports : List LsanAlloc => ∀ a ∈ reports, a.Candidate) IsCheckEnd
      (List.flatMap lsanLeakText) := by
  apply readable_lsanLeakText.flatMap
  · rintro a r - (hnil | ⟨leaksFound, hdie⟩)
    · rw [lsanLeakText_eq] at hnil
      cases hnil
    · obtain ⟨rest, hrest⟩ := lsanDieText_eq leaksFound
      rw [lsanLeakText_eq, hrest] at hdie
      exact absurd (List.cons.inj (List.cons.inj hdie).2).1 (by decide)
  · rintro (- | ⟨a, reports⟩) r - hend
    · obtain rfl | ⟨leaksFound, rfl⟩ := hend
      · intro c hc
        cases hc
      · exact stopsAt_cons _ rfl
    · rw [List.flatMap_cons, lsanLeakText_eq]
      exact stopsAt_cons _ rfl

theorem lsanCheckText_reads_back
    (hsame : lsanCheckText (lsanDoCheckInternal s m fatal) =
      lsanCheckText (lsanDoCheckInternal s' m' fatal')) :
    lsanDoCheckInternal s m fatal = lsanDoCheckInternal s' m' fatal' := by
  have hcandidates (s : LsanState) (m : Memory) :
      ∀ a ∈ s.allocs.filter (lsanLeaks s m), a.Candidate := by
    intro a ha
    rw [← lsanDoCheckInternal_reports false] at ha
    exact ((mem_reports_iff false a).mp ha).2.1
  have hend (leaksFound : Nat) (returned : Option Nat) :
      IsCheckEnd (lsanEndText leaksFound returned) := by
    rw [lsanEndText]
    split
    · exact Or.inr ⟨leaksFound, rfl⟩
    · exact Or.inl rfl
  rw [lsanDoCheckInternal_eq, lsanDoCheckInternal_eq, lsanCheckText, lsanCheckText] at hsame
  obtain ⟨hreports, htext⟩ := readable_lsanLeaks (hcandidates s m) (hcandidates s' m')
    (hend _ _) (hend _ _) hsame
  rw [lsanDoCheckInternal_eq, lsanDoCheckInternal_eq]
  dsimp only at htext
  rw [← hreports] at htext ⊢
  generalize (s.allocs.filter (lsanLeaks s m)).length = leaksFound at htext ⊢
  by_cases hdie : (leaksFound ≠ 0 && fatal) = true <;>
    by_cases hdie' : (leaksFound ≠ 0 && fatal') = true
  · rw [if_pos hdie, if_pos hdie']
  · rw [if_pos hdie, if_neg hdie'] at htext
    cases htext
  · rw [if_neg hdie, if_pos hdie'] at htext
    cases htext
  · rw [if_neg hdie, if_neg hdie']

/-- **The output of a leak check.** The check ends if and only if every address it prints fills
sixteen digits, and two checks with the same output, of any tables, have reported the same blocks
and returned the same. -/
theorem lsanPrintCheck_output (s : LsanState) (m : Memory) (fatal : Bool) :
    PrintsReturning (fun k => lsanPrintCheck k s m fatal)
        (∀ a ∈ (lsanDoCheckInternal s m fatal).reports, LsanLeakFits a)
        (lsanDoCheckInternal s m fatal).returned
        (lsanCheckText (lsanDoCheckInternal s m fatal)) ∧
      ∀ s' m' fatal' budget budget' returned returned' st₀ st st',
        lsanPrintCheck budget s m fatal st₀ = .ok returned st →
          lsanPrintCheck budget' s' m' fatal' st₀ = .ok returned' st' → st.out = st'.out →
            lsanDoCheckInternal s m fatal = lsanDoCheckInternal s' m' fatal' := by
  refine ⟨lsanPrintCheck_prints s m fatal, ?_⟩
  intro s' m' fatal' budget budget' returned returned' st₀ st st' hrun hrun' hsame
  obtain ⟨ap, hruns⟩ := lsanPrintCheck_prints s m fatal st₀
  obtain ⟨ap', hruns'⟩ := lsanPrintCheck_prints s' m' fatal' st₀
  obtain ⟨-, -, rfl⟩ := hruns.sound budget returned st hrun
  obtain ⟨-, -, rfl⟩ := hruns'.sound budget' returned' st' hrun'
  exact lsanCheckText_reads_back (List.append_cancel_left hsame)

end Misan
