import Misan.Proof.LsanOutput
import Misan.Proof.PrintfAppend

/-!
# Which garbage is reported

A check is silent about the garbage that some active block, itself garbage, still points to. Of the
other garbage it reports what it gets to: a report that prints an address of fewer than sixteen
digits does not come to its end, and nothing behind it is reported.
-/

namespace Misan

variable {s : LsanState} {m : Memory} {a : LsanAlloc} {budget : Nat}

/-! ### A report behind other output -/

theorem drtPrintf_framed (before : List Byte) (budget : Nat) (fmt : List Byte)
    (args : List VaArg) :
    Framed (fun _ => True) (PrintState.extend before []) (drtPrintf budget fmt args) := by
  apply Framed.bind
  · intro st _
    have hargs : args = args ++ [] := (List.append_nil args).symm
    exact congrArg (fun ap => EStateM.Result.ok () (PrintState.mk (before ++ st.out) ap)) hargs
  · intro _
    exact drtVprintfLoop_framed (Or.inl rfl) fmt budget 0

theorem drtPrintFrames_framed (before : List Byte) (budget i : Nat) (pcs : List Addr) :
    Framed (fun _ => True) (PrintState.extend before []) (drtPrintFrames budget i pcs) := by
  induction pcs generalizing i with
  | nil => exact Framed.pure ()
  | cons pc pcs ih => exact (drtPrintf_framed before budget _ _).bind fun _ => ih (i + 1)

theorem lsanPrintLeak_framed (before : List Byte) (budget : Nat) (a : LsanAlloc) :
    Framed (fun _ => True) (PrintState.extend before []) (lsanPrintLeak budget a) := by
  apply (drtPrintf_framed before budget _ _).bind
  intro _
  apply (drtPrintf_framed before budget _ _).bind
  intro _
  apply ((printClosed_framed _ before []).drtPuts _).bind
  intro _
  exact drtPrintFrames_framed before budget 0 _

/-- What a report prints does not depend on what is printed in front of it. -/
theorem lsanPrintLeak_run (budget : Nat) (a : LsanAlloc) (st : PrintState) :
    lsanPrintLeak budget a st = mapState (PrintState.extend st.out [])
      (lsanPrintLeak budget a ⟨[], []⟩) := by
  have hframed := lsanPrintLeak_framed st.out budget a ⟨[], []⟩ fun _ _ _ => trivial
  rw [← hframed, PrintState.extend, List.append_nil]
  rfl

theorem lsanPrintEnd_framed (before : List Byte) (budget : Nat) (fatal : Bool)
    (leaksFound : Nat) :
    Framed (fun _ => True) (PrintState.extend before [])
      (lsanPrintEnd budget fatal leaksFound) := by
  have hputs := fun text => (printClosed_framed (fun _ => True) before []).drtPuts text
  rw [lsanPrintEnd]
  split
  · refine Framed.bind ((hputs _).bind fun _ => ?_) fun _ => Framed.pure none
    apply (drtPrintf_framed before budget _ _).bind
    intro _
    exact (hputs _).bind fun _ => Framed.pure _
  · exact Framed.pure _

/-- All that is printed when a program has come to its end, or stopped. -/
def printedBy {α : Type} : EStateM.Result PrintStop PrintState α → List Byte
  | .ok _ t => t.out
  | .error _ t => t.out

/-- A part that looks at nothing printed before only adds to it. -/
theorem exists_printedBy_eq {α : Type} {x : Print α} {st : PrintState}
    (hx : Framed (fun _ => True) (PrintState.extend st.out []) x) :
    ∃ rest, printedBy (x st) = st.out ++ rest := by
  have hframed := hx ⟨[], st.ap⟩ fun _ _ _ => trivial
  rw [PrintState.extend, List.append_nil, List.append_nil] at hframed
  refine ⟨printedBy (x ⟨[], st.ap⟩), ?_⟩
  calc
    printedBy (x st) = printedBy (mapState (PrintState.extend st.out []) (x ⟨[], st.ap⟩)) :=
      congrArg printedBy hframed
    _ = st.out ++ printedBy (x ⟨[], st.ap⟩) := by
      cases x ⟨[], st.ap⟩ <;> rfl

theorem lsanPrintLeak_ok (hends : (lsanPrinted budget a).ends = true) (st : PrintState) :
    ∃ ap, lsanPrintLeak budget a st = .ok () ⟨st.out ++ (lsanPrinted budget a).left, ap⟩ := by
  rw [lsanPrintLeak_run]
  rw [lsanPrinted] at hends ⊢
  split at hends
  · next t hrun =>
      simp only [hrun]
      exact ⟨_, rfl⟩
  · cases hends

theorem lsanPrintLeak_error (hends : (lsanPrinted budget a).ends = false) (st : PrintState) :
    ∃ e ap, lsanPrintLeak budget a st = .error e ⟨st.out ++ (lsanPrinted budget a).left, ap⟩ := by
  rw [lsanPrintLeak_run]
  rw [lsanPrinted] at hends ⊢
  split at hends
  · cases hends
  · next e t hrun =>
      simp only [hrun]
      exact ⟨_, _, rfl⟩

/-! ### The reports of a check -/

theorem lsanBegun_cons (budget : Nat) (s : LsanState) (m : Memory) (a : LsanAlloc)
    (rest : List LsanAlloc) :
    lsanBegun budget s m (a :: rest) =
      if lsanLeaks s m a then
        a :: if (lsanPrinted budget a).ends then lsanBegun budget s m rest else []
      else lsanBegun budget s m rest := by
  rw [lsanBegun, lsanLeaks]
  by_cases hactive : a.state = .active
  · cases hignored : a.ignored <;> cases hmark : lsanMarkReachable s m a <;> simp [hactive]
  · simp [hactive]

/-- The loop begins the reports of its leaks in order, up to the first one that does not end. -/
theorem lsanBegun_prefix_filter (budget : Nat) (s : LsanState) (m : Memory)
    (allocs : List LsanAlloc) :
    lsanBegun budget s m allocs <+: allocs.filter (lsanLeaks s m) := by
  induction allocs with
  | nil => exact List.prefix_refl []
  | cons a rest ih =>
      rw [lsanBegun_cons]
      split
      · next hleaks =>
          rw [List.filter_cons_of_pos hleaks, List.prefix_cons_inj]
          split
          · exact ih
          · exact List.nil_prefix
      · next hleaks =>
          rw [List.filter_cons_of_neg hleaks]
          exact ih

/-- **A check with its printing** begins no report that a check without it does not make. -/
theorem lsanBegun_prefix_reports (budget : Nat) (s : LsanState) (m : Memory) (fatal : Bool) :
    lsanBegun budget s m s.allocs <+: (lsanDoCheckInternal s m fatal).reports := by
  rw [lsanDoCheckInternal_reports]
  exact lsanBegun_prefix_filter budget s m s.allocs

theorem leaks_of_mem_lsanBegun {allocs : List LsanAlloc} (ha : a ∈ lsanBegun budget s m allocs) :
    a ∈ allocs ∧ lsanLeaks s m a = true :=
  List.mem_filter.mp ((lsanBegun_prefix_filter budget s m allocs).subset ha)

/-- A leak is begun when the reports of all leaks in front of it end. -/
theorem mem_lsanBegun_behind {before : List LsanAlloc} (behind : List LsanAlloc)
    (hleaks : lsanLeaks s m a = true)
    (hends : ∀ b ∈ before, lsanLeaks s m b = true → (lsanPrinted budget b).ends = true) :
    a ∈ lsanBegun budget s m (before ++ a :: behind) := by
  induction before with
  | nil =>
      rw [List.nil_append, lsanBegun_cons, if_pos hleaks]
      exact List.mem_cons_self ..
  | cons b before ih =>
      obtain ⟨hb, hbefore⟩ := List.forall_mem_cons.mp hends
      rw [List.cons_append, lsanBegun_cons]
      split
      · next hleak =>
          rw [if_pos (hb hleak)]
          exact List.mem_cons_of_mem _ (ih hbefore)
      · exact ih hbefore

/-- **What the loop prints** is what the reports it begins print. It ends if they do. -/
theorem lsanPrintLoop_begun (budget : Nat) (s : LsanState) (m : Memory) (allocs : List LsanAlloc)
    (leaksFound : Nat) (st : PrintState) :
    let text := (lsanBegun budget s m allocs).flatMap fun a => (lsanPrinted budget a).left
    (∀ a ∈ lsanBegun budget s m allocs, (lsanPrinted budget a).ends = true) ∧
        (∃ ap, lsanPrintLoop budget s m allocs leaksFound st =
          .ok (leaksFound + (lsanBegun budget s m allocs).length) ⟨st.out ++ text, ap⟩) ∨
      ∃ e ap, lsanPrintLoop budget s m allocs leaksFound st = .error e ⟨st.out ++ text, ap⟩ := by
  induction allocs generalizing leaksFound st with
  | nil =>
      refine Or.inl ⟨by simp [lsanBegun], st.ap, ?_⟩
      simp [lsanBegun, lsanPrintLoop]
      rfl
  | cons a rest ih =>
      rw [lsanPrintLoop_cons, lsanBegun_cons]
      split
      · cases hends : (lsanPrinted budget a).ends with
        | false =>
            obtain ⟨e, ap, hfail⟩ := lsanPrintLeak_error hends st
            refine Or.inr ⟨e, ap, ?_⟩
            rw [bind_eq_error.mpr (Or.inl hfail)]
            simp
        | true =>
            obtain ⟨ap, hrun⟩ := lsanPrintLeak_ok hends st
            rw [bind_run hrun]
            rcases ih (leaksFound + 1) ⟨st.out ++ (lsanPrinted budget a).left, ap⟩ with
              ⟨hall, ap', hok⟩ | ⟨e, ap', hfail⟩
            · refine Or.inl ⟨?_, ap', ?_⟩
              · simpa [hends] using hall
              · rw [hok]
                simp [Nat.add_assoc, Nat.add_comm 1]
            · refine Or.inr ⟨e, ap', ?_⟩
              rw [hfail]
              simp
      · exact ih leaksFound st

/-- **A check** prints what the reports it begins print, and then the end of the check, if it gets
there. -/
theorem lsanPrintCheck_printedBy (budget : Nat) (s : LsanState) (m : Memory) (fatal : Bool)
    (st : PrintState) :
    ∃ rest, printedBy (lsanPrintCheck budget s m fatal st) =
      st.out ++ (lsanBegun budget s m s.allocs).flatMap (fun a => (lsanPrinted budget a).left) ++
        rest := by
  rw [lsanPrintCheck]
  rcases lsanPrintLoop_begun budget s m s.allocs 0 st with ⟨-, ap, hok⟩ | ⟨e, ap, hfail⟩
  · rw [bind_run hok]
    exact exists_printedBy_eq (lsanPrintEnd_framed _ budget fatal _)
  · rw [bind_eq_error.mpr (Or.inl hfail)]
    exact ⟨[], (List.append_nil _).symm⟩

/-- Within some budget the check comes to the end of the report of the block, so that the report is
in what it prints, whole. -/
def LsanReported (s : LsanState) (m : Memory) (fatal : Bool) (a : LsanAlloc) : Prop :=
  ∃ budget, a ∈ lsanBegun budget s m s.allocs ∧ (lsanPrinted budget a).ends = true ∧
    ∀ st, ∃ before rest, printedBy (lsanPrintCheck budget s m fatal st) =
      st.out ++ before ++ lsanLeakText a ++ rest

theorem lsanReported_iff (fatal : Bool) :
    LsanReported s m fatal a ↔
      ∃ budget, a ∈ lsanBegun budget s m s.allocs ∧ (lsanPrinted budget a).ends = true := by
  constructor
  · rintro ⟨budget, ha, hends, -⟩
    exact ⟨budget, ha, hends⟩
  · rintro ⟨budget, ha, hends⟩
    refine ⟨budget, ha, hends, fun st => ?_⟩
    obtain ⟨rest, hout⟩ := lsanPrintCheck_printedBy budget s m fatal st
    obtain ⟨before, behind, hbegun⟩ := List.append_of_mem ha
    rw [hbegun, List.flatMap_append, List.flatMap_cons, (lsanPrinted_of_ends hends).2] at hout
    let printed := fun a => (lsanPrinted budget a).left
    exact ⟨before.flatMap printed, behind.flatMap printed ++ rest, by simpa [printed] using hout⟩

/-- The blocks reported are the leaks in front of the first report that does not end. -/
theorem mem_lsanBegun_ends_iff (a : LsanAlloc) (allocs : List LsanAlloc) :
    (∃ budget, a ∈ lsanBegun budget s m allocs ∧ (lsanPrinted budget a).ends = true) ↔
      lsanLeaks s m a = true ∧ ∃ before behind, allocs = before ++ a :: behind ∧
        ∀ b ∈ before ++ [a], lsanLeaks s m b = true → LsanLeakFits b := by
  constructor
  · rintro ⟨budget, ha, hends⟩
    refine ⟨(leaks_of_mem_lsanBegun ha).2, ?_⟩
    have hfits := (lsanPrinted_of_ends hends).1
    induction allocs with
    | nil => cases ha
    | cons b rest ih =>
        by_cases hab : a = b
        · subst hab
          refine ⟨[], rest, rfl, fun b hb _ => ?_⟩
          rw [List.mem_singleton.mp hb]
          exact hfits
        · rw [lsanBegun_cons] at ha
          split at ha
          · rcases List.mem_cons.mp ha with heq | hrest
            · exact absurd heq hab
            · split at hrest
              · next hb =>
                  obtain ⟨before, behind, rfl, hbefore⟩ := ih hrest
                  refine ⟨b :: before, behind, rfl, List.forall_mem_cons.mpr ⟨fun _ => ?_, hbefore⟩⟩
                  exact (lsanPrinted_of_ends hb).1
              · cases hrest
          · next hb =>
              obtain ⟨before, behind, rfl, hbefore⟩ := ih ha
              exact ⟨b :: before, behind, rfl,
                List.forall_mem_cons.mpr ⟨fun h => absurd h hb, hbefore⟩⟩
  · rintro ⟨hleaks, before, behind, rfl, hfits⟩
    have hblocks : ∀ b ∈ (before ++ [a]).filter (lsanLeaks s m), LsanLeakFits b := by
      intro b hb
      obtain ⟨hmem, hb⟩ := List.mem_filter.mp hb
      exact hfits b hmem hb
    obtain ⟨N, hN⟩ := exists_forall_lsanPrinted hblocks
    have hends : ∀ b ∈ before ++ [a], lsanLeaks s m b = true → (lsanPrinted N b).ends = true :=
      fun b hmem hb => hN N (Nat.le_refl N) b (List.mem_filter.mpr ⟨hmem, hb⟩)
    refine ⟨N, mem_lsanBegun_behind behind hleaks fun b hb => ?_, ?_⟩
    · exact hends b (List.mem_append_left _ hb)
    · exact hends a (List.mem_append_right _ (List.mem_singleton_self a)) hleaks

/-! ### Garbage -/

/-- **All garbage, exactly.** A check reports every unreachable candidate if and only if each of
them is stored in no scanned word of an active block, and prints only sixteen-digit addresses, as
does every leak in front of it. -/
theorem lsanPrintCheck_reports_all_iff (s : LsanState) (m : Memory) (fatal : Bool) :
    (∀ a ∈ s.allocs, a.Candidate → ¬ LsanReachable s m a.addr → LsanReported s m fatal a) ↔
      ∀ a ∈ s.allocs, a.Candidate → ¬ LsanReachable s m a.addr →
        (∀ b ∈ s.allocs, b.state = .active → lsanScan m b.addr b.size a.addr = false) ∧
          ∃ before behind, s.allocs = before ++ a :: behind ∧
            ∀ b ∈ before ++ [a], lsanLeaks s m b = true → LsanLeakFits b := by
  refine forall₂_congr fun a ha => forall₂_congr fun hcandidate hunreachable => ?_
  rw [lsanReported_iff, mem_lsanBegun_ends_iff]
  apply and_congr_left
  intro _
  have hleaks : lsanLeaks s m a = true ↔ ¬ lsanMarkReachable s m a = true := by
    obtain ⟨hactive, hignored⟩ := hcandidate
    simp [lsanLeaks, hactive, hignored]
  rw [hleaks, lsanMarkReachable_iff_of_unreachable hunreachable]
  simp

/-- One registered block of eight bytes at `0x1000`, in a memory where it holds its own address. -/
def selfReference : LsanState :=
  lsanRegisterAlloc LsanState.initial 0x1000 8 ⟨[], Nat.zero_le _⟩

def selfReferenceMemory : Memory := fun x => if x = 0x1001 then 0x10 else 0

theorem not_lsanReachable_selfReference (p : Addr) :
    ¬ LsanReachable selfReference selfReferenceMemory p := by
  have hroots : selfReference.roots = [] := rfl
  intro hreach
  induction hreach with
  | inside r hr _ _ => simp [hroots] at hr
  | root r hr _ => simp [hroots] at hr
  | block a _ _ _ _ ih => exact ih

/-- A block that points to itself is garbage and is not reported. -/
theorem not_reported_selfReference :
    ¬ ∀ (s : LsanState) (m : Memory) (fatal : Bool), ∀ a ∈ s.allocs, a.Candidate →
      ¬ LsanReachable s m a.addr → LsanReported s m fatal a := by
  intro hclaim
  obtain ⟨budget, ha, -⟩ := hclaim selfReference selfReferenceMemory true
    ⟨0x1000, 8, .active, false, ⟨[], by decide⟩⟩ (List.mem_singleton.mpr rfl) ⟨rfl, rfl⟩
    (not_lsanReachable_selfReference _)
  exact absurd (leaks_of_mem_lsanBegun ha).2 (by decide)

end Misan
