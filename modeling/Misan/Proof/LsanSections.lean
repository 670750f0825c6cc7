import Misan.LsanThreads
import Misan.Proof.LsanOutput
import Misan.Proof.LsanRoots

/-!
# What the code under the lock does

A section that ends does to the tables cut to their counts what the call of the same name does to
the two lists. A search loop is the update of the first match, the stores of a registration are one
entry behind the last, and overwriting a root with the last one is the removal on the list. Only a
check that prints a leak whose report runs on in a loop does not end.
-/

namespace Misan

/-! ### Arrays cut to their counts -/

section Arrays

variable {α : Type} {f : Nat → α} {n i : Nat} {v : α} {found : α → Bool} {update : α → α}

theorem map_range_update_of_le (hi : n ≤ i) :
    (List.range n).map (Function.update f i v) = (List.range n).map f := by
  apply List.map_congr_left
  intro j hj
  have hne : j ≠ i := by
    have := List.mem_range.mp hj
    omega
  exact Function.update_of_ne hne v f

theorem map_range_succ_update :
    (List.range (n + 1)).map (Function.update f n v) = (List.range n).map f ++ [v] := by
  rw [List.range_succ, List.map_append, map_range_update_of_le (Nat.le_refl n)]
  simp

/-- What stands before the index, at it and behind it. -/
theorem map_range_split (hi : i < n) :
    (List.range n).map f = (List.range i).map f ++
      f i :: (List.range (n - i - 1)).map fun j => f (i + 1 + j) := by
  obtain ⟨k, rfl⟩ : ∃ k, n = i + (1 + k) := ⟨n - i - 1, by omega⟩
  have hk : i + (1 + k) - i - 1 = k := by omega
  rw [hk, List.range_add, List.map_append, List.range_add]
  simp [Function.comp_def, Nat.add_assoc]

/-- The search loop on the list is the store at the first index found. -/
theorem updateFirst_map_range (hi : i < n) (hnone : ∀ j < i, found (f j) = false)
    (hfound : found (f i) = true) :
    updateFirst found update ((List.range n).map f) =
      (List.range n).map (Function.update f i (update (f i))) := by
  have hbehind : ∀ j, Function.update f i (update (f i)) (i + 1 + j) = f (i + 1 + j) := by
    intro j
    exact Function.update_of_ne (by omega) _ f
  rw [map_range_split hi, map_range_split hi, updateFirst_append_cons ?_ hfound,
    map_range_update_of_le (Nat.le_refl i)]
  · simp [hbehind]
  · intro a ha
    obtain ⟨j, hj, rfl⟩ := List.mem_map.mp ha
    exact hnone j (List.mem_range.mp hj)

end Arrays

namespace LsanTables

@[simp] theorem state_allocs (t : LsanTables) :
    t.state.allocs = (List.range t.allocCount).map t.allocs := rfl
@[simp] theorem state_roots (t : LsanTables) :
    t.state.roots = (List.range t.rootCount).map t.roots := rfl
@[simp] theorem state_lsanDisabled (t : LsanTables) : t.state.lsanDisabled = false := rfl

theorem foldl_storeAlloc (t : LsanTables) (i : Nat) (stores : List (LsanAlloc → LsanAlloc)) :
    stores.foldl (fun t store => t.storeAlloc i store) t =
      t.storeAlloc i fun a => stores.foldl (fun a store => store a) a := by
  induction stores generalizing t with
  | nil => simp [storeAlloc]
  | cons store stores ih =>
      rw [List.foldl_cons, ih]
      simp [storeAlloc]

theorem foldl_storeRoot (t : LsanTables) (i : Nat) (stores : List (LsanRoot → LsanRoot)) :
    stores.foldl (fun t store => t.storeRoot i store) t =
      t.storeRoot i fun r => stores.foldl (fun r store => store r) r := by
  induction stores generalizing t with
  | nil => simp [storeRoot]
  | cons store stores ih =>
      rw [List.foldl_cons, ih]
      simp [storeRoot]

end LsanTables

theorem LsanState.eq_of_fields {s s' : LsanState} (hallocs : s.allocs = s'.allocs)
    (hroots : s.roots = s'.roots) (hdisabled : s.lsanDisabled = s'.lsanDisabled) : s = s' := by
  cases s
  cases s'
  simp_all

/-! ### What each section does -/

/-- What a call does to the tables when the flag is not set. -/
def LsanOp.onState : LsanOp → LsanState → LsanState
  | registerAlloc addr size stack, s => lsanRegisterAlloc s addr size stack
  | unregisterAlloc addr, s => lsanUnregisterAlloc s addr
  | registerRootRegion p size, s => lsanRegisterRootRegion s p size
  | unregisterRootRegion p size, s => lsanUnregisterRootRegion s p size
  | ignoreObject p, s => lsanIgnoreObject s p
  | check _, s => s

/-- What a call prints under the lock. -/
def LsanOp.prints : LsanOp → LsanState → List Byte
  | check m, s => (s.allocs.filter (lsanLeaks s m)).flatMap lsanLeakText
  | _, _ => []

/-- The tables cut to their counts, and what is printed. -/
def LsanTables.view (t : LsanTables) : LsanState × List Byte := (t.state, t.out)

def LsanOp.onView (op : LsanOp) (v : LsanState × List Byte) : LsanState × List Byte :=
  (op.onState v.1, v.2 ++ op.prints v.1)

/-- A check leaves with the reports and the count of the check loop, and only if every address in
the reports fills sixteen digits. -/
def LsanOp.Returns : LsanOp → LsanState → LsanPoint → Prop
  | check m, s, l => l = .checked (lsanCheckLoop s m s.allocs 0 []).1
      (lsanCheckLoop s m s.allocs 0 []).2 ∧
      ∀ a ∈ (lsanCheckLoop s m s.allocs 0 []).2, LsanLeakFits a
  | _, _, l => l = .done

section Sections

variable (budget : Nat) (t : LsanTables)

theorem lsanCritical_step (l : LsanPoint) :
    (lsanCritical budget).step l t = lsanPointStep budget t l := rfl

/-- The section of a call, as far as it ends. -/
def LsanOp.Section (op : LsanOp) : Prop :=
  ∃ l t', (lsanCritical budget).Performs op t l t' ∧ t'.view = op.onView t.view ∧
    op.Returns t.state l

variable {budget t} in
theorem LsanOp.section_intro {op : LsanOp} {l : LsanPoint} {t' : LsanTables}
    (hperforms : (lsanCritical budget).Performs op t l t')
    (hstate : t'.state = op.onState t.state) (hout : t'.out = t.out ++ op.prints t.state)
    (hreturns : op.Returns t.state l) : LsanOp.Section budget t op :=
  ⟨l, t', hperforms, Prod.ext hstate hout, hreturns⟩

theorem registerAlloc_section (addr size : Addr) (stack : DrtStackTrace) :
    LsanOp.Section budget t (.registerAlloc addr size stack) := by
  by_cases hfull : t.allocCount ≥ lsanMaxAllocs
  · refine LsanOp.section_intro (l := .done) ⟨Critical.Leads.single ?_, rfl⟩ ?_
      (List.append_nil _).symm rfl
    · simp [lsanCritical, LsanOp.enter, lsanPointStep, hfull]
    · simp [LsanOp.onState, lsanRegisterAlloc, hfull]
  · let counted : LsanTables :=
      { t with allocCount := t.allocCount + 1, allocCount_le := Nat.lt_of_not_le hfull }
    have hcount : (lsanCritical budget).step (.registerTest addr size stack) t =
        some (.registerStores t.allocCount (registerStores addr size stack), counted) := by
      simp [lsanCritical, lsanPointStep, hfull, counted]
    have hstore : ∀ b bs t',
        (lsanCritical budget).step (.registerStores t.allocCount (b :: bs)) t' =
          some (.registerStores t.allocCount bs, t'.storeAlloc t.allocCount b) := fun _ _ _ => rfl
    have hstores := Critical.leads_stores hstore (registerStores addr size stack) counted
    refine LsanOp.section_intro (l := .done) ⟨(Critical.Leads.head hcount hstores).next rfl, rfl⟩ ?_
      (List.append_nil _).symm rfl
    rw [LsanTables.foldl_storeAlloc]
    apply LsanState.eq_of_fields
    · simp [LsanOp.onState, lsanRegisterAlloc, hfull, registerStores, LsanTables.storeAlloc,
        counted, map_range_succ_update]
    · simp [LsanOp.onState, lsanRegisterAlloc, hfull, LsanTables.storeAlloc, counted]
    · simp [LsanOp.onState, lsanRegisterAlloc, hfull]

/-- A search loop over the allocation table whose hit is one store. -/
theorem leads_updateFirst {scan hit : Nat → LsanPoint} {found : LsanAlloc → Bool}
    {update : LsanAlloc → LsanAlloc}
    (hscan : ∀ i, (lsanCritical budget).step (scan i) t =
      some (if i < t.allocCount then if found (t.allocs i) then hit i else scan (i + 1)
        else .done, t))
    (hhit : ∀ i, (lsanCritical budget).step (hit i) t = some (.done, t.storeAlloc i update)) :
    ∃ t', (lsanCritical budget).Leads (scan 0, t) (.done, t') ∧
      t'.state.allocs = updateFirst found update t.state.allocs ∧
      t'.state.roots = t.state.roots ∧ t'.out = t.out := by
  rcases Critical.leads_scan hscan with ⟨i, hi, hfound, hnone, hleads⟩ | ⟨hnone, hleads⟩
  · refine ⟨_, hleads.next (hhit i), ?_, rfl, rfl⟩
    rw [LsanTables.state_allocs, LsanTables.state_allocs, updateFirst_map_range hi hnone hfound]
    rfl
  · refine ⟨t, hleads, ?_, rfl, rfl⟩
    rw [LsanTables.state_allocs, updateFirst_of_none]
    simpa using hnone

theorem unregisterAlloc_section (addr : Addr) :
    LsanOp.Section budget t (.unregisterAlloc addr) := by
  let found : LsanAlloc → Bool := fun a => a.addr == addr && a.state == .active
  have hscan : ∀ i, (lsanCritical budget).step (.unregisterScan addr i) t =
      some (if i < t.allocCount then if found (t.allocs i) then .unregisterStore i
        else .unregisterScan addr (i + 1) else .done, t) := by
    intro i
    rw [lsanCritical_step, lsanPointStep]
    split_ifs <;> rfl
  have hhit : ∀ i, (lsanCritical budget).step (.unregisterStore i) t =
      some (.done, t.storeAlloc i fun a => { a with state := .freed }) := fun _ => rfl
  obtain ⟨t', hleads, hallocs, hroots, hout⟩ := leads_updateFirst budget t hscan hhit
  refine LsanOp.section_intro ⟨hleads, rfl⟩ (LsanState.eq_of_fields ?_ ?_ ?_)
    (hout.trans (List.append_nil _).symm) rfl
  · rw [hallocs]
    simp [LsanOp.onState, lsanUnregisterAlloc, found]
  · rw [hroots]
    simp [LsanOp.onState, lsanUnregisterAlloc]
  · simp [LsanOp.onState, lsanUnregisterAlloc]

theorem ignoreObject_section (p : Addr) : LsanOp.Section budget t (.ignoreObject p) := by
  let found : LsanAlloc → Bool := fun a => a.addr == p
  have hscan : ∀ i, (lsanCritical budget).step (.ignoreScan p i) t =
      some (if i < t.allocCount then if found (t.allocs i) then .ignoreStore i
        else .ignoreScan p (i + 1) else .done, t) := by
    intro i
    rw [lsanCritical_step, lsanPointStep]
    split_ifs <;> rfl
  have hhit : ∀ i, (lsanCritical budget).step (.ignoreStore i) t =
      some (.done, t.storeAlloc i fun a => { a with ignored := true }) := fun _ => rfl
  obtain ⟨t', hleads, hallocs, hroots, hout⟩ := leads_updateFirst budget t hscan hhit
  exact LsanOp.section_intro ⟨hleads, rfl⟩ (LsanState.eq_of_fields hallocs hroots rfl)
    (hout.trans (List.append_nil _).symm) rfl

theorem registerRootRegion_section (p size : Addr) :
    LsanOp.Section budget t (.registerRootRegion p size) := by
  by_cases hroom : t.rootCount < lsanMaxRoots
  · let counted : LsanTables := { t with rootCount := t.rootCount + 1, rootCount_le := hroom }
    have hcount : (lsanCritical budget).step (.rootTest p size) t =
        some (.rootStores t.rootCount (rootStores p size), counted) := by
      simp [lsanCritical, lsanPointStep, hroom, counted]
    have hstore : ∀ b bs t', (lsanCritical budget).step (.rootStores t.rootCount (b :: bs)) t' =
        some (.rootStores t.rootCount bs, t'.storeRoot t.rootCount b) := fun _ _ _ => rfl
    have hstores := Critical.leads_stores hstore (rootStores p size) counted
    refine LsanOp.section_intro (l := .done) ⟨(Critical.Leads.head hcount hstores).next rfl, rfl⟩ ?_
      (List.append_nil _).symm rfl
    rw [LsanTables.foldl_storeRoot]
    apply LsanState.eq_of_fields
    · simp [LsanOp.onState, lsanRegisterRootRegion, hroom, LsanTables.storeRoot, counted]
    · simp [LsanOp.onState, lsanRegisterRootRegion, hroom, rootStores, LsanTables.storeRoot,
        counted, map_range_succ_update]
    · simp [LsanOp.onState, lsanRegisterRootRegion, hroom]
  · refine LsanOp.section_intro (l := .done) ⟨Critical.Leads.single ?_, rfl⟩ ?_
      (List.append_nil _).symm rfl
    · simp [lsanCritical, LsanOp.enter, lsanPointStep, hroom]
    · simp [LsanOp.onState, lsanRegisterRootRegion, hroom]

/-- `roots[i] = roots[--count]` at the first index found, on the list. -/
theorem removeRoot_map_range {f : Nat → LsanRoot} {n i : Nat} {p : Addr} (hi : i < n)
    (hnone : ∀ j < i, ((f j).addr == p) = false) (hfound : ((f i).addr == p) = true) :
    removeRoot p ((List.range n).map f) =
      (List.range (n - 1)).map (Function.update f i (f (n - 1))) := by
  obtain ⟨k, rfl⟩ : ∃ k, n = k + 1 := ⟨n - 1, by omega⟩
  have hlast : ((List.range (k + 1)).map f).getLast? = some (f k) := by
    rw [List.range_succ, List.map_append]
    simp
  have hany : ((List.range (k + 1)).map f).any (fun r => r.addr == p) = true := by
    rw [List.any_eq_true]
    exact ⟨f i, List.mem_map.mpr ⟨i, List.mem_range.mpr hi, rfl⟩, hfound⟩
  unfold removeRoot
  rw [hlast]
  dsimp only
  rw [if_pos hany, updateFirst_map_range hi hnone hfound, List.range_succ, List.map_append]
  simp

theorem unregisterRootRegion_section (p size : Addr) :
    LsanOp.Section budget t (.unregisterRootRegion p size) := by
  have hscan : ∀ i, (lsanCritical budget).step (.rootScan p i) t =
      some (if i < t.rootCount then if (t.roots i).addr == p then .rootCount i
        else .rootScan p (i + 1) else .done, t) := by
    intro i
    rw [lsanCritical_step, lsanPointStep]
    split_ifs <;> rfl
  rcases Critical.leads_scan hscan with ⟨i, hi, hfound, hnone, hleads⟩ | ⟨hnone, hleads⟩
  · refine LsanOp.section_intro (l := .done) ⟨(hleads.next rfl).next rfl, rfl⟩ ?_
      (List.append_nil _).symm rfl
    apply LsanState.eq_of_fields
    · rfl
    · exact (removeRoot_map_range hi hnone hfound).symm
    · rfl
  · refine LsanOp.section_intro (l := .done) ⟨hleads, rfl⟩ (LsanState.eq_of_fields rfl ?_ rfl)
      (List.append_nil _).symm rfl
    refine (removeRoot_of_not_mem fun r hr => ?_).symm
    obtain ⟨i, hi, rfl⟩ := List.mem_map.mp hr
    simpa using hnone i (List.mem_range.mp hi)

/-! ### Checks -/

variable {budget t}

/-- In the report of a leak that does not come to its end. -/
def LsanPoint.Stuck : LsanPoint → Prop
  | .checkPrint _ _ _ _ left => left.ends = false
  | _ => False

theorem LsanPoint.Stuck.step {l l' : LsanPoint} {t' : LsanTables} (h : l.Stuck)
    (hstep : (lsanCritical budget).step l t = some (l', t')) : l'.Stuck := by
  cases l with
  | checkPrint m i leaksFound reports left =>
      rw [lsanCritical_step, lsanPointStep] at hstep
      split at hstep
      · next hprint =>
          obtain ⟨-, -, -, hends⟩ := printPointStep_cases hprint
          cases hstep
          exact hends.trans h
      · next hprint => exact absurd hprint (printPointStep_ne_none h)
  | _ => exact absurd h id

theorem LsanPoint.Stuck.step_ne_none {l : LsanPoint} (h : l.Stuck) :
    (lsanCritical budget).step l t ≠ none := by
  cases l with
  | checkPrint m i leaksFound reports left =>
      rw [lsanCritical_step, lsanPointStep]
      split <;> simp
  | _ => exact absurd h id

theorem checkPrint_leads (m : Memory) (i leaksFound : Nat) (reports : List LsanAlloc)
    (left : PrintPoint Byte) :
    (lsanCritical budget).Leads (.checkPrint m i leaksFound reports left, t)
      (.checkPrint m i leaksFound reports ⟨[], left.ends⟩,
        { t with out := t.out ++ left.left }) := by
  have hpoint : ∀ l out l' out', printPointStep out l = some (l', out') →
      (lsanCritical budget).step (LsanPoint.checkPrint m i leaksFound reports l)
        { t with out := out } =
          some (.checkPrint m i leaksFound reports l', { t with out := out' }) := by
    intro l out l' out' hprint
    rw [lsanCritical_step]
    simp [lsanPointStep, hprint]
  exact Critical.leads_print hpoint left.left left.ends t.out

/-- A leak on the way through the table is printed. -/
theorem checkScan_step_leak {m : Memory} {i leaksFound : Nat} {reports : List LsanAlloc}
    (hi : i < t.allocCount) (hleaks : lsanLeaks t.state m (t.allocs i) = true) :
    (lsanCritical budget).step (.checkScan m i leaksFound reports) t =
      some (.checkPrint m i (leaksFound + 1) (reports ++ [t.allocs i])
        (lsanPrinted budget (t.allocs i)), t) := by
  simp only [lsanLeaks, Bool.and_eq_true, decide_eq_true_eq, Bool.not_eq_true'] at hleaks
  simp [lsanCritical, lsanPointStep, hi, hleaks]

theorem checkScan_leads_other {m : Memory} {i leaksFound : Nat} {reports : List LsanAlloc}
    (hi : i < t.allocCount) (hleaks : lsanLeaks t.state m (t.allocs i) = false) :
    (lsanCritical budget).Leads (.checkScan m i leaksFound reports, t)
      (.checkScan m (i + 1) leaksFound reports, t) := by
  apply Critical.Leads.single
  rw [lsanCritical_step, lsanPointStep]
  simp only [lsanLeaks, Bool.and_eq_false_iff, decide_eq_false_iff_not,
    Bool.not_eq_false'] at hleaks
  split_ifs <;> simp_all

variable (budget t) in
/-- The loop from one entry on comes to its end, or to a report it cannot leave. -/
theorem checkScan_leads (m : Memory) (k i leaksFound : Nat) (reports : List LsanAlloc)
    (hi : i + k = t.allocCount) :
    let leaks := ((List.range k).map fun j => t.allocs (i + j)).filter (lsanLeaks t.state m)
    (∀ a ∈ leaks, (lsanPrinted budget a).ends = true) ∧
      (lsanCritical budget).Leads (.checkScan m i leaksFound reports, t)
        (.checked (leaksFound + leaks.length) (reports ++ leaks),
          { t with out := t.out ++ leaks.flatMap lsanLeakText }) ∨
    (∃ a ∈ leaks, (lsanPrinted budget a).ends = false) ∧
      ∃ l t', (lsanCritical budget).Leads (.checkScan m i leaksFound reports, t) (l, t') ∧
        l.Stuck := by
  induction k generalizing i leaksFound reports t with
  | zero =>
      refine Or.inl ⟨by simp, Critical.Leads.single ?_⟩
      have hend : ¬ i < t.allocCount := by omega
      simp [lsanCritical, lsanPointStep, hend]
  | succ k ih =>
      have hmore : i < t.allocCount := by omega
      have hleft : (List.range (k + 1)).map (fun j => t.allocs (i + j)) =
          t.allocs i :: (List.range k).map fun j => t.allocs (i + 1 + j) := by
        rw [List.range_succ_eq_map]
        simp [Function.comp_def, Nat.add_assoc, Nat.add_comm 1]
      dsimp only
      rw [hleft, List.filter_cons]
      cases hleaks : lsanLeaks t.state m (t.allocs i) with
      | false =>
          have hstep : (lsanCritical budget).Leads (.checkScan m i leaksFound reports, t)
            (.checkScan m (i + 1) leaksFound reports, t) := checkScan_leads_other hmore hleaks
          rcases ih t (i + 1) leaksFound reports (by omega) with ⟨hends, hleads⟩ |
            ⟨hloops, l, t', hleads, hstuck⟩
          · exact Or.inl ⟨hends, hstep.trans hleads⟩
          · exact Or.inr ⟨hloops, l, t', hstep.trans hleads, hstuck⟩
      | true =>
          rw [if_pos rfl]
          let printed : LsanTables :=
            { t with out := t.out ++ (lsanPrinted budget (t.allocs i)).left }
          have hleak : (lsanCritical budget).Leads (.checkScan m i leaksFound reports, t)
            (.checkPrint m i (leaksFound + 1) (reports ++ [t.allocs i])
              ⟨[], (lsanPrinted budget (t.allocs i)).ends⟩, printed) :=
            Critical.Leads.head (checkScan_step_leak hmore hleaks) (checkPrint_leads _ _ _ _ _)
          cases hends : (lsanPrinted budget (t.allocs i)).ends with
          | false =>
              rw [hends] at hleak
              exact Or.inr ⟨⟨_, List.mem_cons_self .., hends⟩, _, _, hleak, rfl⟩
          | true =>
              rw [hends] at hleak
              have hstep : (lsanCritical budget).Leads (.checkScan m i leaksFound reports, t)
                (.checkScan m (i + 1) (leaksFound + 1) (reports ++ [t.allocs i]), printed) :=
                hleak.next rfl
              have hrest : i + 1 + k = printed.allocCount := by
                change i + 1 + k = t.allocCount
                omega
              rcases ih printed (i + 1) (leaksFound + 1) (reports ++ [t.allocs i]) hrest with
                ⟨hall, hleads⟩ | ⟨⟨a, ha, hloops⟩, l, t', hleads, hstuck⟩
              · refine Or.inl ⟨List.forall_mem_cons.mpr ⟨hends, hall⟩, ?_⟩
                rw [List.length_cons, List.flatMap_cons, ← (lsanPrinted_of_ends hends).2,
                  ← List.append_assoc, Nat.add_comm _ 1, ← Nat.add_assoc, List.append_cons]
                exact hstep.trans hleads
              · exact Or.inr ⟨⟨a, List.mem_cons_of_mem _ ha, hloops⟩, l, t',
                  hstep.trans hleads, hstuck⟩

variable (budget t) in
/-- The section of a call, or a report in it that does not come to its end. -/
theorem section_or_stuck (op : LsanOp) :
    LsanOp.Section budget t op ∨
      (∃ a ∈ t.state.allocs, (lsanPrinted budget a).ends = false) ∧
        ∃ l t', (lsanCritical budget).Leads (op.enter, t) (l, t') ∧ l.Stuck := by
  cases op with
  | registerAlloc addr size stack => exact Or.inl (registerAlloc_section budget t addr size stack)
  | unregisterAlloc addr => exact Or.inl (unregisterAlloc_section budget t addr)
  | registerRootRegion p size => exact Or.inl (registerRootRegion_section budget t p size)
  | unregisterRootRegion p size => exact Or.inl (unregisterRootRegion_section budget t p size)
  | ignoreObject p => exact Or.inl (ignoreObject_section budget t p)
  | check m =>
      have hloop := checkScan_leads budget t m t.allocCount 0 0 [] (Nat.zero_add _)
      simp only [Nat.zero_add, List.nil_append] at hloop
      rcases hloop with ⟨hends, hleads⟩ | ⟨⟨a, ha, hloops⟩, hstuck⟩
      · refine Or.inl (LsanOp.section_intro ⟨hleads, rfl⟩ rfl rfl ?_)
        rw [LsanOp.Returns, lsanCheckLoop_eq, Nat.zero_add, List.nil_append]
        exact ⟨rfl, fun a ha => (lsanPrinted_of_ends (hends a ha)).1⟩
      · exact Or.inr ⟨⟨a, List.mem_of_mem_filter ha, hloops⟩, hstuck⟩

end Sections

/-- **The code under the lock** does what its call does to the lists, and prints what its call
prints. -/
theorem lsanCritical_refines (budget : Nat) :
    (lsanCritical budget).Refines LsanTables.view LsanOp.onView
      fun op v l => op.Returns v.1 l where
  performs op t l t' hperforms := by
    rcases section_or_stuck budget t op with
      ⟨l₁, t₁, hsection, hview, hreturns⟩ | ⟨-, k, t₁, hleads, hstuck⟩
    · obtain ⟨rfl, rfl⟩ := hperforms.unique hsection
      exact ⟨hview, hreturns⟩
    · exact absurd hstuck (hperforms.not_stuck (fun _ _ _ _ h => h.step)
        (fun _ _ h => h.step_ne_none) hleads)

/-! ### Calls that end -/

/-- The reports of all blocks in the table come to their ends. -/
def LsanState.Printable (budget : Nat) (s : LsanState) : Prop :=
  ∀ a ∈ s.allocs, (lsanPrinted budget a).ends = true

/-- The report of the block a call registers comes to its end. -/
def LsanOp.Printable (budget : Nat) : LsanOp → Prop
  | registerAlloc addr size stack =>
      (lsanPrinted budget ⟨addr, size, .active, false, stack⟩).ends = true
  | _ => True

theorem forall_mem_updateFirst {α : Type} {found : α → Bool} {update : α → α} {P : α → Prop}
    {l : List α} (h : ∀ a ∈ l, P a) (hupdate : ∀ a, P a → P (update a)) :
    ∀ a ∈ updateFirst found update l, P a := by
  induction l with
  | nil => simp [updateFirst]
  | cons b l ih =>
      obtain ⟨hb, hl⟩ := List.forall_mem_cons.mp h
      rw [updateFirst]
      split
      · exact List.forall_mem_cons.mpr ⟨hupdate b hb, hl⟩
      · exact List.forall_mem_cons.mpr ⟨hb, ih hl⟩

theorem LsanState.Printable.onState {budget : Nat} {s : LsanState} (h : s.Printable budget)
    {op : LsanOp} (hop : op.Printable budget) : (op.onState s).Printable budget := by
  cases op with
  | registerAlloc addr size stack =>
      simp only [LsanOp.onState, lsanRegisterAlloc]
      split_ifs
      · exact h
      · exact h
      · intro a ha
        rcases List.mem_append.mp ha with ha | ha
        · exact h a ha
        · rw [List.mem_singleton.mp ha]
          exact hop
  | unregisterAlloc addr =>
      simp only [LsanOp.onState, lsanUnregisterAlloc]
      split_ifs
      · exact h
      · exact forall_mem_updateFirst h fun a ha => ha
  | registerRootRegion p size =>
      simp only [LsanOp.onState, lsanRegisterRootRegion]
      split_ifs <;> exact h
  | unregisterRootRegion | check => exact h
  | ignoreObject p => exact forall_mem_updateFirst h fun a ha => ha

/-- A call ends where all blocks can be reported, and leaves them so. -/
theorem lsanCritical_performs {budget : Nat} {op : LsanOp} {t : LsanTables}
    (hop : op.Printable budget) (ht : t.state.Printable budget) :
    ∃ l t', (lsanCritical budget).Performs op t l t' ∧ t'.state.Printable budget := by
  rcases section_or_stuck budget t op with
    ⟨l, t', hperforms, hview, -⟩ | ⟨⟨a, ha, hloops⟩, -⟩
  · refine ⟨l, t', hperforms, ?_⟩
    rw [show t'.state = op.onState t.state from congrArg Prod.fst hview]
    exact ht.onState hop
  · rw [ht a ha] at hloops
    cases hloops

end Misan
