import Misan.Cfi
import Misan.Proof.Reports

/-!
# The table of inserted pairs

Each bucket's chain is a list of its own, with one entry for every pair inserted into that bucket,
so a lookup finds an entry exactly for the pairs inserted. What the slow path makes of it depends on
the printer: the report of a pair that was not inserted has to end before `__cfi_fail` is reached.
-/

namespace Misan

open Function

/-- Blocks for objects of the given size, none of them at the null pointer. -/
structure FreshBlocks (size : Nat) (blocks : List Addr) : Prop where
  nonnull : 0 ∉ blocks
  apart : blocks.Pairwise fun b c => b.toNat + size ≤ c.toNat ∨ c.toNat + size ≤ b.toNat

def CfiEntry.pair (e : CfiEntry) : CfiPair := (e.typeHash, e.vtable)

def CfiTable.pairAt (t : CfiTable) (e : Addr) : Option CfiPair := (t.entries e).map CfiEntry.pair

/-- The bucket of a pair. -/
def bucketOf (pair : CfiPair) : Fin cfiHashTableSize := cfiBucket pair.1 pair.2

/-- The table holds the pairs, each in one entry of its own bucket's chain. -/
structure CfiChains (t : CfiTable) (chain : Fin cfiHashTableSize → List Addr)
    (pairs : List CfiPair) : Prop where
  linked : ∀ idx, Linked t.entries CfiEntry.next 0 (t.cfiHashTable idx) (chain idx)
  own : ∀ idx, ∀ e ∈ chain idx, ∃ pair ∈ pairs, t.pairAt e = some pair ∧ bucketOf pair = idx
  once : ∀ pair ∈ pairs, ∃! e, e ∈ chain (bucketOf pair) ∧ t.pairAt e = some pair

variable {t t' : CfiTable} {chain : Fin cfiHashTableSize → List Addr} {blocks : List Addr}
  {calls pairs : List CfiPair} {pair : CfiPair} {typeHash : BitVec 64} {vtable e : Addr}

/-! ### Allocation -/

theorem FreshBlocks.tail {size : Nat} (h : FreshBlocks size (e :: blocks)) :
    FreshBlocks size blocks where
  nonnull hmem := h.nonnull (List.mem_cons_of_mem e hmem)
  apart := (List.pairwise_cons.mp h.apart).2

theorem FreshBlocks.not_mem {size : Nat} (hsize : 0 < size)
    (h : FreshBlocks size (e :: blocks)) : e ∉ blocks := by
  intro hmem
  have hapart := (List.pairwise_cons.mp h.apart).1 e hmem
  omega

/-! ### Lookups -/

/-- What a lookup finds in the chain of its bucket. -/
def cfiFound (t : CfiTable) (chain : Fin cfiHashTableSize → List Addr) (typeHash : BitVec 64)
    (vtable : Addr) : Addr :=
  ((chain (cfiBucket typeHash vtable)).find? fun e => (t.entries e).any fun entry =>
    decide (entry.typeHash = typeHash) && decide (entry.vtable = vtable)).getD 0

namespace CfiChains

theorem nodup (h : CfiChains t chain pairs) (idx : Fin cfiHashTableSize) : (chain idx).Nodup :=
  (h.linked idx).nodup

theorem disjoint (h : CfiChains t chain pairs) {idx idx' : Fin cfiHashTableSize}
    (hne : idx ≠ idx') : (chain idx).Disjoint (chain idx') := by
  intro e he he'
  obtain ⟨pair, -, hpair, rfl⟩ := h.own idx e he
  obtain ⟨pair', -, hpair', rfl⟩ := h.own idx' e he'
  rw [Option.some.inj (hpair.symm.trans hpair')] at hne
  exact hne rfl

theorem lookup (h : CfiChains t chain pairs) {budget : Nat}
    (hbudget : (chain (cfiBucket typeHash vtable)).length < budget) :
    cfiLookup budget t typeHash vtable = some (cfiFound t chain typeHash vtable) :=
  (h.linked _).search hbudget

theorem lookup_sound (h : CfiChains t chain pairs) {budget : Nat}
    (hfound : cfiLookup budget t typeHash vtable = some e) :
    e = cfiFound t chain typeHash vtable :=
  (h.linked _).search_sound hfound

theorem pairAt_eq_some_iff :
    t.pairAt e = some (typeHash, vtable) ↔ ∃ entry, t.entries e = some entry ∧
      (decide (entry.typeHash = typeHash) && decide (entry.vtable = vtable)) = true := by
  simp only [CfiTable.pairAt, Option.map_eq_some_iff, CfiEntry.pair, Prod.mk.injEq,
    Bool.and_eq_true, decide_eq_true_eq]

/-- **A lookup** finds an entry exactly for the pairs the table holds. -/
theorem cfiFound_ne_zero_iff (h : CfiChains t chain pairs) :
    cfiFound t chain typeHash vtable ≠ 0 ↔ (typeHash, vtable) ∈ pairs := by
  calc cfiFound t chain typeHash vtable ≠ 0
      ↔ ∃ e ∈ chain (cfiBucket typeHash vtable), t.pairAt e = some (typeHash, vtable) := by
        simp only [pairAt_eq_some_iff]
        exact (h.linked _).search_ne_null_iff
    _ ↔ (typeHash, vtable) ∈ pairs := by
        constructor
        · rintro ⟨e, he, hpair⟩
          obtain ⟨pair, hmem, hpair', -⟩ := h.own _ e he
          rw [Option.some.inj (hpair.symm.trans hpair')]
          exact hmem
        · intro hmem
          obtain ⟨e, ⟨he, hpair⟩, -⟩ := h.once _ hmem
          exact ⟨e, he, hpair⟩

end CfiChains

/-! ### Insertion -/

/-- The entry `e` for the pair, in front of its bucket's chain. -/
def CfiTable.enter (t : CfiTable) (pair : CfiPair) (e : Addr) (blocks : List Addr) : CfiTable where
  entries := update t.entries e (some ⟨pair.1, pair.2, t.cfiHashTable (bucketOf pair)⟩)
  cfiHashTable := update t.cfiHashTable (bucketOf pair) e
  blocks := blocks

theorem CfiTable.entries_enter : (t.enter pair e blocks).entries =
    update t.entries e (some ⟨pair.1, pair.2, t.cfiHashTable (bucketOf pair)⟩) := rfl

theorem CfiTable.cfiHashTable_enter : (t.enter pair e blocks).cfiHashTable =
    update t.cfiHashTable (bucketOf pair) e := rfl

theorem CfiTable.pairAt_enter_self : (t.enter pair e blocks).pairAt e = some pair := by
  rw [pairAt, entries_enter, update_self]
  rfl

theorem CfiTable.pairAt_enter_of_ne {e' : Addr} (hne : e' ≠ e) :
    (t.enter pair e blocks).pairAt e' = t.pairAt e' := by
  rw [pairAt, entries_enter, update_of_ne hne, pairAt]

theorem CfiChains.not_mem (h : CfiChains t chain pairs) (hfree : t.entries e = none)
    (idx : Fin cfiHashTableSize) : e ∉ chain idx := by
  intro he
  obtain ⟨pair, -, hpair, -⟩ := h.own idx e he
  rw [CfiTable.pairAt, hfree] at hpair
  cases hpair

theorem mem_update_cons_iff {idx bucket : Fin cfiHashTableSize} {e' : Addr} (hne : e' ≠ e) :
    e' ∈ update chain bucket (e :: chain bucket) idx ↔ e' ∈ chain idx := by
  by_cases hidx : idx = bucket
  · subst hidx
    rw [update_self, List.mem_cons, or_iff_right hne]
  · rw [update_of_ne hidx]

/-- **Insertion** at the head of the bucket's chain. -/
theorem CfiChains.enter (h : CfiChains t chain pairs) (hnew : pair ∉ pairs) (hne : e ≠ 0)
    (hfree : t.entries e = none) :
    CfiChains (t.enter pair e blocks)
      (update chain (bucketOf pair) (e :: chain (bucketOf pair))) (pair :: pairs) := by
  have hother : ∀ {idx e'}, e' ∈ chain idx → e' ≠ e := by
    rintro idx e' he' rfl
    exact h.not_mem hfree idx he'
  have hself : e ∈ update chain (bucketOf pair) (e :: chain (bucketOf pair)) (bucketOf pair) := by
    rw [update_self]
    exact List.mem_cons_self
  have hof : ∀ {e' pair'}, (t.enter pair e blocks).pairAt e' = some pair' → pair' ≠ pair →
      e' ≠ e := by
    rintro e' pair' hpair' hne' rfl
    rw [CfiTable.pairAt_enter_self] at hpair'
    exact hne' (Option.some.inj hpair').symm
  refine ⟨fun idx => ?_, fun idx e' he' => ?_, fun pair' hpair' => ?_⟩
  · by_cases hidx : idx = bucketOf pair
    · subst hidx
      rw [update_self, CfiTable.cfiHashTable_enter, update_self, CfiTable.entries_enter]
      exact (h.linked _).push hne (h.not_mem hfree _)
    · rw [update_of_ne hidx, CfiTable.cfiHashTable_enter, update_of_ne hidx]
      exact (h.linked idx).frame fun e' he' => update_of_ne (hother he') ..
  · by_cases heq : e' = e
    · subst heq
      refine ⟨pair, List.mem_cons_self, CfiTable.pairAt_enter_self, ?_⟩
      by_contra hidx
      rw [update_of_ne (Ne.symm hidx)] at he'
      exact h.not_mem hfree idx he'
    · obtain ⟨pair', hmem, hpair', hidx⟩ := h.own idx e' ((mem_update_cons_iff heq).mp he')
      rw [CfiTable.pairAt_enter_of_ne heq]
      exact ⟨pair', List.mem_cons_of_mem _ hmem, hpair', hidx⟩
  · by_cases heq : pair' = pair
    · subst heq
      refine ⟨e, ⟨hself, CfiTable.pairAt_enter_self⟩, ?_⟩
      rintro e' ⟨he', hpair'⟩
      by_contra hne'
      rw [CfiTable.pairAt_enter_of_ne hne'] at hpair'
      obtain ⟨pair', hmem, hsame, -⟩ := h.own _ e' ((mem_update_cons_iff hne').mp he')
      rw [Option.some.inj (hpair'.symm.trans hsame)] at hnew
      exact hnew hmem
    · have hmem := (List.mem_cons.mp hpair').resolve_left heq
      obtain ⟨e₀, ⟨he₀, hpair₀⟩, hunique⟩ := h.once pair' hmem
      have hne₀ := hother he₀
      refine ⟨e₀, ⟨(mem_update_cons_iff hne₀).mpr he₀, ?_⟩, ?_⟩
      · rw [CfiTable.pairAt_enter_of_ne hne₀, hpair₀]
      · rintro e' ⟨he', hsame⟩
        have hne' := hof hsame heq
        rw [CfiTable.pairAt_enter_of_ne hne'] at hsame
        exact hunique e' ⟨(mem_update_cons_iff hne').mp he', hsame⟩

theorem CfiChains.again (h : CfiChains t chain pairs) (hmem : pair ∈ pairs) :
    CfiChains t chain (pair :: pairs) := by
  refine ⟨h.linked, fun idx e he => ?_, fun pair' hpair' => ?_⟩
  · obtain ⟨pair', hpair', hrest⟩ := h.own idx e he
    exact ⟨pair', List.mem_cons_of_mem _ hpair', hrest⟩
  · rcases List.mem_cons.mp hpair' with rfl | hpair'
    · exact h.once _ hmem
    · exact h.once _ hpair'

/-! ### Any sequence of insertions -/

/-- The table after the calls, with what is left of the blocks there were. -/
structure CfiHolds (t : CfiTable) (chain : Fin cfiHashTableSize → List Addr)
    (blocks : List Addr) (calls : List CfiPair) : Prop where
  chains : CfiChains t chain calls
  short : ∀ idx, (chain idx).length ≤ calls.length
  fresh : FreshBlocks cfiEntrySize t.blocks
  free : ∀ e ∈ t.blocks, t.entries e = none
  left : t.blocks.length + calls.toFinset.card = blocks.length

theorem CfiHolds.empty (hfresh : FreshBlocks cfiEntrySize blocks) :
    CfiHolds (.empty blocks) (fun _ => []) blocks [] where
  chains := ⟨fun _ => .nil, fun _ _ he => (List.not_mem_nil he).elim,
    fun _ hpair => (List.not_mem_nil hpair).elim⟩
  short _ := Nat.le_refl _
  fresh := hfresh
  free _ _ := rfl
  left := rfl

theorem CfiHolds.again (h : CfiHolds t chain blocks calls) (hmem : pair ∈ calls) :
    CfiHolds t chain blocks (pair :: calls) where
  chains := h.chains.again hmem
  short idx := Nat.le_succ_of_le (h.short idx)
  fresh := h.fresh
  free := h.free
  left := by
    rw [List.toFinset_cons, Finset.insert_eq_of_mem (List.mem_toFinset.mpr hmem)]
    exact h.left

theorem CfiHolds.enter {rest : List Addr} (h : CfiHolds t chain blocks calls)
    (hnew : pair ∉ calls) (hblocks : t.blocks = e :: rest) :
    CfiHolds (t.enter pair e rest) (update chain (bucketOf pair) (e :: chain (bucketOf pair)))
      blocks (pair :: calls) := by
  have hfresh := h.fresh
  have hleft := h.left
  rw [hblocks] at hfresh hleft
  have hmem : e ∈ t.blocks := by
    rw [hblocks]
    exact List.mem_cons_self
  have hne : e ≠ 0 := by
    rintro rfl
    exact hfresh.nonnull List.mem_cons_self
  refine ⟨h.chains.enter hnew hne (h.free e hmem), fun idx => ?_, hfresh.tail, fun e' he' => ?_, ?_⟩
  · by_cases hidx : idx = bucketOf pair
    · subst hidx
      rw [update_self]
      exact Nat.succ_le_succ (h.short _)
    · rw [update_of_ne hidx]
      exact Nat.le_succ_of_le (h.short idx)
  · have hne' : e' ≠ e := by
      rintro rfl
      exact hfresh.not_mem (by decide) he'
    rw [CfiTable.entries_enter, update_of_ne hne']
    apply h.free
    rw [hblocks]
    exact List.mem_cons_of_mem e he'
  · rw [List.toFinset_cons, Finset.card_insert_of_notMem (mt List.mem_toFinset.mp hnew)]
    rw [List.length_cons] at hleft
    change rest.length + _ = _
    omega

theorem CfiHolds.insert (h : CfiHolds t chain blocks calls)
    (hroom : (pair :: calls).toFinset.card ≤ blocks.length) :
    ∃ t' chain', (∀ budget, calls.length < budget →
      cfiInsert budget t pair.1 pair.2 = some t') ∧ CfiHolds t' chain' blocks (pair :: calls) := by
  have hlookup : ∀ budget, calls.length < budget →
      cfiLookup budget t pair.1 pair.2 = some (cfiFound t chain pair.1 pair.2) :=
    fun budget hbudget => h.chains.lookup (lt_of_le_of_lt (h.short _) hbudget)
  by_cases hmem : pair ∈ calls
  · refine ⟨t, chain, fun budget hbudget => ?_, h.again hmem⟩
    rw [cfiInsert, hlookup budget hbudget]
    exact if_pos (h.chains.cfiFound_ne_zero_iff.mpr hmem)
  · have hleft := h.left
    rw [List.toFinset_cons, Finset.card_insert_of_notMem (mt List.mem_toFinset.mp hmem)] at hroom
    cases hblocks : t.blocks with
    | nil =>
        rw [hblocks, List.length_nil] at hleft
        omega
    | cons e rest =>
        refine ⟨_, _, fun budget hbudget => ?_, h.enter hmem hblocks⟩
        have hnone := mt h.chains.cfiFound_ne_zero_iff.mp hmem
        rw [cfiInsert, hlookup budget hbudget]
        dsimp only
        rw [if_neg hnone, hblocks]
        rfl

theorem exists_cfiRun (hfresh : FreshBlocks cfiEntrySize blocks)
    (hroom : calls.toFinset.card ≤ blocks.length) :
    ∃ t chain, (∀ budget, calls.length < budget → cfiRun budget blocks calls = some t) ∧
      CfiHolds t chain blocks calls := by
  induction calls with
  | nil => exact ⟨_, _, fun _ _ => rfl, .empty hfresh⟩
  | cons pair before ih =>
      have hle : before.toFinset.card ≤ (pair :: before).toFinset.card := by
        apply Finset.card_le_card
        rw [List.toFinset_cons]
        exact Finset.subset_insert ..
      obtain ⟨t, chain, hrun, hholds⟩ := ih (hle.trans hroom)
      obtain ⟨t', chain', hinsert, hholds'⟩ := hholds.insert hroom
      refine ⟨t', chain', fun budget hbudget => ?_, hholds'⟩
      rw [cfiRun, hrun budget (Nat.lt_of_succ_lt hbudget)]
      exact hinsert budget (Nat.lt_of_succ_lt hbudget)

/-! ### The slow path -/

def hashPiece (v : BitVec 64) : Piece :=
  .directive ⟨true, [1, 6], .ll, .x v, fun _ => rfl⟩

theorem hashPiece_fits_iff (v : BitVec 64) : (hashPiece v).Fits ↔ SixteenDigits v := by
  have hwidth : widthFrom 0 [1, 6] ≤ intMax := by decide
  have hsixteen : ((widthFrom 0 [1, 6] : Int) ≤ (numeral 16 v.toNat).length) ↔
      16 ≤ (numeral 16 v.toNat).length := Int.ofNat_le
  rw [sixteenDigits_iff, ← hsixteen]
  exact and_iff_right hwidth

section SlowPath

variable {m : Memory} {trace : DrtStackTrace} {callSiteType : BitVec 64} {addr : Addr}

/-- Every number in the report of a mismatch has as many digits as it is given. -/
structure CfiReportFits (m : Memory) (trace : DrtStackTrace) (callSiteType : BitVec 64)
    (addr : Addr) : Prop where
  typeDigits : SixteenDigits callSiteType
  addrDigits : SixteenDigits addr
  vtableDigits : SixteenDigits (m.load64 addr)
  stackDigits : ∀ pc ∈ trace.pcs, SixteenDigits pc

/-- `__cfi_slowpath` returns, or aborts in `__cfi_fail`. -/
def CfiSlowpathEnds (t : CfiTable) (m : Memory) (trace : DrtStackTrace)
    (callSiteType : BitVec 64) (addr : Addr) (st : PrintState) (exit : DrtExit) : Prop :=
  ∃ k st', cfiSlowpath k t m trace callSiteType addr st = .ok exit st'

/-- What `__cfi_slowpath` does behind a lookup that found nothing. -/
def cfiMismatch (budget : Nat) (m : Memory) (trace : DrtStackTrace) (callSiteType : BitVec 64)
    (addr : Addr) : Print DrtExit := do
  drtPrintf budget (bytesOf "\n==CFI ERROR: type mismatch==\n") []
  drtPrintf budget (bytesOf "  Call site type hash: 0x%016llx\n") [.longLong callSiteType]
  drtPrintf budget (bytesOf "  Target address:      %p\n") [.ptr addr]
  drtPrintf budget (bytesOf "  Vtable:              %p\n") [.ptr (m.load64 addr)]
  drtPrintStackTrace budget trace
  cfiFail budget

theorem cfiMismatch_ends (m : Memory) (trace : DrtStackTrace) (callSiteType : BitVec 64)
    (addr : Addr) :
    EndsIff (fun k => cfiMismatch k m trace callSiteType addr)
      (CfiReportFits m trace callSiteType addr) DrtExit.aborted := by
  have htitle : EndsIff (fun k => drtPrintf k (bytesOf "\n==CFI ERROR: type mismatch==\n") [])
      True () := (drtPrintf_text_prints rfl).endsIff
  have htype : EndsIff (fun k => drtPrintf k (bytesOf "  Call site type hash: 0x%016llx\n")
      [.longLong callSiteType]) (SixteenDigits callSiteType) () :=
    (drtPrintf_line_ends (bytesOf "  Call site type hash: 0x") (hashPiece callSiteType)
      (bytesOf "\n") rfl rfl).congr_iff (hashPiece_fits_iff callSiteType)
  have haddr : EndsIff (fun k => drtPrintf k (bytesOf "  Target address:      %p\n") [.ptr addr])
      (SixteenDigits addr) () :=
    (drtPrintf_line_ends (bytesOf "  Target address:      ") (plainPiece (m := .none) (.p addr))
      (bytesOf "\n") rfl rfl).congr_iff (plainPiece_fits_p addr)
  have hvtable : EndsIff (fun k => drtPrintf k (bytesOf "  Vtable:              %p\n")
      [.ptr (m.load64 addr)]) (SixteenDigits (m.load64 addr)) () :=
    (drtPrintf_line_ends (bytesOf "  Vtable:              ")
      (plainPiece (m := .none) (.p (m.load64 addr))) (bytesOf "\n") rfl rfl).congr_iff
        (plainPiece_fits_p _)
  have hstack : EndsIff (fun k => drtPrintStackTrace k trace)
      (∀ pc ∈ trace.pcs, SixteenDigits pc) () := (drtPrintStackTrace_prints trace).endsIff
  have hfail : EndsIff cfiFail True DrtExit.aborted := drtDie_text_ends rfl
  have hall := htitle.seq (htype.seq (haddr.seq (hvtable.seq (hstack.seq hfail))))
  apply hall.congr_iff
  constructor
  · rintro ⟨-, htype, haddr, hvtable, hstack, -⟩
    exact ⟨htype, haddr, hvtable, hstack⟩
  · intro hfits
    exact ⟨trivial, hfits.typeDigits, hfits.addrDigits, hfits.vtableDigits, hfits.stackDigits,
      trivial⟩

theorem cfiSlowpath_of_found {k : Nat} {st : PrintState}
    (hlookup : cfiLookup k t callSiteType (m.load64 addr) = some e) (hne : e ≠ 0) :
    cfiSlowpath k t m trace callSiteType addr st = .ok .returned st := by
  rw [cfiSlowpath, hlookup]
  dsimp only
  rw [if_neg hne]
  rfl

theorem cfiSlowpath_of_missing {k : Nat}
    (hlookup : cfiLookup k t callSiteType (m.load64 addr) = some 0) :
    cfiSlowpath k t m trace callSiteType addr = cfiMismatch k m trace callSiteType addr := by
  rw [cfiSlowpath, hlookup]
  rfl

theorem CfiHolds.slowpath_of_mem (h : CfiHolds t chain blocks calls)
    (hmem : (callSiteType, m.load64 addr) ∈ calls) (trace : DrtStackTrace) (st : PrintState) :
    CfiSlowpathEnds t m trace callSiteType addr st .returned := by
  have hbudget := Nat.lt_succ_of_le (h.short (cfiBucket callSiteType (m.load64 addr)))
  have hlookup := h.chains.lookup hbudget
  exact ⟨_, st, cfiSlowpath_of_found hlookup (h.chains.cfiFound_ne_zero_iff.mpr hmem)⟩

/-- For any other pair it can only abort, and does so if the report is printed to its end. -/
theorem CfiHolds.slowpath_of_not_mem (h : CfiHolds t chain blocks calls)
    (hmem : (callSiteType, m.load64 addr) ∉ calls) (trace : DrtStackTrace) (st : PrintState)
    (exit : DrtExit) :
    CfiSlowpathEnds t m trace callSiteType addr st exit ↔
      CfiReportFits m trace callSiteType addr ∧ exit = .aborted := by
  have hzero : cfiFound t chain callSiteType (m.load64 addr) = 0 :=
    not_not.mp (mt h.chains.cfiFound_ne_zero_iff.mp hmem)
  obtain ⟨t', hreport⟩ := cfiMismatch_ends m trace callSiteType addr st
  constructor
  · rintro ⟨k, st', hrun⟩
    cases hlookup : cfiLookup k t callSiteType (m.load64 addr) with
    | none =>
        rw [cfiSlowpath, hlookup] at hrun
        cases hrun
    | some e =>
        rw [h.chains.lookup_sound hlookup, hzero] at hlookup
        rw [cfiSlowpath_of_missing hlookup] at hrun
        obtain ⟨hfits, hexit, -⟩ := hreport.sound k exit st' hrun
        exact ⟨hfits, hexit⟩
  · rintro ⟨hfits, rfl⟩
    obtain ⟨N, hN⟩ := hreport.total hfits
    have hbudget : (chain (cfiBucket callSiteType (m.load64 addr))).length <
        max N (calls.length + 1) :=
      lt_of_le_of_lt (h.short _) (lt_of_lt_of_le (Nat.lt_succ_self _) (le_max_right ..))
    have hlookup := h.chains.lookup hbudget
    rw [hzero] at hlookup
    refine ⟨max N (calls.length + 1), t', ?_⟩
    rw [cfiSlowpath_of_missing hlookup]
    exact hN _ (le_max_left ..)

/-- The slow path returns exactly for the inserted pairs, and fails for the others. -/
structure CfiSlowpathOk (t : CfiTable) (calls : List CfiPair) (m : Memory)
    (trace : DrtStackTrace) (callSiteType : BitVec 64) (addr : Addr) (st : PrintState) :
    Prop where
  returns : CfiSlowpathEnds t m trace callSiteType addr st .returned ↔
    (callSiteType, m.load64 addr) ∈ calls
  fails : (callSiteType, m.load64 addr) ∉ calls →
    CfiSlowpathEnds t m trace callSiteType addr st .aborted

theorem CfiHolds.slowpathOk_iff (h : CfiHolds t chain blocks calls) (m : Memory)
    (trace : DrtStackTrace) (callSiteType : BitVec 64) (addr : Addr) (st : PrintState) :
    CfiSlowpathOk t calls m trace callSiteType addr st ↔
      (callSiteType, m.load64 addr) ∈ calls ∨ CfiReportFits m trace callSiteType addr := by
  by_cases hmem : (callSiteType, m.load64 addr) ∈ calls
  · have hreturns := h.slowpath_of_mem hmem trace st
    exact iff_of_true ⟨iff_of_true hreturns hmem, fun hnot => absurd hmem hnot⟩ (Or.inl hmem)
  · have hends := h.slowpath_of_not_mem hmem trace st
    rw [or_iff_right hmem]
    constructor
    · intro hok
      exact ((hends .aborted).mp (hok.fails hmem)).1
    · intro hfits
      refine ⟨iff_of_false (fun hreturns => ?_) hmem, fun _ => (hends .aborted).mpr ⟨hfits, rfl⟩⟩
      exact DrtExit.noConfusion ((hends .returned).mp hreturns).2

end SlowPath

/-- **The table of inserted pairs.** As long as there are blocks for the different pairs, every
lookup ends, and finds an entry exactly for the pairs inserted; each has one entry, in the chain of
its own bucket; no chain has a cycle, and no two share an entry. The slow path does what it should
exactly for the pairs inserted and for those whose report is printed to its end. -/
theorem cfi_table_iff (hfresh : FreshBlocks cfiEntrySize blocks)
    (hroom : calls.toFinset.card ≤ blocks.length) :
    ∃ t, (∀ budget, calls.length < budget → cfiRun budget blocks calls = some t) ∧
      (∀ typeHash vtable, ∃ e, (∀ budget, calls.length < budget →
        cfiLookup budget t typeHash vtable = some e) ∧ (e ≠ 0 ↔ (typeHash, vtable) ∈ calls)) ∧
      (∃ chain, CfiChains t chain calls ∧ (∀ idx, (chain idx).Nodup) ∧
        Pairwise fun idx idx' => (chain idx).Disjoint (chain idx')) ∧
      ∀ m trace callSiteType addr st, CfiSlowpathOk t calls m trace callSiteType addr st ↔
        (callSiteType, m.load64 addr) ∈ calls ∨ CfiReportFits m trace callSiteType addr := by
  obtain ⟨t, chain, hrun, hholds⟩ := exists_cfiRun hfresh hroom
  refine ⟨t, hrun, fun typeHash vtable => ?_, ?_, hholds.slowpathOk_iff⟩
  · refine ⟨cfiFound t chain typeHash vtable, fun budget hbudget => ?_,
      hholds.chains.cfiFound_ne_zero_iff⟩
    exact hholds.chains.lookup (lt_of_le_of_lt (hholds.short _) hbudget)
  · exact ⟨chain, hholds.chains, hholds.chains.nodup, fun _ _ hne => hholds.chains.disjoint hne⟩

/-- Two pairs whose xor is the same, so that they share a bucket. -/
theorem cfi_table_collision :
    ∃ t, ∀ budget, 2 < budget → cfiRun budget [0x1000, 0x1018] [(2, 3), (3, 2)] = some t := by
  have hfresh : FreshBlocks cfiEntrySize [0x1000, 0x1018] := ⟨by decide, by decide⟩
  have hroom : ([(2, 3), (3, 2)] : List CfiPair).toFinset.card ≤ [0x1000, 0x1018].length := by
    decide
  obtain ⟨t, hrun, -⟩ := cfi_table_iff hfresh hroom
  exact ⟨t, hrun⟩

/-- Nothing was inserted, and the address has too few digits for the report. -/
theorem not_cfi_slowpath :
    ¬ ∀ (blocks : List Addr) (calls : List CfiPair) (t : CfiTable) (m : Memory)
      (trace : DrtStackTrace) (callSiteType : BitVec 64) (addr : Addr) (st : PrintState),
      FreshBlocks cfiEntrySize blocks →
      (∀ budget, calls.length < budget → cfiRun budget blocks calls = some t) →
      CfiSlowpathOk t calls m trace callSiteType addr st := by
  intro hall
  have hfresh : FreshBlocks cfiEntrySize [] := ⟨List.not_mem_nil, .nil⟩
  have hok := hall [] [] (.empty []) (fun _ => 0) ⟨[], Nat.zero_le _⟩ (BitVec.intMin 64) 0x1000
    ⟨[], []⟩ hfresh fun _ _ => rfl
  rcases ((CfiHolds.empty hfresh).slowpathOk_iff ..).mp hok with hmem | hfits
  · cases hmem
  · have haddr := hfits.addrDigits
    revert haddr
    rw [SixteenDigits]
    decide

end Misan
