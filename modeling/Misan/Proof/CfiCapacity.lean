import Misan.Foundation.Refinement
import Misan.Proof.BumpBlocks
import Misan.Proof.CfiTable

/-!
# How many pairs the table takes

Requests of one size, one after the other, get the blocks from the bottom of the pool up, and the
first one past its end dies. With its entries from there the table is the one with a list of blocks,
so insertions succeed for as many different pairs as the pool has room for.
-/

namespace Misan

open Function

variable {pool : DrtBumpPool} {size used ptr used' : Addr} {n budget : Nat}

/-! ### Requests of one size -/

def roundUp8 (n : Nat) : Nat := (n + 7) / 8 * 8

theorem bumpEnd_eq (used size : Addr) : bumpEnd used size = roundUp8 used.toNat + size.toNat := rfl

theorem toNat_drtBumpNewv_of_le (hused : used.toNat ≤ drtBumpPoolSize.toNat)
    (hsize : size.toNat ≤ drtBumpPoolSize.toNat) :
    (drtBumpNewv used size).toNat = bumpEnd used size := by
  rw [toNat_drtBumpNewv hused]
  rw [toNat_drtBumpPoolSize] at hused hsize
  rw [bumpEnd]
  exact Nat.mod_eq_of_lt (by omega)

/-- The block starts where the counter is rounded up to, and the next one behind it. -/
theorem drtInternalAlloc_eq_some (hused : used.toNat ≤ drtBumpPoolSize.toNat)
    (hsize : size.toNat ≤ drtBumpPoolSize.toNat)
    (h : drtInternalAlloc pool used size = some (ptr, used')) :
    ptr.toNat = pool.base.toNat + roundUp8 used.toNat ∧ used'.toNat = bumpEnd used size ∧
      bumpEnd used size ≤ drtBumpPoolSize.toNat := by
  have hnewv := toNat_drtBumpNewv_of_le hused hsize
  rw [drtInternalAlloc] at h
  split at h
  · cases h
  · rename_i hsmall
    cases h
    rw [BitVec.not_lt, BitVec.le_def, hnewv] at hsmall
    exact ⟨toNat_block pool hnewv (hnewv.trans_le hsmall), hnewv, hsmall⟩

theorem drtInternalAlloc_eq_none_iff (hused : used.toNat ≤ drtBumpPoolSize.toNat)
    (hsize : size.toNat ≤ drtBumpPoolSize.toNat) :
    drtInternalAlloc pool used size = none ↔ drtBumpPoolSize.toNat < bumpEnd used size := by
  rw [drtInternalAlloc, ← toNat_drtBumpNewv_of_le hused hsize]
  simp [BitVec.lt_def]

/-- The pointers that up to `n` requests of one size get, until one dies. -/
def bumpBlocks (pool : DrtBumpPool) (size : Addr) : Nat → Addr → List Addr
  | 0, _ => []
  | n + 1, used =>
      match drtInternalAlloc pool used size with
      | none => []
      | some (ptr, used') => ptr :: bumpBlocks pool size n used'

theorem le_of_mem_bumpBlocks (hused : used.toNat ≤ drtBumpPoolSize.toNat)
    (hsize : size.toNat ≤ drtBumpPoolSize.toNat) (hmem : ptr ∈ bumpBlocks pool size n used) :
    pool.base.toNat + roundUp8 used.toNat ≤ ptr.toNat := by
  induction n generalizing used with
  | zero => cases hmem
  | succ n ih =>
      rw [bumpBlocks] at hmem
      cases halloc : drtInternalAlloc pool used size with
      | none =>
          rw [halloc] at hmem
          cases hmem
      | some block =>
          obtain ⟨first, used'⟩ := block
          rw [halloc] at hmem
          obtain ⟨hfirst, hused', hfits⟩ := drtInternalAlloc_eq_some hused hsize halloc
          rcases List.mem_cons.mp hmem with rfl | hmem
          · exact hfirst.ge
          · have hlater := ih (hused'.trans_le hfits) hmem
            rw [hused', bumpEnd] at hlater
            unfold roundUp8 at hlater ⊢
            omega

theorem freshBlocks_bumpBlocks (hbase : pool.base ≠ 0) (hused : used.toNat ≤ drtBumpPoolSize.toNat)
    (hsize : size.toNat ≤ drtBumpPoolSize.toNat) :
    FreshBlocks size.toNat (bumpBlocks pool size n used) where
  nonnull hmem := by
    have hle := le_of_mem_bumpBlocks hused hsize hmem
    apply hbase
    apply BitVec.eq_of_toNat_eq
    simp at hle ⊢
    omega
  apart := by
    induction n generalizing used with
    | zero => exact .nil
    | succ n ih =>
        rw [bumpBlocks]
        cases halloc : drtInternalAlloc pool used size with
        | none => exact .nil
        | some block =>
            obtain ⟨ptr, used'⟩ := block
            obtain ⟨hptr, hused', hfits⟩ := drtInternalAlloc_eq_some hused hsize halloc
            have hle := hused'.trans_le hfits
            refine List.pairwise_cons.mpr ⟨fun b hb => Or.inl ?_, ih hle⟩
            have hb := le_of_mem_bumpBlocks hle hsize hb
            rw [hused', bumpEnd_eq] at hb
            unfold roundUp8 at hb hptr
            omega

/-- **What the pool has room for.** -/
theorem length_bumpBlocks (hpos : 0 < size.toNat) (hused : used.toNat ≤ drtBumpPoolSize.toNat)
    (hsize : size.toNat ≤ drtBumpPoolSize.toNat) :
    (bumpBlocks pool size n used).length =
      min n ((drtBumpPoolSize.toNat + roundUp8 size.toNat - bumpEnd used size) /
        roundUp8 size.toNat) := by
  have hround : 0 < roundUp8 size.toNat := by
    unfold roundUp8
    omega
  induction n generalizing used with
  | zero => simp [bumpBlocks]
  | succ n ih =>
      rw [bumpBlocks]
      cases halloc : drtInternalAlloc pool used size with
      | none =>
          have hlarge := (drtInternalAlloc_eq_none_iff hused hsize).mp halloc
          rw [Nat.div_eq_of_lt (by omega), Nat.min_zero]
          rfl
      | some block =>
          obtain ⟨ptr, used'⟩ := block
          obtain ⟨-, hused', hfits⟩ := drtInternalAlloc_eq_some hused hsize halloc
          have hnext : bumpEnd used' size = bumpEnd used size + roundUp8 size.toNat := by
            rw [bumpEnd_eq, hused', bumpEnd_eq]
            unfold roundUp8
            omega
          have hmore : drtBumpPoolSize.toNat + roundUp8 size.toNat - bumpEnd used size =
              drtBumpPoolSize.toNat + roundUp8 size.toNat - bumpEnd used' size +
                min (roundUp8 size.toNat)
                  (drtBumpPoolSize.toNat + roundUp8 size.toNat - bumpEnd used size) := by
            omega
          dsimp only
          rw [List.length_cons, ih (hused'.trans_le hfits), hnext, ← Nat.add_min_add_right]
          congr 1
          rw [← Nat.add_div_right _ hround]
          congr 1
          omega

/-- A call that no other thread interferes with does what the allocator does alone. -/
theorem bumpStep_alone {Thr : Type} [DecidableEq Thr] {s : BumpState Thr} {thr : Thr}
    (houtside : s.phase thr = .outside) :
    (drtInternalAlloc pool s.used size = none ∧
      runFrom (bumpStep pool) s [.load thr, .call thr size] = some (s.enter thr .dying)) ∨
    ∃ ptr used', drtInternalAlloc pool s.used size = some (ptr, used') ∧
      runFrom (bumpStep pool) s [.exchange thr, .load thr, .call thr size] =
        some { s with used := used', blocks := (ptr, size) :: s.blocks } := by
  have hback : update s.phase thr .outside = s.phase := by
    rw [← houtside, update_eq_self]
  by_cases hlarge : drtBumpNewv s.used size > drtBumpPoolSize
  · left
    simp [drtInternalAlloc, runFrom, bumpStep, houtside, BumpState.enter, hlarge]
  · right
    refine ⟨_, _, if_neg hlarge, ?_⟩
    simp [runFrom, bumpStep, houtside, BumpState.enter, hlarge, hback]

/-! ### The table over the pool -/

/-- The table over the pool is the one with the blocks that the pool has left, and with no request
beyond them. -/
structure CfiRuntime.Follows (pool : DrtBumpPool) (r : CfiRuntime) (t : CfiTable) : Prop where
  entries : r.table.entries = t.entries
  cfiHashTable : r.table.cfiHashTable = t.cfiHashTable
  blocks : ∃ n, t.blocks = bumpBlocks pool (BitVec.ofNat 64 cfiEntrySize) n r.used ∧
    t.blocks.length < n

variable {r : CfiRuntime} {t : CfiTable} {calls : List CfiPair} {blocks : List Addr}
  {typeHash : BitVec 64} {vtable : Addr}

namespace CfiRuntime.Follows

theorem lookup (h : r.Follows pool t) :
    cfiLookup budget r.table typeHash vtable = cfiLookup budget t typeHash vtable := by
  rw [cfiLookup, cfiLookup, h.entries, h.cfiHashTable]

theorem insert (h : r.Follows pool t) :
    Option.Rel (CfiRuntime.Follows pool) (cfiInsertIn pool budget r typeHash vtable)
      (cfiInsert budget t typeHash vtable) := by
  rw [cfiInsertIn, cfiInsert, h.lookup]
  cases cfiLookup budget t typeHash vtable with
  | none => exact .none
  | some found =>
      dsimp only
      split
      · exact .some h
      · obtain ⟨n, hblocks, hn⟩ := h.blocks
        obtain ⟨n, rfl⟩ := Nat.exists_eq_succ_of_ne_zero (Nat.ne_zero_of_lt hn)
        rw [bumpBlocks] at hblocks
        cases halloc : drtInternalAlloc pool r.used (BitVec.ofNat 64 cfiEntrySize) with
        | none =>
            rw [halloc] at hblocks
            rw [hblocks]
            exact .none
        | some block =>
            rw [halloc] at hblocks
            rw [hblocks] at hn ⊢
            refine .some ⟨?_, ?_, n, rfl, Nat.lt_of_succ_lt_succ hn⟩
            · simp only [h.entries, h.cfiHashTable]
            · simp only [h.cfiHashTable]

end CfiRuntime.Follows

/-- The blocks of the whole pool. -/
def cfiBlocks (pool : DrtBumpPool) : List Addr :=
  bumpBlocks pool (BitVec.ofNat 64 cfiEntrySize) (drtBumpPoolSize.toNat + 1) 0

theorem length_cfiBlocks (pool : DrtBumpPool) : (cfiBlocks pool).length = 10922 := by
  have hle : (0 : Addr).toNat ≤ drtBumpPoolSize.toNat := Nat.zero_le _
  rw [cfiBlocks, length_bumpBlocks (by decide) hle (by decide)]
  decide

theorem freshBlocks_cfiBlocks (hbase : pool.base ≠ 0) :
    FreshBlocks cfiEntrySize (cfiBlocks pool) := by
  have hused : (0 : Addr).toNat ≤ drtBumpPoolSize.toNat := Nat.zero_le _
  have hsize : (BitVec.ofNat 64 cfiEntrySize).toNat ≤ drtBumpPoolSize.toNat := by decide
  exact freshBlocks_bumpBlocks hbase hused hsize

theorem cfiRunIn_follows (pool : DrtBumpPool) (budget : Nat) (calls : List CfiPair) :
    Option.Rel (CfiRuntime.Follows pool) (cfiRunIn pool budget calls)
      (cfiRun budget (cfiBlocks pool) calls) := by
  induction calls with
  | nil =>
      refine .some ⟨rfl, rfl, _, rfl, ?_⟩
      exact (length_cfiBlocks pool).trans_lt (by decide)
  | cons pair before ih => exact rel_bind ih fun _ _ h => h.insert

/-! ### Its capacity -/

theorem card_le_of_cfiRun (hfresh : FreshBlocks cfiEntrySize blocks)
    (hbudget : calls.length < budget) (h : cfiRun budget blocks calls = some t) :
    calls.toFinset.card ≤ blocks.length := by
  induction calls generalizing t with
  | nil => exact Nat.zero_le _
  | cons pair before ih =>
      obtain ⟨t₀, ht₀, hinsert⟩ := Option.bind_eq_some_iff.mp h
      have hbefore := Nat.lt_of_succ_lt hbudget
      have hle := ih hbefore ht₀
      obtain ⟨t₁, chain, hrun, hholds⟩ := exists_cfiRun hfresh hle
      cases ht₀.symm.trans (hrun budget hbefore)
      rw [List.toFinset_cons]
      by_cases hmem : pair ∈ before
      · rw [Finset.insert_eq_of_mem (List.mem_toFinset.mpr hmem)]
        exact hle
      · rw [Finset.card_insert_of_notMem (mt List.mem_toFinset.mp hmem)]
        by_contra hfull
        have hleft := hholds.left
        have hempty : t₀.blocks = [] := List.eq_nil_of_length_eq_zero (by omega)
        have hlookup : cfiLookup budget t₀ pair.1 pair.2 = some (cfiFound t₀ chain pair.1 pair.2) :=
          hholds.chains.lookup (lt_of_le_of_lt (hholds.short _) hbefore)
        rw [cfiInsert, hlookup] at hinsert
        dsimp only at hinsert
        rw [if_neg (mt hholds.chains.cfiFound_ne_zero_iff.mp hmem), hempty] at hinsert
        cases hinsert

/-- **The capacity of the table**: with its entries from the pool, the table takes exactly the calls
with at most 10922 different pairs, and the lookups find what was inserted. One pair more, and the
insertion dies. -/
theorem cfiRunIn_capacity (hbase : pool.base ≠ 0) (hbudget : calls.length < budget) :
    ((∃ r, cfiRunIn pool budget calls = some r) ↔ calls.toFinset.card ≤ 10922) ∧
      ∀ r, cfiRunIn pool budget calls = some r → ∀ typeHash vtable, ∃ e,
        cfiLookup budget r.table typeHash vtable = some e ∧
          (e ≠ 0 ↔ (typeHash, vtable) ∈ calls) := by
  have hfresh := freshBlocks_cfiBlocks hbase
  have hlength := length_cfiBlocks pool
  have hfollows := cfiRunIn_follows pool budget calls
  refine ⟨⟨?_, fun hcard => ?_⟩, fun r hr typeHash vtable => ?_⟩
  · rintro ⟨r, hr⟩
    rw [hr] at hfollows
    obtain ⟨t, ht, -⟩ := exists_of_rel hfollows
    exact (card_le_of_cfiRun hfresh hbudget ht).trans_eq hlength
  · obtain ⟨t, chain, hrun, -⟩ := exists_cfiRun hfresh (hcard.trans_eq hlength.symm)
    rw [hrun budget hbudget] at hfollows
    obtain ⟨r, hr, -⟩ := exists_of_rel_right hfollows
    exact ⟨r, hr⟩
  · rw [hr] at hfollows
    obtain ⟨t, ht, hrt⟩ := exists_of_rel hfollows
    have hroom := card_le_of_cfiRun hfresh hbudget ht
    obtain ⟨t', chain, hrun, hholds⟩ := exists_cfiRun hfresh hroom
    cases ht.symm.trans (hrun budget hbudget)
    refine ⟨_, ?_, hholds.chains.cfiFound_ne_zero_iff⟩
    rw [hrt.lookup]
    exact hholds.chains.lookup (lt_of_le_of_lt (hholds.short _) hbudget)

/-- Three calls with two different pairs. -/
theorem cfiRunIn_capacity_twice :
    ∃ r, cfiRunIn ⟨4096, by decide, by decide⟩ 4 [(2, 3), (3, 2), (2, 3)] = some r := by
  have hbase : (⟨4096, by decide, by decide⟩ : DrtBumpPool).base ≠ 0 := by decide
  have hbudget : ([(2, 3), (3, 2), (2, 3)] : List CfiPair).length < 4 := by decide
  exact (cfiRunIn_capacity hbase hbudget).1.mpr (by decide)

end Misan
