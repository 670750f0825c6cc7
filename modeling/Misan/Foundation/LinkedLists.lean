import Mathlib.Data.List.Nodup
import Mathlib.Logic.Function.Basic

/-!
# Linked lists in a heap

Cells behind pointers, each with the pointer to the next cell, up to the null pointer. The list from
a pointer is determined by the heap, so one that ends passes no cell twice, and a search loop over
it is a search through its cells.
-/

namespace Misan

variable {P E : Type}

/-- The pointers met from `p` on, up to the null pointer. -/
inductive Linked (heap : P → Option E) (next : E → P) (null : P) : P → List P → Prop
  | nil : Linked heap next null null []
  | cons {p : P} {cell : E} {rest : List P} (hne : p ≠ null) (hcell : heap p = some cell)
      (hrest : Linked heap next null (next cell) rest) : Linked heap next null p (p :: rest)

/-- `while (p) { if (test(p)) return p; p = p->next; } return 0;`, without a result if the budget is
used up, or if a pointer leads nowhere. -/
def searchList [DecidableEq P] (heap : P → Option E) (next : E → P) (null : P)
    (test : E → Bool) : Nat → P → Option P
  | 0, _ => none
  | budget + 1, p =>
      if p = null then some null
      else
        match heap p with
        | none => none
        | some cell =>
            if test cell then some p else searchList heap next null test budget (next cell)

variable {heap heap' : P → Option E} {next : E → P} {null p q : P} {l l' : List P}

namespace Linked

theorem unique (h : Linked heap next null p l) (h' : Linked heap next null p l') : l = l' := by
  induction h generalizing l' with
  | nil =>
      cases h' with
      | nil => rfl
      | cons hne => exact absurd rfl hne
  | cons hne hcell _ ih =>
      cases h' with
      | nil => exact absurd rfl hne
      | cons _ hcell' hrest' =>
          cases hcell.symm.trans hcell'
          rw [ih hrest']

/-- The list from a pointer that is met on the way is the rest of the list. -/
theorem exists_suffix (h : Linked heap next null p l) (hq : q ∈ l) :
    ∃ rest, Linked heap next null q (q :: rest) ∧ (q :: rest).length ≤ l.length := by
  induction h with
  | nil => cases hq
  | @cons p cell rest hne hcell hrest ih =>
      rcases List.mem_cons.mp hq with rfl | hq
      · exact ⟨rest, .cons hne hcell hrest, Nat.le_refl _⟩
      · obtain ⟨rest', hlinked, hle⟩ := ih hq
        exact ⟨rest', hlinked, Nat.le_succ_of_le hle⟩

/-- **No cycles.** A cell met a second time would be followed by as long a list as at first. -/
theorem nodup (h : Linked heap next null p l) : l.Nodup := by
  induction h with
  | nil => exact List.nodup_nil
  | @cons p cell rest hne hcell hrest ih =>
      refine List.nodup_cons.mpr ⟨fun hmem => ?_, ih⟩
      obtain ⟨rest', hlinked, hle⟩ := hrest.exists_suffix hmem
      rw [← (Linked.cons hne hcell hrest).unique hlinked, List.length_cons] at hle
      omega

theorem ne_null (h : Linked heap next null p l) (hq : q ∈ l) : q ≠ null := by
  obtain ⟨rest, hlinked, -⟩ := h.exists_suffix hq
  cases hlinked with
  | cons hne => exact hne

/-- The list does not change with a heap that keeps its cells. -/
theorem frame (h : Linked heap next null p l) (hsame : ∀ q ∈ l, heap' q = heap q) :
    Linked heap' next null p l := by
  induction h with
  | nil => exact .nil
  | @cons p cell rest hne hcell _ ih =>
      refine .cons hne ?_ (ih fun q hq => hsame q (List.mem_cons_of_mem p hq))
      rw [hsame p List.mem_cons_self, hcell]

theorem push [DecidableEq P] {cell : E} (h : Linked heap next null (next cell) l)
    (hne : p ≠ null) (hnew : p ∉ l) :
    Linked (Function.update heap p (some cell)) next null p (p :: l) := by
  refine .cons hne (Function.update_self ..) (h.frame fun q hq => ?_)
  apply Function.update_of_ne
  rintro rfl
  exact hnew hq

/-! ### Searching -/

variable {test : E → Bool}

theorem search_ne_null_iff (h : Linked heap next null p l) :
    (l.find? fun q => (heap q).any test).getD null ≠ null ↔
      ∃ q ∈ l, ∃ cell, heap q = some cell ∧ test cell = true := by
  have hpass : ∀ q, (heap q).any test = true ↔ ∃ cell, heap q = some cell ∧ test cell = true :=
    fun q => Option.any_eq_true _ _
  cases hfind : l.find? fun q => (heap q).any test with
  | none =>
      have hnone := List.find?_eq_none.mp hfind
      refine iff_of_false (fun hne => hne rfl) ?_
      rintro ⟨q, hq, hcell⟩
      exact hnone q hq ((hpass q).mpr hcell)
  | some q =>
      have hq := List.mem_of_find?_eq_some hfind
      have htest : (heap q).any test = true :=
        List.find?_some (p := fun q => (heap q).any test) hfind
      exact iff_of_true (h.ne_null hq) ⟨q, hq, (hpass q).mp htest⟩

variable [DecidableEq P]

/-- **The search** returns the first cell that passes the test, or null. -/
theorem search (h : Linked heap next null p l) {budget : Nat} (hbudget : l.length < budget) :
    searchList heap next null test budget p =
      some ((l.find? fun q => (heap q).any test).getD null) := by
  induction h generalizing budget with
  | nil =>
      obtain ⟨budget, rfl⟩ := Nat.exists_eq_succ_of_ne_zero (Nat.ne_of_gt hbudget)
      exact if_pos rfl
  | @cons p cell rest hne hcell _ ih =>
      obtain ⟨budget, rfl⟩ := Nat.exists_eq_succ_of_ne_zero (Nat.ne_zero_of_lt hbudget)
      rw [searchList, if_neg hne, hcell]
      dsimp only
      cases htest : test cell with
      | true => simp [hcell, htest]
      | false =>
          rw [if_neg Bool.false_ne_true, List.find?_cons_of_neg (by simp [hcell, htest])]
          exact ih (Nat.lt_of_succ_lt_succ hbudget)

/-- What the search returns on a small budget is what it returns on a large one. -/
theorem search_sound (h : Linked heap next null p l) {budget : Nat}
    (hfound : searchList heap next null test budget p = some q) :
    q = (l.find? fun q => (heap q).any test).getD null := by
  induction h generalizing budget with
  | nil =>
      cases budget with
      | zero => cases hfound
      | succ budget =>
          rw [searchList, if_pos rfl] at hfound
          exact (Option.some.inj hfound).symm
  | @cons p cell rest hne hcell _ ih =>
      cases budget with
      | zero => cases hfound
      | succ budget =>
          rw [searchList, if_neg hne, hcell] at hfound
          dsimp only at hfound
          cases htest : test cell with
          | true =>
              rw [htest, if_pos rfl] at hfound
              simpa [hcell, htest] using (Option.some.inj hfound).symm
          | false =>
              rw [htest, if_neg Bool.false_ne_true] at hfound
              rw [List.find?_cons_of_neg (by simp [hcell, htest])]
              exact ih hfound

end Linked

end Misan
