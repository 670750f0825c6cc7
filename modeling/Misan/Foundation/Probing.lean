import Mathlib.Data.Fintype.Card
import Mathlib.Data.Fin.Basic
import Mathlib.Data.Set.Card
import Mathlib.Algebra.Group.Fin.Basic

/-!
# Linear probing

The circular search of an open-addressing table, as a do-while loop over the slots: it starts at a
home slot, stops at the first slot that satisfies a test, and gives up when it is back where it
started. A table that is only ever inserted into, by probing for the key or a hole, keeps every key
where the same search finds it again.
-/

namespace Misan

variable {n : Nat} [NeZero n]

/-- The search from `idx` on, for at most the given number of slots. -/
def probeLoop (stop : Fin n → Bool) (start : Fin n) : Nat → Fin n → Option (Fin n)
  | 0, _ => none
  | fuel + 1, idx =>
      if stop idx then some idx
      else if idx + 1 = start then none
      else probeLoop stop start fuel (idx + 1)

def probe (stop : Fin n → Bool) (start : Fin n) : Option (Fin n) := probeLoop stop start n start

section Search

variable {stop stop' : Fin n → Bool} {start i : Fin n}

theorem probeLoop_sound {fuel : Nat} {idx : Fin n}
    (hfound : probeLoop stop start fuel idx = some i) : stop i = true := by
  induction fuel generalizing idx with
  | zero => cases hfound
  | succ fuel ih =>
      rw [probeLoop] at hfound
      split_ifs at hfound with hstop hlast
      · cases hfound
        exact hstop
      · exact ih hfound

theorem probe_sound (hfound : probe stop start = some i) : stop i = true :=
  probeLoop_sound hfound

theorem probeLoop_of_stop {fuel : Nat} (hfuel : fuel ≠ 0) {idx : Fin n}
    (hstop : stop idx = true) : probeLoop stop start fuel idx = some idx := by
  cases fuel with
  | zero => exact (hfuel rfl).elim
  | succ fuel => rw [probeLoop, if_pos hstop]

theorem probe_home (hstop : stop start = true) : probe stop start = some start :=
  probeLoop_of_stop (NeZero.ne n) hstop

theorem probeLoop_mono (hmono : ∀ j, stop' j = true → stop j = true) (hi : stop' i = true)
    {fuel : Nat} {idx : Fin n} (hfound : probeLoop stop start fuel idx = some i) :
    probeLoop stop' start fuel idx = some i := by
  induction fuel generalizing idx with
  | zero => cases hfound
  | succ fuel ih =>
      rw [probeLoop] at hfound ⊢
      by_cases hstop : stop idx = true
      · rw [if_pos hstop] at hfound
        cases hfound
        rw [if_pos hi]
      · rw [if_neg hstop] at hfound
        rw [if_neg fun h => hstop (hmono idx h)]
        split_ifs at hfound ⊢ with hlast
        exact ih hfound

/-- A search still ends where it did if it now stops at fewer slots, but still there. -/
theorem probe_mono (hmono : ∀ j, stop' j = true → stop j = true) (hi : stop' i = true)
    (hfound : probe stop start = some i) : probe stop' start = some i :=
  probeLoop_mono hmono hi hfound

theorem val_sub_succ {idx : Fin n} (hne : idx ≠ i) : (i - (idx + 1)).val + 1 = (i - idx).val := by
  have hpos : (i - idx).val ≠ 0 := by
    intro hzero
    exact hne (sub_eq_zero.mp (Fin.val_eq_zero_iff.mp hzero)).symm
  have hlt := (i - idx).isLt
  rw [← sub_sub, Fin.val_sub_one_of_ne_zero fun hzero => hpos (by rw [hzero]; rfl)]
  omega

theorem probeLoop_complete (hi : stop i = true) {fuel : Nat} {idx : Fin n}
    (hfuel : (i - idx).val < fuel) (hahead : (i - idx).val ≤ (i - start).val) :
    probeLoop stop start fuel idx ≠ none := by
  induction fuel generalizing idx with
  | zero => omega
  | succ fuel ih =>
      rw [probeLoop]
      by_cases hstop : stop idx = true
      · simp [hstop]
      · have hne : idx ≠ i := by
          rintro rfl
          exact hstop hi
        have hcloser := val_sub_succ hne
        rw [if_neg hstop, if_neg]
        · exact ih (by omega) (by omega)
        · rintro rfl
          omega

/-- **The search is exhaustive.** -/
theorem probe_eq_none_iff : probe stop start = none ↔ ∀ j, stop j = false := by
  constructor
  · intro hnone j
    by_contra hj
    exact probeLoop_complete (Bool.not_eq_false _ ▸ hj) (j - start).isLt (Nat.le_refl _) hnone
  · intro hall
    cases hfound : probe stop start with
    | none => rfl
    | some i =>
        have hstop := probe_sound hfound
        rw [hall i] at hstop
        cases hstop

/-- The search as a loop without a bound: from a slot it ends after this many slots, with this
result. -/
inductive ProbeRun (stop : Fin n → Bool) (start : Fin n) : Fin n → Nat → Option (Fin n) → Prop
  | stopped {idx : Fin n} (hstop : stop idx = true) : ProbeRun stop start idx 1 (some idx)
  | around {idx : Fin n} (hgo : stop idx = false) (hlast : idx + 1 = start) :
      ProbeRun stop start idx 1 none
  | moved {idx : Fin n} {steps : Nat} {found : Option (Fin n)} (hgo : stop idx = false)
      (hmore : idx + 1 ≠ start) (hrest : ProbeRun stop start (idx + 1) steps found) :
      ProbeRun stop start idx (steps + 1) found

theorem probeLoop_run {fuel : Nat} {idx : Fin n} (hfuel : (start - 1 - idx).val < fuel) :
    ∃ steps ≤ fuel, ProbeRun stop start idx steps (probeLoop stop start fuel idx) := by
  induction fuel generalizing idx with
  | zero => omega
  | succ fuel ih =>
      rw [probeLoop]
      by_cases hstop : stop idx = true
      · rw [if_pos hstop]
        exact ⟨1, by omega, .stopped hstop⟩
      · rw [if_neg hstop]
        have hgo := Bool.not_eq_true _ ▸ hstop
        by_cases hlast : idx + 1 = start
        · rw [if_pos hlast]
          exact ⟨1, by omega, .around hgo hlast⟩
        · rw [if_neg hlast]
          have hne : idx ≠ start - 1 := by
            rintro rfl
            exact hlast (sub_add_cancel start 1)
          have hcloser := val_sub_succ hne
          have hleft : (start - 1 - (idx + 1)).val < fuel := by omega
          obtain ⟨steps, hsteps, hrun⟩ := ih hleft
          exact ⟨steps + 1, by omega, .moved hgo hlast hrun⟩

theorem probe_run (stop : Fin n → Bool) (start : Fin n) :
    ∃ steps ≤ n, ProbeRun stop start start steps (probe stop start) :=
  probeLoop_run (start - 1 - start).isLt

end Search

/-! ### Tables without deletion -/

section Table

variable {K : Type} [DecidableEq K]

def keyOrHole (occ : Fin n → Option K) (key : K) (i : Fin n) : Bool :=
  (occ i).all (· == key)

omit [NeZero n] in
theorem keyOrHole_eq_false_iff {occ : Fin n → Option K} {key : K} {i : Fin n} :
    keyOrHole occ key i = false ↔ ∃ key', occ i = some key' ∧ key' ≠ key := by
  rw [keyOrHole]
  cases occ i with
  | none => simp
  | some key' => simp

/-- Every key is where the search for it ends. -/
def Placed (home : K → Fin n) (occ : Fin n → Option K) : Prop :=
  ∀ i key, occ i = some key → probe (keyOrHole occ key) (home key) = some i

variable {home : K → Fin n} {occ : Fin n → Option K} {key : K} {i : Fin n}

theorem placed_empty (home : K → Fin n) : Placed home fun _ => none := by
  intro i key h
  cases h

theorem Placed.slot_unique (hplaced : Placed home occ) {j : Fin n} (hi : occ i = some key)
    (hj : occ j = some key) : i = j :=
  Option.some.inj ((hplaced i key hi).symm.trans (hplaced j key hj))

/-- What the search stops at: the key, or a hole if the table does not hold the key. -/
theorem Placed.probe_cases (hplaced : Placed home occ)
    (hfound : probe (keyOrHole occ key) (home key) = some i) :
    occ i = some key ∨ (occ i = none ∧ ∀ j, occ j ≠ some key) := by
  have hstop := probe_sound hfound
  cases hi : occ i with
  | none =>
      refine Or.inr ⟨rfl, fun j hj => ?_⟩
      have hj' := (hplaced j key hj).symm.trans hfound
      cases hj'
      rw [hi] at hj
      cases hj
  | some key' =>
      rw [keyOrHole, hi] at hstop
      simp only [Option.all_some, beq_iff_eq] at hstop
      rw [hstop]
      exact Or.inl rfl

/-- **Insertion** where the search ends keeps every key in its place. -/
theorem Placed.insert (hplaced : Placed home occ)
    (hfound : probe (keyOrHole occ key) (home key) = some i) :
    Placed home (Function.update occ i (some key)) := by
  have hfewer : ∀ key' j, keyOrHole (Function.update occ i (some key)) key' j = true →
      j ≠ i ∨ key' = key → keyOrHole occ key' j = true := by
    intro key' j hstop hcase
    by_cases hj : j = i
    · obtain rfl : key' = key := hcase.resolve_left (not_not.mpr hj)
      rw [hj]
      exact probe_sound hfound
    · rwa [keyOrHole, Function.update_of_ne hj] at hstop
  intro j key' hj
  by_cases hji : j = i
  · subst hji
    rw [Function.update_self] at hj
    cases hj
    refine probe_mono (fun l hl => hfewer key l hl (Or.inr rfl)) ?_ hfound
    simp [keyOrHole]
  · rw [Function.update_of_ne hji] at hj
    refine probe_mono (fun l hl => ?_) ?_ (hplaced j key' hj)
    · by_cases hli : l = i
      · subst hli
        by_cases hkey : key' = key
        · exact hfewer key' l hl (Or.inr hkey)
        · rw [keyOrHole, Function.update_self] at hl
          simp only [Option.all_some, beq_iff_eq] at hl
          exact absurd hl.symm hkey
      · exact hfewer key' l hl (Or.inl hli)
    · rw [keyOrHole, Function.update_of_ne hji, hj]
      simp

/-- A table that refuses a key holds as many others as it has slots. -/
theorem Placed.card_lt (hplaced : Placed home occ)
    (hfull : probe (keyOrHole occ key) (home key) = none) {keys : Finset K} (hkey : key ∈ keys)
    (hkeys : ∀ j key', occ j = some key' → key' ∈ keys) : n < keys.card := by
  have hother : ∀ j, ∃ key', occ j = some key' ∧ key' ≠ key := fun j =>
    keyOrHole_eq_false_iff.mp (probe_eq_none_iff.mp hfull j)
  choose held hheld hne using hother
  have hinj : Set.InjOn held (Finset.univ : Finset (Fin n)) := by
    intro j _ l _ heq
    exact hplaced.slot_unique (hheld j) (heq ▸ hheld l)
  calc
    n = (Finset.univ : Finset (Fin n)).card := (Finset.card_fin n).symm
    _ ≤ (keys.erase key).card := by
      apply Finset.card_le_card_of_injOn held _ hinj
      intro j _
      exact Finset.mem_coe.mpr (Finset.mem_erase.mpr ⟨hne j, hkeys j _ (hheld j)⟩)
    _ < keys.card := Finset.card_erase_lt_of_mem hkey

/-- **A key is refused** exactly when every slot holds another one. -/
theorem Placed.probe_eq_none_iff (hplaced : Placed home occ) :
    probe (keyOrHole occ key) (home key) = none ↔
      (∀ j, occ j ≠ some key) ∧ {key' | key' ≠ key ∧ ∃ j, occ j = some key'}.ncard = n := by
  let used : Set (Fin n) := {j | ∃ key', occ j = some key' ∧ key' ≠ key}
  -- each other key is in one slot, so the keys are as many as these slots
  have hncard : {key' | key' ≠ key ∧ ∃ j, occ j = some key'}.ncard = used.ncard := by
    refine (Set.ncard_congr (fun j (hj : j ∈ used) => hj.choose) ?_ ?_ ?_).symm
    · intro j hj
      exact ⟨hj.choose_spec.2, j, hj.choose_spec.1⟩
    · intro i j hi hj heq
      exact hplaced.slot_unique hi.choose_spec.1 (heq ▸ hj.choose_spec.1)
    · rintro key' ⟨hne, j, hj⟩
      have hused : j ∈ used := ⟨key', hj, hne⟩
      exact ⟨j, hused, Option.some.inj (hused.choose_spec.1.symm.trans hj)⟩
  have hfull : used.ncard = n ↔ ∀ j, j ∈ used := by
    constructor
    · intro hcard j
      have huniv : used = Set.univ :=
        Set.eq_of_subset_of_ncard_le (Set.subset_univ _)
          (by rw [Set.ncard_univ, Nat.card_eq_fintype_card, Fintype.card_fin, hcard])
      rw [huniv]
      exact Set.mem_univ j
    · intro hall
      rw [Set.eq_univ_of_forall hall, Set.ncard_univ, Nat.card_eq_fintype_card, Fintype.card_fin]
  rw [hncard, hfull, Misan.probe_eq_none_iff]
  simp only [keyOrHole_eq_false_iff]
  constructor
  · intro hother
    refine ⟨fun j hj => ?_, hother⟩
    obtain ⟨key', hj', hne⟩ := hother j
    exact hne (Option.some.inj (hj'.symm.trans hj))
  · exact fun h => h.2

end Table

end Misan
