import Mathlib.Data.Set.Insert
import Mathlib.Order.Basic

/-!
# Who knows which release

An abstract account of synchronisation through stores. A thread moves on by ticking. It leaves what
it knows in a store by a release, and learns what a store holds by an acquire. What is known are
releases: pairs of a thread and the time at which it made one.

Vector clocks with one counter for each thread represent this. The kind treated here counts a
release as one step in the store and not in the releasing thread, so a store may be ahead of the
thread that filled it.
-/

namespace Misan

open Function Set

variable {τ μ : Type}

/-- What a call means to the synchronisation: a tick of a thread, an acquire from or a release to a
store, a store forgetting everything, or nothing. -/
inductive SyncAct (τ μ : Type) where
  | idle
  | tick (t : τ)
  | acquire (t : τ) (m : μ)
  | release (t : τ) (m : μ)
  | reset (m : μ)

/-! ### Releases known -/

structure Knowledge (τ μ : Type) where
  time : τ → Nat
  known : τ → Set (τ × Nat)
  stored : μ → Set (τ × Nat)

namespace Knowledge

def initial : Knowledge τ μ where
  time := fun _ => 0
  known := fun _ => ∅
  stored := fun _ => ∅

/-- `t` is up to date with `u`: it knows a release that at most one tick of `u` has followed. -/
def UpToDate (k : Knowledge τ μ) (t u : τ) : Prop :=
  ∃ n, (u, n) ∈ k.known t ∧ k.time u ≤ n + 1

/-- `t` would be up to date with `u` after `i` more ticks of `u`. -/
def UpToDateAfter (k : Knowledge τ μ) (i : Nat) (t u : τ) : Prop :=
  ∃ n, (u, n) ∈ k.known t ∧ k.time u + i ≤ n + 1

/-- No release is known before it is made. -/
structure Bounded (k : Knowledge τ μ) : Prop where
  known_le : ∀ {t u n}, (u, n) ∈ k.known t → n ≤ k.time u
  stored_le : ∀ {m u n}, (u, n) ∈ k.stored m → n ≤ k.time u

theorem bounded_initial : (initial : Knowledge τ μ).Bounded where
  known_le h := h.elim
  stored_le h := h.elim

section Step

variable [DecidableEq τ] [DecidableEq μ]

open Classical in
/-- A thread that acquires its own latest release moves on as if by a tick. -/
noncomputable def step (k : Knowledge τ μ) : SyncAct τ μ → Knowledge τ μ
  | .idle => k
  | .tick t => { k with time := update k.time t (k.time t + 1) }
  | .acquire t m =>
      { k with
        time := if (t, k.time t) ∈ k.stored m then update k.time t (k.time t + 1) else k.time
        known := update k.known t (k.known t ∪ k.stored m) }
  | .release t m => { k with stored := update k.stored m (insert (t, k.time t) (k.known t)) }
  | .reset m => { k with stored := update k.stored m ∅ }

theorem time_le_step (k : Knowledge τ μ) (a : SyncAct τ μ) (u : τ) :
    k.time u ≤ (k.step a).time u := by
  have htick : ∀ t, k.time u ≤ update k.time t (k.time t + 1) u := by
    intro t
    by_cases hu : u = t
    · subst hu
      rw [update_self]
      omega
    · rw [update_of_ne hu]
  cases a with
  | idle => exact Nat.le_refl _
  | tick t => exact htick t
  | acquire t m =>
      rw [step]
      dsimp only
      split
      · exact htick t
      · exact Nat.le_refl _
  | release t m => exact Nat.le_refl _
  | reset m => exact Nat.le_refl _

theorem step_time_le (k : Knowledge τ μ) (a : SyncAct τ μ) (u : τ) :
    (k.step a).time u ≤ k.time u + 1 := by
  have htick : ∀ t, update k.time t (k.time t + 1) u ≤ k.time u + 1 := by
    intro t
    by_cases hu : u = t
    · subst hu
      rw [update_self]
    · rw [update_of_ne hu]
      exact Nat.le_succ _
  cases a with
  | idle => exact Nat.le_succ _
  | tick t => exact htick t
  | acquire t m =>
      rw [step]
      dsimp only
      split
      · exact htick t
      · exact Nat.le_succ _
  | release t m => exact Nat.le_succ _
  | reset m => exact Nat.le_succ _

theorem Bounded.step {k : Knowledge τ μ} (hk : k.Bounded) (a : SyncAct τ μ) :
    (k.step a).Bounded := by
  have hgrow := k.time_le_step a
  constructor
  · intro t u n h
    refine Nat.le_trans ?_ (hgrow u)
    cases a with
    | acquire t' m =>
        simp only [Knowledge.step] at h
        by_cases ht : t = t'
        · subst ht
          rw [update_self] at h
          exact h.elim hk.known_le hk.stored_le
        · rw [update_of_ne ht] at h
          exact hk.known_le h
    | idle => exact hk.known_le h
    | tick t' => exact hk.known_le h
    | release t' m => exact hk.known_le h
    | reset m => exact hk.known_le h
  · intro m u n h
    refine Nat.le_trans ?_ (hgrow u)
    cases a with
    | release t m' =>
        simp only [Knowledge.step] at h
        by_cases hm : m = m'
        · subst hm
          rw [update_self] at h
          rcases h with h | h
          · cases h
            exact Nat.le_refl _
          · exact hk.known_le h
        · rw [update_of_ne hm] at h
          exact hk.stored_le h
    | reset m' =>
        simp only [Knowledge.step] at h
        by_cases hm : m = m'
        · subst hm
          rw [update_self] at h
          exact h.elim
        · rw [update_of_ne hm] at h
          exact hk.stored_le h
    | idle => exact hk.stored_le h
    | tick t => exact hk.stored_le h
    | acquire t m' => exact hk.stored_le h

def Unaware (k : Knowledge τ μ) : Prop := (∀ t, k.known t = ∅) ∧ ∀ m, k.stored m = ∅

omit [DecidableEq τ] [DecidableEq μ] in
theorem unaware_initial : (initial : Knowledge τ μ).Unaware := ⟨fun _ => rfl, fun _ => rfl⟩

omit [DecidableEq τ] [DecidableEq μ] in
theorem Unaware.not_upToDateAfter {k : Knowledge τ μ} (hk : k.Unaware) (i : Nat) (t u : τ) :
    ¬ k.UpToDateAfter i t u := by
  rintro ⟨n, hn, -⟩
  rw [hk.1] at hn
  exact hn

omit [DecidableEq τ] [DecidableEq μ] in
theorem Unaware.not_upToDate {k : Knowledge τ μ} (hk : k.Unaware) (t u : τ) :
    ¬ k.UpToDate t u := hk.not_upToDateAfter 0 t u

theorem Unaware.step {k : Knowledge τ μ} (hk : k.Unaware) {a : SyncAct τ μ}
    (ha : ∀ t m, a ≠ .release t m) : (k.step a).Unaware := by
  cases a with
  | idle => exact hk
  | tick t => exact hk
  | acquire t m =>
      refine ⟨fun t' => ?_, hk.2⟩
      simp only [Knowledge.step]
      by_cases ht : t' = t
      · subst ht
        rw [update_self, hk.1, hk.2, union_empty]
      · rw [update_of_ne ht, hk.1]
  | release t m => exact (ha t m rfl).elim
  | reset m =>
      refine ⟨hk.1, fun m' => ?_⟩
      simp only [Knowledge.step]
      by_cases hm : m' = m
      · subst hm
        rw [update_self]
      · rw [update_of_ne hm, hk.2]

end Step

end Knowledge

/-! ### Counters -/

/-- The counter for `u` that represents a set of releases: `n + 2` for the latest, made at time `n`,
and `0` for none. -/
structure Tracks (c : Nat) (releases : Set (τ × Nat)) (u : τ) : Prop where
  le : ∀ {n}, (u, n) ∈ releases → n + 2 ≤ c
  attained : c ≠ 0 → ∃ n, (u, n) ∈ releases ∧ c = n + 2

namespace Tracks

variable {c d : Nat} {K L : Set (τ × Nat)} {u : τ}

theorem empty (u : τ) : Tracks 0 (∅ : Set (τ × Nat)) u where
  le h := h.elim
  attained h := (h rfl).elim

theorem union (hc : Tracks c K u) (hd : Tracks d L u) : Tracks (max c d) (K ∪ L) u where
  le h := by
    rcases h with h | h
    · exact Nat.le_trans (hc.le h) (Nat.le_max_left c d)
    · exact Nat.le_trans (hd.le h) (Nat.le_max_right c d)
  attained hne := by
    rcases Nat.le_total c d with hle | hle
    · rw [Nat.max_eq_right hle] at hne ⊢
      obtain ⟨n, hn, heq⟩ := hd.attained hne
      exact ⟨n, Or.inr hn, heq⟩
    · rw [Nat.max_eq_left hle] at hne ⊢
      obtain ⟨n, hn, heq⟩ := hc.attained hne
      exact ⟨n, Or.inl hn, heq⟩

theorem insert_self {time : Nat} (hK : ∀ {n}, (u, n) ∈ K → n ≤ time) :
    Tracks (time + 2) (insert (u, time) K) u where
  le h := by
    rcases h with h | h
    · cases h
      exact Nat.le_refl _
    · have := hK h
      omega
  attained _ := ⟨time, mem_insert _ _, rfl⟩

theorem insert_of_ne {t : τ} (hne : u ≠ t) {time : Nat} (hc : Tracks c K u) :
    Tracks c (insert (t, time) K) u where
  le h := by
    rcases h with h | h
    · cases h
      exact (hne rfl).elim
    · exact hc.le h
  attained h := by
    obtain ⟨n, hn, heq⟩ := hc.attained h
    exact ⟨n, mem_insert_of_mem _ hn, heq⟩

/-- The counter has reached `time + 1` if and only if a release at most one tick back is known. -/
theorem succ_le_iff (hc : Tracks c K u) {time : Nat} :
    time + 1 ≤ c ↔ ∃ n, (u, n) ∈ K ∧ time ≤ n + 1 := by
  constructor
  · intro hle
    obtain ⟨n, hn, heq⟩ := hc.attained (by omega)
    exact ⟨n, hn, by omega⟩
  · rintro ⟨n, hn, hle⟩
    have := hc.le hn
    omega

/-- The counter stays behind `time + 2` if and only if no release at `time` is known. -/
theorem le_succ_iff (hc : Tracks c K u) {time : Nat} (hK : ∀ {n}, (u, n) ∈ K → n ≤ time) :
    c ≤ time + 1 ↔ (u, time) ∉ K := by
  constructor
  · intro hle hmem
    have := hc.le hmem
    omega
  · intro hmem
    by_contra hlt
    obtain ⟨n, hn, heq⟩ := hc.attained (by omega)
    have hle := hK hn
    obtain rfl : n = time := by omega
    exact hmem hn

end Tracks

/-! ### Vector clocks -/

structure Clocks (τ μ : Type) where
  clock : τ → τ → Nat
  cell : μ → τ → Nat

namespace Clocks

def initial [DecidableEq τ] : Clocks τ μ where
  clock := fun t u => if t = u then 1 else 0
  cell := fun _ _ => 0

def step [DecidableEq τ] [DecidableEq μ] (c : Clocks τ μ) : SyncAct τ μ → Clocks τ μ
  | .idle => c
  | .tick t => { c with clock := update c.clock t (update (c.clock t) t (c.clock t t + 1)) }
  | .acquire t m =>
      { c with clock := update c.clock t fun u => max (c.clock t u) (c.cell m u) }
  | .release t m => { c with cell := update c.cell m (update (c.clock t) t (c.clock t t + 1)) }
  | .reset m => { c with cell := update c.cell m fun _ => 0 }

structure Represents (c : Clocks τ μ) (k : Knowledge τ μ) : Prop where
  bounded : k.Bounded
  own : ∀ t, c.clock t t = k.time t + 1
  clock : ∀ {t u}, u ≠ t → Tracks (c.clock t u) (k.known t) u
  cell : ∀ m u, Tracks (c.cell m u) (k.stored m) u

theorem represents_initial [DecidableEq τ] :
    (initial : Clocks τ μ).Represents Knowledge.initial where
  bounded := Knowledge.bounded_initial
  own t := if_pos rfl
  clock {t u} hne := by
    rw [initial]
    dsimp only
    rw [if_neg (Ne.symm hne)]
    exact Tracks.empty u
  cell _ u := Tracks.empty u

open Classical in
theorem Represents.acquire_own {c : Clocks τ μ} {k : Knowledge τ μ} (h : c.Represents k) (t : τ)
    (m : μ) :
    max (c.clock t t) (c.cell m t)
      = (if (t, k.time t) ∈ k.stored m then k.time t + 1 else k.time t) + 1 := by
  rw [h.own]
  split
  · rename_i hmem
    have hle := (h.cell m t).le hmem
    have hge : c.cell m t ≤ k.time t + 2 := by
      by_cases hzero : c.cell m t = 0
      · omega
      · obtain ⟨n, hn, heq⟩ := (h.cell m t).attained hzero
        have := h.bounded.stored_le hn
        omega
    omega
  · rename_i hmem
    by_cases hzero : c.cell m t = 0
    · omega
    · obtain ⟨n, hn, heq⟩ := (h.cell m t).attained hzero
      have hle := h.bounded.stored_le hn
      have hne : n ≠ k.time t := by
        rintro rfl
        exact hmem hn
      omega

section Step

variable [DecidableEq τ] [DecidableEq μ] {c : Clocks τ μ} {k : Knowledge τ μ}

open Classical in
theorem Represents.step_own (h : c.Represents k) (a : SyncAct τ μ) (t : τ) :
    (c.step a).clock t t = (k.step a).time t + 1 := by
  cases a with
  | idle => exact h.own t
  | tick t' =>
      simp only [Clocks.step, Knowledge.step]
      by_cases ht : t = t'
      · subst ht
        rw [update_self, update_self, update_self, h.own]
      · rw [update_of_ne ht, update_of_ne ht, h.own]
  | acquire t' m =>
      simp only [Clocks.step, Knowledge.step]
      by_cases ht : t = t'
      · subst ht
        rw [update_self, h.acquire_own]
        split
        · rw [update_self]
        · rfl
      · rw [update_of_ne ht, h.own]
        split
        · rw [update_of_ne ht]
        · rfl
  | release t' m => exact h.own t
  | reset m => exact h.own t

theorem Represents.step_clock (h : c.Represents k) (a : SyncAct τ μ) {t u : τ} (hne : u ≠ t) :
    Tracks ((c.step a).clock t u) ((k.step a).known t) u := by
  cases a with
  | idle => exact h.clock hne
  | tick t' =>
      simp only [Clocks.step, Knowledge.step]
      by_cases ht : t = t'
      · subst ht
        rw [update_self, update_of_ne hne]
        exact h.clock hne
      · rw [update_of_ne ht]
        exact h.clock hne
  | acquire t' m =>
      simp only [Clocks.step, Knowledge.step]
      by_cases ht : t = t'
      · subst ht
        rw [update_self, update_self]
        exact (h.clock hne).union (h.cell m u)
      · rw [update_of_ne ht, update_of_ne ht]
        exact h.clock hne
  | release t' m => exact h.clock hne
  | reset m => exact h.clock hne

theorem Represents.step_cell (h : c.Represents k) (a : SyncAct τ μ) (m : μ) (u : τ) :
    Tracks ((c.step a).cell m u) ((k.step a).stored m) u := by
  cases a with
  | idle => exact h.cell m u
  | tick t => exact h.cell m u
  | acquire t m' => exact h.cell m u
  | release t m' =>
      simp only [Clocks.step, Knowledge.step]
      by_cases hm : m = m'
      · subst hm
        rw [update_self, update_self]
        by_cases hu : u = t
        · subst hu
          rw [update_self, h.own]
          exact Tracks.insert_self h.bounded.known_le
        · rw [update_of_ne hu]
          exact (h.clock hu).insert_of_ne hu
      · rw [update_of_ne hm, update_of_ne hm]
        exact h.cell m u
  | reset m' =>
      simp only [Clocks.step, Knowledge.step]
      by_cases hm : m = m'
      · subst hm
        rw [update_self, update_self]
        exact Tracks.empty u
      · rw [update_of_ne hm, update_of_ne hm]
        exact h.cell m u

/-- **Refinement.** Whatever happens, the clocks go on representing the knowledge. -/
theorem Represents.step (h : c.Represents k) (a : SyncAct τ μ) :
    (c.step a).Represents (k.step a) where
  bounded := h.bounded.step a
  own := h.step_own a
  clock := h.step_clock a
  cell := h.step_cell a

end Step

/-- A thread's own counter, moved on by `i`, is within reach of another's clock if and only if the
other thread would still be up to date with it. -/
theorem Represents.own_add_le_iff {c : Clocks τ μ} {k : Knowledge τ μ} (h : c.Represents k)
    {t u : τ} (hne : u ≠ t) (i : Nat) :
    c.clock u u + i ≤ c.clock t u ↔ k.UpToDateAfter i t u := by
  rw [h.own, Nat.add_right_comm]
  exact (h.clock hne).succ_le_iff

theorem Represents.own_le_iff {c : Clocks τ μ} {k : Knowledge τ μ} (h : c.Represents k) {t u : τ}
    (hne : u ≠ t) : c.clock u u ≤ c.clock t u ↔ k.UpToDate t u :=
  h.own_add_le_iff hne 0

end Clocks

end Misan
