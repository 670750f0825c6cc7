import Mathlib.Init

/-!
# Programs under a growing budget

A program with loops that need not end is a family of computations, one for each number of
iterations its loops are allowed. It *runs* to a result if some budget is enough, and then every
larger one is. `RunsIff` packs both halves of a specification: from a given state the program ends
exactly under a condition, and then in one given way. It composes along `bind`, so a specification
of a program is assembled from those of its parts. `StopsIff` is the same for a program that leaves
by an error: whatever stands behind it is not run.
-/

namespace Misan

variable {ε σ α β : Type}

/-- From `s`, the program `x` ends if and only if `P` holds, and then with `a` in state `s'`. -/
structure RunsIff (x : Nat → EStateM ε σ α) (s : σ) (P : Prop) (a : α) (s' : σ) : Prop where
  total : P → ∃ N, ∀ n, N ≤ n → x n s = .ok a s'
  sound : ∀ n b t, x n s = .ok b t → P ∧ b = a ∧ t = s'

def Finishes (x : Nat → EStateM ε σ α) (s : σ) : Prop :=
  ∃ n a s', x n s = .ok a s'

theorem bind_run {x : EStateM ε σ α} {f : α → EStateM ε σ β} {s s' : σ} {a : α}
    (hrun : x s = .ok a s') : (x >>= f) s = f a s' := by
  change EStateM.bind x f s = _
  rw [EStateM.bind, hrun]

theorem bind_eq_ok {x : EStateM ε σ α} {f : α → EStateM ε σ β} {s t : σ} {b : β} :
    (x >>= f) s = .ok b t ↔ ∃ a s', x s = .ok a s' ∧ f a s' = .ok b t := by
  change EStateM.bind x f s = _ ↔ _
  rw [EStateM.bind]
  cases x s <;> simp [and_assoc]

/-- A sequence fails where its first part does, or the rest behind it. -/
theorem bind_eq_error {x : EStateM ε σ α} {f : α → EStateM ε σ β} {s t : σ} {e : ε} :
    (x >>= f) s = .error e t ↔
      x s = .error e t ∨ ∃ a s', x s = .ok a s' ∧ f a s' = .error e t := by
  change EStateM.bind x f s = _ ↔ _
  rw [EStateM.bind]
  cases x s <;> simp [and_assoc]

/-- The program never stops with `e`, whatever state it starts in. -/
def NeverFails (e : ε) (x : EStateM ε σ α) : Prop := ∀ s t, x s ≠ .error e t

theorem NeverFails.bind {e : ε} {x : EStateM ε σ α} {f : α → EStateM ε σ β}
    (hx : NeverFails e x) (hf : ∀ a, NeverFails e (f a)) : NeverFails e (x >>= f) := by
  intro s t hfail
  rcases bind_eq_error.mp hfail with hfirst | ⟨a, s', -, hrest⟩
  · exact hx s t hfirst
  · exact hf a s' t hrest

theorem NeverFails.ite {e : ε} {x y : EStateM ε σ α} {P : Prop} [Decidable P]
    (hx : NeverFails e x) (hy : NeverFails e y) : NeverFails e (if P then x else y) := by
  split
  · exact hx
  · exact hy

namespace RunsIff

variable {x y : Nat → EStateM ε σ α} {s s' s'' : σ} {P Q : Prop} {a : α} {b : β}

theorem finishes_iff (h : RunsIff x s P a s') : Finishes x s ↔ P := by
  constructor
  · rintro ⟨n, b, t, hrun⟩
    exact (h.sound n b t hrun).1
  · intro hP
    obtain ⟨N, hN⟩ := h.total hP
    exact ⟨N, a, s', hN N (Nat.le_refl N)⟩

theorem congr_iff (h : RunsIff x s P a s') (hPQ : P ↔ Q) : RunsIff x s Q a s' where
  total hQ := h.total (hPQ.mpr hQ)
  sound n b t hrun := by
    obtain ⟨hP, hrest⟩ := h.sound n b t hrun
    exact ⟨hPQ.mp hP, hrest⟩

theorem congr_run (h : RunsIff x s P a s') (heq : ∀ n, y n s = x n s) : RunsIff y s P a s' where
  total hP := by
    obtain ⟨N, hN⟩ := h.total hP
    exact ⟨N, fun n hn => (heq n).trans (hN n hn)⟩
  sound n b t hrun := h.sound n b t ((heq n).symm.trans hrun)

theorem step {x : EStateM ε σ α} (hrun : x s = .ok a s') : RunsIff (fun _ => x) s True a s' where
  total _ := ⟨0, fun _ _ => hrun⟩
  sound n b t hrun' := by
    rw [hrun] at hrun'
    cases hrun'
    exact ⟨trivial, rfl, rfl⟩

/-- A program that never ends, whatever it is claimed to end with. -/
theorem never (hrun : ∀ n b t, x n s ≠ .ok b t) : RunsIff x s False a s' where
  total hF := hF.elim
  sound n b t hrun' := (hrun n b t hrun').elim

/-- **Sequencing.** The continuation only has to be specified where the first part ends. -/
theorem bind {f : Nat → α → EStateM ε σ β} (hx : RunsIff x s P a s')
    (hf : P → RunsIff (fun n => f n a) s' Q b s'') :
    RunsIff (fun n => x n >>= f n) s (P ∧ Q) b s'' where
  total hPQ := by
    obtain ⟨N, hN⟩ := hx.total hPQ.1
    obtain ⟨M, hM⟩ := (hf hPQ.1).total hPQ.2
    refine ⟨max N M, fun n hn => ?_⟩
    rw [bind_run (hN n (Nat.le_trans (Nat.le_max_left N M) hn))]
    exact hM n (Nat.le_trans (Nat.le_max_right N M) hn)
  sound n c t hrun := by
    change EStateM.bind (x n) (f n) s = _ at hrun
    rw [EStateM.bind] at hrun
    cases hfirst : x n s with
    | ok a' t' =>
        rw [hfirst] at hrun
        obtain ⟨hP, rfl, rfl⟩ := hx.sound n a' t' hfirst
        obtain ⟨hQ, hrest⟩ := (hf hP).sound n c t hrun
        exact ⟨⟨hP, hQ⟩, hrest⟩
    | error e t' =>
        rw [hfirst] at hrun
        cases hrun

/-- Nothing behind a part that does not end is reached. -/
theorem bind_never {f : Nat → α → EStateM ε σ β} (hx : RunsIff x s P a s') (hP : ¬ P) :
    RunsIff (fun n => x n >>= f n) s False b s'' :=
  (hx.bind (Q := True) fun h => (hP h).elim).congr_iff (by simp [hP])

theorem step_bind {x : EStateM ε σ α} {f : Nat → α → EStateM ε σ β} (hrun : x s = .ok a s')
    (hf : RunsIff (fun n => f n a) s' Q b s'') : RunsIff (fun n => x >>= f n) s Q b s'' :=
  ((step hrun).bind fun _ => hf).congr_iff (by simp)

/-- A loop: out of budget it stops short, and one more unit buys its body. -/
theorem unroll (hzero : ∀ b t, y 0 s ≠ .ok b t) (hsucc : ∀ n, y (n + 1) s = x n s)
    (h : RunsIff x s P a s') : RunsIff y s P a s' where
  total hP := by
    obtain ⟨N, hN⟩ := h.total hP
    refine ⟨N + 1, fun n hn => ?_⟩
    obtain ⟨k, rfl⟩ : ∃ k, n = k + 1 := ⟨n - 1, by omega⟩
    exact (hsucc k).trans (hN k (by omega))
  sound n b t hrun := by
    cases n with
    | zero => exact (hzero b t hrun).elim
    | succ k => exact h.sound k b t ((hsucc k).symm.trans hrun)

end RunsIff

/-- Whatever the state, the program `x` ends if and only if `P` holds, and then with `a`. -/
def EndsIff (x : Nat → EStateM ε σ α) (P : Prop) (a : α) : Prop :=
  ∀ s, ∃ t, RunsIff x s P a t

namespace EndsIff

variable {x : Nat → EStateM ε σ α} {y : Nat → EStateM ε σ β} {P Q : Prop} {a : α} {b : β}

theorem congr_iff (h : EndsIff x P a) (hPQ : P ↔ Q) : EndsIff x Q a := by
  intro s
  obtain ⟨t, hrun⟩ := h s
  exact ⟨t, hrun.congr_iff hPQ⟩

theorem seq (hx : EndsIff x P a) (hy : EndsIff y Q b) :
    EndsIff (fun n => x n >>= fun _ => y n) (P ∧ Q) b := by
  intro s
  obtain ⟨s', hx⟩ := hx s
  obtain ⟨t, hy⟩ := hy s'
  exact ⟨t, hx.bind (f := fun n _ => y n) fun _ => hy⟩

end EndsIff

/-- From `s`, whatever its budget, the program comes to `r` or stops with `late` because the budget
is used up, and some budget is enough. -/
structure Settles (x : Nat → EStateM ε σ α) (s : σ) (late : ε) (r : EStateM.Result ε σ α) :
    Prop where
  enough : ∃ N, ∀ n, N ≤ n → x n s = r
  only : ∀ n, x n s = r ∨ ∃ t, x n s = .error late t

namespace Settles

variable {x y : Nat → EStateM ε σ α} {s s' : σ} {late e : ε} {r : EStateM.Result ε σ α} {a : α}

theorem eq_of_ok (h : Settles x s late r) {n : Nat} (hrun : x n s = .ok a s') :
    r = .ok a s' := by
  rcases h.only n with hr | ⟨t, hlate⟩
  · rw [← hr, hrun]
  · cases hrun.symm.trans hlate

theorem eq_of_error (h : Settles x s late r) {n : Nat} (hrun : x n s = .error e s')
    (hne : e ≠ late) : r = .error e s' := by
  rcases h.only n with hr | ⟨t, hlate⟩
  · rw [← hr, hrun]
  · cases hrun.symm.trans hlate
    exact absurd rfl hne

/-- A loop: out of budget it stops short, and one more unit buys its body. -/
theorem unroll (hzero : ∃ t, y 0 s = .error late t) (hsucc : ∀ n, y (n + 1) s = x n s')
    (h : Settles x s' late r) : Settles y s late r where
  enough := by
    obtain ⟨N, hN⟩ := h.enough
    refine ⟨N + 1, fun n hn => ?_⟩
    obtain ⟨k, rfl⟩ : ∃ k, n = k + 1 := ⟨n - 1, by omega⟩
    exact (hsucc k).trans (hN k (by omega))
  only n := by
    cases n with
    | zero => exact Or.inr hzero
    | succ k =>
        rw [hsucc k]
        exact h.only k

theorem congr_run (h : Settles x s late r) (heq : ∀ n, y n s = x n s) : Settles y s late r where
  enough := by
    obtain ⟨N, hN⟩ := h.enough
    exact ⟨N, fun n hn => (heq n).trans (hN n hn)⟩
  only n := by
    rw [heq n]
    exact h.only n

/-- Behind a part that settles on an error nothing is run. -/
theorem bind_error {f : Nat → α → EStateM ε σ β} (h : Settles x s late (.error e s')) :
    Settles (fun n => x n >>= f n) s late (.error e s') where
  enough := by
    obtain ⟨N, hN⟩ := h.enough
    exact ⟨N, fun n hn => bind_eq_error.mpr (Or.inl (hN n hn))⟩
  only n := by
    rcases h.only n with hr | ⟨t, hlate⟩
    · exact Or.inl (bind_eq_error.mpr (Or.inl hr))
    · exact Or.inr ⟨t, bind_eq_error.mpr (Or.inl hlate)⟩

/-- Behind a part that settles on a value the rest is run. -/
theorem bind_ok {f : Nat → α → EStateM ε σ β} (h : Settles x s late (.ok a s')) :
    (∃ N, ∀ n, N ≤ n → (x n >>= f n) s = f n a s') ∧
      ∀ n, (x n >>= f n) s = f n a s' ∨ ∃ t, (x n >>= f n) s = .error late t := by
  obtain ⟨N, hN⟩ := h.enough
  refine ⟨⟨N, fun n hn => bind_run (hN n hn)⟩, fun n => ?_⟩
  rcases h.only n with hr | ⟨t, hlate⟩
  · exact Or.inl (bind_run hr)
  · exact Or.inr ⟨t, bind_eq_error.mpr (Or.inl hlate)⟩

theorem done (x : EStateM ε σ α) (s : σ) (late : ε) : Settles (fun _ => x) s late (x s) where
  enough := ⟨0, fun _ _ => rfl⟩
  only _ := Or.inl rfl

end Settles

/-- From `s`, the program `x` never returns: it ends if and only if `P` holds, and then with the
error `e` in state `s'`. Other errors are not ends. -/
structure StopsIff (x : Nat → EStateM ε σ α) (s : σ) (e : ε) (P : Prop) (s' : σ) : Prop where
  total : P → ∃ N, ∀ n, N ≤ n → x n s = .error e s'
  sound : ∀ n t, x n s = .error e t → P ∧ t = s'
  diverts : ∀ n a t, x n s ≠ .ok a t

namespace StopsIff

variable {x : Nat → EStateM ε σ α} {s s' s'' : σ} {e : ε} {P Q : Prop} {a : α}

theorem throw (e : ε) (s : σ) : StopsIff (fun _ => (throw e : EStateM ε σ α)) s e True s where
  total _ := ⟨0, fun _ _ => rfl⟩
  sound n t hrun := by
    cases hrun
    exact ⟨trivial, rfl⟩
  diverts n a t hrun := by cases hrun

theorem congr_iff (h : StopsIff x s e P s') (hPQ : P ↔ Q) : StopsIff x s e Q s' where
  total hQ := h.total (hPQ.mpr hQ)
  sound n t hrun := by
    obtain ⟨hP, ht⟩ := h.sound n t hrun
    exact ⟨hPQ.mp hP, ht⟩
  diverts := h.diverts

/-- In front of it stands a program that does not end with `e` itself. -/
theorem after {f : Nat → α → EStateM ε σ β} (hx : RunsIff x s P a s')
    (hclean : ∀ n, NeverFails e (x n)) (hf : P → StopsIff (fun n => f n a) s' e Q s'') :
    StopsIff (fun n => x n >>= f n) s e (P ∧ Q) s'' where
  total hPQ := by
    obtain ⟨N, hN⟩ := hx.total hPQ.1
    obtain ⟨M, hM⟩ := (hf hPQ.1).total hPQ.2
    refine ⟨max N M, fun n hn => ?_⟩
    rw [bind_run (hN n (Nat.le_trans (Nat.le_max_left N M) hn))]
    exact hM n (Nat.le_trans (Nat.le_max_right N M) hn)
  sound n t hrun := by
    rcases bind_eq_error.mp hrun with hfirst | ⟨b, t', hfirst, hrest⟩
    · exact (hclean n s t hfirst).elim
    · obtain ⟨hP, rfl, rfl⟩ := hx.sound n b t' hfirst
      obtain ⟨hQ, ht⟩ := (hf hP).sound n t hrest
      exact ⟨⟨hP, hQ⟩, ht⟩
  diverts n c t hrun := by
    obtain ⟨b, t', hfirst, hrest⟩ := bind_eq_ok.mp hrun
    obtain ⟨hP, rfl, rfl⟩ := hx.sound n b t' hfirst
    exact (hf hP).diverts n c t hrest

/-- Nothing behind it is run. -/
theorem bind (h : StopsIff x s e P s') (f : Nat → α → EStateM ε σ β) :
    StopsIff (fun n => x n >>= f n) s e P s' where
  total hP := by
    obtain ⟨N, hN⟩ := h.total hP
    exact ⟨N, fun n hn => bind_eq_error.mpr (Or.inl (hN n hn))⟩
  sound n t hrun := by
    rcases bind_eq_error.mp hrun with hfirst | ⟨b, t', hfirst, -⟩
    · exact h.sound n t hfirst
    · exact (h.diverts n b t' hfirst).elim
  diverts n c t hrun := by
    obtain ⟨b, t', hfirst, -⟩ := bind_eq_ok.mp hrun
    exact h.diverts n b t' hfirst

end StopsIff

end Misan
