import Misan.Foundation.Locking

/-!
# Reports printed under a lock

What a call prints does not depend on what others print, so between taking a lock and giving it back
it prints, element after element, what it prints when it runs alone. A report that is whole can give
the lock back. One that is cut short by a loop keeps it.
-/

namespace Misan

variable {τ γ β : Type}

/-- What a call has left to print, and whether it comes to an end behind it. -/
structure PrintPoint (β : Type) where
  left : List β
  ends : Bool
deriving DecidableEq

def printPointStep (out : List β) (l : PrintPoint β) : Option (PrintPoint β × List β) :=
  match l.left with
  | b :: left => some (⟨left, l.ends⟩, out ++ [b])
  | [] => if l.ends then none else some (l, out)

/-- The sections of calls that print what `printed` says. -/
def printing (printed : γ → PrintPoint β) : Critical γ (PrintPoint β) (List β) where
  enter := printed
  step l out := printPointStep out l

variable {printed : γ → PrintPoint β} {c : γ} {l l' : PrintPoint β} {out out' : List β}

theorem printPointStep_cases (h : printPointStep out l = some (l', out')) :
    ∃ new, out' = out ++ new ∧ new ++ l'.left = l.left ∧ l'.ends = l.ends := by
  rw [printPointStep] at h
  split at h
  · next b left hleft =>
      cases h
      exact ⟨[b], rfl, hleft.symm, rfl⟩
  · split at h
    · cases h
    · cases h
      exact ⟨[], by simp, rfl, rfl⟩

theorem printPointStep_ne_none (hends : l.ends = false) : printPointStep out l ≠ none := by
  rw [printPointStep, hends]
  split <;> simp

/-- A part of a section that prints. -/
theorem Critical.leads_print {ℓ σ : Type} {C : Critical γ ℓ σ} {point : PrintPoint β → ℓ}
    {state : List β → σ}
    (hpoint : ∀ l out l' out', printPointStep out l = some (l', out') →
      C.step (point l) (state out) = some (point l', state out'))
    (left : List β) (ends : Bool) (out : List β) :
    C.Leads (point ⟨left, ends⟩, state out) (point ⟨[], ends⟩, state (out ++ left)) := by
  induction left generalizing out with
  | nil =>
      rw [List.append_nil]
      exact Critical.Leads.refl _
  | cons b left ih =>
      have hstep := hpoint ⟨b :: left, ends⟩ out _ _ rfl
      have hrest := ih (out ++ [b])
      rw [List.append_assoc, List.singleton_append] at hrest
      exact Critical.Leads.head hstep hrest

/-- A call on its way through its report has printed the first part of it. -/
theorem printing_leads
    (h : (printing printed).Leads ((printing printed).enter c, out) (l, out')) :
    ∃ new, out' = out ++ new ∧ new ++ l.left = (printed c).left ∧ l.ends = (printed c).ends := by
  obtain ⟨p, hp⟩ : ∃ p, p = (l, out') := ⟨_, rfl⟩
  rw [← hp] at h
  induction h generalizing l out' with
  | refl =>
      cases hp
      exact ⟨[], by simp, rfl, rfl⟩
  | @tail q r hq hstep ih =>
      subst hp
      obtain ⟨before, hout, hleft, hends⟩ := ih rfl
      obtain ⟨new, hnew, hleft', hends'⟩ := printPointStep_cases hstep
      refine ⟨before ++ new, ?_, ?_, hends'.trans hends⟩
      · rw [hnew, hout, List.append_assoc]
      · rw [List.append_assoc, hleft', hleft]

/-- A whole section prints all its call has to print. -/
theorem printing_performs (h : (printing printed).Performs c out l out') :
    (printed c).ends = true ∧ out' = out ++ (printed c).left := by
  obtain ⟨new, hout, hleft, hends⟩ := printing_leads h.1
  have hend : printPointStep out' l = none := h.2
  rw [printPointStep] at hend
  split at hend
  · cases hend
  · next hnil =>
      split at hend
      · next hdone =>
          rw [hnil, List.append_nil] at hleft
          exact ⟨hends.symm.trans hdone, by rw [hout, hleft]⟩
      · cases hend

/-- What the returned calls have printed, one after another. -/
def printsOfReturned (printed : γ → PrintPoint β) (returned : List (τ × γ × PrintPoint β)) :
    List β :=
  returned.reverse.flatMap fun r => (printed r.2.1).left

theorem printing_performed {returned : List (τ × γ × PrintPoint β)}
    (h : (printing printed).Performed [] returned out) :
    out = printsOfReturned printed returned ∧ ∀ r ∈ returned, (printed r.2.1).ends = true := by
  induction h with
  | nil => simp [printsOfReturned]
  | cons _ hperforms ih =>
      obtain ⟨hends, rfl⟩ := printing_performs hperforms
      obtain ⟨rfl, hall⟩ := ih
      refine ⟨by simp [printsOfReturned], ?_⟩
      rw [List.forall_mem_cons]
      exact ⟨hends, hall⟩

/-- **Whole reports**: what is printed is what the returned calls print, one after another, and the
first part of one more report while a thread is inside. -/
theorem Serialized.whole {s : Locked τ γ (PrintPoint β) (List β)}
    (h : Serialized (printing printed) [] out s) :
    (∀ r ∈ s.returned, (printed r.2.1).ends = true) ∧
      ∃ new, s.shared = printsOfReturned printed s.returned ++ new ∧
        (s.lock = false → new = []) ∧
        (s.lock = true → ∃ t c l, s.phase t = .inside c l) ∧
        ∀ t c l, s.phase t = .inside c l → new ++ l.left = (printed c).left ∧
          l.ends = (printed c).ends := by
  obtain ⟨rfl, hends⟩ := printing_performed h.performed
  refine ⟨hends, ?_⟩
  by_cases hlock : s.lock = true
  · obtain ⟨t, c, l, ht⟩ := h.held.mp hlock
    obtain ⟨new, hnew, hleft⟩ := printing_leads (h.leads t c l ht)
    refine ⟨new, hnew, fun hfree => absurd (hlock.symm.trans hfree) (by simp), h.held.mp, ?_⟩
    intro u d k hu
    obtain rfl := h.exclusive t u c d l k ht hu
    cases ht.symm.trans hu
    exact hleft
  · have hfree : s.lock = false := by simpa using hlock
    refine ⟨[], by rw [h.free hfree, List.append_nil], fun _ => rfl, h.held.mp, ?_⟩
    intro t c l ht
    exact absurd ht (h.not_inside hfree t c l)

variable [DecidableEq τ]

theorem printing_shared {s s' : Locked τ γ (PrintPoint β) (List β)} {act : LockAct τ γ}
    (h : lockStep (printing printed) s act = some s') : s.shared <+: s'.shared := by
  cases lockStep_move h with
  | call | spin | acquire | release => exact List.prefix_refl _
  | @work t c l l' shared _ hstep =>
      obtain ⟨new, hnew, -⟩ := printPointStep_cases hstep
      exact ⟨new, hnew.symm⟩

/-- A report that does not end keeps the lock. -/
theorem Sectioned.printing_stuck {s s' : Locked τ γ (PrintPoint β) (List β)} {act : LockAct τ γ}
    {t : τ} (h : Sectioned (printing printed) out s) (ht : s.phase t = .inside c l)
    (hends : l.ends = false) (hstep : lockStep (printing printed) s act = some s') :
    s'.returned = s.returned ∧ ∃ l, s'.phase t = .inside c l ∧ l.ends = false := by
  refine h.move_stuck (Q := fun l _ => l.ends = false) ?_ ?_ ht hends (lockStep_move hstep)
  · intro l out l' out' hl hwork
    obtain ⟨-, -, -, hsame⟩ := printPointStep_cases hwork
    exact hsame.trans hl
  · intro l out hl
    exact printPointStep_ne_none hl

end Misan
