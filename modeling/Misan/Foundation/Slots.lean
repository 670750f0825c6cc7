import Mathlib.Logic.Function.Basic

/-!
# Slots guarded by flags

Owners take slots out of a pool in which every slot has a flag, raised while the slot is taken. A
slot is only taken with its flag down, and the flag is only lowered by the owner, so no slot ever
has two of them.
-/

namespace Misan

variable {α β ι : Type} {slot : β → ι} {flag : ι → Bool} {uses : α → Option β}

/-- The flag of every slot in use is raised, and the slot has one owner. -/
structure Guarded (slot : β → ι) (flag : ι → Bool) (uses : α → Option β) : Prop where
  raised : ∀ a u, uses a = some u → flag (slot u) = true
  exclusive : ∀ a b u v, uses a = some u → uses b = some v → slot u = slot v → a = b

section Update

variable [DecidableEq α] {a b : α} {u v : β}

theorem update_some_eq_some :
    Function.update uses a (some u) b = some v ↔ b = a ∧ v = u ∨ b ≠ a ∧ uses b = some v := by
  by_cases hb : b = a
  · subst hb
    simp [eq_comm]
  · simp [hb]

theorem update_none_eq_some :
    Function.update uses a none b = some v ↔ b ≠ a ∧ uses b = some v := by
  by_cases hb : b = a
  · subst hb
    simp
  · simp [hb]

end Update

namespace Guarded

theorem empty (slot : β → ι) (flag : ι → Bool) : Guarded slot flag fun _ : α => none where
  raised a u hu := by cases hu
  exclusive a b u v hu := by cases hu

variable {a : α} {u : β}

theorem slot_ne (h : Guarded slot flag uses) (hdown : flag (slot u) = false) {b : α} {v : β}
    (hv : uses b = some v) : slot v ≠ slot u := by
  intro heq
  have hup := h.raised b v hv
  rw [heq, hdown] at hup
  cases hup

variable [DecidableEq α] [DecidableEq ι]

theorem claim (h : Guarded slot flag uses) (hdown : flag (slot u) = false) :
    Guarded slot (Function.update flag (slot u) true) (Function.update uses a (some u)) where
  raised b v hv := by
    obtain ⟨-, rfl⟩ | ⟨-, hv⟩ := update_some_eq_some.mp hv
    · exact Function.update_self ..
    · rw [Function.update_of_ne (h.slot_ne hdown hv)]
      exact h.raised b v hv
  exclusive b c v w hv hw hslot := by
    obtain ⟨rfl, rfl⟩ | ⟨-, hvold⟩ := update_some_eq_some.mp hv
    · obtain ⟨rfl, -⟩ | ⟨-, hwold⟩ := update_some_eq_some.mp hw
      · rfl
      · exact absurd hslot.symm (h.slot_ne hdown hwold)
    · obtain ⟨-, rfl⟩ | ⟨-, hwold⟩ := update_some_eq_some.mp hw
      · exact absurd hslot (h.slot_ne hdown hvold)
      · exact h.exclusive b c v w hvold hwold hslot

theorem release (h : Guarded slot flag uses) (hu : uses a = some u) :
    Guarded slot (Function.update flag (slot u) false) (Function.update uses a none) where
  raised b v hv := by
    obtain ⟨hb, hv⟩ := update_none_eq_some.mp hv
    have hslot : slot v ≠ slot u := fun heq => hb (h.exclusive b a v u hv hu heq)
    rw [Function.update_of_ne hslot]
    exact h.raised b v hv
  exclusive b c v w hv hw hslot := by
    obtain ⟨-, hv⟩ := update_none_eq_some.mp hv
    obtain ⟨-, hw⟩ := update_none_eq_some.mp hw
    exact h.exclusive b c v w hv hw hslot

end Guarded

end Misan
