import Mathlib.Data.List.Basic

/-!
# Texts that can be read back

Several texts one behind another can be read back when each shows where it ends, which may depend on
what can come behind it. A field made of some characters only ends in front of any other; a text
that has that property in front of texts of its own kind can be repeated.
-/

namespace Misan

variable {α β : Type}

/-- In front of a continuation in `R`, the text of a value in `A` shows the value and where the
continuation begins. -/
def Readable (A : α → Prop) (R : List β → Prop) (f : α → List β) : Prop :=
  ∀ ⦃a b r r'⦄, A a → A b → R r → R r' → f a ++ r = f b ++ r' → a = b ∧ r = r'

/-- The text does not begin with a character in `p`. -/
def StopsAt (p : β → Bool) (r : List β) : Prop := ∀ c ∈ r.head?, p c = false

theorem stopsAt_cons {p : β → Bool} {c : β} (r : List β) (hc : p c = false) :
    StopsAt p (c :: r) := by
  intro d hd
  cases hd
  exact hc

theorem takeWhile_append_of_stopsAt {p : β → Bool} {l r : List β} (hl : ∀ c ∈ l, p c = true)
    (hr : StopsAt p r) : (l ++ r).takeWhile p = l := by
  rw [List.takeWhile_append_of_pos hl]
  cases r with
  | nil => simp
  | cons c r => simp [hr c rfl]

/-- A field ends where a character comes that it has none of. -/
theorem readable_field {A : α → Prop} {f : α → List β} {p : β → Bool}
    (hp : ∀ a, A a → ∀ c ∈ f a, p c = true) (hf : ∀ a b, A a → A b → f a = f b → a = b) :
    Readable A (StopsAt p) f := by
  intro a b r r' ha hb hr hr' heq
  have hfield : f a = f b := by
    calc f a = (f a ++ r).takeWhile p := (takeWhile_append_of_stopsAt (hp a ha) hr).symm
      _ = (f b ++ r').takeWhile p := by rw [heq]
      _ = f b := takeWhile_append_of_stopsAt (hp b hb) hr'
  rw [hfield] at heq
  exact ⟨hf a b ha hb hfield, List.append_cancel_left heq⟩

/-- Texts one behind another are read back from the first one on, up to an end that is the beginning
of none of them. -/
theorem Readable.flatMap {A : α → Prop} {R E : List β → Prop} {f : α → List β}
    (h : Readable A R f) (hE : ∀ a r, A a → ¬ E (f a ++ r))
    (hR : ∀ (as : List α) r, (∀ a ∈ as, A a) → E r → R (as.flatMap f ++ r)) :
    Readable (fun as : List α => ∀ a ∈ as, A a) E (List.flatMap f) := by
  intro as bs r r' has hbs hr hr' heq
  induction as generalizing bs with
  | nil =>
      cases bs with
      | nil => exact ⟨rfl, heq⟩
      | cons b bs =>
          rw [List.flatMap_nil, List.nil_append, List.flatMap_cons, List.append_assoc] at heq
          exact absurd (heq ▸ hr) (hE b _ (hbs b (List.mem_cons_self ..)))
  | cons a as ih =>
      rw [List.forall_mem_cons] at has
      rw [List.flatMap_cons, List.append_assoc] at heq
      cases bs with
      | nil =>
          rw [List.flatMap_nil, List.nil_append] at heq
          exact absurd (heq ▸ hr') (hE a _ has.1)
      | cons b bs =>
          rw [List.forall_mem_cons] at hbs
          rw [List.flatMap_cons, List.append_assoc] at heq
          obtain ⟨rfl, hrest⟩ := h has.1 hbs.1 (hR as r has.2 hr) (hR bs r' hbs.2 hr') heq
          obtain ⟨rfl, hend⟩ := ih has.2 hbs.2 hrest
          exact ⟨rfl, hend⟩

end Misan
