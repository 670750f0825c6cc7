import Misan.Foundation.Runs
import Misan.Proof.LsanTable
import Misan.Proof.LsanReports

/-!
# Whether ignoring a block takes effect

The search of `__lsan_ignore_object` takes the first entry with the address, whatever its state. An
address that was given back and registered again has its old, freed entry in front, so the flag goes
there and the live block is reported as before.
-/

namespace Misan

open LsanCall

variable {s : LsanState} {c : LsanCall} {history before : List LsanCall} {addr size p : Addr}
  {stack : DrtStackTrace} {a : LsanAlloc} {entries : List LsanAlloc}

/-! ### The first match of a search -/

section UpdateFirst

variable {α : Type} {found keep : α → Bool} {update : α → α}

theorem updateFirst_append {l l' : List α} (hnone : ∀ a ∈ l, found a = false) :
    updateFirst found update (l ++ l') = l ++ updateFirst found update l' := by
  induction l with
  | nil => rfl
  | cons a rest ih =>
      rw [List.cons_append, updateFirst,
        if_neg (ne_true_of_eq_false (hnone a List.mem_cons_self)),
        ih fun b hb => hnone b (List.mem_cons_of_mem a hb), List.cons_append]

end UpdateFirst

/-! ### The entries of one address -/

/-- The entries of an address: freed ones and, if it is live, an active one at the end, which is not
ignored unless it is alone. -/
def EntriesOk (live : Bool) (entries : List LsanAlloc) : Prop :=
  if live then
    ∃ old a, entries = old ++ [a] ∧ (∀ b ∈ old, b.state = .freed) ∧ a.state = .active ∧
      (old ≠ [] → a.ignored = false)
  else ∀ b ∈ entries, b.state = .freed

theorem EntriesOk.register (h : EntriesOk false entries) (hactive : a.state = .active)
    (hignored : a.ignored = false) : EntriesOk true (entries ++ [a]) :=
  ⟨entries, a, rfl, h, hactive, fun _ => hignored⟩

theorem EntriesOk.unregister {live : Bool} (h : EntriesOk live entries)
    (haddr : ∀ b ∈ entries, b.addr = p) :
    EntriesOk false (updateFirst (fun a => a.addr == p && a.state == .active)
      (fun a => { a with state := .freed }) entries) := by
  have hskip : ∀ {l : List LsanAlloc}, (∀ b ∈ l, b.state = .freed) →
      ∀ b ∈ l, (b.addr == p && b.state == .active) = false := by
    intro l hl b hb
    rw [hl b hb]
    exact Bool.and_false _
  cases live with
  | false =>
      rw [updateFirst_of_none (hskip h)]
      exact h
  | true =>
      obtain ⟨old, a, rfl, hold, hactive, -⟩ := h
      rw [updateFirst_append (hskip hold), updateFirst, if_pos]
      · intro b hb
        rcases List.mem_append.mp hb with hb | hb
        · exact hold b hb
        · rw [List.mem_singleton.mp hb]
      · rw [hactive, haddr a (List.mem_append_right _ (List.mem_singleton.mpr rfl))]
        exact (Bool.and_eq_true _ _).mpr ⟨beq_self_eq_true p, rfl⟩

theorem LsanCall.RegistersFresh.of_suffix (h : RegistersFresh history)
    (hsuffix : before <:+ history) : RegistersFresh before :=
  fun addr size stack b hb => h addr size stack b (hb.trans hsuffix)

theorem LsanCall.registersFresh_cons :
    RegistersFresh (c :: before) ↔
      (∀ addr size stack, c = .registerAlloc addr size stack → live addr before = false) ∧
        RegistersFresh before := by
  constructor
  · intro h
    refine ⟨fun addr size stack heq => ?_, h.of_suffix (List.suffix_cons c before)⟩
    exact h addr size stack before (by rw [heq])
  · rintro ⟨hhead, htail⟩ addr size stack b hsuffix
    rcases List.suffix_cons_iff.mp hsuffix with heq | hsuffix
    · cases heq
      exact hhead addr size stack rfl
    · exact htail addr size stack b hsuffix

theorem LsanCall.registersFresh_nil : RegistersFresh [] := by
  intro addr size stack b hsuffix
  exact absurd (List.suffix_nil.mp hsuffix) (List.cons_ne_nil _ _)

end Misan
