import Mathlib.Data.BitVec
import Mathlib.Data.Set.Basic
import Mathlib.Logic.Function.Basic

/-!
# Byte memory

A flat memory of bytes under `w`-bit addresses, and the loops a runtime fills it with: one runs a
pointer up to an end pointer, the others count elements from a base pointer. The end pointer may
have wrapped around and the base pointer may wrap on the way, so neither is a range of naturals; the
lemmas here say exactly which bytes each loop touches.
-/

namespace Misan

abbrev ByteMemory (w : Nat) := BitVec w → BitVec 8

namespace ByteMemory

variable {w : Nat}

/-- `*a = v`. -/
def store (m : ByteMemory w) (a : BitVec w) (v : BitVec 8) : ByteMemory w :=
  Function.update m a v

theorem store_of_ne (m : ByteMemory w) {a x : BitVec w} (v : BitVec 8) (hne : x ≠ a) :
    m.store a v x = m x := by
  simp [store, hne]

theorem store_apply (m : ByteMemory w) (a x : BitVec w) (v : BitVec 8) :
    m.store a v x = if x = a then v else m x := by
  by_cases heq : x = a <;> simp [store, heq]

/-- The addresses an operation stores to: those at which it leaves some memory changed. -/
def writes (op : ByteMemory w → ByteMemory w) : Set (BitVec w) := {x | ∃ m, op m x ≠ m x}

/-- What an operation writes can be read off its result, since some memory held another value. -/
theorem writes_eq {op : ByteMemory w → ByteMemory w} {s : Set (BitVec w)} [DecidablePred (· ∈ s)]
    {v : BitVec w → BitVec 8} (hop : ∀ m x, op m x = if x ∈ s then v x else m x) :
    writes op = s := by
  ext x
  constructor
  · rintro ⟨m, hne⟩
    by_contra hout
    rw [hop, if_neg hout] at hne
    exact hne rfl
  · intro hin
    have hflip : ∀ b : BitVec 8, b ≠ ~~~b := by decide
    refine ⟨fun x => ~~~v x, ?_⟩
    rw [hop, if_pos hin]
    exact hflip (v x)

/-! ### A pointer run up to an end pointer -/

theorem toNat_add_one_of_lt {a b : BitVec w} (hlt : a < b) : (a + 1).toNat = a.toNat + 1 := by
  have hb := b.isLt
  have hab : a.toNat < b.toNat := hlt
  rw [BitVec.toNat_add, show (1 : BitVec w) = BitVec.ofNat w 1 from rfl, BitVec.toNat_ofNat,
    Nat.add_mod_mod, Nat.mod_eq_of_lt (by omega)]

/-- `for (s = a; s < b; s++) *s = v;` -/
def fillUpTo (m : ByteMemory w) (a b : BitVec w) (v : BitVec 8) : ByteMemory w :=
  if a < b then fillUpTo (m.store a v) (a + 1) b v else m
termination_by b.toNat - a.toNat
decreasing_by
  rename_i hlt
  have hstep := toNat_add_one_of_lt hlt
  have hab : a.toNat < b.toNat := hlt
  omega

/-- The pointer loop writes the bytes from `a` up to `b`, and no byte at all once `b` has wrapped
below `a`. -/
theorem fillUpTo_apply (m : ByteMemory w) (a b x : BitVec w) (v : BitVec 8) :
    m.fillUpTo a b v x = if a ≤ x ∧ x < b then v else m x := by
  induction m, a using fillUpTo.induct b v with
  | case1 m a hlt ih =>
      have hstep := toNat_add_one_of_lt hlt
      have hab : a.toNat < b.toNat := hlt
      rw [fillUpTo, if_pos hlt, ih, store_apply]
      simp only [BitVec.le_def, BitVec.lt_def, hstep, ← BitVec.toNat_inj]
      split_ifs <;> first | rfl | omega
  | case2 m a hge =>
      rw [fillUpTo, if_neg hge, if_neg]
      rintro ⟨hax, hxb⟩
      exact hge (BitVec.lt_def.mpr (Nat.lt_of_le_of_lt hax hxb))

/-! ### Stores one after another -/

/-- What a list of stores leaves, the first one made first. -/
def storeAll (m : ByteMemory w) : List (BitVec w × BitVec 8) → ByteMemory w
  | [] => m
  | st :: stores => storeAll (m.store st.1 st.2) stores

theorem storeAll_append (m : ByteMemory w) (stores more : List (BitVec w × BitVec 8)) :
    m.storeAll (stores ++ more) = (m.storeAll stores).storeAll more := by
  induction stores generalizing m with
  | nil => rfl
  | cons st stores ih => exact ih _

/-- A byte comes out of the stores as it does from any other memory that agrees on it. -/
theorem storeAll_congr {m m' : ByteMemory w} {x : BitVec w} (heq : m x = m' x)
    (stores : List (BitVec w × BitVec 8)) : m.storeAll stores x = m'.storeAll stores x := by
  induction stores generalizing m m' with
  | nil => exact heq
  | cons st stores ih =>
      apply ih
      rw [store_apply, store_apply, heq]

def pointerStores (a b : BitVec w) (v : BitVec 8) : List (BitVec w × BitVec 8) :=
  if a < b then (a, v) :: pointerStores (a + 1) b v else []
termination_by b.toNat - a.toNat
decreasing_by
  rename_i hlt
  have hstep := toNat_add_one_of_lt hlt
  have hab : a.toNat < b.toNat := hlt
  omega

theorem storeAll_pointerStores (m : ByteMemory w) (a b : BitVec w) (v : BitVec 8) :
    m.storeAll (pointerStores a b v) = m.fillUpTo a b v := by
  induction m, a using fillUpTo.induct b v with
  | case1 m a hlt ih =>
      rw [pointerStores, if_pos hlt, fillUpTo, if_pos hlt]
      exact ih
  | case2 m a hge =>
      rw [pointerStores, if_neg hge, fillUpTo, if_neg hge]
      rfl

theorem le_and_lt_of_mem_pointerStores {a b : BitVec w} {v : BitVec 8}
    {st : BitVec w × BitVec 8} (hst : st ∈ pointerStores a b v) : a ≤ st.1 ∧ st.1 < b := by
  induction a using pointerStores.induct b with
  | case1 a hlt ih =>
      rw [pointerStores, if_pos hlt] at hst
      rcases List.mem_cons.mp hst with rfl | hst
      · exact ⟨BitVec.le_refl a, hlt⟩
      · obtain ⟨hle, hlt'⟩ := ih hst
        have hstep := toNat_add_one_of_lt hlt
        refine ⟨?_, hlt'⟩
        rw [BitVec.le_def] at hle ⊢
        omega
  | case2 a hge =>
      rw [pointerStores, if_neg hge] at hst
      cases hst

/-! ### Elements counted from a base pointer -/

/-- `for (i = 0; i < n; i++) p[i] = f(i);` -/
def storeEach (m : ByteMemory w) (p : BitVec w) (f : Nat → BitVec 8) : Nat → ByteMemory w
  | 0 => m
  | n + 1 => (storeEach m p f n).store (p + BitVec.ofNat w n) (f n)

theorem storeEach_of_forall_ne (m : ByteMemory w) (p x : BitVec w) (f : Nat → BitVec 8) (n : Nat)
    (hne : ∀ i < n, x ≠ p + BitVec.ofNat w i) : m.storeEach p f n x = m x := by
  induction n with
  | zero => rfl
  | succ n ih =>
      rw [storeEach, store_of_ne _ _ (hne n (Nat.lt_succ_self n))]
      exact ih fun i hi => hne i (Nat.lt_succ_of_lt hi)

/-- Below the size of the address space, an offset can be read off the address. -/
theorem add_ofNat_inj {p : BitVec w} {i j : Nat} (hi : i < 2 ^ w) (hj : j < 2 ^ w) :
    p + BitVec.ofNat w i = p + BitVec.ofNat w j ↔ i = j := by
  rw [BitVec.add_right_inj]
  constructor
  · intro heq
    have := congrArg BitVec.toNat heq
    rwa [BitVec.toNat_ofNat, BitVec.toNat_ofNat, Nat.mod_eq_of_lt hi, Nat.mod_eq_of_lt hj] at this
  · exact congrArg _

/-- As long as the elements do not overrun the whole address space, each keeps its own byte. -/
theorem storeEach_apply_add (m : ByteMemory w) (p : BitVec w) (f : Nat → BitVec 8) {n i : Nat}
    (hn : n ≤ 2 ^ w) (hi : i < n) : m.storeEach p f n (p + BitVec.ofNat w i) = f i := by
  induction n with
  | zero => omega
  | succ n ih =>
      rw [storeEach, store_apply]
      by_cases hlast : i = n
      · rw [if_pos (by rw [hlast]), hlast]
      · rw [if_neg, ih (by omega) (by omega)]
        rw [add_ofNat_inj (by omega) (by omega)]
        exact hlast

/-- `for (i = 0; i < n; i++) p[i] = v;` over bytes. -/
abbrev fillBytes (m : ByteMemory w) (p : BitVec w) (v : BitVec 8) (n : Nat) : ByteMemory w :=
  m.storeEach p (fun _ => v) n

theorem fillBytes_apply (m : ByteMemory w) (p x : BitVec w) (v : BitVec 8) (n : Nat) :
    m.fillBytes p v n x = if (∃ i < n, x = p + BitVec.ofNat w i) then v else m x := by
  induction n with
  | zero => simp [storeEach]
  | succ n ih =>
      rw [fillBytes, storeEach, store_apply]
      by_cases hlast : x = p + BitVec.ofNat w n
      · rw [if_pos hlast, if_pos ⟨n, Nat.lt_succ_self n, hlast⟩]
      · rw [if_neg hlast]
        refine ih.trans (if_congr ⟨?_, ?_⟩ rfl rfl)
        · rintro ⟨i, hi, hx⟩
          exact ⟨i, Nat.lt_succ_of_lt hi, hx⟩
        · rintro ⟨i, hi, hx⟩
          have hne : i ≠ n := fun heq => hlast (heq ▸ hx)
          exact ⟨i, by omega, hx⟩

/-- One element more makes no difference exactly when its byte held the value already. -/
theorem fillBytes_succ_eq_iff (m : ByteMemory w) (p : BitVec w) (v : BitVec 8) {n : Nat}
    (hn : n < 2 ^ w) :
    m.fillBytes p v n = m.fillBytes p v (n + 1) ↔ m (p + BitVec.ofNat w n) = v := by
  have hout : m.fillBytes p v n (p + BitVec.ofNat w n) = m (p + BitVec.ofNat w n) := by
    apply storeEach_of_forall_ne
    intro i hi
    rw [Ne, add_ofNat_inj hn (by omega)]
    omega
  constructor
  · intro heq
    rw [← hout, heq, fillBytes, storeEach, store_apply, if_pos rfl]
  · intro hval
    have hsame := Function.update_eq_self (p + BitVec.ofNat w n) (m.fillBytes p v n)
    rw [hout, hval] at hsame
    exact hsame.symm

/-- The pointer loop over a range that does not wrap is the counting loop over its length. -/
theorem fillUpTo_eq_fillBytes (m : ByteMemory w) {a b : BitVec w} (v : BitVec 8) {n : Nat}
    (hend : b.toNat = a.toNat + n) : m.fillUpTo a b v = m.fillBytes a v n := by
  have hb := b.isLt
  funext x
  rw [fillUpTo_apply, fillBytes_apply]
  apply if_congr _ rfl rfl
  rw [BitVec.le_def, BitVec.lt_def]
  constructor
  · rintro ⟨hlow, hhigh⟩
    refine ⟨x.toNat - a.toNat, by omega, ?_⟩
    apply BitVec.eq_of_toNat_eq
    rw [BitVec.toNat_add, BitVec.toNat_ofNat, Nat.add_mod_mod, Nat.mod_eq_of_lt (by omega)]
    omega
  · rintro ⟨i, hi, rfl⟩
    rw [BitVec.toNat_add, BitVec.toNat_ofNat, Nat.add_mod_mod, Nat.mod_eq_of_lt (by omega)]
    omega

/-! ### Words -/

/-- The byte of weight `2 ^ (8 * j)` of a word. -/
def wordByte {k : Nat} (v : BitVec k) (j : Nat) : BitVec 8 := v.extractLsb' (8 * j) 8

def store32 (m : ByteMemory w) (p : BitVec w) (v : BitVec 32) : ByteMemory w :=
  m.storeEach p (wordByte v) 4

def load32 (m : ByteMemory w) (p : BitVec w) : BitVec 32 :=
  m (p + 3) ++ m (p + 2) ++ m (p + 1) ++ m p

def load64 (m : ByteMemory w) (p : BitVec w) : BitVec 64 :=
  m.load32 (p + 4) ++ m.load32 p

/-- `for (i = 0; i < n; i++) p[i] = v;` over 32-bit words. -/
def fillWords (m : ByteMemory w) (p : BitVec w) (v : BitVec 32) : Nat → ByteMemory w
  | 0 => m
  | n + 1 => (fillWords m p v n).store32 (p + BitVec.ofNat w (4 * n)) v

theorem fillWords_of_forall_ne (m : ByteMemory w) (p x : BitVec w) (v : BitVec 32) (n : Nat)
    (hne : ∀ i < n, ∀ j < 4, x ≠ p + BitVec.ofNat w (4 * i) + BitVec.ofNat w j) :
    m.fillWords p v n x = m x := by
  induction n with
  | zero => rfl
  | succ n ih =>
      rw [fillWords, store32, storeEach_of_forall_ne _ _ _ _ _ (hne n (Nat.lt_succ_self n))]
      exact ih fun i hi => hne i (Nat.lt_succ_of_lt hi)

theorem fillWords_apply_add (m : ByteMemory w) (p : BitVec w) (v : BitVec 32) {n i j : Nat}
    (hn : 4 * n ≤ 2 ^ w) (hi : i < n) (hj : j < 4) :
    m.fillWords p v n (p + BitVec.ofNat w (4 * i) + BitVec.ofNat w j) = wordByte v j := by
  induction n with
  | zero => omega
  | succ n ih =>
      rw [fillWords, store32]
      by_cases hlast : i = n
      · rw [hlast, storeEach_apply_add _ _ _ (by omega) hj]
      · rw [storeEach_of_forall_ne, ih (by omega) (by omega)]
        intro k hk
        rw [BitVec.add_assoc, BitVec.add_assoc, ← BitVec.ofNat_add, ← BitVec.ofNat_add, Ne,
          add_ofNat_inj (by omega) (by omega)]
        omega

end ByteMemory

end Misan
