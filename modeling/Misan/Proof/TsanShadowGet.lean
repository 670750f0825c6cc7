import Misan.Proof.TsanStep
import Mathlib.Data.Set.Card

/-!
# The shadow table under allocation

Every `tsan_shadow_get(addr, 1)` probes for the address or a hole, and entries are never given back.
So the probing invariant of the library holds after any sequence of such calls, up to a table with
no hole left.
-/

namespace Misan

open Function

variable {table table' : TsanShadowTable} {addr addr' : Addr} {idx : Fin 65536}

/-- The table after `tsan_shadow_get(addr, 1)` for each of the addresses, the latest first. -/
def tsanShadowGets : List Addr → TsanShadowTable
  | [] => fun _ => ⟨0, 0, 0, false, false⟩
  | addr :: before =>
      match tsanShadowGet (tsanShadowGets before) addr true with
      | some (_, table) => table
      | none => tsanShadowGets before

/-- The test of the probing loop: the entry of the address, or a hole. -/
def tsanShadowStop (table : TsanShadowTable) (addr : Addr) (idx : Fin 65536) : Bool :=
  ((table idx).active && (table idx).addr == addr) || !(table idx).active

theorem tsanShadowStop_eq (table : TsanShadowTable) (addr : Addr) :
    tsanShadowStop table addr = keyOrHole (shadowKeys table) addr := by
  funext idx
  rw [tsanShadowStop, keyOrHole, shadowKeys]
  cases (table idx).active <;> simp

theorem tsanShadowGet_eq_some_iff :
    tsanShadowGet table addr true = some (idx, table') ↔ shadowSlot table addr = some idx ∧
      table' = update table idx { table idx with addr := addr, active := true } := by
  rw [tsanShadowGet_eq, Option.map_eq_some_iff]
  constructor
  · rintro ⟨idx', hslot, heq⟩
    cases heq
    exact ⟨hslot, rfl⟩
  · rintro ⟨hslot, rfl⟩
    exact ⟨idx, hslot, rfl⟩

theorem shadowKeys_entered :
    shadowKeys (update table idx { table idx with addr := addr, active := true })
      = update (shadowKeys table) idx (some addr) := by
  funext j
  rw [shadowKeys]
  by_cases hj : j = idx
  · subst hj
    rw [update_self, update_self]
    rfl
  · rw [update_of_ne hj, update_of_ne hj, shadowKeys]

theorem placed_tsanShadowGets (calls : List Addr) :
    Placed tsanShadowHash (shadowKeys (tsanShadowGets calls)) := by
  induction calls with
  | nil => exact placed_empty _
  | cons addr before ih =>
      rw [tsanShadowGets]
      cases hget : tsanShadowGet (tsanShadowGets before) addr true with
      | none => exact ih
      | some entry =>
          obtain ⟨idx, table⟩ := entry
          obtain ⟨hslot, rfl⟩ := tsanShadowGet_eq_some_iff.mp hget
          dsimp only
          rw [shadowKeys_entered]
          exact ih.insert hslot

theorem shadowKeys_tsanShadowGets_append (later : List Addr) {calls : List Addr}
    (hkey : shadowKeys (tsanShadowGets calls) idx = some addr) :
    shadowKeys (tsanShadowGets (later ++ calls)) idx = some addr := by
  induction later with
  | nil => exact hkey
  | cons addr' later ih =>
      rw [List.cons_append, tsanShadowGets]
      cases hget : tsanShadowGet (tsanShadowGets (later ++ calls)) addr' true with
      | none => exact ih
      | some entry =>
          obtain ⟨idx', table⟩ := entry
          obtain ⟨hslot, rfl⟩ := tsanShadowGet_eq_some_iff.mp hget
          dsimp only
          rw [shadowKeys_entered]
          by_cases hidx : idx = idx'
          · subst hidx
            rcases (placed_tsanShadowGets (later ++ calls)).probe_cases hslot with hsame | hhole
            · rw [update_self, ← hsame, ih]
            · rw [ih] at hhole
              cases hhole.1
          · rw [update_of_ne hidx, ih]

/-- What a call for `addr` returns, and what it returns for good. -/
structure ShadowGetOk (calls : List Addr) (addr : Addr) (idx : Fin 65536)
    (table : TsanShadowTable) : Prop where
  active : (table idx).active = true
  addr_eq : (table idx).addr = addr
  frame : ∀ j, (tsanShadowGets calls j).active = true → (tsanShadowGets calls j).addr ≠ addr →
    table j = tsanShadowGets calls j
  same : ∀ later, ∃ table',
    tsanShadowGet (tsanShadowGets (later ++ addr :: calls)) addr true = some (idx, table')
  distinct : ∀ later addr' idx' table', addr' ≠ addr →
    tsanShadowGet (tsanShadowGets (later ++ addr :: calls)) addr' true = some (idx', table') →
      idx' ≠ idx

theorem shadowGetOk {calls : List Addr}
    (hget : tsanShadowGet (tsanShadowGets calls) addr true = some (idx, table)) :
    ShadowGetOk calls addr idx table := by
  obtain ⟨hslot, rfl⟩ := tsanShadowGet_eq_some_iff.mp hget
  have hkey : ∀ later, shadowKeys (tsanShadowGets (later ++ addr :: calls)) idx = some addr := by
    intro later
    apply shadowKeys_tsanShadowGets_append
    rw [tsanShadowGets, hget]
    dsimp only
    rw [shadowKeys_entered, update_self]
  refine ⟨?_, ?_, fun j hactive hne => ?_, fun later => ?_, ?_⟩
  · rw [update_self]
  · rw [update_self]
  · apply update_of_ne
    rintro rfl
    rcases (placed_tsanShadowGets calls).probe_cases hslot with hsame | hhole
    · exact hne (shadowKeys_eq_some.mp hsame).2
    · rw [shadowKeys, if_pos hactive] at hhole
      cases hhole.1
  · exact ⟨_, tsanShadowGet_eq_some_iff.mpr
      ⟨placed_tsanShadowGets _ idx addr (hkey later), rfl⟩⟩
  · intro later addr' idx' table' hne hget'
    obtain ⟨hslot', -⟩ := tsanShadowGet_eq_some_iff.mp hget'
    rintro rfl
    rcases (placed_tsanShadowGets _).probe_cases hslot' with hsame | hhole
    · exact hne (Option.some.inj (hsame.symm.trans (hkey later)))
    · rw [hkey later] at hhole
      cases hhole.1

/-- **The shadow table.** After any sequence of calls, a call that returns an entry returns that of
its address, the same for good and no other address's, and touches no entry of another address. It
returns none exactly when the address has no entry and 65536 others do, and its loop ends within
65536 steps. -/
theorem tsanShadowGet_correct (calls : List Addr) (addr : Addr) :
    (∀ idx table, tsanShadowGet (tsanShadowGets calls) addr true = some (idx, table) →
      ShadowGetOk calls addr idx table) ∧
    (tsanShadowGet (tsanShadowGets calls) addr true = none ↔
      (∀ j, shadowKeys (tsanShadowGets calls) j ≠ some addr) ∧
        {other | other ≠ addr ∧
          ∃ j, shadowKeys (tsanShadowGets calls) j = some other}.ncard = 65536) ∧
    ∃ steps ≤ 65536, ProbeRun (tsanShadowStop (tsanShadowGets calls) addr)
      (tsanShadowHash addr) (tsanShadowHash addr) steps
      ((tsanShadowGet (tsanShadowGets calls) addr true).map Prod.fst) := by
  refine ⟨fun idx table hget => shadowGetOk hget, ?_, ?_⟩
  · rw [tsanShadowGet_eq, Option.map_eq_none_iff, shadowSlot,
      (placed_tsanShadowGets calls).probe_eq_none_iff]
  · obtain ⟨steps, hsteps, hrun⟩ := probe_run
      (keyOrHole (shadowKeys (tsanShadowGets calls)) addr) (tsanShadowHash addr)
    refine ⟨steps, hsteps, ?_⟩
    rw [tsanShadowStop_eq, tsanShadowGet_eq, Option.map_map]
    change ProbeRun _ _ _ _ ((shadowSlot _ _).map fun idx => idx)
    rw [Option.map_id', shadowSlot]
    exact hrun

end Misan
