import Misan.Proof.TsanClocks

/-!
# The shadow table remembers the latest access

The entry of an address names the thread and the direction of the latest access to it. As long as
the addresses accessed fit in the table, an address without an entry has not been accessed.
-/

namespace Misan

open Function

variable {Thr : Type} [DecidableEq Thr] {s s' s₁ : TsanState Thr} {c : TsanCall Thr}
  {history : List (TsanCall Thr)} {thr : Thr} {tid : Tid} {addr : Addr} {w : Bool}

/-! ### Accesses of a history -/

section

omit [DecidableEq Thr]

theorem lastAccess_cons_self (haccess : c.access? = some (thr, addr, w)) :
    lastAccess addr (c :: history) = some (thr, w) := by
  simp [lastAccess, haccess]

theorem lastAccess_cons_of_ne {addr' : Addr} (haccess : c.access? = some (thr, addr', w))
    (hne : addr' ≠ addr) : lastAccess addr (c :: history) = lastAccess addr history := by
  simp [lastAccess, haccess, hne]

theorem lastAccess_cons_of_none (haccess : c.access? = none) :
    lastAccess addr (c :: history) = lastAccess addr history := by
  simp [lastAccess, haccess]

theorem exists_of_lastAccess (hlast : lastAccess addr history = some (thr, w)) :
    ∃ c before, c :: before <:+ history ∧ c.access? = some (thr, addr, w) := by
  induction history with
  | nil => cases hlast
  | cons c history ih =>
      have htail : lastAccess addr history = some (thr, w) →
          ∃ d before, d :: before <:+ c :: history ∧ d.access? = some (thr, addr, w) := by
        intro hlast
        obtain ⟨d, before, hsuffix, haccess⟩ := ih hlast
        exact ⟨d, before, hsuffix.trans (List.suffix_cons c history), haccess⟩
      cases haccess : c.access? with
      | none =>
          rw [lastAccess_cons_of_none haccess] at hlast
          exact htail hlast
      | some a =>
          obtain ⟨thr', addr', w'⟩ := a
          by_cases haddr : addr' = addr
          · subst haddr
            rw [lastAccess_cons_self haccess] at hlast
            cases hlast
            exact ⟨c, history, List.suffix_refl _, haccess⟩
          · rw [lastAccess_cons_of_ne haccess haddr] at hlast
            exact htail hlast

theorem accessedAddrs_cons (c : TsanCall Thr) (history : List (TsanCall Thr)) :
    accessedAddrs history ⊆ accessedAddrs (c :: history) := by
  intro addr haddr
  rw [accessedAddrs, List.mem_toFinset] at haddr ⊢
  exact (List.Sublist.filterMap _ (List.sublist_cons_self c history)).subset haddr

theorem mem_accessedAddrs_cons (history : List (TsanCall Thr))
    (haccess : c.access? = some (thr, addr, w)) : addr ∈ accessedAddrs (c :: history) := by
  rw [accessedAddrs, List.mem_toFinset, List.mem_filterMap]
  exact ⟨c, List.mem_cons_self .., by rw [haccess]; rfl⟩

theorem mem_accessedAddrs_of_lastAccess (hlast : lastAccess addr history ≠ none) :
    addr ∈ accessedAddrs history := by
  induction history with
  | nil => exact (hlast rfl).elim
  | cons c history ih =>
      cases haccess : c.access? with
      | none =>
          rw [lastAccess_cons_of_none haccess] at hlast
          exact accessedAddrs_cons c history (ih hlast)
      | some a =>
          obtain ⟨thr, addr', w⟩ := a
          by_cases haddr : addr' = addr
          · subst haddr
            exact mem_accessedAddrs_cons history haccess
          · rw [lastAccess_cons_of_ne haccess haddr] at hlast
            exact accessedAddrs_cons c history (ih hlast)

theorem lastAccess_ne_none_iff : lastAccess addr history ≠ none ↔ addr ∈ accessedAddrs history := by
  refine ⟨mem_accessedAddrs_of_lastAccess, fun hmem => ?_⟩
  rw [accessedAddrs, List.mem_toFinset, List.mem_filterMap] at hmem
  obtain ⟨c, hc, haddr⟩ := hmem
  obtain ⟨⟨thr, addr', w⟩, haccess, rfl⟩ := Option.map_eq_some_iff.mp haddr
  induction history with
  | nil => cases hc
  | cons d history ih =>
      cases hd : d.access? with
      | none =>
          rw [lastAccess_cons_of_none hd]
          refine ih ((List.mem_cons.mp hc).resolve_left ?_)
          rintro rfl
          cases hd.symm.trans haccess
      | some a =>
          obtain ⟨thr₁, addr₁, w₁⟩ := a
          by_cases hsame : addr₁ = addr'
          · rw [hsame] at hd
            rw [lastAccess_cons_self hd]
            exact Option.some_ne_none _
          · rw [lastAccess_cons_of_ne hd hsame]
            refine ih ((List.mem_cons.mp hc).resolve_left ?_)
            rintro rfl
            cases hd.symm.trans haccess
            exact hsame rfl

theorem ShadowFits.tail (hfit : ShadowFits (c :: history)) : ShadowFits history :=
  le_trans (Finset.card_le_card (accessedAddrs_cons c history)) hfit

theorem ShadowFits.suffix {before : List (TsanCall Thr)} (hfit : ShadowFits history)
    (hsuffix : before <:+ history) : ShadowFits before := by
  induction history with
  | nil =>
      rw [List.suffix_nil.mp hsuffix]
      exact hfit
  | cons c history ih =>
      rcases List.suffix_cons_iff.mp hsuffix with rfl | htail
      · exact hfit
      · exact ih hfit.tail htail

end

/-! ### The table -/

/-- An entry in use names the latest access to its address, and a hole names nobody. -/
structure ShadowTracks (history : List (TsanCall Thr)) (s : TsanState Thr) : Prop where
  placed : Placed tsanShadowHash (shadowKeys s.shadow)
  entry : ∀ {idx addr}, shadowKeys s.shadow idx = some addr →
    ∃ thr, lastAccess addr history = some (thr, (s.shadow idx).isWrite) ∧
      s.currentTid thr = some (s.shadow idx).tid
  hole : ∀ {idx}, shadowKeys s.shadow idx = none → (s.shadow idx).tid = 0

omit [DecidableEq Thr] in
theorem shadowTracks_initial : ShadowTracks [] (TsanState.initial Thr) where
  placed := placed_empty _
  entry h := by cases h
  hole _ := rfl

theorem ShadowTracks.enters (h : ShadowTracks history s) (henters : TsanEnters s c s₁) :
    ShadowTracks history s₁ := by
  have hshadow := henters.shadow
  refine ⟨hshadow ▸ h.placed, fun {idx addr} hkey => ?_, fun hkey => ?_⟩
  · rw [hshadow] at hkey ⊢
    obtain ⟨thr, hlast, hthr⟩ := h.entry hkey
    exact ⟨thr, hlast, henters.currentTid_mono hthr⟩
  · rw [hshadow] at hkey ⊢
    exact h.hole hkey

section

omit [DecidableEq Thr]

theorem ShadowTracks.exists_slot (h : ShadowTracks history s)
    (hfit : ShadowFits (c :: history)) (haccess : c.access? = some (thr, addr, w)) :
    ∃ idx, shadowSlot s.shadow addr = some idx := by
  cases hslot : shadowSlot s.shadow addr with
  | some idx => exact ⟨idx, rfl⟩
  | none =>
      have hlt := h.placed.card_lt hslot (mem_accessedAddrs_cons history haccess)
        fun idx addr' hkey => by
          obtain ⟨thr', hlast, -⟩ := h.entry hkey
          exact accessedAddrs_cons c history
            (mem_accessedAddrs_of_lastAccess (by rw [hlast]; exact Option.some_ne_none _))
      exact absurd hfit (Nat.not_le.mpr hlt)

theorem shadowKeys_recorded (s : TsanState Thr) (addr : Addr) (idx : Fin 65536) (tid : Tid)
    (w : Bool) : shadowKeys (s.recorded addr idx tid w).shadow
      = update (shadowKeys s.shadow) idx (some addr) := by
  funext idx'
  rw [shadowKeys]
  by_cases hidx : idx' = idx
  · subst hidx
    rw [TsanState.recorded_shadow_self, update_self]
    rfl
  · rw [TsanState.recorded_shadow_of_ne hidx, update_of_ne hidx, shadowKeys]

theorem ne_slot_of_key (hplaced : Placed tsanShadowHash (shadowKeys s.shadow)) {addr' : Addr}
    {idx idx' : Fin 65536} (hslot : shadowSlot s.shadow addr = some idx) (hne : addr ≠ addr')
    (hkey : shadowKeys s.shadow idx' = some addr') : idx' ≠ idx := by
  rintro rfl
  rcases hplaced.probe_cases hslot with hfound | ⟨hhole, -⟩
  · exact hne (Option.some.inj (hfound.symm.trans hkey))
  · rw [hhole] at hkey
    cases hkey

theorem ShadowTracks.recorded (h : ShadowTracks history s)
    (haccess : c.access? = some (thr, addr, w)) (htid : s.currentTid thr = some tid)
    {idx : Fin 65536} (hslot : shadowSlot s.shadow addr = some idx) :
    ShadowTracks (c :: history) (s.recorded addr idx tid w) := by
  have hkeys := shadowKeys_recorded s addr idx tid w
  refine ⟨?_, fun {idx' addr'} hkey => ?_, fun {idx'} hkey => ?_⟩
  · rw [hkeys]
    exact h.placed.insert hslot
  · rw [hkeys] at hkey
    by_cases hidx : idx' = idx
    · subst hidx
      rw [update_self] at hkey
      cases hkey
      rw [TsanState.recorded_shadow_self]
      exact ⟨thr, lastAccess_cons_self haccess, htid⟩
    · rw [update_of_ne hidx] at hkey
      -- the key of another slot is not the address accessed
      have hne : addr ≠ addr' := by
        rintro rfl
        exact hidx (Option.some.inj ((h.placed idx' addr hkey).symm.trans hslot))
      rw [TsanState.recorded_shadow_of_ne hidx, lastAccess_cons_of_ne haccess hne]
      exact h.entry hkey
  · rw [hkeys] at hkey
    have hidx : idx' ≠ idx := by
      rintro rfl
      rw [update_self] at hkey
      cases hkey
    rw [update_of_ne hidx] at hkey
    rw [TsanState.recorded_shadow_of_ne hidx]
    exact h.hole hkey

/-- An access that finds no slot leaves no trace, and its address has no entry to be outdated. -/
theorem ShadowTracks.refused (h : ShadowTracks history s)
    (haccess : c.access? = some (thr, addr, w)) (hslot : shadowSlot s.shadow addr = none) :
    ShadowTracks (c :: history) s := by
  refine ⟨h.placed, fun {idx addr'} hkey => ?_, h.hole⟩
  have hne : addr ≠ addr' := by
    rintro rfl
    cases hslot.symm.trans (h.placed idx addr hkey)
  rw [lastAccess_cons_of_ne haccess hne]
  exact h.entry hkey

theorem TsanMove.shadow_eq (h : TsanMove s c s') (haccess : c.access? = none) :
    s'.shadow = s.shadow := by
  cases h with
  | recorded haccess' _ _ _ =>
      rw [haccess] at haccess'
      cases haccess'
  | idle | created | destroyed | acquired | released => rfl

theorem shadowSlot_of_idle (haccess : c.access? = some (thr, addr, w))
    (hidle : tsanAct s c = .idle) : shadowSlot s.shadow addr = none := by
  rw [tsanAct_access s haccess] at hidle
  cases hslot : shadowSlot s.shadow addr with
  | none => rfl
  | some idx =>
      rw [hslot] at hidle
      cases hidle

theorem ShadowTracks.move (h : ShadowTracks history s) (hmove : TsanMove s c s') :
    ShadowTracks (c :: history) s' := by
  cases haccess : c.access? with
  | none =>
      have hshadow := hmove.shadow_eq haccess
      refine ⟨hshadow ▸ h.placed, fun {idx addr} hkey => ?_, fun hkey => ?_⟩
      · rw [hshadow] at hkey ⊢
        rw [lastAccess_cons_of_none haccess, hmove.currentTid_eq]
        exact h.entry hkey
      · rw [hshadow] at hkey ⊢
        exact h.hole hkey
  | some a =>
      obtain ⟨thr, addr, w⟩ := a
      cases hmove with
      | idle hidle => exact h.refused haccess (shadowSlot_of_idle haccess hidle)
      | recorded haccess' htid hslot _ => exact h.recorded haccess' htid hslot
      | created | destroyed | acquired | released => cases haccess

end

/-- **The table tracks** the accesses it has room for, in every run. -/
theorem tsanRun_shadowTracks (h : tsanRun history = .ok s) : ShadowTracks history s := by
  refine tsanRun_induction (P := fun history s => ShadowTracks history s) shadowTracks_initial
    ?_ h
  intro c history s s' _ ih hcall
  obtain ⟨s₁, henters, hmove⟩ := tsanStep_cases hcall
  exact (ih.enters henters).move hmove

/-! ### With room for every address -/

/-- Every address accessed has an entry. -/
def ShadowComplete (history : List (TsanCall Thr)) (s : TsanState Thr) : Prop :=
  ∀ addr, lastAccess addr history ≠ none → ∃ idx, shadowKeys s.shadow idx = some addr

theorem ShadowComplete.enters (h : ShadowComplete history s) (henters : TsanEnters s c s₁) :
    ShadowComplete history s₁ := by
  intro addr hlast
  rw [henters.shadow]
  exact h addr hlast

omit [DecidableEq Thr] in
theorem ShadowComplete.move (h : ShadowComplete history s)
    (hplaced : Placed tsanShadowHash (shadowKeys s.shadow)) (hmove : TsanMove s c s')
    (hslots : ∀ thr addr w, c.access? = some (thr, addr, w) →
      ∃ idx, shadowSlot s.shadow addr = some idx) : ShadowComplete (c :: history) s' := by
  intro addr hlast
  cases haccess : c.access? with
  | none =>
      rw [lastAccess_cons_of_none haccess] at hlast
      rw [hmove.shadow_eq haccess]
      exact h addr hlast
  | some a =>
      obtain ⟨thr, addr', w⟩ := a
      obtain ⟨slot, hslot⟩ := hslots thr addr' w haccess
      cases hmove with
      | idle hidle => cases hslot.symm.trans (shadowSlot_of_idle haccess hidle)
      | created | destroyed | acquired | released => cases haccess
      | recorded haccess' htid hslot' _ =>
          cases haccess.symm.trans haccess'
          rw [shadowKeys_recorded]
          by_cases haddr : addr' = addr
          · rw [haddr]
            exact ⟨_, update_self ..⟩
          · rw [lastAccess_cons_of_ne haccess haddr] at hlast
            obtain ⟨idx', hkey⟩ := h addr hlast
            refine ⟨idx', ?_⟩
            rw [update_of_ne (ne_slot_of_key hplaced hslot' haddr hkey)]
            exact hkey

theorem tsanRun_complete (hfit : ShadowFits history) (h : tsanRun history = .ok s) :
    ShadowComplete history s := by
  refine tsanRun_induction (P := fun history s => ShadowFits history → ShadowComplete history s)
    ?_ ?_ h hfit
  · intro _ addr hlast
    exact (hlast rfl).elim
  · intro c history s s' hs ih hcall hfit
    obtain ⟨s₁, henters, hmove⟩ := tsanStep_cases hcall
    have htracks := (tsanRun_shadowTracks hs).enters henters
    exact ((ih hfit.tail).enters henters).move htracks.placed hmove
      fun _ _ _ haccess => htracks.exists_slot hfit haccess

omit [DecidableEq Thr] in
theorem exists_slot_of_hole {j : Fin 65536} (hhole : shadowKeys s.shadow j = none) (addr : Addr) :
    ∃ idx, shadowSlot s.shadow addr = some idx := by
  have hstop : keyOrHole (shadowKeys s.shadow) addr j = true := by
    rw [keyOrHole, hhole]
    rfl
  cases hslot : shadowSlot s.shadow addr with
  | some idx => exact ⟨idx, rfl⟩
  | none =>
      have hfull := probe_eq_none_iff.mp hslot j
      rw [hstop] at hfull
      cases hfull

omit [DecidableEq Thr] in
theorem TsanMove.hole_of_hole {j : Fin 65536} (hmove : TsanMove s c s')
    (hhole : shadowKeys s'.shadow j = none) : shadowKeys s.shadow j = none := by
  cases hmove with
  | idle | created | destroyed | acquired | released => exact hhole
  | @recorded _ _ addr _ _ idx _ _ _ _ =>
      rw [shadowKeys_recorded] at hhole
      by_cases hj : j = idx
      · subst hj
        rw [update_self] at hhole
        cases hhole
      · rwa [update_of_ne hj] at hhole

/-- Entries are never given up, so where there is a hole there was always room. -/
theorem tsanRun_complete_of_hole (h : tsanRun history = .ok s) {j : Fin 65536}
    (hhole : shadowKeys s.shadow j = none) : ShadowComplete history s := by
  refine tsanRun_induction (P := fun history s => shadowKeys s.shadow j = none →
    ShadowComplete history s) ?_ ?_ h hhole
  · intro _ addr hlast
    exact (hlast rfl).elim
  · intro c history s s' hs ih hcall hhole
    obtain ⟨s₁, henters, hmove⟩ := tsanStep_cases hcall
    have hhole₁ := hmove.hole_of_hole hhole
    have hplaced := ((tsanRun_shadowTracks hs).enters henters).placed
    exact ((ih (henters.shadow ▸ hhole₁)).enters henters).move hplaced hmove
      fun _ addr _ _ => exists_slot_of_hole hhole₁ addr

/-! ### The addresses with an entry -/

section

omit [DecidableEq Thr]

theorem Shadowed.mono (h : Shadowed addr history) (c : TsanCall Thr) :
    Shadowed addr (c :: history) := by
  obtain ⟨d, before, thr, w, hsuffix, hrest⟩ := h
  exact ⟨d, before, thr, w, hsuffix.trans (List.suffix_cons c history), hrest⟩

theorem shadowed_of_lastAccess (hfit : ShadowFits history)
    (hlast : lastAccess addr history = some (thr, w)) : Shadowed addr history := by
  obtain ⟨c, before, hsuffix, haccess⟩ := exists_of_lastAccess hlast
  exact ⟨c, before, thr, w, hsuffix, haccess, hfit.suffix hsuffix⟩

theorem TsanMove.key_mono (hmove : TsanMove s c s')
    (hplaced : Placed tsanShadowHash (shadowKeys s.shadow)) {idx : Fin 65536}
    (hkey : shadowKeys s.shadow idx = some addr) : shadowKeys s'.shadow idx = some addr := by
  cases hmove with
  | idle | created | destroyed | acquired | released => exact hkey
  | @recorded _ _ addr' _ _ idx' _ _ hslot _ =>
      rw [shadowKeys_recorded]
      by_cases haddr : addr' = addr
      · cases hslot.symm.trans (haddr ▸ hplaced idx addr hkey)
        rw [haddr, update_self]
      · rwa [update_of_ne (ne_slot_of_key hplaced hslot haddr hkey)]

/-- A table that has an entry for every address accessed, and a hole, has room for one more. -/
theorem ShadowComplete.shadowFits (h : ShadowComplete history s)
    (haccess : c.access? = some (thr, addr, w)) {j : Fin 65536}
    (hhole : shadowKeys s.shadow j = none) : ShadowFits (c :: history) := by
  have hsub : accessedAddrs history
      ⊆ (Finset.univ.erase j).image fun idx => (s.shadow idx).addr := by
    intro a ha
    obtain ⟨idx, hkey⟩ := h a (lastAccess_ne_none_iff.mpr ha)
    have hne : idx ≠ j := by
      rintro rfl
      cases hhole.symm.trans hkey
    exact Finset.mem_image.mpr ⟨idx, Finset.mem_erase.mpr ⟨hne, Finset.mem_univ idx⟩,
      (shadowKeys_eq_some.mp hkey).2⟩
  have hcons : accessedAddrs (c :: history) = insert addr (accessedAddrs history) := by
    rw [accessedAddrs, List.filterMap_cons_some (b := addr) (by rw [haccess]; rfl),
      List.toFinset_cons, accessedAddrs]
  calc
    (accessedAddrs (c :: history)).card ≤ (accessedAddrs history).card + 1 := by
      rw [hcons]
      exact Finset.card_insert_le ..
    _ ≤ (Finset.univ.erase j).card + 1 :=
      Nat.succ_le_succ ((Finset.card_le_card hsub).trans Finset.card_image_le)
    _ = 65536 := by
      rw [Finset.card_erase_of_mem (Finset.mem_univ j), Finset.card_univ, Fintype.card_fin]

end

theorem exists_key_of_shadowed (h : tsanRun history = .ok s) (hshadowed : Shadowed addr history) :
    ∃ idx, shadowKeys s.shadow idx = some addr := by
  refine tsanRun_induction (P := fun history s => Shadowed addr history →
    ∃ idx, shadowKeys s.shadow idx = some addr) ?_ ?_ h hshadowed
  · rintro ⟨c, before, -, -, hsuffix, -⟩
    exact absurd (List.suffix_nil.mp hsuffix) (List.cons_ne_nil _ _)
  · intro c history s s' hs ih hcall hshadowed
    obtain ⟨d, before, thr, w, hsuffix, haccess, hfit⟩ := hshadowed
    rcases List.suffix_cons_iff.mp hsuffix with heq | htail
    · cases heq
      apply tsanRun_complete hfit (tsanRun_cons_ok.mpr ⟨s, hs, hcall⟩)
      rw [lastAccess_cons_self haccess]
      exact Option.some_ne_none _
    · obtain ⟨s₁, henters, hmove⟩ := tsanStep_cases hcall
      obtain ⟨idx, hkey⟩ := ih ⟨d, before, thr, w, htail, haccess, hfit⟩
      rw [← henters.shadow] at hkey
      exact ⟨idx, hmove.key_mono ((tsanRun_shadowTracks hs).enters henters).placed hkey⟩

theorem shadowed_of_key (h : tsanRun history = .ok s) {idx : Fin 65536}
    (hkey : shadowKeys s.shadow idx = some addr) : Shadowed addr history := by
  refine tsanRun_induction (P := fun history s => shadowKeys s.shadow idx = some addr →
    Shadowed addr history) ?_ ?_ h hkey
  · intro hkey
    cases hkey
  · intro c history s s' hs ih hcall hkey
    obtain ⟨s₁, henters, hmove⟩ := tsanStep_cases hcall
    have hold : shadowKeys s₁.shadow idx = some addr → Shadowed addr (c :: history) := by
      intro hkey
      rw [henters.shadow] at hkey
      exact (ih hkey).mono c
    cases hmove with
    | idle | created | destroyed | acquired | released => exact hold hkey
    | @recorded _ thr addr' w _ slot haccess _ hslot _ =>
        rw [shadowKeys_recorded] at hkey
        by_cases hidx : idx = slot
        · subst hidx
          rw [update_self] at hkey
          cases hkey
          rcases ((tsanRun_shadowTracks hs).enters henters).placed.probe_cases hslot with
            hfound | ⟨hhole, -⟩
          · exact hold hfound
          · have hcomplete := tsanRun_complete_of_hole hs (henters.shadow ▸ hhole)
            exact ⟨c, history, thr, w, List.suffix_refl _, haccess,
              (hcomplete.enters henters).shadowFits haccess hhole⟩
        · rw [update_of_ne hidx] at hkey
          exact hold hkey

/-- **The addresses with an entry** are those accessed while there was room. -/
theorem exists_key_iff_shadowed (h : tsanRun history = .ok s) :
    (∃ idx, shadowKeys s.shadow idx = some addr) ↔ Shadowed addr history := by
  constructor
  · rintro ⟨idx, hkey⟩
    exact shadowed_of_key h hkey
  · exact exists_key_of_shadowed h

end Misan
