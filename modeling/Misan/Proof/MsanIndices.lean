import Misan.MsanIndices

/-!
# Indices below the end of the table

`msan_alloc_origin` and `msan_report_uninit` look at the id before they use it as an index.
`__msan_chain_origin` only looks whether its argument is `0`, so the ids a program chains decide
whether all accesses stay in the table.
-/

namespace Misan

variable {o : MsanOrigins} {origin : BitVec 32} {msanTrackOrigins : Bool} {s : MsanRuntime}
  {env env' : MsanReportEnv} {addr size : Addr}

def OriginIndicesBelow (indices : List (BitVec 32)) : Prop :=
  ∀ i ∈ indices, i.toNat < msanMaxOrigins

theorem msanAllocOriginId_eq (counter : BitVec 32) :
    msanAllocOriginId counter = BitVec.ofNat 32 (msanOriginIdOf (counter + 1)).val := by
  unfold msanAllocOriginId
  by_cases hlt : (counter + 1).toNat < msanMaxOrigins
  · rw [if_neg (Nat.not_le.mpr hlt), msanOriginIdOf_of_lt hlt, BitVec.ofNat_toNat,
      BitVec.setWidth_eq]
  · rw [if_pos (Nat.not_lt.mp hlt), msanOriginIdOf_of_ge (Nat.not_lt.mp hlt)]
    rfl

theorem msanAllocOriginId_lt (counter : BitVec 32) :
    (msanAllocOriginId counter).toNat < msanMaxOrigins := by
  have hid := (msanOriginIdOf (counter + 1)).isLt
  rw [msanAllocOriginId_eq, BitVec.toNat_ofNat]
  exact lt_of_le_of_lt (Nat.mod_le _ _) hid

theorem msanAllocOrigin_below (counter : BitVec 32) :
    OriginIndicesBelow (msanAllocOriginIndices counter) := by
  have hid := msanAllocOriginId_lt counter
  simp [OriginIndicesBelow, msanAllocOriginIndices, hid]

theorem msanChainOrigin_below_iff (o : MsanOrigins) (origin : BitVec 32) :
    OriginIndicesBelow (msanChainOriginIndices o origin) ↔ origin.toNat < msanMaxOrigins := by
  unfold msanChainOriginIndices
  split
  · rename_i hzero
    rw [hzero]
    exact iff_of_true (by simp [OriginIndicesBelow]) (by decide)
  · have halloc := msanAllocOrigin_below o.msanOriginCounter
    have hnew := msanAllocOriginId_lt o.msanOriginCounter
    constructor
    · intro h
      apply h
      simp
    · intro horigin i hi
      rcases List.mem_append.mp hi with hi | hi
      · exact halloc i hi
      · rcases List.mem_pair.mp hi with rfl | rfl
        · exact hnew
        · exact horigin

/-- The model of `__msan_chain_origin` has no result exactly when one of its indices is past the
end. -/
theorem msanChainOrigin_isSome_iff (o : MsanOrigins) (origin : BitVec 32) (now : BitVec 64)
    (captured : DrtStackTrace) :
    (msanChainOrigin o origin now captured).isSome ↔
      OriginIndicesBelow (msanChainOriginIndices o origin) := by
  rw [msanChainOrigin_below_iff]
  unfold msanChainOrigin
  by_cases hzero : origin = 0
  · rw [if_pos hzero, hzero]
    exact iff_of_true rfl (by decide)
  · rw [if_neg hzero]
    dsimp only
    split <;> simp_all

/-- The range test of the report stands before its first access. -/
theorem msanReport_below (env : MsanReportEnv) (addr : Addr) :
    OriginIndicesBelow (msanReportIndices env addr) := by
  unfold msanReportIndices
  split
  · dsimp only
    split
    · rename_i h
      split <;> simp [OriginIndicesBelow, h.2]
    · simp [OriginIndicesBelow]
  · simp [OriginIndicesBelow]

theorem msanReportUninit_congr (budget : Nat) (hmem : env.memory = env'.memory)
    (htrack : env.msanTrackOrigins = env'.msanTrackOrigins) (hstack : env.stack = env'.stack)
    (hentries : ∀ id : OriginId, BitVec.ofNat 32 id.val ∈ msanReportIndices env addr →
      env.msanOrigins id = env'.msanOrigins id) :
    msanReportUninit budget env addr size = msanReportUninit budget env' addr size := by
  have hid : env.originId addr = env'.originId addr := by
    rw [MsanReportEnv.originId, MsanReportEnv.originId, hmem]
  unfold msanReportUninit
  rw [← htrack, ← hstack, ← hid]
  by_cases hflag : env.msanTrackOrigins
  · have horigin : msanReportOrigin budget env (env.originId addr) =
        msanReportOrigin budget env' (env.originId addr) := by
      unfold msanReportOrigin
      split
      · rename_i h
        have hentry : env.msanOrigins ⟨(env.originId addr).toNat, h.2⟩ =
            env'.msanOrigins ⟨(env.originId addr).toNat, h.2⟩ := by
          apply hentries
          rw [BitVec.ofNat_toNat, BitVec.setWidth_eq, msanReportIndices, if_pos hflag]
          dsimp only
          rw [dif_pos h]
          split <;> simp
        rw [hentry]
      · rfl
    rw [horigin]
  · rw [if_neg hflag, if_neg hflag]

theorem msanCheck_below (env : MsanReportEnv) (addr size : Addr) :
    OriginIndicesBelow (msanCheckIndices env addr size) := by
  unfold msanCheckIndices
  split
  · simp [OriginIndicesBelow]
  · exact msanReport_below env _

/-! ### Programs -/

def MsanRuntimeInBounds (msanTrackOrigins : Bool) (s : MsanRuntime) (c : MsanRuntimeCall) : Prop :=
  OriginIndicesBelow (msanRuntimeIndices msanTrackOrigins s c)

/-- If the call chains an origin, its id is one of the table or `0`. -/
def MsanRuntimeCall.ChainsTableId : MsanRuntimeCall → Prop
  | chain c => c.origin.toNat < msanMaxOrigins
  | write _ => True
  | check .. => True

theorem msanRuntimeInBounds_iff (msanTrackOrigins : Bool) (s : MsanRuntime) (c : MsanRuntimeCall) :
    MsanRuntimeInBounds msanTrackOrigins s c ↔ c.ChainsTableId := by
  cases c with
  | chain c => exact msanChainOrigin_below_iff s.origins c.origin
  | write c => exact iff_of_true (by simp [MsanRuntimeInBounds, msanRuntimeIndices,
      OriginIndicesBelow]) trivial
  | check addr size stack => exact iff_of_true (msanCheck_below _ addr size) trivial

/-- **Every access is in bounds**, from any counter, table and memory on, exactly when no call
chains an id from the end of the table on. -/
theorem msanRuntime_inBounds_iff (msanTrackOrigins : Bool) (s₀ : MsanRuntime)
    (history : List MsanRuntimeCall) :
    EachStep (msanRuntimeStep msanTrackOrigins) s₀ (MsanRuntimeInBounds msanTrackOrigins) history ↔
      EachStep (msanRuntimeStep msanTrackOrigins) s₀ (fun _ c => c.ChainsTableId) history := by
  constructor
  · intro h c before s hsuffix hs
    exact (msanRuntimeInBounds_iff msanTrackOrigins s c).mp (h c before s hsuffix hs)
  · intro h c before s hsuffix hs
    exact (msanRuntimeInBounds_iff msanTrackOrigins s c).mpr (h c before s hsuffix hs)

def MsanRuntime.initial : MsanRuntime := ⟨fun _ => 0, .initial⟩

/-- Chaining the first id past the end reads behind the table. -/
theorem msanRuntime_not_inBounds :
    ¬ ∀ history, EachStep (msanRuntimeStep true) .initial (MsanRuntimeInBounds true) history := by
  intro hclaim
  let past : MsanRuntimeCall := .chain ⟨65536, 0, ⟨[], by decide⟩⟩
  have hbelow := hclaim [past] past [] .initial (List.suffix_refl _) rfl
  have hid : (65536 : BitVec 32).toNat < msanMaxOrigins := (msanChainOrigin_below_iff _ _).mp hbelow
  exact absurd hid (by decide)

end Misan
