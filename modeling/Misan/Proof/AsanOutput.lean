import Misan.Proof.AsanShared
import Misan.Proof.ReportFields

/-!
# ASan reports read back

A report begins with a newline, so its stack ends where the next report begins. The output of a run
that has given the lock back is the reports and nothing else.
-/

namespace Misan

/-! ### Reports -/

/-- The kinds of access `asan_check_access` reports. -/
def IsAccessKind (kind : String) : Prop := kind = "READ" ∨ kind = "WRITE"

theorem readable_kind :
    Readable IsAccessKind (StopsAt fun c => !isBlank c)
      fun kind => (bytesOf kind).takeWhile (· ≠ 0) := by
  apply readable_field
  · rintro _ (rfl | rfl) <;> decide
  · rintro _ _ (rfl | rfl) (rfl | rfl) heq
    · rfl
    · exact absurd heq (by decide)
    · exact absurd heq (by decide)
    · rfl

theorem asanReportText_eq (c : AsanReport × DrtStackTrace) :
    asanReportText c =
      byteOf '\n' :: (bytesOf "==ASAN ERROR==\n" ++ (bytesOf "  " ++
        ((bytesOf c.1.kind).takeWhile (· ≠ 0) ++ (byteOf ' ' :: (bytesOf "of size " ++
          (numeralBytes false 10 c.1.size.toNat ++ (byteOf ' ' :: (bytesOf "at 0x" ++
            (numeralBytes false 16 c.1.addr.toNat ++ (byteOf '\n' ::
              (bytesOf "  Shadow byte value: 0x" ++
                (numeralBytes false 16 c.1.shadowVal.toNat ++ (byteOf '\n' ::
                  (bytesOf "Stack trace:\n" ++ framesText 0 c.2.pcs)))))))))))))) := by
  have hsize : c.1.size.setWidth 64 = c.1.size := BitVec.setWidth_eq _
  have hshadow : ((c.1.shadowVal.setWidth 32).setWidth 64).toNat = c.1.shadowVal.toNat := by
    have := c.1.shadowVal.isLt
    simp only [BitVec.toNat_setWidth]
    omega
  have haccess : formatOutput (asanAccessPieces c.1) =
      bytesOf "  " ++ ((bytesOf c.1.kind).takeWhile (· ≠ 0) ++ (byteOf ' ' ::
        (bytesOf "of size " ++ (numeralBytes false 10 (c.1.size.setWidth 64).toNat ++ (byteOf ' ' ::
          (bytesOf "at 0x" ++ (numeralBytes false 16 c.1.addr.toNat ++ [byteOf '\n']))))))) := rfl
  have hline : formatOutput (linePieces (bytesOf "  Shadow byte value: 0x")
      (shadowByte c.1.shadowVal) (bytesOf "\n")) =
        bytesOf "  Shadow byte value: 0x" ++
          (numeralBytes false 16 ((c.1.shadowVal.setWidth 32).setWidth 64).toNat ++
            [byteOf '\n']) := rfl
  rw [asanReportText, haccess, hline, hsize, hshadow, stackText]
  simp only [List.append_assoc, List.cons_append, List.nil_append]
  rfl

/-- A report ends where no further line of its stack begins. -/
theorem readable_asanReportText :
    Readable (fun c : AsanReport × DrtStackTrace => IsAccessKind c.1.kind) (StopsAt isSpace)
      asanReportText := by
  rintro ⟨⟨kind, addr, size, shadowVal⟩, ⟨pcs, hpcs⟩⟩
    ⟨⟨kind', addr', size', shadowVal'⟩, ⟨pcs', hpcs'⟩⟩ r r' hkind hkind' hr hr' heq
  simp only [asanReportText_eq, List.cons_append, List.append_assoc, List.cons.injEq, true_and,
    List.append_cancel_left_eq] at heq
  obtain ⟨rfl, heq⟩ := readable_kind hkind hkind' (stopsAt_cons _ rfl) (stopsAt_cons _ rfl) heq
  simp only [List.cons.injEq, true_and, List.append_cancel_left_eq] at heq
  obtain ⟨hsize, heq⟩ := readable_numeralBytes (Or.inl rfl) trivial trivial (stopsAt_cons _ rfl)
    (stopsAt_cons _ rfl) heq
  simp only [List.cons.injEq, true_and, List.append_cancel_left_eq] at heq
  obtain ⟨haddr, heq⟩ := readable_numeralBytes (Or.inr rfl) trivial trivial (stopsAt_cons _ rfl)
    (stopsAt_cons _ rfl) heq
  simp only [List.cons.injEq, true_and, List.append_cancel_left_eq] at heq
  obtain ⟨hshadow, heq⟩ := readable_numeralBytes (Or.inr rfl) trivial trivial (stopsAt_cons _ rfl)
    (stopsAt_cons _ rfl) heq
  simp only [List.cons.injEq, true_and, List.append_cancel_left_eq] at heq
  obtain ⟨rfl, hrest⟩ := readable_framesText 0 trivial trivial hr hr' heq
  obtain rfl := BitVec.eq_of_toNat_eq hsize
  obtain rfl := BitVec.eq_of_toNat_eq haddr
  obtain rfl := BitVec.eq_of_toNat_eq hshadow
  exact ⟨rfl, hrest⟩

theorem isAccessKind_of_report {s : AsanState} {addr size : Addr} {isWrite : Bool} {r : AsanReport}
    (h : asanCheckAccess s addr size isWrite = some r) : IsAccessKind r.kind := by
  simp only [asanCheckAccess] at h
  split_ifs at h <;> cases h <;> simp [IsAccessKind]

/-! ### Runs -/

section Runs

variable {Thread Thread' : Type} [DecidableEq Thread] [DecidableEq Thread'] {budget budget' : Nat}
  {m m' : Memory} {s : AsanShared Thread} {s' : AsanShared Thread'}
  {acts : List (AsanSharedAct Thread)} {acts' : List (AsanSharedAct Thread')}

/-- The reports printed, the latest first. -/
def AsanShared.reports (s : AsanShared Thread) : List (AsanReport × DrtStackTrace) :=
  s.locked.returned.map fun r => r.2.1

theorem asanShared_isAccessKind
    (h : runFrom (asanSharedStep budget) (.initial Thread m) acts = some s) :
    ∀ c ∈ s.reports.reverse, IsAccessKind c.1.kind := by
  intro c hc
  obtain ⟨r, hr, rfl⟩ := List.mem_map.mp (List.mem_reverse.mp hc)
  obtain ⟨before, s₀, addr, size, isWrite, -, -, hreport⟩ := (asanShared_reported h).returned r hr
  exact isAccessKind_of_report hreport

theorem asanShared_shared_eq
    (h : runFrom (asanSharedStep budget) (.initial Thread m) acts = some s)
    (hfree : s.locked.lock = false) :
    s.locked.shared = s.reports.reverse.flatMap asanReportText := by
  obtain ⟨-, printed, hout, hnothing, -⟩ := asanShared_output h
  rw [hout, hnothing hfree, List.append_nil, asanReportsOf, AsanShared.reports, ← List.map_reverse,
    List.flatMap_map]

/-- Reports one behind another, with nothing behind the last. -/
theorem readable_asanReports :
    Readable (fun reports : List (AsanReport × DrtStackTrace) =>
      ∀ c ∈ reports, IsAccessKind c.1.kind) (· = []) (List.flatMap asanReportText) := by
  apply readable_asanReportText.flatMap
  · intro c r _ hnil
    rw [asanReportText_eq] at hnil
    cases hnil
  · rintro (- | ⟨c, reports⟩) r - rfl
    · intro d hd
      cases hd
    · rw [List.flatMap_cons, asanReportText_eq]
      exact stopsAt_cons _ rfl

/-- **The output can be read back**: two runs with the same output, of any threads, have reported
the same accesses with the same stacks, in the same order. -/
theorem asanShared_output_inj
    (h : runFrom (asanSharedStep budget) (.initial Thread m) acts = some s)
    (h' : runFrom (asanSharedStep budget') (.initial Thread' m') acts' = some s')
    (hfree : s.locked.lock = false) (hfree' : s'.locked.lock = false)
    (hsame : s.locked.shared = s'.locked.shared) : s.reports = s'.reports := by
  rw [asanShared_shared_eq h hfree, asanShared_shared_eq h' hfree'] at hsame
  apply List.reverse_injective
  exact (readable_asanReports (asanShared_isAccessKind h) (asanShared_isAccessKind h') rfl rfl
    (congrArg (· ++ []) hsame)).1

end Runs

theorem asanShared_output_inj_oneReport :
    ∃ s, runFrom (asanSharedStep 200) (.initial Bool fun _ => 0xff) oneReport = some s ∧
      ∀ budget m (acts : List (AsanSharedAct Bool)) s',
        runFrom (asanSharedStep budget) (.initial Bool m) acts = some s' →
          s'.locked.lock = false → s.locked.shared = s'.locked.shared →
            s'.reports.map (fun c => (c.1, c.2.pcs)) =
              [(⟨"READ", 0x1000000000000000, 1, 0xff⟩, [])] := by
  have hreport : (runFrom (asanSharedStep 200) (.initial Bool fun _ => 0xff) oneReport).map
      (fun s => (s.locked.lock, s.reports.map fun c => (c.1, c.2.pcs))) =
        some (false, [(⟨"READ", 0x1000000000000000, 1, 0xff⟩, [])]) := by decide +kernel
  obtain ⟨s, hs, hfields⟩ := Option.map_eq_some_iff.mp hreport
  obtain ⟨hfree, hreports⟩ := Prod.mk.inj hfields
  refine ⟨s, hs, fun budget m acts s' hs' hfree' hsame => ?_⟩
  rw [← asanShared_output_inj hs hs' hfree hfree' hsame]
  exact hreports

end Misan
