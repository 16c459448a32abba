import CosaiMcp.Ir.Incident
import CosaiMcp.Report.Csv
import CosaiMcp.Scan.ExitCode

/-!
# What counts as a finding

The exit code, `has_findings`, the containment of incidents and the CSV report each decide by a test
of their own whether a result of a probe is a finding. `TestsAgree` says that they agree about a
result; they do so unless the result is inconclusive, or has an error that the report does not show
as one (`testsAgree_iff`).
-/

namespace CosaiMcp.Scan

open Py Catalog Report Ir

variable {φ ρ δ : Type}

/-! ## The consumers -/

/-- The status of each row about a result. -/
def rowStatus (r : ProbeResult δ) : Str :=
  if r.assertions.isEmpty then statusAlone r.passed r.error else statusWithAssertion r.passed

theorem status_of_mem_probeRows {tx : Texts δ} {threats : List (ThreatDefinition φ ρ)}
    {r : ProbeResult δ} {row : CsvRow} (h : row ∈ probeRows tx threats r) :
    row.status = rowStatus r := by
  unfold probeRows at h
  unfold rowStatus
  split at h
  · next hnil =>
    rw [List.mem_singleton] at h
    rw [h, if_pos hnil]
    rfl
  · next hne =>
    obtain ⟨a, -, rfl⟩ := List.mem_map.mp h
    rw [if_neg hne]
    rfl

/-- There is a row about every result. -/
theorem probeRows_ne_nil (tx : Texts δ) (threats : List (ThreatDefinition φ ρ))
    (r : ProbeResult δ) : probeRows tx threats r ≠ [] := by
  unfold probeRows
  split
  · exact List.cons_ne_nil _ _
  · next hne =>
    intro hmap
    rw [List.map_eq_nil_iff] at hmap
    exact hne (by rw [hmap]; rfl)

theorem forall_status_iff {tx : Texts δ} {threats : List (ThreatDefinition φ ρ)}
    {r : ProbeResult δ} {P : Str → Prop} :
    (∀ row ∈ probeRows tx threats r, P row.status) ↔ P (rowStatus r) := by
  constructor
  · intro h
    obtain ⟨row, hrow⟩ := List.exists_mem_of_ne_nil _ (probeRows_ne_nil tx threats r)
    exact status_of_mem_probeRows hrow ▸ h row hrow
  · intro h row hrow
    rw [status_of_mem_probeRows hrow]
    exact h

/-! ## When the row of a result says FINDING -/

theorem passText_ne_findingText : passText ≠ findingText := by decide

theorem errorText_ne_findingText : errorText ≠ findingText := by decide

theorem statusWithAssertion_eq_findingText_iff {passed : Bool} :
    statusWithAssertion passed = findingText ↔ passed = false := by
  cases passed with
  | true => simp [statusWithAssertion, passText_ne_findingText]
  | false => simp [statusWithAssertion]

theorem statusAlone_eq_findingText_iff {passed : Bool} {error : Option Str} :
    statusAlone passed error = findingText ↔ passed = false ∧ error.getD [] = [] := by
  unfold statusAlone
  cases passed with
  | true => simp [passText_ne_findingText]
  | false =>
    by_cases he : error.getD [] = []
    · simp [he]
    · simp [he, errorText_ne_findingText]

theorem rowStatus_eq_findingText_iff {r : ProbeResult δ} :
    rowStatus r = findingText ↔ r.passed = false ∧ (r.assertions = [] → r.error.getD [] = []) := by
  unfold rowStatus
  split
  · next hnil =>
    rw [statusAlone_eq_findingText_iff, List.isEmpty_iff.mp hnil]
    simp
  · next hne =>
    rw [statusWithAssertion_eq_findingText_iff]
    have hassertions : r.assertions ≠ [] := fun h => hne (List.isEmpty_iff.mpr h)
    simp [hassertions]

/-! ## Agreement -/

/-- What the consumers make of a result whose rows are `rows`. -/
structure TestsAgree (rows : List CsvRow) (r : ProbeResult δ) : Prop where
  unsuppressed : r.suppressed = false →
    (hasFindingsTest r = true ↔ exitCodeTest r = true) ∧
    (irTest r = true ↔ exitCodeTest r = true) ∧
    ∀ row ∈ rows, row.status = findingText ↔ exitCodeTest r = true
  suppressed : r.suppressed = true →
    exitCodeTest r = false ∧ hasFindingsTest r = false ∧ irTest r = false
  inconclusive : r.inconclusiveReason ≠ none →
    exitCodeTest r = false ∧ hasFindingsTest r = false ∧ irTest r = false ∧
    ∀ row ∈ rows, row.status ≠ findingText

/-- A result that no test takes for a finding and that is not shown as one. -/
theorem testsAgree_of_silent {tx : Texts δ} {threats : List (ThreatDefinition φ ρ)}
    {r : ProbeResult δ} (hexit : exitCodeTest r = false) (hhas : hasFindingsTest r = false)
    (hir : irTest r = false) (hrow : rowStatus r ≠ findingText) :
    TestsAgree (probeRows tx threats r) r := by
  have hrows : ∀ row ∈ probeRows tx threats r, row.status ≠ findingText :=
    (forall_status_iff (P := (· ≠ findingText))).mpr hrow
  refine ⟨fun _ => ⟨by rw [hhas, hexit], by rw [hir, hexit], fun row hmem => ?_⟩,
    fun _ => ⟨hexit, hhas, hir⟩, fun _ => ⟨hexit, hhas, hir, hrows⟩⟩
  rw [hexit]
  exact ⟨fun h => absurd h (hrows row hmem), fun h => absurd h Bool.false_ne_true⟩

/-- The consumers agree about a result exactly if it has passed, or is conclusive and suppressed or
without an error, or has an error that the report shows. -/
theorem testsAgree_iff (tx : Texts δ) (threats : List (ThreatDefinition φ ρ)) (r : ProbeResult δ) :
    TestsAgree (probeRows tx threats r) r ↔
      r.passed = true ∨
      r.inconclusiveReason = none ∧ (r.suppressed = true ∨ r.error = none) ∨
      r.assertions = [] ∧ r.error.getD [] ≠ [] := by
  have hrow : rowStatus r = findingText ↔
      r.passed = false ∧ (r.assertions = [] → r.error.getD [] = []) :=
    rowStatus_eq_findingText_iff
  constructor
  · intro h
    by_cases hp : r.passed = true
    · exact .inl hp
    have hshown : rowStatus r ≠ findingText → r.assertions = [] ∧ r.error.getD [] ≠ [] := by
      intro hne
      rw [Ne, hrow] at hne
      simpa [hp] using hne
    refine .inr ?_
    cases hi : r.inconclusiveReason with
    | some why =>
      have hrows := (h.inconclusive (by simp [hi])).2.2.2
      exact .inr (hshown (forall_status_iff (P := (· ≠ findingText)).mp hrows))
    | none =>
      by_cases hs : r.suppressed = true
      · exact .inl ⟨rfl, .inl hs⟩
      by_cases he : r.error = none
      · exact .inl ⟨rfl, .inr he⟩
      -- an error keeps the result from being a finding, so its row has to show the error
      have hrows := (h.unsuppressed (by simpa using hs)).2.2
      have htest : exitCodeTest r = false := by simp [exitCodeTest, he]
      have hstatus : rowStatus r = findingText ↔ exitCodeTest r = true :=
        forall_status_iff (P := fun s => s = findingText ↔ exitCodeTest r = true).mp hrows
      rw [htest] at hstatus
      exact .inr (hshown fun hf => Bool.false_ne_true (hstatus.mp hf))
  · intro h
    rcases h with hp | ⟨hi, hse⟩ | ⟨ha, he⟩
    · exact testsAgree_of_silent (by simp [exitCodeTest, hp]) (by simp [hasFindingsTest, hp])
        (by simp [irTest, hp]) (by simp [hrow, hp])
    · refine ⟨fun hs => ?_, fun hs => ?_, fun hne => absurd hi hne⟩
      · have he : r.error = none := hse.resolve_left (by simp [hs])
        refine ⟨by simp [hasFindingsTest, exitCodeTest, hs, hi, he],
          by simp [irTest, exitCodeTest, hs, hi, he], ?_⟩
        refine (forall_status_iff (P := fun s => s = findingText ↔ exitCodeTest r = true)).mpr ?_
        rw [hrow]
        simp [exitCodeTest, hs, hi, he]
      · exact ⟨by simp [exitCodeTest, hs], by simp [hasFindingsTest, hs], by simp [irTest, hs]⟩
    · have herr : r.error ≠ none := by
        intro hnone
        simp [hnone] at he
      exact testsAgree_of_silent (by simp [exitCodeTest, herr]) (by simp [hasFindingsTest, herr])
        (by simp [irTest, herr]) (by simp [hrow, ha, he])

/-! ## An inconclusive result -/

section Inconclusive

/-- The server refused the arguments of the probe, so that nothing was tested. -/
def refused : ProbeResult Unit :=
  ⟨lit "P", lit "T01-001", false, [], none, [], (), some (lit "schema mismatch"), false⟩

def refusedScan : ScanResult Unit Unit Unit := ⟨[], [], [refused], [], [], [], 0, none⟩

def plainTexts : Texts Unit := ⟨fun _ => none, fun _ => []⟩

/-- It gives no exit code 1, but the report calls it a finding, and incidents are emitted for it. -/
theorem inconclusive_contained :
    ¬ TestsAgree (probeRows plainTexts refusedScan.threats refused) refused ∧
    refusedScan.hasFindings = false ∧ exitCodeTest refused = false ∧
    (csvRows plainTexts refusedScan).map (·.status) = [findingText] ∧
    containmentActions ⟨true, none, none, 0, 0⟩ refusedScan = [.emitIncident, .quarantineReport] := by
  refine ⟨fun h => ?_, by decide, by decide, by decide, by decide⟩
  have hir := (h.inconclusive (by decide)).2.2.1
  revert hir
  decide

end Inconclusive

end CosaiMcp.Scan
