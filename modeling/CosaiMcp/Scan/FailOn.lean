import CosaiMcp.Scan.ExitCode

/-!
# The exit code under a stricter threshold

A lower threshold counts more results. It keeps every finding, and with it exit code 1, but it can
take exit code 2 away: a result that it lets in may be the one that shows that something was
verified (`VerifiesBetween`).
-/

namespace CosaiMcp.Scan

open Py Catalog

variable {δ : Type} {U : UnicodeData} {probeResults : List (ProbeResult δ)}
  {scenarioResults : List ScenarioResult} {severities : Option (Dict Str Severity)}

/-! ## A scan that exits with 0 -/

/-- What exit code 0 says of a scan, at the threshold of `above`. -/
structure CleanExit (above : ProbeResult δ → Bool) (probeResults : List (ProbeResult δ))
    (scenarioResults : List ScenarioResult) : Prop where
  complete : ∀ r ∈ scenarioResults, r.status ≠ .scanIncomplete
  noCrash : ∀ r ∈ probeResults, isCrash r = false
  verified : nothingVerified above probeResults = false
  noFinding : ∀ r ∈ probeResults, exitCodeTest r = true → above r = false
  noFailure : ∀ r ∈ scenarioResults, r.passed = true ∨ r.status = .inconclusive

theorem determineExitCode_eq_zero_iff {failOn : Str} :
    determineExitCode U probeResults scenarioResults failOn severities = 0 ↔
      CleanExit (aboveThreshold severities (failOnThreshold U failOn)) probeResults
        scenarioResults := by
  unfold determineExitCode
  simp only
  generalize aboveThreshold severities (failOnThreshold U failOn) = above
  constructor
  · intro h
    split at h
    · cases h
    next hcomplete =>
    split at h
    · cases h
    next hcrash =>
    split at h
    · cases h
    next hverified =>
    split at h
    · cases h
    next hfailed =>
    simp only [List.any_eq_true, not_exists, not_and, Bool.not_eq_true] at hcomplete hcrash
    simp only [Bool.or_eq_true, List.any_eq_true, not_or, not_exists, not_and] at hfailed
    refine ⟨fun r hr => by simpa using hcomplete r hr, hcrash, by simpa using hverified,
      fun r hr htest => ?_, fun r hr => ?_⟩
    · simpa [htest] using hfailed.1 r hr
    · have hr := hfailed.2 r hr
      by_cases hp : r.passed = true
      · exact .inl hp
      · exact .inr (by simpa [hp] using hr)
  · intro h
    have hfailure : ∀ r ∈ scenarioResults,
        (!r.passed && !decide (r.status = .inconclusive)) = false := by
      intro r hr
      rcases h.noFailure r hr with hp | hi
      · simp [hp]
      · simp [hi]
    have hfinding : ∀ r ∈ probeResults, (exitCodeTest r && above r) = false := by
      intro r hr
      by_cases htest : exitCodeTest r = true
      · rw [htest, h.noFinding r hr htest, Bool.and_false]
      · simp [htest]
    rw [if_neg, if_neg, if_neg, if_neg]
    · simp only [Bool.or_eq_true, List.any_eq_true, not_or, not_exists, not_and]
      exact ⟨fun r hr => by simp [hfinding r hr], fun r hr => by rw [hfailure r hr]; simp⟩
    · simp [h.verified]
    · simp only [List.any_eq_true, not_exists, not_and]
      exact fun r hr => by simp [h.noCrash r hr]
    · simp only [List.any_eq_true, not_exists, not_and]
      exact fun r hr => by simp [h.complete r hr]

/-! ## Two thresholds -/

theorem aboveThreshold_mono {low high : Nat} (hle : low ≤ high) {r : ProbeResult δ}
    (h : aboveThreshold severities high r = true) : aboveThreshold severities low r = true := by
  cases severities with
  | none => rfl
  | some severities =>
    cases hs : severities.get? r.threatId with
    | none => simp only [aboveThreshold, hs]
    | some s =>
      simp only [aboveThreshold, hs, decide_eq_true_eq] at h ⊢
      exact hle.trans h

/-- The scan exits with 2 for no other reason than that nothing was verified. -/
structure UnverifiedExit (above : ProbeResult δ → Bool) (probeResults : List (ProbeResult δ))
    (scenarioResults : List ScenarioResult) : Prop where
  complete : ∀ r ∈ scenarioResults, r.status ≠ .scanIncomplete
  noCrash : ∀ r ∈ probeResults, isCrash r = false
  unverified : nothingVerified above probeResults = true

theorem UnverifiedExit.exitCode {failOn : Str}
    (h : UnverifiedExit (aboveThreshold severities (failOnThreshold U failOn)) probeResults
      scenarioResults) :
    determineExitCode U probeResults scenarioResults failOn severities = 2 := by
  unfold determineExitCode
  simp only [h.unverified, if_true]
  split
  · rfl
  · split <;> rfl

/-- A result that only the lower threshold counts shows that something was verified: it is a clean
pass, or inconclusive without an error. -/
structure VerifiesBetween (severities : Option (Dict Str Severity)) (low high : Nat)
    (r : ProbeResult δ) : Prop where
  unsuppressed : r.suppressed = false
  above : aboveThreshold severities low r = true
  below : aboveThreshold severities high r = false
  verifies : r.passed = true ∨ r.error = none ∧ r.inconclusiveReason ≠ none

/-- What was verified above the lower threshold, but not above the higher one. -/
theorem exists_verifiesBetween {low high : Nat} (hle : low ≤ high)
    (hlow : CleanExit (aboveThreshold severities low) probeResults scenarioResults)
    (hhigh : nothingVerified (aboveThreshold severities high) probeResults = true) :
    ∃ r ∈ probeResults, VerifiesBetween severities low high r := by
  simp only [nothingVerified, Bool.and_eq_true, Bool.not_eq_true', List.any_eq_false,
    List.isEmpty_eq_false_iff_exists_mem, List.mem_filter, List.all_eq_true] at hhigh
  obtain ⟨hunclean, ⟨q, hq, hqualifies⟩, herrors⟩ := hhigh
  have hverified := hlow.verified
  simp only [nothingVerified, Bool.and_eq_false_iff, Bool.not_eq_false', List.any_eq_true,
    List.isEmpty_iff, List.filter_eq_nil_iff, List.all_eq_false, List.mem_filter] at hverified
  rcases hverified with ⟨r, hr, hclean⟩ | hnone | ⟨r, ⟨hr, hcounts⟩, herror⟩
  · -- a clean pass above the lower threshold is none above the higher one
    simp only [Bool.and_eq_true, Bool.not_eq_true'] at hclean
    refine ⟨r, hr, hclean.1.2, hclean.2, ?_, .inl hclean.1.1⟩
    simpa [hclean.1.1, hclean.1.2] using hunclean r hr
  · -- a result that qualifies at the higher threshold qualifies at the lower one
    refine absurd ?_ (hnone q hq)
    simp only [Bool.and_eq_true, Bool.not_eq_true']
    exact ⟨hqualifies.1, aboveThreshold_mono hle hqualifies.2⟩
  · have herror : r.error = none := by simpa using herror
    simp only [Bool.and_eq_true, Bool.not_eq_true'] at hcounts
    obtain ⟨⟨hs, hp⟩, habove⟩ := hcounts
    refine ⟨r, hr, hs, habove, ?_, .inr ⟨herror, fun hi => ?_⟩⟩
    · by_contra hne
      have hsome := herrors r ⟨hr, by simp [hs, hp, eq_true_of_ne_false hne]⟩
      simp [herror] at hsome
    · -- it would be a finding
      have hbelow := hlow.noFinding r hr (by simp [exitCodeTest, hs, hp, herror, hi])
      exact Bool.noConfusion (habove.symm.trans hbelow)

/-- The probe of a critical threat timed out. -/
def timedOut : ProbeResult Unit :=
  ⟨lit "P1", lit "T01-001", false, [], some (lit "probe timed out"), [], (), none, false⟩

/-- The probe of a minor threat passed. -/
def passedLow : ProbeResult Unit :=
  ⟨lit "P2", lit "T02-001", true, [], none, [], (), none, false⟩

def severitiesOfBoth : Dict Str Severity :=
  .ofList [(lit "T01-001", .critical), (lit "T02-001", .low)]

/-- The probe of a minor threat found something. -/
def failedLow : ProbeResult Unit :=
  ⟨lit "P2", lit "T02-001", false, [], none, [], (), none, false⟩

end CosaiMcp.Scan
