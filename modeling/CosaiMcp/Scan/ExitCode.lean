import CosaiMcp.Catalog.Loader
import CosaiMcp.Scan.Result

/-!
# The exit code of a scan

`determineExitCode` is `_determine_exit_code`: 2 if the scan is incomplete or nothing was verified,
1 if there are findings at or above the threshold, 0 otherwise.
-/

namespace CosaiMcp.Scan

open Py Catalog

variable {φ ρ δ : Type}

/-! ## The properties of a scan result -/

/-- The probe results that `has_findings` looks for. -/
def hasFindingsTest (r : ProbeResult δ) : Bool :=
  r.error.isNone && (!r.passed && !r.suppressed && r.inconclusiveReason.isNone)

def ScanResult.hasFindings (s : ScanResult φ ρ δ) : Bool :=
  s.probeResults.any hasFindingsTest ||
    s.scenarioResults.any fun r => !r.passed && decide (r.status = .complete)

def ScanResult.isIncomplete (s : ScanResult φ ρ δ) : Bool :=
  s.scenarioResults.any fun r => decide (r.status = .scanIncomplete)

/-! ## The exit code -/

/-- `_SEVERITY_RANK` of a severity. -/
def severityRank : Severity → Nat
  | .info => 0
  | .low => 1
  | .medium => 2
  | .high => 3
  | .critical => 4

/-- `_SEVERITY_RANK.get(fail_on.lower(), _SEVERITY_RANK["critical"])`. -/
def failOnThreshold (U : UnicodeData) (failOn : Str) : Nat :=
  match [Severity.info, .low, .medium, .high, .critical].find? (·.value = U.lower failOn) with
  | none => severityRank .critical
  | some s => severityRank s

def operationalErrorMarkers : List Str := [lit "timed out", lit "-32029"]

/-- `_is_crash`. -/
def isCrash (r : ProbeResult δ) : Bool :=
  match r.error with
  | none => false
  | some e => !operationalErrorMarkers.any fun m => decide (m <:+: e)

/-- `_above_threshold`, which without a map of severities holds of every result. -/
def aboveThreshold (threatSeverity : Option (Dict Str Severity)) (threshold : Nat)
    (r : ProbeResult δ) : Bool :=
  match threatSeverity with
  | none => true
  | some severities =>
    match severities.get? r.threatId with
    | none => true
    | some s => decide (threshold ≤ severityRank s)

/-- The probe results that count for exit code 1, the threshold aside. -/
def exitCodeTest (r : ProbeResult δ) : Bool :=
  !r.passed && r.error.isNone && r.inconclusiveReason.isNone && !r.suppressed

/-- No clean pass, and every result that is none has an error. -/
def nothingVerified (above : ProbeResult δ → Bool) (probeResults : List (ProbeResult δ)) : Bool :=
  let hasClean := probeResults.any fun r => r.passed && !r.suppressed && above r
  let qualifying := probeResults.filter fun r => !r.suppressed && !r.passed && above r
  !hasClean && (!qualifying.isEmpty && qualifying.all fun r => r.error.isSome)

/-- `_determine_exit_code`. -/
def determineExitCode (U : UnicodeData) (probeResults : List (ProbeResult δ))
    (scenarioResults : List ScenarioResult) (failOn : Str)
    (threatSeverity : Option (Dict Str Severity)) : Int :=
  let above := aboveThreshold threatSeverity (failOnThreshold U failOn)
  if scenarioResults.any fun r => decide (r.status = .scanIncomplete) then 2
  else if probeResults.any isCrash then 2
  else if nothingVerified above probeResults then 2
  else if probeResults.any (fun r => exitCodeTest r && above r) ||
      scenarioResults.any fun r => !r.passed && !decide (r.status = .inconclusive) then 1
  else 0

end CosaiMcp.Scan
