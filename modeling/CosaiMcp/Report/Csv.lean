import CosaiMcp.Catalog.Loader
import CosaiMcp.Scan.Result

/-!
# The CSV report

`csvRows` holds the rows that `write_csv_report` writes below the header, before quoting: the rows of
each probe result, one for each of its assertions or a single one if it has none, and the rows of
each step of a scenario. The table of remediations is a parameter, and so is the text of a duration.
-/

namespace CosaiMcp.Report

open Py Catalog Scan

variable {φ ρ δ : Type}

structure CsvRow where
  probeId : Str
  threatId : Str
  category : Str
  categoryName : Str
  severity : Str
  engine : Str
  status : Str
  assertionTarget : Str
  assertionOperator : Str
  assertionExpected : Str
  assertionActual : Str
  assertionPassed : Str
  responseBody : Str
  error : Str
  durationSeconds : Str
  remediation : Str
  remediationSpecRef : Str
  remediationFixShape : Str

structure RemediationBlock where
  specRef : Str
  fixShape : Str

structure Texts (δ : Type) where
  /-- `get_remediation`. -/
  getRemediation : Str → Option RemediationBlock
  /-- `f"{d:.2f}"`. -/
  duration : δ → Str

def categoryNames : List (Str × Str) :=
  [(lit "T1", lit "Improper Authentication"), (lit "T2", lit "Missing Access Control"),
    (lit "T3", lit "Input Validation Failures"), (lit "T4", lit "Data/Control Boundary"),
    (lit "T5", lit "Inadequate Data Protection"),
    (lit "T6", lit "Integrity / Verification Failures"), (lit "T7", lit "Session Security Failures"),
    (lit "T8", lit "Network Binding Failures"), (lit "T9", lit "Trust Boundary Failures"),
    (lit "T10", lit "Resource Management"), (lit "T11", lit "Supply Chain / Lifecycle"),
    (lit "T12", lit "Insufficient Logging")]

/-- `_CATEGORY_NAMES.get(category, category)`. -/
def categoryName (category : Str) : Str :=
  match categoryNames.find? (·.1 = category) with
  | none => category
  | some p => p.2

/-- `_truncate`. -/
def truncate (s : Str) (maxLen : Nat) : Str :=
  if s.length > maxLen then s.take maxLen ++ [0x2026] else s

def formulaPrefixes : List CodePoint := [61, 43, 45, 64, 9, 13]

/-- `_safe_cell`. -/
def safeCell : Str → Str
  | [] => []
  | c :: s => if c ∈ formulaPrefixes then 9 :: c :: s else c :: s

/-! ## The status column -/

def passText : Str := lit "PASS"

def errorText : Str := lit "ERROR"

def findingText : Str := lit "FINDING"

/-- The status of a row with an assertion. -/
def statusWithAssertion (passed : Bool) : Str := if passed then passText else findingText

/-- The status of a row without one. -/
def statusAlone (passed : Bool) (error : Option Str) : Str :=
  if passed then passText
  else if (error.getD []) = [] then findingText
  else errorText

/-! ## The rows -/

/-- The last threat of the list with the id. -/
def threatById (threats : List (ThreatDefinition φ ρ)) (id : Str) : Option (ThreatDefinition φ ρ) :=
  (Dict.ofList (threats.map fun t => (t.id, t))).get? id

/-- A row about a probe result, without what it says about an assertion. -/
def probeRow (tx : Texts δ) (threats : List (ThreatDefinition φ ρ)) (r : ProbeResult δ)
    (status : Str) : CsvRow :=
  let threat := threatById threats r.threatId
  let category := (threat.map (·.category)).getD []
  let block := tx.getRemediation r.probeId
  { probeId := r.probeId
    threatId := r.threatId
    category := category
    categoryName := categoryName category
    severity := (threat.map fun t => t.severity.value).getD []
    engine := lit "prober"
    status := status
    assertionTarget := []
    assertionOperator := []
    assertionExpected := []
    assertionActual := []
    assertionPassed := []
    responseBody := safeCell (truncate r.responseBody 500)
    error := safeCell (r.error.getD [])
    durationSeconds := tx.duration r.durationSeconds
    remediation := (threat.map (·.remediation)).getD []
    remediationSpecRef := (block.map (·.specRef)).getD []
    remediationFixShape := (block.map (·.fixShape)).getD [] }

def probeRows (tx : Texts δ) (threats : List (ThreatDefinition φ ρ)) (r : ProbeResult δ) :
    List CsvRow :=
  if r.assertions.isEmpty then [probeRow tx threats r (statusAlone r.passed r.error)]
  else r.assertions.map fun a =>
    { probeRow tx threats r (statusWithAssertion r.passed) with
      assertionTarget := a.target
      assertionOperator := a.operator
      assertionExpected := safeCell a.expected
      assertionActual := safeCell a.actual
      assertionPassed := if a.passed then lit "yes" else lit "no" }

def stepRow (sr : ScenarioResult) (step : StepResult) (status : Str) : CsvRow :=
  let category := sr.threatCategories.headD []
  { probeId := sr.scenarioId
    threatId := sr.scenarioId
    category := category
    categoryName := categoryName category
    severity := lit "high"
    engine := lit "stateful"
    status := status
    assertionTarget := []
    assertionOperator := []
    assertionExpected := []
    assertionActual := []
    assertionPassed := []
    responseBody := []
    error := step.error.getD []
    durationSeconds := []
    remediation := lit "Step " ++ intText step.stepIndex ++ lit ": " ++ step.description
    remediationSpecRef := []
    remediationFixShape := [] }

def stepRows (sr : ScenarioResult) (step : StepResult) : List CsvRow :=
  if step.failures.isEmpty then [stepRow sr step (statusAlone step.passed step.error)]
  else step.failures.map fun f =>
    { stepRow sr step (statusWithAssertion step.passed) with
      assertionTarget := f.target
      assertionOperator := f.operator
      assertionExpected := f.expected
      assertionActual := f.actual
      assertionPassed := lit "no" }

/-- `write_csv_report`. -/
def csvRows (tx : Texts δ) (result : ScanResult φ ρ δ) : List CsvRow :=
  result.probeResults.flatMap (probeRows tx result.threats) ++
    result.scenarioResults.flatMap fun sr => sr.stepResults.flatMap (stepRows sr)

end CosaiMcp.Report
