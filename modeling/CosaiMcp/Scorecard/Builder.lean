import CosaiMcp.Ir.Incident
import CosaiMcp.Scorecard.Compliance

/-!
# Building a scorecard

`buildScorecard` counts the results of a scan by category. The category and the severity of a result
are those of the probe with its id (`probeMeta`); a result of a check of the manifest, which no
catalog defines, goes by its threat id. Signing is a parameter.
-/

namespace CosaiMcp.Scorecard

open Py Catalog Scan

variable {φ ρ δ : Type}

/-! ## Categories -/

/-- `_category_from_threat_id`: the number is what `0*([0-9]+)` matches after `T`. -/
def categoryFromThreatId (threatId : Str) : Str :=
  match threatId with
  | 84 :: rest =>
    match rest.takeWhile isDigit with
    | [] => lit "T?"
    | d :: ds =>
      match (d :: ds).dropWhile (· = 48) with
      | [] => lit "T0"
      | e :: es => lit "T" ++ (e :: es)
  | _ => lit "T?"

/-- What a catalog says about a probe. -/
structure ProbeMeta where
  severity : Str
  category : Str

/-- `probe_meta`: a later threat replaces what an earlier one says about a probe of the same id. -/
def probeMeta (threats : List (ThreatDefinition φ ρ)) : Dict Str ProbeMeta :=
  .ofList (threats.flatMap fun t => t.probes.map fun p => (p.id, ⟨t.severity.value, t.category⟩))

/-- `meta.get("category") or _category_from_threat_id(pr.threat_id)`. -/
def resultCategory (info : Option ProbeMeta) (threatId : Str) : Str :=
  match info.map ProbeMeta.category with
  | none | some [] => categoryFromThreatId threatId
  | some category => category

/-- `meta.get("severity", "medium")`. -/
def resultSeverity (info : Option ProbeMeta) : Str :=
  (info.map ProbeMeta.severity).getD (lit "medium")

/-! ## Counts -/

structure CatStats where
  probeCount : Nat
  findingCount : Nat
  criticalCount : Nat
  highCount : Nat
  passCount : Nat
  inconclusiveCount : Nat

def CatStats.zero : CatStats := ⟨0, 0, 0, 0, 0, 0⟩

/-- One turn of the loop over the results. -/
def CatStats.add (s : CatStats) (pr : ProbeResult δ) (sev : Str) : CatStats :=
  let s := { s with probeCount := s.probeCount + 1 }
  if pr.inconclusiveReason.isSome then { s with inconclusiveCount := s.inconclusiveCount + 1 }
  else if pr.passed then { s with passCount := s.passCount + 1 }
  else if pr.error.isNone then
    let s := { s with findingCount := s.findingCount + 1 }
    -- the table of ranks is that of the incidents
    if Ir.sevRankOf sev ≥ Ir.sevRankOf (lit "critical") then
      { s with criticalCount := s.criticalCount + 1 }
    else if Ir.sevRankOf sev ≥ Ir.sevRankOf (lit "high") then
      { s with highCount := s.highCount + 1 }
    else s
  else s

def catStats (threats : List (ThreatDefinition φ ρ)) (results : List (ProbeResult δ)) :
    Dict Str CatStats :=
  results.foldl (fun stats pr =>
    let info := (probeMeta threats).get? pr.probeId
    let cat := resultCategory info pr.threatId
    stats.set cat (((stats.get? cat).getD .zero).add pr (resultSeverity info))) .empty

/-! ## Grades -/

def gradeCategory (s : CatStats) : Grade :=
  if s.probeCount = 0 then .notTested
  else if s.passCount = 0 ∧ s.findingCount = 0 then .notTested
  else if s.findingCount = 0 then .pass
  else if s.criticalCount > 0 ∨ s.highCount > 0 then .fail
  else .warn

def maxNotTested : Nat := 4

def determineConformance (categories : List CategoryResult) : ConformanceLevel :=
  let fails := categories.filter (·.grade = .fail)
  if categories.countP (·.grade = .notTested) > maxNotTested then .insufficientCoverage
  else if fails.isEmpty then .fullConformance
  else if (fails.map CategoryResult.criticalCount).sum > 0 ∨ fails.length > 3 then .nonConformant
  else .partialConformance

/-! ## The scorecard -/

/-- The category of a number. -/
def categoryName (n : Nat) : Str := lit "T" ++ natText n

/-- The numbers of the categories. -/
def numbers : List Nat := List.range' 1 12

def categoryResult (cat : Str) (stats : CatStats) : CategoryResult :=
  ⟨cat, gradeCategory stats, stats.probeCount, stats.findingCount, stats.criticalCount,
    stats.highCount, (engineCoverage.get? cat).getD (lit "unknown"), stats.inconclusiveCount,
    categoryComplianceMap.get? cat⟩

def categoryResults (threats : List (ThreatDefinition φ ρ)) (results : List (ProbeResult δ)) :
    List CategoryResult :=
  let stats := catStats threats results
  numbers.map fun n => categoryResult (categoryName n) ((stats.get? (categoryName n)).getD .zero)

inductive SignError where
  /-- The fleet key is set and no key. -/
  | orgSigningKey
  | other

/-- `build_scorecard`; `sign` is `sign_scorecard`, if the scorecard is to be signed. A scan result
has no `scan_id`. -/
def buildScorecard (toolVersion : Str) (sign : Option (Scorecard φ → Except SignError (Scorecard φ)))
    (result : ScanResult φ ρ δ) : Except SignError (Scorecard φ) :=
  let categories := categoryResults result.threats result.probeResults
  let unsigned : Scorecard φ :=
    ⟨[], result.targetUrl, result.scanTimestamp, result.catalogHash, toolVersion, categories,
      determineConformance categories, [], [], result.assurance⟩
  match sign with
  | none => .ok unsigned
  | some sign =>
    match sign unsigned with
    | .ok signed => .ok signed
    | .error .orgSigningKey => .error .orgSigningKey
    | .error .other => .ok unsigned

end CosaiMcp.Scorecard
