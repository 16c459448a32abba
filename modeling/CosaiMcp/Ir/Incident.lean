import CosaiMcp.Catalog.Loader
import CosaiMcp.Scan.Result

/-!
# Incidents

What `_run_ir_containment` makes of a scan: its findings (`irFindings`), the rules that they break,
and the containment actions it runs (`containmentActions`), of which those recommended for a breach
come from the worst severity.
-/

namespace CosaiMcp.Ir

open Py Catalog Scan

variable {φ ρ δ : Type}

inductive ContainmentAction where
  | emitIncident
  | quarantineReport
  | blockEgress
  | sessionKill
deriving DecidableEq

structure Finding where
  probeId : Str
  threatId : Str
  severity : Str

/-! ## The findings -/

/-- The severity of each probe of the catalog, by the last threat that defines it. -/
def probeSeverity (threats : List (ThreatDefinition φ ρ)) : Dict Str Str :=
  Dict.ofList (threats.flatMap fun t => t.probes.map fun p => (p.id, t.severity.value))

/-- The probe results that containment takes for findings. -/
def irTest (r : ProbeResult δ) : Bool := !r.passed && r.error.isNone && !r.suppressed

def irFindings (result : ScanResult φ ρ δ) : List Finding :=
  (result.probeResults.filter irTest).map fun p =>
    ⟨p.probeId, p.threatId, ((probeSeverity result.threats).get? p.probeId).getD (lit "medium")⟩

/-! ## The incident -/

/-- `_SEV_RANK`. -/
def sevRank : List (Str × Nat) :=
  [(lit "info", 0), (lit "informational", 0), (lit "low", 1), (lit "medium", 2), (lit "high", 3),
    (lit "critical", 4)]

/-- `_SEV_RANK.get(severity, 0)`. -/
def sevRankOf (severity : Str) : Nat :=
  match sevRank.find? (·.1 = severity) with
  | none => 0
  | some p => p.2

/-- The worst rank, that of `medium` if there is no finding. -/
def worstRank (findings : List Finding) : Nat :=
  match findings with
  | [] => 2
  | f :: fs => fs.foldl (fun n g => max n (sevRankOf g.severity)) (sevRankOf f.severity)

def recommendedActions (findings : List Finding) : List ContainmentAction :=
  if worstRank findings ≥ 3 then [.sessionKill, .emitIncident, .quarantineReport, .blockEgress]
  else [.emitIncident, .quarantineReport]

/-! ## Containment -/

structure IrOptions where
  containOnAnomaly : Bool
  irReportPath : Option Str
  emitTo : Option Str
  anomalyThreshold : Int
  criticalBurstThreshold : Int

/-- An option that is given, and not as the empty text. -/
def given (o : Option Str) : Bool := !(o.getD []).isEmpty

inductive AnomalyRule where
  | highFindingRate
  | criticalBurst
deriving DecidableEq

def anomalyRules (opts : IrOptions) (findings : List Finding) : List AnomalyRule :=
  if opts.containOnAnomaly then
    (if (findings.length : Int) > opts.anomalyThreshold then [.highFindingRate] else []) ++
    (if ((findings.countP fun f => f.severity = lit "critical" : Nat) : Int) >
        opts.criticalBurstThreshold then [.criticalBurst] else [])
  else []

/-- The actions that `_run_ir_containment` performs. -/
def containmentActions (opts : IrOptions) (result : ScanResult φ ρ δ) : List ContainmentAction :=
  let findings := irFindings result
  let rules := anomalyRules opts findings
  if findings.isEmpty then []
  else if opts.containOnAnomaly && rules.isEmpty && !given opts.irReportPath && !given opts.emitTo
  then []
  else if !rules.isEmpty && opts.containOnAnomaly then recommendedActions findings
  else
    (if given opts.emitTo then [.emitIncident] else []) ++
    (if given opts.irReportPath then [.quarantineReport] else [])

end CosaiMcp.Ir
