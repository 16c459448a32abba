import CosaiMcp.Py.Record

/-!
# The anomaly detector

`AnomalyDetector` keeps the events of a rolling window and raises an alert when more of them are
findings, or critical ones, than a threshold allows. An event is the members of a `dict`, which need
not be those of an OCSF event: reading it may raise.

The clock is an input. What `int` and `str` make of a value is a parameter, with the conversion of
the window to milliseconds.
-/

namespace CosaiMcp.Telemetry

open Py

variable {φ : Type}

/-! ## Events -/

abbrev Event (φ : Type) := List (Str × Json φ)

structure AnomalyRuntime (φ : Type) where
  builtins : Builtins φ
  /-- `int(seconds * 1000)`. -/
  milliseconds : φ → Except PyError Int
  /-- `0.0`. -/
  zeroSeconds : φ

section Read

variable (R : AnomalyRuntime φ)

/-- `_is_finding`. -/
def isFinding [PyFloat φ] (event : Event φ) : Except PyError Bool := do
  let unmapped ← getDefault (.obj event) (lit "unmapped") (.obj [])
  let passed ← getDefault unmapped (lit "passed") (.bool true)
  return !passed.truthy

/-- `_severity_id`. -/
def severityId (event : Event φ) : Except PyError Int := do
  let severity ← getDefault (.obj event) (lit "severity_id") (.int 99)
  R.builtins.int severity

/-- A finding of a critical severity. -/
def isCriticalFinding [PyFloat φ] (event : Event φ) : Except PyError Bool := do
  let finding ← isFinding event
  if finding then
    let severity ← severityId R event
    return 5 ≤ severity
  else return false

end Read

/-! ## Alerts -/

inductive AnomalyRule where
  | highFindingRate
  | criticalBurst
  | severityEscalation
deriving DecidableEq

structure AnomalyAlert (φ : Type) where
  rule : AnomalyRule
  message : Str
  eventCount : Nat
  windowSeconds : φ
  triggeredAtMs : Int

/-- An event with the time at which it was ingested. -/
structure Ingested (φ : Type) where
  event : Event φ
  ingestedAtMs : Int

structure AnomalyThresholds (φ : Type) where
  highFindingRateThreshold : Int
  criticalBurstThreshold : Int
  severityEscalationBaseline : Int
  windowSeconds : φ

namespace AnomalyThresholds

variable [PyFloat φ] (c : AnomalyThresholds φ)

def highFindingRateMessage (count : Nat) : Str :=
  lit "High finding rate: " ++ natText count ++ lit " findings in " ++
    FloatText.repr c.windowSeconds ++ lit "s window (threshold=" ++
    intText c.highFindingRateThreshold ++ lit ")"

def criticalBurstMessage (count : Nat) : Str :=
  lit "Critical finding burst: " ++ natText count ++ lit " critical findings in " ++
    FloatText.repr c.windowSeconds ++ lit "s window (threshold=" ++
    intText c.criticalBurstThreshold ++ lit ")"

end AnomalyThresholds

structure AnomalyDetector (φ : Type) extends AnomalyThresholds φ where
  events : List (Ingested φ)
  alerts : List (AnomalyAlert φ)

def AnomalyDetector.new (thresholds : AnomalyThresholds φ) : AnomalyDetector φ :=
  { thresholds with
    events := []
    alerts := [] }

namespace AnomalyDetector

variable [PyFloat φ] (R : AnomalyRuntime φ) (d : AnomalyDetector φ)

/-- `_evict_stale`. -/
def evictStale (nowMs : Int) : Except PyError (AnomalyDetector φ) := do
  let cutoff := nowMs - (← R.milliseconds d.windowSeconds)
  return { d with events := d.events.filter (cutoff ≤ ·.ingestedAtMs) }

/-- The number of events of the window that the test is true of. -/
def countWhere (test : Event φ → Except PyError Bool) : Except PyError Nat := do
  let results ← d.events.mapM fun e => test e.event
  return results.countP id

/-- The last alert of the rule. -/
def lastAlert (rule : AnomalyRule) : Option (AnomalyAlert φ) := d.alerts.reverse.find? (·.rule = rule)

/-- An alert, if the count is above the threshold and above that of the last alert of the rule. -/
def checkCount (rule : AnomalyRule) (test : Event φ → Except PyError Bool) (threshold : Int)
    (message : Nat → Str) (nowMs : Int) : Except PyError (List (AnomalyAlert φ)) := do
  let count ← d.countWhere test
  if threshold < count ∧ ∀ last ∈ d.lastAlert rule, last.eventCount < count then
    return [⟨rule, message count, count, d.windowSeconds, nowMs⟩]
  else return []

def checkHighFindingRate (nowMs : Int) : Except PyError (List (AnomalyAlert φ)) :=
  d.checkCount .highFindingRate isFinding d.highFindingRateThreshold
    d.toAnomalyThresholds.highFindingRateMessage nowMs

def checkCriticalBurst (nowMs : Int) : Except PyError (List (AnomalyAlert φ)) :=
  d.checkCount .criticalBurst (isCriticalFinding R) d.criticalBurstThreshold
    d.toAnomalyThresholds.criticalBurstMessage nowMs

def checkSeverityEscalation (event : Event φ) (nowMs : Int) :
    Except PyError (List (AnomalyAlert φ)) := do
  let finding ← isFinding event
  if finding then
    let sev ← severityId R event
    if d.severityEscalationBaseline < sev then
      let sevName ← getDefault (.obj event) (lit "severity") (.str (intText sev))
      let unmapped ← getDefault (.obj event) (lit "unmapped") (.obj [])
      let probeId ← getDefault unmapped (lit "probe_id") (.str (lit "?"))
      return [⟨.severityEscalation,
        lit "Severity escalation: " ++ R.builtins.str sevName ++ lit " (id=" ++ intText sev ++
          lit ") finding exceeds baseline threshold (id=" ++
          intText d.severityEscalationBaseline ++ lit "). probe=" ++ R.builtins.str probeId,
        1, R.zeroSeconds, nowMs⟩]
    else return []
  else return []

/-- `ingest`, with the time. The event is kept where reading it, or another one, raises. -/
def ingest (input : Ingested φ) : Except PyError (List (AnomalyAlert φ)) × AnomalyDetector φ :=
  let d := { d with events := d.events ++ [input] }
  match d.evictStale R input.ingestedAtMs with
  | .error e => (.error e, d)
  | .ok d =>
    let found := do
      let rate ← d.checkHighFindingRate input.ingestedAtMs
      let burst ← d.checkCriticalBurst R input.ingestedAtMs
      let escalation ← d.checkSeverityEscalation R input.event input.ingestedAtMs
      return rate ++ burst ++ escalation
    match found with
    | .error e => (.error e, d)
    | .ok newAlerts => (.ok newAlerts, { d with alerts := d.alerts ++ newAlerts })

end AnomalyDetector

end CosaiMcp.Telemetry
