import CosaiMcp.Assurance.Evaluate
import CosaiMcp.Catalog.Model

/-!
# Results of a scan

What a scan hands to its consumers: the threats of the catalog, one result for each probe and each
scenario. Texts are as the results have them, that is escaped. `δ` is a duration.
-/

namespace CosaiMcp.Scan

open Py Catalog

structure AssertionResult where
  target : Str
  operator : Str
  expected : Str
  actual : Str
  passed : Bool

structure ProbeResult (δ : Type) where
  probeId : Str
  threatId : Str
  passed : Bool
  responseBody : Str
  error : Option Str
  assertions : List AssertionResult
  durationSeconds : δ
  inconclusiveReason : Option Str
  /-- Accepted by an entry of the baseline. -/
  suppressed : Bool

structure AssertionFailure where
  target : Str
  operator : Str
  expected : Str
  actual : Str

structure StepResult where
  stepIndex : Nat
  description : Str
  passed : Bool
  failures : List AssertionFailure
  error : Option Str

structure ScenarioResult where
  scenarioId : Str
  threatCategories : List Str
  status : Assurance.ScenarioStatus
  passed : Bool
  stepResults : List StepResult

structure ScanResult (φ ρ δ : Type) where
  targetUrl : Str
  threats : List (ThreatDefinition φ ρ)
  probeResults : List (ProbeResult δ)
  scenarioResults : List ScenarioResult
  scanTimestamp : Str
  catalogHash : Str
  exitCode : Int
  assurance : Option (Assurance.AssuranceReport (Json φ))

end CosaiMcp.Scan
