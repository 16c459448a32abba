import CosaiMcp.Assurance.Evaluate
import CosaiMcp.Py.Json

/-!
# Scorecards

The grades of the twelve categories of threats, and what stands beside them in a scorecard.
-/

namespace CosaiMcp.Scorecard

open Py

inductive Grade where
  | pass
  | warn
  | fail
  | notTested
deriving DecidableEq

def Grade.value : Grade → Str
  | .pass => lit "pass"
  | .warn => lit "warn"
  | .fail => lit "fail"
  | .notTested => lit "not_tested"

structure ComplianceMapping where
  owaspMcpTop10 : Str
  nistAiRmf : List Str

inductive ConformanceLevel where
  | fullConformance
  | partialConformance
  | nonConformant
  | insufficientCoverage
deriving DecidableEq

def ConformanceLevel.value : ConformanceLevel → Str
  | .fullConformance => lit "full_conformance"
  | .partialConformance => lit "partial_conformance"
  | .nonConformant => lit "non_conformant"
  | .insufficientCoverage => lit "insufficient_coverage"

/-- `_ENGINE_COVERAGE`. -/
def engineCoverage : Dict Str Str := .ofList
  [(lit "T1", lit "black_box_prober"), (lit "T2", lit "stateful_harness"),
    (lit "T3", lit "black_box_prober"), (lit "T4", lit "middleware_instrumentation"),
    (lit "T5", lit "middleware_instrumentation"), (lit "T6", lit "stateful_harness"),
    (lit "T7", lit "stateful_harness"), (lit "T8", lit "black_box_prober"),
    (lit "T9", lit "middleware_instrumentation"), (lit "T10", lit "black_box_prober"),
    (lit "T11", lit "black_box_prober"), (lit "T12", lit "middleware_instrumentation")]

structure CategoryResult where
  category : Str
  grade : Grade
  probeCount : Int
  findingCount : Int
  criticalCount : Int
  highCount : Int
  coverageEngine : Str
  inconclusiveCount : Int
  complianceMapping : Option ComplianceMapping

end CosaiMcp.Scorecard

namespace CosaiMcp

open Py Scorecard

structure Scorecard (φ : Type) where
  scanId : Str
  targetUrl : Str
  scanTimestamp : Str
  catalogHash : Str
  toolVersion : Str
  categories : List CategoryResult
  conformanceLevel : ConformanceLevel
  publicKey : Str
  signature : Str
  assurance : Option (Assurance.AssuranceReport (Json φ))

def Scorecard.isSigned {φ : Type} (s : Scorecard φ) : Bool :=
  !s.signature.isEmpty && !s.publicKey.isEmpty

end CosaiMcp
