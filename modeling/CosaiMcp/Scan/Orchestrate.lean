import CosaiMcp.Logged
import CosaiMcp.Scan.Plan

/-!
# A scan

`runScan` is `_run_scan`: what it does to the target, in order (`Contact`), and the result it returns
or the exception it raises. After the checks of `prepare` it pins the protocol era, scans the tools
that it discovers, runs the probes of the threats one threat after the other, and then the stateful
scenarios. The exit code is 0 only if a level that is claimed is met.

What the target does is a parameter: every function may depend on the credentials it sees, and the
results of a threat on the point of the scan at which it runs. The pauses between the probes, and the
canaries that are looked for in responses, are left out.
-/

namespace CosaiMcp.Scan

open Py
open Assurance (LevelResult evaluateAssurance)
open Catalog
open Harness (ScanConfig)
open Protocol (ProtocolEra)

variable {φ ρ δ κ : Type}

/-! ## What is done to the target -/

/-- The arguments of `ProbeRunner.run_threat`, and the configuration of the runner. -/
structure ThreatRun (φ ρ : Type) where
  config : ScanConfig
  threat : ThreatDefinition φ ρ
  vars : Dict Str Str
  passOnAuthReject : Bool
  discoveredTool : Option (DiscoveredTool φ)

inductive StatefulScenario where
  | t2PrivilegeEscalationChain
  | t2ConfusedDeputy
  | t6ToolShadowingMidSession
  | t7SessionTokenBinding
  | t7SessionRevocation

def StatefulScenario.category : StatefulScenario → Str
  | .t2PrivilegeEscalationChain => lit "T2"
  | .t2ConfusedDeputy => lit "T2"
  | .t6ToolShadowingMidSession => lit "T6"
  | .t7SessionTokenBinding => lit "T7"
  | .t7SessionRevocation => lit "T7"

/-- `_stateful_scenarios`. -/
def statefulScenarios : List StatefulScenario :=
  [.t2PrivilegeEscalationChain, .t2ConfusedDeputy, .t6ToolShadowingMidSession,
    .t7SessionTokenBinding, .t7SessionRevocation]

inductive Contact (φ ρ : Type) where
  | detectProtocolEra (config : ScanConfig)
  | discoverTools (config : ScanConfig)
  | protectedResourceMetadata (config : ScanConfig)
  /-- The threat at an index is run. -/
  | threat (index : Nat) (run : ThreatRun φ ρ)
  | scenario (scenario : StatefulScenario) (config : ScanConfig)
  | discoverToolsChecked (config : ScanConfig)

structure Target (φ ρ δ : Type) where
  detectProtocolEra : ScanConfig → Option ProtocolEra
  discoverTools : ScanConfig → List (DiscoveredTool φ)
  protectedResourceMetadata : ScanConfig → List (ProbeResult δ)
  /-- The results of the threat at an index. -/
  runThreat : Nat → ThreatRun φ ρ → Except PyError (List (ProbeResult δ))
  runScenario : StatefulScenario → ScanConfig → ScenarioResult
  /-- `none` where the discovery fails. -/
  discoverToolsChecked : ScanConfig → Option (List (DiscoveredTool φ))

abbrev Scanning (φ ρ : Type) := Logged.{0, 0, 0} (ScanError φ) (Contact φ ρ)

/-- What `evaluate_assurance` reads of the result of a scenario. -/
def ScenarioResult.evidence (r : ScenarioResult) : Assurance.ScenarioResult :=
  ⟨r.scenarioId, r.status, r.passed⟩

section Scan

variable (T : Tools φ ρ δ κ) (opts : Options) (target : Target φ ρ δ)

/-! ## Probes -/

/-- `MIDDLEWARE_ONLY_CATEGORIES`. -/
def isMiddlewareOnly (t : ThreatDefinition φ ρ) : Bool :=
  [lit "T4", lit "T9", lit "T12"].contains (T.upper t.category)

/-- `AUTH_PROBE_CATEGORIES`. -/
def isAuthCategory (t : ThreatDefinition φ ρ) : Bool := T.upper t.category = lit "T1"

/-- The configuration of a probe that tests the authentication: no credentials, and the era that the
operator asked for. -/
def noAuthConfig (config : ScanConfig) : ScanConfig :=
  { config with authToken := none, authHeader := none, protocolEra := opts.protocolEra }

def requiresModern (p : Probe φ ρ) : Bool := p.requiresProtocolEra = some (lit "modern")

/-- The configuration that a threat is run with, in a scan with this configuration. -/
def probeConfig (config : ScanConfig) (t : ThreatDefinition φ ρ) : ScanConfig :=
  if isAuthCategory T t then
    if config.protocolEra = .modern ∧ t.probes.any requiresModern then
      { noAuthConfig opts config with protocolEra := .modern }
    else noAuthConfig opts config
  else config

/-- `generate_canary`. -/
def generateCanary (threatId scanId token : Str) : Str :=
  lit "COSAI_PROBE_" ++ T.upper threatId ++ [95] ++
    (if scanId = [] then lit "00000000" else T.upper (scanId.take 8)) ++ 95 :: token

def threatVariables (toolName : Str) (i : Nat) (t : ThreatDefinition φ ρ) : Dict Str Str :=
  let adv := opts.adversarial T
  let vars := Dict.ofList [(lit "target_url", opts.target),
    (lit "session_id", lit "cosai-scan"), (lit "tool_name", toolName)]
  if adv.enabled && isAdversarialId T t.id then
    vars.set (lit "canary") (generateCanary T t.id adv.scanId (T.canaryToken i))
  else vars

/-- The tool that payloads are synthesized for. -/
def activeTool (tools : List (DiscoveredTool φ)) (toolName : Str) : Option (DiscoveredTool φ) :=
  if opts.adaptive then tools.find? (fun t => t.name = toolName) <|> tools.head? else none

/-- The name of the first tool, or the name that the profile has for it. -/
def realToolName (tools : List (DiscoveredTool φ)) : Str :=
  let name := (tools.head?.map DiscoveredTool.name).getD (lit "ping")
  (opts.profile.map (·.applyToolName name)).getD name

def threatRun (config : ScanConfig) (tools : List (DiscoveredTool φ)) (i : Nat)
    (t : ThreatDefinition φ ρ) : ThreatRun φ ρ :=
  ⟨probeConfig T opts config t, t, threatVariables T opts (realToolName opts tools) i t,
    isAuthCategory T t, activeTool opts tools (realToolName opts tools)⟩

/-- The threats from an index on. -/
def runThreats (config : ScanConfig) (tools : List (DiscoveredTool φ)) :
    Nat → List (ThreatDefinition φ ρ) → Scanning φ ρ (List (ProbeResult δ))
  | _, [] => pure []
  | i, t :: ts =>
    if isMiddlewareOnly T t then runThreats config tools (i + 1) ts
    else do
      let run := threatRun T opts config tools i t
      Logged.act (.threat i run)
      let results ← Logged.lift ((target.runThreat i run).mapError .raised)
      let rest ← runThreats config tools (i + 1) ts
      return results ++ rest

/-- A passive scan, where its category is in scope. -/
def passive (plan : Plan φ ρ) (category : Str) (scan : Scanning φ ρ (List (ProbeResult δ))) :
    Scanning φ ρ (List (ProbeResult δ)) :=
  if inScope plan.categories category then scan else pure []

def scanManifestOf (results : Except PyError (List (ProbeResult δ))) :
    Scanning φ ρ (List (ProbeResult δ)) := Logged.lift (results.mapError .raised)

/-- The metadata is asked for without credentials. -/
def scanMetadata (config : ScanConfig) : Scanning φ ρ (List (ProbeResult δ)) := do
  let noauth := { config with authToken := none, authHeader := none }
  Logged.act (.protectedResourceMetadata noauth)
  return target.protectedResourceMetadata noauth

/-- The passive scans of the tools that were discovered. -/
def passiveScans (plan : Plan φ ρ) (config : ScanConfig) (tools : List (DiscoveredTool φ)) :
    Scanning φ ρ (List (ProbeResult δ)) := do
  let R := T.manifest
  let t4 ← passive plan (lit "T4") (scanManifestOf (scanManifestT4 R tools))
  let t9 ← passive plan (lit "T9") (pure (scanManifestT9 R tools))
  let t5 ← passive plan (lit "T5") (scanManifestOf (scanManifestT5 R opts.piiStrict tools))
  let t6 ← passive plan (lit "T6") (pure (scanManifestT6 R tools))
  let t1 ← passive plan (lit "T1") (scanMetadata target config)
  let t3 ← passive plan (lit "T3") (scanManifestOf (scanManifestT3Schema R tools))
  let t11 ← passive plan (lit "T11") (pure (scanManifestT11 R opts.toolAllowlist tools))
  return t4 ++ t9 ++ t5 ++ t6 ++ t1 ++ t3 ++ t11

/-- The prober engine: its results, and the tools that were discovered. -/
def runProber (plan : Plan φ ρ) (config : ScanConfig) :
    Scanning φ ρ (List (ProbeResult δ) × List (DiscoveredTool φ)) := do
  Logged.act (.discoverTools config)
  let tools := target.discoverTools config
  let passives ← passiveScans T opts target plan config tools
  let results ← runThreats T opts target config tools 0 plan.threats
  return (passives ++ results, tools)

/-! ## Scenarios -/

def runScenarios (plan : Plan φ ρ) (config : ScanConfig) :
    List StatefulScenario → Scanning φ ρ (List ScenarioResult)
  | [] => pure []
  | s :: scenarios =>
    if skips opts s.category || !inScope plan.categories s.category then
      runScenarios plan config scenarios
    else do
      Logged.act (.scenario s config)
      let rest ← runScenarios plan config scenarios
      return target.runScenario s config :: rest

/-! ## The result -/

/-- The results with the findings that the baseline accepts. -/
def applyBaselineFile (results : List (ProbeResult δ)) :
    Except (ScanError φ) (List (ProbeResult δ)) :=
  match opts.baseline with
  | none => .ok results
  | some (.error e) => .error (.raised e)
  | some (.ok b) =>
    match applyBaseline T.sha256Hex results b with
    | none => .error (.raised .valueError)
    | some results => .ok results

def exitCodeOf (plan : Plan φ ρ) (results : List (ProbeResult δ))
    (scenarios : List ScenarioResult) : Int :=
  determineExitCode T.urls.toUnicodeData results scenarios opts.failOn
    (some (Dict.ofList (plan.threats.map fun t => (t.id, t.severity))))

/-- The target demands authentication. -/
def authRequiredSeen (results : List (ProbeResult δ)) : Bool :=
  opts.authToken.isSome || opts.effectiveAuthHeader.isSome ||
    results.any fun r => r.threatId = lit "T01" && (r.inconclusiveReason.isNone ||
      r.probeId = lit "T01-prm-5" || r.probeId = lit "T01-prm-6")

/-- The threats whose probes all need the modern era, and are promoted to tests that must have
run. -/
def modernOnlyIds (config : ScanConfig) (noTools : Bool) (threats : List (ThreatDefinition φ ρ)) :
    Finset Str :=
  if config.protocolEra = .legacy then ∅
  else ((threats.filter fun t => t.probes ≠ [] && t.probes.all requiresModern &&
    !(noTools && t.probes.any fun p => p.method = lit "tools/call")).map
      ThreatDefinition.id).toFinset

def requiredOptional (plan : Plan φ ρ) (config : ScanConfig) (noTools : Bool)
    (results : List (ProbeResult δ)) : Finset Str :=
  modernOnlyIds config noTools plan.threats ∪
    if authRequiredSeen opts results then {lit "T01-008"} else ∅

def scopeOf (plan : Plan φ ρ) : Dict Str (Json φ) :=
  Dict.ofList [(lit "scan_id", .str T.scanId), (lit "target_url", .str opts.target),
    (lit "engine", .str plan.engine), (lit "categories", .null),
    (lit "profile", (opts.profile.map fun p => Json.str p.name).getD .null),
    (lit "protocol_era", .str opts.protocolEra.value),
    (lit "auth_token_supplied", .bool opts.authToken.isSome),
    (lit "read_token_supplied", .bool opts.readToken.isSome),
    (lit "foreign_audience_token_supplied", .bool opts.foreignAudienceToken.isSome),
    (lit "adaptive", .bool opts.adaptive),
    (lit "stateful_method_overrides",
      .arr ((sortStrs (opts.statefulMethodOverrides.getD .empty).keys).map .str)),
    (lit "tool_allowlist_supplied", .bool opts.toolAllowlist.isSome),
    (lit "baseline_applied", .bool opts.baseline.isSome),
    (lit "evidence_controls", .arr ((sortStrs plan.evidence.keys).map .str))]

/-- The report on a level. -/
def assess (plan : Plan φ ρ) (config : ScanConfig) (noTools : Bool) (level : Int)
    (results : List (ProbeResult δ)) (scenarios : List ScenarioResult) :
    Except (ScanError φ) (Assurance.AssuranceReport (Json φ)) :=
  (evaluateAssurance T.isDecimal T.controls level (results.map ProbeResult.evidence)
    (scenarios.map ScenarioResult.evidence) (some plan.evidence) (some (scopeOf T opts plan))
    (requiredOptional opts plan config noTools results)).mapError fun _ => .raised .valueError

/-- A level that is claimed and not met fails the scan. -/
def gated (report : Assurance.AssuranceReport (Json φ)) (exitCode : Int) : Int :=
  if report.result ≠ .met ∧ report.result ≠ .metWithAttestation ∧ exitCode = 0 then 1 else exitCode

/-- Whether a discovery that succeeds finds no tools, if the first one found none. -/
def confirmNoTools (config : ScanConfig) (tools : List (DiscoveredTool φ)) : Scanning φ ρ Bool :=
  if tools.isEmpty then do
    Logged.act (.discoverToolsChecked config)
    return (target.discoverToolsChecked config).any List.isEmpty
  else pure false

/-- The exit code and the report, for these results. -/
def conclude (plan : Plan φ ρ) (config : ScanConfig) (tools : List (DiscoveredTool φ))
    (results : List (ProbeResult δ)) (scenarios : List ScenarioResult) :
    Scanning φ ρ (Int × Option (Assurance.AssuranceReport (Json φ))) :=
  let exitCode := exitCodeOf T opts plan results scenarios
  match opts.assuranceLevel with
  | none => pure (exitCode, none)
  | some level => do
    let noTools ← confirmNoTools target config tools
    let report ← Logged.lift (assess T opts plan config noTools level results scenarios)
    return (gated report exitCode, some report)

/-! ## The scan -/

/-- The configuration with the era of the target, where that is detected. -/
def pinEra (config : ScanConfig) : Scanning φ ρ ScanConfig :=
  if config.protocolEra = .auto then do
    Logged.act (.detectProtocolEra config)
    return { config with protocolEra := (target.detectProtocolEra config).getD .auto }
  else pure config

def runEngine {α : Type} (engine name : Str) (run : Scanning φ ρ α) (skipped : α) :
    Scanning φ ρ α :=
  if engine = name ∨ engine = lit "all" then run else pure skipped

/-- `_run_scan` from the first request on. -/
def runPlan (plan : Plan φ ρ) : Scanning φ ρ (ScanResult φ ρ δ) := do
  let config ← pinEra target opts.config
  let (found, tools) ← runEngine plan.engine (lit "prober") (runProber T opts target plan config)
    ([], [])
  let scenarios ← runEngine plan.engine (lit "stateful")
    (runScenarios opts target plan config statefulScenarios) []
  let results ← Logged.lift (applyBaselineFile T opts found)
  let (exitCode, assurance) ← conclude T opts target plan config tools results scenarios
  return ⟨opts.target, plan.threats, results, scenarios, T.scanTimestamp, plan.catalogHash, exitCode,
    assurance⟩

def runScan [PyFloat φ] (tree : CatalogTree) : Scanning φ ρ (ScanResult φ ρ δ) := do
  let plan ← Logged.lift (prepare T opts tree)
  runPlan T opts target plan

end Scan

end CosaiMcp.Scan
