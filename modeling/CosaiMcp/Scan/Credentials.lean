import CosaiMcp.Scan.ManifestTotality
import CosaiMcp.Scan.Orchestrate

/-!
# What a scan sends, and with which credentials

Nothing is done to the target by a scan that is refused, and each thing that is done is authorized
(`runScan_authorized`): a threat that is run has been loaded, is in scope and has passed the checks of
its kind; a test of the authentication goes without credentials, another probe with those of the
operator, and a token for another purpose is used by the probes that ask for it alone.
-/

namespace CosaiMcp.Scan

open Py
open Adversarial (checkNoExternalEndpoints)
open Catalog
open Harness (ScanConfig effectiveConfig withToken)
open Protocol (ProtocolEra)

variable {φ ρ δ κ : Type}

/-! ## Credentials -/

def bearer (token : Str) : Str := lit "Bearer " ++ token

/-- The `Authorization` header of the requests of a transport (`_build_headers`). -/
def authorization (config : ScanConfig) : Option Str :=
  if config.authHeader.getD [] ≠ [] then config.authHeader
  else if config.authToken.getD [] ≠ [] then config.authToken.map bearer
  else none

def operatorAuthorization (opts : Options) : Option Str := authorization opts.config

section Credentials

variable (T : Tools φ ρ δ κ) (opts : Options)

/-- The header that a probe of the threat is to be sent with. -/
def probeAuthorization (t : ThreatDefinition φ ρ) (p : Probe φ ρ) : Option Str :=
  if p.probeToken = some (lit "read") then opts.readToken.map bearer
  else if p.probeToken = some (lit "foreign_audience") then opts.foreignAudienceToken.map bearer
  else if isAuthCategory T t then none
  else operatorAuthorization opts

/-- The configuration of the operator, for an era. -/
def Pinned (config : ScanConfig) : Prop := ∃ era, config = { opts.config with protocolEra := era }

theorem authorization_withToken {config config' : ScanConfig} {probeToken : Str}
    {token : Option Str} (h : withToken (φ := φ) config probeToken token = .ok config') :
    authorization config' = token.map bearer := by
  unfold withToken at h
  split at h
  · cases h
  · cases h
  next token hne =>
  cases h
  have hne : token ≠ [] := fun h => hne (by rw [h])
  simp [authorization, hne]

variable {opts}

theorem Pinned.authorization {config : ScanConfig} (h : Pinned opts config) :
    authorization config = operatorAuthorization opts := by
  obtain ⟨era, rfl⟩ := h
  rfl

/-- A probe goes out with the header for its purpose. -/
theorem authorization_effectiveConfig {config config' : ScanConfig} (h : Pinned opts config)
    {t : ThreatDefinition φ ρ} {p : Probe φ ρ}
    (heffective : effectiveConfig (probeConfig T opts config t) p = .ok config') :
    Scan.authorization config' = probeAuthorization T opts t p := by
  have htokens : (probeConfig T opts config t).readToken = opts.readToken ∧
      (probeConfig T opts config t).foreignAudienceToken = opts.foreignAudienceToken := by
    obtain ⟨era, rfl⟩ := h
    rw [probeConfig]
    split
    · split <;> exact ⟨rfl, rfl⟩
    · exact ⟨rfl, rfl⟩
  rw [effectiveConfig] at heffective
  rw [probeAuthorization]
  split at heffective
  next hread =>
    rw [if_pos hread, ← htokens.1]
    exact authorization_withToken heffective
  next hread =>
  rw [if_neg hread]
  split at heffective
  next hforeign =>
    rw [if_pos hforeign, ← htokens.2]
    exact authorization_withToken heffective
  next hforeign =>
  rw [if_neg hforeign]
  cases heffective
  rw [probeConfig]
  split
  · split <;> rfl
  · exact h.authorization

end Credentials

/-! ## What has been checked -/

/-- What is asked of a scan that claims a level. -/
structure FullScan (T : Tools φ ρ δ κ) (opts : Options) (level : Int) : Prop where
  level : level ∈ [1, 2, 3, 4]
  categories : opts.categories.getD [] = []
  engine : T.urls.lower opts.engine = lit "all"
  official : opts.allowCustomCatalog = false
  era : opts.protocolEra = .auto
  skipsNothing : ∀ p, opts.profile = some p → p.skipCategories = []

section Checks

variable {T : Tools φ ρ δ κ} {opts : Options}

theorem checkTarget_eq_ok_iff :
    checkTarget T opts = .ok () ↔ isTarget T.urls opts.target = true := by
  rw [checkTarget]
  split
  next h => exact iff_of_true rfl h
  next h => exact iff_of_false nofun h

/-- A claim of a level goes through for a full scan only. -/
theorem of_checkAssurance {engine : Str} {evidence : Dict Str Assurance.EvidenceItem}
    (hengine : engine = T.urls.lower opts.engine)
    (h : checkAssurance T opts engine = .ok evidence) {level : Int}
    (hlevel : opts.assuranceLevel = some level) :
    FullScan T opts level ∧ loadEvidence T opts = .ok evidence := by
  subst hengine
  rw [checkAssurance, hlevel] at h
  simp only [ite_error_eq_ok_iff] at h
  obtain ⟨hmem, hcategories, hengine, hcustom, hera, h⟩ := h
  split at h
  · cases h
  next hskips =>
    have hskipped (p : ServerProfile) (hp : opts.profile = some p) : p.skipCategories = [] := by
      by_contra hne
      have hfilter : opts.profile.filter (·.skipCategories ≠ []) = some p := by
        rw [hp]
        exact Option.filter_some_pos (decide_eq_true hne)
      cases hfilter.symm.trans hskips
    exact ⟨⟨not_not.mp hmem, by simpa [isFalsy] using hcategories, not_not.mp hengine,
      by simpa using hcustom, not_not.mp hera, hskipped⟩, h⟩

theorem validateDualOptin_of_checkOptIn (h : checkOptIn T opts = .ok ())
    (hadv : (opts.adversarial T).enabled = true) :
    validateDualOptin T opts (opts.adversarial T).ownershipDeclaration = .ok () := by
  rw [checkOptIn, if_pos hadv] at h
  exact mapError_eq_ok_iff.mp h

end Checks

section Accepted

variable [PyFloat φ] (T : Tools φ ρ δ κ) (opts : Options) (tree : CatalogTree)

/-- The arguments of a scan that is run. -/
structure Accepted : Prop where
  target : isTarget T.urls opts.target = true
  sacrificial : ∀ token, opts.foreignAudienceToken = some token →
    Sacrificial T.urls T.httpxUrl T.clock token opts.target opts.authToken
      (endpointOf opts.target opts.effectiveMcpPath)
  full : ∀ level, opts.assuranceLevel = some level → FullScan T opts level
  consent : (opts.adversarial T).enabled = true →
    validateDualOptin T opts (opts.adversarial T).ownershipDeclaration = .ok ()

/-- The threats that are loaded. -/
def loadThreats : Except CatalogError (List (ThreatDefinition φ ρ)) :=
  loadAll T.ed25519 T.pubkey T.catalogRuntime T.validThreat opts.allowCustomCatalog
    false (opts.adversarial T).enabled tree

/-- The plan of a scan that is accepted. -/
structure Planned (plan : Plan φ ρ) : Prop where
  engine : plan.engine = T.urls.lower opts.engine
  categories : plan.categories = normaliseCategories T opts.categories
  evidence : checkAssurance T opts plan.engine = .ok plan.evidence
  threats : ∃ threats, loadThreats T opts tree = .ok threats ∧
    checkInBand T opts (threatsInScope T opts threats) = .ok () ∧
    plan.threats = selectThreats T opts threats
  catalogHash : plan.catalogHash = Catalog.catalogHash T.sha256Text plan.threats
  expected : ∀ hash, opts.expectedCatalogHash = some hash → plan.catalogHash = hash

variable {T opts tree}

theorem sacrificial_of_checkForeignToken (h : checkForeignToken T opts = .ok ()) {token : Str}
    (htoken : opts.foreignAudienceToken = some token) :
    Sacrificial T.urls T.httpxUrl T.clock token opts.target opts.authToken
      (endpointOf opts.target opts.effectiveMcpPath) := by
  rw [checkForeignToken, htoken] at h
  exact (validateForeignAudienceToken_eq_ok_iff _ _ _).mp (mapError_eq_ok_iff.mp h)

/-- What is known once the checks have gone through. -/
theorem of_prepare {plan : Plan φ ρ} (h : prepare T opts tree = .ok plan) :
    Accepted T opts ∧ Planned T opts tree plan := by
  simp only [prepare, bind_eq_ok_iff] at h
  obtain ⟨_, htarget, _, hforeign, evidence, hevidence, _, hconsent, threats, hthreats, _, hinBand,
    _, hhash, h⟩ := h
  cases h
  refine ⟨⟨checkTarget_eq_ok_iff.mp htarget, fun _ => sacrificial_of_checkForeignToken hforeign,
    fun _ hlevel => (of_checkAssurance rfl hevidence hlevel).1, validateDualOptin_of_checkOptIn hconsent⟩,
    rfl, rfl, hevidence, ⟨threats, mapError_eq_ok_iff.mp hthreats, hinBand, rfl⟩, rfl, ?_⟩
  intro hash hexpected
  unfold checkCatalogHash at hhash
  rw [hexpected] at hhash
  by_contra hne
  simp [Ne.symm hne] at hhash

end Accepted

/-! ## What is done -/

section Authorized

variable [PyFloat φ] (T : Tools φ ρ δ κ) (opts : Options) (tree : CatalogTree)

/-- A threat that may be run. -/
structure Cleared (t : ThreatDefinition φ ρ) : Prop where
  loaded : ∃ threats, loadThreats T opts tree = .ok threats ∧ t ∈ threats
  inScope : inScope (normaliseCategories T opts.categories) (T.upper t.category) = true
  notSkipped : skips opts (T.upper t.category) = false
  inBand : (opts.adversarial T).enabled = true → isAdversarialId T t.id = true →
    checkNoExternalEndpoints T.urls (adversarialSafetyDict t) opts.target
      (opts.adversarial T).allowStateful = .ok ()

/-- The era of a test of the authentication: that of the operator, or the modern one for a threat
with probes of it. -/
def AuthEra (t : ThreatDefinition φ ρ) (era : ProtocolEra) : Prop :=
  era = opts.protocolEra ∨ era = .modern ∧ t.probes.any requiresModern = true

/-- What may be done, and with which credentials. -/
def Authorized : Contact φ ρ → Prop
  | .detectProtocolEra config => authorization config = operatorAuthorization opts
  | .discoverTools config => authorization config = operatorAuthorization opts
  | .discoverToolsChecked config => authorization config = operatorAuthorization opts
  | .scenario s config => authorization config = operatorAuthorization opts ∧
    inScope (normaliseCategories T opts.categories) s.category = true ∧
    skips opts s.category = false
  | .protectedResourceMetadata config => authorization config = none
  | .threat _ run => Cleared T opts tree run.threat ∧ isMiddlewareOnly T run.threat = false ∧
    run.passOnAuthReject = isAuthCategory T run.threat ∧
    (isAuthCategory T run.threat = true → AuthEra opts run.threat run.config.protocolEra) ∧
    ∀ p ∈ run.threat.probes, ∀ config, effectiveConfig run.config p = .ok config →
      authorization config = probeAuthorization T opts run.threat p

variable {T opts tree}

omit [PyFloat φ] in
theorem authEra_probeConfig {config : ScanConfig} {t : ThreatDefinition φ ρ}
    (ht : isAuthCategory T t = true) : AuthEra opts t (probeConfig T opts config t).protocolEra := by
  rw [probeConfig, if_pos ht]
  split
  next h => exact .inr ⟨rfl, h.2⟩
  next => exact .inl rfl

theorem Planned.cleared {plan : Plan φ ρ} (h : Planned T opts tree plan) {t : ThreatDefinition φ ρ}
    (ht : t ∈ plan.threats) : Cleared T opts tree t := by
  obtain ⟨threats, hloaded, hinBand, hthreats⟩ := h.threats
  rw [hthreats, selectThreats, List.mem_filter] at ht
  obtain ⟨hscope, hskip⟩ := ht
  refine ⟨⟨threats, hloaded, (List.mem_filter.mp hscope).1⟩, (List.mem_filter.mp hscope).2,
    by simpa using hskip, fun hadv hid => ?_⟩
  rw [checkInBand, if_pos hadv] at hinBand
  have hchecked := forM_eq_ok_iff.mp hinBand t hscope
  rw [if_pos hid] at hchecked
  exact mapError_eq_ok_iff.mp hchecked

variable {target : Target φ ρ δ} {plan : Plan φ ρ} (hplan : Planned T opts tree plan)
include hplan

theorem authorized_threatRun {config : ScanConfig} (hconfig : Pinned opts config)
    (tools : List (DiscoveredTool φ)) (i : Nat) {t : ThreatDefinition φ ρ} (ht : t ∈ plan.threats)
    (hprobed : isMiddlewareOnly T t = false) :
    Authorized T opts tree (.threat i (threatRun T opts config tools i t)) :=
  ⟨hplan.cleared ht, hprobed, rfl, fun hauth => authEra_probeConfig hauth,
    fun _ _ _ heffective => authorization_effectiveConfig T hconfig heffective⟩

theorem each_runThreats {config : ScanConfig} (hconfig : Pinned opts config)
    (tools : List (DiscoveredTool φ)) (i : Nat) {ts : List (ThreatDefinition φ ρ)}
    (hts : ∀ t ∈ ts, t ∈ plan.threats) :
    Logged.Each (Authorized T opts tree) (runThreats T opts target config tools i ts) := by
  induction ts generalizing i with
  | nil => exact .pure _
  | cons t ts ih =>
    have hrest := ih (i + 1) fun u hu => hts u (List.mem_cons_of_mem t hu)
    rw [runThreats]
    split
    · exact hrest
    next hprobed =>
      have hrun := authorized_threatRun hplan hconfig tools i (hts t List.mem_cons_self)
        (by simpa using hprobed)
      exact (Logged.Each.act hrun).bind fun _ _ => (Logged.Each.lift _).bind fun _ _ =>
        hrest.bind fun _ _ => .pure _

omit hplan in
theorem each_passiveScans {config : ScanConfig} (tools : List (DiscoveredTool φ)) :
    Logged.Each (Authorized T opts tree) (passiveScans T opts target plan config tools) := by
  have hpassive {category : Str} {scan : Scanning φ ρ (List (ProbeResult δ))}
      (h : Logged.Each (Authorized T opts tree) scan) :
      Logged.Each (Authorized T opts tree) (passive plan category scan) := by
    rw [passive]
    split
    · exact h
    · exact .pure _
  have hnoauth : Authorized T opts tree (.protectedResourceMetadata (φ := φ) (ρ := ρ)
      { config with authToken := none, authHeader := none }) := rfl
  have hmetadata : Logged.Each (Authorized T opts tree) (scanMetadata target config) :=
    (Logged.Each.act hnoauth).bind fun _ _ => .pure _
  rw [passiveScans]
  exact (hpassive (.lift _)).bind fun _ _ => (hpassive (.pure _)).bind fun _ _ =>
    (hpassive (.lift _)).bind fun _ _ => (hpassive (.pure _)).bind fun _ _ =>
    (hpassive hmetadata).bind fun _ _ => (hpassive (.lift _)).bind fun _ _ =>
    (hpassive (.pure _)).bind fun _ _ => .pure _

theorem each_runProber {config : ScanConfig} (hconfig : Pinned opts config) :
    Logged.Each (Authorized T opts tree) (runProber T opts target plan config) := by
  have hfound : Authorized T opts tree (.discoverTools config) := hconfig.authorization
  exact (Logged.Each.act hfound).bind fun _ _ => (each_passiveScans _).bind fun _ _ =>
    (each_runThreats hplan hconfig _ 0 fun _ ht => ht).bind fun _ _ => .pure _

theorem each_runScenarios {config : ScanConfig} (hconfig : Pinned opts config)
    (scenarios : List StatefulScenario) :
    Logged.Each (Authorized T opts tree) (runScenarios opts target plan config scenarios) := by
  induction scenarios with
  | nil => exact .pure _
  | cons s scenarios ih =>
    rw [runScenarios]
    split
    · exact ih
    next h =>
      rw [Bool.or_eq_true, not_or, hplan.categories] at h
      have hscope : Authorized T opts tree (.scenario s config) :=
        ⟨hconfig.authorization, by simpa using h.2, by simpa using h.1⟩
      exact (Logged.Each.act hscope).bind fun _ _ => ih.bind fun _ _ => .pure _

omit hplan in
theorem each_conclude {config : ScanConfig} (hconfig : Pinned opts config)
    (tools : List (DiscoveredTool φ)) (results : List (ProbeResult δ))
    (scenarios : List ScenarioResult) :
    Logged.Each (Authorized T opts tree)
      (conclude T opts target plan config tools results scenarios) := by
  have hchecked : Authorized T opts tree (.discoverToolsChecked config) := hconfig.authorization
  have hconfirm : Logged.Each (Authorized T opts tree) (confirmNoTools target config tools) := by
    rw [confirmNoTools]
    split
    · exact (Logged.Each.act hchecked).bind fun _ _ => .pure _
    · exact .pure _
  unfold conclude
  dsimp only
  split
  · exact .pure _
  · exact hconfirm.bind fun _ _ => (Logged.Each.lift _).bind fun _ _ => .pure _

omit hplan [PyFloat φ] in
/-- The era is all that is pinned. -/
theorem pinned_of_pinEra {config : ScanConfig}
    (h : (pinEra (ρ := ρ) target opts.config).result = .ok config) : Pinned opts config := by
  rw [pinEra] at h
  split at h
  · obtain ⟨-, -, h⟩ := Logged.result_bind_eq_ok_iff.mp h
    cases h
    exact ⟨_, rfl⟩
  · cases h
    exact ⟨opts.protocolEra, rfl⟩

theorem each_runPlan : Logged.Each (Authorized T opts tree) (runPlan T opts target plan) := by
  have hdetect : Authorized T opts tree (.detectProtocolEra opts.config) := rfl
  have hpinEra : Logged.Each (Authorized T opts tree) (pinEra target opts.config) := by
    rw [pinEra]
    split
    · exact (Logged.Each.act hdetect).bind fun _ _ => .pure _
    · exact .pure _
  have hengine {α : Type} {name : Str} {run : Scanning φ ρ α} {skipped : α}
      (h : Logged.Each (Authorized T opts tree) run) :
      Logged.Each (Authorized T opts tree) (runEngine plan.engine name run skipped) := by
    rw [runEngine]
    split
    · exact h
    · exact .pure _
  refine hpinEra.bind fun config hconfig => ?_
  have hconfig := pinned_of_pinEra hconfig
  exact (hengine (each_runProber hplan hconfig)).bind fun _ _ =>
    (hengine (each_runScenarios hplan hconfig _)).bind fun _ _ =>
    (Logged.Each.lift _).bind fun _ _ => (each_conclude hconfig _ _ _).bind fun _ _ => .pure _

omit hplan in
/-- Whatever a scan does to the target, its arguments have been accepted and what it does is
authorized. -/
theorem runScan_authorized {c : Contact φ ρ} (h : c ∈ (runScan T opts target tree).events) :
    Accepted T opts ∧ Authorized T opts tree c := by
  have hplanned {plan : Plan φ ρ} (hplan : prepare T opts tree = .ok plan) :
      Logged.Each (fun c => Accepted T opts ∧ Authorized T opts tree c)
        (runPlan T opts target plan) := by
    obtain ⟨haccepted, hplan⟩ := of_prepare hplan
    exact (each_runPlan hplan).mono fun _ hc => ⟨haccepted, hc⟩
  exact (Logged.Each.lift _).bind (fun _ => hplanned) c h

end Authorized

section Example

def plainTools : Tools WholeFloat Unit Unit Unit where
  manifest := quietRuntime
  urls := asciiUrls
  upper := id
  httpxUrl _ := none
  clock := ⟨.whole 0, fun x _ => x⟩
  ed25519 := plainScheme
  pubkey := plainPubkey
  catalogRuntime := plainRuntime
  validThreat _ := true
  sha256Text := id
  sha256Hex := bytesAsText
  isDecimal := isDigit
  controls := []
  scanId := lit "0f8fad5b"
  canaryToken _ := lit "a3f2b1e0c4d5e6f7"
  scanTimestamp := lit "2026-01-01T00:00:00+00:00"

/-- The prober, with a token. -/
def plainOptions : Options where
  target := lit "http://127.0.0.1:8000"
  categories := none
  engine := lit "prober"
  allowCustomCatalog := false
  failOn := lit "high"
  authToken := some (lit "secret")
  readToken := none
  foreignAudienceToken := none
  mcpPath := lit "/mcp"
  adaptive := true
  profile := none
  adversarialMode := none
  baseline := none
  piiStrict := false
  statefulMethodOverrides := none
  toolAllowlist := none
  expectedCatalogHash := none
  protocolEra := .auto
  assuranceLevel := none
  evidence := none

/-- A target without tools. -/
def plainTarget : Target WholeFloat Unit Unit where
  detectProtocolEra _ := some .legacy
  discoverTools _ := []
  protectedResourceMetadata _ := []
  runThreat _ _ := .ok []
  runScenario _ _ := ⟨[], [], .inconclusive, false, []⟩
  discoverToolsChecked _ := some []

def plainPlan : Plan WholeFloat Unit :=
  ⟨lit "prober", none, .empty, [plainThreat], catalogHash id [plainThreat]⟩

theorem prepare_plain : prepare plainTools plainOptions signedPlainTree = .ok plainPlan := by
  have hload : loadAll plainTools.ed25519 plainTools.pubkey plainTools.catalogRuntime
      plainTools.validThreat plainOptions.allowCustomCatalog false
      (plainOptions.adversarial plainTools).enabled signedPlainTree = .ok [plainThreat] :=
    loadAll_plain
  have htarget : checkTarget plainTools plainOptions = .ok () :=
    checkTarget_eq_ok_iff.mpr (by decide)
  rw [prepare, htarget, hload]
  rfl

/-- The test of the authentication is run, without the token that the discovery is run with. -/
theorem runScan_authorized_plain : ∃ run : ThreatRun WholeFloat Unit,
    .threat 0 run ∈ (runScan plainTools plainOptions plainTarget signedPlainTree).events ∧
      run.threat = plainThreat ∧ operatorAuthorization plainOptions = some (lit "Bearer secret") ∧
      ∀ p ∈ plainThreat.probes, ∀ config, effectiveConfig run.config p = .ok config →
        authorization config = none := by
  have hevents : (runScan plainTools plainOptions plainTarget signedPlainTree).events =
      (runPlan plainTools plainOptions plainTarget plainPlan).events := by
    rw [runScan, prepare_plain]
    rfl
  have hrun : .threat 0 (threatRun plainTools plainOptions
      { plainOptions.config with protocolEra := .legacy } [] 0 plainThreat) ∈
        (runScan plainTools plainOptions plainTarget signedPlainTree).events := by
    rw [hevents]
    exact List.mem_of_getElem? (i := 3) rfl
  obtain ⟨-, -, -, -, -, hprobes⟩ := runScan_authorized hrun
  refine ⟨_, hrun, rfl, rfl, fun p hp config hconfig => ?_⟩
  rw [hprobes p hp config hconfig]
  cases List.mem_singleton.mp hp
  rfl

end Example

end CosaiMcp.Scan
