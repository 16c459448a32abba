import CosaiMcp.Scan.Credentials

/-!
# Where the results of a scan come from

The threats that a scan runs are those of its result, in their order and each of them once, without
those that only a middleware can stop; and what its result reports is what the target reported, with
what the scans of the manifest found (`runScan_accounted`). A baseline changes none of that.
-/

namespace CosaiMcp.Scan

open Py
open Catalog
open Harness (ScanConfig)

variable {φ ρ δ κ : Type}

/-! ## What is reported -/

/-- What the assurance report sees of a result. -/
def ProbeResult.finding (r : ProbeResult δ) : Finding Str := r.evidence.finding

def ScenarioResult.finding (r : ScenarioResult) : Finding Str := r.evidence.finding

/-- All that a scan reports. -/
def ScanResult.findings (r : ScanResult φ ρ δ) : List (Finding Str) :=
  r.probeResults.map ProbeResult.finding ++ r.scenarioResults.map ScenarioResult.finding

def Contact.threat? : Contact φ ρ → Option (ThreatDefinition φ ρ)
  | .threat _ run => some run.threat
  | _ => none

def Contact.scenario? : Contact φ ρ → Option StatefulScenario
  | .scenario s _ => some s
  | _ => none

/-- What the target answers, as findings. -/
def Target.reports (target : Target φ ρ δ) : Contact φ ρ → List (Finding Str)
  | .threat i run =>
    match target.runThreat i run with
    | .error _ => []
    | .ok results => results.map ProbeResult.finding
  | .protectedResourceMetadata config =>
    (target.protectedResourceMetadata config).map ProbeResult.finding
  | .scenario s config => [(target.runScenario s config).finding]
  | .detectProtocolEra _ | .discoverTools _ | .discoverToolsChecked _ => []

/-- What a part of a scan comes to. -/
structure Account (target : Target φ ρ δ) (events : List (Contact φ ρ))
    (threats : List (ThreatDefinition φ ρ)) (scenarios : List StatefulScenario)
    (reported : List (Finding Str)) : Prop where
  threats : events.filterMap Contact.threat? = threats
  scenarios : events.filterMap Contact.scenario? = scenarios
  reported : events.flatMap target.reports = reported

namespace Account

variable {target : Target φ ρ δ} {events events' : List (Contact φ ρ)}
  {threats threats' : List (ThreatDefinition φ ρ)} {scenarios scenarios' : List StatefulScenario}
  {reported reported' : List (Finding Str)}

theorem nil : Account target [] [] [] [] := ⟨rfl, rfl, rfl⟩

theorem append (h : Account target events threats scenarios reported)
    (h' : Account target events' threats' scenarios' reported') :
    Account target (events ++ events') (threats ++ threats') (scenarios ++ scenarios')
      (reported ++ reported') where
  threats := by rw [List.filterMap_append, h.threats, h'.threats]
  scenarios := by rw [List.filterMap_append, h.scenarios, h'.scenarios]
  reported := by rw [List.flatMap_append, h.reported, h'.reported]

theorem bind {α β : Type} {x : Scanning φ ρ α} {f : α → Scanning φ ρ β} {a : α}
    (hx : x.result = .ok a) (h : Account target x.events threats scenarios reported)
    (h' : Account target (f a).events threats' scenarios' reported') :
    Account target (x >>= f).events (threats ++ threats') (scenarios ++ scenarios')
      (reported ++ reported') := by
  rw [Logged.events_bind hx]
  exact h.append h'

/-- Nothing comes of the second part. -/
theorem bind_nil {α β : Type} {x : Scanning φ ρ α} {f : α → Scanning φ ρ β} {a : α}
    (hx : x.result = .ok a) (h : Account target x.events threats scenarios reported)
    (h' : Account target (f a).events [] [] []) :
    Account target (x >>= f).events threats scenarios reported := by
  simpa only [List.append_nil] using h.bind hx h'

end Account

section Scan

variable (T : Tools φ ρ δ κ) (opts : Options)

/-- The engine is asked for. -/
def Runs (name : Str) : Prop :=
  T.urls.lower opts.engine = name ∨ T.urls.lower opts.engine = lit "all"

instance decidableRuns (name : Str) : Decidable (Runs T opts name) :=
  inferInstanceAs (Decidable (_ ∨ _))

/-! ## The scans of the manifest -/

/-- What a scan of the manifest finds, where its category is in scope. -/
def manifestScan (categories : Option (List Str)) (category : Str)
    (results : Except PyError (List (ProbeResult δ))) : Except PyError (List (ProbeResult δ)) :=
  if inScope categories category then results else .ok []

def manifestResults (categories : Option (List Str)) (tools : List (DiscoveredTool φ)) :
    Except PyError (List (ProbeResult δ)) := do
  let R := T.manifest
  let t4 ← manifestScan categories (lit "T4") (scanManifestT4 R tools)
  let t9 ← manifestScan categories (lit "T9") (.ok (scanManifestT9 R tools))
  let t5 ← manifestScan categories (lit "T5") (scanManifestT5 R opts.piiStrict tools)
  let t6 ← manifestScan categories (lit "T6") (.ok (scanManifestT6 R tools))
  let t3 ← manifestScan categories (lit "T3") (scanManifestT3Schema R tools)
  let t11 ← manifestScan categories (lit "T11") (.ok (scanManifestT11 R opts.toolAllowlist tools))
  return t4 ++ t9 ++ t5 ++ t6 ++ t3 ++ t11

variable {T opts} {target : Target φ ρ δ} {plan : Plan φ ρ} {config : ScanConfig}
  {tools : List (DiscoveredTool φ)}

theorem manifestScan_nil (categories : Option (List Str)) (category : Str) :
    manifestScan (δ := δ) categories category (.ok []) = .ok [] := by
  rw [manifestScan]
  split <;> rfl

/-- There is nothing to find in a manifest without tools. -/
theorem manifestResults_nil (categories : Option (List Str)) :
    manifestResults T opts categories [] = .ok [] := by
  have hT4 : scanManifestT4 T.manifest ([] : List (DiscoveredTool φ)) = .ok [] := rfl
  have hT5 : scanManifestT5 T.manifest opts.piiStrict ([] : List (DiscoveredTool φ)) = .ok [] := rfl
  have hT3 : scanManifestT3Schema T.manifest ([] : List (DiscoveredTool φ)) = .ok [] := rfl
  have hT9 : scanManifestT9 T.manifest ([] : List (DiscoveredTool φ)) = [] := rfl
  have hT6 : scanManifestT6 T.manifest ([] : List (DiscoveredTool φ)) = [] := rfl
  have hT11 : scanManifestT11 T.manifest opts.toolAllowlist ([] : List (DiscoveredTool φ)) = [] :=
    rfl
  simp only [manifestResults, hT4, hT5, hT3, hT9, hT6, hT11, manifestScan_nil]
  rfl

/-- A scan of the manifest does nothing to the target. -/
theorem passive_scanManifestOf (category : Str) (results : Except PyError (List (ProbeResult δ))) :
    passive plan category (scanManifestOf results) =
      Logged.lift ((manifestScan plan.categories category results).mapError .raised) := by
  rw [passive, manifestScan]
  split <;> rfl

theorem account_passiveScans {passives : List (ProbeResult δ)}
    (h : (passiveScans T opts target plan config tools).result = .ok passives) :
    ∃ manifest metadata, manifestResults T opts plan.categories tools = .ok manifest ∧
      passives.Perm (manifest ++ metadata) ∧
      Account target (passiveScans T opts target plan config tools).events [] []
        (metadata.map ProbeResult.finding) := by
  have hpure (category : Str) (results : List (ProbeResult δ)) :
      passive (φ := φ) plan category (pure results) =
        passive plan category (scanManifestOf (.ok results)) := rfl
  simp only [passiveScans, hpure, passive_scanManifestOf] at h ⊢
  obtain ⟨t4, h4, h, -⟩ := Logged.of_bind h
  obtain ⟨t9, h9, h, -⟩ := Logged.of_bind h
  obtain ⟨t5, h5, h, -⟩ := Logged.of_bind h
  obtain ⟨t6, h6, h, -⟩ := Logged.of_bind h
  obtain ⟨t1, h1, h, -⟩ := Logged.of_bind h
  obtain ⟨t3, h3, h, -⟩ := Logged.of_bind h
  obtain ⟨t11, h11, h, -⟩ := Logged.of_bind h
  cases h
  have hmetadata : Account target (passive plan (lit "T1") (scanMetadata target config)).events []
      [] (t1.map ProbeResult.finding) := by
    by_cases hscope : inScope plan.categories (lit "T1") = true
    · rw [passive, if_pos hscope] at h1 ⊢
      cases h1
      exact ⟨rfl, rfl, List.append_nil _⟩
    · rw [passive, if_neg hscope] at h1 ⊢
      cases h1
      exact .nil
  refine ⟨t4 ++ t9 ++ t5 ++ t6 ++ t3 ++ t11, t1, ?_, ?_, ?_⟩
  · simp only [Logged.result_lift, mapError_eq_ok_iff] at h4 h9 h5 h6 h3 h11
    simp only [manifestResults, h4, h9, h5, h6, h3, h11]
    rfl
  · simp only [List.append_assoc]
    iterate 4 refine List.Perm.append_left _ ?_
    rw [← List.append_assoc t3]
    exact List.perm_append_comm
  · exact .bind h4 .nil (.bind h9 .nil (.bind h5 .nil (.bind h6 .nil (.bind_nil h1 hmetadata
      (.bind_nil h3 .nil (.bind_nil h11 .nil .nil))))))

/-! ## The engines -/

theorem account_runThreats {i : Nat} {ts : List (ThreatDefinition φ ρ)}
    {results : List (ProbeResult δ)}
    (h : (runThreats T opts target config tools i ts).result = .ok results) :
    Account target (runThreats T opts target config tools i ts).events
      (ts.filter fun t => !isMiddlewareOnly T t) [] (results.map ProbeResult.finding) := by
  induction ts generalizing i results with
  | nil => cases h; exact .nil
  | cons t ts ih =>
    rw [runThreats] at h ⊢
    by_cases hprobed : isMiddlewareOnly T t = true
    · rw [if_pos hprobed] at h ⊢
      rw [List.filter_cons_of_neg (by simp [hprobed])]
      exact ih h
    · rw [if_neg hprobed] at h ⊢
      rw [List.filter_cons_of_pos (by simp [hprobed])]
      obtain ⟨_, hact, h, -⟩ := Logged.of_bind h
      obtain ⟨batch, hbatch, h, -⟩ := Logged.of_bind h
      obtain ⟨rest, hrest, h, -⟩ := Logged.of_bind h
      cases h
      have hrun : Account target [.threat i (threatRun T opts config tools i t)] [t] []
          (batch.map ProbeResult.finding) := by
        refine ⟨rfl, rfl, ?_⟩
        simp [Target.reports, mapError_eq_ok_iff.mp hbatch]
      rw [List.map_append]
      exact .bind hact hrun (.bind hbatch .nil (.bind_nil hrest (ih hrest) .nil))

theorem account_runScenarios {scenarios : List StatefulScenario} {results : List ScenarioResult}
    (h : (runScenarios opts target plan config scenarios).result = .ok results) :
    Account target (runScenarios opts target plan config scenarios).events []
      (scenarios.filter fun s => !skips opts s.category && inScope plan.categories s.category)
      (results.map ScenarioResult.finding) := by
  induction scenarios generalizing results with
  | nil => cases h; exact .nil
  | cons s scenarios ih =>
    rw [runScenarios] at h ⊢
    by_cases hout : (skips opts s.category || !inScope plan.categories s.category) = true
    · rw [if_pos hout] at h ⊢
      rw [List.filter_cons_of_neg (by simpa [← Bool.not_eq_true, imp_iff_not_or] using hout)]
      exact ih h
    · rw [if_neg hout] at h ⊢
      rw [List.filter_cons_of_pos (by simpa using hout)]
      obtain ⟨_, hact, h, -⟩ := Logged.of_bind h
      obtain ⟨rest, hrest, h, -⟩ := Logged.of_bind h
      cases h
      have hrun : Account target [.scenario s config] [] [s]
          [(target.runScenario s config).finding] := ⟨rfl, rfl, rfl⟩
      exact .bind hact hrun (.bind_nil hrest (ih hrest) .nil)

theorem account_runProber {results : List (ProbeResult δ)} {tools : List (DiscoveredTool φ)}
    (h : (runProber T opts target plan config).result = .ok (results, tools)) :
    ∃ manifest metadata batches, tools = target.discoverTools config ∧
      manifestResults T opts plan.categories tools = .ok manifest ∧
      results.Perm (manifest ++ (metadata ++ batches)) ∧
      .discoverTools config ∈ (runProber T opts target plan config).events ∧
      Account target (runProber T opts target plan config).events
        (plan.threats.filter fun t => !isMiddlewareOnly T t) []
        ((metadata ++ batches).map ProbeResult.finding) := by
  rw [runProber] at h ⊢
  obtain ⟨_, hact, h, hevents⟩ := Logged.of_bind h
  obtain ⟨passives, hpassives, h, -⟩ := Logged.of_bind h
  obtain ⟨batches, hbatches, h, -⟩ := Logged.of_bind h
  cases h
  obtain ⟨manifest, metadata, hmanifest, hperm, haccount⟩ := account_passiveScans hpassives
  have hfound : Account target [.discoverTools config] [] [] [] := ⟨rfl, rfl, rfl⟩
  refine ⟨manifest, metadata, batches, rfl, hmanifest, ?_, ?_, ?_⟩
  · rw [← List.append_assoc]
    exact hperm.append_right batches
  · rw [hevents]
    exact List.mem_cons_self
  · rw [List.map_append]
    exact .bind hact hfound (.bind hpassives haccount
      (.bind_nil hbatches (account_runThreats hbatches) .nil))

theorem of_runEngine {α : Type} {engine name : Str} {run : Scanning φ ρ α} {skipped a : α}
    (h : (runEngine engine name run skipped).result = .ok a) :
    (engine = name ∨ engine = lit "all") ∧ run.result = .ok a ∧
      runEngine engine name run skipped = run ∨
    ¬ (engine = name ∨ engine = lit "all") ∧ a = skipped ∧
      (runEngine engine name run skipped).events = [] := by
  rw [runEngine] at h ⊢
  by_cases hruns : engine = name ∨ engine = lit "all"
  · rw [if_pos hruns] at h ⊢
    exact .inl ⟨hruns, h, rfl⟩
  · rw [if_neg hruns] at h ⊢
    cases h
    exact .inr ⟨hruns, rfl, rfl⟩

/-! ## The result -/

/-- A baseline changes nothing of what is reported. -/
theorem finding_of_suppress {sha256Hex : Bytes → Str} {b : Baseline} {r r' : ProbeResult δ}
    (h : suppress sha256Hex b r = some r') : r'.finding = r.finding := by
  unfold suppress at h
  split at h
  · obtain ⟨suppressed, -, h⟩ := Option.bind_eq_some_iff.mp h
    cases h
    split <;> rfl
  · cases h
    rfl

theorem findings_of_applyBaseline {sha256Hex : Bytes → Str} {b : Baseline}
    {before after : List (ProbeResult δ)} (h : applyBaseline sha256Hex before b = some after) :
    after.map ProbeResult.finding = before.map ProbeResult.finding := by
  unfold applyBaseline at h
  induction before generalizing after with
  | nil => cases h; rfl
  | cons r rs ih =>
    rw [List.mapM_cons] at h
    obtain ⟨r', hr, h⟩ := Option.bind_eq_some_iff.mp h
    obtain ⟨rs', hrs, h⟩ := Option.bind_eq_some_iff.mp h
    cases h
    rw [List.map_cons, List.map_cons, finding_of_suppress hr, ih hrs]

theorem findings_of_applyBaselineFile {before after : List (ProbeResult δ)}
    (h : applyBaselineFile T opts before = .ok after) :
    after.map ProbeResult.finding = before.map ProbeResult.finding := by
  unfold applyBaselineFile at h
  split at h
  · cases h
    rfl
  · cases h
  · split at h
    · cases h
    next happly =>
      cases h
      exact findings_of_applyBaseline happly

/-- The discovery that confirms that there are no tools reports nothing. -/
theorem account_conclude {results : List (ProbeResult δ)} {scenarios : List ScenarioResult}
    {concluded : Int × Option (Assurance.AssuranceReport (Json φ))}
    (h : (conclude T opts target plan config tools results scenarios).result = .ok concluded) :
    Account target (conclude T opts target plan config tools results scenarios).events [] [] [] := by
  unfold conclude at h ⊢
  dsimp only at h ⊢
  split at h
  · exact .nil
  next level _ =>
    obtain ⟨noTools, hconfirm, h, -⟩ := Logged.of_bind h
    obtain ⟨report, hreport, h, -⟩ := Logged.of_bind h
    have hconfirmed : Account target (confirmNoTools target config tools).events [] [] [] := by
      rw [confirmNoTools]
      split
      · exact ⟨rfl, rfl, rfl⟩
      · exact .nil
    exact .bind_nil hconfirm hconfirmed (.bind_nil hreport .nil .nil)

theorem account_pinEra {config : ScanConfig} :
    Account target (pinEra (ρ := ρ) target config).events [] [] [] := by
  rw [pinEra]
  split
  · exact ⟨rfl, rfl, rfl⟩
  · exact .nil

/-! ## The whole scan -/

/-- How a result and what was done to the target belong together. -/
structure Accounted (T : Tools φ ρ δ κ) (opts : Options) (target : Target φ ρ δ)
    (r : ScanResult φ ρ δ) (events : List (Contact φ ρ)) : Prop where
  threats : events.filterMap Contact.threat? =
    if Runs T opts (lit "prober") then r.threats.filter fun t => !isMiddlewareOnly T t else []
  scenarios : events.filterMap Contact.scenario? =
    if Runs T opts (lit "stateful") then statefulScenarios.filter fun s =>
      !skips opts s.category && inScope (normaliseCategories T opts.categories) s.category
    else []
  reported : ∃ tools manifest,
    (if Runs T opts (lit "prober") then
      ∃ config, .discoverTools config ∈ events ∧ tools = target.discoverTools config
    else tools = []) ∧
    manifestResults T opts (normaliseCategories T opts.categories) tools = .ok manifest ∧
    r.findings.Perm (manifest.map ProbeResult.finding ++ events.flatMap target.reports)

theorem account_prober {found : List (ProbeResult δ)} {tools : List (DiscoveredTool φ)}
    {engine : Str} (h : (runEngine engine (lit "prober") (runProber T opts target plan config)
      ([], [])).result = .ok (found, tools)) :
    ∃ manifest reported,
      (if engine = lit "prober" ∨ engine = lit "all" then
        .discoverTools config ∈ (runEngine engine (lit "prober")
          (runProber T opts target plan config) ([], [])).events ∧
            tools = target.discoverTools config
      else tools = []) ∧
      manifestResults T opts plan.categories tools = .ok manifest ∧
      found.Perm (manifest ++ reported) ∧
      Account target (runEngine engine (lit "prober") (runProber T opts target plan config)
        ([], [])).events
        (if engine = lit "prober" ∨ engine = lit "all" then
          plan.threats.filter fun t => !isMiddlewareOnly T t else []) []
        (reported.map ProbeResult.finding) := by
  rcases of_runEngine h with ⟨hruns, hrun, hsame⟩ | ⟨hruns, hskipped, hevents⟩
  · simp only [hsame, if_pos hruns]
    obtain ⟨manifest, metadata, batches, htools, hmanifest, hperm, hmem, haccount⟩ :=
      account_runProber hrun
    exact ⟨manifest, metadata ++ batches, ⟨hmem, htools⟩, hmanifest, hperm, haccount⟩
  · simp only [hevents, if_neg hruns]
    cases hskipped
    exact ⟨[], [], rfl, manifestResults_nil _, .nil, .nil⟩

theorem account_stateful {results : List ScenarioResult} {engine : Str}
    (h : (runEngine engine (lit "stateful") (runScenarios opts target plan config statefulScenarios)
      []).result = .ok results) :
    Account target (runEngine engine (lit "stateful")
      (runScenarios opts target plan config statefulScenarios) []).events []
      (if engine = lit "stateful" ∨ engine = lit "all" then statefulScenarios.filter fun s =>
        !skips opts s.category && inScope plan.categories s.category else [])
      (results.map ScenarioResult.finding) := by
  rcases of_runEngine h with ⟨hruns, hrun, hsame⟩ | ⟨hruns, hskipped, hevents⟩
  · rw [hsame, if_pos hruns]
    exact account_runScenarios hrun
  · rw [hevents, if_neg hruns]
    cases hskipped
    exact .nil

variable [PyFloat φ] {tree : CatalogTree} {r : ScanResult φ ρ δ}

theorem runPlan_accounted (hplan : Planned T opts tree plan)
    (h : (runPlan T opts target plan).result = .ok r) :
    Accounted T opts target r (runPlan T opts target plan).events := by
  have hengine (name : Str) :
      Runs T opts name ↔ (plan.engine = name ∨ plan.engine = lit "all") := by
    rw [Runs, hplan.engine]
  have hrun := h
  unfold runPlan at hrun
  obtain ⟨config, hconfig, hrun, hevents⟩ := Logged.of_bind hrun
  obtain ⟨⟨found, tools⟩, hprober, hrun, hprobed⟩ := Logged.of_bind hrun
  obtain ⟨scenarios, hstateful, hrun, -⟩ := Logged.of_bind hrun
  obtain ⟨results, hbaseline, hrun, -⟩ := Logged.of_bind hrun
  obtain ⟨concluded, hconclude, hrun, -⟩ := Logged.of_bind hrun
  cases hrun
  obtain ⟨manifest, reported, htools, hmanifest, hperm, haccount⟩ := account_prober hprober
  have hwhole : Account target (runPlan T opts target plan).events
      ((if Runs T opts (lit "prober") then plan.threats.filter fun t => !isMiddlewareOnly T t
        else []) ++ [])
      (if Runs T opts (lit "stateful") then statefulScenarios.filter fun s =>
        !skips opts s.category && inScope plan.categories s.category else [])
      (reported.map ProbeResult.finding ++ scenarios.map ScenarioResult.finding) := by
    simp only [hengine]
    unfold runPlan
    exact .bind hconfig account_pinEra (.bind hprober haccount (.bind_nil hstateful
      (account_stateful hstateful) (.bind_nil hbaseline .nil (.bind_nil hconclude
        (account_conclude hconclude) .nil))))
  refine ⟨by rw [hwhole.threats, List.append_nil], ?_, tools, manifest, ?_, ?_, ?_⟩
  · rw [hwhole.scenarios, hplan.categories]
  · by_cases hruns : Runs T opts (lit "prober")
    · rw [if_pos hruns]
      rw [if_pos ((hengine _).mp hruns)] at htools
      refine ⟨config, ?_, htools.2⟩
      unfold runPlan
      rw [hevents, hprobed]
      exact List.mem_append_right _ (List.mem_append_left _ htools.1)
    · rw [if_neg hruns]
      rwa [if_neg (mt (hengine _).mpr hruns)] at htools
  · rw [← hplan.categories]
    exact hmanifest
  · rw [hwhole.reported]
    dsimp only [ScanResult.findings]
    rw [findings_of_applyBaselineFile (Logged.result_lift _ ▸ hbaseline), ← List.append_assoc,
      ← List.map_append]
    exact (hperm.map _).append_right _

/-- The threats of a scan that returns are run once each, and what it reports is what the target
reported, and what there is to find in the manifest. -/
theorem runScan_accounted (h : (runScan T opts target tree).result = .ok r) :
    Accounted T opts target r (runScan T opts target tree).events := by
  unfold runScan at h ⊢
  obtain ⟨plan, hprepare, h, hevents⟩ := Logged.of_bind h
  rw [hevents]
  exact runPlan_accounted (of_prepare hprepare).2 h

end Scan

section Example

/-- A target that rejects what comes without credentials. -/
def rejectingTarget : Target WholeFloat Unit Unit :=
  { plainTarget with
    runThreat := fun _ run => .ok (run.threat.probes.map fun p =>
      ⟨p.id, run.threat.id, true, [], none, [], (), none, false⟩) }

/-- The one threat is run, and passes. -/
theorem runScan_accounted_plain : ∃ r,
    (runScan plainTools plainOptions rejectingTarget signedPlainTree).result = .ok r ∧
      r.findings = [⟨lit "T01-001", true, true, lit "T01-001-p1"⟩] ∧
      Accounted plainTools plainOptions rejectingTarget r
        (runScan plainTools plainOptions rejectingTarget signedPlainTree).events := by
  have hscan : runScan plainTools plainOptions rejectingTarget signedPlainTree =
      runPlan plainTools plainOptions rejectingTarget plainPlan := by
    rw [runScan, prepare_plain]
    rfl
  have hresult : ∃ r, (runPlan plainTools plainOptions rejectingTarget plainPlan).result = .ok r ∧
      r.findings = [⟨lit "T01-001", true, true, lit "T01-001-p1"⟩] := ⟨_, rfl, rfl⟩
  obtain ⟨r, hr, hfindings⟩ := hresult
  rw [← hscan] at hr
  exact ⟨r, hr, hfindings, runScan_accounted hr⟩

end Example

end CosaiMcp.Scan
