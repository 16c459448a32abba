import Mathlib.Data.List.ReduceOption
import CosaiMcp.Assurance.Soundness
import CosaiMcp.Scan.Accounting

/-!
# What a level rests on that is met

A scan that claims a level, and exits with 0, has run everything that is official; and each control
that the level makes mandatory is upheld by what the target reported (`runScan_assured`): none of it
contradicts the control, each of its tests has run, and unless there is evidence on the control each
of its verifiers has passed whatever it checked.
-/

namespace CosaiMcp.Scan

open Py Finding
open Assurance (Control EvidenceItem Tested isPassiveId)
open Catalog
open Harness (ScanConfig)

variable {φ ρ δ κ : Type}

/-! ## A report that credits the level -/

section Report

variable {σ : Type} {isDecimal : CodePoint → Bool} {controls : List Control} {level : Int}
  {probes : List Assurance.ProbeResult} {scenarios : List Assurance.ScenarioResult}
  {evidence : Dict Str EvidenceItem} {scope : Option (Dict Str σ)} {requiredOptional : Finset Str}
  {report : Assurance.AssuranceReport σ}

/-- Every mandatory control of a level that is met is tested, and attested or proven. -/
theorem credited_of_evaluateAssurance
    (h : Assurance.evaluateAssurance isDecimal controls level probes scenarios (some evidence) scope
      requiredOptional = .ok report)
    (hresult : report.result = .met ∨ report.result = .metWithAttestation) {c : Control}
    (hc : c ∈ controls) {req : Assurance.Requirement} (hreq : c.requirement level = some req)
    (hmust : req.strength = .must) :
    Tested isDecimal c requiredOptional (Assurance.findings probes scenarios) ∧
      ((∃ item, evidence.get? c.controlId = some item) ∨
        c.verifyWith ≠ [] ∧ level ≤ c.blackboxMaxLevel ∧
          ∀ i ∈ c.verifyWith, Proven (Assurance.findings probes scenarios) i) := by
  obtain ⟨-, hlevel, hcontrols⟩ := Assurance.evaluateAssurance_eq_ok h
  have hgrounded : Assurance.Grounded isDecimal c level requiredOptional evidence
      (Assurance.findings probes scenarios)
      (Assurance.controlVerdict isDecimal c level probes scenarios evidence requiredOptional) :=
    Assurance.grounded_controlVerdict probes scenarios
  have hmem : Assurance.controlVerdict isDecimal c level probes scenarios evidence
      requiredOptional ∈ report.controls := by
    rw [hcontrols]
    exact List.mem_map_of_mem hc
  have hstrength := hgrounded.strength
  rw [hreq, Option.map_some, hmust] at hstrength
  have hcredited : Assurance.SumsUp report.controls (Assurance.levelResult report.controls) :=
    Assurance.sumsUp_levelResult
  rw [← hlevel] at hcredited
  rcases hresult with hresult | hresult
  · rw [hresult] at hcredited
    have hpass := hcredited _ hmem hstrength
    exact ⟨hgrounded.credited (.inl hpass), .inr (hgrounded.pass hpass).2⟩
  · rw [hresult] at hcredited
    have hcredited := hcredited.1 _ hmem hstrength
    refine ⟨hgrounded.credited hcredited, ?_⟩
    exact hcredited.symm.imp hgrounded.attested fun hpass => (hgrounded.pass hpass).2

end Report

/-! ## The scans of the manifest report under passive ids -/

section Manifest

/-- The ids of the scans of the manifest. -/
def manifestIds : List Str := [lit "T04", lit "T09", lit "T05", lit "T06", lit "T03", lit "T11"]

variable {R : ManifestRuntime φ δ} {tools : List (DiscoveredTool φ)} {r : ProbeResult δ}
  {results : List (ProbeResult δ)}

theorem threatId_of_numbered {idStart threatId : Str} {bodies : List Str}
    (h : r ∈ numbered R idStart threatId bodies) : r.threatId = threatId := by
  rw [numbered, List.mem_mapIdx] at h
  obtain ⟨i, hi, rfl⟩ := h
  rfl

theorem threatId_scanManifestT4 (h : scanManifestT4 R tools = .ok results) (hr : r ∈ results) :
    r.threatId = lit "T04" := by
  obtain ⟨findings, -, h⟩ := bind_eq_ok_iff.mp h
  cases h
  exact threatId_of_numbered hr

theorem threatId_scanManifestT5 {piiStrict : Bool}
    (h : scanManifestT5 R piiStrict tools = .ok results) (hr : r ∈ results) :
    r.threatId = lit "T05" := by
  obtain ⟨excerpts, -, h⟩ := bind_eq_ok_iff.mp h
  cases h
  exact threatId_of_numbered hr

theorem threatId_scanManifestT3Schema (h : scanManifestT3Schema R tools = .ok results)
    (hr : r ∈ results) : r.threatId = lit "T03" := by
  rw [scanManifestT3Schema] at h
  split at h
  · cases h
    cases hr
  · obtain ⟨found, hfound, h⟩ := bind_eq_ok_iff.mp h
    split at h
    · cases h
      cases List.mem_singleton.mp hr
      rfl
    · cases h
      obtain ⟨p, -, hp⟩ := mem_of_mapM_eq_ok hfound (List.reduceOption_mem_iff.mp hr)
      obtain ⟨violations, -, hp⟩ := bind_eq_ok_iff.mp hp
      split at hp
      · cases hp
      · cases hp
        rfl

theorem threatId_scanManifestT9 (hr : r ∈ scanManifestT9 R tools) : r.threatId = lit "T09" := by
  obtain ⟨p, -, rfl⟩ := List.mem_map.mp hr
  rfl

theorem threatId_scanManifestT6 (hr : r ∈ scanManifestT6 R tools) : r.threatId = lit "T06" := by
  rw [scanManifestT6] at hr
  split at hr
  · cases hr
  · dsimp only at hr
    split at hr
    · cases List.mem_singleton.mp hr
      rfl
    · exact threatId_of_numbered hr

theorem threatId_scanManifestT11 {toolAllowlist : Option (List Str)}
    (hr : r ∈ scanManifestT11 R toolAllowlist tools) : r.threatId = lit "T11" := by
  rw [scanManifestT11] at hr
  split at hr
  · cases hr
  · split at hr
    · cases List.mem_singleton.mp hr
      rfl
    · dsimp only at hr
      split at hr
      · cases List.mem_singleton.mp hr
        rfl
      · exact threatId_of_numbered hr

theorem mem_of_manifestScan {categories : Option (List Str)} {category : Str}
    {found : Except PyError (List (ProbeResult δ))}
    (h : manifestScan categories category found = .ok results) (hr : r ∈ results) :
    ∃ all, found = .ok all ∧ r ∈ all := by
  rw [manifestScan] at h
  split at h
  · exact ⟨results, h, hr⟩
  · cases h
    cases hr

theorem threatId_of_manifestResults {T : Tools φ ρ δ κ} {opts : Options}
    {categories : Option (List Str)}
    (h : manifestResults T opts categories tools = .ok results) (hr : r ∈ results) :
    r.threatId ∈ manifestIds := by
  simp only [manifestResults, bind_eq_ok_iff] at h
  obtain ⟨t4, h4, t9, h9, t5, h5, t6, h6, t3, h3, t11, h11, h⟩ := h
  cases h
  have hid {id : Str} (hid : id ∈ manifestIds) (h : r.threatId = id) : r.threatId ∈ manifestIds :=
    h ▸ hid
  simp only [List.mem_append] at hr
  rcases hr with ((((hr | hr) | hr) | hr) | hr) | hr
  · obtain ⟨all, hall, hr⟩ := mem_of_manifestScan h4 hr
    exact hid (by decide) (threatId_scanManifestT4 hall hr)
  · obtain ⟨all, hall, hr⟩ := mem_of_manifestScan h9 hr
    cases hall
    exact hid (by decide) (threatId_scanManifestT9 hr)
  · obtain ⟨all, hall, hr⟩ := mem_of_manifestScan h5 hr
    exact hid (by decide) (threatId_scanManifestT5 hall hr)
  · obtain ⟨all, hall, hr⟩ := mem_of_manifestScan h6 hr
    cases hall
    exact hid (by decide) (threatId_scanManifestT6 hr)
  · obtain ⟨all, hall, hr⟩ := mem_of_manifestScan h3 hr
    exact hid (by decide) (threatId_scanManifestT3Schema hall hr)
  · obtain ⟨all, hall, hr⟩ := mem_of_manifestScan h11 hr
    cases hall
    exact hid (by decide) (threatId_scanManifestT11 hr)

end Manifest

/-! ## The tests of a control -/

/-- The test with this id. -/
def Contact.Tests (target : Target φ ρ δ) (i : Str) : Contact φ ρ → Prop
  | .threat _ run => run.threat.id = i
  | .scenario s config => (target.runScenario s config).scenarioId = i
  | _ => False

/-- The results of a threat bear its id, and those of the metadata the id of their category. -/
structure Target.BearsIds (target : Target φ ρ δ) : Prop where
  threat : ∀ i run results, target.runThreat i run = .ok results →
    ∀ r ∈ results, r.threatId = run.threat.id
  metadata : ∀ config, ∀ r ∈ target.protectedResourceMetadata config, r.threatId = lit "T01"

/-- There is evidence on the control, for this target. -/
def Attested (opts : Options) (c : Control) : Prop :=
  ∃ manifest item, opts.evidence = some (.ok manifest) ∧ manifest.target = opts.target ∧
    manifest.items.get? c.controlId = some item

/-- What a mandatory control rests on. -/
structure Upheld (T : Tools φ ρ δ κ) (opts : Options) (target : Target φ ρ δ) (level : Int)
    (events : List (Contact φ ρ)) (c : Control) : Prop where
  notRefuted : ∀ i, i ∈ c.probeThreats ∨ i ∈ c.verifyWith ∨ i ∈ c.optionalProbes →
    ∀ k ∈ events, ∀ f ∈ target.reports k, f.id = i → ¬ (f.conclusive = true ∧ f.passed = false)
  ran : ∀ i, i ∈ c.probeThreats ∨ i ∈ c.verifyWith → isPassiveId T.isDecimal i = false →
    ∃ k ∈ events, k.Tests target i ∧ ∃ f ∈ target.reports k, f.conclusive = true
  /-- The audience of tokens is tested where tokens are asked for. -/
  audience : opts.authToken ≠ none → lit "T01-008" ∈ c.optionalProbes →
    ∃ k ∈ events, k.Tests target (lit "T01-008") ∧ ∃ f ∈ target.reports k, f.conclusive = true
  credited : Attested opts c ∨ c.verifyWith ≠ [] ∧ level ≤ c.blackboxMaxLevel ∧
    ∀ i ∈ c.verifyWith, isPassiveId T.isDecimal i = false →
      ∀ k ∈ events, k.Tests target i → ∀ f ∈ target.reports k, f.ConclusivePass

section Tests

variable {T : Tools φ ρ δ κ} {opts : Options} {target : Target φ ρ δ} {k : Contact φ ρ}
  {f : Finding Str}

/-- A passive id is that of a category. -/
theorem isPassiveId_category {isDecimal : CodePoint → Bool}
    (hdecimal : ∀ c, isDigit c = true → isDecimal c = true) {a b : CodePoint}
    (ha : isDigit a = true) (hb : isDigit b = true) : isPassiveId isDecimal [84, a, b] = true := by
  simp [isPassiveId, hdecimal a ha, hdecimal b hb]

theorem isPassiveId_of_mem_manifestIds {isDecimal : CodePoint → Bool}
    (hdecimal : ∀ c, isDigit c = true → isDecimal c = true) {i : Str} (hi : i ∈ manifestIds) :
    isPassiveId isDecimal i = true := by
  simp only [manifestIds, List.mem_cons, List.not_mem_nil, or_false] at hi
  rcases hi with rfl | rfl | rfl | rfl | rfl | rfl <;>
    exact isPassiveId_category hdecimal (by decide) (by decide)

theorem id_of_mem_threat (hids : target.BearsIds) {j : Nat} {run : ThreatRun φ ρ}
    (hf : f ∈ target.reports (.threat j run)) : f.id = run.threat.id := by
  rw [Target.reports] at hf
  split at hf
  · cases hf
  next hresults =>
    obtain ⟨r, hr, rfl⟩ := List.mem_map.mp hf
    exact hids.threat j run _ hresults r hr

/-- What a test reports, it reports under its id. -/
theorem id_of_mem_reports (hids : target.BearsIds) {i : Str} (hk : k.Tests target i)
    (hf : f ∈ target.reports k) : f.id = i := by
  cases k with
  | threat j run => exact (id_of_mem_threat hids hf).trans hk
  | scenario s config =>
    cases List.mem_singleton.mp hf
    exact hk
  | _ => exact hk.elim

/-- What is reported under an id that is not passive comes from the test with this id. -/
theorem tests_of_mem_reports (hids : target.BearsIds)
    (hdecimal : ∀ c, isDigit c = true → T.isDecimal c = true)
    (hf : f ∈ target.reports k) (hactive : isPassiveId T.isDecimal f.id = false) :
    k.Tests target f.id := by
  cases k with
  | threat j run => exact (id_of_mem_threat hids hf).symm
  | scenario s config =>
    cases List.mem_singleton.mp hf
    exact rfl
  | protectedResourceMetadata config =>
    obtain ⟨r, hr, rfl⟩ := List.mem_map.mp hf
    have hid : r.finding.id = lit "T01" := hids.metadata config r hr
    rw [hid] at hactive
    exact Bool.noConfusion (hactive.symm.trans
      (isPassiveId_category hdecimal (by decide) (by decide)))
  | _ => cases hf

end Tests

/-! ## A scan that exits with 0 -/

section Assured

variable {T : Tools φ ρ δ κ} {opts : Options} {target : Target φ ρ δ} {level : Int}
  {r : ScanResult φ ρ δ} {events : List (Contact φ ρ)}

theorem findings_evidence : Assurance.findings (r.probeResults.map ProbeResult.evidence)
    (r.scenarioResults.map ScenarioResult.evidence) = r.findings := by
  rw [Assurance.findings, List.map_map, List.map_map]
  rfl

theorem Accounted.mem_findings (h : Accounted T opts target r events) {k : Contact φ ρ}
    (hk : k ∈ events) {f : Finding Str} (hf : f ∈ target.reports k) : f ∈ r.findings := by
  obtain ⟨tools, manifest, -, -, hperm⟩ := h.reported
  exact hperm.mem_iff.mpr (List.mem_append_right _ (List.mem_flatMap.mpr ⟨k, hk, hf⟩))

/-- What is found under an id that is not passive has been reported by its test. -/
theorem Accounted.tests (h : Accounted T opts target r events) (hids : target.BearsIds)
    (hdecimal : ∀ c, isDigit c = true → T.isDecimal c = true) {f : Finding Str}
    (hf : f ∈ r.findings) (hactive : isPassiveId T.isDecimal f.id = false) :
    ∃ k ∈ events, k.Tests target f.id ∧ f ∈ target.reports k := by
  obtain ⟨tools, manifest, -, hmanifest, hperm⟩ := h.reported
  rcases List.mem_append.mp (hperm.mem_iff.mp hf) with hf | hf
  · obtain ⟨q, hq, rfl⟩ := List.mem_map.mp hf
    have hpassive := isPassiveId_of_mem_manifestIds hdecimal
      (threatId_of_manifestResults hmanifest hq)
    exact Bool.noConfusion (hactive.symm.trans hpassive)
  · obtain ⟨k, hk, hf⟩ := List.mem_flatMap.mp hf
    exact ⟨k, hk, tests_of_mem_reports hids hdecimal hf hactive, hf⟩

theorem Accounted.tests_of_ran (h : Accounted T opts target r events) (hids : target.BearsIds)
    (hdecimal : ∀ c, isDigit c = true → T.isDecimal c = true) {i : Str}
    (hactive : isPassiveId T.isDecimal i = false) (hran : Ran r.findings i) :
    ∃ k ∈ events, k.Tests target i ∧ ∃ f ∈ target.reports k, f.conclusive = true := by
  obtain ⟨f, hf, rfl, hconclusive⟩ := hran
  obtain ⟨k, hk, htests, hreported⟩ := h.tests hids hdecimal hf hactive
  exact ⟨k, hk, htests, f, hreported, hconclusive⟩

/-- There is evidence for this target only. -/
theorem attested_of_loadEvidence {evidence : Dict Str EvidenceItem}
    (h : loadEvidence T opts = .ok evidence) {c : Control} {item : EvidenceItem}
    (hitem : evidence.get? c.controlId = some item) : Attested opts c := by
  unfold loadEvidence at h
  split at h
  · cases h
    cases hitem
  · cases h
  next manifest hmanifest =>
    simp only [ite_error_eq_ok_iff] at h
    obtain ⟨-, htarget, h⟩ := h
    cases h
    exact ⟨manifest, item, hmanifest, not_not.mp htarget, hitem⟩

/-- A scan that claims a level exits with 0 only if its report credits the level. -/
theorem of_conclude {plan : Plan φ ρ} {config : ScanConfig} {tools : List (DiscoveredTool φ)}
    {results : List (ProbeResult δ)} {scenarios : List ScenarioResult}
    {assurance : Option (Assurance.AssuranceReport (Json φ))}
    (h : (conclude T opts target plan config tools results scenarios).result = .ok (0, assurance))
    (hlevel : opts.assuranceLevel = some level) : ∃ noTools report,
      assess T opts plan config noTools level results scenarios = .ok report ∧
        (report.result = .met ∨ report.result = .metWithAttestation) := by
  unfold conclude at h
  rw [hlevel] at h
  obtain ⟨noTools, -, h, -⟩ := Logged.of_bind h
  obtain ⟨report, hreport, h, -⟩ := Logged.of_bind h
  refine ⟨noTools, report, hreport, ?_⟩
  have hexit : gated report (exitCodeOf T opts plan results scenarios) = 0 :=
    congrArg Prod.fst (Except.ok.inj h)
  by_contra hne
  rw [not_or] at hne
  rw [gated] at hexit
  split at hexit
  · cases hexit
  next hnot => exact hnot ⟨hne.1, hne.2, hexit⟩

/-- A mandatory control of a report that credits the level is upheld. -/
theorem upheld_of_assess {plan : Plan φ ρ} {config : ScanConfig} {noTools : Bool}
    {report : Assurance.AssuranceReport (Json φ)}
    (haccounted : Accounted T opts target r events) (hids : target.BearsIds)
    (hdecimal : ∀ c, isDigit c = true → T.isDecimal c = true)
    (hevidence : loadEvidence T opts = .ok plan.evidence)
    (hassess : assess T opts plan config noTools level r.probeResults r.scenarioResults =
      .ok report)
    (hresult : report.result = .met ∨ report.result = .metWithAttestation) {c : Control}
    (hc : c ∈ T.controls) {req : Assurance.Requirement} (hreq : c.requirement level = some req)
    (hmust : req.strength = .must) : Upheld T opts target level events c := by
  obtain ⟨htested, hcredited⟩ := credited_of_evaluateAssurance (mapError_eq_ok_iff.mp hassess)
    hresult hc hreq hmust
  rw [findings_evidence] at htested hcredited
  refine ⟨fun i hi k hk f hf hid hfailed => ?_, fun i hi hactive => ?_,
    fun htoken haudience => ?_, ?_⟩
  · exact htested.notRefuted i hi ⟨f, haccounted.mem_findings hk hf, hid, hfailed⟩
  · exact haccounted.tests_of_ran hids hdecimal hactive (htested.linkedRan i hi (.inl hactive))
  · have hseen : authRequiredSeen opts r.probeResults = true := by
      simp [authRequiredSeen, Option.isSome_iff_ne_none.mpr htoken]
    have hrequired : lit "T01-008" ∈ requiredOptional opts plan config noTools r.probeResults := by
      rw [requiredOptional, if_pos hseen]
      exact Finset.mem_union_right _ (Finset.mem_singleton_self _)
    exact haccounted.tests_of_ran hids hdecimal rfl (htested.promotedRan _ haudience hrequired)
  · rcases hcredited with ⟨item, hitem⟩ | ⟨hverifiers, hmax, hproven⟩
    · exact .inl (attested_of_loadEvidence hevidence hitem)
    · refine .inr ⟨hverifiers, hmax, fun i hi _ k hk htests f hf => ?_⟩
      exact (hproven i hi).2 f (haccounted.mem_findings hk hf) (id_of_mem_reports hids htests hf)

variable [PyFloat φ] {tree : CatalogTree}

/-- A scan that claims a level and exits with 0 is a full scan, of threats that are official, and
every control that the level makes mandatory is upheld by what was done. -/
theorem runScan_assured (hids : target.BearsIds)
    (hdecimal : ∀ c, isDigit c = true → T.isDecimal c = true)
    (h : (runScan T opts target tree).result = .ok r) (hlevel : opts.assuranceLevel = some level)
    (hexit : r.exitCode = 0) :
    FullScan T opts level ∧
    (∀ i run, .threat i run ∈ (runScan T opts target tree).events →
      run.threat.provenance = .official ∧ ∃ file ∈ tree.official ++ tree.adversarial,
        IsSigned T.ed25519 T.pubkey file ∧
          parseFile T.catalogRuntime T.validThreat .official false false file.content = .ok run.threat) ∧
    ∀ c ∈ T.controls, ∀ req, c.requirement level = some req → req.strength = .must →
      Upheld T opts target level (runScan T opts target tree).events c := by
  unfold runScan at h ⊢
  obtain ⟨plan, hprepare, hrun, hevents⟩ := Logged.of_bind h
  rw [hevents]
  have hplanned := (of_prepare hprepare).2
  obtain ⟨hfull, hevidence⟩ := of_checkAssurance hplanned.engine hplanned.evidence hlevel
  have haccounted := runPlan_accounted hplanned hrun
  refine ⟨hfull, fun i run hmem => ?_, fun c hc req hreq hmust => ?_⟩
  · obtain ⟨hcleared, -⟩ : Authorized T opts tree (.threat i run) := each_runPlan hplanned _ hmem
    obtain ⟨threats, hloaded, hthreat⟩ := hcleared.loaded
    refine (provenance_of_loadAll hloaded hthreat).resolve_right fun ⟨_, hcustom, _⟩ => ?_
    exact Bool.noConfusion (hfull.official.symm.trans hcustom)
  · have hplan := hrun
    unfold runPlan at hplan
    obtain ⟨config, -, hplan, -⟩ := Logged.of_bind hplan
    obtain ⟨⟨found, tools⟩, -, hplan, -⟩ := Logged.of_bind hplan
    obtain ⟨scenarios, -, hplan, -⟩ := Logged.of_bind hplan
    obtain ⟨results, -, hplan, -⟩ := Logged.of_bind hplan
    obtain ⟨⟨exitCode, assurance⟩, hconclude, hplan, -⟩ := Logged.of_bind hplan
    cases hplan
    cases hexit
    obtain ⟨noTools, report, hassess, hresult⟩ := of_conclude hconclude hlevel
    exact upheld_of_assess haccounted hids hdecimal hevidence hassess hresult hc hreq hmust

end Assured

section Example

/-- A control on authentication, that the plain threat verifies. -/
def plainControl : Control where
  controlId := lit "AZ-01"
  dimension := lit "Authentication"
  title := lit "Requests without credentials"
  levels := .ofList [(1, ⟨.must, lit "Reject requests without credentials"⟩)]
  probeThreats := [lit "T01-001"]
  blackboxMaxLevel := 1
  verifyWith := [lit "T01-001"]
  optionalProbes := []

def controlledTools : Tools WholeFloat Unit Unit Unit :=
  { plainTools with controls := [plainControl] }

/-- A full scan that claims level 1. -/
def claimingOptions : Options :=
  { plainOptions with engine := lit "all", assuranceLevel := some 1 }

/-- A target that also passes the scenarios. -/
def passingTarget : Target WholeFloat Unit Unit :=
  { rejectingTarget with runScenario := fun _ _ => ⟨lit "S", [], .complete, true, []⟩ }

theorem bearsIds_passingTarget : passingTarget.BearsIds := by
  refine ⟨fun i run results h r hr => ?_, fun _ r hr => ?_⟩
  · cases h
    obtain ⟨p, -, rfl⟩ := List.mem_map.mp hr
    rfl
  · cases hr

theorem prepare_claiming : prepare controlledTools claimingOptions signedPlainTree =
    .ok { plainPlan with engine := lit "all" } := by
  have hload : loadAll controlledTools.ed25519 controlledTools.pubkey controlledTools.catalogRuntime
      controlledTools.validThreat claimingOptions.allowCustomCatalog false
      (claimingOptions.adversarial controlledTools).enabled signedPlainTree = .ok [plainThreat] :=
    loadAll_plain
  have htarget : checkTarget controlledTools claimingOptions = .ok () :=
    checkTarget_eq_ok_iff.mpr (by decide)
  rw [prepare, htarget, hload]
  rfl

/-- The level is met, by the one test there is. -/
theorem runScan_assured_plain : ∃ r,
    (runScan controlledTools claimingOptions passingTarget signedPlainTree).result = .ok r ∧
      r.exitCode = 0 ∧ Upheld controlledTools claimingOptions passingTarget 1
        (runScan controlledTools claimingOptions passingTarget signedPlainTree).events
        plainControl := by
  have hscan : runScan controlledTools claimingOptions passingTarget signedPlainTree =
      runPlan controlledTools claimingOptions passingTarget
        { plainPlan with engine := lit "all" } := by
    rw [runScan, prepare_claiming]
    rfl
  have hresult : ∃ r, (runPlan controlledTools claimingOptions passingTarget
      { plainPlan with engine := lit "all" }).result = .ok r ∧ r.exitCode = 0 :=
    ⟨_, rfl, by decide +kernel⟩
  obtain ⟨r, hr, hexit⟩ := hresult
  rw [← hscan] at hr
  obtain ⟨-, -, hupheld⟩ := runScan_assured bearsIds_passingTarget (fun _ h => h) hr rfl hexit
  exact ⟨r, hr, hexit, hupheld _ List.mem_cons_self _ rfl rfl⟩

end Example

end CosaiMcp.Scan
