import CosaiMcp.Ir.Incident
import CosaiMcp.Py.JsonIndent
import CosaiMcp.Py.Record

/-!
# Incident records

`build_incident` makes a record of the findings of a scan, which is written to a file and read from
one again: by itself, or in a quarantine report next to its event for a SIEM. Either file is read
as the record, with the surrogate pairs of its texts joined (`readIncident_record`,
`readIncident_report`).

The identifier and the times are inputs.
-/

namespace CosaiMcp.Ir

open Py

variable {φ : Type}

/-! ## Records -/

inductive IncidentSeverity where
  | critical
  | high
  | medium
  | low
  | info
deriving DecidableEq

def IncidentSeverity.value : IncidentSeverity → Str
  | .critical => lit "critical"
  | .high => lit "high"
  | .medium => lit "medium"
  | .low => lit "low"
  | .info => lit "info"

/-- `severity.value.capitalize()`. -/
def IncidentSeverity.title : IncidentSeverity → Str
  | .critical => lit "Critical"
  | .high => lit "High"
  | .medium => lit "Medium"
  | .low => lit "Low"
  | .info => lit "Info"

/-- `_OCSF_SEV`. -/
def IncidentSeverity.ocsfId : IncidentSeverity → Int
  | .critical => 5
  | .high => 4
  | .medium => 3
  | .low => 2
  | .info => 1

def severities : List IncidentSeverity := [.critical, .high, .medium, .low, .info]

def ContainmentAction.value : ContainmentAction → Str
  | .emitIncident => lit "emit_incident"
  | .quarantineReport => lit "quarantine_report"
  | .blockEgress => lit "block_egress"
  | .sessionKill => lit "session_kill"

def containments : List ContainmentAction :=
  [.emitIncident, .quarantineReport, .blockEgress, .sessionKill]

structure IncidentRecord where
  incidentId : Str
  targetUrl : Str
  scanTimestamp : Str
  triggeredAtMs : Int
  findings : List Finding
  anomalyRules : List Str
  severity : IncidentSeverity
  recommendedActions : List ContainmentAction

/-- The severity of the worst rank: the first of `_SEV_RANK` that is one of `IncidentSeverity`. -/
def severityOfRank (worst : Nat) : IncidentSeverity :=
  if worst = 0 then .info else if worst = 1 then .low else if worst = 2 then .medium
  else if worst = 3 then .high else .critical

/-- The findings come with the severities of their probes. -/
def buildIncident (incidentId targetUrl scanTimestamp : Str) (triggeredAtMs : Int)
    (findings : List Finding) (anomalyRules : List Str) (probeSeverity : Dict Str Str) :
    IncidentRecord :=
  let summaries := findings.map fun f =>
    { f with severity := (probeSeverity.get? f.probeId).getD f.severity }
  ⟨incidentId, targetUrl, scanTimestamp, triggeredAtMs, summaries, anomalyRules,
    severityOfRank (worstRank summaries), Ir.recommendedActions summaries⟩

/-! ## Documents -/

def Finding.toDict (f : Finding) : Json φ :=
  .obj [(lit "probe_id", .str f.probeId), (lit "threat_id", .str f.threatId),
    (lit "severity", .str f.severity)]

def Finding.fromDict (B : Builtins φ) (d : Json φ) : Except PyError Finding := do
  let probeId ← subscript d (lit "probe_id")
  let threatId ← subscript d (lit "threat_id")
  let severity ← getDefault d (lit "severity") (.str (lit "medium"))
  return ⟨B.str probeId, B.str threatId, B.str severity⟩

def textItems (ss : List Str) : Json φ := .arr (ss.map .str)

namespace IncidentRecord

def members (r : IncidentRecord) : List (Str × Json φ) :=
  [(lit "incident_id", .str r.incidentId), (lit "target_url", .str r.targetUrl),
    (lit "scan_timestamp", .str r.scanTimestamp), (lit "triggered_at_ms", .int r.triggeredAtMs),
    (lit "findings", .arr (r.findings.map Finding.toDict)),
    (lit "anomaly_rules", textItems r.anomalyRules),
    (lit "severity", .str r.severity.value),
    (lit "recommended_actions", textItems (r.recommendedActions.map ContainmentAction.value))]

def toDict (r : IncidentRecord) : Json φ := .obj r.members

def fromDict [PyFloat φ] (B : Builtins φ) (d : Json φ) : Except PyError IncidentRecord := do
  let incidentId ← subscript d (lit "incident_id")
  let targetUrl ← subscript d (lit "target_url")
  let scanTimestamp ← subscript d (lit "scan_timestamp")
  let triggeredAtMs ← B.int (← subscript d (lit "triggered_at_ms"))
  let findings ← (← iterate (← getDefault d (lit "findings") (.arr []))).mapM (Finding.fromDict B)
  let anomalyRules ← B.strs (← getDefault d (lit "anomaly_rules") (.arr []))
  let severity ← enumMember severities IncidentSeverity.value
    (← getDefault d (lit "severity") (.str (lit "high")))
  let recommendedActions ← (← iterate (← getDefault d (lit "recommended_actions") (.arr []))).mapM
    (enumMember containments ContainmentAction.value)
  return ⟨B.str incidentId, B.str targetUrl, B.str scanTimestamp, triggeredAtMs, findings,
    anomalyRules, severity, recommendedActions⟩

end IncidentRecord

/-! ## The event for a SIEM -/

/-- `", ".join(ss)`. -/
def joinComma (ss : List Str) : Str := List.intercalate (lit ", ") ss

/-- `build_ocsf_incident`; `nowMs` is the time of a record without one. -/
def buildOcsfIncident (nowMs : Int) (r : IncidentRecord) : Json φ :=
  let tsMs := if r.triggeredAtMs = 0 then nowMs else r.triggeredAtMs
  .obj [(lit "class_uid", .int 2001), (lit "class_name", .str (lit "Security Incident")),
    (lit "category_uid", .int 2), (lit "category_name", .str (lit "Findings")),
    (lit "type_uid", .int 200101), (lit "type_name", .str (lit "Security Incident: Create")),
    (lit "time", .int tsMs), (lit "severity_id", .int r.severity.ocsfId),
    (lit "severity", .str r.severity.title), (lit "status_id", .int 1),
    (lit "status", .str (lit "New")), (lit "activity_id", .int 1),
    (lit "activity_name", .str (lit "Create")), (lit "verdict_id", .int 1),
    (lit "verdict", .str (lit "True Positive")),
    (lit "finding_info", .obj ([(lit "uid", .str r.incidentId),
      (lit "title", .str (lit "MCP Server Security Incident: " ++ r.targetUrl)),
      (lit "types", textItems [lit "Security Incident"]), (lit "created_time", .int tsMs),
      (lit "related_events", .arr (r.findings.map fun f => .obj [(lit "uid", .str f.probeId)]))] ++
      if r.anomalyRules = [] then []
      else [(lit "desc", .str (lit "Anomaly rules fired: " ++ joinComma r.anomalyRules))])),
    (lit "resources", .arr [.obj [(lit "uid", .str r.targetUrl), (lit "name", .str (lit "MCP Server")),
      (lit "type", .str (lit "Other"))]]),
    (lit "metadata", .obj [(lit "version", .str (lit "2.0.0")),
      (lit "product", .obj [(lit "name", .str (lit "cosai-mcp")),
        (lit "vendor_name", .str (lit "CoSAI"))]),
      (lit "log_provider", .str (lit "CoSAI"))]),
    (lit "unmapped", .obj [(lit "incident_id", .str r.incidentId),
      (lit "scan_timestamp", .str r.scanTimestamp), (lit "target_url", .str r.targetUrl),
      (lit "finding_count", .int r.findings.length), (lit "anomaly_rules", textItems r.anomalyRules),
      (lit "recommended_actions",
        textItems (r.recommendedActions.map ContainmentAction.value))])]

/-- The payload of a quarantine report. -/
def reportOf (nowMs : Int) (r : IncidentRecord) : Json φ :=
  .obj [(lit "cosai_ir_version", .str (lit "1.0")), (lit "incident", r.toDict),
    (lit "ocsf_incident", buildOcsfIncident nowMs r)]

/-- What `ir contain` makes of the text of a file; `none` is `JSONDecodeError`. -/
def readIncident [PyFloat φ] (B : Builtins φ) (text : Str) :
    Option (Except PyError IncidentRecord) :=
  (loads text).map fun raw => do
    IncidentRecord.fromDict B (← getDefault raw (lit "incident") raw)

/-! ## Reading what was written -/

def Finding.joined (f : Finding) : Finding :=
  ⟨mergePairs f.probeId, mergePairs f.threatId, mergePairs f.severity⟩

/-- The record with the surrogate pairs of its texts joined. -/
def IncidentRecord.joined (r : IncidentRecord) : IncidentRecord :=
  { r with
    incidentId := mergePairs r.incidentId
    targetUrl := mergePairs r.targetUrl
    scanTimestamp := mergePairs r.scanTimestamp
    findings := r.findings.map Finding.joined
    anomalyRules := r.anomalyRules.map mergePairs }

theorem Finding.fromDict_toDict (B : Builtins φ) (f : Finding) :
    Finding.fromDict B f.toDict = .ok f := by
  have hread : Finding.fromDict B f.toDict =
      .ok ⟨B.str (.str f.probeId), B.str (.str f.threatId), B.str (.str f.severity)⟩ := rfl
  rw [hread, B.str_str, B.str_str, B.str_str]

theorem Finding.reload_toDict (f : Finding) : (f.toDict : Json φ).reload = f.joined.toDict := by
  rfl

theorem reload_textItems (ss : List Str) :
    (textItems ss : Json φ).reload = textItems (ss.map mergePairs) := by
  rw [textItems, Json.reload, Json.reloadItems_eq, textItems, List.map_map, List.map_map]
  rfl

theorem mergePairs_severity (s : IncidentSeverity) : mergePairs s.value = s.value := by
  cases s <;> rfl

theorem mergePairs_containment (a : ContainmentAction) : mergePairs a.value = a.value := by
  cases a <;> rfl

theorem enumMember_severity (s : IncidentSeverity) :
    enumMember (φ := φ) severities IncidentSeverity.value (.str s.value) = .ok s := by
  cases s <;> rfl

theorem enumMember_containment (a : ContainmentAction) :
    enumMember (φ := φ) containments ContainmentAction.value (.str a.value) = .ok a := by
  cases a <;> rfl

namespace IncidentRecord

theorem reload_toDict (r : IncidentRecord) : (r.toDict : Json φ).reload = r.joined.toDict := by
  have hfindings : Json.reloadItems (r.findings.map (Finding.toDict (φ := φ))) =
      (r.findings.map Finding.joined).map Finding.toDict := by
    rw [Json.reloadItems_eq, List.map_map, List.map_map]
    rfl
  have hactions : (r.recommendedActions.map ContainmentAction.value).map mergePairs =
      r.recommendedActions.map ContainmentAction.value := by
    rw [List.map_map]
    exact List.map_congr_left fun a _ => mergePairs_containment a
  have hkeys : [lit "incident_id", lit "target_url", lit "scan_timestamp", lit "triggered_at_ms",
    lit "findings", lit "anomaly_rules", lit "severity", lit "recommended_actions"].Nodup := by
    decide
  have hscalar : [lit "incident_id", lit "target_url", lit "scan_timestamp", lit "triggered_at_ms",
      lit "findings", lit "anomaly_rules", lit "severity", lit "recommended_actions"].all
        isScalar = true := by
    decide
  unfold toDict
  rw [reload_record (by exact hkeys) (by exact hscalar)]
  simp only [members, List.map_cons, List.map_nil, Json.reload, hfindings, reload_textItems,
    mergePairs_severity, hactions]
  rfl

theorem fromDict_toDict [PyFloat φ] (B : Builtins φ) (r : IncidentRecord) :
    fromDict B r.toDict = .ok r := by
  have hfindings : (r.findings.map Finding.toDict).mapM (Finding.fromDict B) = .ok r.findings := by
    have hmap := mapM_map_eq_ok (l := r.findings) fun f _ => Finding.fromDict_toDict B f
    rwa [List.map_id'] at hmap
  have hactions : ((r.recommendedActions.map ContainmentAction.value).map Json.str).mapM
      (enumMember (φ := φ) containments ContainmentAction.value) = .ok r.recommendedActions := by
    rw [List.map_map]
    have hmap := mapM_map_eq_ok (l := r.recommendedActions)
      fun a _ => enumMember_containment (φ := φ) a
    rwa [List.map_id'] at hmap
  have hread : fromDict B r.toDict = (do
      let findings ← (r.findings.map Finding.toDict).mapM (Finding.fromDict B)
      let anomalyRules ← B.strs (textItems r.anomalyRules)
      let severity ← enumMember severities IncidentSeverity.value (.str r.severity.value)
      let recommendedActions ← ((r.recommendedActions.map ContainmentAction.value).map Json.str).mapM
        (enumMember containments ContainmentAction.value)
      return ⟨B.str (.str r.incidentId), B.str (.str r.targetUrl), B.str (.str r.scanTimestamp),
        r.triggeredAtMs, findings, anomalyRules, severity, recommendedActions⟩) := rfl
  rw [hread, hfindings, textItems, strs_arr, enumMember_severity, hactions, B.str_str, B.str_str,
    B.str_str]
  rfl

end IncidentRecord

/-- A record that was written is read, with the surrogate pairs of its texts joined. -/
theorem readIncident_record [PyFloat φ] (B : Builtins φ) (r : IncidentRecord) :
    readIncident B ((r.toDict : Json φ).indented 2 0) = some (.ok r.joined) := by
  rw [readIncident, loads_indented, Option.map_some, r.reload_toDict]
  exact congrArg some (IncidentRecord.fromDict_toDict B r.joined)

/-- So is one out of a quarantine report. -/
theorem readIncident_report [PyFloat φ] (B : Builtins φ) (nowMs : Int) (r : IncidentRecord) :
    readIncident B ((reportOf nowMs r : Json φ).indented 2 0) = some (.ok r.joined) := by
  have hkeys : [lit "cosai_ir_version", lit "incident", lit "ocsf_incident"].Nodup := by decide
  have hscalar : [lit "cosai_ir_version", lit "incident", lit "ocsf_incident"].all isScalar = true :=
    by decide
  have hreload : (reportOf nowMs r : Json φ).reload =
      .obj [(lit "cosai_ir_version", .str (mergePairs (lit "1.0"))),
        (lit "incident", r.joined.toDict),
        (lit "ocsf_incident", (buildOcsfIncident nowMs r).reload)] := by
    unfold reportOf
    rw [reload_record (by exact hkeys) (by exact hscalar)]
    simp only [List.map_cons, List.map_nil, r.reload_toDict, Json.reload]
  rw [readIncident, loads_indented, Option.map_some, hreload]
  exact congrArg some (IncidentRecord.fromDict_toDict B r.joined)

end CosaiMcp.Ir
