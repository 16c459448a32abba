import CosaiMcp.Assurance.Serial
import CosaiMcp.Scorecard.Models

/-!
# Scorecards as documents

`toDict` and `fromDict` of a scorecard and its parts.
-/

namespace CosaiMcp.Scorecard

open Py Assurance

variable {φ : Type}

/-! ## Categories -/

def ComplianceMapping.toDict (m : ComplianceMapping) : Json φ :=
  .obj [(lit "owasp_mcp_top10", .str m.owaspMcpTop10), (lit "nist_ai_rmf", texts m.nistAiRmf)]

def ComplianceMapping.fromDict (B : Builtins φ) (d : Json φ) :
    Except PyError ComplianceMapping := do
  let owaspMcpTop10 ← getDefault d (lit "owasp_mcp_top10") (.str [])
  let nistAiRmf ← B.strs (← getDefault d (lit "nist_ai_rmf") (.arr []))
  return ⟨B.str owaspMcpTop10, nistAiRmf⟩

def optMapping : Option ComplianceMapping → Json φ
  | none => .null
  | some m => m.toDict

def CategoryResult.toDict (c : CategoryResult) : Json φ :=
  .obj [(lit "category", .str c.category), (lit "grade", .str c.grade.value),
    (lit "probe_count", .int c.probeCount), (lit "finding_count", .int c.findingCount),
    (lit "critical_count", .int c.criticalCount), (lit "high_count", .int c.highCount),
    (lit "coverage_engine", .str c.coverageEngine),
    (lit "inconclusive_count", .int c.inconclusiveCount),
    (lit "compliance_mapping", optMapping c.complianceMapping)]

section FromDict

variable [PyFloat φ]

def CategoryResult.fromDict (B : Builtins φ) (d : Json φ) : Except PyError CategoryResult := do
  let rawMapping ← getDefault d (lit "compliance_mapping") .null
  let category ← subscript d (lit "category")
  let grade ← enumMember [.pass, .warn, .fail, .notTested] Grade.value (← subscript d (lit "grade"))
  let probeCount ← B.int (← subscript d (lit "probe_count"))
  let findingCount ← B.int (← subscript d (lit "finding_count"))
  let mapping ← ifTruthy rawMapping (ComplianceMapping.fromDict B)
  let criticalCount ← B.int (← getDefault d (lit "critical_count") (.int 0))
  let highCount ← B.int (← getDefault d (lit "high_count") (.int 0))
  let coverageEngine ← getDefault d (lit "coverage_engine") (.str (lit "unknown"))
  let inconclusiveCount ← B.int (← getDefault d (lit "inconclusive_count") (.int 0))
  return ⟨B.str category, grade, probeCount, findingCount, criticalCount, highCount,
    B.str coverageEngine, inconclusiveCount, mapping⟩

end FromDict

/-! ## Scorecards -/

/-- The members of a scorecard before its signature. -/
def head (s : Scorecard φ) : List (Str × Json φ) :=
  [(lit "scan_id", .str s.scanId), (lit "target_url", .str s.targetUrl),
    (lit "scan_timestamp", .str s.scanTimestamp), (lit "catalog_hash", .str s.catalogHash),
    (lit "tool_version", .str s.toolVersion),
    (lit "categories", .arr (s.categories.map CategoryResult.toDict)),
    (lit "conformance_level", .str s.conformanceLevel.value)]

/-- A report that is there; one is never false. -/
def assuranceMember : Option (AssuranceReport (Json φ)) → List (Str × Json φ)
  | none => []
  | some r => [(lit "assurance", r.toDict)]

def toDict (s : Scorecard φ) : Json φ :=
  .obj (s.head ++ [(lit "public_key", .str s.publicKey), (lit "signature", .str s.signature)] ++
    assuranceMember s.assurance)

def fromDict [PyFloat φ] (B : Builtins φ) (d : Json φ) :
    Except PyError (Scorecard φ) := do
  let scanId ← subscript d (lit "scan_id")
  let targetUrl ← subscript d (lit "target_url")
  let scanTimestamp ← subscript d (lit "scan_timestamp")
  let catalogHash ← subscript d (lit "catalog_hash")
  let toolVersion ← getDefault d (lit "tool_version") (.str [])
  let categories ← (← iterate (← getDefault d (lit "categories") (.arr []))).mapM
    (CategoryResult.fromDict B)
  let conformanceLevel ← enumMember
    [.fullConformance, .partialConformance, .nonConformant, .insufficientCoverage]
    ConformanceLevel.value (← subscript d (lit "conformance_level"))
  let publicKey ← getDefault d (lit "public_key") (.str [])
  let signature ← getDefault d (lit "signature") (.str [])
  let assurance ← getDefault d (lit "assurance") .null
  let assurance ← ifTruthy assurance (AssuranceReport.fromDict B)
  return ⟨B.str scanId, B.str targetUrl, B.str scanTimestamp, B.str catalogHash, B.str toolVersion,
    categories, conformanceLevel, B.str publicKey, B.str signature, assurance⟩

/-! ## Reading a category that was written -/

namespace CategoryResult

def reloadedMapping (m : ComplianceMapping) : ComplianceMapping :=
  ⟨mergePairs m.owaspMcpTop10, m.nistAiRmf.map mergePairs⟩

/-- After its texts went through JSON. -/
def reloaded (c : CategoryResult) : CategoryResult :=
  { c with
    category := mergePairs c.category
    coverageEngine := mergePairs c.coverageEngine
    complianceMapping := c.complianceMapping.map reloadedMapping }

theorem fromDict_toDict [PyFloat φ] (B : Builtins φ) (c : CategoryResult) :
    fromDict B c.toDict = .ok c := by
  have hgrade : enumMember [.pass, .warn, .fail, .notTested] Grade.value
      (.str c.grade.value : Json φ) = .ok c.grade := by
    cases c.grade <;> rfl
  have hmapping : ifTruthy (optMapping c.complianceMapping : Json φ)
      (ComplianceMapping.fromDict B) = .ok c.complianceMapping := by
    cases c.complianceMapping with
    | none => rfl
    | some m =>
      have hread : ifTruthy (optMapping (some m) : Json φ) (ComplianceMapping.fromDict B) =
          (do
            let nistAiRmf ← B.strs (texts m.nistAiRmf)
            return (⟨B.str (.str m.owaspMcpTop10), nistAiRmf⟩ : ComplianceMapping)).map some := rfl
      rw [hread, texts, strs_arr, B.str_str]
      rfl
  have hread : fromDict B (c.toDict : Json φ) = (do
      let grade ← enumMember [.pass, .warn, .fail, .notTested] Grade.value
        (.str c.grade.value : Json φ)
      let mapping ← ifTruthy (optMapping c.complianceMapping : Json φ)
        (ComplianceMapping.fromDict B)
      return ⟨B.str (.str c.category), grade, c.probeCount, c.findingCount, c.criticalCount,
        c.highCount, B.str (.str c.coverageEngine), c.inconclusiveCount, mapping⟩) := rfl
  rw [hread, hgrade, hmapping]
  simp only [B.str_str]
  rfl

theorem reload_optMapping (m : Option ComplianceMapping) :
    (optMapping m : Json φ).reload = optMapping (m.map reloadedMapping) := by
  cases m with
  | none => rfl
  | some m =>
    rw [optMapping, ComplianceMapping.toDict,
      reload_record (by simp only [List.map_cons, List.map_nil]; decide) rfl]
    simp only [List.map_cons, List.map_nil, reload_texts]
    rfl

theorem reload_toDict (c : CategoryResult) :
    (c.toDict : Json φ).reload = c.reloaded.toDict := by
  have hgrade : (Json.str c.grade.value : Json φ).reload = .str c.grade.value := by
    cases c.grade <;> rfl
  rw [toDict, reload_record (by simp only [List.map_cons, List.map_nil]; decide) rfl]
  simp only [List.map_cons, List.map_nil, hgrade, reload_optMapping]
  rfl

theorem keysStable_optMapping (m : Option ComplianceMapping) :
    (optMapping m : Json φ).KeysStable := by
  cases m with
  | none => exact .null
  | some m =>
    refine keysStable_record (by simp only [List.map_cons, List.map_nil]; decide) rfl ?_
    simp only [List.forall_mem_cons]
    exact ⟨.str _, keysStable_texts _, nofun⟩

theorem keysStable_toDict (c : CategoryResult) : (c.toDict : Json φ).KeysStable := by
  refine keysStable_record (by simp only [List.map_cons, List.map_nil]; decide) rfl ?_
  simp only [List.forall_mem_cons]
  exact ⟨.str _, .str _, .int _, .int _, .int _, .int _, .str _, .int _,
    keysStable_optMapping _, nofun⟩

end CategoryResult

/-! ## Reading a scorecard that was written -/

/-- The keys of the scope of the report, if there is one, survive a round trip. -/
def NativeScope (s : Scorecard φ) : Prop := ∀ r ∈ s.assurance, r.NativeScope

def collapsed (s : Scorecard φ) : Scorecard φ :=
  { s with assurance := s.assurance.map AssuranceReport.collapsed }

def reloaded (s : Scorecard φ) : Scorecard φ :=
  ⟨mergePairs s.scanId, mergePairs s.targetUrl, mergePairs s.scanTimestamp,
    mergePairs s.catalogHash, mergePairs s.toolVersion, s.categories.map CategoryResult.reloaded,
    s.conformanceLevel, mergePairs s.publicKey, mergePairs s.signature,
    s.assurance.map AssuranceReport.reloaded⟩

theorem fromDict_toDict [PyFloat φ] (B : Builtins φ) (s : Scorecard φ) :
    fromDict B s.toDict = .ok s.collapsed := by
  have hlevel : enumMember
      [.fullConformance, .partialConformance, .nonConformant, .insufficientCoverage]
      ConformanceLevel.value (.str s.conformanceLevel.value : Json φ) = .ok s.conformanceLevel := by
    cases s.conformanceLevel <;> rfl
  have hcategories : (s.categories.map fun c => (c.toDict : Json φ)).mapM
      (CategoryResult.fromDict B) = .ok (s.categories.map id) :=
    mapM_map_eq_ok fun c _ => c.fromDict_toDict B
  have hassurance : ifTruthy (((Json.obj (assuranceMember s.assurance)).get?
      (lit "assurance")).getD .null) (AssuranceReport.fromDict B) = .ok s.collapsed.assurance := by
    rw [collapsed]
    cases s.assurance with
    | none => rfl
    | some r =>
      have hread : ifTruthy (((Json.obj (assuranceMember (some r))).get? (lit "assurance")).getD
          .null) (AssuranceReport.fromDict B) =
            (AssuranceReport.fromDict B r.toDict).map some := rfl
      rw [hread, r.fromDict_toDict B]
      rfl
  have hread : fromDict B s.toDict = (do
      let categories ← (s.categories.map fun c => (c.toDict : Json φ)).mapM
        (CategoryResult.fromDict B)
      let conformanceLevel ← enumMember
        [.fullConformance, .partialConformance, .nonConformant, .insufficientCoverage]
        ConformanceLevel.value (.str s.conformanceLevel.value : Json φ)
      let assurance ← ifTruthy (((Json.obj (assuranceMember s.assurance)).get?
        (lit "assurance")).getD .null) (AssuranceReport.fromDict B)
      return ⟨B.str (.str s.scanId), B.str (.str s.targetUrl), B.str (.str s.scanTimestamp),
        B.str (.str s.catalogHash), B.str (.str s.toolVersion), categories, conformanceLevel,
        B.str (.str s.publicKey), B.str (.str s.signature), assurance⟩) := by
    unfold toDict
    cases s.assurance <;> rfl
  rw [hread, hcategories, List.map_id, hlevel, hassurance]
  simp only [B.str_str]
  rfl

theorem reload_categories (cs : List CategoryResult) :
    (Json.arr (cs.map CategoryResult.toDict) : Json φ).reload =
      .arr ((cs.map CategoryResult.reloaded).map CategoryResult.toDict) := by
  rw [Json.reload, Json.reloadItems_eq, List.map_map, List.map_map]
  exact congrArg _ (List.map_congr_left fun c _ => c.reload_toDict)

theorem reload_level (l : ConformanceLevel) :
    (Json.str l.value : Json φ).reload = .str l.value := by
  cases l <;> rfl

/-- The members of a scorecard, with or without the signature. -/
theorem reload_members {s : Scorecard φ} (h : s.NativeScope) (signature : List (Str × Json φ))
    (hsignature : signature = [] ∨
      signature = [(lit "public_key", .str s.publicKey), (lit "signature", .str s.signature)]) :
    (Json.obj (s.head ++ signature ++ assuranceMember s.assurance)).reload =
      .obj (s.reloaded.head ++ signature.map (fun m => (m.1, m.2.reload)) ++
        assuranceMember s.reloaded.assurance) := by
  have hassurance : (assuranceMember s.assurance).map (fun m => (m.1, m.2.reload)) =
      assuranceMember s.reloaded.assurance := by
    rw [reloaded]
    cases hr : s.assurance with
    | none => rfl
    | some r => exact congrArg (fun j => [(lit "assurance", j)]) (r.reload_toDict (h r hr))
  have hhead : s.head.map (fun m => (m.1, m.2.reload)) = s.reloaded.head := by
    rw [head]
    simp only [List.map_cons, List.map_nil, reload_categories, reload_level]
    rfl
  rw [reload_record, List.map_append, List.map_append, hhead, hassurance]
  · rcases hsignature with rfl | rfl <;> cases s.assurance <;>
      simp only [head, assuranceMember, List.map_cons, List.map_nil, List.map_append] <;> decide
  · rcases hsignature with rfl | rfl <;> cases s.assurance <;> rfl

theorem reload_toDict {s : Scorecard φ} (h : s.NativeScope) :
    s.toDict.reload = s.reloaded.toDict :=
  reload_members h _ (.inr rfl)

end CosaiMcp.Scorecard
