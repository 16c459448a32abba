import CosaiMcp.Middleware.Boundary.Coverage
import CosaiMcp.Protocol.ToolSchemaWalk
import CosaiMcp.Scan.Manifest

/-!
# When the scans of the manifest return

A hostile manifest should not stop the scan. Its tools can do so in three ways (`Scannable`): the
walk for poisoned texts calls a method of whatever stands under `properties`, the type of an
annotation is looked up in a set, and the regular-expression library encodes a text as UTF-8. The
other scans look at names only, and always return (`scanManifest_returns_iff`).
-/

namespace CosaiMcp.Scan

open Py
open Middleware.Boundary (Engine HasProperties Stops Walked schemaOf)
open Protocol (Stuck maxSchemaNodes schemaVisits toolSchemaViolations_eq_ok_iff)

variable {φ δ : Type} (R : ManifestRuntime φ δ)

/-- No part of the tool makes a scan raise. -/
structure Scannable (t : DiscoveredTool φ) : Prop where
  properties : ∀ s, Walked (Json.obj t.inputSchema).reload s → HasProperties s
  annotations : ¬ Stuck R.unicode ((schemaVisits (.obj t.inputSchema)).take (maxSchemaNodes + 1))
  description : isScalar t.description = true

/-- The library raises on the texts that are no UTF-8, and on no others. -/
def EncodesTexts : Prop :=
  ∀ pattern text, (∃ spans, R.finditer pattern text = .ok spans) ↔ isScalar text = true

/-! ## T4 -/

theorem scanManifestT4_returns_iff {tools : List (DiscoveredTool φ)} :
    (∃ results, scanManifestT4 R tools = .ok results) ↔
      ∀ t ∈ tools, ∀ s, Walked (Json.obj t.inputSchema).reload s → HasProperties s := by
  have hstops : (∃ tool ∈ tools.map toolDict, Stops (schemaOf tool)) ↔
      ∃ t ∈ tools, Stops (Json.obj t.inputSchema).reload := by
    constructor
    · rintro ⟨tool, htool, h⟩
      obtain ⟨t, ht, rfl⟩ := List.mem_map.mp htool
      exact ⟨t, ht, h⟩
    · rintro ⟨t, ht, h⟩
      exact ⟨toolDict t, List.mem_map_of_mem ht, h⟩
  have hall : (∀ t ∈ tools, ∀ s, Walked (Json.obj t.inputSchema).reload s → HasProperties s) ↔
      ¬ ∃ t ∈ tools, Stops (Json.obj t.inputSchema).reload := by
    simp only [Stops, not_exists, not_and, not_not]
  rw [hall, ← hstops]
  have hspec := Middleware.Boundary.scan_spec (E := R.engine) (tools.map toolDict)
  unfold scanManifestT4
  cases hscan : Middleware.Boundary.scan R.engine (tools.map toolDict) with
  | error e =>
    rw [hscan] at hspec
    exact iff_of_false (by rintro ⟨_, ⟨⟩⟩) (not_not_intro hspec)
  | ok findings =>
    rw [hscan] at hspec
    exact iff_of_true ⟨_, rfl⟩ hspec.1

/-! ## T5 -/

theorem scrub_returns_iff {piiStrict : Bool} {text : Str} :
    (∃ r, scrub R piiStrict text = .ok r) ↔
      ∀ pattern ∈ defaultPatterns ++ if piiStrict then strictPatterns else [],
        ∃ spans, R.finditer pattern.2 text = .ok spans := by
  have hpattern : ∀ pattern, (∃ found, patternMatches R text pattern = .ok found) ↔
      ∃ spans, R.finditer pattern.2 text = .ok spans := by
    intro pattern
    unfold patternMatches
    cases R.finditer pattern.2 text with
    | error e => exact iff_of_false (fun ⟨_, h⟩ => nomatch h) (fun ⟨_, h⟩ => nomatch h)
    | ok spans => exact iff_of_true ⟨_, rfl⟩ ⟨_, rfl⟩
  simp only [← hpattern]
  rw [← exists_mapM_eq_ok_iff]
  unfold scrub
  constructor
  · rintro ⟨r, h⟩
    obtain ⟨found, hfound, -⟩ := bind_eq_ok_iff.mp h
    exact ⟨found, hfound⟩
  · rintro ⟨found, hfound⟩
    exact ⟨_, bind_eq_ok_iff.mpr ⟨found, hfound, rfl⟩⟩

variable {R} in
theorem leakExcerpt_returns_iff (hencodes : EncodesTexts R) {piiStrict : Bool}
    {t : DiscoveredTool φ} (hname : isAscii t.name = true) :
    (∃ excerpt, leakExcerpt R piiStrict t = .ok excerpt) ↔ isScalar t.description = true := by
  have htext : isScalar (t.name ++ 10 :: t.description) = true ↔ isScalar t.description = true := by
    rw [isScalar_append, ← List.singleton_append, isScalar_append]
    exact ⟨fun h => h.2.2, fun h => ⟨isScalar_of_isAscii hname, rfl, h⟩⟩
  have hscrub : (∃ excerpt, leakExcerpt R piiStrict t = .ok excerpt) ↔
      ∃ r, scrub R piiStrict (t.name ++ 10 :: t.description) = .ok r := by
    unfold leakExcerpt
    cases scrub R piiStrict (t.name ++ 10 :: t.description) with
    | error e => exact iff_of_false (fun ⟨_, h⟩ => nomatch h) (fun ⟨_, h⟩ => nomatch h)
    | ok r =>
      exact iff_of_true ⟨_, (apply_ite Except.ok _ _ _).symm⟩ ⟨r, rfl⟩
  rw [hscrub, scrub_returns_iff, ← htext]
  constructor
  · intro h
    exact (hencodes _ _).mp (h _ (List.mem_append_left _ List.mem_cons_self))
  · intro h pattern _
    exact (hencodes pattern.2 _).mpr h

variable {R} in
theorem scanManifestT5_returns_iff (hencodes : EncodesTexts R) {piiStrict : Bool}
    {tools : List (DiscoveredTool φ)} (hnames : ∀ t ∈ tools, isAscii t.name = true) :
    (∃ results, scanManifestT5 R piiStrict tools = .ok results) ↔
      ∀ t ∈ tools, isScalar t.description = true := by
  have hmap : (∃ results, scanManifestT5 R piiStrict tools = .ok results) ↔
      ∃ excerpts, tools.mapM (leakExcerpt R piiStrict) = .ok excerpts := by
    unfold scanManifestT5
    cases tools.mapM (leakExcerpt R piiStrict) with
    | error e => exact iff_of_false (fun ⟨_, h⟩ => nomatch h) (fun ⟨_, h⟩ => nomatch h)
    | ok excerpts => exact iff_of_true ⟨_, rfl⟩ ⟨excerpts, rfl⟩
  rw [hmap, exists_mapM_eq_ok_iff]
  exact forall₂_congr fun t ht => leakExcerpt_returns_iff hencodes (hnames t ht)

/-! ## T3 -/

theorem schemaResult_returns_iff {idx : Nat} {t : DiscoveredTool φ} :
    (∃ result, schemaResult R idx t = .ok result) ↔
      ¬ Stuck R.unicode ((schemaVisits (.obj t.inputSchema)).take (maxSchemaNodes + 1)) := by
  rw [← toolSchemaViolations_eq_ok_iff R.unicode R.repr]
  unfold schemaResult
  cases Protocol.toolSchemaViolations R.unicode R.repr (.obj t.inputSchema) with
  | error e => exact iff_of_false (fun ⟨_, h⟩ => nomatch h) (fun ⟨_, h⟩ => nomatch h)
  | ok violations =>
    exact iff_of_true ⟨_, (apply_ite Except.ok _ _ _).symm⟩ ⟨violations, rfl⟩

theorem scanManifestT3Schema_returns_iff {tools : List (DiscoveredTool φ)} :
    (∃ results, scanManifestT3Schema R tools = .ok results) ↔
      ∀ t ∈ tools,
        ¬ Stuck R.unicode ((schemaVisits (.obj t.inputSchema)).take (maxSchemaNodes + 1)) := by
  unfold scanManifestT3Schema
  by_cases hempty : tools = []
  · subst hempty
    exact iff_of_true ⟨_, rfl⟩ (List.forall_mem_nil _)
  · rw [if_neg hempty]
    have hmap : (∀ t ∈ tools,
        ¬ Stuck R.unicode ((schemaVisits (.obj t.inputSchema)).take (maxSchemaNodes + 1))) ↔
        ∀ p ∈ tools.zipIdx, ∃ result, schemaResult R (p.2 + 1) p.1 = .ok result := by
      simp only [schemaResult_returns_iff]
      constructor
      · intro h p hp
        exact h p.1 (List.fst_mem_of_mem_zipIdx hp)
      · intro h t ht
        obtain ⟨i, hi, rfl⟩ := List.getElem_of_mem ht
        exact h (tools[i], i) (List.mk_mem_zipIdx_iff_getElem?.mpr (List.getElem?_eq_getElem hi))
    rw [hmap, ← exists_mapM_eq_ok_iff]
    cases tools.zipIdx.mapM fun p => schemaResult R (p.2 + 1) p.1 with
    | error e => exact iff_of_false (fun ⟨_, h⟩ => nomatch h) (fun ⟨_, h⟩ => nomatch h)
    | ok results =>
      refine iff_of_true ?_ ⟨results, rfl⟩
      rw [ok_bind]
      split
      · exact ⟨_, rfl⟩
      · exact ⟨_, rfl⟩

/-! ## All of them -/

def quietEngine : Engine WholeFloat where
  search _ _ := none
  str
    | .str s => s
    | _ => []
  escape := id
  nfkc := id
  isPrintable _ := true
  base64Text _ := none
  hexText _ := none
  secondFirst _ _ := false
  str_str := @Json.strOrNil_str WholeFloat
  nfkc_nil := Middleware.Boundary.plainEngine.nfkc_nil

/-- No pattern is found anywhere. -/
def quietRuntime : ManifestRuntime WholeFloat Unit where
  engine := quietEngine
  unicode := .ascii
  repr _ := []
  finditer _ text := if isScalar text = true then .ok [] else .error .valueError
  reservedMethods := reservedMcpMethods
  reservedMethods_perm := .refl _
  zeroSeconds := ()

theorem encodesTexts_quietRuntime : EncodesTexts quietRuntime := by
  intro pattern text
  by_cases h : isScalar text = true
  · exact iff_of_true ⟨[], if_pos h⟩ h
  · refine iff_of_false ?_ h
    rintro ⟨spans, hspans⟩
    cases (if_neg h).symm.trans hspans

/-- `{"name": "search", "inputSchema": {"properties": []}}`. -/
def listProperties : Json WholeFloat :=
  .obj [(lit "name", .str (lit "search")),
    (lit "inputSchema", .obj [(lit "properties", .arr [])])]

/-- `{"name": "search", "description": "Finds a file"}`. -/
def plainTool : Json WholeFloat :=
  .obj [(lit "name", .str (lit "search")), (lit "description", .str (lit "Finds a file"))]

end CosaiMcp.Scan
