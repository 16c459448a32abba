import CosaiMcp.Assurance.Evaluate
import CosaiMcp.Py.Record

/-!
# Assurance reports as documents

`toDict` and `fromDict` of the verdicts and the report. The scope is a document of its own.
-/

namespace CosaiMcp.Assurance

open Py

variable {φ : Type}

def Strength.value : Strength → Str
  | .must => lit "must"
  | .should => lit "should"

def Verdict.value : Verdict → Str
  | .pass => lit "pass"
  | .fail => lit "fail"
  | .attested => lit "attested"
  | .unverified => lit "unverified"
  | .notRequired => lit "not_required"

def LevelResult.value : LevelResult → Str
  | .met => lit "met"
  | .metWithAttestation => lit "met_with_attestation"
  | .notMet => lit "not_met"
  | .indeterminate => lit "indeterminate"

/-- A text, or `None`. -/
def optText : Option Str → Json φ
  | none => .null
  | some s => .str s

def texts (ss : List Str) : Json φ := .arr (ss.map .str)

theorem reload_optText (s : Option Str) :
    (optText s : Json φ).reload = optText (s.map mergePairs) := by
  cases s <;> rfl

theorem reload_texts (ss : List Str) : (texts ss : Json φ).reload = texts (ss.map mergePairs) := by
  rw [texts, Json.reload, Json.reloadItems_eq, texts, List.map_map, List.map_map]
  rfl

theorem keysStable_optText (s : Option Str) : (optText s : Json φ).KeysStable := by
  cases s with
  | none => exact .null
  | some s => exact .str s

theorem keysStable_texts (ss : List Str) : (texts ss : Json φ).KeysStable := by
  refine .arr fun j hj => ?_
  obtain ⟨s, -, rfl⟩ := List.mem_map.mp hj
  exact .str s

/-! ## Verdicts -/

def ControlVerdict.toDict (v : ControlVerdict) : Json φ :=
  .obj [(lit "control_id", .str v.controlId), (lit "dimension", .str v.dimension),
    (lit "title", .str v.title), (lit "strength", optText (v.strength.map Strength.value)),
    (lit "verdict", .str v.verdict.value), (lit "reason", .str v.reason),
    (lit "linked_results", texts v.linkedResults),
    (lit "evidence_sha256", optText v.evidenceSha256)]

variable [PyFloat φ]

def ControlVerdict.fromDict (B : Builtins φ) (d : Json φ) : Except PyError ControlVerdict := do
  let strength ← getDefault d (lit "strength") .null
  let controlId ← subscript d (lit "control_id")
  let dimension ← getDefault d (lit "dimension") (.str [])
  let title ← getDefault d (lit "title") (.str [])
  let strength ← ifTruthy strength (enumMember [.must, .should] Strength.value)
  let verdict ← enumMember [.pass, .fail, .attested, .unverified, .notRequired] Verdict.value
    (← subscript d (lit "verdict"))
  let reason ← getDefault d (lit "reason") (.str [])
  let linkedResults ← B.strs (← getDefault d (lit "linked_results") (.arr []))
  let evidence ← getDefault d (lit "evidence_sha256") .null
  return ⟨B.str controlId, B.str dimension, B.str title, strength, verdict, B.str reason,
    linkedResults, if evidence.truthy then some (B.str evidence) else none⟩

/-! ## The report -/

def countMust (controls : List ControlVerdict) (v : Verdict) : Json φ :=
  .int ((controls.filter ControlVerdict.isMust).countP (·.verdict = v) : Nat)

/-- The verdicts that are counted. -/
def counted : List Verdict := [.pass, .attested, .fail, .unverified]

def AssuranceReport.toDict (r : AssuranceReport (Json φ)) : Json φ :=
  .obj [(lit "claimed_level", .int r.claimedLevel), (lit "result", .str r.result.value),
    (lit "profile_version", .str r.profileVersion),
    (lit "must_counts", .obj (counted.map fun v => (v.value, countMust r.controls v))),
    (lit "scope", .obj r.scope.items), (lit "controls", .arr (r.controls.map ControlVerdict.toDict))]

def AssuranceReport.fromDict (B : Builtins φ) (d : Json φ) :
    Except PyError (AssuranceReport (Json φ)) := do
  let claimedLevel ← B.int (← subscript d (lit "claimed_level"))
  let result ← enumMember [.met, .metWithAttestation, .notMet, .indeterminate] LevelResult.value
    (← subscript d (lit "result"))
  let profileVersion ← getDefault d (lit "profile_version") (.str [])
  let controls ← (← iterate (← getDefault d (lit "controls") (.arr []))).mapM
    (ControlVerdict.fromDict B)
  let scope ← getDefault d (lit "scope") .null
  let scope ← ifTruthy scope B.dict
  return ⟨claimedLevel, result, B.str profileVersion, controls, scope.getD Dict.empty⟩

/-! ## Reading a verdict that was written -/

namespace ControlVerdict

/-- An empty digest is read as none. -/
def collapsed (v : ControlVerdict) : ControlVerdict :=
  { v with evidenceSha256 := v.evidenceSha256.filter (· ≠ []) }

/-- After its texts went through JSON. -/
def reloaded (v : ControlVerdict) : ControlVerdict :=
  ⟨mergePairs v.controlId, mergePairs v.dimension, mergePairs v.title, v.strength, v.verdict,
    mergePairs v.reason, v.linkedResults.map mergePairs, v.evidenceSha256.map mergePairs⟩

theorem fromDict_toDict (B : Builtins φ) (v : ControlVerdict) :
    fromDict B v.toDict = .ok v.collapsed := by
  have hstrength : ifTruthy (optText (v.strength.map Strength.value) : Json φ)
      (enumMember [.must, .should] Strength.value) = .ok v.strength := by
    cases v.strength with
    | none => rfl
    | some s => cases s <;> rfl
  have hverdict : enumMember [.pass, .fail, .attested, .unverified, .notRequired] Verdict.value
      (.str v.verdict.value : Json φ) = .ok v.verdict := by
    cases v.verdict <;> rfl
  have hevidence : (if (optText v.evidenceSha256 : Json φ).truthy then
      some (B.str (optText v.evidenceSha256)) else none) =
        v.evidenceSha256.filter (· ≠ []) := by
    cases v.evidenceSha256 with
    | none => rfl
    | some s =>
      cases s with
      | nil => rfl
      | cons c s => exact congrArg some (B.str_str (c :: s))
  have hread : fromDict B (v.toDict : Json φ) = (do
      let strength ← ifTruthy (optText (v.strength.map Strength.value) : Json φ)
        (enumMember [.must, .should] Strength.value)
      let verdict ← enumMember [.pass, .fail, .attested, .unverified, .notRequired] Verdict.value
        (.str v.verdict.value : Json φ)
      let linkedResults ← B.strs (texts v.linkedResults)
      return ⟨B.str (.str v.controlId), B.str (.str v.dimension), B.str (.str v.title), strength,
        verdict, B.str (.str v.reason), linkedResults,
        if (optText v.evidenceSha256 : Json φ).truthy then
          some (B.str (optText v.evidenceSha256)) else none⟩) := rfl
  rw [hread, hstrength, hverdict, texts, strs_arr, hevidence]
  simp only [B.str_str]
  rfl

omit [PyFloat φ] in
theorem reload_toDict (v : ControlVerdict) :
    (v.toDict : Json φ).reload = v.reloaded.toDict := by
  have hstrength : (optText (v.strength.map Strength.value) : Json φ).reload =
      optText (v.strength.map Strength.value) := by
    cases v.strength with
    | none => rfl
    | some s => cases s <;> rfl
  have hverdict : (Json.str v.verdict.value : Json φ).reload = .str v.verdict.value := by
    cases v.verdict <;> rfl
  rw [toDict, reload_record (by simp only [List.map_cons, List.map_nil]; decide) rfl]
  simp only [List.map_cons, List.map_nil, hstrength, hverdict, reload_optText, reload_texts]
  rfl

omit [PyFloat φ] in
theorem keysStable_toDict (v : ControlVerdict) : (v.toDict : Json φ).KeysStable := by
  refine keysStable_record (by simp only [List.map_cons, List.map_nil]; decide) rfl ?_
  simp only [List.forall_mem_cons]
  exact ⟨.str _, .str _, .str _, keysStable_optText _, .str _, .str _, keysStable_texts _,
    keysStable_optText _, nofun⟩

end ControlVerdict

/-! ## Reading a report that was written -/

namespace AssuranceReport

/-- The keys of the scope, at any depth, survive a round trip. -/
def NativeScope (r : AssuranceReport (Json φ)) : Prop := (Json.obj r.scope.items).KeysStable

def collapsed (r : AssuranceReport (Json φ)) : AssuranceReport (Json φ) :=
  { r with controls := r.controls.map ControlVerdict.collapsed }

def reloaded (r : AssuranceReport (Json φ)) : AssuranceReport (Json φ) :=
  { r with
    profileVersion := mergePairs r.profileVersion
    controls := r.controls.map ControlVerdict.reloaded
    scope := ⟨r.scope.items.map fun m => (m.1, m.2.reload), by
      rw [List.map_map]; exact r.scope.nodup⟩ }

theorem fromDict_toDict (B : Builtins φ) (r : AssuranceReport (Json φ)) :
    fromDict B r.toDict = .ok r.collapsed := by
  have hresult : enumMember [.met, .metWithAttestation, .notMet, .indeterminate] LevelResult.value
      (.str r.result.value : Json φ) = .ok r.result := by
    cases r.result <;> rfl
  have hcontrols : (r.controls.map fun c => (c.toDict : Json φ)).mapM (ControlVerdict.fromDict B) =
      .ok (r.controls.map ControlVerdict.collapsed) :=
    mapM_map_eq_ok fun c _ => c.fromDict_toDict B
  have hscope : ∃ o, ifTruthy (.obj r.scope.items) B.dict = .ok o ∧ o.getD Dict.empty = r.scope := by
    cases hitems : r.scope.items with
    | nil => exact ⟨none, rfl, Dict.ext hitems.symm⟩
    | cons m ms =>
      refine ⟨some (Dict.ofList (m :: ms)), rfl, Dict.ext ?_⟩
      rw [Option.getD_some, ← hitems, Dict.items_ofList r.scope.nodup]
  obtain ⟨o, ho, hget⟩ := hscope
  have hread : fromDict B r.toDict = (do
      let result ← enumMember [.met, .metWithAttestation, .notMet, .indeterminate]
        LevelResult.value (.str r.result.value : Json φ)
      let controls ← (r.controls.map fun c => (c.toDict : Json φ)).mapM (ControlVerdict.fromDict B)
      let scope ← ifTruthy (.obj r.scope.items) B.dict
      return ⟨r.claimedLevel, result, B.str (.str r.profileVersion), controls,
        scope.getD Dict.empty⟩) := rfl
  rw [hread, hresult, hcontrols, ho, B.str_str]
  exact congrArg (fun scope => Except.ok { r.collapsed with scope := scope }) hget

omit [PyFloat φ] in
/-- The counts do not look at the evidence, nor at texts. -/
theorem countMust_map {f : ControlVerdict → ControlVerdict}
    (hf : ∀ c, (f c).strength = c.strength ∧ (f c).verdict = c.verdict)
    (controls : List ControlVerdict) (v : Verdict) :
    (countMust (controls.map f) v : Json φ) = countMust controls v := by
  have hmust : ControlVerdict.isMust ∘ f = ControlVerdict.isMust :=
    funext fun c => by simp [ControlVerdict.isMust, (hf c).1]
  have hverdict : (fun c : ControlVerdict => decide (c.verdict = v)) ∘ f =
      fun c => decide (c.verdict = v) := funext fun c => by simp [(hf c).2]
  rw [countMust, countMust, List.filter_map, hmust, List.countP_map, hverdict]

omit [PyFloat φ] in
theorem nodup_counts (controls : List ControlVerdict) :
    ((counted.map fun v => (v.value, (countMust controls v : Json φ))).map Prod.fst).Nodup := by
  have hkeys : (counted.map fun v => (v.value, (countMust controls v : Json φ))).map Prod.fst =
      counted.map Verdict.value := by
    rw [List.map_map]
    rfl
  rw [hkeys]
  decide

omit [PyFloat φ] in
theorem reload_toDict {r : AssuranceReport (Json φ)} (h : r.NativeScope) :
    r.toDict.reload = r.reloaded.toDict := by
  have hresult : (Json.str r.result.value : Json φ).reload = .str r.result.value := by
    cases r.result <;> rfl
  have hcounts : (Json.obj (counted.map fun v => (v.value, countMust r.controls v)) :
      Json φ).reload = .obj (counted.map fun v => (v.value, countMust r.reloaded.controls v)) := by
    rw [reload_record (nodup_counts r.controls) rfl, List.map_map]
    refine congrArg _ (List.map_congr_left fun v _ => congrArg (Prod.mk v.value) ?_)
    exact (countMust_map (f := ControlVerdict.reloaded) (fun c => ⟨rfl, rfl⟩) r.controls v).symm
  have hcontrols : (Json.arr (r.controls.map ControlVerdict.toDict) : Json φ).reload =
      .arr (r.reloaded.controls.map ControlVerdict.toDict) := by
    rw [Json.reload, Json.reloadItems_eq, List.map_map, reloaded, List.map_map]
    exact congrArg _ (List.map_congr_left fun c _ => c.reload_toDict)
  have hscope : (Json.obj r.scope.items).reload = .obj r.reloaded.scope.items := by
    cases h with
    | obj hn hk _ => exact reload_obj_of_keys hn hk
  rw [toDict, reload_record (by simp only [List.map_cons, List.map_nil]; decide) rfl]
  simp only [List.map_cons, List.map_nil, hresult, hcounts, hcontrols, hscope]
  rfl

omit [PyFloat φ] in
theorem keysStable_toDict {r : AssuranceReport (Json φ)} (h : r.NativeScope) :
    r.toDict.KeysStable := by
  have hcounts : (Json.obj (counted.map fun v => (v.value, countMust r.controls v)) :
      Json φ).KeysStable := by
    refine keysStable_record (nodup_counts r.controls) rfl fun m hm => ?_
    obtain ⟨v, -, rfl⟩ := List.mem_map.mp hm
    exact .int _
  have hcontrols : (Json.arr (r.controls.map ControlVerdict.toDict) : Json φ).KeysStable := by
    refine .arr fun j hj => ?_
    obtain ⟨c, -, rfl⟩ := List.mem_map.mp hj
    exact c.keysStable_toDict
  refine keysStable_record (by simp only [List.map_cons, List.map_nil]; decide) rfl ?_
  simp only [List.forall_mem_cons]
  exact ⟨.int _, .str _, .str _, hcounts, h, hcontrols, nofun⟩

end AssuranceReport

end CosaiMcp.Assurance
