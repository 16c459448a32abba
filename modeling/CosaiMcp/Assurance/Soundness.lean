import CosaiMcp.Assurance.VerdictSpec
import CosaiMcp.Py.Except

/-!
# No verdict claims more than the scan

A control is credited only if every test that could have disproved it has run and none did
(`Tested`); it passes only on the proofs of all its verifiers, and is attested only on evidence. The
level result sums the mandatory controls up.
-/

namespace CosaiMcp.Assurance

open Py Finding

/-! ## The cascade read backwards -/

section Cascade

variable {contradicted untested attested verified : Prop}

theorem cascade_eq_pass_iff : cascade contradicted untested attested verified = .pass ↔
    ¬ contradicted ∧ ¬ untested ∧ ¬ attested ∧ verified := by
  unfold cascade
  by_cases hc : contradicted
  · simp [hc]
  · by_cases hu : untested
    · simp [hc, hu]
    · by_cases ha : attested
      · simp [hc, hu, ha]
      · by_cases hv : verified <;> simp [hc, hu, ha, hv]

theorem cascade_eq_attested_iff : cascade contradicted untested attested verified = .attested ↔
    ¬ contradicted ∧ ¬ untested ∧ attested := by
  unfold cascade
  by_cases hc : contradicted
  · simp [hc]
  · by_cases hu : untested
    · simp [hc, hu]
    · by_cases ha : attested
      · simp [hc, hu, ha]
      · by_cases hv : verified <;> simp [hc, hu, ha, hv]

end Cascade

/-! ## The verdicts of the controls -/

section Verdict

variable (isDecimal : CodePoint → Bool) (c : Control) (level : Int) (requiredOptional : Finset Str)
  (evidence : Dict Str EvidenceItem) (fs : List (Finding Str))

/-- Every test that could have disproved the control has run, and none did. -/
structure Tested : Prop where
  notRefuted : ∀ i, i ∈ c.probeThreats ∨ i ∈ c.verifyWith ∨ i ∈ c.optionalProbes → ¬ Refuted fs i
  linkedRan : ∀ i, i ∈ c.probeThreats ∨ i ∈ c.verifyWith →
    isPassiveId isDecimal i = false ∨ i = lit "T01" → Ran fs i
  promotedRan : ∀ i ∈ c.optionalProbes, i ∈ requiredOptional → Ran fs i
  passiveRan : ∀ i, i ∈ c.probeThreats ∨ i ∈ c.verifyWith →
    isPassiveId isDecimal i = true → Present fs i → Ran fs i

/-- What a verdict on the control says about the findings. -/
structure Grounded (v : ControlVerdict) : Prop where
  control : v.controlId = c.controlId
  strength : v.strength = (c.requirement level).map Requirement.strength
  credited : v.verdict = .pass ∨ v.verdict = .attested → Tested isDecimal c requiredOptional fs
  pass : v.verdict = .pass → evidence.get? c.controlId = none ∧ c.verifyWith ≠ [] ∧
    level ≤ c.blackboxMaxLevel ∧ ∀ i ∈ c.verifyWith, Proven fs i
  attested : v.verdict = .attested → ∃ item, evidence.get? c.controlId = some item

variable {isDecimal c level requiredOptional evidence fs}

theorem tested_of_not (hc : ¬ Contradicted c fs) (hu : ¬ Untested isDecimal c requiredOptional fs) :
    Tested isDecimal c requiredOptional fs := by
  have hlinked {i} (hi : i ∈ c.probeThreats ∨ i ∈ c.verifyWith) : i ∈ c.linked := by
    unfold Control.linked
    rw [Finset.mem_union, List.mem_toFinset, List.mem_toFinset]
    exact hi
  have hran {i} (hi : i ∈ c.requiredToRun isDecimal requiredOptional) : Ran fs i := by
    by_contra hn
    exact hu (.inl ⟨i, hi, hn⟩)
  refine ⟨fun i hi hr => hc ⟨i, ?_, hr⟩, fun i hi hp => ?_, fun i hi hr => ?_,
    fun i hi hp hpr => ?_⟩
  · rw [Finset.mem_union, List.mem_toFinset]
    rcases hi with hi | hi | hi
    · exact .inl (hlinked (.inl hi))
    · exact .inl (hlinked (.inr hi))
    · exact .inr hi
  · refine hran (Finset.mem_union_left _ (Finset.mem_filter.mpr ⟨hlinked hi, ?_⟩))
    rcases hp with hp | rfl
    · rw [hp]
      rfl
    · exact Bool.or_eq_true_iff.mpr (.inr rfl)
  · exact hran (Finset.mem_union_right _
      (Finset.mem_inter.mpr ⟨List.mem_toFinset.mpr hi, hr⟩))
  · by_contra hn
    exact hu (.inr ⟨i, hlinked hi, hp, hpr, hn⟩)

theorem grounded_controlVerdict (probes : List ProbeResult) (scenarios : List ScenarioResult) :
    Grounded isDecimal c level requiredOptional evidence (findings probes scenarios)
      (controlVerdict isDecimal c level probes scenarios evidence requiredOptional) := by
  obtain ⟨hcontrol, hstrength⟩ : _ ∧ _ := subject_controlVerdict probes scenarios evidence
  cases hreq : c.requirement level with
  | none =>
    have hv := @verdict_eq_notRequired isDecimal c level requiredOptional hreq probes scenarios
      evidence
    refine ⟨hcontrol, hstrength, ?_, ?_, ?_⟩ <;> rw [hv]
    · rintro (h | h) <;> cases h
    · nofun
    · nofun
  | some req =>
    have hv := @verdict_eq_cascade isDecimal c level requiredOptional req hreq probes scenarios
      evidence
    refine ⟨hcontrol, hstrength, ?_, ?_, ?_⟩ <;> rw [hv]
    · rintro (h | h)
      · obtain ⟨hc, hu, -⟩ := cascade_eq_pass_iff.mp h
        exact tested_of_not hc hu
      · obtain ⟨hc, hu, -⟩ := cascade_eq_attested_iff.mp h
        exact tested_of_not hc hu
    · intro h
      obtain ⟨-, -, ha, hverified⟩ := cascade_eq_pass_iff.mp h
      exact ⟨Option.not_isSome_iff_eq_none.mp ha, hverified⟩
    · intro h
      obtain ⟨-, -, ha⟩ := cascade_eq_attested_iff.mp h
      exact Option.isSome_iff_exists.mp ha

end Verdict

/-! ## The level result -/

/-- What the mandatory verdicts are like at each level result. -/
def SumsUp (verdicts : List ControlVerdict) : LevelResult → Prop
  | .notMet => ∃ v ∈ verdicts, v.strength = some .must ∧ v.verdict = .fail
  | .met => ∀ v ∈ verdicts, v.strength = some .must → v.verdict = .pass
  | .metWithAttestation =>
    (∀ v ∈ verdicts, v.strength = some .must → v.verdict = .pass ∨ v.verdict = .attested) ∧
      ∃ v ∈ verdicts, v.strength = some .must ∧ v.verdict = .attested
  | .indeterminate =>
    (∀ v ∈ verdicts, v.strength = some .must → v.verdict ≠ .fail) ∧
      ∃ v ∈ verdicts, v.strength = some .must ∧ v.verdict ≠ .pass ∧ v.verdict ≠ .attested

section Level

variable {verdicts : List ControlVerdict}

theorem any_musts_iff (p : ControlVerdict → Bool) :
    (verdicts.filter ControlVerdict.isMust).any p = true ↔
      ∃ v ∈ verdicts, v.strength = some .must ∧ p v = true := by
  rw [List.any_filter, List.any_eq_true]
  refine exists_congr fun v => and_congr_right fun _ => ?_
  rw [Bool.and_eq_true, ControlVerdict.isMust, decide_eq_true_eq]

theorem all_musts_iff (p : ControlVerdict → Bool) :
    (verdicts.filter ControlVerdict.isMust).all p = true ↔
      ∀ v ∈ verdicts, v.strength = some .must → p v = true := by
  rw [List.all_eq_true]
  refine forall_congr' fun v => ?_
  rw [List.mem_filter, ControlVerdict.isMust, decide_eq_true_eq, and_imp]

theorem levelResult_of_sumsUp {r : LevelResult} (h : SumsUp verdicts r) :
    levelResult verdicts = r := by
  unfold levelResult
  simp only [any_musts_iff, all_musts_iff, decide_eq_true_eq, Bool.or_eq_true]
  cases r with
  | notMet => exact if_pos h
  | met =>
    rw [if_neg]
    · exact if_pos h
    rintro ⟨v, hv, hmust, hfail⟩
    cases hfail.symm.trans (h v hv hmust)
  | metWithAttestation =>
    obtain ⟨hall, w, hw, hwmust, hatt⟩ := h
    rw [if_neg, if_neg, if_pos hall]
    · intro hpass
      cases hatt.symm.trans (hpass w hw hwmust)
    · rintro ⟨v, hv, hmust, hfail⟩
      rcases hall v hv hmust with h | h <;> cases hfail.symm.trans h
  | indeterminate =>
    obtain ⟨hall, w, hw, hwmust, hnp, hna⟩ := h
    rw [if_neg, if_neg, if_neg]
    · exact fun hcredited => (hcredited w hw hwmust).elim hnp hna
    · exact fun hpass => hnp (hpass w hw hwmust)
    · exact fun ⟨v, hv, hmust, hfail⟩ => hall v hv hmust hfail

theorem sumsUp_levelResult : SumsUp verdicts (levelResult verdicts) := by
  unfold levelResult
  simp only [any_musts_iff, all_musts_iff, decide_eq_true_eq, Bool.or_eq_true]
  split_ifs with hfail hpass hcredited
  · exact hfail
  · exact hpass
  · refine ⟨hcredited, ?_⟩
    simp only [not_forall] at hpass
    obtain ⟨v, hv, hmust, hnp⟩ := hpass
    exact ⟨v, hv, hmust, (hcredited v hv hmust).resolve_left hnp⟩
  · refine ⟨fun v hv hmust hf => hfail ⟨v, hv, hmust, hf⟩, ?_⟩
    simp only [not_forall, not_or] at hcredited
    obtain ⟨v, hv, hmust, hn⟩ := hcredited
    exact ⟨v, hv, hmust, hn⟩

theorem levelResult_eq_iff {r : LevelResult} : levelResult verdicts = r ↔ SumsUp verdicts r :=
  ⟨fun h => h ▸ sumsUp_levelResult, levelResult_of_sumsUp⟩

end Level

/-! ## The report -/

section Report

variable {σ : Type} {isDecimal : CodePoint → Bool} {controls : List Control} {level : Int}
  {probes : List ProbeResult} {scenarios : List ScenarioResult}
  {evidence : Option (Dict Str EvidenceItem)} {scope : Option (Dict Str σ)}
  {requiredOptional : Finset Str} {report : AssuranceReport σ}

theorem evaluateAssurance_eq_ok
    (h : evaluateAssurance isDecimal controls level probes scenarios evidence scope
      requiredOptional = .ok report) :
    level ∈ [1, 2, 3, 4] ∧ report.result = levelResult report.controls ∧
      report.controls = controls.map fun c => controlVerdict isDecimal c level probes scenarios
        (evidence.getD Dict.empty) requiredOptional := by
  unfold evaluateAssurance at h
  obtain ⟨hlevel, h⟩ := ite_error_eq_ok_iff.mp h
  cases h
  exact ⟨not_not.mp hlevel, rfl, rfl⟩

/-- **A report never over-claims.** Each control has a verdict that is grounded in the results, and
the level result is what the mandatory verdicts come to. -/
theorem report_never_over_claims
    (h : evaluateAssurance isDecimal controls level probes scenarios evidence scope
      requiredOptional = .ok report) :
    List.Forall₂ (Grounded isDecimal · level requiredOptional (evidence.getD Dict.empty)
      (findings probes scenarios)) controls report.controls ∧
    ∀ r, report.result = r ↔ SumsUp report.controls r := by
  obtain ⟨-, hresult, hcontrols⟩ := evaluateAssurance_eq_ok h
  refine ⟨?_, fun r => hresult ▸ levelResult_eq_iff⟩
  rw [hcontrols, List.forall₂_map_right_iff, List.forall₂_same]
  exact fun c _ => grounded_controlVerdict probes scenarios

end Report

/-- The control on request metadata, as at level 2. -/
def requestMetadata : Control where
  controlId := lit "TN-04"
  dimension := lit "Transport and Network Security"
  title := lit "Protocol request metadata validation"
  levels :=
    ⟨[(2, ⟨.must, lit "Validate MCP-Protocol-Version, Mcp-Method, Mcp-Name (Streamable HTTP)"⟩)],
      List.nodup_singleton _⟩
  probeThreats := [lit "T07-004", lit "T07-005"]
  blackboxMaxLevel := 3
  verifyWith := [lit "T07-004", lit "T07-005"]
  optionalProbes := []

def passedProbe (threatId : Str) : ProbeResult :=
  ⟨threatId ++ lit "-P1", threatId, true, none, none⟩

/-- Both verifiers passed. -/
theorem report_never_over_claims_two_probes : ∃ report : AssuranceReport Unit,
    report.result = .met ∧ List.Forall₂ (Grounded isDigit · 2 ∅ Dict.empty
      (findings [passedProbe (lit "T07-004"), passedProbe (lit "T07-005")] []))
      [requestMetadata] report.controls :=
  ⟨_, by decide +kernel, (@report_never_over_claims Unit isDigit [requestMetadata] 2
    [passedProbe (lit "T07-004"), passedProbe (lit "T07-005")] [] none none ∅ _ rfl).1⟩

end CosaiMcp.Assurance
