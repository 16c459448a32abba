import CosaiMcp.Assurance.Soundness

/-!
# Bad news never helps

A result that is not a conclusive pass, for whatever id and wherever it is added, raises neither the
verdict of a control nor the level result. Each ground of the cascade moves one way when a finding
is added (`Finding.Worse`): contradictions stay, proofs can only go, and what was untested stays so
or is contradicted.
-/

namespace CosaiMcp.Assurance

open Py Finding

/-! ## The orders -/

/-- `FAIL < UNVERIFIED < ATTESTED < PASS`; what is not required has no place in the order. -/
def Verdict.rank : Verdict → Option Nat
  | .fail => some 0
  | .unverified => some 1
  | .attested => some 2
  | .pass => some 3
  | .notRequired => none

def Verdict.NotAbove (v w : Verdict) : Prop :=
  v = w ∨ ∃ m n, v.rank = some m ∧ w.rank = some n ∧ m < n

/-- `NOT_MET < INDETERMINATE < MET_WITH_ATTESTATION < MET`. -/
def LevelResult.rank : LevelResult → Nat
  | .notMet => 0
  | .indeterminate => 1
  | .metWithAttestation => 2
  | .met => 3

/-! ## One control -/

section Control

variable {contradicted contradicted' untested untested' attested verified verified' : Prop}

/-- The cascade falls when contradictions stay, proofs only go, and untested tests stay untested or
become contradictions. -/
theorem cascade_notAbove (hc : contradicted → contradicted')
    (hu : untested → contradicted' ∨ untested') (hv : verified' → verified) :
    (cascade contradicted' untested' attested verified').NotAbove
      (cascade contradicted untested attested verified) := by
  unfold cascade
  by_cases hc' : contradicted'
  · rw [if_pos hc']
    split_ifs
    · exact .inl rfl
    · exact .inr ⟨0, 1, rfl, rfl, by decide⟩
    · exact .inr ⟨0, 2, rfl, rfl, by decide⟩
    · exact .inr ⟨0, 3, rfl, rfl, by decide⟩
    · exact .inr ⟨0, 1, rfl, rfl, by decide⟩
  · rw [if_neg hc', if_neg (mt hc hc')]
    by_cases hu' : untested'
    · rw [if_pos hu']
      split_ifs
      · exact .inl rfl
      · exact .inr ⟨1, 2, rfl, rfl, by decide⟩
      · exact .inr ⟨1, 3, rfl, rfl, by decide⟩
      · exact .inl rfl
    · rw [if_neg hu', if_neg fun h => (hu h).elim hc' hu']
      by_cases ha : attested
      · rw [if_pos ha, if_pos ha]
        exact .inl rfl
      · rw [if_neg ha, if_neg ha]
        by_cases hv' : verified'
        · rw [if_pos hv', if_pos (hv hv')]
          exact .inl rfl
        · rw [if_neg hv']
          split_ifs
          · exact .inr ⟨1, 3, rfl, rfl, by decide⟩
          · exact .inl rfl

variable {isDecimal : CodePoint → Bool} {c : Control} {level : Int} {requiredOptional : Finset Str}
  {fs fs' : List (Finding Str)}

theorem Contradicted.worse (h : Worse fs' fs) (hc : Contradicted c fs) : Contradicted c fs' := by
  obtain ⟨i, hi, hr⟩ := hc
  exact ⟨i, hi, h.reported hr⟩

theorem Verified.worse (h : Worse fs' fs) (hv : Verified c level fs') : Verified c level fs :=
  ⟨hv.1, hv.2.1, fun i hi => h.proven (hv.2.2 i hi)⟩

theorem Untested.worse (h : Worse fs' fs) (hu : Untested isDecimal c requiredOptional fs) :
    Contradicted c fs' ∨ Untested isDecimal c requiredOptional fs' := by
  -- an id that did not run before and has run now is refuted now
  have hstep {i} (hi : i ∈ c.linked ∪ c.optionalProbes.toFinset) (hran : ¬ Ran fs i) :
      Contradicted c fs' ∨ ¬ Ran fs' i := by
    by_cases hran' : Ran fs' i
    · exact .inl ⟨i, hi, (h.ran hran').resolve_left hran⟩
    · exact .inr hran'
  rcases hu with ⟨i, hi, hran⟩ | ⟨i, hi, hpassive, hpresent, hran⟩
  · exact (hstep (requiredToRun_subset hi) hran).imp_right fun hran' => .inl ⟨i, hi, hran'⟩
  · exact (hstep (Finset.mem_union_left _ hi) hran).imp_right fun hran' =>
      .inr ⟨i, hi, hpassive, h.reported hpresent, hran'⟩

theorem verdict_notAbove {probes probes' : List ProbeResult}
    {scenarios scenarios' : List ScenarioResult}
    (h : Worse (findings probes' scenarios') (findings probes scenarios))
    (evidence : Dict Str EvidenceItem) :
    (controlVerdict isDecimal c level probes' scenarios' evidence requiredOptional).verdict.NotAbove
      (controlVerdict isDecimal c level probes scenarios evidence requiredOptional).verdict := by
  cases hreq : c.requirement level with
  | none =>
    rw [verdict_eq_notRequired hreq, verdict_eq_notRequired hreq]
    exact .inl rfl
  | some req =>
    rw [verdict_eq_cascade hreq, verdict_eq_cascade hreq]
    exact cascade_notAbove (Contradicted.worse h) (Untested.worse h) (Verified.worse h)

end Control

/-! ## The level result -/

theorem Verdict.NotAbove.fail {v : Verdict} (h : v.NotAbove .fail) : v = .fail := by
  rcases h with h | ⟨m, n, hm, hn, hlt⟩
  · exact h
  · cases hn
    exact absurd hlt (Nat.not_lt_zero m)

theorem Verdict.NotAbove.pass {v : Verdict} (h : Verdict.pass.NotAbove v) : v = .pass := by
  rcases h with h | ⟨m, n, hm, hn, hlt⟩
  · exact h.symm
  · cases hm
    cases v <;> cases hn <;> contradiction

theorem Verdict.NotAbove.attested {v : Verdict} (h : Verdict.attested.NotAbove v) :
    v = .pass ∨ v = .attested := by
  rcases h with h | ⟨m, n, hm, hn, hlt⟩
  · exact .inr h.symm
  · cases hm
    cases v with
    | pass => exact .inl rfl
    | attested => exact .inr rfl
    | _ => cases hn <;> contradiction

/-- The level result falls when failures stay, and passes and credits only go. -/
theorem summary_rank_le {fail fail' pass pass' credited credited' : Prop} [Decidable fail]
    [Decidable fail'] [Decidable pass] [Decidable pass'] [Decidable credited] [Decidable credited']
    (hfail : fail → fail') (hpass : pass' → pass) (hcredited : credited' → credited) :
    (if fail' then LevelResult.notMet else if pass' then .met
      else if credited' then .metWithAttestation else .indeterminate).rank ≤
    (if fail then LevelResult.notMet else if pass then .met
      else if credited then .metWithAttestation else .indeterminate).rank := by
  by_cases hf' : fail'
  · rw [if_pos hf']
    exact Nat.zero_le _
  · rw [if_neg hf', if_neg (mt hfail hf')]
    by_cases hp' : pass'
    · rw [if_pos hp', if_pos (hpass hp')]
    · rw [if_neg hp']
      by_cases hc' : credited'
      · rw [if_pos hc', if_pos (hcredited hc')]
        split_ifs <;> decide
      · rw [if_neg hc']
        split_ifs <;> decide

/-- The level result falls with the verdicts. -/
theorem levelResult_rank_le {α : Type} {l : List α} {f' f : α → ControlVerdict}
    (h : ∀ a ∈ l, (f' a).strength = (f a).strength ∧ (f' a).verdict.NotAbove (f a).verdict) :
    (levelResult (l.map f')).rank ≤ (levelResult (l.map f)).rank := by
  unfold levelResult
  apply summary_rank_le
  · simp only [any_musts_iff, List.mem_map, decide_eq_true_eq]
    rintro ⟨_, ⟨a, ha, rfl⟩, hmust, hv⟩
    obtain ⟨hs, hle⟩ := h a ha
    exact ⟨f' a, ⟨a, ha, rfl⟩, hs.trans hmust, (hv ▸ hle).fail⟩
  · simp only [all_musts_iff, List.forall_mem_map, decide_eq_true_eq]
    intro hall a ha hmust
    obtain ⟨hs, hle⟩ := h a ha
    exact (hall a ha (hs.trans hmust) ▸ hle).pass
  · simp only [all_musts_iff, List.forall_mem_map, decide_eq_true_eq, Bool.or_eq_true]
    intro hall a ha hmust
    obtain ⟨hs, hle⟩ := h a ha
    rcases hall a ha (hs.trans hmust) with hv | hv
    · exact .inl (hv ▸ hle).pass
    · exact (hv ▸ hle).attested

/-! ## The report -/

/-- A result that is not a conclusive pass is added to either list, at any position. -/
inductive BadNews : List ProbeResult → List ScenarioResult → List ProbeResult →
    List ScenarioResult → Prop
  | probe (before after : List ProbeResult) (scenarios : List ScenarioResult) (r : ProbeResult)
      (h : ¬ (r.conclusive = true ∧ r.passed = true)) :
      BadNews (before ++ r :: after) scenarios (before ++ after) scenarios
  | scenario (probes : List ProbeResult) (before after : List ScenarioResult) (s : ScenarioResult)
      (h : ¬ (s.conclusive = true ∧ s.passed = true)) :
      BadNews probes (before ++ s :: after) probes (before ++ after)

theorem BadNews.worse {probes probes' : List ProbeResult}
    {scenarios scenarios' : List ScenarioResult}
    (h : BadNews probes' scenarios' probes scenarios) :
    Worse (findings probes' scenarios') (findings probes scenarios) := by
  unfold findings
  cases h with
  | probe before after scenarios r h =>
    rw [List.map_append, List.map_append, List.map_cons, List.append_assoc, List.append_assoc]
    exact .insert r.finding _ _ h
  | scenario probes before after s h =>
    rw [List.map_append, List.map_append, List.map_cons, ← List.append_assoc, ← List.append_assoc]
    exact .insert s.finding _ _ h

/-- **Bad news never helps.** With a result added that is not a conclusive pass, there is a report
again, none of its verdicts is higher, and neither is its level result. -/
theorem report_antitone_in_bad_news {σ : Type} {isDecimal : CodePoint → Bool}
    {controls : List Control} {level : Int} {probes probes' : List ProbeResult}
    {scenarios scenarios' : List ScenarioResult} {evidence : Option (Dict Str EvidenceItem)}
    {scope : Option (Dict Str σ)} {requiredOptional : Finset Str} {report : AssuranceReport σ}
    (hnews : BadNews probes' scenarios' probes scenarios)
    (h : evaluateAssurance isDecimal controls level probes scenarios evidence scope
      requiredOptional = .ok report) :
    ∃ report', evaluateAssurance isDecimal controls level probes' scenarios' evidence scope
        requiredOptional = .ok report' ∧
      List.Forall₂ (fun v' v => v'.controlId = v.controlId ∧ v'.verdict.NotAbove v.verdict)
        report'.controls report.controls ∧
      report'.result.rank ≤ report.result.rank := by
  obtain ⟨hlevel, hresult, hcontrols⟩ := evaluateAssurance_eq_ok h
  refine ⟨_, if_neg (not_not.mpr hlevel), ?_, ?_⟩
  · rw [hcontrols, List.forall₂_map_left_iff, List.forall₂_map_right_iff, List.forall₂_same]
    intro c hc
    exact ⟨(subject_controlVerdict _ _ _).1.trans (subject_controlVerdict _ _ _).1.symm,
      verdict_notAbove hnews.worse _⟩
  · rw [hresult, hcontrols]
    apply levelResult_rank_le
    intro c _
    exact ⟨(subject_controlVerdict _ _ _).2.trans (subject_controlVerdict _ _ _).2.symm,
      verdict_notAbove hnews.worse _⟩

/-- A verifier that also errors takes the level away. -/
theorem report_antitone_in_bad_news_errored : ∃ report report' : AssuranceReport Unit,
    report.result = .met ∧ report'.result = .indeterminate ∧
      report'.result.rank ≤ report.result.rank := by
  obtain ⟨report', h', -, hrank⟩ := @report_antitone_in_bad_news Unit isDigit [requestMetadata] 2
    _ _ _ _ none none ∅ _
    (.probe [passedProbe (lit "T07-004")] [passedProbe (lit "T07-005")] []
      ⟨lit "T07-005-P2", lit "T07-005", true, some (lit "timeout"), none⟩ (by decide)) rfl
  exact ⟨_, report', by decide +kernel, by cases h'; decide +kernel, hrank⟩

end CosaiMcp.Assurance
