import CosaiMcp.Assurance.Evaluate

/-!
# What a verdict rests on

The four sets that the loops over the results fill are sets of ids with a property of the findings
under the id (`records_outcomes`). With them the verdict of a required control is a cascade over
four propositions about the findings (`verdict_eq_cascade`).
-/

namespace CosaiMcp.Assurance

open Py Finding

/-! ## The loops -/

/-- What the sets hold after the findings `fs`. -/
structure Records (ids : Finset Str) (fs : List (Finding Str)) (o : Outcomes) : Prop where
  conclusive : ∀ i, i ∈ o.conclusive ↔ i ∈ ids ∧ Ran fs i
  failed : ∀ i, i ∈ o.failed.keys ↔ i ∈ ids ∧ Refuted fs i
  seenUnproven : ∀ i, i ∈ o.seenUnproven ↔ i ∈ ids ∧ Unproven fs i
  seen : ∀ i, i ∈ o.seen ↔ i ∈ ids ∧ Present fs i

section Step

variable {ids : Finset Str} {fs : List (Finding Str)} {o : Outcomes} {P : Finding Str → Prop}
  {f : Finding Str}

/-- A finding with the property adds its id. -/
theorem reported_concat_of_pos (hid : f.id ∈ ids) (hp : P f) (i : Str) :
    i ∈ ids ∧ Reported P (fs ++ [f]) i ↔ i = f.id ∨ i ∈ ids ∧ Reported P fs i := by
  rw [reported_concat]
  constructor
  · rintro ⟨hi, hg | ⟨hf, -⟩⟩
    · exact .inr ⟨hi, hg⟩
    · exact .inl hf.symm
  · rintro (rfl | ⟨hi, hg⟩)
    · exact ⟨hid, .inr ⟨rfl, hp⟩⟩
    · exact ⟨hi, .inl hg⟩

/-- A finding without the property, or under an id that is not looked for, adds nothing. -/
theorem reported_concat_of_neg (h : f.id ∈ ids → ¬ P f) (i : Str) :
    i ∈ ids ∧ Reported P (fs ++ [f]) i ↔ i ∈ ids ∧ Reported P fs i := by
  rw [reported_concat]
  constructor
  · rintro ⟨hi, hg | ⟨rfl, hp⟩⟩
    · exact ⟨hi, hg⟩
    · exact absurd hp (h hi)
  · exact fun ⟨hi, hg⟩ => ⟨hi, .inl hg⟩

theorem Records.add (h : Records ids fs o) (f : Finding Str) :
    Records ids (fs ++ [f]) (o.add ids f) := by
  unfold Outcomes.add
  by_cases hid : f.id ∈ ids
  · rw [if_neg (not_not.mpr hid)]
    have hseen (i) : i ∈ insert f.id o.seen ↔ i ∈ ids ∧ Present (fs ++ [f]) i := by
      rw [Finset.mem_insert, h.seen, Present, reported_concat_of_pos hid trivial]
    by_cases hc : f.conclusive = true
    · rw [hc, if_neg (by decide)]
      refine ⟨fun i => ?_, fun i => ?_, fun i => ?_, hseen⟩
      · rw [Finset.mem_insert, h.conclusive, Ran, reported_concat_of_pos hid hc]
      · by_cases hp : f.passed = true
        · rw [if_pos hp, h.failed, Refuted, reported_concat_of_neg]
          exact fun _ hf => Bool.noConfusion (hf.2.symm.trans hp)
        · rw [if_neg hp, Dict.mem_keys_set, h.failed, Refuted,
            reported_concat_of_pos hid ⟨hc, eq_false_of_ne_true hp⟩, or_comm]
      · rw [h.seenUnproven, Unproven, reported_concat_of_neg]
        exact fun _ hf => Bool.noConfusion (hf.symm.trans hc)
    · rw [Bool.not_eq_true] at hc
      rw [hc, if_pos (by decide)]
      refine ⟨fun i => ?_, fun i => ?_, fun i => ?_, hseen⟩
      · rw [h.conclusive, Ran, reported_concat_of_neg]
        exact fun _ hf => Bool.noConfusion (hf.symm.trans hc)
      · rw [h.failed, Refuted, reported_concat_of_neg]
        exact fun _ hf => Bool.noConfusion (hf.1.symm.trans hc)
      · rw [Finset.mem_insert, h.seenUnproven, Unproven, reported_concat_of_pos hid hc]
  · rw [if_pos hid]
    have hnot {P : Finding Str → Prop} (i) :
        i ∈ ids ∧ Reported P (fs ++ [f]) i ↔ i ∈ ids ∧ Reported P fs i :=
      reported_concat_of_neg (fun hf => absurd hf hid) i
    exact ⟨fun i => (h.conclusive i).trans (hnot i).symm, fun i => (h.failed i).trans (hnot i).symm,
      fun i => (h.seenUnproven i).trans (hnot i).symm, fun i => (h.seen i).trans (hnot i).symm⟩

end Step

theorem records_outcomes (ids : Finset Str) (probes : List ProbeResult)
    (scenarios : List ScenarioResult) :
    Records ids (findings probes scenarios) (outcomes ids probes scenarios) := by
  unfold outcomes
  induction findings probes scenarios using List.reverseRecOn with
  | nil =>
    have hnone {P : Finding Str → Prop} (i) (s : Finset Str) (hs : s = ∅) :
        i ∈ s ↔ i ∈ ids ∧ Reported P [] i := by
      subst hs
      exact iff_of_false (Finset.notMem_empty i) fun h => not_reported_nil h.2
    exact ⟨fun i => hnone i ∅ rfl,
      fun i => iff_of_false List.not_mem_nil fun h => not_reported_nil h.2,
      fun i => hnone i ∅ rfl, fun i => hnone i ∅ rfl⟩
  | append_singleton fs f ih =>
    rw [List.foldl_concat]
    exact ih.add f

theorem Records.mem_passed {ids : Finset Str} {fs : List (Finding Str)} {o : Outcomes}
    (h : Records ids fs o) (i : Str) : i ∈ o.passed ↔ i ∈ ids ∧ Proven fs i := by
  unfold Outcomes.passed
  rw [Finset.mem_sdiff, Finset.mem_sdiff, List.mem_toFinset, h.seen, h.seenUnproven, h.failed,
    proven_iff]
  tauto

/-! ## The cascade -/

section Cascade

variable (isDecimal : CodePoint → Bool) (c : Control) (level : Int) (requiredOptional : Finset Str)
  (fs : List (Finding Str))

/-- A linked or optional test has disproved the control. -/
def Contradicted : Prop := ∃ i ∈ c.linked ∪ c.optionalProbes.toFinset, Refuted fs i

/-- A test that could disprove the control has not run. -/
def Untested : Prop :=
  (∃ i ∈ c.requiredToRun isDecimal requiredOptional, ¬ Ran fs i) ∨
    ∃ i ∈ c.linked, isPassiveId isDecimal i = true ∧ Present fs i ∧ ¬ Ran fs i

/-- The tests that can prove the control all did. -/
def Verified : Prop :=
  c.verifyWith ≠ [] ∧ level ≤ c.blackboxMaxLevel ∧ ∀ i ∈ c.verifyWith, Proven fs i

open Classical in
/-- The verdict of a control that is required: the first of its grounds, in this order. -/
noncomputable def cascade (contradicted untested attested verified : Prop) : Verdict :=
  if contradicted then .fail
  else if untested then .unverified
  else if attested then .attested
  else if verified then .pass
  else .unverified

variable {isDecimal c level requiredOptional fs}

theorem requiredToRun_subset :
    c.requiredToRun isDecimal requiredOptional ⊆ c.linked ∪ c.optionalProbes.toFinset := by
  intro i hi
  unfold Control.requiredToRun Control.promoted at hi
  rcases Finset.mem_union.mp hi with hi | hi
  · exact Finset.mem_union_left _ (Finset.mem_of_mem_filter i hi)
  · exact Finset.mem_union_right _ (Finset.mem_of_mem_inter_left hi)

variable {o : Outcomes} (h : Records (c.linked ∪ c.optionalProbes.toFinset) fs o)

include h

theorem Records.failed_iff : o.failed.items ≠ [] ↔ Contradicted c fs := by
  have hkeys : o.failed.items ≠ [] ↔ ∃ i, i ∈ o.failed.keys := by
    constructor
    · intro hne
      obtain ⟨p, hp⟩ := List.exists_mem_of_ne_nil _ hne
      exact ⟨p.1, Dict.mem_keys_iff.mpr ⟨p.2, hp⟩⟩
    · rintro ⟨i, hi⟩
      obtain ⟨v, hv⟩ := Dict.mem_keys_iff.mp hi
      exact List.ne_nil_of_mem hv
  rw [hkeys, Contradicted]
  exact exists_congr h.failed

theorem Records.notRun_iff :
    c.notRun isDecimal requiredOptional o ≠ [] ↔ Untested isDecimal c requiredOptional fs := by
  unfold Control.notRun Untested
  rw [ne_eq, sorted_eq_nil_iff, not_forall_not]
  simp only [Finset.mem_union, Finset.mem_sdiff, Finset.mem_filter, Bool.and_eq_true,
    decide_eq_true_eq, h.conclusive, h.seen, exists_or]
  constructor
  · rintro (⟨i, hi, hran⟩ | ⟨i, ⟨hi, hpassive, hids, hpresent⟩, hran⟩)
    · exact .inl ⟨i, hi, fun hr => hran ⟨Finset.mem_union.mp (requiredToRun_subset hi), hr⟩⟩
    · exact .inr ⟨i, hi, hpassive, hpresent, fun hr => hran ⟨hids, hr⟩⟩
  · rintro (⟨i, hi, hran⟩ | ⟨i, hi, hpassive, hpresent, hran⟩)
    · exact .inl ⟨i, hi, fun hr => hran hr.2⟩
    · exact .inr ⟨i, ⟨hi, hpassive, .inl hi, hpresent⟩, fun hr => hran hr.2⟩

theorem Records.verified_iff :
    (c.verifyWith ≠ [] ∧ level ≤ c.blackboxMaxLevel ∧ c.verifyWith.toFinset ⊆ o.passed) ↔
      Verified c level fs := by
  have hsub {i} (hi : i ∈ c.verifyWith) : i ∈ c.linked ∪ c.optionalProbes.toFinset :=
    Finset.mem_union_left _ (Finset.mem_union_right _ (List.mem_toFinset.mpr hi))
  unfold Verified
  refine and_congr_right fun _ => and_congr_right fun _ => ?_
  constructor
  · exact fun hp i hi => ((h.mem_passed i).mp (hp (List.mem_toFinset.mpr hi))).2
  · exact fun hp i hi =>
      have hi := List.mem_toFinset.mp hi
      (h.mem_passed i).mpr ⟨hsub hi, hp i hi⟩

omit h

/-- The grounds of the cascade are what the results say. -/
theorem verdict_eq_cascade {req : Requirement} (hreq : c.requirement level = some req)
    (probes : List ProbeResult) (scenarios : List ScenarioResult)
    (evidence : Dict Str EvidenceItem) :
    (controlVerdict isDecimal c level probes scenarios evidence requiredOptional).verdict =
      cascade (Contradicted c (findings probes scenarios))
        (Untested isDecimal c requiredOptional (findings probes scenarios))
        ((evidence.get? c.controlId).isSome = true)
        (Verified c level (findings probes scenarios)) := by
  have h := records_outcomes (c.linked ∪ c.optionalProbes.toFinset) probes scenarios
  unfold controlVerdict cascade
  rw [hreq]
  dsimp only
  by_cases hc : Contradicted c (findings probes scenarios)
  · rw [if_pos (h.failed_iff.mpr hc), if_pos hc]
  · rw [if_neg (h.failed_iff.not.mpr hc), if_neg hc]
    by_cases hu : Untested isDecimal c requiredOptional (findings probes scenarios)
    · rw [if_pos (h.notRun_iff.mpr hu), if_pos hu]
    · rw [if_neg (h.notRun_iff.not.mpr hu), if_neg hu]
      cases evidence.get? c.controlId with
      | some item => exact (if_pos rfl).symm
      | none =>
        rw [Option.isSome_none, if_neg Bool.false_ne_true]
        by_cases hv : Verified c level (findings probes scenarios)
        · rw [if_pos hv]
          exact congrArg ControlVerdict.verdict (if_pos (h.verified_iff.mpr hv))
        · rw [if_neg hv]
          exact congrArg ControlVerdict.verdict (if_neg (h.verified_iff.not.mpr hv))

theorem verdict_eq_notRequired (hreq : c.requirement level = none) (probes : List ProbeResult)
    (scenarios : List ScenarioResult) (evidence : Dict Str EvidenceItem) :
    (controlVerdict isDecimal c level probes scenarios evidence requiredOptional).verdict =
      .notRequired := by
  unfold controlVerdict
  rw [hreq]

/-- A verdict is about its control, with the strength of the requirement. -/
theorem subject_controlVerdict (probes : List ProbeResult) (scenarios : List ScenarioResult)
    (evidence : Dict Str EvidenceItem) :
    let v := controlVerdict isDecimal c level probes scenarios evidence requiredOptional
    v.controlId = c.controlId ∧ v.strength = (c.requirement level).map Requirement.strength := by
  unfold controlVerdict
  cases c.requirement level with
  | none => exact ⟨rfl, rfl⟩
  | some req =>
    dsimp only
    split_ifs
    · exact ⟨rfl, rfl⟩
    · exact ⟨rfl, rfl⟩
    · cases evidence.get? c.controlId <;> exact ⟨rfl, rfl⟩
    · cases evidence.get? c.controlId <;> exact ⟨rfl, rfl⟩

end Cascade

end CosaiMcp.Assurance
