import CosaiMcp.Scorecard.Conservation
import CosaiMcp.Scorecard.Signing
import CosaiMcp.Scan.ExitCode

/-!
# Worse results never give a better scorecard

A scan gets worse when a conclusive pass turns into a finding of the same probe, or a threat becomes
more severe (`Worsened`). In the counts of a category a pass may become a finding, and a finding
may move to a more severe count (`CatStats.Worse`); grades and the conformance level follow, and
what was not tested stays so.
-/

namespace CosaiMcp.Scorecard

open Py Catalog Scan

variable {φ ρ δ : Type}

/-! ## The orders -/

/-- The same, or lower where both have a rank. -/
def NotAbove {α : Type} (rank : α → Option Nat) (a b : α) : Prop :=
  a = b ∨ ∃ m n, rank a = some m ∧ rank b = some n ∧ m < n

/-- `FAIL < WARN < PASS`; what is not tested has no place in the order. -/
def Grade.rank : Grade → Option Nat
  | .fail => some 0
  | .warn => some 1
  | .pass => some 2
  | .notTested => none

/-- `NON_CONFORMANT < PARTIAL < FULL`; insufficient coverage has no place in the order. -/
def ConformanceLevel.rank : ConformanceLevel → Option Nat
  | .nonConformant => some 0
  | .partialConformance => some 1
  | .fullConformance => some 2
  | .insufficientCoverage => none

/-! ## Grades -/

/-- As many probes, passes that became findings, and findings that became more severe. -/
structure CatStats.Worse (s' s : CatStats) : Prop where
  probes : s'.probeCount = s.probeCount
  conclusive : s'.passCount + s'.findingCount = s.passCount + s.findingCount
  findings : s.findingCount ≤ s'.findingCount
  critical : s.criticalCount ≤ s'.criticalCount
  severe : s.criticalCount + s.highCount ≤ s'.criticalCount + s'.highCount

theorem gradeCategory_notAbove {s' s : CatStats} (h : s'.Worse s) :
    NotAbove Grade.rank (gradeCategory s') (gradeCategory s) := by
  obtain ⟨hprobes, hconclusive, hfindings, -, hsevere⟩ := h
  unfold gradeCategory
  rw [hprobes]
  by_cases hprobe : s.probeCount = 0
  · rw [if_pos hprobe, if_pos hprobe]
    exact .inl rfl
  rw [if_neg hprobe, if_neg hprobe]
  by_cases huntested : s.passCount = 0 ∧ s.findingCount = 0
  · rw [if_pos huntested, if_pos (by omega)]
    exact .inl rfl
  rw [if_neg huntested, if_neg (by omega)]
  by_cases hnone' : s'.findingCount = 0
  · rw [if_pos hnone', if_pos (by omega)]
    exact .inl rfl
  rw [if_neg hnone']
  by_cases hsev' : s'.criticalCount > 0 ∨ s'.highCount > 0
  · rw [if_pos hsev']
    split_ifs
    · exact .inr ⟨0, 2, rfl, rfl, by decide⟩
    · exact .inl rfl
    · exact .inr ⟨0, 1, rfl, rfl, by decide⟩
  · rw [if_neg hsev']
    split_ifs with hnone hsev
    · exact .inr ⟨1, 2, rfl, rfl, by decide⟩
    · exact absurd hsev (by omega)
    · exact .inl rfl

/-! ## The conformance level -/

/-- How the results of one category compare. -/
structure CategoryResult.Worse (c' c : CategoryResult) : Prop where
  category : c'.category = c.category
  grade : NotAbove Grade.rank c'.grade c.grade
  counted : 0 ≤ c.criticalCount
  critical : c.criticalCount ≤ c'.criticalCount

theorem NotAbove.notTested_iff {g' g : Grade} (h : NotAbove Grade.rank g' g) :
    g' = .notTested ↔ g = .notTested := by
  rcases h with rfl | ⟨m, n, hm, hn, -⟩
  · exact Iff.rfl
  · constructor
    · rintro rfl
      cases hm
    · rintro rfl
      cases hn

theorem NotAbove.fail {g' : Grade} (h : NotAbove Grade.rank g' .fail) : g' = .fail := by
  rcases h with h | ⟨m, n, -, hn, hlt⟩
  · exact h
  · cases hn
    exact absurd hlt (Nat.not_lt_zero m)

/-- What the conformance level depends on. -/
structure Summary where
  notTested : Nat
  fails : Nat
  criticalFails : Int

def summary (categories : List CategoryResult) : Summary :=
  let fails := categories.filter (·.grade = .fail)
  ⟨categories.countP (·.grade = .notTested), fails.length,
    (fails.map CategoryResult.criticalCount).sum⟩

/-- `determineConformance` of what it depends on. -/
def Summary.level (s : Summary) : ConformanceLevel :=
  if s.notTested > maxNotTested then .insufficientCoverage
  else if s.fails = 0 then .fullConformance
  else if s.criticalFails > 0 ∨ s.fails > 3 then .nonConformant
  else .partialConformance

theorem determineConformance_eq (categories : List CategoryResult) :
    determineConformance categories = (summary categories).level := by
  unfold determineConformance summary Summary.level
  simp only [List.isEmpty_iff_length_eq_zero]

theorem Summary.level_notAbove {s' s : Summary} (hnotTested : s'.notTested = s.notTested)
    (hfails : s.fails ≤ s'.fails) (hcritical : s.criticalFails ≤ s'.criticalFails) :
    NotAbove ConformanceLevel.rank s'.level s.level := by
  unfold Summary.level
  rw [hnotTested]
  by_cases huncovered : s.notTested > maxNotTested
  · rw [if_pos huncovered, if_pos huncovered]
    exact .inl rfl
  rw [if_neg huncovered, if_neg huncovered]
  by_cases hnone' : s'.fails = 0
  · rw [if_pos hnone', if_pos (by omega)]
    exact .inl rfl
  rw [if_neg hnone']
  by_cases hgrave' : s'.criticalFails > 0 ∨ s'.fails > 3
  · rw [if_pos hgrave']
    split_ifs
    · exact .inr ⟨0, 2, rfl, rfl, by decide⟩
    · exact .inl rfl
    · exact .inr ⟨0, 1, rfl, rfl, by decide⟩
  · rw [if_neg hgrave']
    split_ifs with hnone hgrave
    · exact .inr ⟨1, 2, rfl, rfl, by decide⟩
    · exact absurd hgrave (by omega)
    · exact .inl rfl

theorem summary_cons (c : CategoryResult) (cs : List CategoryResult) :
    summary (c :: cs) =
      ⟨(summary cs).notTested + (if c.grade = .notTested then 1 else 0),
        (summary cs).fails + (if c.grade = .fail then 1 else 0),
        (summary cs).criticalFails + (if c.grade = .fail then c.criticalCount else 0)⟩ := by
  unfold summary
  simp only [List.countP_cons, decide_eq_true_eq]
  by_cases hfail : c.grade = .fail
  · simp [hfail, Int.add_comm]
  · simp [hfail]

theorem summary_worse {cs' cs : List CategoryResult}
    (h : List.Forall₂ CategoryResult.Worse cs' cs) :
    (summary cs').notTested = (summary cs).notTested ∧
      (summary cs).fails ≤ (summary cs').fails ∧
      (summary cs).criticalFails ≤ (summary cs').criticalFails := by
  induction h with
  | nil => exact ⟨rfl, le_refl _, le_refl _⟩
  | @cons c' c cs' cs hc _ ih =>
    obtain ⟨hnotTested, hfails, hcritical⟩ := ih
    obtain ⟨-, hgrade, hcounted, hcount⟩ := hc
    rw [summary_cons, summary_cons]
    refine ⟨?_, ?_, ?_⟩
    · simp only [hnotTested, hgrade.notTested_iff]
    · by_cases hfail : c.grade = .fail
      · rw [hfail] at hgrade
        simp only [hfail, hgrade.fail, if_true]
        omega
      · simp only [hfail, if_false]
        omega
    · by_cases hfail : c.grade = .fail
      · rw [hfail] at hgrade
        simp only [hfail, hgrade.fail, if_true]
        omega
      · -- a category that fails now adds what is not negative
        simp only [hfail, if_false]
        split_ifs
        · omega
        · omega

/-! ## What the counts of a category are -/

def CatStats.severe (s : CatStats) : Nat := s.criticalCount + s.highCount

def CatStats.conclusive (s : CatStats) : Nat := s.passCount + s.findingCount

theorem probeCount_add (s : CatStats) (r : ProbeResult δ) (sev : Str) :
    (s.add r sev).probeCount = s.probeCount + 1 := by
  unfold CatStats.add
  split_ifs <;> rfl

/-- A result is conclusive if it passed or is a finding. -/
def isConclusive (r : ProbeResult δ) : Bool :=
  r.inconclusiveReason.isNone && (r.passed || r.error.isNone)

theorem conclusive_add (s : CatStats) (r : ProbeResult δ) (sev : Str) :
    (s.add r sev).conclusive = s.conclusive + if isConclusive r = true then 1 else 0 := by
  unfold CatStats.add isConclusive CatStats.conclusive
  cases r.inconclusiveReason with
  | some reason => rfl
  | none =>
    cases r.passed with
    | true => exact Nat.add_right_comm _ _ _
    | false =>
      cases r.error with
      | some e => rfl
      | none =>
        simp only [Option.isSome_none, Option.isNone_none, Bool.false_eq_true, if_false, if_true,
          Bool.or_true, Bool.and_true]
        split_ifs <;> rfl

def Bucket.isSevere : Bucket → Bool
  | .critical | .high => true
  | .lower => false

theorem severe_add (s : CatStats) (r : ProbeResult δ) (sev : Str) :
    (s.add r sev).severe =
      s.severe + if (isFinding r && (bucketOf sev).isSevere) = true then 1 else 0 := by
  have hcritical := count_add s r sev .critical
  have hhigh := count_add s r sev .high
  unfold CatStats.severe
  simp only [CatStats.count, Counter.takes] at hcritical hhigh
  rw [hcritical, hhigh]
  cases isFinding r with
  | false => rfl
  | true => cases bucketOf sev <;> simp [Bucket.isSevere] <;> omega

/-- The counts of the category in a scan. -/
def statsOf (threats : List (ThreatDefinition φ ρ)) (results : List (ProbeResult δ)) (cat : Str) :
    CatStats :=
  ((catStats threats results).get? cat).getD .zero

/-- Two scans with as many probes and conclusive results booked in each category, and as many or
more findings, critical ones and severe ones. -/
theorem worse_statsOf {threats' threats : List (ThreatDefinition φ ρ)}
    {results' results : List (ProbeResult δ)} {cat : Str}
    (hprobes : results'.countP (fun r => decide (bookedCategory threats' r = cat)) =
      results.countP fun r => decide (bookedCategory threats r = cat))
    (hconclusive :
      results'.countP (fun r => decide (bookedCategory threats' r = cat) && isConclusive r) =
        results.countP fun r => decide (bookedCategory threats r = cat) && isConclusive r)
    (hfindings : results.countP (fun r => decide (bookedCategory threats r = cat) && isFinding r) ≤
      results'.countP fun r => decide (bookedCategory threats' r = cat) && isFinding r)
    (hcritical : results.countP (fun r => decide (bookedCategory threats r = cat) &&
        (isFinding r && decide (bookedBucket threats r = .critical))) ≤
      results'.countP fun r => decide (bookedCategory threats' r = cat) &&
        (isFinding r && decide (bookedBucket threats' r = .critical)))
    (hsevere : results.countP (fun r => decide (bookedCategory threats r = cat) &&
        (isFinding r && (bookedBucket threats r).isSevere)) ≤
      results'.countP fun r => decide (bookedCategory threats' r = cat) &&
        (isFinding r && (bookedBucket threats' r).isSevere)) :
    (statsOf threats' results' cat).Worse (statsOf threats results cat) := by
  have hprobeCount := field_catStats (ρ := ρ) (δ := δ) (φ := φ) (·.probeCount) (fun _ _ => true) rfl
    (fun s r sev => by rw [if_pos rfl]; exact probeCount_add s r sev)
  have hconclusiveCount := field_catStats (ρ := ρ) (δ := δ) (φ := φ) CatStats.conclusive
    (fun r _ => isConclusive r) rfl conclusive_add
  have hsevereCount := field_catStats (ρ := ρ) (δ := δ) (φ := φ) CatStats.severe
    (fun r sev => isFinding r && (bucketOf sev).isSevere) rfl severe_add
  unfold statsOf
  refine ⟨?_, ?_, ?_, ?_, ?_⟩
  · simp only [hprobeCount, Bool.and_true]
    exact hprobes
  · exact (hconclusiveCount _ _ _).trans (hconclusive.trans (hconclusiveCount _ _ _).symm)
  · have hcount := fun (t : List (ThreatDefinition φ ρ)) (rs : List (ProbeResult δ)) =>
      count_catStats t rs cat .finding
    simp only [CatStats.count, Counter.takes, Bool.and_true] at hcount
    rw [hcount, hcount]
    exact hfindings
  · have hcount := fun (t : List (ThreatDefinition φ ρ)) (rs : List (ProbeResult δ)) =>
      count_catStats t rs cat .critical
    simp only [CatStats.count, Counter.takes] at hcount
    rw [hcount, hcount]
    exact hcritical
  · exact (hsevereCount _ _ _).trans_le (hsevere.trans (hsevereCount _ _ _).symm.le)

/-! ## A pass becomes a finding -/

/-- The tests are those of the loop over the results. -/
def isConclusivePass (r : ProbeResult δ) : Bool := r.inconclusiveReason.isNone && r.passed

/-- A finding in place of a conclusive pass of the same probe. -/
structure PassBecomesFinding (r' r : ProbeResult δ) : Prop where
  probeId : r'.probeId = r.probeId
  threatId : r'.threatId = r.threatId
  pass : isConclusivePass r = true
  finding : isFinding r' = true

theorem countP_replaced {α : Type} (p : α → Bool) (before after : List α) (a' a : α) :
    (before ++ a' :: after).countP p + (if p a = true then 1 else 0) =
      (before ++ a :: after).countP p + if p a' = true then 1 else 0 := by
  rw [List.countP_append, List.countP_append, List.countP_cons, List.countP_cons]
  omega

theorem worse_of_finding (threats : List (ThreatDefinition φ ρ))
    (before after : List (ProbeResult δ)) {r' r : ProbeResult δ} (h : PassBecomesFinding r' r)
    (cat : Str) :
    (statsOf threats (before ++ r' :: after) cat).Worse
      (statsOf threats (before ++ r :: after) cat) := by
  obtain ⟨hprobeId, hthreatId, hpass, hfinding⟩ := h
  have hcategory : bookedCategory threats r' = bookedCategory threats r := by
    unfold bookedCategory
    rw [hprobeId, hthreatId]
  have hconclusive : isConclusive r' = true ∧ isConclusive r = true := by
    simp only [isConclusivePass, isFinding, Bool.and_eq_true] at hpass hfinding
    simp [isConclusive, hpass, hfinding]
  have hnone : isFinding r = false := by
    simp only [isConclusivePass, Bool.and_eq_true] at hpass
    simp [isFinding, hpass]
  -- what only counts findings cannot fall
  have hmore (counts : ProbeResult δ → Bool) :
      (before ++ r :: after).countP
          (fun q => decide (bookedCategory threats q = cat) && (isFinding q && counts q)) ≤
        (before ++ r' :: after).countP
          fun q => decide (bookedCategory threats q = cat) && (isFinding q && counts q) := by
    have hcount := countP_replaced (fun q => decide (bookedCategory threats q = cat) &&
      (isFinding q && counts q)) before after r' r
    simp only [hnone, Bool.false_and, Bool.and_false, Bool.false_eq_true, if_false] at hcount
    omega
  refine worse_statsOf ?_ ?_ ?_ (hmore _) (hmore _)
  · have hcount := countP_replaced (fun q => decide (bookedCategory threats q = cat)) before after
      r' r
    rw [hcategory] at hcount
    omega
  · have hcount := countP_replaced (fun q => decide (bookedCategory threats q = cat) &&
      isConclusive q) before after r' r
    rw [hcategory, hconclusive.1, hconclusive.2] at hcount
    omega
  · simpa only [Bool.and_true] using hmore fun _ => true

/-! ## A threat becomes more severe -/

/-- The same threat, as severe or more. -/
structure MoreSevere (t' t : ThreatDefinition φ ρ) : Prop where
  probes : t'.probes = t.probes
  category : t'.category = t.category
  severity : severityRank t.severity ≤ severityRank t'.severity

theorem sevRankOf_value (s : Severity) : Ir.sevRankOf s.value = severityRank s := by
  cases s <;> decide

theorem bucketOf_critical_iff {sev : Str} : bucketOf sev = .critical ↔ 4 ≤ Ir.sevRankOf sev := by
  unfold bucketOf
  split_ifs with h4 h3
  · exact iff_of_true rfl h4
  · exact iff_of_false nofun h4
  · exact iff_of_false nofun h4

theorem isSevere_bucketOf_iff {sev : Str} :
    (bucketOf sev).isSevere = true ↔ 3 ≤ Ir.sevRankOf sev := by
  unfold bucketOf
  split_ifs with h4 h3
  · exact iff_of_true rfl (by omega)
  · exact iff_of_true rfl h3
  · exact iff_of_false nofun h3

/-- A search that asks for what related elements share finds related elements. -/
theorem find?_rel {α : Type} {R : α → α → Prop} {p : α → Bool} (hp : ∀ a' a, R a' a → p a' = p a)
    {l' l : List α} (h : List.Forall₂ R l' l) : Option.Rel R (l'.find? p) (l.find? p) := by
  induction h with
  | nil => exact .none
  | @cons a' a l' l ha _ ih =>
    rw [List.find?_cons, List.find?_cons, hp a' a ha]
    cases p a with
    | true => exact .some ha
    | false => exact ih

/-- What a result is booked under: the same category, at least as severe. -/
theorem booked_of_moreSevere {threats' threats : List (ThreatDefinition φ ρ)}
    (h : List.Forall₂ MoreSevere threats' threats) (r : ProbeResult δ) :
    bookedCategory threats' r = bookedCategory threats r ∧
      Ir.sevRankOf (resultSeverity ((probeMeta threats).get? r.probeId)) ≤
        Ir.sevRankOf (resultSeverity ((probeMeta threats').get? r.probeId)) := by
  have hfind := find?_rel (p := fun t => t.probes.any (·.id = r.probeId))
    (fun t' t ht => by rw [ht.probes]) (List.forall₂_reverse_iff.mpr h)
  unfold bookedCategory
  rw [get?_probeMeta, get?_probeMeta]
  unfold lastDefining
  generalize threats'.reverse.find? _ = last' at hfind ⊢
  generalize threats.reverse.find? _ = last at hfind ⊢
  cases hfind with
  | none => exact ⟨rfl, le_refl _⟩
  | some ht =>
    refine ⟨?_, ?_⟩
    · simp only [Option.map_some, resultCategory, ht.category]
    · simp only [Option.map_some, resultSeverity, Option.getD_some, sevRankOf_value]
      exact ht.severity

theorem worse_of_moreSevere {threats' threats : List (ThreatDefinition φ ρ)}
    (h : List.Forall₂ MoreSevere threats' threats) (results : List (ProbeResult δ)) (cat : Str) :
    (statsOf threats' results cat).Worse (statsOf threats results cat) := by
  have hcategory (r : ProbeResult δ) : bookedCategory threats' r = bookedCategory threats r :=
    (booked_of_moreSevere h r).1
  have hsev (r : ProbeResult δ) := (booked_of_moreSevere h r).2
  refine worse_statsOf ?_ ?_ ?_ ?_ ?_
  · simp only [hcategory]
  · simp only [hcategory]
  · simp only [hcategory, le_refl]
  · apply List.countP_mono_left
    intro r _ hr
    simp only [Bool.and_eq_true, decide_eq_true_eq, bookedBucket, bucketOf_critical_iff] at hr ⊢
    rw [hcategory]
    exact ⟨hr.1, hr.2.1, hr.2.2.trans (hsev r)⟩
  · apply List.countP_mono_left
    intro r _ hr
    simp only [Bool.and_eq_true, decide_eq_true_eq, bookedBucket, isSevere_bucketOf_iff] at hr ⊢
    rw [hcategory]
    exact ⟨hr.1, hr.2.1, hr.2.2.trans (hsev r)⟩

/-! ## Scorecards -/

/-- One step for the worse. -/
inductive Worsened : ScanResult φ ρ δ → ScanResult φ ρ δ → Prop
  | finding (scan : ScanResult φ ρ δ) (before after : List (ProbeResult δ)) (r' r : ProbeResult δ)
      (h : PassBecomesFinding r' r) (hresults : scan.probeResults = before ++ r :: after) :
      Worsened { scan with probeResults := before ++ r' :: after } scan
  | severity (scan : ScanResult φ ρ δ) (before after : List (ThreatDefinition φ ρ))
      (t : ThreatDefinition φ ρ) (severity : Severity)
      (h : severityRank t.severity ≤ severityRank severity)
      (hthreats : scan.threats = before ++ t :: after) :
      Worsened { scan with threats := before ++ { t with severity := severity } :: after } scan

theorem Worsened.stats {scan' scan : ScanResult φ ρ δ} (h : Worsened scan' scan) (cat : Str) :
    (statsOf scan'.threats scan'.probeResults cat).Worse
      (statsOf scan.threats scan.probeResults cat) := by
  cases h with
  | finding _ before after r' r h hresults =>
    rw [hresults]
    exact worse_of_finding _ before after h cat
  | severity _ before after t severity h hthreats =>
    rw [hthreats]
    have hsame (ts : List (ThreatDefinition φ ρ)) : List.Forall₂ MoreSevere ts ts :=
      List.forall₂_same.mpr fun _ _ => ⟨rfl, rfl, le_refl _⟩
    have ht : MoreSevere { t with severity := severity } t := ⟨rfl, rfl, h⟩
    exact worse_of_moreSevere (List.rel_append (hsame before) (.cons ht (hsame after))) _ cat

theorem Worsened.categories {scan' scan : ScanResult φ ρ δ} (h : Worsened scan' scan) :
    List.Forall₂ CategoryResult.Worse (categoryResults scan'.threats scan'.probeResults)
      (categoryResults scan.threats scan.probeResults) := by
  unfold categoryResults
  rw [List.forall₂_map_left_iff, List.forall₂_map_right_iff, List.forall₂_same]
  intro n _
  have hstats := h.stats (categoryName n)
  exact ⟨rfl, gradeCategory_notAbove hstats, Int.natCast_nonneg _,
    Int.ofNat_le.mpr hstats.critical⟩

/-- No grade and not the level of the first scorecard is better than that of the second, and neither
says untested where the other does not. -/
structure NotBetter (card' card : Scorecard φ) : Prop where
  grades : List.Forall₂
    (fun c' c => c'.category = c.category ∧ NotAbove Grade.rank c'.grade c.grade)
    card'.categories card.categories
  level : NotAbove ConformanceLevel.rank card'.conformanceLevel card.conformanceLevel

/-- What a scorecard says of a scan, signed or not. -/
theorem of_buildScorecard [FloatText φ] {κ : Type} {toolVersion : Str}
    {key : Option (Ed25519 κ × KeyStore κ)} {scan : ScanResult φ ρ δ} {card : Scorecard φ}
    (h : buildScorecard toolVersion (key.map fun k => signScorecard k.1 k.2) scan = .ok card) :
    card.categories = categoryResults scan.threats scan.probeResults ∧
      card.conformanceLevel =
        determineConformance (categoryResults scan.threats scan.probeResults) := by
  unfold buildScorecard at h
  cases key with
  | none =>
    cases h
    exact ⟨rfl, rfl⟩
  | some k =>
    unfold signScorecard at h
    simp only [Option.map_some] at h
    cases hkey : k.2.privateKey with
    | ok key =>
      rw [hkey] at h
      cases h
      exact ⟨rfl, rfl⟩
    | error e =>
      rw [hkey] at h
      cases e with
      | orgSigningKey => cases h
      | other =>
        cases h
        exact ⟨rfl, rfl⟩

/-- **Conformance is monotone.** A scan that got worse gives a scorecard whenever the other one did,
and one that is not better. -/
theorem buildScorecard_notBetter [FloatText φ] {κ : Type} (toolVersion : Str)
    (key : Option (Ed25519 κ × KeyStore κ)) {scan' scan : ScanResult φ ρ δ} {card : Scorecard φ}
    (hworse : Worsened scan' scan)
    (h : buildScorecard toolVersion (key.map fun k => signScorecard k.1 k.2) scan = .ok card) :
    ∃ card', buildScorecard toolVersion (key.map fun k => signScorecard k.1 k.2) scan' =
        .ok card' ∧ NotBetter card' card := by
  have hbuilds : ∃ card',
      buildScorecard toolVersion (key.map fun k => signScorecard k.1 k.2) scan' = .ok card' := by
    -- whether there is a key does not depend on the scan
    unfold buildScorecard at h ⊢
    cases key with
    | none => exact ⟨_, rfl⟩
    | some k =>
      unfold signScorecard at h ⊢
      simp only [Option.map_some] at h ⊢
      cases hkey : k.2.privateKey with
      | ok key => exact ⟨_, rfl⟩
      | error e =>
        rw [hkey] at h
        cases e with
        | orgSigningKey => cases h
        | other => exact ⟨_, rfl⟩
  obtain ⟨card', hcard'⟩ := hbuilds
  obtain ⟨hcategories, hlevel⟩ := of_buildScorecard h
  obtain ⟨hcategories', hlevel'⟩ := of_buildScorecard hcard'
  refine ⟨card', hcard', ?_, ?_⟩
  · rw [hcategories, hcategories']
    exact hworse.categories.imp fun _ _ hc => ⟨hc.category, hc.grade⟩
  · rw [hlevel, hlevel', determineConformance_eq, determineConformance_eq]
    obtain ⟨hnotTested, hfails, hcritical⟩ := summary_worse hworse.categories
    exact Summary.level_notAbove hnotTested hfails hcritical

section Example

private def passedProbe : ProbeResult Unit :=
  ⟨lit "P1", lit "T06-001", true, [], none, [], (), none, false⟩

private def passedScan : ScanResult WholeFloat Unit Unit :=
  ⟨lit "http://t", [], [passedProbe], [], [], [], 0, none⟩

/-- The one probe of `T6` fails after all, so that the grade falls and the level does not rise. -/
theorem passedScan_notBetter : ∃ card card' : Scorecard WholeFloat,
    buildScorecard [] none passedScan = .ok card ∧
    buildScorecard [] none
      { passedScan with probeResults := [{ passedProbe with passed := false }] } = .ok card' ∧
    NotBetter card' card := by
  obtain ⟨card', hcard', hnotBetter⟩ :=
    buildScorecard_notBetter [] (none : Option (Ed25519 Unit × KeyStore Unit))
      (.finding passedScan [] [] { passedProbe with passed := false } passedProbe
        ⟨rfl, rfl, rfl, rfl⟩ rfl) rfl
  exact ⟨_, card', rfl, hcard', hnotBetter⟩

end Example

end CosaiMcp.Scorecard
