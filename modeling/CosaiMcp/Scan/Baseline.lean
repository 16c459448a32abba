import CosaiMcp.Scan.ExitCode

/-!
# Accepted findings

A baseline names findings by fingerprint, and `applyBaseline` flags those that it names. To the exit
code a flagged finding is as good as removed (`determineExitCode_flagged`); to everything else
it is still there. A fingerprint is a digest of the ids, which it separates as long as no threat id
has the separator (`findingFingerprint_inj`).
-/

namespace CosaiMcp.Scan

open Py Catalog

variable {δ : Type}

/-! ## Fingerprints -/

def fingerprintDomain : Str := lit "cosai-finding-v1"

/-- The unit separator. -/
def separator : CodePoint := 0x1F

/-- `finding_fingerprint`; `none` is the `UnicodeEncodeError` of a lone surrogate. -/
def findingFingerprint (sha256Hex : Bytes → Str) (threatId probeId : Str) : Option Str := do
  let blob ← encodeUtf8 (fingerprintDomain ++ separator :: (threatId ++ separator :: probeId))
  some (sha256Hex blob)

structure Baseline where
  fingerprints : List Str

/-- `Baseline.is_suppressed`. -/
def Baseline.isSuppressed (sha256Hex : Bytes → Str) (b : Baseline) (threatId probeId : Str) :
    Option Bool := do
  let fingerprint ← findingFingerprint sha256Hex threatId probeId
  some (b.fingerprints.contains fingerprint)

/-! ## Suppression -/

/-- `is_finding`: the results that a baseline can suppress. -/
def baselineTest (r : ProbeResult δ) : Bool :=
  !r.passed && r.error.isNone && r.inconclusiveReason.isNone

/-- One turn of the loop of `apply_baseline`. -/
def suppress (sha256Hex : Bytes → Str) (b : Baseline) (r : ProbeResult δ) :
    Option (ProbeResult δ) :=
  if baselineTest r then do
    let suppressed ← b.isSuppressed sha256Hex r.threatId r.probeId
    some (if suppressed then { r with suppressed := true } else r)
  else some r

/-- `apply_baseline`. -/
def applyBaseline (sha256Hex : Bytes → Str) (probeResults : List (ProbeResult δ)) (b : Baseline) :
    Option (List (ProbeResult δ)) :=
  probeResults.mapM (suppress sha256Hex b)

/-- What `evaluate_assurance` reads of a result. -/
def ProbeResult.evidence (r : ProbeResult δ) : Assurance.ProbeResult :=
  ⟨r.probeId, r.threatId, r.passed, r.error, r.inconclusiveReason⟩

/-! ## What a fingerprint tells -/

section Fingerprint

variable {sha256Hex : Bytes → Str}

theorem exists_findingFingerprint (sha256Hex : Bytes → Str) {t p : Str} (ht : isScalar t = true)
    (hp : isScalar p = true) :
    ∃ fingerprint, findingFingerprint sha256Hex t p = some fingerprint := by
  have hblob : isScalar (fingerprintDomain ++ separator :: (t ++ separator :: p)) = true := by
    have hdomain : isScalar fingerprintDomain = true := by decide
    have hsep : isSurrogate separator = false := by decide
    unfold isScalar at *
    simp only [List.all_append, List.all_cons, hdomain, hsep, ht, hp, Bool.not_false, Bool.and_true]
  obtain ⟨blob, hblob⟩ := exists_encodeUtf8 hblob
  exact ⟨sha256Hex blob, by rw [findingFingerprint, hblob]; rfl⟩

/-- What stands before the first separator. -/
theorem takeWhile_separator {t : Str} (ht : separator ∉ t) (p : Str) :
    (t ++ separator :: p).takeWhile (· ≠ separator) = t := by
  rw [List.takeWhile_append_of_pos fun c hc => decide_eq_true (ne_of_mem_of_not_mem hc ht),
    List.takeWhile_cons_of_neg (by simp), List.append_nil]

/-- Findings with one fingerprint are findings with the same ids. -/
theorem findingFingerprint_inj (hinj : Function.Injective sha256Hex) {t p t' p' fingerprint : Str}
    (ht : separator ∉ t) (ht' : separator ∉ t')
    (h : findingFingerprint sha256Hex t p = some fingerprint)
    (h' : findingFingerprint sha256Hex t' p' = some fingerprint) : t = t' ∧ p = p' := by
  obtain ⟨blob, hblob, hdigest⟩ := Option.bind_eq_some_iff.mp h
  obtain ⟨blob', hblob', hdigest'⟩ := Option.bind_eq_some_iff.mp h'
  have hsame : blob = blob' := hinj (by
    rw [Option.some.inj hdigest, Option.some.inj hdigest'])
  subst hsame
  have htexts := List.append_cancel_left (encodeUtf8_inj hblob hblob')
  have hids : t ++ separator :: p = t' ++ separator :: p' := (List.cons.inj htexts).2
  -- the first separator after the domain ends the threat id
  have hthreat := congrArg (List.takeWhile (· ≠ separator)) hids
  rw [takeWhile_separator ht, takeWhile_separator ht'] at hthreat
  subst hthreat
  exact ⟨rfl, (List.cons.inj (List.append_cancel_left hids)).2⟩

/-- The baseline holds the fingerprints of the accepted pairs of ids, and no other fingerprint. -/
structure Baseline.Records (sha256Hex : Bytes → Str) (b : Baseline) (accepted : List (Str × Str)) :
    Prop where
  separated : ∀ ids ∈ accepted, separator ∉ ids.1
  holds : ∀ ids ∈ accepted, ∃ fingerprint ∈ b.fingerprints,
    findingFingerprint sha256Hex ids.1 ids.2 = some fingerprint
  only : ∀ fingerprint ∈ b.fingerprints, ∀ t p,
    findingFingerprint sha256Hex t p = some fingerprint →
      ∃ ids ∈ accepted, findingFingerprint sha256Hex ids.1 ids.2 = some fingerprint

theorem Baseline.Records.isSuppressed {b : Baseline} {accepted : List (Str × Str)}
    (hb : b.Records sha256Hex accepted) (hinj : Function.Injective sha256Hex) {t p : Str}
    (hsep : separator ∉ t) (ht : isScalar t = true) (hp : isScalar p = true) :
    b.isSuppressed sha256Hex t p = some (decide ((t, p) ∈ accepted)) := by
  obtain ⟨fingerprint, hfp⟩ := exists_findingFingerprint sha256Hex ht hp
  have hiff : fingerprint ∈ b.fingerprints ↔ (t, p) ∈ accepted := by
    constructor
    · intro hmem
      obtain ⟨ids, hids, hfp'⟩ := hb.only fingerprint hmem t p hfp
      obtain ⟨rfl, rfl⟩ := findingFingerprint_inj hinj hsep (hb.separated ids hids) hfp hfp'
      exact hids
    · intro hmem
      obtain ⟨fingerprint', hmem', hfp'⟩ := hb.holds _ hmem
      rw [hfp] at hfp'
      rw [Option.some.inj hfp']
      exact hmem'
  have hcontains : b.fingerprints.contains fingerprint = decide ((t, p) ∈ accepted) := by
    rw [← Bool.coe_iff_coe, List.contains_iff_mem, hiff, decide_eq_true_eq]
  rw [Baseline.isSuppressed, hfp, ← hcontains]
  rfl

end Fingerprint

/-! ## What suppression does -/

/-- The baseline accepts the finding. -/
def isAccepted (accepted : List (Str × Str)) (r : ProbeResult δ) : Bool :=
  baselineTest r && decide ((r.threatId, r.probeId) ∈ accepted)

/-- The result as `apply_baseline` gives it back. -/
def flagged (accepted : List (Str × Str)) (r : ProbeResult δ) : ProbeResult δ :=
  { r with suppressed := isAccepted accepted r || r.suppressed }

/-- The ids have a fingerprint, and the threat id does not have the separator. -/
structure Fingerprintable (r : ProbeResult δ) : Prop where
  threatId : isScalar r.threatId = true
  probeId : isScalar r.probeId = true
  separated : separator ∉ r.threatId

theorem suppress_eq {sha256Hex : Bytes → Str} {b : Baseline} {accepted : List (Str × Str)}
    (hb : b.Records sha256Hex accepted) (hinj : Function.Injective sha256Hex) {r : ProbeResult δ}
    (hr : baselineTest r = true → Fingerprintable r) :
    suppress sha256Hex b r = some (flagged accepted r) := by
  unfold suppress flagged isAccepted
  split
  · next hfinding =>
    obtain ⟨ht, hp, hsep⟩ := hr hfinding
    rw [hb.isSuppressed hinj hsep ht hp, hfinding, Bool.true_and]
    by_cases hmem : (r.threatId, r.probeId) ∈ accepted
    · simp [hmem]
    · simp [hmem]
  · next hfinding => simp [hfinding]

theorem applyBaseline_eq {sha256Hex : Bytes → Str} {b : Baseline} {accepted : List (Str × Str)}
    (hb : b.Records sha256Hex accepted) (hinj : Function.Injective sha256Hex)
    {probeResults : List (ProbeResult δ)}
    (hr : ∀ r ∈ probeResults, baselineTest r = true → Fingerprintable r) :
    applyBaseline sha256Hex probeResults b = some (probeResults.map (flagged accepted)) := by
  unfold applyBaseline
  induction probeResults with
  | nil => rfl
  | cons r rs ih =>
    rw [List.mapM_cons, suppress_eq hb hinj (hr r List.mem_cons_self),
      ih fun q hq => hr q (List.mem_cons_of_mem r hq)]
    rfl

/-! ## Suppressing and removing -/

variable {accepted : List (Str × Str)} {probeResults : List (ProbeResult δ)}

/-- The list without the accepted findings. -/
def remaining (accepted : List (Str × Str)) (probeResults : List (ProbeResult δ)) :
    List (ProbeResult δ) :=
  probeResults.filter fun r => !isAccepted accepted r

/-- A test that no flagged finding passes takes the same results as without those. -/
theorem filter_flagged {test : ProbeResult δ → Bool} (probeResults : List (ProbeResult δ))
    (hflagged : ∀ r, isAccepted accepted r = true → test (flagged accepted r) = false) :
    (probeResults.map (flagged accepted)).filter test =
      (remaining accepted probeResults).filter test := by
  unfold remaining
  induction probeResults with
  | nil => rfl
  | cons r rs ih =>
    rw [List.map_cons]
    by_cases hacc : isAccepted accepted r = true
    · rw [List.filter_cons_of_neg (by simp [hflagged r hacc]), ih,
        List.filter_cons_of_neg (by simp [hacc])]
    · have hsame : flagged accepted r = r := by simp [flagged, hacc]
      rw [hsame, List.filter_cons_of_pos (p := fun r => !isAccepted accepted r) (by simp [hacc])]
      by_cases htest : test r = true
      · rw [List.filter_cons_of_pos htest, List.filter_cons_of_pos htest, ih]
      · rw [List.filter_cons_of_neg htest, List.filter_cons_of_neg htest, ih]

theorem any_flagged {test : ProbeResult δ → Bool} (probeResults : List (ProbeResult δ))
    (hflagged : ∀ r, isAccepted accepted r = true → test (flagged accepted r) = false) :
    (probeResults.map (flagged accepted)).any test =
      (remaining accepted probeResults).any test := by
  have hfilter := congrArg (List.any · test) (filter_flagged probeResults hflagged)
  simpa only [List.any_filter, Bool.and_self] using hfilter

/-- An accepted finding has neither passed nor an error. -/
theorem of_isAccepted {r : ProbeResult δ} (h : isAccepted accepted r = true) :
    r.passed = false ∧ r.error = none ∧ (flagged accepted r).suppressed = true := by
  have hflagged : (flagged accepted r).suppressed = true := by simp [flagged, h]
  simp only [isAccepted, baselineTest, Bool.and_eq_true, Bool.not_eq_true',
    Option.isNone_iff_eq_none] at h
  exact ⟨h.1.1.1, h.1.1.2, hflagged⟩

theorem nothingVerified_flagged (threatSeverity : Option (Dict Str Severity)) (threshold : Nat) :
    nothingVerified (aboveThreshold threatSeverity threshold)
        (probeResults.map (flagged accepted)) =
      nothingVerified (aboveThreshold threatSeverity threshold)
        (remaining accepted probeResults) := by
  unfold nothingVerified
  simp only
  rw [any_flagged, filter_flagged]
  · intro r hr
    simp [(of_isAccepted hr).2.2]
  · intro r hr
    simp [(of_isAccepted hr).2.2]

/-- The exit code is the same with the accepted findings flagged and without them. -/
theorem determineExitCode_flagged (U : UnicodeData) (scenarioResults : List ScenarioResult)
    (failOn : Str) (threatSeverity : Option (Dict Str Severity)) :
    determineExitCode U (probeResults.map (flagged accepted)) scenarioResults failOn
        threatSeverity =
      determineExitCode U (remaining accepted probeResults) scenarioResults failOn
        threatSeverity := by
  have hcrash : (probeResults.map (flagged accepted)).any isCrash =
      (remaining accepted probeResults).any isCrash := by
    refine any_flagged _ fun r hr => ?_
    have herror : (flagged accepted r).error = none := (of_isAccepted hr).2.1
    unfold isCrash
    rw [herror]
  have hfinding : (probeResults.map (flagged accepted)).any (fun r => exitCodeTest r &&
        aboveThreshold threatSeverity (failOnThreshold U failOn) r) =
      (remaining accepted probeResults).any fun r => exitCodeTest r &&
        aboveThreshold threatSeverity (failOnThreshold U failOn) r := by
    refine any_flagged _ fun r hr => ?_
    simp [exitCodeTest, (of_isAccepted hr).2.2]
  unfold determineExitCode
  simp only [hcrash, hfinding, nothingVerified_flagged]

/-- What `apply_baseline` makes of a list, and what the gate and the assurance report make of it. -/
structure Suppressed (accepted : List (Str × Str)) (before after : List (ProbeResult δ)) :
    Prop where
  flagged : after = before.map (flagged accepted)
  length : after.length = before.length
  gate : ∀ U scenarioResults failOn threatSeverity,
    determineExitCode U after scenarioResults failOn threatSeverity =
      determineExitCode U (remaining accepted before) scenarioResults failOn threatSeverity
  assurance : ∀ {σ : Type} isDecimal controls claimedLevel scenarios evidence
    (scope : Option (Dict Str σ)) requiredOptional,
    Assurance.evaluateAssurance isDecimal controls claimedLevel
        (after.map ProbeResult.evidence) scenarios evidence scope requiredOptional =
      Assurance.evaluateAssurance isDecimal controls claimedLevel
        (before.map ProbeResult.evidence) scenarios evidence scope requiredOptional

/-- Suppression by a baseline is removal to the exit code, and nothing to the assurance report. -/
theorem applyBaseline_suppressed {sha256Hex : Bytes → Str} (hinj : Function.Injective sha256Hex)
    {b : Baseline} {accepted : List (Str × Str)} (hb : b.Records sha256Hex accepted)
    (probeResults : List (ProbeResult δ))
    (hr : ∀ r ∈ probeResults, baselineTest r = true → Fingerprintable r) :
    ∃ after, applyBaseline sha256Hex probeResults b = some after ∧
      Suppressed accepted probeResults after := by
  refine ⟨_, applyBaseline_eq hb hinj hr, rfl, List.length_map _, determineExitCode_flagged, ?_⟩
  intro σ isDecimal controls claimedLevel scenarios evidence scope requiredOptional
  have hsame : (probeResults.map (Scan.flagged accepted)).map ProbeResult.evidence =
      probeResults.map ProbeResult.evidence := by
    rw [List.map_map]
    rfl
  rw [hsame]

/-! ## A finding that has no fingerprint -/

def bytesAsText (b : Bytes) : Str := b.map (Fin.castLE (by decide))

theorem bytesAsText_injective : Function.Injective bytesAsText :=
  List.map_injective_iff.mpr (Fin.castLE_injective _)

/-- A finding of a probe that a catalog calls by a lone surrogate. -/
def surrogateFinding : ProbeResult Unit :=
  ⟨[0xD800], lit "T01-001", false, [], none, [], (), none, false⟩

/-- It stops `apply_baseline`, even with a baseline that accepts nothing. -/
theorem surrogateFinding_raises :
    Function.Injective bytesAsText ∧ Baseline.Records bytesAsText ⟨[]⟩ [] ∧
    separator ∉ surrogateFinding.threatId ∧
    ¬ ∃ after, applyBaseline bytesAsText [surrogateFinding] ⟨[]⟩ = some after ∧
      Suppressed [] [surrogateFinding] after := by
  refine ⟨bytesAsText_injective, ⟨nofun, nofun, nofun⟩, by decide, ?_⟩
  rintro ⟨after, hafter, -⟩
  have hraises : applyBaseline bytesAsText [surrogateFinding] ⟨[]⟩ = none := by decide
  cases hraises.symm.trans hafter

/-- The same finding under a plain name. -/
def plainFinding : ProbeResult Unit := { surrogateFinding with probeId := lit "P1" }

def plainFingerprint : Str :=
  (findingFingerprint bytesAsText plainFinding.threatId plainFinding.probeId).getD []

theorem records_plainFinding :
    Baseline.Records bytesAsText ⟨[plainFingerprint]⟩
      [(plainFinding.threatId, plainFinding.probeId)] := by
  have hfp : findingFingerprint bytesAsText plainFinding.threatId plainFinding.probeId =
      some plainFingerprint := by decide
  refine ⟨?_, ?_, fun fingerprint hmem t p _ => ?_⟩
  · intro ids hids
    rw [List.mem_singleton] at hids
    subst hids
    decide
  · intro ids hids
    rw [List.mem_singleton] at hids
    subst hids
    exact ⟨_, List.mem_singleton_self _, hfp⟩
  · rw [List.mem_singleton] at hmem
    subst hmem
    exact ⟨_, List.mem_singleton_self _, hfp⟩

/-- A baseline with its fingerprint suppresses it, and keeps another finding. -/
theorem plainFinding_suppressed :
    ∃ after, applyBaseline bytesAsText [plainFinding, { plainFinding with probeId := lit "P2" }]
        ⟨[plainFingerprint]⟩ = some after ∧
      Suppressed [(plainFinding.threatId, plainFinding.probeId)]
        [plainFinding, { plainFinding with probeId := lit "P2" }] after := by
  refine applyBaseline_suppressed bytesAsText_injective records_plainFinding _ fun r hr _ => ?_
  simp only [List.mem_cons, List.not_mem_nil, or_false] at hr
  rcases hr with rfl | rfl
  · exact ⟨by decide, by decide, by decide⟩
  · exact ⟨by decide, by decide, by decide⟩

end CosaiMcp.Scan
