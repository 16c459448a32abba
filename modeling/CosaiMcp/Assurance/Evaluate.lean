import Mathlib.Data.Finset.Sort
import CosaiMcp.Findings
import CosaiMcp.Py.Dict
import CosaiMcp.Py.Number

/-!
# Assurance levels

A scan is evaluated against a claimed level: every control of the matrix gets a verdict from the
results that are linked to it (`controlVerdict`), and the verdicts of the controls that the level
makes mandatory decide the level result (`levelResult`).

`re`'s `\d` is any decimal digit of Unicode, so `isPassiveId` takes that predicate.
-/

namespace CosaiMcp.Assurance

open Py

instance : IsTrans Str fun s t => strLe s t = true := ⟨fun _ _ _ => strLe_trans⟩

instance : Std.Antisymm fun s t : Str => strLe s t = true := ⟨fun _ _ => strLe_antisymm⟩

instance : Std.Total fun s t : Str => strLe s t = true := ⟨fun s t => by
  rw [← Bool.or_eq_true]; exact strLe_total s t⟩

/-- `sorted(ids)` of a set. -/
def sorted (ids : Finset Str) : List Str := ids.sort fun s t => strLe s t = true

@[simp] theorem mem_sorted {ids : Finset Str} {i : Str} : i ∈ sorted ids ↔ i ∈ ids :=
  Finset.mem_sort _

theorem sorted_eq_nil_iff {ids : Finset Str} : sorted ids = [] ↔ ∀ i, i ∉ ids := by
  rw [List.eq_nil_iff_forall_not_mem]
  exact forall_congr' fun _ => not_congr mem_sorted

/-! ## The model -/

inductive Strength where
  | must
  | should
deriving DecidableEq

inductive Verdict where
  | pass
  | fail
  | attested
  | unverified
  | notRequired
deriving DecidableEq

inductive LevelResult where
  | met
  | metWithAttestation
  | notMet
  | indeterminate
deriving DecidableEq

structure Requirement where
  strength : Strength
  text : Str

/-- One row of the control matrix. -/
structure Control where
  controlId : Str
  dimension : Str
  title : Str
  levels : Dict Int Requirement
  probeThreats : List Str
  blackboxMaxLevel : Int
  verifyWith : List Str
  optionalProbes : List Str

def Control.requirement (c : Control) (level : Int) : Option Requirement := c.levels.get? level

structure EvidenceItem where
  artifact : Str
  sha256 : Str

structure ProbeResult where
  probeId : Str
  threatId : Str
  passed : Bool
  error : Option Str
  inconclusiveReason : Option Str

inductive ScenarioStatus where
  | complete
  | scanIncomplete
  | inconclusive
deriving DecidableEq

structure ScenarioResult where
  scenarioId : Str
  status : ScenarioStatus
  passed : Bool

structure ControlVerdict where
  controlId : Str
  dimension : Str
  title : Str
  strength : Option Strength
  verdict : Verdict
  reason : Str
  linkedResults : List Str
  evidenceSha256 : Option Str

structure AssuranceReport (σ : Type) where
  claimedLevel : Int
  result : LevelResult
  profileVersion : Str
  controls : List ControlVerdict
  scope : Dict Str σ

/-! ## Outcomes -/

/-- No error, and no reason why the test could not run: an empty reason is none. -/
def ProbeResult.conclusive (r : ProbeResult) : Bool :=
  r.error = none && (r.inconclusiveReason = none || r.inconclusiveReason = some [])

def ProbeResult.finding (r : ProbeResult) : Finding Str :=
  ⟨r.threatId, r.conclusive, r.passed, r.probeId⟩

def ScenarioResult.conclusive (s : ScenarioResult) : Bool := s.status = .complete

def ScenarioResult.finding (s : ScenarioResult) : Finding Str :=
  ⟨s.scenarioId, s.conclusive, s.passed, s.scenarioId⟩

structure Outcomes where
  conclusive : Finset Str
  failed : Dict Str (List Str)
  seenUnproven : Finset Str
  seen : Finset Str

/-- One turn of either loop of `_outcomes`. -/
def Outcomes.add (ids : Finset Str) (o : Outcomes) (f : Finding Str) : Outcomes :=
  if f.id ∉ ids then o
  else if !f.conclusive then
    ⟨o.conclusive, o.failed, insert f.id o.seenUnproven, insert f.id o.seen⟩
  else
    ⟨insert f.id o.conclusive,
     if f.passed then o.failed else o.failed.set f.id ((o.failed.get? f.id).getD [] ++ [f.label]),
     o.seenUnproven, insert f.id o.seen⟩

/-- The results in the order in which `_outcomes` goes through them. -/
def findings (probes : List ProbeResult) (scenarios : List ScenarioResult) : List (Finding Str) :=
  probes.map ProbeResult.finding ++ scenarios.map ScenarioResult.finding

def outcomes (ids : Finset Str) (probes : List ProbeResult) (scenarios : List ScenarioResult) :
    Outcomes :=
  (findings probes scenarios).foldl (Outcomes.add ids) ⟨∅, Dict.empty, ∅, ∅⟩

def Outcomes.passed (o : Outcomes) : Finset Str :=
  (o.seen \ o.seenUnproven) \ o.failed.keys.toFinset

/-! ## The verdict of a control -/

/-- Passive checks that report whenever they run. -/
def alwaysEmittingPassive : Finset Str := {lit "T01"}

/-- `re.match(r"^T\d{2}$", i)`: `$` is also before a line feed at the end. -/
def isPassiveId (isDecimal : CodePoint → Bool) (i : Str) : Bool :=
  match i with
  | [t, a, b] => t = 84 && isDecimal a && isDecimal b
  | [t, a, b, n] => t = 84 && isDecimal a && isDecimal b && n = 10
  | _ => false

def Control.linked (c : Control) : Finset Str := c.probeThreats.toFinset ∪ c.verifyWith.toFinset

/-- The optional links that must run for this target. -/
def Control.promoted (c : Control) (requiredOptional : Finset Str) : Finset Str :=
  c.optionalProbes.toFinset ∩ requiredOptional

def Control.requiredToRun (isDecimal : CodePoint → Bool) (c : Control)
    (requiredOptional : Finset Str) : Finset Str :=
  c.linked.filter (fun i => !isPassiveId isDecimal i || i ∈ alwaysEmittingPassive) ∪
    c.promoted requiredOptional

/-- Optional tests that have not run conclusively. -/
def Control.skipped (c : Control) (requiredOptional : Finset Str) (o : Outcomes) : List Str :=
  sorted ((c.optionalProbes.toFinset \ o.conclusive) \ c.promoted requiredOptional)

/-- Required tests that have not run conclusively, and passive ones that could not run. -/
def Control.notRun (isDecimal : CodePoint → Bool) (c : Control) (requiredOptional : Finset Str)
    (o : Outcomes) : List Str :=
  sorted ((c.requiredToRun isDecimal requiredOptional \ o.conclusive) ∪
    (c.linked.filter (fun i => isPassiveId isDecimal i && i ∈ o.seen) \ o.conclusive))

def joinComma (ids : List Str) : Str := (lit ", ").intercalate ids

def skippedNote (skipped : List Str) : Str :=
  if skipped = [] then []
  else lit " Optional disproof test(s) not conclusively run in this scan: " ++ joinComma skipped ++
    lit "."

/-- Why a control with neither a finding nor evidence is not verified. -/
def Control.why (c : Control) (level : Int) (passed : Finset Str) : Str :=
  if c.verifyWith = [] then
    if c.probeThreats ≠ [] then
      lit "no black-box probe can prove this control (linked probes can only disprove it) " ++
        lit "— supply evidence (--evidence)"
    else lit "organisational/runtime control — supply evidence (--evidence)"
  else if level > c.blackboxMaxLevel then
    lit "black-box probes verify only up to Level " ++ intText c.blackboxMaxLevel ++
      lit " — supply evidence (--evidence)"
  else lit "positive-signal probe(s) inconclusive: " ++
    joinComma (sorted (c.verifyWith.toFinset \ passed))

def controlVerdict (isDecimal : CodePoint → Bool) (c : Control) (level : Int)
    (probes : List ProbeResult) (scenarios : List ScenarioResult)
    (evidence : Dict Str EvidenceItem) (requiredOptional : Finset Str) : ControlVerdict :=
  let mk := fun (note : Str) strength verdict (reason : Str) linked sha =>
    ControlVerdict.mk c.controlId c.dimension c.title strength verdict (reason ++ note) linked sha
  match c.requirement level with
  | none =>
    mk [] none .notRequired (lit "Not required at Level " ++ intText level ++ lit ".") [] none
  | some req =>
    let o := outcomes (c.linked ∪ c.optionalProbes.toFinset) probes scenarios
    let item := evidence.get? c.controlId
    let sha := item.map EvidenceItem.sha256
    let note := skippedNote (c.skipped requiredOptional o)
    let notRun := c.notRun isDecimal requiredOptional o
    if o.failed.items ≠ [] then
      mk [] (some req.strength) .fail
        (lit "Scanner finding(s) contradict: " ++ req.text ++ lit ".") o.failed.values.flatten sha
    else if notRun ≠ [] then
      mk note (some req.strength) .unverified
        (lit "Unverified: linked test(s) did not run or produced no conclusive " ++
          lit "result in this scan (" ++ joinComma notRun ++ lit ") — evidence cannot " ++
          lit "stand in for a test that could disprove it. Requirement: " ++ req.text ++ lit ".")
        (sorted o.passed) sha
    else match item with
    | some item =>
      mk note (some req.strength) .attested
        (lit "Operator evidence recorded (" ++ item.artifact ++ lit "); not verified by " ++
          lit "the scanner. Requirement: " ++ req.text ++ lit ".") (sorted o.passed) sha
    | none =>
      if c.verifyWith ≠ [] ∧ level ≤ c.blackboxMaxLevel ∧ c.verifyWith.toFinset ⊆ o.passed then
        mk note (some req.strength) .pass
          (lit "Verified by positive-signal probes: " ++ req.text ++ lit ".")
          (sorted c.verifyWith.toFinset) none
      else
        mk note (some req.strength) .unverified
          (lit "Unverified: " ++ c.why level o.passed ++ lit ". Requirement: " ++ req.text ++
            lit ".") (sorted o.passed) none

/-! ## The level -/

inductive Error where
  | valueError (level : Int)

def ControlVerdict.isMust (v : ControlVerdict) : Bool := v.strength = some .must

def levelResult (verdicts : List ControlVerdict) : LevelResult :=
  let musts := verdicts.filter ControlVerdict.isMust
  if musts.any (·.verdict = .fail) then .notMet
  else if musts.all (·.verdict = .pass) then .met
  else if musts.all fun v => v.verdict = .pass || v.verdict = .attested then .metWithAttestation
  else .indeterminate

def evaluateAssurance {σ : Type} (isDecimal : CodePoint → Bool) (controls : List Control)
    (claimedLevel : Int) (probes : List ProbeResult) (scenarios : List ScenarioResult)
    (evidence : Option (Dict Str EvidenceItem)) (scope : Option (Dict Str σ))
    (requiredOptional : Finset Str) : Except Error (AssuranceReport σ) :=
  if claimedLevel ∉ [1, 2, 3, 4] then .error (.valueError claimedLevel)
  else
    let ev := evidence.getD Dict.empty
    let verdicts := controls.map fun c =>
      controlVerdict isDecimal c claimedLevel probes scenarios ev requiredOptional
    .ok ⟨claimedLevel, levelResult verdicts, lit "cosai-mcp-security-v2.0", verdicts,
      scope.getD Dict.empty⟩

end CosaiMcp.Assurance
