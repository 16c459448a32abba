import CosaiMcp.Py.Fixed
import CosaiMcp.Report.Csv

/-!
# The cells of the CSV report

A cell is a formula if it begins with `=`, `+`, `-` or `@`. `safeCell` lets no formula through, but
only some columns of the rows of a probe go through it, and none of the rows of a scenario. The other
columns are plain exactly if the texts of the result that they hold are (`cells_plain_iff`).
-/

namespace CosaiMcp.Report

open Py Catalog Scan

variable {φ ρ : Type}

/-! ## The file -/

/-- `_HEADERS`. -/
def headers : List Str :=
  [lit "probe_id", lit "threat_id", lit "category", lit "category_name", lit "severity",
    lit "engine", lit "status", lit "assertion_target", lit "assertion_operator",
    lit "assertion_expected", lit "assertion_actual", lit "assertion_passed", lit "response_body",
    lit "error", lit "duration_seconds", lit "remediation", lit "remediation_spec_ref",
    lit "remediation_fix_shape"]

def CsvRow.cells (row : CsvRow) : List Str :=
  [row.probeId, row.threatId, row.category, row.categoryName, row.severity, row.engine, row.status,
    row.assertionTarget, row.assertionOperator, row.assertionExpected, row.assertionActual,
    row.assertionPassed, row.responseBody, row.error, row.durationSeconds, row.remediation,
    row.remediationSpecRef, row.remediationFixShape]

section File

variable (getRemediation : Str → Option RemediationBlock) (result : ScanResult φ ρ BinaryFloat)

/-- The texts of a report whose durations are floats. -/
def reportTexts : Texts BinaryFloat := ⟨getRemediation, BinaryFloat.twoPlaces⟩

/-- All rows, the header first. -/
def csvTable : List (List Str) :=
  headers :: (csvRows (reportTexts getRemediation) result).map CsvRow.cells

/-- A cell in quotes, with every quote doubled (`QUOTE_ALL`). -/
def quoteCell (cell : Str) : Str :=
  34 :: (cell.flatMap fun c => if c = 34 then [34, 34] else [c]) ++ [34]

def csvLine (cells : List Str) : Str := [44].intercalate (cells.map quoteCell) ++ [13, 10]

def byteOrderMark : Bytes := [0xEF, 0xBB, 0xBF]

/-- `write_csv_report`: the bytes of the file, `none` where the text cannot be encoded. -/
def writeCsvReport : Option Bytes :=
  (encodeUtf8 ((csvTable getRemediation result).flatMap csvLine)).map (byteOrderMark ++ ·)

/-- The cells that come to stand in the file. -/
def writtenCells : List Str :=
  if (writeCsvReport getRemediation result).isSome then (csvTable getRemediation result).flatten
  else []

end File

/-! ## Formulas -/

/-- The text begins with `=`, `+`, `-` or `@`. -/
def isFormula : Str → Bool
  | [] => false
  | c :: _ => c ∈ [61, 43, 45, 64]

def Plain (s : Str) : Prop := isFormula s = false

instance (s : Str) : Decidable (Plain s) := inferInstanceAs (Decidable (_ = _))

theorem plain_safeCell (s : Str) : Plain (safeCell s) := by
  cases s with
  | nil => rfl
  | cons c s =>
    rw [safeCell]
    split
    · rfl
    · next hsafe =>
      refine decide_eq_false fun hc => hsafe ?_
      simp only [List.mem_cons, List.not_mem_nil, or_false] at hc
      rcases hc with rfl | rfl | rfl | rfl <;> decide

/-- A duration is a formula if its sign is written. -/
theorem plain_twoPlaces (d : BinaryFloat) : Plain d.twoPlaces ↔ d.isNegative = false := by
  obtain ⟨c, hhead, hc⟩ := d.head?_twoPlaces
  obtain ⟨s, hs⟩ := List.head?_eq_some_iff.mp hhead
  rw [hs, Plain, isFormula]
  cases hnegative : d.isNegative with
  | true =>
    rw [hnegative, if_pos rfl] at hc
    subst hc
    decide
  | false =>
    rw [hnegative, if_neg Bool.false_ne_true] at hc
    refine iff_of_true (decide_eq_false fun hmem => ?_) rfl
    simp only [List.mem_cons, List.not_mem_nil, or_false] at hmem
    rcases hmem with rfl | rfl | rfl | rfl <;> revert hc <;> decide

/-! ## The rows -/

/-- The texts of the rows that come from no result. -/
def fixedCells : List Str :=
  [[], lit "prober", lit "stateful", lit "high", lit "yes", lit "no", passText, errorText,
    findingText] ++ [Severity.info, .low, .medium, .high, .critical].map Severity.value ++
    categoryNames.map Prod.snd

/-- What it takes that `P` holds of every cell: `P` of the texts that are written as they are, `Q` of
those that are not, and `D` of the durations. -/
structure CellTest (P Q : Str → Prop) (D : BinaryFloat → Prop) : Prop where
  fixed : ∀ s ∈ fixedCells, P s
  safe : ∀ s, P (safeCell s) ↔ Q s
  truncated : ∀ s, Q (truncate s 500) ↔ Q (s.take 500)
  described : ∀ (i : Nat) s, P (lit "Step " ++ intText i ++ lit ": " ++ s) ↔ Q s
  duration : ∀ d, P d.twoPlaces ↔ D d

section Rows

variable (P Q : Str → Prop) (D : BinaryFloat → Prop)
variable (getRemediation : Str → Option RemediationBlock)

/-- What the rows of a probe result hold. -/
structure ProbeTexts (threats : List (ThreatDefinition φ ρ)) (r : ProbeResult BinaryFloat) :
    Prop where
  probeId : P r.probeId
  threatId : P r.threatId
  threat : ∀ t ∈ threatById threats r.threatId, P t.category ∧ P t.remediation
  block : ∀ b ∈ getRemediation r.probeId, P b.specRef ∧ P b.fixShape
  duration : D r.durationSeconds
  body : Q (r.responseBody.take 500)
  error : Q (r.error.getD [])
  assertions : ∀ a ∈ r.assertions, P a.target ∧ P a.operator ∧ Q a.expected ∧ Q a.actual

/-- What the rows of a step hold. -/
structure StepTexts (sr : ScenarioResult) (step : StepResult) : Prop where
  scenarioId : P sr.scenarioId
  category : P (sr.threatCategories.headD [])
  error : P (step.error.getD [])
  description : Q step.description
  failures : ∀ f ∈ step.failures, P f.target ∧ P f.operator ∧ P f.expected ∧ P f.actual

/-- What the report holds. -/
structure ResultTexts (result : ScanResult φ ρ BinaryFloat) : Prop where
  probes : ∀ r ∈ result.probeResults, ProbeTexts P Q D getRemediation result.threats r
  steps : ∀ sr ∈ result.scenarioResults, ∀ step ∈ sr.stepResults, StepTexts P Q sr step

/-- `P` holds of all cells of the row. -/
def CsvRow.All (row : CsvRow) : Prop := ∀ cell ∈ row.cells, P cell

variable {P Q D getRemediation}

namespace CellTest

variable (h : CellTest P Q D)
include h

theorem nil : P [] := h.fixed [] (by decide)

theorem categoryName {category : Str} (hcategory : P category) :
    P (Report.categoryName category) := by
  unfold Report.categoryName
  split
  · exact hcategory
  · next p hfind =>
    refine h.fixed _ (List.mem_append_right _ (List.mem_map_of_mem ?_))
    exact List.mem_of_find?_eq_some hfind

theorem severity (threat : Option (ThreatDefinition φ ρ)) :
    P ((threat.map fun t => t.severity.value).getD []) := by
  cases threat with
  | none => exact h.nil
  | some t => exact h.fixed t.severity.value (by cases t.severity <;> decide)

theorem statusWithAssertion (passed : Bool) : P (Report.statusWithAssertion passed) :=
  h.fixed _ (by cases passed <;> decide)

theorem statusAlone (passed : Bool) (error : Option Str) :
    P (Report.statusAlone passed error) := by
  refine h.fixed _ ?_
  unfold Report.statusAlone
  split
  · decide
  · split <;> decide

theorem threat_iff {threat : Option (ThreatDefinition φ ρ)} :
    P ((threat.map (·.category)).getD []) ∧ P ((threat.map (·.remediation)).getD []) ↔
      ∀ t ∈ threat, P t.category ∧ P t.remediation := by
  cases threat with
  | none => exact ⟨fun _ => nofun, fun _ => ⟨h.nil, h.nil⟩⟩
  | some t => simp

theorem block_iff {block : Option RemediationBlock} :
    P ((block.map (·.specRef)).getD []) ∧ P ((block.map (·.fixShape)).getD []) ↔
      ∀ b ∈ block, P b.specRef ∧ P b.fixShape := by
  cases block with
  | none => exact ⟨fun _ => nofun, fun _ => ⟨h.nil, h.nil⟩⟩
  | some b => simp

/-- The columns of a probe row. -/
theorem probeRow_iff {threats : List (ThreatDefinition φ ρ)} {r : ProbeResult BinaryFloat}
    {status t o e a p : Str} (hstatus : P status) :
    ({ probeRow (reportTexts getRemediation) threats r status with
        assertionTarget := t
        assertionOperator := o
        assertionExpected := e
        assertionActual := a
        assertionPassed := p } : CsvRow).All P ↔
      (P r.probeId ∧ P r.threatId ∧
        (∀ t ∈ threatById threats r.threatId, P t.category ∧ P t.remediation) ∧
        (∀ b ∈ getRemediation r.probeId, P b.specRef ∧ P b.fixShape) ∧
        D r.durationSeconds ∧ Q (r.responseBody.take 500) ∧ Q (r.error.getD [])) ∧
      P t ∧ P o ∧ P e ∧ P a ∧ P p := by
  have hengine : P (lit "prober") := h.fixed _ (by decide)
  simp only [CsvRow.All, CsvRow.cells, probeRow, reportTexts, List.forall_mem_cons, List.not_mem_nil,
    IsEmpty.forall_iff, implies_true, and_true, true_and, h.safe, h.truncated, hstatus, hengine,
    h.severity, h.duration, ← h.threat_iff, ← h.block_iff]
  constructor
  · rintro ⟨hid, hthreat, hcategory, -, ht, ho, he, ha, hp, hbody, herror, hd, hremediation, hblock⟩
    exact ⟨⟨hid, hthreat, ⟨hcategory, hremediation⟩, hblock, hd, hbody, herror⟩, ht, ho, he, ha, hp⟩
  · rintro ⟨⟨hid, hthreat, ⟨hcategory, hremediation⟩, hblock, hd, hbody, herror⟩, ht, ho, he, ha, hp⟩
    exact ⟨hid, hthreat, hcategory, h.categoryName hcategory, ht, ho, he, ha, hp, hbody, herror, hd,
      hremediation, hblock⟩

theorem probeRows_iff {threats : List (ThreatDefinition φ ρ)} {r : ProbeResult BinaryFloat} :
    (∀ row ∈ probeRows (reportTexts getRemediation) threats r, row.All P) ↔
      ProbeTexts P Q D getRemediation threats r := by
  unfold probeRows
  split
  · next hempty =>
    have hnone : r.assertions = [] := List.isEmpty_iff.mp hempty
    rw [List.forall_mem_singleton]
    refine (h.probeRow_iff (h.statusAlone _ _)).trans ?_
    constructor
    · rintro ⟨⟨hid, hthreat, ht, hblock, hd, hbody, herror⟩, -⟩
      exact ⟨hid, hthreat, ht, hblock, hd, hbody, herror, fun a ha => by rw [hnone] at ha; cases ha⟩
    · intro hr
      exact ⟨⟨hr.probeId, hr.threatId, hr.threat, hr.block, hr.duration, hr.body, hr.error⟩, h.nil,
        h.nil, h.nil, h.nil, h.nil⟩
  · next hempty =>
    rw [List.forall_mem_map]
    simp only [h.probeRow_iff (h.statusWithAssertion r.passed), h.safe]
    constructor
    · intro hr
      obtain ⟨a, ha⟩ := List.exists_mem_of_ne_nil r.assertions fun hnil => hempty (by rw [hnil]; rfl)
      obtain ⟨⟨hid, hthreat, ht, hblock, hd, hbody, herror⟩, -⟩ := hr a ha
      refine ⟨hid, hthreat, ht, hblock, hd, hbody, herror, fun a ha => ?_⟩
      obtain ⟨-, ht, ho, he, ha, -⟩ := hr a ha
      exact ⟨ht, ho, he, ha⟩
    · intro hr a ha
      have hpassed : P (if a.passed then lit "yes" else lit "no") := by
        refine h.fixed _ ?_
        split <;> decide
      obtain ⟨ht, ho, he, ha⟩ := hr.assertions a ha
      exact ⟨⟨hr.probeId, hr.threatId, hr.threat, hr.block, hr.duration, hr.body, hr.error⟩, ht, ho,
        he, ha, hpassed⟩

/-- The columns of a step row. -/
theorem stepRow_iff {sr : ScenarioResult} {step : StepResult} {status t o e a p : Str}
    (hstatus : P status) :
    ({ stepRow sr step status with
        assertionTarget := t
        assertionOperator := o
        assertionExpected := e
        assertionActual := a
        assertionPassed := p } : CsvRow).All P ↔
      (P sr.scenarioId ∧ P (sr.threatCategories.headD []) ∧ P (step.error.getD []) ∧
        Q step.description) ∧
      P t ∧ P o ∧ P e ∧ P a ∧ P p := by
  have hengine : P (lit "stateful") := h.fixed _ (by decide)
  have hseverity : P (lit "high") := h.fixed _ (by decide)
  simp only [CsvRow.All, CsvRow.cells, stepRow, List.forall_mem_cons, List.not_mem_nil,
    IsEmpty.forall_iff, implies_true, and_true, true_and, hstatus, hengine, hseverity, h.described,
    h.nil]
  constructor
  · rintro ⟨hid, -, hcategory, -, ht, ho, he, ha, hp, herror, hdescription⟩
    exact ⟨⟨hid, hcategory, herror, hdescription⟩, ht, ho, he, ha, hp⟩
  · rintro ⟨⟨hid, hcategory, herror, hdescription⟩, ht, ho, he, ha, hp⟩
    exact ⟨hid, hid, hcategory, h.categoryName hcategory, ht, ho, he, ha, hp, herror, hdescription⟩

theorem stepRows_iff {sr : ScenarioResult} {step : StepResult} :
    (∀ row ∈ stepRows sr step, row.All P) ↔ StepTexts P Q sr step := by
  unfold stepRows
  split
  · next hempty =>
    have hnone : step.failures = [] := List.isEmpty_iff.mp hempty
    rw [List.forall_mem_singleton]
    refine (h.stepRow_iff (h.statusAlone _ _)).trans ?_
    constructor
    · rintro ⟨⟨hid, hcategory, herror, hdescription⟩, -⟩
      exact ⟨hid, hcategory, herror, hdescription, fun f hf => by rw [hnone] at hf; cases hf⟩
    · intro hs
      exact ⟨⟨hs.scenarioId, hs.category, hs.error, hs.description⟩, h.nil, h.nil, h.nil, h.nil,
        h.nil⟩
  · next hempty =>
    have hno : P (lit "no") := h.fixed _ (by decide)
    rw [List.forall_mem_map]
    simp only [h.stepRow_iff (h.statusWithAssertion step.passed)]
    constructor
    · intro hs
      obtain ⟨f, hf⟩ := List.exists_mem_of_ne_nil step.failures
        fun hnil => hempty (by rw [hnil]; rfl)
      obtain ⟨⟨hid, hcategory, herror, hdescription⟩, -⟩ := hs f hf
      refine ⟨hid, hcategory, herror, hdescription, fun f hf => ?_⟩
      obtain ⟨-, ht, ho, he, ha, -⟩ := hs f hf
      exact ⟨ht, ho, he, ha⟩
    · intro hs f hf
      obtain ⟨ht, ho, he, ha⟩ := hs.failures f hf
      exact ⟨⟨hs.scenarioId, hs.category, hs.error, hs.description⟩, ht, ho, he, ha, hno⟩

/-- What the rows below the header hold is what the result has for them. -/
theorem csvRows_iff {result : ScanResult φ ρ BinaryFloat} :
    (∀ row ∈ csvRows (reportTexts getRemediation) result, row.All P) ↔
      ResultTexts P Q D getRemediation result := by
  unfold csvRows
  rw [List.forall_mem_append]
  simp only [List.forall_mem_flatMap]
  constructor
  · rintro ⟨hprobes, hsteps⟩
    exact ⟨fun r hr => h.probeRows_iff.mp (hprobes r hr),
      fun sr hsr step hstep => h.stepRows_iff.mp (hsteps sr hsr step hstep)⟩
  · intro hr
    exact ⟨fun r hmem => h.probeRows_iff.mpr (hr.probes r hmem),
      fun sr hsr step hstep => h.stepRows_iff.mpr (hr.steps sr hsr step hstep)⟩

theorem csvTable_iff (hheaders : ∀ cell ∈ headers, P cell)
    {result : ScanResult φ ρ BinaryFloat} :
    (∀ cell ∈ (csvTable getRemediation result).flatten, P cell) ↔
      ResultTexts P Q D getRemediation result := by
  rw [← h.csvRows_iff, csvTable, List.flatten_cons, List.forall_mem_append]
  simp only [List.forall_mem_flatten, List.forall_mem_map]
  exact ⟨And.right, fun hrows => ⟨hheaders, hrows⟩⟩

end CellTest

/-! ## Plain and encodable reports -/

variable (getRemediation)

/-- The texts that are written as they are are plain, and no duration has its sign bit set. -/
def PlainResult (result : ScanResult φ ρ BinaryFloat) : Prop :=
  ResultTexts Plain (fun _ => True) (·.isNegative = false) getRemediation result

/-- No text that is written has a surrogate. -/
def EncodableResult (result : ScanResult φ ρ BinaryFloat) : Prop :=
  ResultTexts (isScalar · = true) (isScalar · = true) (fun _ => True) getRemediation result

theorem plain_cellTest : CellTest Plain (fun _ => True) (·.isNegative = false) where
  fixed := by decide
  safe s := iff_true_intro (plain_safeCell s)
  truncated _ := Iff.rfl
  described _ _ := iff_true_intro rfl
  duration := plain_twoPlaces

theorem isScalar_safeCell (s : Str) : isScalar (safeCell s) = true ↔ isScalar s = true := by
  cases s with
  | nil => exact Iff.rfl
  | cons c s =>
    rw [safeCell]
    split
    · exact Iff.rfl
    · exact Iff.rfl

theorem isScalar_truncate (s : Str) :
    isScalar (truncate s 500) = true ↔ isScalar (s.take 500) = true := by
  unfold truncate
  split
  · exact isScalar_append.trans (and_iff_left rfl)
  · next hshort => rw [List.take_of_length_le (by omega)]

theorem isScalar_described (i : Nat) (s : Str) :
    isScalar (lit "Step " ++ intText i ++ lit ": " ++ s) = true ↔ isScalar s = true := by
  have hindex : isScalar (intText i) = true := isScalar_of_isAscii (isAscii_of_isDigit
    fun _ => isDigit_of_mem_natText)
  rw [isScalar_append, isScalar_append, isScalar_append]
  exact and_iff_right ⟨⟨rfl, hindex⟩, rfl⟩

theorem isScalar_cellTest :
    CellTest (isScalar · = true) (isScalar · = true) (fun _ => True) where
  fixed := by decide
  safe := isScalar_safeCell
  truncated := isScalar_truncate
  described := isScalar_described
  duration d := iff_true_intro (isScalar_of_isAscii d.isAscii_twoPlaces)

end Rows

/-! ## The file as a whole -/

section Written

variable (getRemediation : Str → Option RemediationBlock) (result : ScanResult φ ρ BinaryFloat)

theorem isScalar_flatMap {α : Type} {xs : List α} {f : α → Str} :
    isScalar (xs.flatMap f) = true ↔ ∀ x ∈ xs, isScalar (f x) = true := by
  rw [isScalar, List.all_flatMap, List.all_eq_true]
  exact Iff.rfl

theorem isScalar_quoteCell (cell : Str) : isScalar (quoteCell cell) = true ↔ isScalar cell = true := by
  have hquoted : ∀ c : CodePoint, isScalar (if c = 34 then [34, 34] else [c]) = !isSurrogate c := by
    intro c
    split
    · next h =>
      subst h
      rfl
    · exact Bool.and_true _
  have hquote : isScalar (quoteCell cell) = true ↔
      isScalar (cell.flatMap fun c => if c = 34 then [34, 34] else [c]) = true :=
    isScalar_append.trans (and_iff_left rfl)
  rw [hquote, isScalar_flatMap, isScalar, List.all_eq_true]
  simp only [hquoted]

theorem isScalar_intercalate {sep : Str} (hsep : isScalar sep = true) (xs : List Str) :
    isScalar (sep.intercalate xs) = true ↔ ∀ x ∈ xs, isScalar x = true := by
  induction xs with
  | nil => exact iff_of_true rfl nofun
  | cons x xs ih =>
    cases xs with
    | nil => rw [List.intercalate_singleton, List.forall_mem_singleton]
    | cons y ys =>
      rw [List.intercalate_cons_cons, isScalar_append, isScalar_append, ih,
        List.forall_mem_cons (a := x)]
      exact and_congr_left' (and_iff_left hsep)

theorem isScalar_csvLine (cells : List Str) :
    isScalar (csvLine cells) = true ↔ ∀ cell ∈ cells, isScalar cell = true := by
  have hend : isScalar (csvLine cells) = true ↔
      isScalar ([44].intercalate (cells.map quoteCell)) = true :=
    isScalar_append.trans (and_iff_left rfl)
  rw [hend, isScalar_intercalate rfl, List.forall_mem_map]
  simp only [isScalar_quoteCell]

/-- The file is written if its texts can be encoded. -/
theorem isSome_writeCsvReport_iff :
    (writeCsvReport getRemediation result).isSome = true ↔
      EncodableResult getRemediation result := by
  have hheaders : ∀ cell ∈ headers, isScalar cell = true := by decide
  rw [EncodableResult, ← isScalar_cellTest.csvTable_iff hheaders, writeCsvReport,
    Option.isSome_map, encodeUtf8_isSome_iff, isScalar_flatMap, List.forall_mem_flatten]
  simp only [isScalar_csvLine]

/-- No formula comes into the file exactly if nothing does, because some text that is written has a
surrogate, or if the texts are plain that are written as they are and no duration has its sign bit
set. -/
theorem cells_plain_iff :
    (∀ cell ∈ writtenCells getRemediation result, Plain cell) ↔
      ¬ EncodableResult getRemediation result ∨ PlainResult getRemediation result := by
  have hheaders : ∀ cell ∈ headers, Plain cell := by decide
  rw [← isSome_writeCsvReport_iff, PlainResult, ← plain_cellTest.csvTable_iff hheaders, writtenCells]
  by_cases hfile : (writeCsvReport getRemediation result).isSome = true
  · rw [if_pos hfile]
    exact ⟨.inr, fun h => h.resolve_left (not_not_intro hfile)⟩
  · rw [if_neg hfile]
    exact iff_of_true nofun (.inl hfile)

end Written

/-! ## Two reports -/

/-- A server answers a step of a scenario with a formula. -/
def formulaStep : ScanResult Unit Unit BinaryFloat :=
  { targetUrl := []
    threats := []
    probeResults := []
    scenarioResults := [⟨lit "S1", [lit "T1"], .complete, false,
      [⟨0, lit "login", false, [⟨lit "body", lit "eq", lit "ok", lit "=1+1"⟩], none⟩]⟩]
    scanTimestamp := []
    catalogHash := []
    exitCode := 1
    assurance := none }

theorem formulaStep_written :
    ¬ ∀ cell ∈ writtenCells (fun _ => none) formulaStep, Plain cell := by
  intro h
  have hfile : (writeCsvReport (fun _ => none) formulaStep).isSome = true := by
    rw [writeCsvReport, Option.isSome_map, encodeUtf8_isSome_iff]
    decide +kernel
  have hwritten : lit "=1+1" ∈ writtenCells (fun _ => none) formulaStep := by
    rw [writtenCells, if_pos hfile]
    decide +kernel
  cases h _ hwritten

/-- A server answers a probe with the same formula. -/
def formulaProbe : ScanResult Unit Unit BinaryFloat :=
  { formulaStep with
    scenarioResults := []
    probeResults := [⟨lit "P1", lit "T1", false, lit "=1+1", none,
      [⟨lit "body", lit "eq", lit "ok", lit "=1+1", false⟩], .finite false 5 (-2), none, false⟩] }

theorem formulaProbe_disarmed : (writeCsvReport (fun _ => none) formulaProbe).isSome = true ∧
    ∀ cell ∈ writtenCells (fun _ => none) formulaProbe, Plain cell := by
  constructor
  · rw [writeCsvReport, Option.isSome_map, encodeUtf8_isSome_iff]
    decide +kernel
  · refine (cells_plain_iff _ formulaProbe).mpr (.inr ⟨fun r hr => ?_, nofun⟩)
    cases List.mem_singleton.mp hr
    exact ⟨rfl, rfl, nofun, nofun, rfl, trivial, trivial, by decide⟩

end CosaiMcp.Report
