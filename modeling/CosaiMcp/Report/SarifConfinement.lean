import CosaiMcp.Report.Sarif

/-!
# What a server can change in a SARIF report

Two sequences of calls that differ only in what a server controls (`AlikeCall`) are to give documents
that are the same but for the messages of the results (`withoutMessages`), without losing a result
that is neither passed nor inconclusive (`ReportsCalls`). This is so exactly if no message quotes a
text that `html.unescape` raises on (`addAll_confined_iff`), and no escaped text is one
(`not_hasLongReference_escape`).
-/

namespace CosaiMcp.Report

open Py Scan

variable {φ : Type} {tx : SarifTexts} {context : ScanContext}

/-! ## Documents without their messages -/

/-- The value under a key changed. -/
def onMember (key : Str) (f : Json φ → Json φ) : Json φ → Json φ
  | .obj ms => .obj (ms.map fun m => if m.1 = key then (m.1, f m.2) else m)
  | j => j

/-- Every item of an array changed. -/
def onItems (f : Json φ → Json φ) : Json φ → Json φ
  | .arr js => .arr (js.map f)
  | j => j

/-- A SARIF result without `message.text`. -/
def withoutMessage : Json φ → Json φ :=
  onMember (lit "message") (onMember (lit "text") fun _ => .null)

/-- A SARIF document without the `message.text` of its results. -/
def withoutMessages : Json φ → Json φ :=
  onMember (lit "runs") (onItems (onMember (lit "results") (onItems withoutMessage)))

theorem withoutMessages_build (b : SarifBuilder φ) :
    withoutMessages b.build =
      SarifBuilder.build { b with results := b.results.map withoutMessage } := by
  have hschema : lit "$schema" ≠ lit "runs" := by decide
  have hversion : lit "version" ≠ lit "runs" := by decide
  have htool : lit "tool" ≠ lit "results" := by decide
  have hinvocations : lit "invocations" ≠ lit "results" := by decide
  simp only [withoutMessages, SarifBuilder.build, onMember, onItems, List.map_cons, List.map_nil,
    hschema, hversion, htool, hinvocations, if_false, if_true]

/-- A SARIF result without its message. -/
def bareResult (r : ProbeResult φ) (rule : RuleData) : Json φ :=
  .obj [(lit "ruleId", .str rule.ruleId), (lit "level", .str (severityToLevel rule.severity)),
    (lit "message", .obj [(lit "text", .null)]),
    (lit "properties", .obj [(lit "probe_id", .str r.probeId), (lit "threat_id", .str r.threatId),
      (lit "duration_seconds", .float r.durationSeconds)])]

theorem withoutMessage_sarifResult {r : ProbeResult φ} {rule : RuleData} {result : Json φ}
    (h : sarifResult tx r rule = some result) : withoutMessage result = bareResult r rule := by
  obtain ⟨raw, -, h⟩ := Option.bind_eq_some_iff.mp h
  cases h
  have hrule : lit "ruleId" ≠ lit "message" := by decide
  have hlevel : lit "level" ≠ lit "message" := by decide
  have hproperties : lit "properties" ≠ lit "message" := by decide
  simp only [withoutMessage, bareResult, onMember, List.map_cons, List.map_nil, hrule, hlevel,
    hproperties, if_false, if_true]

/-! ## Texts that are quoted -/

/-- The texts of a result that its message quotes. -/
def quotedTexts {δ : Type} (r : ProbeResult δ) : List Str :=
  if !(failedAssertions r).isEmpty then
    (failedAssertions r).flatMap fun a => [a.expected, a.actual]
  else r.error.toList

/-- No text that the message quotes has a reference that is too long. -/
def Quotable {δ : Type} (r : ProbeResult δ) : Prop := ∀ s ∈ quotedTexts r, ¬ HasLongReference s

theorem isSome_unescape_iff (tx : SarifTexts) (s : Str) :
    (tx.unescape s).isSome = true ↔ ¬ HasLongReference s := by
  rw [← tx.unescape_eq_none_iff, Option.isSome_iff_ne_none]

theorem isSome_mapM_iff {α β : Type} {f : α → Option β} {xs : List α} :
    (xs.mapM f).isSome = true ↔ ∀ x ∈ xs, (f x).isSome = true := by
  induction xs with
  | nil => exact iff_of_true rfl nofun
  | cons x xs ih =>
    rw [List.mapM_cons, List.forall_mem_cons, ← ih]
    cases f x with
    | none => simp
    | some y => cases xs.mapM f <;> simp

theorem not_hasLongReference_nil : ¬ HasLongReference [] := by
  rintro ⟨digits, -, -, h⟩
  cases List.infix_nil.mp h

theorem isSome_rawMessage_iff {δ : Type} (tx : SarifTexts) (r : ProbeResult δ) :
    (rawMessage tx r).isSome = true ↔ Quotable r := by
  unfold rawMessage Quotable quotedTexts
  split
  · have hparts : ∀ a : AssertionResult, (do
        let expected ← tx.unescape a.expected
        let actual ← tx.unescape a.actual
        return a.target ++ lit " " ++ a.operator ++ lit " " ++ tx.repr expected ++ lit " (got " ++
          tx.repr actual ++ lit ")" : Option Str).isSome = true ↔
        ∀ s ∈ [a.expected, a.actual], ¬ HasLongReference s := by
      intro a
      rw [List.forall_mem_cons, List.forall_mem_singleton, ← isSome_unescape_iff tx,
        ← isSome_unescape_iff tx]
      cases tx.unescape a.expected <;> cases tx.unescape a.actual <;> simp
    rw [List.forall_mem_flatMap]
    simp only [← hparts, ← isSome_mapM_iff]
    simp [Option.isSome_bind]
  · rcases r.error with _ | _ | ⟨c, e⟩
    · exact iff_of_true rfl nofun
    · exact iff_of_true rfl (List.forall_mem_singleton.mpr not_hasLongReference_nil)
    · simp [← isSome_unescape_iff tx, Option.isSome_bind]

theorem isSome_sarifResult_iff (r : ProbeResult φ) (rule : RuleData) :
    (sarifResult tx r rule).isSome = true ↔ Quotable r := by
  rw [← isSome_rawMessage_iff tx, sarifResult]
  cases rawMessage tx r <;> simp

/-! ## Escaped texts -/

/-- `html.escape(text, quote=True)`. -/
def escapeHtml (s : Str) : Str :=
  s.flatMap fun c =>
    if c = 38 then lit "&amp;"
    else if c = 60 then lit "&lt;"
    else if c = 62 then lit "&gt;"
    else if c = 34 then lit "&quot;"
    else if c = 39 then lit "&#x27;"
    else [c]

/-- No digit is right behind `&#`. -/
theorem not_reference_escapeHtml (s : Str) {d : CodePoint} (hd : isDigit d = true) :
    ¬ [38, 35, d] <:+: escapeHtml s := by
  have hx : d ≠ 120 := by
    rintro rfl
    cases hd
  induction s with
  | nil => exact fun h => nomatch List.infix_nil.mp h
  | cons c s ih =>
    have hentity : ∀ w ∈ [lit "&amp;", lit "&lt;", lit "&gt;", lit "&quot;", lit "&#x27;"],
        ¬ [38, 35, d] <:+: w ++ escapeHtml s := by
      intro w hw
      simp only [List.mem_cons, List.not_mem_nil, or_false] at hw
      rcases hw with rfl | rfl | rfl | rfl | rfl <;>
        simp [lit, CodePoint.ofChar, List.infix_cons_iff, List.cons_prefix_cons, ih, hx]
    rw [escapeHtml, List.flatMap_cons]
    change ¬ [38, 35, d] <:+: _ ++ escapeHtml s
    split
    · exact hentity _ (by decide)
    · next hamp =>
      split
      · exact hentity _ (by decide)
      split
      · exact hentity _ (by decide)
      split
      · exact hentity _ (by decide)
      split
      · exact hentity _ (by decide)
      rw [List.singleton_append, List.infix_cons_iff, List.cons_prefix_cons]
      exact fun h => h.elim (fun h => hamp h.1.symm) ih

/-- What has been escaped can be unescaped. -/
theorem not_hasLongReference_escape (s : Str) : ¬ HasLongReference (escapeHtml s) := by
  rintro ⟨digits, hlength, hdigits, hinfix⟩
  cases digits with
  | nil => cases hlength
  | cons d digits =>
    have hfirst : [38, 35, d] <:+: lit "&#" ++ d :: digits :=
      ⟨[], digits, rfl⟩
    exact not_reference_escapeHtml s (hdigits d List.mem_cons_self) (hfirst.trans hinfix)

/-- A result whose texts have been escaped can be quoted. -/
theorem quotable_of_escaped {δ : Type} {r : ProbeResult δ}
    (h : ∀ s ∈ quotedTexts r, ∃ text, s = escapeHtml text) : Quotable r := by
  intro s hs
  obtain ⟨text, rfl⟩ := h s hs
  exact not_hasLongReference_escape text

/-! ## What a document reports -/

/-- `doc["runs"][0]`. -/
def firstRun (doc : Json φ) : Json φ :=
  match doc.get? (lit "runs") with
  | some (.arr (run :: _)) => run
  | _ => .null

/-- `doc["runs"][0]["results"]`. -/
def sarifResults (doc : Json φ) : List (Json φ) :=
  match (firstRun doc).get? (lit "results") with
  | some (.arr js) => js
  | _ => []

/-- `doc["runs"][0]["tool"]["driver"]["rules"]`. -/
def sarifRules (doc : Json φ) : List (Json φ) :=
  match ((firstRun doc).get? (lit "tool")).bind fun tool =>
      (tool.get? (lit "driver")).bind fun driver => driver.get? (lit "rules") with
  | some (.arr js) => js
  | _ => []

theorem sarifResults_build (b : SarifBuilder φ) : sarifResults b.build = b.results := by
  have hrun : (firstRun b.build).get? (lit "results") = some (.arr b.results) := rfl
  rw [sarifResults, hrun]

theorem sarifRules_build (b : SarifBuilder φ) : sarifRules b.build = b.rules.values := by
  have hrules : ((firstRun b.build).get? (lit "tool")).bind (fun tool =>
      (tool.get? (lit "driver")).bind fun driver => driver.get? (lit "rules")) =
        some (.arr b.rules.values) := rfl
  rw [sarifRules, hrules]

/-- The document has a result for each call that reports one, in the order of the calls, and the
rule of each. -/
structure ReportsCalls (tx : SarifTexts) (calls : List (ProbeResult φ × RuleData)) (doc : Json φ) :
    Prop where
  results : List.Forall₂ (fun c result => sarifResult tx c.1 c.2 = some result)
    (calls.filter fun c => isReported c.1) (sarifResults doc)
  rules : ∀ c ∈ calls, isReported c.1 = true →
    ∃ rule ∈ sarifRules doc, rule.get? (lit "id") = some (.str c.2.ruleId)

/-! ## The builder after some calls -/

section Calls

variable {b b' : SarifBuilder φ}

/-- The SARIF result that a call adds. -/
def addedResult (tx : SarifTexts) (c : ProbeResult φ × RuleData) : Option (Json φ) :=
  if isRuleId tx.isDecimal c.2.ruleId = true ∧ isReported c.1 = true then sarifResult tx c.1 c.2
  else none

theorem results_addResult (b : SarifBuilder φ) (c : ProbeResult φ × RuleData) :
    (b.addResult tx c.1 c.2).2.results = b.results ++ (addedResult tx c).toList := by
  unfold SarifBuilder.addResult addedResult
  by_cases hid : isRuleId tx.isDecimal c.2.ruleId = true
  · by_cases hr : isReported c.1 = true
    · cases hresult : sarifResult tx c.1 c.2 <;> simp [hid, hr]
    · simp [hid, hr]
  · simp [hid]

theorem rules_addResult (b : SarifBuilder φ) (c : ProbeResult φ × RuleData) :
    (b.addResult tx c.1 c.2).2.rules =
      if isRuleId tx.isDecimal c.2.ruleId = true then registerRule tx b.rules c.2 else b.rules := by
  unfold SarifBuilder.addResult
  by_cases hid : isRuleId tx.isDecimal c.2.ruleId = true
  · by_cases hr : isReported c.1 = true
    · cases hresult : sarifResult tx c.1 c.2 <;> simp [hid, hr]
    · simp [hid, hr]
  · simp [hid]

theorem context_addResult (b : SarifBuilder φ) (c : ProbeResult φ × RuleData) :
    (b.addResult tx c.1 c.2).2.context = b.context := by
  unfold SarifBuilder.addResult
  by_cases hid : isRuleId tx.isDecimal c.2.ruleId = true
  · by_cases hr : isReported c.1 = true
    · cases hresult : sarifResult tx c.1 c.2 <;> simp [hid, hr]
    · simp [hid, hr]
  · simp [hid]

/-- A builder after some calls. Every rule is kept under its own id. -/
structure After (tx : SarifTexts) (calls : List (ProbeResult φ × RuleData)) (b : SarifBuilder φ) :
    Prop where
  results : b.results = calls.filterMap (addedResult tx)
  registered : ∀ c ∈ calls, isRuleId tx.isDecimal c.2.ruleId = true → c.2.ruleId ∈ b.rules.keys
  named : ∀ id rule, (id, rule) ∈ b.rules.items → rule.get? (lit "id") = some (.str id)

theorem get?_id_ruleDict (rule : RuleData) :
    (ruleDict tx rule : Json φ).get? (lit "id") = some (.str rule.ruleId) := by
  rw [ruleDict, List.cons_append, List.cons_append, Json.get?_cons, if_pos rfl]

theorem mem_keys_registerRule {rules : Dict Str (Json φ)} {rule : RuleData} {id : Str} :
    id ∈ (registerRule tx rules rule).keys ↔ id = rule.ruleId ∨ id ∈ rules.keys := by
  unfold registerRule
  split
  · next hmem => exact ⟨.inr, fun h => h.elim (fun heq => heq ▸ hmem) fun h => h⟩
  · exact Dict.mem_keys_set

theorem named_registerRule {rules : Dict Str (Json φ)}
    (h : ∀ id rule, (id, rule) ∈ rules.items → rule.get? (lit "id") = some (.str id))
    (data : RuleData) {id : Str} {rule : Json φ}
    (hmem : (id, rule) ∈ (registerRule tx rules data).items) :
    rule.get? (lit "id") = some (.str id) := by
  unfold registerRule at hmem
  split at hmem
  · exact h id rule hmem
  · rw [← Dict.get?_eq_some_iff, Dict.get?_set] at hmem
    split at hmem
    · next hid =>
      cases hmem
      rw [hid]
      exact get?_id_ruleDict data
    · exact h id rule (Dict.get?_eq_some_iff.mp hmem)

/-- One call keeps the builder in step with the calls. -/
theorem After.addResult {calls : List (ProbeResult φ × RuleData)} (h : After tx calls b)
    (c : ProbeResult φ × RuleData) : After tx (calls ++ [c]) (b.addResult tx c.1 c.2).2 := by
  refine ⟨?_, ?_, ?_⟩
  · rw [results_addResult, h.results, List.filterMap_append]
    cases hadded : addedResult tx c <;> simp [hadded]
  · intro d hd hid
    rw [rules_addResult]
    rcases List.mem_append.mp hd with hd | hd
    · have hold := h.registered d hd hid
      split
      · exact mem_keys_registerRule.mpr (.inr hold)
      · exact hold
    · cases List.mem_singleton.mp hd
      rw [if_pos hid]
      exact mem_keys_registerRule.mpr (.inl rfl)
  · intro id rule hmem
    rw [rules_addResult] at hmem
    split at hmem
    · exact named_registerRule h.named c.2 hmem
    · exact h.named id rule hmem

theorem After.foldl {calls : List (ProbeResult φ × RuleData)} (h : After tx calls b)
    (calls' : List (ProbeResult φ × RuleData)) :
    After tx (calls ++ calls') (calls'.foldl (fun b c => (b.addResult tx c.1 c.2).2) b) := by
  induction calls' generalizing calls b with
  | nil => rwa [List.append_nil]
  | cons c calls' ih =>
    have hafter := ih (h.addResult c)
    rwa [List.append_assoc] at hafter

theorem after_addAll (calls : List (ProbeResult φ × RuleData)) :
    After tx calls (SarifBuilder.addAll tx context calls) := by
  have hnew : After tx [] (SarifBuilder.new (φ := φ) context) := ⟨rfl, nofun, nofun⟩
  exact hnew.foldl calls

end Calls

/-! ## Which calls are reported -/

/-- Every reported result has the id of a rule, and a message that can be made. -/
def Reportable (tx : SarifTexts) (calls : List (ProbeResult φ × RuleData)) : Prop :=
  ∀ c ∈ calls, isReported c.1 = true → isRuleId tx.isDecimal c.2.ruleId = true ∧ Quotable c.1

theorem isSome_addedResult_iff (tx : SarifTexts) (c : ProbeResult φ × RuleData) :
    (addedResult tx c).isSome = true ↔
      isReported c.1 = true ∧ isRuleId tx.isDecimal c.2.ruleId = true ∧ Quotable c.1 := by
  unfold addedResult
  split
  · next h => rw [isSome_sarifResult_iff, and_iff_right h.2, and_iff_right h.1]
  · next h => exact iff_of_false nofun fun hall => h ⟨hall.2.1, hall.1⟩

/-- As many results as there are reported calls, where each adds its own. -/
theorem length_filterMap_addedResult (calls : List (ProbeResult φ × RuleData)) :
    (calls.filterMap (addedResult tx)).length ≤ (calls.filter fun c => isReported c.1).length ∧
      ((calls.filterMap (addedResult tx)).length = (calls.filter fun c => isReported c.1).length →
        Reportable tx calls) := by
  induction calls with
  | nil => exact ⟨Nat.le_refl 0, fun _ => nofun⟩
  | cons c calls ih =>
    obtain ⟨hle, hall⟩ := ih
    have hadded := isSome_addedResult_iff tx c
    rw [Reportable, List.forall_mem_cons]
    by_cases hr : isReported c.1 = true
    · rw [List.filter_cons, if_pos hr, List.length_cons]
      cases hresult : addedResult tx c with
      | none =>
        rw [List.filterMap_cons_none hresult]
        exact ⟨by omega, fun h => by omega⟩
      | some result =>
        rw [List.filterMap_cons_some hresult, List.length_cons]
        refine ⟨by omega, fun h => ⟨fun _ => ?_, hall (by omega)⟩⟩
        exact (hadded.mp (by rw [hresult]; rfl)).2
    · have hnone : addedResult tx c = none :=
        Option.not_isSome_iff_eq_none.mp fun h => hr (hadded.mp h).1
      rw [List.filter_cons, if_neg hr, List.filterMap_cons_none hnone]
      exact ⟨hle, fun h => ⟨fun h' => absurd h' hr, hall h⟩⟩

theorem forall₂_addedResult {calls : List (ProbeResult φ × RuleData)} (h : Reportable tx calls) :
    List.Forall₂ (fun c result => sarifResult tx c.1 c.2 = some result)
      (calls.filter fun c => isReported c.1) (calls.filterMap (addedResult tx)) := by
  induction calls with
  | nil => exact .nil
  | cons c calls ih =>
    obtain ⟨hc, hcalls⟩ := List.forall_mem_cons.mp h
    by_cases hr : isReported c.1 = true
    · obtain ⟨result, hresult⟩ := Option.isSome_iff_exists.mp
        ((isSome_addedResult_iff tx c).mpr ⟨hr, hc hr⟩)
      rw [List.filter_cons, if_pos hr, List.filterMap_cons_some hresult]
      rw [addedResult, if_pos ⟨(hc hr).1, hr⟩] at hresult
      exact .cons hresult (ih hcalls)
    · have hnone : addedResult tx c = none := if_neg fun h => hr h.2
      rw [List.filter_cons, if_neg hr, List.filterMap_cons_none hnone]
      exact ih hcalls

/-- A document reports its calls if the message of each can be made, and only then. -/
theorem reportsCalls_iff (calls : List (ProbeResult φ × RuleData)) :
    ReportsCalls tx calls (SarifBuilder.addAll tx context calls).build ↔ Reportable tx calls := by
  have hafter : After tx calls (SarifBuilder.addAll tx context calls) := after_addAll calls
  constructor
  · intro h
    have hlength := h.results.length_eq
    rw [sarifResults_build, hafter.results] at hlength
    exact (length_filterMap_addedResult calls).2 hlength.symm
  · intro h
    refine ⟨?_, fun c hc hr => ?_⟩
    · rw [sarifResults_build, hafter.results]
      exact forall₂_addedResult h
    · rw [sarifRules_build]
      obtain ⟨rule, hrule⟩ := Dict.mem_keys_iff.mp (hafter.registered c hc (h c hc hr).1)
      exact ⟨rule, Dict.mem_values_iff.mpr ⟨_, hrule⟩, hafter.named _ _ hrule⟩

/-! ## Two runs -/

/-- Two calls about one probe that agree on what the scanner knows. -/
structure AlikeCall (c' c : ProbeResult φ × RuleData) : Prop where
  rule : c'.2 = c.2
  passed : c'.1.passed = c.1.passed
  inconclusive : isInconclusive c'.1 = isInconclusive c.1
  probeId : c'.1.probeId = c.1.probeId
  threatId : c'.1.threatId = c.1.threatId
  duration : c'.1.durationSeconds = c.1.durationSeconds

section Alike

variable {calls' calls : List (ProbeResult φ × RuleData)}

theorem AlikeCall.isReported {c' c : ProbeResult φ × RuleData} (h : AlikeCall c' c) :
    isReported c'.1 = isReported c.1 := by
  rw [Report.isReported, Report.isReported, h.passed, h.inconclusive]

/-- The rules and the context are those of the rules that were called for. -/
theorem foldl_alike (tx : SarifTexts) (h : List.Forall₂ AlikeCall calls' calls)
    {b' b : SarifBuilder φ} (hcontext : b'.context = b.context) (hrules : b'.rules = b.rules) :
    (calls'.foldl (fun b c => (b.addResult tx c.1 c.2).2) b').context =
        (calls.foldl (fun b c => (b.addResult tx c.1 c.2).2) b).context ∧
      (calls'.foldl (fun b c => (b.addResult tx c.1 c.2).2) b').rules =
        (calls.foldl (fun b c => (b.addResult tx c.1 c.2).2) b).rules := by
  induction h generalizing b' b with
  | nil => exact ⟨hcontext, hrules⟩
  | @cons c' c calls' calls hc _ ih =>
    refine ih ?_ ?_
    · rw [context_addResult, context_addResult, hcontext]
    · rw [rules_addResult, rules_addResult, hrules, hc.rule]

/-- What is left of the results without their messages. -/
theorem map_withoutMessage {results : List (Json φ)}
    (h : List.Forall₂ (fun c result => sarifResult tx c.1 c.2 = some result) calls results) :
    results.map withoutMessage = calls.map fun c => bareResult c.1 c.2 := by
  induction h with
  | nil => rfl
  | cons hresult _ ih => rw [List.map_cons, List.map_cons, withoutMessage_sarifResult hresult, ih]

theorem map_bareResult (h : List.Forall₂ AlikeCall calls' calls) :
    (calls'.filter fun c => isReported c.1).map (fun c => bareResult c.1 c.2) =
      (calls.filter fun c => isReported c.1).map fun c => bareResult c.1 c.2 := by
  induction h with
  | nil => rfl
  | @cons c' c calls' calls hc _ ih =>
    have hbare : bareResult c'.1 c'.2 = bareResult c.1 c.2 := by
      rw [bareResult, bareResult, hc.rule, hc.probeId, hc.threatId, hc.duration]
    rw [List.filter_cons, List.filter_cons, hc.isReported]
    split
    · rw [List.map_cons, List.map_cons, hbare, ih]
    · exact ih

theorem withoutMessages_addAll (h : List.Forall₂ AlikeCall calls' calls)
    (hcalls' : Reportable tx calls') (hcalls : Reportable tx calls) :
    withoutMessages (SarifBuilder.addAll tx context calls').build =
      withoutMessages (SarifBuilder.addAll tx context calls).build := by
  obtain ⟨hcontext, hrules⟩ := foldl_alike tx h rfl (Eq.refl (SarifBuilder.new context).rules)
  have hresults : (SarifBuilder.addAll tx context calls').results.map withoutMessage =
      (SarifBuilder.addAll tx context calls).results.map withoutMessage := by
    rw [(after_addAll calls').results, (after_addAll calls).results,
      map_withoutMessage (forall₂_addedResult hcalls'),
      map_withoutMessage (forall₂_addedResult hcalls), map_bareResult h]
  rw [withoutMessages_build, withoutMessages_build, hresults]
  exact congrArg₂ (fun context rules => SarifBuilder.build ⟨context, rules, _⟩) hcontext hrules

end Alike

/-! ## Confinement -/

/-- What a server controls is confined to the messages, in two runs, and no result is lost. -/
structure Confined (tx : SarifTexts) (context : ScanContext)
    (calls' calls : List (ProbeResult φ × RuleData)) : Prop where
  documents : withoutMessages (SarifBuilder.addAll tx context calls').build =
    withoutMessages (SarifBuilder.addAll tx context calls).build
  reports' : ReportsCalls tx calls' (SarifBuilder.addAll tx context calls').build
  reports : ReportsCalls tx calls (SarifBuilder.addAll tx context calls).build

/-- **A server can change messages only.** Two sequences of calls that differ only in what a server
controls give documents that are the same but for the messages of the results, and each document
reports its calls, exactly if every reported result of either has the id of a rule and quotes no
reference that is too long. -/
theorem addAll_confined_iff (tx : SarifTexts) (context : ScanContext)
    {calls' calls : List (ProbeResult φ × RuleData)} (h : List.Forall₂ AlikeCall calls' calls) :
    Confined tx context calls' calls ↔ Reportable tx calls' ∧ Reportable tx calls := by
  constructor
  · intro hconfined
    exact ⟨(reportsCalls_iff calls').mp hconfined.reports',
      (reportsCalls_iff calls).mp hconfined.reports⟩
  · rintro ⟨hcalls', hcalls⟩
    exact ⟨withoutMessages_addAll h hcalls' hcalls, (reportsCalls_iff calls').mpr hcalls',
      (reportsCalls_iff calls).mpr hcalls⟩

section Example

private theorem unescape_plain (s : Str) :
    (if HasLongReference s then none else some s) = none ↔ HasLongReference s := by
  split
  · next h => exact iff_of_true rfl h
  · next h => exact iff_of_false nofun h

/-- Texts without references, but for those that are too long. -/
private def plainSarif : SarifTexts :=
  { nfkc := id
    category := fun _ => lit "Ll"
    isDecimal := isDigit
    unescape := fun s => if HasLongReference s then none else some s
    repr := id
    unescape_eq_none_iff := unescape_plain }

private def openTool : RuleData :=
  ⟨.high, lit "T01-001", lit "open tool", [], [], [lit "CWE-345"], lit "medium", [], [], []⟩

/-- The answer of the server is the whole difference. -/
private def answered (body : Str) : ProbeResult Unit × RuleData :=
  (⟨lit "P1", lit "T01-001", false, body, none,
    [⟨lit "body", lit "contains", lit "x", body, false⟩], (), none, false⟩, openTool)

private theorem alike_answered (body' body : Str) : AlikeCall (answered body') (answered body) :=
  ⟨rfl, rfl, rfl, rfl, rfl, rfl⟩

private theorem quotable_answered {body : Str} (h : ¬ HasLongReference body) :
    Quotable (answered body).1 := by
  have htexts : quotedTexts (answered body).1 = [lit "x", body] := rfl
  rw [Quotable, htexts]
  exact List.forall_mem_cons.mpr ⟨by decide, List.forall_mem_singleton.mpr h⟩

/-- A reference to a character, in more digits than `int` takes. -/
private def longReference : Str := lit "&#" ++ List.replicate (maxStrDigits + 1) 49

private theorem hasLongReference_longReference : HasLongReference longReference := by
  refine ⟨List.replicate (maxStrDigits + 1) 49, ?_, fun c hc => ?_, List.infix_rfl⟩
  · rw [List.length_replicate]
    exact Nat.lt_succ_self _
  · rw [List.eq_of_mem_replicate hc]
    rfl

/-- The result of the second call is lost. -/
theorem longReference_lost : ¬ ∀ calls' calls : List (ProbeResult Unit × RuleData),
    List.Forall₂ AlikeCall calls' calls →
      (∀ c ∈ calls' ++ calls, isRuleId plainSarif.isDecimal c.2.ruleId = true) →
        Confined plainSarif ⟨[], [], [], true, 0⟩ calls' calls := by
  intro h
  have hconfined := h [answered (lit "mine"), answered longReference]
    [answered (lit "yours"), answered (lit "yours")]
    (.cons (alike_answered _ _) (.cons (alike_answered _ _) .nil)) (by decide)
  have hreportable := (reportsCalls_iff _).mp hconfined.reports'
  have hquotable := (hreportable (answered longReference)
    (List.mem_cons_of_mem _ List.mem_cons_self) rfl).2
  exact hquotable longReference (List.mem_cons_of_mem _ List.mem_cons_self)
    hasLongReference_longReference

theorem answers_confined : Confined plainSarif ⟨[], [], [], true, 0⟩
    [answered (lit "mine"), answered (lit "&amp;#1;")]
    [answered (lit "yours"), answered (lit "yours")] := by
  have hreportable : ∀ a b : Str, ¬ HasLongReference a → ¬ HasLongReference b →
      Reportable plainSarif [answered a, answered b] := by
    intro a b ha hb
    refine List.forall_mem_cons.mpr ⟨fun _ => ⟨rfl, quotable_answered ha⟩, ?_⟩
    exact List.forall_mem_singleton.mpr fun _ => ⟨rfl, quotable_answered hb⟩
  exact (addAll_confined_iff plainSarif ⟨[], [], [], true, 0⟩
    (.cons (alike_answered _ _) (.cons (alike_answered _ _) .nil))).mpr
    ⟨hreportable _ _ (by decide) (by decide), hreportable _ _ (by decide) (by decide)⟩

end Example

end CosaiMcp.Report
