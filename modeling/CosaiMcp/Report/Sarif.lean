import CosaiMcp.Catalog.Loader
import CosaiMcp.Py.Except
import CosaiMcp.Py.Record
import CosaiMcp.Scan.Result

/-!
# The SARIF report

`SarifBuilder` collects rules and results, call by call of `addResult`, and `build` puts them into a
document. What a server controls is to be in the messages of the results only.

The Unicode tables, `repr` of a string and `html.unescape` are parameters (`SarifTexts`), and so are
the decimal digits of Unicode, which `\d` matches. Of `html.unescape` this much is known: it raises
on a decimal reference of more digits than `int` takes (`HasLongReference`).
-/

namespace CosaiMcp.Report

open Py Catalog Scan

variable {φ : Type}

/-! ## Texts -/

/-- `sys.int_info.default_max_str_digits`. -/
def maxStrDigits : Nat := 4300

/-- A decimal character reference in the text has more digits than `int` takes. -/
def HasLongReference (s : Str) : Prop :=
  ∃ digits : Str, maxStrDigits < digits.length ∧ (∀ c ∈ digits, isDigit c = true) ∧
    lit "&#" ++ digits <:+: s

theorem hasLongReference_iff {s : Str} : HasLongReference s ↔ ∃ t ∈ s.tails,
    lit "&#" <+: t ∧ maxStrDigits < ((t.drop 2).takeWhile isDigit).length := by
  constructor
  · rintro ⟨digits, hlength, hdigits, pre, post, rfl⟩
    refine ⟨lit "&#" ++ (digits ++ post), ?_, List.prefix_append _ _, ?_⟩
    · rw [List.mem_tails]
      exact ⟨pre, by simp only [List.append_assoc]⟩
    · have hdrop : (lit "&#" ++ (digits ++ post)).drop 2 = digits ++ post := rfl
      rw [hdrop, List.takeWhile_append_of_pos hdigits, List.length_append]
      omega
  · rintro ⟨t, ht, ⟨rest, rfl⟩, hlength⟩
    have hdrop : (lit "&#" ++ rest).drop 2 = rest := rfl
    rw [hdrop] at hlength
    refine ⟨rest.takeWhile isDigit, hlength, fun c hc => List.mem_takeWhile_imp hc, ?_⟩
    have hprefix : lit "&#" ++ rest.takeWhile isDigit <+: lit "&#" ++ rest :=
      (List.prefix_append_right_inj _).mpr (List.takeWhile_prefix _)
    exact hprefix.isInfix.trans ((List.mem_tails _ _).mp ht).isInfix

instance : DecidablePred HasLongReference := fun _ => decidable_of_iff _ hasLongReference_iff.symm

structure SarifTexts where
  /-- `unicodedata.normalize("NFKC", s)`. -/
  nfkc : Str → Str
  /-- `unicodedata.category(ch)`. -/
  category : CodePoint → Str
  isDecimal : CodePoint → Bool
  /-- `html.unescape`; `none` is `ValueError`. -/
  unescape : Str → Option Str
  repr : Str → Str
  unescape_eq_none_iff : ∀ s, unescape s = none ↔ HasLongReference s

def sarifVersion : Str := lit "2.1.0"

def sarifSchema : Str :=
  lit "https://raw.githubusercontent.com/oasis-tcs/sarif-spec/master/" ++
    lit "Schemata/sarif-schema-2.1.0.json"

def sarifToolName : Str := lit "cosai-mcp"

def sarifToolVersion : Str := lit "0.1.0"

def maxMessageChars : Nat := 4096

/-- `_strip_control_chars`. -/
def stripControlChars (tx : SarifTexts) (s : Str) : Str :=
  s.filter fun ch =>
    ((tx.category ch).head? ≠ some 67 || ch ∈ [9, 10, 13]) &&
      tx.category ch ∉ [lit "Zl", lit "Zp"]

/-- `_sanitize_message`. -/
def sanitizeMessage (tx : SarifTexts) (s : Str) : Str :=
  let s := stripControlChars tx (tx.nfkc s)
  if s.length > maxMessageChars then s.take maxMessageChars ++ lit "…[truncated]" else s

/-- `_severity_to_level`. -/
def severityToLevel : Severity → Str
  | .critical | .high => lit "error"
  | .medium => lit "warning"
  | .low | .info => lit "note"

/-! ## Rule ids -/

/-- `-\d{3}$`: `$` is also before a line feed at the end. -/
def isRuleNumber (isDecimal : CodePoint → Bool) : Str → Bool
  | [45, a, b, c] => isDecimal a && isDecimal b && isDecimal c
  | [45, a, b, c, 10] => isDecimal a && isDecimal b && isDecimal c
  | _ => false

def isUpperLetter (c : CodePoint) : Bool := 65 ≤ c.val && c.val ≤ 90

/-- `_RULE_ID_RE`: no hyphen is a letter, so the letters in the middle are all up to the hyphen. -/
def isRuleId (isDecimal : CodePoint → Bool) : Str → Bool
  | 84 :: a :: b :: rest =>
    isDecimal a && isDecimal b &&
      (isRuleNumber isDecimal rest ||
        match rest with
        | 45 :: rest =>
          let letters := rest.takeWhile isUpperLetter
          2 ≤ letters.length && letters.length ≤ 5 &&
            isRuleNumber isDecimal (rest.dropWhile isUpperLetter)
        | _ => false)
  | _ => false

/-! ## The builder -/

structure ScanContext where
  targetUrl : Str
  scanTimestamp : Str
  catalogHash : Str
  executionSuccessful : Bool
  exitCode : Int

/-- What `add_result` is told beside the result. -/
structure RuleData where
  severity : Severity
  ruleId : Str
  ruleName : Str
  ruleDescription : Str
  owaspRef : Str
  cwe : List Str
  confidence : Str
  mcpTRef : Str
  threatRefs : List Int
  threatTiers : List Int

structure SarifBuilder (φ : Type) where
  context : ScanContext
  rules : Dict Str (Json φ)
  results : List (Json φ)

def SarifBuilder.new (context : ScanContext) : SarifBuilder φ := ⟨context, .empty, []⟩

/-- The framework labels of a rule, each only if there is something to say. -/
def ruleProps (rule : RuleData) : List (Str × Json φ) :=
  (if rule.cwe.isEmpty then [] else [(lit "cwe", .arr (rule.cwe.map .str))]) ++
  (if rule.owaspRef.isEmpty then [] else [(lit "owasp_ref", .str rule.owaspRef)]) ++
  (if rule.confidence ∈ [lit "low", lit "high"] then [(lit "confidence", .str rule.confidence)]
    else []) ++
  (if rule.mcpTRef.isEmpty then [] else [(lit "cosai_mcp_t", .str (rule.mcpTRef.take 16))]) ++
  (if rule.threatRefs.isEmpty then []
    else [(lit "cosai_threats", .arr (rule.threatRefs.map .int))]) ++
  (if rule.threatTiers.isEmpty then []
    else [(lit "cosai_threat_tiers", .arr (rule.threatTiers.map .int))])

/-- `rule_dict`. -/
def ruleDict (tx : SarifTexts) (rule : RuleData) : Json φ :=
  let props := ruleProps rule
  .obj ([(lit "id", .str rule.ruleId),
      (lit "name", .str ((sanitizeMessage tx rule.ruleName).take 128)),
      (lit "shortDescription",
        .obj [(lit "text", .str ((sanitizeMessage tx rule.ruleDescription).take 512))]),
      (lit "defaultConfiguration", .obj [(lit "level", .str (severityToLevel rule.severity))])] ++
    (if props.isEmpty then [] else [(lit "properties", .obj props)]) ++
    (if rule.owaspRef.isEmpty then []
      else [(lit "helpUri", .str (lit "https://github.com/OWASP/www-project-mcp-top-10"))]))

/-- `bool(result.inconclusive_reason)`: an empty reason, which `make_probe_result` never sets, is
none. -/
def isInconclusive {δ : Type} (r : ProbeResult δ) : Bool := !(r.inconclusiveReason.getD []).isEmpty

def failedAssertions {δ : Type} (r : ProbeResult δ) : List AssertionResult :=
  r.assertions.filter (!·.passed)

/-- What the message of a result says, before it is sanitized; `none` is `ValueError`. -/
def rawMessage {δ : Type} (tx : SarifTexts) (r : ProbeResult δ) : Option Str :=
  if !(failedAssertions r).isEmpty then do
    let parts ← (failedAssertions r).mapM fun a => do
      let expected ← tx.unescape a.expected
      let actual ← tx.unescape a.actual
      return a.target ++ lit " " ++ a.operator ++ lit " " ++ tx.repr expected ++ lit " (got " ++
        tx.repr actual ++ lit ")"
    return (lit "; ").intercalate parts
  else
    match r.error with
    | none | some [] => some (lit "Probe failed (no assertion details)")
    | some e => do
      let e ← tx.unescape e
      return lit "Probe error: " ++ e

/-- `sarif_result`. The duration is a float. -/
def sarifResult (tx : SarifTexts) (r : ProbeResult φ) (rule : RuleData) : Option (Json φ) := do
  let raw ← rawMessage tx r
  return .obj [(lit "ruleId", .str rule.ruleId), (lit "level", .str (severityToLevel rule.severity)),
    (lit "message", .obj [(lit "text", .str (sanitizeMessage tx raw))]),
    (lit "properties", .obj [(lit "probe_id", .str r.probeId), (lit "threat_id", .str r.threatId),
      (lit "duration_seconds", .float r.durationSeconds)])]

/-- The results that get a SARIF result. -/
def isReported {δ : Type} (r : ProbeResult δ) : Bool := !(r.passed || isInconclusive r)

/-- The first call for a rule id registers its rule. -/
def registerRule (tx : SarifTexts) (rules : Dict Str (Json φ)) (rule : RuleData) :
    Dict Str (Json φ) :=
  if rule.ruleId ∈ rules.keys then rules else rules.set rule.ruleId (ruleDict tx rule)

/-- `add_result`, and the builder that it leaves: the rule is registered before the message is
made. -/
def SarifBuilder.addResult (tx : SarifTexts) (b : SarifBuilder φ) (r : ProbeResult φ)
    (rule : RuleData) : Except PyError Unit × SarifBuilder φ :=
  if !isRuleId tx.isDecimal rule.ruleId then (.error .valueError, b)
  else
    let b := { b with rules := registerRule tx b.rules rule }
    if !isReported r then (.ok (), b)
    else
      match sarifResult tx r rule with
      | none => (.error .valueError, b)
      | some result => (.ok (), { b with results := b.results ++ [result] })

/-- A sequence of calls on a new builder. A call may raise. -/
def SarifBuilder.addAll (tx : SarifTexts) (context : ScanContext)
    (calls : List (ProbeResult φ × RuleData)) : SarifBuilder φ :=
  calls.foldl (fun b c => (b.addResult tx c.1 c.2).2) (.new context)

/-! ## The document -/

def invocation (ctx : ScanContext) : Json φ :=
  .obj ([(lit "executionSuccessful", .bool ctx.executionSuccessful),
      (lit "commandLine", .str (lit "cosai scan " ++ ctx.targetUrl)),
      (lit "startTimeUtc", .str ctx.scanTimestamp),
      (lit "properties", .obj [(lit "catalogHash", .str ctx.catalogHash),
        (lit "targetUrl", .str ctx.targetUrl)])] ++
    (if ctx.executionSuccessful then [] else [(lit "exitCode", .int ctx.exitCode)]))

/-- `build`. -/
def SarifBuilder.build (b : SarifBuilder φ) : Json φ :=
  .obj [(lit "$schema", .str sarifSchema), (lit "version", .str sarifVersion),
    (lit "runs", .arr [.obj [
      (lit "tool", .obj [(lit "driver", .obj [(lit "name", .str sarifToolName),
        (lit "version", .str sarifToolVersion),
        (lit "informationUri", .str (lit "https://github.com/cosai-oasis/cosai-mcp")),
        (lit "rules", .arr b.rules.values)])]),
      (lit "results", .arr b.results),
      (lit "invocations", .arr [invocation b.context])]])]

end CosaiMcp.Report
