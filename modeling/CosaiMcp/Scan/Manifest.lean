import CosaiMcp.Middleware.Boundary.Detector
import CosaiMcp.Middleware.Stack.Enforcers
import CosaiMcp.Protocol.ToolSchema
import CosaiMcp.Scan.Discovery
import CosaiMcp.Scan.Result

/-!
# Scans of the manifest

The passive scans of the tools that were discovered: schemas (T3), poisoning (T4), secrets (T5),
names (T6, T11), and destructive tools without a preview (T9). Each is a list of results.

The regular-expression library is a parameter, and so are `repr` and the order in which the set of
reserved methods is iterated (`ManifestRuntime`). The library may raise on a text.
-/

namespace CosaiMcp.Scan

open Py
open Middleware.Boundary (Engine)
open Middleware.Stack (levenshtein)
open Protocol (toolSchemaViolations)

variable {φ δ : Type}

/-- `_RESERVED_MCP_METHODS`. -/
def reservedMcpMethods : List Str :=
  [lit "initialize", lit "ping", lit "tools/list", lit "tools/call", lit "resources/list",
    lit "resources/read", lit "resources/templates/list", lit "resources/subscribe",
    lit "resources/unsubscribe", lit "prompts/list", lit "prompts/get", lit "completion/complete",
    lit "logging/setlevel", lit "roots/list", lit "sampling/createmessage",
    lit "notifications/initialized", lit "notifications/cancelled", lit "server/discover",
    lit "subscriptions/listen"]

structure ManifestRuntime (φ δ : Type) where
  engine : Engine φ
  unicode : UnicodeData
  /-- `repr(v)`. -/
  repr : Json φ → Str
  /-- `pattern.finditer(text)`: the start and the end of each match. -/
  finditer : Str → Str → Except PyError (List (Nat × Nat))
  reservedMethods : List Str
  reservedMethods_perm : reservedMethods.Perm reservedMcpMethods
  /-- `0.0`. -/
  zeroSeconds : δ

def bodySizeCap : Nat := 10 * 1024 * 1024

section Scans

variable (R : ManifestRuntime φ δ)

/-- `_html_escape`. -/
def htmlEscape (text : Str) : Str := R.engine.escape (text.take bodySizeCap)

def manifestResult (probeId threatId : Str) (passed : Bool) (responseBody : Str)
    (inconclusiveReason : Option Str) : ProbeResult δ :=
  ⟨probeId, threatId, passed, responseBody, none, [], R.zeroSeconds, inconclusiveReason, false⟩

/-- Failed results, numbered from 1. -/
def numbered (idStart threatId : Str) (bodies : List Str) : List (ProbeResult δ) :=
  bodies.mapIdx fun i body =>
    manifestResult R (idStart ++ natText (i + 1)) threatId false body none

/-! ## T3: schemas -/

/-- The first ten of the violations. -/
def violationDetail (name : Str) (violations : List Str) : Str :=
  lit "Tool '" ++ name ++ lit "' inputSchema: " ++ (lit "; ").intercalate (violations.take 10) ++
    if violations.length > 10 then
      lit " (+" ++ natText (violations.length - 10) ++ lit " more)"
    else []

/-- One turn of the loop of `_scan_manifest_t3_schema`, for the tool at the index. -/
def schemaResult (idx : Nat) (tool : DiscoveredTool φ) :
    Except PyError (Option (ProbeResult δ)) := do
  let violations ← toolSchemaViolations R.unicode R.repr (.obj tool.inputSchema)
  if violations = [] then return none
  else return some (manifestResult R (lit "T03-schema-p" ++ natText idx) (lit "T03") false
    (htmlEscape R ((violationDetail tool.name violations).take 2000)) none)

def scanManifestT3Schema (tools : List (DiscoveredTool φ)) :
    Except PyError (List (ProbeResult δ)) :=
  if tools = [] then .ok []
  else do
    let results ← tools.zipIdx.mapM fun p => schemaResult R (p.2 + 1) p.1
    match results.reduceOption with
    | [] => return [manifestResult R (lit "T03-schema-clean") (lit "T03") true
        (lit "Tool-schema hygiene scan: " ++ natText tools.length ++
          lit " tool(s); no external $ref, invalid x-mcp-header annotations, or oversized schemas.")
        none]
    | results => return results

/-! ## T4: poisoning -/

/-- What the detector is given of a tool. The schema has been through
`json.loads(json.dumps(schema))`. -/
def toolDict (tool : DiscoveredTool φ) : List (Str × Json φ) :=
  [(lit "name", .str tool.name), (lit "description", .str tool.description),
    (lit "inputSchema", (Json.obj tool.inputSchema).reload)]

def scanManifestT4 (tools : List (DiscoveredTool φ)) : Except PyError (List (ProbeResult δ)) := do
  let findings ← Middleware.Boundary.scan R.engine (tools.map toolDict)
  return numbered R (lit "T04-manifest-p") (lit "T04") (findings.map (·.excerpt))

/-! ## T5: secrets -/

/-- `_DEFAULT_PATTERNS`. -/
def defaultPatterns : List (Str × Str) :=
  [(lit "email", lit "\\b[A-Za-z0-9._%+\\-]+@[A-Za-z0-9.\\-]+\\.[A-Za-z]\x7b2,\x7d\\b"),
    (lit "jwt",
      lit "eyJ[A-Za-z0-9_\\-]\x7b2,\x7d\\.eyJ[A-Za-z0-9_\\-]\x7b2,\x7d\\.[A-Za-z0-9_\\-]*"),
    (lit "api_key_sk", lit "\\bsk-[A-Za-z0-9]\x7b20,\x7d\\b"),
    (lit "github_pat", lit "\\bgh[posu]_[A-Za-z0-9]\x7b36\x7d\\b"),
    (lit "gitlab_pat", lit "\\bglpat-[A-Za-z0-9_\\-]\x7b20\x7d\\b"),
    (lit "aws_access_key", lit "\\bAKIA[0-9A-Z]\x7b16\x7d\\b"),
    (lit "google_api_key", lit "\\bAIza[A-Za-z0-9_\\-]\x7b35\x7d\\b"),
    (lit "gcp_service_account", lit "\"type\"\\s*:\\s*\"service_account\""),
    (lit "azure_sas", lit "[?&]sig=[A-Za-z0-9%/+]\x7b20,\x7d"),
    (lit "internal_hostname",
      lit "\\b[a-z0-9][a-z0-9\\-]*\\.(?:internal|local|corp|intranet|svc\\.cluster\\.local)\\b"),
    (lit "stack_trace",
      lit "Traceback \\(most recent call last\\)|(?m)^\\s+at [\\w.$<>/]+\\(")]

/-- `_STRICT_PATTERNS`. -/
def strictPatterns : List (Str × Str) :=
  [(lit "ssn", lit "\\b\\d\x7b3\x7d-\\d\x7b2\x7d-\\d\x7b4\x7d\\b"),
    (lit "us_phone",
      lit "\\b(?:\\+1[.\\-\\s]?)?\\(?\\d\x7b3\x7d\\)?[.\\-\\s]?\\d\x7b3\x7d[.\\-\\s]?\\d\x7b4\x7d\\b"),
    (lit "iban", lit "\\b[A-Z]\x7b2\x7d\\d\x7b2\x7d[A-Z0-9]\x7b11,30\x7d\\b"),
    (lit "pan", lit "\\b(?:\\d[ \\-]?)\x7b13,19\x7d\\b")]

def credentialTypes : List Str :=
  [lit "jwt", lit "api_key_sk", lit "github_pat", lit "gitlab_pat", lit "aws_access_key",
    lit "google_api_key", lit "gcp_service_account", lit "azure_sas"]

def strictPiiTypes : List Str := [lit "ssn", lit "us_phone", lit "iban", lit "pan"]

/-- A digit of a number at a place that counts twice. -/
def doubled (d : Nat) : Nat := if 2 * d > 9 then 2 * d - 9 else 2 * d

/-- `_luhn_valid`, of a match, whose digits are ASCII. -/
def luhnValid (candidate : Str) : Bool :=
  let digits := (candidate.filter isDigit).map fun c => c.val - 48
  if digits.length < 13 ∨ 19 < digits.length then false
  else
    let checksum := (digits.mapIdx fun i d =>
      if i % 2 = digits.length % 2 then doubled d else d).sum
    checksum % 10 = 0

structure RedactedMatch where
  piiType : Str
  start : Nat
  stop : Nat

/-- The matches of a pattern, those of `pan` only where the checksum is right. -/
def patternMatches (text : Str) (pattern : Str × Str) : Except PyError (List RedactedMatch) := do
  let spans ← R.finditer pattern.2 text
  let matched := spans.map fun span => ⟨pattern.1, span.1, span.2⟩
  return matched.filter fun m =>
    m.piiType ≠ lit "pan" || luhnValid ((text.take m.stop).drop m.start)

/-- By the start, and the longest first. -/
def matchLe (a b : RedactedMatch) : Bool :=
  a.start < b.start || a.start = b.start && b.stop - b.start ≤ a.stop - a.start

/-- Those that do not overlap one before. -/
def selectMatches : (cursor : Nat) → List RedactedMatch → List RedactedMatch
  | _, [] => []
  | cursor, m :: ms =>
    if cursor ≤ m.start then m :: selectMatches m.stop ms else selectMatches cursor ms

/-- The text from `prev` on, without what was matched. -/
def redact (text : Str) : (prev : Nat) → List RedactedMatch → Str
  | prev, [] => text.drop prev
  | prev, m :: ms =>
    (text.take m.start).drop prev ++ lit "[REDACTED:" ++ m.piiType ++ lit "]" ++
      redact text m.stop ms

/-- `PIIScrubber.scrub`: the redacted text, and what was found. -/
def scrub (piiStrict : Bool) (text : Str) : Except PyError (Str × List RedactedMatch) := do
  let patterns := defaultPatterns ++ if piiStrict then strictPatterns else []
  let found ← patterns.mapM (patternMatches R text)
  let selected := selectMatches 0 (found.flatten.mergeSort matchLe)
  return (redact text 0 selected, selected)

/-- What one tool leaks. -/
def leakExcerpt (piiStrict : Bool) (tool : DiscoveredTool φ) : Except PyError (Option Str) := do
  let (redacted, findings) ← scrub R piiStrict (tool.name ++ 10 :: tool.description)
  let reportable := credentialTypes ++ if piiStrict then strictPiiTypes else []
  let flagged := findings.filter (·.piiType ∈ reportable)
  if flagged.isEmpty then return none
  else
    let piiTypes := sortStrs (flagged.map (·.piiType)).eraseDups
    return some (lit "Tool '" ++ tool.name ++ lit "' manifest entry leaks " ++
      natText flagged.length ++ lit " secret/PII value(s) [" ++ (lit ", ").intercalate piiTypes ++
      lit "]. Redacted: " ++ redacted)

def scanManifestT5 (piiStrict : Bool) (tools : List (DiscoveredTool φ)) :
    Except PyError (List (ProbeResult δ)) := do
  let excerpts ← tools.mapM (leakExcerpt R piiStrict)
  return numbered R (lit "T05-manifest-p") (lit "T05") (excerpts.reduceOption.map (htmlEscape R))

/-! ## T6: names -/

/-- `_HOMOGLYPHS` of `middleware/integrity.py`. -/
def homoglyphs : List (CodePoint × CodePoint) :=
  (lit "аеорсхуѕіјԁոмтквнгοραειντ").zip (lit "aeopcxysijdnmtkbhropaeivt")

/-- The view of a name that edit distances are taken of. -/
def folded (name : Str) : Str :=
  R.unicode.lower (Middleware.Boundary.translate homoglyphs name)

/-- One excerpt for each name that comes more than once. -/
def collisions (names : List Str) : List Str :=
  (names.eraseDups.filter fun name => names.count name > 1).map fun name =>
    lit "Tool name collision: '" ++ name ++ lit "' appears " ++ natText (names.count name) ++
      lit " times in the manifest. Duplicate tool names allow one definition to shadow " ++
      lit "another (T6). Tool names must be unique within a server."

/-- One excerpt for each name that is a reserved method, or one edit away from it. -/
def reservedShadows (unique : List Str) : List Str :=
  unique.filterMap fun name =>
    (R.reservedMethods.find? fun method => levenshtein (folded R name) method ≤ 1).map fun method =>
      lit "Tool '" ++ name ++ lit "' " ++
        (if levenshtein (folded R name) method = 0 then lit "matches"
          else lit "is within edit-distance 1 of") ++
        lit " the reserved MCP method '" ++ method ++
        lit "'. A tool whose name shadows a protocol method can intercept or impersonate that " ++
        lit "method (T6 shadowing)."

/-- `_is_plural_variant`. -/
def isPluralVariant (a b : Str) : Bool :=
  let a := R.unicode.lower a
  let b := R.unicode.lower b
  if a.length ≤ b.length then b = a ++ lit "s" else a = b ++ lit "s"

/-- The pairs of an element and one after it. -/
def pairs {α : Type} : List α → List (α × α)
  | [] => []
  | a :: l => l.map (a, ·) ++ pairs l

/-- One excerpt for each pair of names that are one edit apart, or look alike. -/
def nearCollisions (unique : List Str) : List Str :=
  (pairs unique).filterMap fun p =>
    let d := levenshtein (folded R p.1) (folded R p.2)
    if d ≤ 1 ∧ isPluralVariant R p.1 p.2 = false then
      some (lit "Tool names '" ++ p.1 ++ lit "' and '" ++ p.2 ++
        if d = 0 then
          lit "' are identical after folding look-alike (homoglyph) characters. One " ++
            lit "impersonates the other (T6 homoglyph squat)."
        else
          lit "' differ by a single edit (Levenshtein 1). One may be a typosquat or shadow of " ++
            lit "the other (T6). Verify both are intentional and distinct.")
    else none

def scanManifestT6 (tools : List (DiscoveredTool φ)) : List (ProbeResult δ) :=
  if tools = [] then []
  else
    let names := tools.map (·.name)
    let unique := sortStrs names.eraseDups
    match collisions names ++ reservedShadows R unique ++ nearCollisions R unique with
    | [] => [manifestResult R (lit "T06-manifest-clean") (lit "T06") true
        (lit "Manifest integrity scan: " ++ natText names.length ++
          lit " tool(s) enumerated; no name collisions, reserved-method shadows, or " ++
          lit "near-duplicate names detected.") none]
    | excerpts => numbered R (lit "T06-manifest-p") (lit "T06") excerpts

/-! ## T9: destructive tools -/

def destructiveVerbs : List Str :=
  [lit "delete", lit "remove", lit "drop", lit "destroy", lit "wipe", lit "purge", lit "reset",
    lit "revoke", lit "terminate", lit "shutdown", lit "cancel", lit "truncate", lit "flush",
    lit "erase", lit "uninstall", lit "deactivate", lit "deregister"]

def confirmParams : List Str :=
  [lit "confirmed", lit "confirm", lit "dry_run", lit "dryrun", lit "preview", lit "plan_only"]

def planMarkers : List Str :=
  [lit "preview", lit "plan", lit "dry", lit "dryrun", lit "simulate", lit "check"]

/-- `re.split(r"[_\-\s/]", name.lower())`. -/
def nameParts (name : Str) : List Str :=
  (R.unicode.lower name).splitOnP fun c => c = 95 || c = 45 || isSpace c || c = 47

def previewSiblings (name : Str) : List Str :=
  [name ++ lit "_preview", lit "preview_" ++ name, name ++ lit "_plan", lit "plan_" ++ name,
    name ++ lit "_dry_run"]

/-- The tool is destructive, and there is no preview of what it does. -/
def lacksPreview (toolNames : List Str) (tool : DiscoveredTool φ) : Bool :=
  let parts := nameParts R tool.name
  !parts.any (· ∈ planMarkers) && parts.any (· ∈ destructiveVerbs) &&
    !tool.params.booleanParams.any (fun p => R.unicode.lower p ∈ confirmParams) &&
    !(previewSiblings tool.name).any (· ∈ toolNames)

def scanManifestT9 (tools : List (DiscoveredTool φ)) : List (ProbeResult δ) :=
  let toolNames := tools.map (·.name)
  (tools.zipIdx.filter fun p => lacksPreview R toolNames p.1).map fun p =>
    manifestResult R (lit "T09-manifest-p" ++ natText (p.2 + 1)) (lit "T09") false
      (lit "Tool '" ++ p.1.name ++
        lit "' performs destructive operations but lacks a two-stage commit pattern (no " ++
        lit "confirmed/dry_run parameter and no preview/plan sibling tool). Remediation: add a " ++
        lit "confirmed: boolean parameter or expose a '" ++ p.1.name ++
        lit "_preview' tool that returns a description without executing.") none

/-! ## T11: the allowlist -/

/-- What is said of a tool that is not on the allowlist. -/
def allowlistExcerpt (allowset : List Str) (name : Str) : Str :=
  match sortStrs (allowset.filter fun entry => levenshtein name entry = 1) with
  | [] => lit "Discovered tool " ++ R.repr (.str name) ++
      lit " is not on the operator allowlist — an unexpected/unauthorized tool addition (T11 " ++
      lit "supply-chain). Confirm it is approved, or remove it from the server."
  | near => lit "Discovered tool " ++ R.repr (.str name) ++
      lit " is within one edit of approved tool(s) " ++ R.engine.str (.arr (near.map .str)) ++
      lit " but is not itself on the allowlist — possible typosquat masquerading as an approved " ++
      lit "tool (T11 supply-chain)."

def scanManifestT11 (toolAllowlist : Option (List Str)) (tools : List (DiscoveredTool φ)) :
    List (ProbeResult δ) :=
  if tools = [] then []
  else match toolAllowlist.getD [] with
    | [] => [manifestResult R (lit "T11-manifest-no-allowlist") (lit "T11") false []
        (some (htmlEscape R (lit "No --tool-allowlist supplied; typosquat / unexpected-tool " ++
          lit "detection could not run. Provide the operator's approved tool names to enable " ++
          lit "T11 supply-chain checks. INCONCLUSIVE, not a finding.")))]
    | allowlist =>
      let allowset := allowlist.eraseDups
      match (tools.map (·.name)).filter (· ∉ allowset) with
      | [] => [manifestResult R (lit "T11-manifest-clean") (lit "T11") true
          (htmlEscape R (lit "All discovered tools are present on the operator allowlist.")) none]
      | unexpected => numbered R (lit "T11-manifest-p") (lit "T11")
          (unexpected.map fun name => htmlEscape R (allowlistExcerpt R allowset name))

/-! ## All of them -/

/-- The tools of the entries of `tools/list`. -/
def discovered [PyFloat φ] (entries : List (Json φ)) : List (DiscoveredTool φ) :=
  entries.filterMap (toolDictToDiscovered R.engine.str)

/-- The scans of the manifest, as the scan runs them one after the other. -/
def scanManifest [PyFloat φ] (piiStrict : Bool) (toolAllowlist : Option (List Str))
    (entries : List (Json φ)) : Except PyError (List (ProbeResult δ)) := do
  let tools := discovered R entries
  let poisoning ← scanManifestT4 R tools
  let secrets ← scanManifestT5 R piiStrict tools
  let schemas ← scanManifestT3Schema R tools
  return poisoning ++ scanManifestT9 R tools ++ secrets ++ scanManifestT6 R tools ++ schemas ++
    scanManifestT11 R toolAllowlist tools

end Scans

end CosaiMcp.Scan
