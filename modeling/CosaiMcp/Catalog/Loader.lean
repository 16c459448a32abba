import CosaiMcp.Catalog.Model
import CosaiMcp.Py.Except

/-!
# Loading threat definitions

`parseThreat` is `_parse_threat` on a document that the meta-schema has let through: where the schema
constrains what is read here, the parser fails with `schema` on a document that breaks the
constraint. What the check for mutable containers finds is found at the value that holds one.
-/

namespace CosaiMcp.Catalog

open Py

inductive LoadError where
  | schema
  | unsafePattern
  | mutableContainer

variable {φ ρ : Type}

/-! ## Reading fields -/

section Fields

/-- `raw[key]`. -/
def field (raw : Json φ) (key : Str) : Except LoadError (Json φ) :=
  match raw.get? key with
  | some v => .ok v
  | none => .error .schema

def asStr (v : Json φ) : Except LoadError Str :=
  match v with
  | .str s => .ok s
  | _ => .error .schema

def asArr (v : Json φ) : Except LoadError (List (Json φ)) :=
  match v with
  | .arr js => .ok js
  | _ => .error .schema

def strField (raw : Json φ) (key : Str) : Except LoadError Str := field raw key >>= asStr

def arrField (raw : Json φ) (key : Str) : Except LoadError (List (Json φ)) := field raw key >>= asArr

/-- A string, or nothing where there is no such field. -/
def optStr (raw : Json φ) (key : Str) : Except LoadError (Option Str) :=
  match raw.get? key with
  | none => .ok none
  | some v => do return some (← asStr v)

/-- The member of an enumeration that has the value `s`. -/
def member {α : Type} (members : List α) (value : α → Str) (s : Str) : Except LoadError α :=
  match members.find? (value · = s) with
  | some a => .ok a
  | none => .error .schema

end Fields

/-! ## Probes -/

section Probe

variable (rt : Runtime φ ρ) (isCustom allowRegexInCustom : Bool)

/-- The pattern of a `matches_regex` assertion. -/
def compilePattern (operator : Operator) (value : Json φ) : Except LoadError (Option ρ) :=
  if operator ≠ .matchesRegex then .ok none
  else if isCustom && !allowRegexInCustom then .error .unsafePattern
  else match rt.compile (rt.str value) with
    | some pattern => .ok (some pattern)
    | none => .error .unsafePattern

def parseAssertion (raw : Json φ) : Except LoadError (Assertion φ ρ) := do
  let operator ← strField raw (lit "operator")
  let some operator := Operator.ofValue? operator | .error .schema
  let value ← field raw (lit "value")
  let compiledPattern ← compilePattern rt isCustom allowRegexInCustom operator value
  let some value := AssertionValue.ofJson? value | .error .mutableContainer
  let target ← strField raw (lit "target")
  return ⟨target, operator, value, compiledPattern⟩

/-- The members of a frozen mapping, and no members of anything else. -/
def proxyMembers (v : Value φ) : List (Str × Value φ) :=
  match v with
  | .proxy ms => ms
  | _ => []

/-- The headers of a probe: none where there are none to send. -/
def parseHeaders (raw : Json φ) : Except LoadError (Option (List (Str × Str))) :=
  match raw.get? (lit "probe_headers") with
  | none | some (.obj []) => .ok none
  | some (.obj ms) => do return some (← ms.mapM fun m => do return (m.1, ← asStr m.2))
  | some _ => .error .schema

/-- Corroboration assertions are parsed as the assertions are. -/
def parseCorroboration (raw : Json φ) : Except LoadError (List (Assertion φ ρ)) :=
  match raw.get? (lit "corroboration") with
  | none => .ok []
  | some v => do (← asArr v).mapM (parseAssertion rt isCustom allowRegexInCustom)

/-- An integer, which may be written as a float. -/
def parseCount (raw : Json φ) : Except LoadError (Json φ) :=
  match raw.get? (lit "probe_count") with
  | none => .ok (.int 1)
  | some (.int n) => .ok (.int n)
  | some (.float x) => .ok (.float x)
  | some _ => .error .schema

def parseEra (raw : Json φ) : Except LoadError (Option Str) := do
  let era ← optStr raw (lit "requires_protocol_era")
  if era = none ∨ era = some (lit "modern") ∨ era = some (lit "legacy") then return era
  else .error .schema

def parseProbe [PyFloat φ] (raw : Json φ) : Except LoadError (Probe φ ρ) := do
  let assertions ← (← arrField raw (lit "assertions")).mapM
    (parseAssertion rt isCustom allowRegexInCustom)
  let payload ← field raw (lit "payload")
  let probeHeaders ← parseHeaders raw
  let corroboration ← parseCorroboration rt isCustom allowRegexInCustom raw
  let id ← strField raw (lit "id")
  let transport ← strField raw (lit "transport")
  let method ← strField raw (lit "method")
  let probeToken ← optStr raw (lit "probe_token")
  let probeCount ← parseCount raw
  let requiresProtocolEra ← parseEra raw
  return ⟨id, transport, method, proxyMembers (makeMappingProxy payload), assertions, probeToken,
    probeCount, probeHeaders, corroboration,
    ((raw.get? (lit "protocol_error_is_expected")).getD (.bool false)).truthy, requiresProtocolEra⟩

/-! ## Threats -/

def Severity.value : Severity → Str
  | .critical => lit "critical"
  | .high => lit "high"
  | .medium => lit "medium"
  | .low => lit "low"
  | .info => lit "info"

def Provenance.value : Provenance → Str
  | .official => lit "official"
  | .custom => lit "custom"

def Confidence.value : Confidence → Str
  | .low => lit "low"
  | .medium => lit "medium"
  | .high => lit "high"

def parseThreat [PyFloat φ] (provenance : Provenance) (data : Json φ) :
    Except LoadError (ThreatDefinition φ ρ) := do
  let probes ← (← arrField data (lit "probes")).mapM (parseProbe rt isCustom allowRegexInCustom)
  let schemaVersion ← strField data (lit "schema_version")
  let id ← strField data (lit "id")
  let category ← strField data (lit "category")
  let severity ← strField data (lit "severity")
  let severity ← member [.critical, .high, .medium, .low, .info] Severity.value severity
  let cosaiRef ← strField data (lit "cosai_ref")
  let owaspRef ← strField data (lit "owasp_ref")
  let cwe ← (← arrField data (lit "cwe")).mapM asStr
  let remediation ← strField data (lit "remediation")
  let references ← (← arrField data (lit "references")).mapM asStr
  let mode ← optStr data (lit "mode")
  let confidence ← optStr data (lit "confidence")
  let confidence ← member [.low, .medium, .high] Confidence.value (confidence.getD (lit "medium"))
  return ⟨schemaVersion, id, category, severity, cosaiRef, owaspRef, cwe, probes, remediation,
    references, provenance, mode.getD (lit "read-only"), confidence⟩

end Probe

end CosaiMcp.Catalog
