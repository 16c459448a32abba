import CosaiMcp.Catalog.Loader

/-!
# The catalog hash

`catalogHash` digests the canonical view of every loaded threat. A signed report carries it, to be
bound to the catalog that it was made with.
-/

namespace CosaiMcp.Catalog

open Py

variable {φ ρ : Type}

def canonicalAssertion (a : Assertion φ ρ) : Json φ :=
  .obj [(lit "target", .str a.target), (lit "operator", .str a.operator.value),
    (lit "value", a.value.toJson)]

/-- The headers by name, `None` where there are none. -/
def canonicalHeaders : Option (List (Str × Str)) → Json φ
  | none | some [] => .null
  | some headers => .obj (sortMembers (headers.map fun m => (m.1, .str m.2)))

/-- A string, or `None`. -/
def strOrNull : Option Str → Json φ
  | some s => .str s
  | none => .null

def canonicalProbe (p : Probe φ ρ) : Json φ :=
  .obj [(lit "id", .str p.id), (lit "transport", .str p.transport), (lit "method", .str p.method),
    (lit "payload", plain (.proxy p.payload)),
    (lit "assertions", .arr (p.assertions.map canonicalAssertion)),
    (lit "corroboration", .arr (p.corroboration.map canonicalAssertion)),
    (lit "probe_token", strOrNull p.probeToken), (lit "probe_count", p.probeCount),
    (lit "probe_headers", canonicalHeaders p.probeHeaders),
    (lit "protocol_error_is_expected", .bool p.protocolErrorIsExpected)]

def canonicalThreat (t : ThreatDefinition φ ρ) : Json φ :=
  .obj [(lit "schema_version", .str t.schemaVersion), (lit "id", .str t.id),
    (lit "category", .str t.category), (lit "severity", .str t.severity.value),
    (lit "cosai_ref", .str t.cosaiRef), (lit "owasp_ref", .str t.owaspRef),
    (lit "cwe", .arr (t.cwe.map .str)), (lit "probes", .arr (t.probes.map canonicalProbe)),
    (lit "remediation", .str t.remediation), (lit "references", .arr (t.references.map .str)),
    (lit "provenance", .str t.provenance.value), (lit "mode", .str t.mode),
    (lit "confidence", .str t.confidence.value)]

/-- The order of the canonical views: by id, then by provenance. -/
def threatLe (t u : ThreatDefinition φ ρ) : Bool :=
  if t.id = u.id then strLe t.provenance.value u.provenance.value else strLe t.id u.id

def sortThreats (threats : List (ThreatDefinition φ ρ)) : List (ThreatDefinition φ ρ) :=
  threats.mergeSort threatLe

theorem sortThreats_singleton (t : ThreatDefinition φ ρ) : sortThreats [t] = [t] :=
  List.mergeSort_singleton t

/-- The canonical JSON of a catalog. -/
def canonicalCatalog [FloatText φ] (threats : List (ThreatDefinition φ ρ)) : Str :=
  (Json.arr ((sortThreats threats).map canonicalThreat)).canonical

/-- `sha256Hex` digests the ASCII bytes of a text. -/
def catalogHash [FloatText φ] {κ : Type} (sha256Hex : Str → κ)
    (threats : List (ThreatDefinition φ ρ)) : κ := sha256Hex (canonicalCatalog threats)

end CosaiMcp.Catalog
