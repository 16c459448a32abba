import CosaiMcp.Py.Container
import CosaiMcp.Py.Equality
import CosaiMcp.Py.Value

/-!
# The threat catalog

The data model of the catalog. An assertion's value holds no container that can be changed, as the
loader checks: it is a scalar, or a tuple of scalars. What the language and the regular-expression
library do with values and patterns is a parameter (`Runtime`), with `ρ` for a compiled pattern.
-/

namespace CosaiMcp.Catalog

open Py

structure Runtime (φ ρ : Type) where
  /-- `str(v)`. -/
  str : Json φ → Str
  /-- `str` of a tuple. -/
  strTuple : List (Json φ) → Str
  /-- `json.dumps(v, ensure_ascii=False)`. -/
  dumps : Json φ → Str
  /-- `re2.compile`, `none` where it raises. -/
  compile : Str → Option ρ
  /-- `bool(pattern.search(text))`, `false` where it raises. -/
  search : ρ → Str → Bool
  unicode : UnicodeData
  str_str : ∀ s, str (.str s) = s

inductive Operator where
  | eq
  | ne
  | contains
  | notContains
  | matchesRegex
  | statusIn
  | errorCodeIn
deriving DecidableEq

def Operator.value : Operator → Str
  | .eq => lit "eq"
  | .ne => lit "ne"
  | .contains => lit "contains"
  | .notContains => lit "not_contains"
  | .matchesRegex => lit "matches_regex"
  | .statusIn => lit "status_in"
  | .errorCodeIn => lit "error_code_in"

/-- `Operator(s)`. -/
def Operator.ofValue? (s : Str) : Option Operator :=
  [.eq, .ne, .contains, .notContains, .matchesRegex, .statusIn, .errorCodeIn].find? (·.value = s)

theorem Operator.ofValue?_value (op : Operator) : Operator.ofValue? op.value = some op := by
  cases op <;> rfl

variable {φ ρ : Type}

inductive AssertionValue (φ : Type) where
  | scalar (j : Json φ) (h : j.hashable = true)
  | tuple (js : List (Json φ)) (h : ∀ j ∈ js, j.hashable = true)

/-- `tuple(v)` of a list, and any other value itself; `none` if that holds a list or a mapping. -/
def AssertionValue.ofJson? (j : Json φ) : Option (AssertionValue φ) :=
  if h : j.hashable = true then some (.scalar j h)
  else match j with
    | .arr js => if h : ∀ j ∈ js, j.hashable = true then some (.tuple js h) else none
    | _ => none

/-- `list(v)` of a tuple, and any other value itself. -/
def AssertionValue.toJson : AssertionValue φ → Json φ
  | .scalar j _ => j
  | .tuple js _ => .arr js

theorem AssertionValue.ofJson?_toJson (v : AssertionValue φ) : ofJson? v.toJson = some v := by
  cases v with
  | scalar j h => exact dif_pos h
  | tuple js h => exact dif_pos h

theorem AssertionValue.toJson_of_ofJson? {j : Json φ} {v : AssertionValue φ}
    (h : ofJson? j = some v) : v.toJson = j := by
  unfold ofJson? at h
  split at h
  · cases h
    rfl
  · split at h
    · split at h
      · cases h
        rfl
      · cases h
    · cases h

structure Assertion (φ ρ : Type) where
  target : Str
  operator : Operator
  value : AssertionValue φ
  compiledPattern : Option ρ

structure Probe (φ ρ : Type) where
  id : Str
  transport : Str
  method : Str
  payload : List (Str × Value φ)
  assertions : List (Assertion φ ρ)
  probeToken : Option Str
  probeCount : Json φ
  probeHeaders : Option (List (Str × Str))
  corroboration : List (Assertion φ ρ)
  protocolErrorIsExpected : Bool
  requiresProtocolEra : Option Str

inductive Severity where
  | critical
  | high
  | medium
  | low
  | info

inductive Provenance where
  | official
  | custom

inductive Confidence where
  | low
  | medium
  | high

structure ThreatDefinition (φ ρ : Type) where
  schemaVersion : Str
  id : Str
  category : Str
  severity : Severity
  cosaiRef : Str
  owaspRef : Str
  cwe : List Str
  probes : List (Probe φ ρ)
  remediation : Str
  references : List Str
  provenance : Provenance
  mode : Str
  confidence : Confidence

end CosaiMcp.Catalog
