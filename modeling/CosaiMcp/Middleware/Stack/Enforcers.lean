import CosaiMcp.Py.Dict
import CosaiMcp.Py.Record
import CosaiMcp.Py.Number

/-!
# The enforcers of the middleware stack

`ParameterValidator` of `middleware/validation.py`, `AuthzEnforcer` of `middleware/authz.py` and
`SupplyChainEnforcer` of `middleware/supply_chain.py`, with what each of them raises. The patterns of
the injection guard, JSON Schema and `html.escape` are parameters. A `frozenset` is a list of its
members in the order of iteration.
-/

namespace CosaiMcp.Middleware.Stack

open Py

variable {φ : Type}

/-! ## Parameters -/

structure ValidationFinding where
  parameter : Str
  issue : Str
  excerpt : Str
deriving DecidableEq

structure ValidationRuntime (φ : Type) where
  /-- `pattern.search(value)` for the pattern of a label, with the escaped excerpt around the
  match. -/
  search : (label : Str) → Str → Option Str
  /-- `Draft7Validator(schema).iter_errors(arguments)`: the path, the validator and the excerpt. -/
  schemaErrors : (schema arguments : List (Str × Json φ)) → List (Str × Str × Str)
  escape : Str → Str

/-- The labels of `_INJECTION_PATTERNS`. -/
def injectionLabels : List Str :=
  [lit "sql_injection", lit "path_traversal", lit "null_byte", lit "shell_metachar",
    lit "template_injection", lit "script_injection", lit "crlf_injection"]

section Guard

variable (rt : ValidationRuntime φ)

/-- The finding of the first pattern that matches. -/
def scanText (path value : Str) : List ValidationFinding :=
  match injectionLabels.findSome? fun label => (rt.search label value).map (label, ·) with
  | some (label, excerpt) => [⟨path, lit "injection:" ++ label, excerpt⟩]
  | none => []

mutual

/-- `InjectionGuard._scan_value`. -/
def scanValue (path : Str) : Json φ → List ValidationFinding
  | .str s => scanText rt path s
  | .obj ms => scanMembers path ms
  | .arr js => scanItems path 0 js
  | .null => []
  | .bool _ => []
  | .int _ => []
  | .float _ => []
  | .nan => []

def scanMembers (path : Str) : List (Str × Json φ) → List ValidationFinding
  | [] => []
  | (k, v) :: ms => scanValue (path ++ lit "." ++ k) v ++ scanMembers path ms

def scanItems (path : Str) : Nat → List (Json φ) → List ValidationFinding
  | _, [] => []
  | i, v :: js => scanValue (path ++ lit "[" ++ natText i ++ lit "]") v ++ scanItems path (i + 1) js

end

end Guard

structure ParameterValidator (φ : Type) where
  schemas : Dict Str (List (Str × Json φ))
  allowUnknownTools : Bool

/-- The schema in strict mode. -/
def strictSchema (schema : List (Str × Json φ)) : List (Str × Json φ) :=
  if lit "properties" ∈ schema.map Prod.fst ∧ lit "additionalProperties" ∉ schema.map Prod.fst then
    schema ++ [(lit "additionalProperties", .bool false)]
  else schema

/-- `validate`: the findings of the `ParameterValidationError`, if there is one. -/
def ParameterValidator.validate (rt : ValidationRuntime φ) (V : ParameterValidator φ)
    (toolName : Str) (arguments : List (Str × Json φ)) : Except (List ValidationFinding) Unit :=
  let findings := scanValue rt (lit "arguments") (.obj arguments)
  match V.schemas.get? toolName with
  | none =>
    if V.allowUnknownTools = false then
      .error (findings ++
        [⟨lit "tool_name", lit "schema_not_registered", rt.escape (toolName.take 120)⟩])
    else if findings = [] then .ok () else .error findings
  | some schema =>
    let findings := findings ++ (rt.schemaErrors (strictSchema schema) arguments).map fun e =>
      ⟨if e.1 = [] then lit "arguments" else e.1, lit "schema_violation:" ++ e.2.1, e.2.2⟩
    if findings = [] then .ok () else .error findings

/-! ## Authorization -/

structure ToolPolicy where
  requiredScopes : List Str
  userOnly : Bool

structure AuthzContext where
  scopes : List Str
  hasUserClaim : Bool

inductive AuthzError where
  | noPolicy (toolName : Str)
  | confusedDeputy (toolName : Str)
  | insufficientScope (toolName : Str) (missing : List Str)
deriving DecidableEq

structure AuthzEnforcer where
  policies : Dict Str ToolPolicy
  allowUnconfigured : Bool

def AuthzEnforcer.check (A : AuthzEnforcer) (toolName : Str) (context : AuthzContext) :
    Except AuthzError Unit :=
  match A.policies.get? toolName with
  | none => if A.allowUnconfigured then .ok () else .error (.noPolicy toolName)
  | some policy =>
    if policy.userOnly = true ∧ context.hasUserClaim = false then .error (.confusedDeputy toolName)
    else
      let missing := policy.requiredScopes.filter fun scope => scope ∉ context.scopes
      if missing = [] then .ok () else .error (.insufficientScope toolName missing)

/-! ## The supply chain -/

/-- The part of the next row of the table right of `left`, for the character `ca`. -/
def levenshteinRow (ca : CodePoint) : (left : Nat) → (prev : List Nat) → Str → List Nat
  | left, diagonal :: above :: prev, cb :: b =>
    let cell := min (min (above + 1) (left + 1)) (diagonal + if ca = cb then 0 else 1)
    cell :: levenshteinRow ca cell (above :: prev) b
  | _, _, _ => []

/-- The last row of the table, from row `i` on. -/
def levenshteinRows (b : Str) : (i : Nat) → (prev : List Nat) → Str → List Nat
  | _, prev, [] => prev
  | i, prev, ca :: a => levenshteinRows b (i + 1) (i :: levenshteinRow ca i prev b) a

def levenshtein (a b : Str) : Nat :=
  if a = b then 0
  else if a = [] then b.length
  else if b = [] then a.length
  else (levenshteinRows b 1 (List.range (b.length + 1)) a).getLastD 0

example : levenshtein (lit "fetc") (lit "fetch") = 1 := by decide

structure AllowlistViolation where
  toolName : Str
  reason : Str
  closestMatch : Str
  distance : Nat
deriving DecidableEq

/-- The first of the names at the least distance, if that is less than 2. -/
def closestMatch (name : Str) (allowlist : List Str) : Nat × Str :=
  allowlist.foldl (fun best allowed =>
    if levenshtein name allowed < best.1 then (levenshtein name allowed, allowed) else best) (2, [])

def violation (name : Str) (allowlist : List Str) : AllowlistViolation :=
  let (distance, closest) := closestMatch name allowlist
  if closest = [] then ⟨name, lit "not_in_allowlist", [], 0⟩
  else ⟨name, lit "typosquat", closest, distance⟩

/-- `str(tool.get("name", ""))`. -/
def toolName (strOf : Json φ → Str) (tool : List (Str × Json φ)) : Str :=
  strOf (((Json.obj tool).get? (lit "name")).getD (.str []))

/-- `AllowlistEnforcer.check_tools`. -/
def allowlistViolations (strOf : Json φ → Str) (allowlist : List Str)
    (tools : List (List (Str × Json φ))) : List AllowlistViolation :=
  if allowlist = [] then []
  else ((tools.map (toolName strOf)).filter fun name => name ∉ allowlist).map fun name =>
    violation name allowlist

structure SupplyChainEnforcer where
  allowlist : List Str

/-- `check_tools`: the violations of the `SupplyChainError`, if there is one. -/
def SupplyChainEnforcer.checkTools (strOf : Json φ → Str) (E : SupplyChainEnforcer)
    (tools : List (List (Str × Json φ))) : Except (List AllowlistViolation) Unit :=
  let violations := allowlistViolations strOf E.allowlist tools
  if violations = [] then .ok () else .error violations

/-- The tools pass exactly if there is no allowlist or all their names are on it. -/
theorem SupplyChainEnforcer.checkTools_eq_ok_iff {strOf : Json φ → Str} {E : SupplyChainEnforcer}
    {tools : List (List (Str × Json φ))} : E.checkTools strOf tools = .ok () ↔
      E.allowlist = [] ∨ ∀ tool ∈ tools, toolName strOf tool ∈ E.allowlist := by
  unfold checkTools allowlistViolations
  dsimp only
  by_cases hempty : E.allowlist = []
  · rw [if_pos hempty, if_pos rfl]
    exact ⟨fun _ => .inl hempty, fun _ => rfl⟩
  · rw [if_neg hempty]
    have hnone : ((tools.map (toolName strOf)).filter fun name => name ∉ E.allowlist).map
        (violation · E.allowlist) = [] ↔ ∀ tool ∈ tools, toolName strOf tool ∈ E.allowlist := by
      simp only [List.map_eq_nil_iff, List.filter_eq_nil_iff, List.forall_mem_map,
        decide_eq_true_eq, not_not]
    rw [← hnone]
    split
    · next h => exact ⟨fun _ => .inr h, fun _ => rfl⟩
    · next h => exact ⟨nofun, fun hor => absurd (hor.resolve_left hempty) h⟩

end CosaiMcp.Middleware.Stack
