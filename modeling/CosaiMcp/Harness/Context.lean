import CosaiMcp.Catalog.Template
import CosaiMcp.Harness.Assertions
import CosaiMcp.Protocol.Era

/-!
# Executing a probe

`executeProbe` is what `ProbeContext.execute_probe` does on a session: either it has a result at once,
or it sends one request and judges the reply (`Execution`). A reason for being inconclusive is kept
as what its text quotes.
-/

namespace CosaiMcp.Harness

open Py Catalog Protocol

variable {φ ρ : Type}

/-! ## Results -/

/-- Why a test could not run. -/
inductive Reason (φ : Type) where
  | noToken (probeToken : Str)
  | targetIsLegacy
  | era (required session : Str)
  | schemaMismatch (snippet : Str)
  | protocolError (code : Json φ) (message : Str)
  | uncorroborated (missing : List AssertionResult)

inductive Fault where
  | template (e : TemplateError)
  | transport (text : Str)

structure ProbeResult (φ : Type) where
  probeId : Str
  threatId : Str
  passed : Bool
  assertions : List AssertionResult
  statusCode : Json φ
  error : Option Fault
  inconclusiveReason : Option (Reason φ)

/-- A result without a response. -/
def makeProbeResult (probe : Probe φ ρ) (threatId : Str) (error : Option Fault)
    (reason : Option (Reason φ)) : ProbeResult φ :=
  ⟨probe.id, threatId, false, [], .null, error, reason⟩

/-! ## Responses that say nothing about the control -/

def schemaMismatchKeywords : List Str :=
  [lit "unknown argument", lit "unexpected argument", lit "extra argument", lit "invalid argument",
    lit "unrecognized argument", lit "required field", lit "required argument",
    lit "missing field", lit "missing required", lit "field required", lit "does not accept",
    lit "not accepted", lit "not allowed", lit "not a valid", lit "type error",
    lit "validation error", lit "validation failed", lit "invalid input", lit "unrecognized key",
    lit "schema", lit "unknown tool", lit "tool not found", lit "no such tool"]

/-- The texts of a content array, or the content if that is a text. -/
def contentTexts (content : Json φ) : List Str :=
  match content with
  | .arr items => items.filterMap fun item => (item.get? (lit "text")).bind Json.asStr?
  | .str s => [s]
  | _ => []

def detectSchemaMismatch [PyFloat φ] (U : UnicodeData) (response : Json φ) : Option (Reason φ) :=
  match (response.get? (lit "result")).getD (.obj []) with
  | .obj ms =>
    if !((Json.obj ms).getOrNull (lit "isError")).truthy then none
    else
      let text := (lit " ").intercalate
        (contentTexts (((Json.obj ms).get? (lit "content")).getD (.arr [])))
      if schemaMismatchKeywords.any fun kw => decide (kw <:+: U.lower text) then
        some (.schemaMismatch (text.take 200))
      else none
  | _ => none

def protocolValidationCodes : List Int := [-32700, -32600, -32601, -32602, -32020, -32021, -32022]

def requestLevelCodes : List Int := [-32700, -32600]

def probeInspectsErrorCode (probe : Probe φ ρ) : Bool :=
  probe.assertions.any (·.target = lit "response.error_code")

/-- `code in codes` of a hashable value. -/
def codeIn [PyFloat φ] (code : Json φ) (codes : List Int) : Bool :=
  codes.any fun n => code.pyEq (.int n)

def detectProtocolError [PyFloat φ] (rt : Runtime φ ρ) (response : Json φ) (probe : Probe φ ρ) :
    Except Raised (Option (Reason φ)) :=
  if probeInspectsErrorCode probe then .ok none
  else match response.getOrNull (lit "error") with
    | .obj ms =>
      let code := (Json.obj ms).getOrNull (lit "code")
      if !code.hashable then .error .typeError
      else if !codeIn code protocolValidationCodes then .ok none
      else if probe.protocolErrorIsExpected && codeIn code requestLevelCodes then .ok none
      else
        let message := ((Json.obj ms).get? (lit "message")).getD (.str [])
        .ok (some (.protocolError code ((rt.str message).take 200)))
    | _ => .ok none

/-! ## Judging a reply -/

/-- `d[key] = v`. -/
def setMember (d : Json φ) (key : Str) (v : Json φ) : Json φ :=
  match d with
  | .obj ms =>
    if ms.any (·.1 = key) then .obj (ms.map fun m => if m.1 = key then (key, v) else m)
    else .obj (ms ++ [(key, v)])
  | d => d

theorem get?_setMember_of_ne {d : Json φ} {key k : Str} {v : Json φ} (h : key ≠ k) :
    (setMember d key v).get? k = d.get? k := by
  cases d with
  | obj ms =>
    rw [setMember]
    by_cases hany : ms.any (·.1 = key) = true
    · rw [if_pos hany]
      clear hany
      induction ms with
      | nil => rfl
      | cons m ms ih =>
        rw [List.map_cons]
        by_cases hm : m.1 = key
        · rw [if_pos hm, Json.get?_cons, if_neg h, ih, Json.get?_cons, if_neg (hm ▸ h)]
        · rw [if_neg hm, Json.get?_cons, ih, Json.get?_cons]
    · rw [if_neg hany, Json.get?, Json.get?, List.find?_append,
        List.find?_cons_of_neg (by simpa using h), List.find?_nil, Option.or_none]
  | _ => rfl

/-- An element of a list that `dict` is called on: nothing where the key is no string, as no such
key is looked up. -/
def dictItem : Json φ → Except Raised (Option (Str × Json φ))
  | .arr [.str k, v] => .ok (some (k, v))
  | .arr [k, _] => if k.hashable then .ok none else .error .typeError
  | .str [a, b] => .ok (some ([a], .str [b]))
  | .obj [m, n] => .ok (some (m.1, .str n.1))
  | .arr _ | .str _ | .obj _ => .error .valueError
  | _ => .error .typeError

/-- `dict(response)`, after the look for `result` and `error` in it. -/
def asDict (response : Json φ) : Except Raised (Json φ) :=
  match response with
  | .obj ms => .ok (.obj ms)
  | .arr items =>
    if items.any fun item => item.asStr? = some (lit "result") ∨ item.asStr? = some (lit "error")
    then .error .typeError
    else do return .obj (dictOf ((← items.mapM dictItem).filterMap id))
  | .str s =>
    if lit "result" <:+: s ∨ lit "error" <:+: s then .error .typeError
    else if s = [] then .ok (.obj [])
    else .error .valueError
  | _ => .error .typeError

/-- The response with its canonical body. -/
def withBody (rt : Runtime φ ρ) (response : Json φ) : Json φ :=
  let parts := [lit "result", lit "error"].filterMap fun key =>
    (response.get? key).map rt.dumps
  setMember response (lit "_body") (.str ((lit " ").intercalate parts))

/-- What is missing of the corroboration of a finding. -/
def corroborate [PyFloat φ] (rt : Runtime φ ρ) (probe : Probe φ ρ) (response : Json φ) :
    Except Raised (Option (Reason φ)) := do
  let results ← probe.corroboration.mapM (evaluateAssertion rt · response)
  if results.all (·.passed) then return none
  else return some (.uncorroborated (results.filter (!·.passed)))

def judge [PyFloat φ] (rt : Runtime φ ρ) (probe : Probe φ ρ) (threatId : Str)
    (reply : Except Str (Json φ)) : Except Raised (ProbeResult φ) :=
  match reply with
  | .error text => .ok (makeProbeResult probe threatId (some (.transport text)) none)
  | .ok response => do
    let response := withBody rt (← asDict response)
    let results ← probe.assertions.mapM (evaluateAssertion rt · response)
    let passed := results.all (·.passed)
    let reason ← match detectSchemaMismatch rt.unicode response with
      | some reason => pure (some reason)
      | none => detectProtocolError rt response probe
    let reason ← if !passed && !probe.corroboration.isEmpty && reason.isNone then
        corroborate rt probe response
      else pure reason
    return ⟨probe.id, threatId, passed && reason.isNone, results,
      response.getOrNull (lit "_status_code"), none, reason⟩

/-! ## Sending -/

/-- A call of `send_raw` on the session. -/
structure Request (φ : Type) where
  method : Str
  payload : Json φ
  overrideHeaders : Option (List (Str × Str))

/-- `_dispatch`: a tool call without `_meta` is made of its name and arguments only. -/
def dispatch (rt : Runtime φ ρ) (method : Str) (payload : Json φ)
    (overrideHeaders : Option (List (Str × Str))) : Request φ :=
  if method = lit "tools/call" ∧ payload.get? (lit "_meta") = none then
    let name := rt.str ((payload.get? (lit "name")).getD (.str []))
    let arguments := match payload.get? (lit "arguments") with
      | some (.obj ms) => .obj ms
      | _ => .obj []
    ⟨method, .obj [(lit "name", .str name), (lit "arguments", arguments)], overrideHeaders⟩
  else ⟨method, payload, overrideHeaders⟩

inductive Execution (φ : Type) where
  | done (result : ProbeResult φ)
  | sends (request : Request φ) (judge : Except Str (Json φ) → Except Raised (ProbeResult φ))

/-- `vars_.setdefault(key, value)`. -/
def setDefault (vars : Dict Str Str) (key value : Str) : Dict Str Str :=
  if (vars.get? key).isSome then vars else vars.set key value

/-- The variables of the payload. -/
def probeVariables (targetUrl : Str) (vars : Dict Str Str) : Dict Str Str :=
  setDefault (setDefault (setDefault vars (lit "target_url") targetUrl) (lit "session_id") [])
    (lit "tool_name") []

def executeProbe [PyFloat φ] (rt : Runtime φ ρ) (era : ProtocolEra) (targetUrl : Str)
    (vars : Dict Str Str) (probe : Probe φ ρ) (threatId : Str) : Execution φ :=
  match probe.requiresProtocolEra with
  | some required =>
    if era.value ≠ required then
      .done (makeProbeResult probe threatId none (some (.era required era.value)))
    else execute
  | none => execute
where
  execute : Execution φ :=
    match substituteProbePayload (probeVariables targetUrl vars)
        (toJsonSafe (.proxy probe.payload)) with
    | .error e => .done (makeProbeResult probe threatId (some (.template e)) none)
    | .ok payload =>
      .sends (dispatch rt probe.method payload probe.probeHeaders) (judge rt probe threatId)

end CosaiMcp.Harness
