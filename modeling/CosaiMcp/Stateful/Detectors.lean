import CosaiMcp.Stateful.Scenario

/-!
# Checks after a run

What is looked for in the results of all steps: a method that the server does not have, a list of
tools that changed, and a loop of calls that is never stopped.
-/

namespace CosaiMcp.Stateful

open Py

variable {φ : Type}

/-- Texts without repetitions, in order. -/
def sortedTexts (ss : List Str) : List Str := ss.dedup.mergeSort strLe

/-! ## Methods that are not supported -/

def standardMcpMethods : List Str :=
  [lit "initialize", lit "notifications/initialized", lit "tools/list", lit "tools/call",
    lit "ping", lit "resources/list", lit "resources/read", lit "resources/templates/list",
    lit "prompts/list", lit "prompts/get", lit "completion/complete", lit "logging/setLevel",
    lit "server/discover", lit "subscriptions/listen"]

def unsupportedMethodCodes : List (Json φ) :=
  [.int (-32700), .int (-32600), .int (-32601), .int (-32602)]

/-- The code of an error that is an object. -/
def errorCode? (response : Json φ) : Option (Json φ) :=
  match response.getOrNull (lit "error") with
  | .obj ms => some ((Json.obj ms).getOrNull (lit "code"))
  | _ => none

section Checks

variable [PyFloat φ] (str repr : Json φ → Str)

/-- Whether a code is one of a method that is not supported. -/
def isUnsupported (code : Json φ) : Except PyError Bool :=
  if code.hashable then .ok (isElement code unsupportedMethodCodes) else .error .typeError

/-- `_scenario_method_not_found`. -/
def scenarioMethodNotFound :
    List (ScenarioStep φ × StepResult φ) → Except PyError (Option Str)
  | [] => .ok none
  | (step, result) :: rest =>
    if step.action.method ∈ standardMcpMethods then scenarioMethodNotFound rest
    else
      match result.response.bind errorCode? with
      | none => scenarioMethodNotFound rest
      | some code => do
        if ← isUnsupported code then
          return some (natText result.stepIndex ++ lit " ('" ++ result.description ++
            lit "') via method '" ++ step.action.method ++ lit "'")
        else scenarioMethodNotFound rest

/-! ## Changes of the tools -/

/-- The name of a tool that is an object. -/
def toolText (tool : Json φ) : Option Str :=
  match tool with
  | .obj ms => some (str (((Json.obj ms).get? (lit "name")).getD (.str [])))
  | _ => none

/-- `_manifest_tool_names`. -/
def manifestToolNames (response : Json φ) : Option (List Str) :=
  match (response.getOrNull (lit "result")).getOrNull (lit "tools") with
  | .arr tools => some (tools.filterMap (toolText str)).dedup
  | _ => none

/-- Whether two lists are of the same texts. -/
def sameTexts (a b : List Str) : Bool := a.all (· ∈ b) && b.all (· ∈ a)

def manifestOf (p : ScenarioStep φ × StepResult φ) : Option (Nat × List Str) :=
  if p.1.action.method = lit "tools/list" then
    (p.2.response.bind (manifestToolNames str)).map fun names => (p.2.stepIndex, names)
  else none

def driftDetail (baselineIndex index : Nat) (baseline names : List Str) : Str :=
  let added := sortedTexts (names.filter (· ∉ baseline))
  let removed := sortedTexts (baseline.filter (· ∉ names))
  lit "Tool manifest drifted between tools/list step " ++ natText baselineIndex ++
    lit " and step " ++ natText index ++
    lit " within the same session (no re-initialization). added=" ++
    repr (.arr (added.map .str)) ++ lit " removed=" ++ repr (.arr (removed.map .str)) ++
    lit ". This indicates T6 tool shadowing — a tool was injected, renamed, or withdrawn mid-session."

/-- `_detect_manifest_drift`. -/
def detectManifestDrift (pairs : List (ScenarioStep φ × StepResult φ)) (stepCount : Nat) :
    Option (StepResult φ) :=
  match pairs.filterMap (manifestOf str) with
  | [] => none
  | (baselineIndex, baseline) :: manifests =>
    (manifests.find? fun m => !sameTexts m.2 baseline).map fun m =>
      ⟨stepCount, lit "T6 manifest-drift check", false, none,
        [⟨lit "manifest.tool_names", lit "eq", .arr ((sortedTexts baseline).map .str),
          .arr ((sortedTexts m.2).map .str),
          driftDetail repr baselineIndex m.1 baseline m.2⟩], none⟩

/-! ## Loops of calls -/

/-- The response is an error, of JSON-RPC or of the content. -/
def isRejected (result : StepResult φ) : Bool :=
  match result.response with
  | some response => !(resolvePath response (lit "error")).isNull
  | none => false

def loopDetail (total rejected : Nat) : Str :=
  lit "Server answered all " ++ natText total ++ lit " calls of a repeated tool-invocation loop " ++
    lit "within one session without ever exhausting a call budget (rejected=" ++ natText rejected ++
    lit ", final call accepted). An unbounded recursive/looping tool chain burns the operator's " ++
    lit "wallet — this is the core T10 denial-of-wallet failure. Enforce a per-session call budget " ++
    lit "(max calls per session) and a recursion/loop guard, returning a rate-limit error " ++
    lit "(JSON-RPC -32029) once the budget is exhausted."

/-- `_detect_unbounded_tool_loop`, which is defined twice in the same way. -/
def detectUnboundedToolLoop (pairs : List (ScenarioStep φ × StepResult φ)) (stepCount : Nat) :
    Option (StepResult φ) :=
  let calls := (pairs.filter (·.1.action.method = lit "tools/call")).map Prod.snd
  if calls.length < 2 then none
  else
    match calls.getLast? with
    | none => none
    | some final =>
      if isRejected final then none
      else some ⟨stepCount, lit "T10 call-budget / loop check", false, none,
        [⟨lit "session.call_budget_enforced", lit "eq", .bool true, .bool false,
          loopDetail calls.length (calls.countP isRejected)⟩], none⟩

end Checks

end CosaiMcp.Stateful
