import CosaiMcp.Session.Lifecycle
import CosaiMcp.Stateful.Detectors

/-!
# Running a scenario

`runAsync` is `StatefulHarness._run_async` on what a server does: whether the connection succeeds,
the replies of the handshake, and the answer to each step, an object or an exception.
-/

namespace CosaiMcp.Stateful

open Py Protocol Session

variable {φ : Type}

structure Server (φ : Type) where
  connect : Except Exn Unit
  handshake : Handshake φ
  answer : Nat → Except Exn (Dict Str (Json φ))

variable [PyFloat φ] (str repr : Json φ → Str)

def resultOf (scenario : Scenario φ) (status : Status) (passed : Bool)
    (stepResults : List (StepResult φ)) (reason : Option Str) : ScenarioResult φ :=
  ⟨scenario.id, scenario.name, scenario.threatCategories, status, passed, stepResults, reason⟩

/-! ## The tools that a scenario needs -/

/-- `t.get("name", "")`, for a set. -/
def toolName (tool : Json φ) : Except PyError (Json φ) := do
  let name ← getDefault tool (lit "name") (.str [])
  if name.hashable then return name else .error .typeError

def availableTools (manifest : Json φ) : Except PyError (List (Json φ)) := do
  (← iterate manifest).mapM toolName

/-- The name that a step calls a tool by, if it is not false. -/
def calledTool (step : ScenarioStep φ) : Option (Json φ) :=
  if step.action.method = lit "tools/call" then
    (step.action.params.get? (lit "name")).filter Json.truthy
  else none

def requiredTools (scenario : Scenario φ) : Except PyError (List (Json φ)) :=
  (scenario.steps.filterMap calledTool).mapM fun name =>
    if name.hashable then .ok name else .error .typeError

def asText : Json φ → Except PyError Str
  | .str s => .ok s
  | _ => .error .typeError

/-- `', '.join(sorted(missing))`. -/
def joinSorted (missing : List (Json φ)) : Except PyError Str := do
  let texts ← missing.mapM asText
  return (lit ", ").intercalate (sortedTexts texts)

/-- The tools that the server does not have, if it has any. -/
def missingTools (scenario : Scenario φ) (manifest : Json φ) :
    Except PyError (List (Json φ)) := do
  let available ← availableTools manifest
  if available = [] then return []
  else return (← requiredTools scenario).filter fun name => !isElement name available

def missingReason (missing : Str) : Str :=
  lit "Scenario requires tool(s) not present on this server: " ++ missing ++
    lit ". The scenario tests a generic vulnerability pattern using placeholder tool names. " ++
    lit "To test this scenario, configure method_overrides to map them to equivalent tools on " ++
    lit "this server."

/-! ## Steps -/

/-- `_run_step`. -/
def runStep (index : Nat) (step : ScenarioStep φ) (answer : Except Exn (Dict Str (Json φ))) :
    Except PyError (StepResult φ) :=
  match answer with
  | .error e => .ok ⟨index, step.description, false, none, [], some e.text⟩
  | .ok response => do
    let verdicts ← step.assertions.mapM (evaluateAssertion repr (.obj response.items))
    let failures := verdicts.filterMap id
    return ⟨index, step.description, failures.isEmpty, some (.obj response.items), failures, none⟩

/-- The steps from an index on, and whether all were answered. -/
def runSteps (answer : Nat → Except Exn (Dict Str (Json φ))) :
    Nat → List (ScenarioStep φ) → Except PyError (List (StepResult φ) × Bool)
  | _, [] => .ok ([], true)
  | index, step :: steps => do
    let result ← runStep repr index step (answer index)
    if result.error.isSome then return ([result], false)
    else
      let (results, done) ← runSteps answer (index + 1) steps
      return (result :: results, done)

def unsupportedReason (step : Str) : Str :=
  lit "Scenario step " ++ step ++ lit " returned a JSON-RPC method-not-found/invalid-request " ++
    lit "error: the server does not implement the non-standard method this scenario depends on. " ++
    lit "The security property could not be evaluated — configure method_overrides to map it to " ++
    lit "this server's equivalent. INCONCLUSIVE, not a finding."

/-- What is made of the results of all steps. -/
def conclude (scenario : Scenario φ) (stepResults : List (StepResult φ)) :
    Except PyError (ScenarioResult φ) := do
  let pairs := scenario.steps.zip stepResults
  match ← scenarioMethodNotFound pairs with
  | some step =>
    return resultOf scenario .inconclusive false stepResults (some (unsupportedReason step))
  | none =>
    let drift := (detectManifestDrift str repr pairs stepResults.length).toList
    let stepResults := stepResults ++ drift
    let loop := if scenario.loopBudgetCheck then
        (detectUnboundedToolLoop (scenario.steps.zip stepResults) stepResults.length).toList
      else []
    let stepResults := stepResults ++ loop
    return resultOf scenario .complete (stepResults.all StepResult.passed) stepResults none

/-- What follows the handshake. -/
def runSession (scenario : Scenario φ) (manifest : Json φ)
    (answer : Nat → Except Exn (Dict Str (Json φ))) : Except PyError (ScenarioResult φ) := do
  let missing ← missingTools scenario manifest
  if missing ≠ [] then
    let names ← joinSorted missing
    return resultOf scenario .inconclusive false [] (some (missingReason names))
  else
    let (stepResults, done) ← runSteps repr answer 0 scenario.steps
    if !done then return resultOf scenario .scanIncomplete false stepResults none
    else conclude str repr scenario stepResults

/-! ## The run -/

/-- `MCPSession.close`. -/
def close (s : SessionState φ) : SessionState φ := { s with status := .closed }

/-- `_run_async`: what it returns or raises, and the session that it leaves, if it made one. -/
def runAsync (requested : ProtocolEra) (targetUrl : Str) (overrides : Dict Str Str)
    (scenario : Scenario φ) (server : Server φ) :
    Except PyError (ScenarioResult φ) × Option (SessionState φ) :=
  if scenario.steps = [] then (.ok (resultOf scenario .scanIncomplete false [] none), none)
  else
    let scenario := applyMethodOverrides scenario overrides
    let session := SessionState.new (lit "StreamableHTTPTransport")
    match server.connect with
    | .error _ => (.ok (resultOf scenario .scanIncomplete false [] none), some (close session))
    | .ok () =>
      match startSession requested targetUrl server.handshake session with
      | (.error _, session) =>
        (.ok (resultOf scenario .scanIncomplete false [] none), some (close session))
      | (.ok info, session) =>
        (runSession str repr scenario info.toolManifest server.answer, some (close session))

end CosaiMcp.Stateful
