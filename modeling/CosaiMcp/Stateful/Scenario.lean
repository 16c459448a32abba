import CosaiMcp.Harness.Assertions
import CosaiMcp.Py.Record

/-!
# Scenarios

A scenario is a list of requests that are sent in one session, with assertions on the responses.
The values of a scenario (parameters and expected values) are those of documents. `str` and `repr`
are parameters.
-/

namespace CosaiMcp.Stateful

open Py

variable {φ : Type}

structure StepAction (φ : Type) where
  method : Str
  params : Dict Str (Json φ)

structure StepAssertion (φ : Type) where
  target : Str
  operator : Str
  expected : Json φ
  message : Str

structure ScenarioStep (φ : Type) where
  description : Str
  action : StepAction φ
  assertions : List (StepAssertion φ)

structure Scenario (φ : Type) where
  id : Str
  name : Str
  threatCategories : List Str
  steps : List (ScenarioStep φ)
  loopBudgetCheck : Bool

structure AssertionFailure (φ : Type) where
  target : Str
  operator : Str
  expected : Json φ
  actual : Json φ
  message : Str

structure StepResult (φ : Type) where
  stepIndex : Nat
  description : Str
  passed : Bool
  response : Option (Json φ)
  failures : List (AssertionFailure φ)
  error : Option Str

inductive Status where
  | complete
  | scanIncomplete
  | inconclusive
deriving DecidableEq

structure ScenarioResult (φ : Type) where
  scenarioId : Str
  scenarioName : Str
  threatCategories : List Str
  status : Status
  passed : Bool
  stepResults : List (StepResult φ)
  inconclusiveReason : Option Str

/-! ## Overrides -/

/-- The tool that a step calls, by the name that the overrides give it. -/
def overrideName (overrides : Dict Str Str) (params : Dict Str (Json φ)) : Dict Str (Json φ) :=
  match params.get? (lit "name") with
  | some (.str toolName) =>
    match overrides.get? toolName with
    | some realName => params.set (lit "name") (.str realName)
    | none => params
  | _ => params

def overrideStep (overrides : Dict Str Str) (step : ScenarioStep φ) : ScenarioStep φ :=
  { step with
    action := ⟨(overrides.get? step.action.method).getD step.action.method,
      overrideName overrides step.action.params⟩ }

/-- `_apply_method_overrides`. -/
def applyMethodOverrides (scenario : Scenario φ) (overrides : Dict Str Str) : Scenario φ :=
  if overrides.items = [] then scenario
  else { scenario with steps := scenario.steps.map (overrideStep overrides) }

/-! ## Assertions -/

section Evaluate

variable [PyFloat φ]

/-- `_resolve_path`. -/
def resolvePath (response : Json φ) (path : Str) : Json φ :=
  if path = lit "error" then
    match response.getOrNull (lit "error") with
    | .null =>
      match response.getOrNull (lit "result") with
      | .obj ms =>
        if ((Json.obj ms).getOrNull (lit "isError")).truthy then .obj [(lit "isError", .bool true)]
        else .null
      | _ => .null
    | error => error
  else Harness.walk response (Harness.splitDots path)

/-- `v in js`. -/
def isElement (v : Json φ) (js : List (Json φ)) : Bool :=
  js.any fun j => v.isNan && j.isNan || v.pyEq j

/-- `expected in actual`, of a text or a list. -/
def contains (actual expected : Json φ) : Except PyError (Option Bool) :=
  match actual, expected with
  | .str s, .str t => .ok (some (decide (t <:+: s)))
  | .str _, _ => .error .typeError
  | .arr js, v => .ok (some (isElement v js))
  | _, _ => .ok none

/-- `len(v)`, if it has one. -/
def size? : Json φ → Option Nat
  | .str s => some s.length
  | .arr js => some js.length
  | .obj ms => some ms.length
  | _ => none

/-- `n > v`. -/
def isOver (n : Int) : Json φ → Except PyError Bool
  | .bool b => .ok (decide ((if b then 1 else 0) < n))
  | .int m => .ok (decide (m < n))
  | .float x => .ok (!PyFloat.intLe n x)
  | .nan => .ok false
  | _ => .error .typeError

inductive Operator where
  | eq
  | ne
  | contains
  | notContains
  | isNone
  | isNotNone
  | lenEq
  | lenGt
deriving DecidableEq

def Operator.ofName? (name : Str) : Option Operator :=
  if name = lit "eq" then some .eq
  else if name = lit "ne" then some .ne
  else if name = lit "contains" then some .contains
  else if name = lit "not_contains" then some .notContains
  else if name = lit "is_none" then some .isNone
  else if name = lit "is_not_none" then some .isNotNone
  else if name = lit "len_eq" then some .lenEq
  else if name = lit "len_gt" then some .lenGt
  else none

def passes (operator : Option Operator) (actual expected : Json φ) : Except PyError Bool :=
  match operator with
  | some .eq => .ok (actual.pyEq expected)
  | some .ne => .ok (!actual.pyEq expected)
  | some .contains => return (← contains actual expected).getD false
  | some .notContains => return ((← contains actual expected).map not).getD false
  | some .isNone => .ok actual.isNull
  | some .isNotNone => .ok (!actual.isNull)
  | some .lenEq =>
    match size? actual with
    | some n => .ok (intEq n expected)
    | none => .ok false
  | some .lenGt =>
    match size? actual with
    | some n => isOver n expected
    | none => .ok false
  | none => .ok false

/-- `_evaluate_assertion`. -/
def evaluateAssertion (repr : Json φ → Str) (response : Json φ) (assertion : StepAssertion φ) :
    Except PyError (Option (AssertionFailure φ)) :=
  if assertion.target = [] then
    .ok (some ⟨assertion.target, assertion.operator, assertion.expected, .null,
      lit "assertion target must not be empty"⟩)
  else do
    let actual := resolvePath response assertion.target
    let passed ← passes (Operator.ofName? assertion.operator) actual assertion.expected
    let message := if assertion.message ≠ [] then assertion.message else
      assertion.target ++ lit " " ++ assertion.operator ++ lit " " ++ repr assertion.expected ++
        lit ": got " ++ repr actual
    return if passed then none
      else some ⟨assertion.target, assertion.operator, assertion.expected, actual, message⟩

end Evaluate

end CosaiMcp.Stateful
