import CosaiMcp.Catalog.Model

/-!
# Assertions on a response

`evaluateAssertion` decides one assertion on a response, which is the JSON-RPC message with what the
transport adds to it under keys that begin with an underscore. Reading a header from something that
is no mapping raises, as nothing catches it.
-/

namespace CosaiMcp.Harness

open Py Catalog

variable {φ ρ : Type}

/-- What is raised and not caught. -/
inductive Raised where
  | attributeError
  | typeError
  | valueError

/-! ## The target -/

/-- `path.split(".")`. -/
def splitDots : Str → List Str
  | [] => [[]]
  | c :: s =>
    if c = 46 then [] :: splitDots s
    else match splitDots s with
      | [] => [[c]]
      | part :: parts => (c :: part) :: parts

/-- The value at the path, `None` where the path leaves the mappings. -/
def walk (current : Json φ) : List Str → Json φ
  | [] => current
  | part :: parts =>
    match current with
    | .obj _ => walk (current.getOrNull part) parts
    | _ => .null

/-- A JSON-RPC error, or an error of the content layer. -/
def responseError [PyFloat φ] (response : Json φ) : Bool :=
  let errorVal := response.getOrNull (lit "error")
  let resultVal := (response.get? (lit "result")).getD (.obj [])
  !(errorVal matches .null | .bool false) ||
    (resultVal matches .obj _) && (resultVal.getOrNull (lit "isError")).truthy

def errorCode (response : Json φ) : Json φ :=
  match response.getOrNull (lit "error") with
  | .obj ms => (Json.obj ms).getOrNull (lit "code")
  | _ => .null

/-- A header by its name as given, else by its lower-case name. -/
def headerValue [PyFloat φ] (rt : Runtime φ ρ) (response : Json φ) (headerName : Str) :
    Except Raised (Json φ) :=
  match (response.get? (lit "_headers")).getD (.obj []) with
  | .obj ms =>
    let asIs := (Json.obj ms).getOrNull headerName
    .ok (if asIs.truthy then asIs else (Json.obj ms).getOrNull (rt.unicode.lower headerName))
  | _ => .error .attributeError

def headerPrefix : Str := lit "response.header."

def extractTarget [PyFloat φ] (rt : Runtime φ ρ) (response : Json φ) (targetPath : Str) :
    Except Raised (Json φ) :=
  if targetPath = lit "response.error" then .ok (.bool (responseError response))
  else if targetPath = lit "response.error_code" then .ok (errorCode response)
  else if targetPath = lit "response.body" then
    .ok ((response.get? (lit "_body")).getD (.str []))
  else if targetPath = lit "response.status_code" then
    .ok (response.getOrNull (lit "_status_code"))
  else if startsWith targetPath headerPrefix then
    headerValue rt response (targetPath.drop headerPrefix.length)
  else .ok (walk response (splitDots targetPath).tail)

/-! ## The operators -/

section Operators

variable [PyFloat φ]

/-- `actual == expected`: a tuple equals no value of a document. -/
def equals (actual : Json φ) : AssertionValue φ → Bool
  | .scalar j _ => actual.pyEq j
  | .tuple _ _ => false

/-- `actual in expected`, `false` where it raises. -/
def isIn (actual : Json φ) : AssertionValue φ → Bool
  | .scalar (.str t) _ =>
    match actual with
    | .str s => decide (s <:+: t)
    | _ => false
  | .scalar _ _ => false
  | .tuple js _ => js.any fun j => actual.isNan && j.isNan || actual.pyEq j

variable (rt : Runtime φ ρ)

/-- `str(expected)`. -/
def expectedText : AssertionValue φ → Str
  | .scalar j _ => rt.str j
  | .tuple js _ => rt.strTuple js

/-- `str(actual if actual is not None else "")`. -/
def actualText (actual : Json φ) : Str :=
  match actual with
  | .null => []
  | v => rt.str v

def holds (assertion : Assertion φ ρ) (response actual : Json φ) : Bool :=
  match assertion.operator with
  | .eq => equals actual assertion.value
  | .ne => !equals actual assertion.value
  | .contains => decide (expectedText rt assertion.value <:+: actualText rt actual)
  | .notContains => !decide (expectedText rt assertion.value <:+: actualText rt actual)
  | .matchesRegex =>
    match assertion.compiledPattern with
    | some pattern => rt.search pattern (actualText rt actual)
    | none => false
  | .statusIn => isIn actual assertion.value
  | .errorCodeIn => actual.isNull && responseError response || isIn actual assertion.value

structure AssertionResult where
  target : Str
  operator : Str
  passed : Bool

def evaluateAssertion (assertion : Assertion φ ρ) (response : Json φ) :
    Except Raised AssertionResult := do
  let actual ← extractTarget rt response assertion.target
  return ⟨assertion.target, assertion.operator.value, holds rt assertion response actual⟩

end Operators

end CosaiMcp.Harness
