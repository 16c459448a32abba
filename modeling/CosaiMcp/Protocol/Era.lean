import CosaiMcp.Protocol.Wire
import CosaiMcp.Py.Equality
import CosaiMcp.Py.Value

/-!
# Protocol eras

`classifyDiscoverResponse` tells from the reply to `server/discover` whether a server is of the modern
era or of the legacy one.
-/

namespace CosaiMcp.Protocol

open Py

inductive ProtocolEra where
  | auto
  | modern
  | legacy
deriving DecidableEq

def ProtocolEra.value : ProtocolEra → Str
  | .auto => lit "auto"
  | .modern => lit "modern"
  | .legacy => lit "legacy"

inductive EraDetection where
  | modern
  | legacy
  | modernIncompatible
  | modernError
  | undetermined
deriving DecidableEq

def EraDetection.value : EraDetection → Str
  | .modern => lit "modern"
  | .legacy => lit "legacy"
  | .modernIncompatible => lit "modern_incompatible"
  | .modernError => lit "modern_error"
  | .undetermined => lit "undetermined"

def errMissingClientCapability : Int := -32021

section Classify

variable {φ : Type} [PyFloat φ]

/-- `any(v in versions for v in supported)`; `none` where a value that is looked at has no hash. -/
def anyIn (versions : List Str) : List (Json φ) → Option Bool
  | [] => some false
  | v :: vs =>
    if !v.hashable then none
    else if versions.any fun version => v.asStr? = some version then some true
    else anyIn versions vs

def classifyVersions (supported : Json φ) : Option EraDetection :=
  match supported with
  | .arr vs => do
    if ← anyIn modernVersions vs then return .modern
    else if ← anyIn legacyVersions vs then return .legacy
    else return .modernIncompatible
  | _ => some .modernIncompatible

/-- `isinstance(status, int) and (status in (401, 403, 429) or status >= 500)`. -/
def isUndetermined (status : Json φ) : Bool :=
  match status with
  | .int n => n = 401 ∨ n = 403 ∨ n = 429 ∨ 500 ≤ n
  | _ => false

/-- The era of a server that has no list of its versions in the result. -/
def classifyError (response : Json φ) : Option EraDetection :=
  let error := response.getOrNull (lit "error")
  let code := error.getOrNull (lit "code")
  if error.asDict?.isSome ∧ code.pyEq (.int errUnsupportedProtocolVersion) then
    classifyVersions ((error.getOrNull (lit "data")).getOrNull (lit "supported"))
  else if error.asDict?.isSome ∧ (code.pyEq (.int errHeaderMismatch) ∨
      code.pyEq (.int errMissingClientCapability)) then some .modernError
  else if isUndetermined (response.getOrNull (lit "_status_code")) then some .undetermined
  else some .legacy

/-- `none` is a `TypeError`. -/
def classifyDiscoverResponse (response : Json φ) : Option EraDetection :=
  match response with
  | .obj (m :: ms) =>
    match ((Json.obj (m :: ms)).getOrNull (lit "result")).get? (lit "supportedVersions") with
    | some supported => classifyVersions supported
    | none => classifyError (.obj (m :: ms))
  | _ => some .legacy

end Classify

end CosaiMcp.Protocol
