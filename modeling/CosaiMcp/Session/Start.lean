import CosaiMcp.Catalog.Model
import CosaiMcp.Protocol.Era

/-!
# The handshake of a session

`start` is `MCPSession.start` on the replies of a server: each request of the handshake is sent once
at most, so that one reply for each of them is all that a server does (`Handshake`). A notification
cannot fail the handshake, and is left out. A `SessionIncompleteError` is kept as what its message
quotes (`Incomplete`).
-/

namespace CosaiMcp.Session

open Py Protocol

variable {φ : Type}

/-- An exception of a transport. -/
structure Exn where
  typeName : Str
  text : Str

structure Handshake (φ : Type) where
  discover : Except Exn (Json φ)
  init : Except Exn (Json φ)
  /-- Closing the connection and opening one of the transport of 2024-11-05. -/
  reconnect : Except Exn Unit
  reinit : Except Exn (Json φ)
  toolsList : Except Exn (Json φ)

inductive Failure (φ : Type) where
  | toolsListFailed (e : Exn)
  | toolsListError (error : Json φ)
  | toolsListNotComplete (resultType : Json φ)
  | initializeFailed (e : Exn)
  | initializeRejected (error : Json φ)
  | initializeNoResult
  | legacySseFailed (e : Exn)
  | legacySseRejected (error : Json φ)

/-- A `SessionIncompleteError`. -/
inductive Incomplete (φ : Type) where
  | discover (detection : EraDetection) (response : Json φ)
  | failed (failure : Failure φ)
  | failedAfter (failure : Failure φ) (response : Json φ)

inductive StartError (φ : Type) where
  | incomplete (e : Incomplete φ)
  /-- Any other exception. -/
  | raised

/-! ## Messages -/

section Message

variable [PyFloat φ] (str repr : Json φ → Str)

def Failure.message : Failure φ → Str
  | .toolsListFailed e => lit "tools/list failed: " ++ e.text
  | .toolsListError error => lit "Server returned error on tools/list: " ++ str error
  | .toolsListNotComplete resultType =>
    lit "tools/list returned non-complete resultType " ++ repr resultType
  | .initializeFailed e => lit "initialize request failed: " ++ e.text
  | .initializeRejected error => lit "Server rejected initialize: " ++ str error
  | .initializeNoResult => lit "initialize response missing 'result' field"
  | .legacySseFailed e => lit "initialize on LegacySSETransport failed: " ++ e.text
  | .legacySseRejected error =>
    lit "Server rejected initialize on LegacySSETransport: " ++ str error

/-- `s.split(":", 1)[0]`. -/
def beforeColon (s : Str) : Str := s.takeWhile (· ≠ 58)

/-- `_summarize`. -/
def summarize (response : Json φ) : Str :=
  let status := match response.getOrNull (lit "_status_code") with
    | .int n => [lit "HTTP " ++ intText n]
    | .bool b => [lit "HTTP " ++ str (.bool b)]
    | _ => []
  let error := if (response.get? (lit "error")).isSome then [lit "JSON-RPC error"] else []
  let exception := match response.get? (lit "exception") with
    | some e => [(beforeColon (str e)).take 60]
    | none => []
  let parts := status ++ error ++ exception
  let result := if (response.get? (lit "result")).isSome ∧ parts = [] then [lit "DiscoverResult"]
    else []
  let summary := (lit "; ").intercalate (parts ++ result)
  if summary = [] then lit "empty response" else summary

def Incomplete.message : Incomplete φ → Str
  | .discover detection response =>
    lit "server/discover did not establish a " ++ modernProtocolVersion ++ lit " session (" ++
      detection.value ++ lit "): " ++ summarize str response
  | .failed failure => failure.message str repr
  | .failedAfter failure response =>
    failure.message str repr ++ lit " [server/discover: " ++ summarize str response ++ lit "]"

end Message

/-! ## Starting -/

section Start

variable [PyFloat φ]

/-- What the session keeps of `server/discover`. -/
structure Discovered (φ : Type) where
  authRejected : Bool
  detection : Option EraDetection
  errorCode : Json φ

def notDiscovered : Discovered φ := ⟨false, none, .null⟩

/-- `v in (401, 403)`. -/
def isAuthStatus (v : Json φ) : Bool := v.pyEq (.int 401) || v.pyEq (.int 403)

def discoveredOf (detection : EraDetection) (response : Json φ) : Discovered φ :=
  ⟨isAuthStatus (response.getOrNull (lit "_status_code")), some detection,
    (response.getOrNull (lit "error")).getOrNull (lit "code")⟩

/-- `_probe_modern`; `none` is a `TypeError`. -/
def probeModern (discover : Except Exn (Json φ)) : Option (EraDetection × Json φ) :=
  match discover with
  | .error e => some (.undetermined, .obj [(lit "exception", .str (e.typeName ++ lit ": " ++ e.text))])
  | .ok response => (classifyDiscoverResponse response).map (·, response)

/-- `response.get("result", {})`, that has to be a dictionary. -/
def resultOf (response : Json φ) : Except (StartError φ) (Json φ) :=
  match (response.get? (lit "result")).getD (.obj []) with
  | .obj ms => .ok (.obj ms)
  | _ => .error .raised

/-- A reply without an error. What is no dictionary has no member `error`, or none that a string
gives access to, and no `get`. -/
def accepted (reply : Except Exn (Json φ)) (onException : Exn → Failure φ)
    (onError : Json φ → Failure φ) : Except (StartError φ) (Json φ) :=
  match reply with
  | .error e => .error (.incomplete (.failed (onException e)))
  | .ok (.obj ms) =>
    match (Json.obj ms).get? (lit "error") with
    | some error => .error (.incomplete (.failed (onError error)))
    | none => .ok (.obj ms)
  | .ok _ => .error .raised

/-- `tools/list` of either era, and the result of it. -/
def listTools (server : Handshake φ) : Except (StartError φ) (Json φ) := do
  resultOf (← accepted server.toolsList .toolsListFailed .toolsListError)

def startModern (server : Handshake φ) (discoverResponse : Json φ) :
    Except (StartError φ) ProtocolEra := do
  let _ ← resultOf discoverResponse
  let result ← listTools server
  let resultType := (result.get? (lit "resultType")).getD (.str (lit "complete"))
  if resultType.pyEq (.str (lit "complete")) then return .modern
  else .error (.incomplete (.failed (.toolsListNotComplete resultType)))

/-- The handshake again, by the transport of 2024-11-05. -/
def rerunLegacySse (server : Handshake φ) : Except (StartError φ) Unit :=
  match server.reconnect with
  | .error _ => .error .raised
  | .ok () => do
    let _ ← resultOf (← accepted server.reinit .legacySseFailed .legacySseRejected)
    return ()

def startLegacy (server : Handshake φ) (targetUrl : Str) : Except (StartError φ) ProtocolEra := do
  let response ← accepted server.init .initializeFailed .initializeRejected
  if !((response.get? (lit "result")).getD (.obj [])).truthy then
    .error (.incomplete (.failed .initializeNoResult))
  else
    let result ← resultOf response
    let version := (result.get? (lit "protocolVersion")).getD (.str [])
    if !version.hashable then .error .raised
    else
      if version.asStr? = some (lit "2024-11-05") ∧ targetUrl ≠ [] then rerunLegacySse server
      let _ ← listTools server
      return .legacy

/-- The suffix of a failure that may be one of authorization. -/
def appendDiscover (response : Json φ) : StartError φ → StartError φ
  | .incomplete (.failed failure) => .incomplete (.failedAfter failure response)
  | e => e

def start (requested : ProtocolEra) (targetUrl : Str) (server : Handshake φ) :
    Discovered φ × Except (StartError φ) ProtocolEra :=
  if requested = .legacy then (notDiscovered, startLegacy server targetUrl)
  else match probeModern server.discover with
    | none => (notDiscovered, .error .raised)
    | some (detection, .obj ms) =>
      let response := Json.obj ms
      let discovered := discoveredOf detection response
      if detection = .modern then (discovered, startModern server response)
      else if requested = .modern ∨ detection = .modernIncompatible ∨ detection = .modernError then
        -- no downgrade of a server that is recognisably modern
        (discovered, .error (.incomplete (.discover detection response)))
      else if detection = .legacy ∧ discovered.errorCode.pyEq (.int (-32601)) then
        (discovered, startLegacy server targetUrl)
      else (discovered, (startLegacy server targetUrl).mapError (appendDiscover response))
    -- `response.get` raises
    | some _ => (notDiscovered, .error .raised)

/-- A failed start has noted the reply to `server/discover`, unless none was asked for. -/
theorem discovered_of_incomplete {requested : ProtocolEra} {targetUrl : Str} {server : Handshake φ}
    {discovered : Discovered φ} {e : Incomplete φ}
    (h : start requested targetUrl server = (discovered, .error (.incomplete e))) :
    (requested = .legacy ∧ discovered = notDiscovered) ∨
      (requested ≠ .legacy ∧ ∃ detection response,
        probeModern server.discover = some (detection, response) ∧
        discovered = discoveredOf detection response) := by
  unfold start at h
  by_cases hlegacy : requested = .legacy
  · rw [if_pos hlegacy] at h
    exact .inl ⟨hlegacy, (Prod.mk.inj h).1.symm⟩
  · rw [if_neg hlegacy] at h
    refine .inr ⟨hlegacy, ?_⟩
    split at h
    · cases h
    · rename_i detection ms hprobe
      refine ⟨detection, .obj ms, hprobe, ?_⟩
      dsimp only at h
      split at h
      · exact (Prod.mk.inj h).1.symm
      · split at h
        · exact (Prod.mk.inj h).1.symm
        · split at h <;> exact (Prod.mk.inj h).1.symm
    · cases h

end Start

end CosaiMcp.Session
