import CosaiMcp.Session.Start

/-!
# The life of a session up to its start

`startSession` is `MCPSession.start` with the state that it leaves: the status, what the session
knows of the server, and the requests that were sent. What it returns is what `start` says
(`startSession_result`).
-/

namespace CosaiMcp.Session

open Py Protocol

variable {φ : Type}

inductive SessionStatus where
  | incomplete
  | ready
  | closed
deriving DecidableEq

structure SessionState (φ : Type) where
  status : SessionStatus
  protocolVersion : Json φ
  serverInfo : Json φ
  toolManifest : Json φ
  transportType : Str
  era : ProtocolEra
  /-- The methods of the requests sent so far. -/
  sent : List Str

structure SessionInfo (φ : Type) where
  protocolVersion : Json φ
  serverInfo : Json φ
  toolManifest : Json φ
  transportType : Str
  protocolEra : ProtocolEra

namespace SessionState

/-- `MCPSession.__init__`. -/
def new (transportType : Str) : SessionState φ :=
  ⟨.incomplete, .str [], .obj [], .arr [], transportType, .legacy, []⟩

def request (s : SessionState φ) (method : Str) : SessionState φ :=
  { s with sent := s.sent ++ [method] }

/-- What `initialize` says of the server. -/
def noteInitialize (s : SessionState φ) (result : Json φ) : SessionState φ :=
  { s with
    protocolVersion := (result.get? (lit "protocolVersion")).getD (.str [])
    serverInfo := (result.get? (lit "serverInfo")).getD (.obj []) }

/-- What it says again after a switch of the transport. -/
def noteReinitialize (s : SessionState φ) (result : Json φ) : SessionState φ :=
  { s with
    protocolVersion := (result.get? (lit "protocolVersion")).getD s.protocolVersion
    serverInfo := (result.get? (lit "serverInfo")).getD s.serverInfo }

/-- The last step of a handshake. -/
def finish (s : SessionState φ) (toolsResult : Json φ) : SessionState φ :=
  { s with
    toolManifest := (toolsResult.get? (lit "tools")).getD (.arr [])
    status := .ready }

def info (s : SessionState φ) : SessionInfo φ :=
  ⟨s.protocolVersion, s.serverInfo, s.toolManifest, s.transportType, s.era⟩

end SessionState

section Start

variable [PyFloat φ]

/-- What a run leaves: what it returns or raises, and the state. -/
abbrev Left (φ α : Type) := Except (StartError φ) α × SessionState φ

def metaServerInfo : Str := lit "io.modelcontextprotocol/serverInfo"

def startModernSession (server : Handshake φ) (discoverResponse : Json φ) (s : SessionState φ) :
    Left φ (SessionInfo φ) :=
  match resultOf discoverResponse with
  | .error e => (.error e, s)
  | .ok result =>
    let serverInfo := match (result.getOrNull (lit "_meta")).getOrNull metaServerInfo with
      | .obj ms => .obj ms
      | _ => .obj []
    let s := { s with
      serverInfo := serverInfo
      protocolVersion := .str modernProtocolVersion
      era := .modern }
    let s := s.request (lit "tools/list")
    match listTools server with
    | .error e => (.error e, s)
    | .ok toolsResult =>
      let resultType := (toolsResult.get? (lit "resultType")).getD (.str (lit "complete"))
      if resultType.pyEq (.str (lit "complete")) then
        (.ok (s.finish toolsResult).info, s.finish toolsResult)
      else (.error (.incomplete (.failed (.toolsListNotComplete resultType))), s)

/-- The handshake again, on the transport of 2024-11-05. -/
def rerunLegacySession (server : Handshake φ) (s : SessionState φ) : Left φ Unit :=
  match server.reconnect with
  | .error _ => (.error .raised, s)
  | .ok () =>
    let s := s.request (lit "initialize")
    match accepted server.reinit .legacySseFailed .legacySseRejected >>= resultOf with
    | .error e => (.error e, s)
    | .ok result => (.ok (), s.noteReinitialize result)

/-- The notification and `tools/list`. -/
def finishLegacySession (server : Handshake φ) (s : SessionState φ) : Left φ (SessionInfo φ) :=
  let s := s.request (lit "tools/list")
  match listTools server with
  | .error e => (.error e, s)
  | .ok toolsResult => (.ok (s.finish toolsResult).info, s.finish toolsResult)

/-- What follows the first `initialize`, with the version that the server has chosen. -/
def continueLegacySession (server : Handshake φ) (targetUrl : Str) (version : Json φ)
    (s : SessionState φ) : Left φ (SessionInfo φ) :=
  if !version.hashable then (.error .raised, s)
  else if version.asStr? = some (lit "2024-11-05") then
    let s := { s with transportType := lit "LegacySSETransport" }
    if targetUrl ≠ [] then
      match rerunLegacySession server s with
      | (.error e, s) => (.error e, s)
      | (.ok (), s) => finishLegacySession server s
    else finishLegacySession server s
  else finishLegacySession server s

def startLegacySession (server : Handshake φ) (targetUrl : Str) (s : SessionState φ) :
    Left φ (SessionInfo φ) :=
  let s := { s with era := .legacy }.request (lit "initialize")
  match accepted server.init .initializeFailed .initializeRejected with
  | .error e => (.error e, s)
  | .ok response =>
    if !((response.get? (lit "result")).getD (.obj [])).truthy then
      (.error (.incomplete (.failed .initializeNoResult)), s)
    else match resultOf response with
      | .error e => (.error e, s)
      | .ok result =>
        let version := (result.get? (lit "protocolVersion")).getD (.str [])
        continueLegacySession server targetUrl version (s.noteInitialize result)

/-- `MCPSession.start`. -/
def startSession (requested : ProtocolEra) (targetUrl : Str) (server : Handshake φ)
    (s : SessionState φ) : Left φ (SessionInfo φ) :=
  if requested = .legacy then startLegacySession server targetUrl s
  else
    let s := s.request (lit "server/discover")
    match probeModern server.discover with
    | none => (.error .raised, s)
    | some (detection, .obj ms) =>
      let response := Json.obj ms
      if detection = .modern then startModernSession server response s
      else if requested = .modern ∨ detection = .modernIncompatible ∨ detection = .modernError then
        (.error (.incomplete (.discover detection response)), s)
      else
        let (result, s) := startLegacySession server targetUrl s
        if detection = .legacy ∧ (discoveredOf detection response).errorCode.pyEq (.int (-32601)) then
          (result, s)
        else (result.mapError (appendDiscover response), s)
    | some _ => (.error .raised, s)

end Start

end CosaiMcp.Session
