import CosaiMcp.Protocol.Annotations
import CosaiMcp.Py.Equality

/-!
# The requests of a session

What `MCPSession.send_raw` puts on the wire in the modern era: the routing headers that the
Streamable HTTP transport derives from the request, the `Mcp-Param-*` headers of the called tool
and the JSON-RPC body. The headers of every request of the transport (content type, authorization)
are not modelled.
-/

namespace CosaiMcp.Session

open Py Protocol

variable {φ : Type}

def legacyHandshakeMethods : List Str :=
  [lit "initialize", lit "notifications/initialized", lit "initialized"]

/-- A modern session and its transport. -/
structure MCPSession (φ : Type) where
  toolManifest : List (Json φ)
  requestMeta : Dict Str (Json φ)
  protocolVersion : Str

/-- A request on the wire. -/
structure Message (φ : Type) where
  headers : Dict Str Str
  body : Json φ

/-- `v` of a dictionary where an absent value and `None` are one. -/
def getOrNull (d : Dict Str (Json φ)) (key : Str) : Json φ := (d.get? key).getD .null

/-- The test of the loop of `_param_headers`. -/
def isNamed [PyFloat φ] (name tool : Json φ) : Bool :=
  tool.asDict?.isSome && (tool.getOrNull (lit "name")).pyEq name

/-- `_param_headers`. -/
def paramHeaders [PyFloat φ] (U : UnicodeData) (toolManifest : List (Json φ))
    (payload : Dict Str (Json φ)) : Dict Str Str :=
  match toolManifest.find? (isNamed (getOrNull payload (lit "name"))) with
  | none => Dict.empty
  | some tool =>
    -- a lenient call does not raise
    (xMcpParamHeaders U false (tool.getOrNull (lit "inputSchema"))
      (getOrNull payload (lit "arguments"))).getD Dict.empty

/-- The headers and the body of `StreamableHTTPTransport.send`. -/
def send (protocolVersion : Option Str) (method : Str) (params : Dict Str (Json φ))
    (overrideHeaders : Dict Str Str) (id : Str) : Message φ :=
  let headers := match protocolVersion with
    | none => Dict.empty
    | some pinned =>
      let bodyVersion := ((getOrNull params (lit "_meta")).get? metaProtocolVersion).bind Json.asStr?
      requestMetadataHeaders method (.obj params.items) (bodyVersion.getD pinned)
  ⟨headers.update overrideHeaders,
    .obj [(lit "jsonrpc", .str (lit "2.0")), (lit "id", .str id), (lit "method", .str method),
      (lit "params", .obj params.items)]⟩

/-- `send_raw` in the modern era. -/
def MCPSession.sendRaw [PyFloat φ] (U : UnicodeData) (s : MCPSession φ) (method : Str)
    (payload : Dict Str (Json φ)) (overrideHeaders : Dict Str Str) (id : Str) : Message φ :=
  if method ∈ legacyHandshakeMethods then send none method payload overrideHeaders id
  else
    let headers := if method = lit "tools/call" then paramHeaders U s.toolManifest payload
      else Dict.empty
    send (some s.protocolVersion) method (withRequestMeta payload s.requestMeta)
      (headers.update overrideHeaders) id

end CosaiMcp.Session
