import CosaiMcp.Protocol.Annotations

/-!
# The envelope of a request

`validateRequestMetadata` compares the routing headers of a request with its body, in the order of
the source's checks. Headers come as the raw list of pairs, as a mapping, or as a WSGI environ; a
header name or value is a `str`, octets, or something else.

Errors are values: a `TypeError` for headers of an unsupported shape, else a
`RequestMetadataError` with its code, message, data and reason.
-/

namespace CosaiMcp.Middleware.RequestMeta

open Py Protocol

/-! ## Errors -/

/-- The `data` of an unsupported version. -/
structure VersionData where
  supported : List Str
  requested : Str
deriving DecidableEq

structure RequestMetadataError where
  code : Int
  message : Str
  data : Option VersionData
  reason : Str
deriving DecidableEq

inductive EnvelopeError where
  | typeError (message : Str)
  | metadata (error : RequestMetadataError)
deriving DecidableEq

/-- A `RequestMetadataError` without data. -/
def rejected (code : Int) (message reason : String) : EnvelopeError :=
  .metadata ⟨code, lit message, none, lit reason⟩

/-- `_mismatch`. -/
def mismatch (header : Str) : EnvelopeError :=
  .metadata ⟨errHeaderMismatch, lit "Header mismatch: " ++ header, none, header⟩

/-- `_unsupported`. -/
def unsupported (supported : List Str) (requested : Str) : EnvelopeError :=
  .metadata ⟨errUnsupportedProtocolVersion, lit "Unsupported protocol version",
    some ⟨supported, requested.take 64⟩, lit "unsupported_version"⟩

/-! ## Headers -/

/-- A header name or value. -/
inductive HeaderField where
  | text (s : Str)
  | octets (b : Bytes)
  | other

/-- What a list of headers holds. -/
inductive HeaderItem where
  | pair (name value : HeaderField)
  | malformed

inductive HeaderInput where
  | pairs (items : List HeaderItem)
  | mapping (items : List (HeaderField × HeaderField))
  /-- A value whose iteration raises `TypeError`. -/
  | notIterable (message : Str)

/-- `_field`. -/
def field : HeaderField → Except EnvelopeError Str
  | .text s => .ok s
  | .octets b => .ok (decodeLatin1 b)
  | .other => .error (.typeError (lit "header names and values must be str or bytes"))

/-- `_is_routing`. -/
def isRouting (name : Str) : Bool :=
  [lit "mcp-protocol-version", lit "mcp-method", lit "mcp-name"].contains name ||
    startsWith name (lit "mcp-param-")

def aliasOf (name : Str) : Str :=
  let dashed := replaceChar name 95 45
  if startsWith dashed (lit "http-") then dashed.drop 5 else dashed

/-- A name that only an intermediary may take for a routing header. -/
def isRoutingAlias (name : Str) : Bool := aliasOf name ≠ name && isRouting (aliasOf name)

/-- The lower-cased headers, with the values of each in the order they came in. -/
abbrev Multimap := Dict Str (List Str)

/-- `out.setdefault(name, []).append(value)`. -/
def Multimap.add (out : Multimap) (name value : Str) : Multimap :=
  out.set name ((out.get? name).getD [] ++ [value])

section

variable (U : UnicodeData)

/-- One turn of the second loop of `_header_multimap`. -/
def addHeader (out : Multimap) : HeaderItem → Except EnvelopeError Multimap
  | .malformed => .error (.typeError (lit "header pairs must be (name, value)"))
  | .pair k v => do
    let name := U.lower (strip (← field k))
    if isRoutingAlias name then .error (mismatch (lit "header-alias"))
    else return out.add name (← field v)

/-- One turn of the loop of `_header_multimap` over a WSGI environ. -/
def addEnviron (out : Multimap) : HeaderField × HeaderField → Except EnvelopeError Multimap
  | (.text k, v) =>
    if startsWith k (lit "HTTP_") then
      return out.add (replaceChar (U.lower (k.drop 5)) 95 45) (← field v)
    else return out
  | _ => return out

/-- `_header_multimap`. -/
def headerMultimap (wsgiEnviron : Bool) (headers : HeaderInput) : Except EnvelopeError Multimap :=
  if wsgiEnviron then
    match headers with
    | .mapping items => items.foldlM (addEnviron U) Dict.empty
    | _ => .error (.typeError (lit "wsgi_environ=True requires the environ mapping"))
  else
    match headers with
    | .mapping items => (items.map fun p => HeaderItem.pair p.1 p.2).foldlM (addHeader U) Dict.empty
    | .pairs items => items.foldlM (addHeader U) Dict.empty
    | .notIterable message => .error (.typeError message)

/-- `_single`: a header that may not come twice. -/
def single (hdrs : Multimap) (name : Str) : Except EnvelopeError (Option Str) :=
  match hdrs.get? (U.lower name) with
  | none => .ok none
  | some [value] => .ok (some value)
  | some _ => .error (mismatch name)

/-! ## Validation -/

/-- `_legacy_gate`. -/
def legacyGate (hdrs : Multimap) (supported : List Str) : Except EnvelopeError Unit := do
  if U.lower headerMethod ∈ hdrs.keys then .error (mismatch headerMethod)
  else if U.lower headerName ∈ hdrs.keys then .error (mismatch headerName)
  else if hdrs.keys.any (startsWith · (U.lower headerParamPrefix)) then
    .error (mismatch (headerParamPrefix ++ lit "*"))
  else
    match ← single U hdrs headerProtocolVersion with
    | none => return ()
    | some hv =>
      if hv ∈ legacyVersions then return ()
      else if hv ∈ supported then .error (mismatch headerProtocolVersion)
      else .error (unsupported supported hv)

variable {φ : Type}

/-- The check of `Mcp-Name`. -/
def checkName (hdrs : Multimap) (method : Str) (params : Json φ) : Except EnvelopeError Unit := do
  let rawName ← single U hdrs headerName
  if (nameField? method).isSome then
    match mcpNameFor method params with
    | none => .error (rejected (-32602) "Invalid params" "invalid_name")
    | some expected =>
      match encodeHeaderValue expected with
      | none => .error (rejected (-32602) "Invalid params" "invalid_name")
      | some canonical =>
        if rawName = some canonical then return () else .error (mismatch headerName)
  else if rawName.isSome then .error (mismatch headerName)
  else return ()

/-- The check of the header of one annotation. -/
def checkParam (hdrs : Multimap) (expected : Dict Str Str) (arguments : Json φ)
    (a : Str × List Str) : Except EnvelopeError Unit := do
  let raw ← single U hdrs (paramHeader U a.1)
  match expected.get? (paramHeader U a.1) with
  | none =>
    if (argAt arguments a.2).isNull = false ∨ raw.isSome then
      .error (mismatch (headerParamPrefix ++ a.1))
    else return ()
  | some want =>
    if raw = some want then return () else .error (mismatch (headerParamPrefix ++ a.1))

/-- The check of the `Mcp-Param-*` headers of a tool that has the schema `schema`. -/
def checkToolParams (hdrs : Multimap) (schema arguments : Json φ) : Except EnvelopeError Unit :=
  match xMcpParamHeaders U true schema arguments with
  | none => .error (mismatch (headerParamPrefix ++ lit "*"))
  | some headers =>
    let annotations := xMcpHeaderAnnotations U schema
    let declared := annotations.map fun a => paramHeader U a.1
    let present := hdrs.keys.filter (startsWith · (U.lower headerParamPrefix))
    if present.any (· ∉ declared) then .error (mismatch (headerParamPrefix ++ lit "*"))
    else annotations.forM (checkParam U hdrs (lowerKeys U headers) arguments)

/-- The check of the `Mcp-Param-*` headers. -/
def checkParams (hdrs : Multimap) (toolSchemas : Option (Dict Str (Json φ))) (method : Str)
    (params : Json φ) : Except EnvelopeError Unit :=
  match if method = lit "tools/call" then toolSchemas else none with
  | none =>
    if hdrs.keys.any (startsWith · (U.lower headerParamPrefix)) then
      .error (mismatch (headerParamPrefix ++ lit "*"))
    else .ok ()
  | some schemas =>
    match ((params.get? (lit "name")).bind Json.asStr?).bind schemas.get? with
    | none => .error (rejected (-32602) "Unknown tool" "unknown_tool")
    | some schema => checkToolParams U hdrs schema (params.getOrNull (lit "arguments"))

/-- The part of `validate_request_metadata` after the version of the body is known. -/
def checkRouting (hdrs : Multimap) (supported : List Str)
    (toolSchemas : Option (Dict Str (Json φ))) (method : Str) (params : Json φ)
    (headerVersion : Option Str) (version : Str) : Except EnvelopeError Str := do
  if headerVersion ≠ some version then .error (mismatch headerProtocolVersion)
  else if version ∉ supported then .error (unsupported supported version)
  else if (← single U hdrs headerMethod) ≠ some method then .error (mismatch headerMethod)
  else
    checkName U hdrs method params
    checkParams U hdrs toolSchemas method params
    return version

/-- `params`, an empty mapping where the body has none. -/
def paramsOf (body : Json φ) : Json φ :=
  match body.getOrNull (lit "params") with
  | .obj members => .obj members
  | _ => .obj []

/-- The part of `validate_request_metadata` after the method of the body is known. -/
def checkRequest (hdrs : Multimap) (supported : List Str)
    (toolSchemas : Option (Dict Str (Json φ))) (method : Str) (params : Json φ) :
    Except EnvelopeError Str := do
  let headerVersion ← single U hdrs headerProtocolVersion
  let missing := do
    legacyGate U hdrs supported
    .error (rejected (-32602) "Missing required _meta protocol fields" "missing_meta")
  match params.getOrNull (lit "_meta") with
  | .null => missing
  | .obj fields =>
    match (Json.obj fields).get? metaProtocolVersion with
    | none => missing
    | some (.str version) =>
      checkRouting U hdrs supported toolSchemas method params headerVersion version
    | some _ => .error (rejected (-32602) "Invalid _meta" "invalid_meta")
  | _ => .error (rejected (-32602) "Invalid _meta" "invalid_meta")

/-- `validate_request_metadata`. -/
def validateRequestMetadata (headers : HeaderInput) (body : Json φ) (supportedVersions : List Str)
    (toolSchemas : Option (Dict Str (Json φ))) (wsgiEnviron : Bool) : Except EnvelopeError Str := do
  let hdrs ← headerMultimap U wsgiEnviron headers
  let supported := sortStrs supportedVersions.dedup
  match body with
  | .arr _ =>
    legacyGate U hdrs supported
    .error (rejected (-32600) "Invalid Request" "batch")
  | .obj _ =>
    match body.get? (lit "method") with
    | none => .error (rejected (-32600) "Invalid Request" "not_a_request")
    | some (.str method) =>
      checkRequest U hdrs supported toolSchemas method (paramsOf body)
    | some _ => .error (rejected (-32600) "Invalid Request" "invalid_request")
  | _ => .error (rejected (-32600) "Invalid Request" "invalid_request")

end

end CosaiMcp.Middleware.RequestMeta
