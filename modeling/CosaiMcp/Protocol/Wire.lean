import CosaiMcp.Py.Base64
import CosaiMcp.Py.Json

/-!
# The wire format of modern requests

The constants of `protocol.py`, the encoding of a text as an `Mcp-Name` or `Mcp-Param-*` header and
the `_meta` and routing headers of a request. A header value that is not plain visible ASCII, or
that looks like an encoded one, is carried in base64; `decodeHeaderValue_encodeHeaderValue` reads
both forms back.
-/

namespace CosaiMcp.Protocol

open Py

/-! ## Constants -/

def modernProtocolVersion : Str := lit "2026-07-28"

def modernVersions : List Str := [modernProtocolVersion]

def legacyVersions : List Str :=
  [lit "2025-11-25", lit "2025-06-18", lit "2025-03-26", lit "2024-11-05"]

def metaProtocolVersion : Str := lit "io.modelcontextprotocol/protocolVersion"

def metaClientInfo : Str := lit "io.modelcontextprotocol/clientInfo"

def metaClientCapabilities : Str := lit "io.modelcontextprotocol/clientCapabilities"

def errHeaderMismatch : Int := -32020

def errUnsupportedProtocolVersion : Int := -32022

def headerProtocolVersion : Str := lit "MCP-Protocol-Version"

def headerMethod : Str := lit "Mcp-Method"

def headerName : Str := lit "Mcp-Name"

def headerParamPrefix : Str := lit "Mcp-Param-"

/-- The parameter that a method mirrors into `Mcp-Name`. -/
def nameBearingMethods : List (Str × Str) :=
  [(lit "tools/call", lit "name"), (lit "prompts/get", lit "name"),
    (lit "resources/read", lit "uri")]

def nameField? (method : Str) : Option Str := nameBearingMethods.lookup method

def b64Prefix : Str := lit "=?base64?"

def b64Suffix : Str := lit "?="

def jsSafeInt : Nat := 2 ^ 53 - 1

/-! ## Header values -/

/-- The texts of the form `=?base64?…?=`. -/
def isSentinel (value : Str) : Bool := startsWith value b64Prefix && endsWith value b64Suffix

def isSafeHeaderValue (value : Str) : Bool :=
  value == strip value && value.all (fun c => c == 9 || (0x20 ≤ c.val && c.val ≤ 0x7E)) &&
    !isSentinel value

/-- `encode_header_value`; `none` is the `UnicodeEncodeError` of a lone surrogate. -/
def encodeHeaderValue (value : Str) : Option Str :=
  if isSafeHeaderValue value then some value
  else (encodeUtf8 value).map fun data => b64Prefix ++ b64encode data ++ b64Suffix

/-- `decode_header_value`; `none` is an error of `b64decode` or of the UTF-8 decoder. -/
def decodeHeaderValue (value : Str) : Option Str :=
  if isSentinel value then
    let inner := (value.take (value.length - b64Suffix.length)).drop b64Prefix.length
    (b64decodeValidate inner).bind (decodeUtf8 false)
  else some value

theorem decodeHeaderValue_of_not_isSentinel {value : Str} (h : isSentinel value = false) :
    decodeHeaderValue value = some value := by
  simp [decodeHeaderValue, h]

theorem decodeHeaderValue_sentinel (inner : Str) :
    decodeHeaderValue (b64Prefix ++ inner ++ b64Suffix) =
      (b64decodeValidate inner).bind (decodeUtf8 false) := by
  have hs : isSentinel (b64Prefix ++ inner ++ b64Suffix) = true := by
    simp only [isSentinel, startsWith, endsWith, Bool.and_eq_true, List.isPrefixOf_iff_prefix,
      List.isSuffixOf_iff_suffix]
    exact ⟨⟨inner ++ b64Suffix, by simp⟩, ⟨b64Prefix ++ inner, rfl⟩⟩
  have hin : ((b64Prefix ++ inner ++ b64Suffix).take
      ((b64Prefix ++ inner ++ b64Suffix).length - b64Suffix.length)).drop b64Prefix.length =
      inner := by
    rw [List.length_append, Nat.add_sub_cancel, List.take_left, List.drop_left]
  rw [decodeHeaderValue, if_pos hs, hin]

/-- Decoding undoes encoding. -/
theorem decodeHeaderValue_encodeHeaderValue {value raw : Str}
    (h : encodeHeaderValue value = some raw) : decodeHeaderValue raw = some value := by
  unfold encodeHeaderValue at h
  split at h
  · rename_i hsafe
    cases h
    simp only [isSafeHeaderValue, Bool.and_eq_true, Bool.not_eq_true'] at hsafe
    exact decodeHeaderValue_of_not_isSentinel hsafe.2
  · obtain ⟨data, hdata, rfl⟩ := Option.map_eq_some_iff.mp h
    rw [decodeHeaderValue_sentinel, b64decodeValidate_b64encode]
    exact decodeUtf8_encodeUtf8 false hdata

theorem exists_encodeHeaderValue {value : Str} (h : isScalar value = true) :
    ∃ raw, encodeHeaderValue value = some raw := by
  obtain ⟨data, hdata⟩ := exists_encodeUtf8 h
  unfold encodeHeaderValue
  split
  · exact ⟨value, rfl⟩
  · exact ⟨_, by rw [hdata]; rfl⟩

/-! ## Requests -/

section Request

variable {φ : Type}

/-- `build_request_meta`. -/
def buildRequestMeta (clientInfo clientCapabilities : Dict Str (Json φ)) (version : Str) :
    Dict Str (Json φ) :=
  Dict.ofList [(metaProtocolVersion, .str version), (metaClientInfo, .obj clientInfo.items),
    (metaClientCapabilities, .obj clientCapabilities.items)]

/-- `with_request_meta`: the keys of a `_meta` that `params` has already win. -/
def withRequestMeta (params reqMeta : Dict Str (Json φ)) : Dict Str (Json φ) :=
  match params.get? (lit "_meta") with
  | none | some .null => params.set (lit "_meta") (.obj reqMeta.items)
  | some (.obj existing) =>
    params.set (lit "_meta") (.obj (dictOf (reqMeta.items ++ existing)))
  | some _ => params

/-- `mcp_name_for`. -/
def mcpNameFor (method : Str) (params : Json φ) : Option Str :=
  (nameField? method).bind fun field => (params.get? field).bind Json.asStr?

theorem mcpNameFor_eq_some_iff {method field : Str} (hf : nameField? method = some field)
    {params : Json φ} {name : Str} :
    mcpNameFor method params = some name ↔ params.get? field = some (.str name) := by
  rw [mcpNameFor, hf, Option.bind_some, Option.bind_eq_some_iff]
  constructor
  · rintro ⟨j, hj, h⟩
    cases j <;> cases h
    exact hj
  · intro h
    exact ⟨_, h, rfl⟩

/-- `request_metadata_headers`. -/
def requestMetadataHeaders (method : Str) (params : Json φ) (version : Str) : Dict Str Str :=
  let headers := Dict.ofList [(headerProtocolVersion, version), (headerMethod, method)]
  match (mcpNameFor method params).bind encodeHeaderValue with
  | some name => headers.set headerName name
  | none => headers

end Request

end CosaiMcp.Protocol
