import CosaiMcp.Middleware.RequestMeta.EnvelopeSpec

/-!
# No split between headers and body

What an accepted request tells an intermediary that reads its headers: `RoutesAs` says that every
routing header stands once and, decoded, names what the body holds, and that every annotated
argument is visible. `routes_as_body` proves it of every accepted request.
-/

namespace CosaiMcp.Middleware.RequestMeta

open Py Protocol

variable {φ : Type}

/-- The header of an annotation of `schema` that has the value `value`, and carries the argument at
the path of the annotation. -/
def Carries (U : UnicodeData) (schema arguments : Json φ) (name value : Str) : Prop :=
  ∃ a ∈ xMcpHeaderAnnotations U schema, paramHeader U a.1 = name ∧
    ∃ text, canonicalText (argAt arguments a.2) = some text ∧ decodeHeaderValue value = some text

/-- The routing headers of a request name what its body holds: each stands once, `Mcp-Name` for
the methods that have one, and each `Mcp-Param-*` header is declared and carries its argument. -/
structure RoutesAs (U : UnicodeData) (pairs : List (Str × Str)) (supportedVersions : List Str)
    (toolSchemas : Option (Dict Str (Json φ))) (method : Str) (params : Json φ) (version : Str) :
    Prop where
  supported : version ∈ supportedVersions
  bodyVersion : (params.getOrNull (lit "_meta")).get? metaProtocolVersion = some (.str version)
  versionHeader : valuesOf pairs (lit "mcp-protocol-version") = [version]
  methodHeader : valuesOf pairs (lit "mcp-method") = [method]
  nameHeader : ∀ field, nameField? method = some field →
    ∃ raw name, valuesOf pairs (lit "mcp-name") = [raw] ∧ decodeHeaderValue raw = some name ∧
      params.get? field = some (.str name)
  noName : nameField? method = none → valuesOf pairs (lit "mcp-name") = []
  paramHeaders : ∀ p ∈ pairs, isParamName p.1 = true → valuesOf pairs p.1 = [p.2] ∧
    ∃ schema, calledSchema toolSchemas method params = some schema ∧
      Carries U schema (params.getOrNull (lit "arguments")) p.1 p.2
  arguments : ∀ schema, calledSchema toolSchemas method params = some schema →
    ∀ a ∈ xMcpHeaderAnnotations U schema,
      (argAt (params.getOrNull (lit "arguments")) a.2).isNull = false →
        ∃ p ∈ pairs, p.1 = paramHeader U a.1

/-- A parameter header that agrees with its annotation stands once and carries the argument. -/
theorem ParamAgrees.carries {U : UnicodeData} {pairs : List (Str × Str)} {arguments : Json φ}
    {a : Str × List Str} (h : ParamAgrees U pairs arguments a) {value : Str}
    (hp : (paramHeader U a.1, value) ∈ pairs) : valuesOf pairs (paramHeader U a.1) = [value] ∧
      ∃ text, canonicalText (argAt arguments a.2) = some text ∧
        decodeHeaderValue value = some text := by
  have hmem := mem_valuesOf.mpr hp
  unfold ParamAgrees at h
  split at h
  · rename_i want hwant
    rw [h] at hmem
    cases List.mem_singleton.mp hmem
    have htext := decodeHeaderValue_headerParamValue hwant
    obtain ⟨text, hdecode⟩ := exists_decodeHeaderValue_headerParamValue hwant
    exact ⟨h, text, htext ▸ hdecode, hdecode⟩
  · rw [h.2] at hmem; cases hmem
  · exact h.elim

/-- A parameter header that agrees with its annotation is there unless the argument is null. -/
theorem ParamAgrees.exists_header {U : UnicodeData} {pairs : List (Str × Str)} {arguments : Json φ}
    {a : Str × List Str} (h : ParamAgrees U pairs arguments a)
    (hnull : (argAt arguments a.2).isNull = false) : ∃ p ∈ pairs, p.1 = paramHeader U a.1 := by
  unfold ParamAgrees at h
  split at h
  · rename_i want hwant
    exact ⟨(paramHeader U a.1, want), mem_valuesOf.mp (by rw [h]; exact List.mem_cons_self), rfl⟩
  · rw [h.1] at hnull; cases hnull
  · exact h.elim

theorem Agrees.routesAs {U : UnicodeData} {pairs : List (Str × Str)} {supportedVersions : List Str}
    {toolSchemas : Option (Dict Str (Json φ))} {method : Str} {params : Json φ} {version : Str}
    (h : Agrees U pairs supportedVersions toolSchemas method params version) :
    RoutesAs U pairs supportedVersions toolSchemas method params version := by
  have hname := h.headerName
  have hparams := h.headerParams
  unfold NameAgrees at hname
  unfold ParamsAgree at hparams
  refine ⟨h.supported, h.bodyVersion, h.headerVersion, h.headerMethod, ?_, ?_, ?_, ?_⟩
  · intro field hf
    rw [hf] at hname
    obtain ⟨name, raw, hget, hraw, hvalues⟩ := hname
    exact ⟨raw, name, hvalues, decodeHeaderValue_encodeHeaderValue hraw, hget⟩
  · intro hf
    rw [hf] at hname
    exact hname
  · rintro ⟨name, value⟩ hp hprefix
    cases hschema : calledSchema toolSchemas method params with
    | none =>
      rw [hschema] at hparams
      rw [hparams.2 _ hp] at hprefix; cases hprefix
    | some schema =>
      rw [hschema] at hparams
      obtain ⟨a, ha, rfl⟩ := hparams.1 _ hp hprefix
      obtain ⟨hvalues, text, htext, hdecode⟩ := (hparams.2 a ha).carries hp
      exact ⟨hvalues, schema, rfl, a, ha, rfl, text, htext, hdecode⟩
  · intro schema hschema a ha hnull
    rw [hschema] at hparams
    exact (hparams.2 a ha).exists_header hnull

/-- The headers of an accepted request, stripped and lower-cased, name what its body holds. -/
theorem routes_as_body {U : UnicodeData} {items : List HeaderItem} {body : Json φ}
    {supportedVersions : List Str} {toolSchemas : Option (Dict Str (Json φ))} {version : Str}
    (h : validateRequestMetadata U (.pairs items) body supportedVersions toolSchemas false =
      .ok version) :
    ∃ method, body.get? (lit "method") = some (.str method) ∧
      RoutesAs U (headerPairs U items) supportedVersions toolSchemas method (paramsOf body)
        version := by
  obtain ⟨-, method, hmethod, hagrees⟩ := validateRequestMetadata_eq_ok_iff.mp h
  exact ⟨method, hmethod, hagrees.routesAs⟩

/-- A tool with one annotated argument. -/
def regionSchema : Json Unit :=
  .obj [(lit "properties", .obj [(lit "r", .obj [(lit "type", .str (lit "string")),
    (lit "x-mcp-header", .str (lit "Region"))])])]

def regionCall : Json Unit :=
  .obj [(lit "method", .str (lit "tools/call")), (lit "params", .obj [(lit "name", .str (lit "t")),
    (lit "arguments", .obj [(lit "r", .str (lit "eu"))]),
    (lit "_meta", .obj [(metaProtocolVersion, .str modernProtocolVersion)])])]

def regionHeaders : List HeaderItem :=
  [.pair (.text headerProtocolVersion) (.text modernProtocolVersion),
    .pair (.text (lit "Mcp-Method ")) (.text (lit "tools/call")),
    .pair (.octets [109, 99, 112, 45, 110, 97, 109, 101]) (.text (lit "t")),
    .pair (.text (lit "MCP-PARAM-REGION")) (.text (lit "eu"))]

theorem routes_as_body_region : ∃ method, regionCall.get? (lit "method") = some (.str method) ∧
    RoutesAs .ascii (headerPairs .ascii regionHeaders) modernVersions
      (some (Dict.ofList [(lit "t", regionSchema)])) method (paramsOf regionCall)
      modernProtocolVersion := by
  apply routes_as_body
  decide +kernel

end CosaiMcp.Middleware.RequestMeta
