import CosaiMcp.Middleware.RequestMeta.Envelope
import CosaiMcp.Py.Except

/-!
# The errors of the envelope

Every `RequestMetadataError` has one of four codes, and a reason that does not come from the request:
a fixed label, or the name of a header that a tool's schema declares. The two errors on which a
server may fall back to a legacy handler are raised past the legacy gate only
(`raisesOnly_validateRequestMetadata`).
-/

namespace CosaiMcp.Middleware.RequestMeta

open Py Protocol

variable {φ : Type}

def errorCodes : List Int := [-32020, -32022, -32602, -32600]

def fixedLabels : List Str :=
  [lit "header-alias", headerMethod, headerName, headerProtocolVersion,
    headerParamPrefix ++ lit "*", lit "unsupported_version", lit "not_a_request",
    lit "invalid_request", lit "invalid_meta", lit "invalid_name", lit "unknown_tool"]

/-- The reasons of the errors on which a server may fall back to a legacy handler. -/
def fallbackReasons : List Str := [lit "missing_meta", lit "batch"]

def fallbackErrors : List EnvelopeError :=
  [rejected (-32602) "Missing required _meta protocol fields" "missing_meta",
    rejected (-32600) "Invalid Request" "batch"]

/-- A fixed label, or the header of an annotation in the schema of a tool, as it is declared or in
lower case. -/
def IsLabel (U : UnicodeData) (toolSchemas : Option (Dict Str (Json φ))) (reason : Str) : Prop :=
  reason ∈ fixedLabels ∨ ∃ schemas schema, toolSchemas = some schemas ∧ schema ∈ schemas.values ∧
    ∃ a ∈ xMcpHeaderAnnotations U schema,
      reason = headerParamPrefix ++ a.1 ∨ reason = paramHeader U a.1

def EnvelopeError.IsLabelled (U : UnicodeData) (toolSchemas : Option (Dict Str (Json φ))) :
    EnvelopeError → Prop
  | .typeError _ => True
  | .metadata e => e.code ∈ errorCodes ∧ IsLabel U toolSchemas e.reason

/-- What the validation raises: a labelled error, or past the legacy gate one that allows the
fallback. -/
def EnvelopeError.IsRaised (U : UnicodeData) (toolSchemas : Option (Dict Str (Json φ)))
    (hdrs : Multimap) (supported : List Str) (e : EnvelopeError) : Prop :=
  e.IsLabelled U toolSchemas ∨ e ∈ fallbackErrors ∧ legacyGate U hdrs supported = .ok ()

section

variable {U : UnicodeData} {toolSchemas : Option (Dict Str (Json φ))}

/-- A label is none of the reasons that allow the fallback. -/
theorem IsLabel.not_fallback {reason : Str} (h : IsLabel U toolSchemas reason) :
    reason ∉ fallbackReasons := by
  have hprefix : ∀ {p s : Str}, (∀ r ∈ fallbackReasons, p.isPrefixOf r = false) →
      p ++ s ∉ fallbackReasons := by
    intro p s hp hmem
    have hno := hp _ hmem
    rw [List.isPrefixOf_iff_prefix.mpr (List.prefix_append p s)] at hno
    cases hno
  rcases h with h | ⟨_, schema, -, -, a, ha, rfl | rfl⟩
  · have hall : ∀ r ∈ fixedLabels, r ∉ fallbackReasons := by decide
    exact hall reason h
  · exact hprefix (by decide)
  · rw [paramHeader_eq (mem_xMcpHeaderAnnotations ha).2.1]
    exact hprefix (by decide)

theorem isLabelled_mismatch {header : Str} (h : IsLabel U toolSchemas header) :
    (mismatch header).IsLabelled U toolSchemas :=
  ⟨List.mem_cons_self, h⟩

theorem isLabelled_fixed {header : Str} (h : header ∈ fixedLabels) :
    (mismatch header).IsLabelled U toolSchemas :=
  isLabelled_mismatch (.inl h)

theorem isLabelled_unsupported (supported : List Str) (requested : Str) :
    (unsupported supported requested).IsLabelled U toolSchemas := by
  have hcode : errUnsupportedProtocolVersion ∈ errorCodes := by decide
  have hreason : lit "unsupported_version" ∈ fixedLabels := by decide
  exact ⟨hcode, .inl hreason⟩

theorem isLabelled_rejected {code : Int} {message reason : String} (hcode : code ∈ errorCodes)
    (hreason : lit reason ∈ fixedLabels) :
    (rejected code message reason).IsLabelled U toolSchemas :=
  ⟨hcode, .inl hreason⟩

/-! ## Headers -/

theorem raisesOnly_field (f : HeaderField) :
    RaisesOnly (EnvelopeError.IsLabelled U toolSchemas) (field f) := by
  cases f with
  | text s => exact raisesOnly_ok s
  | octets b => exact raisesOnly_ok _
  | other => exact raisesOnly_error_iff.mpr trivial

theorem raisesOnly_addHeader (out : Multimap) (item : HeaderItem) :
    RaisesOnly (EnvelopeError.IsLabelled U toolSchemas) (addHeader U out item) := by
  cases item with
  | malformed => exact raisesOnly_error_iff.mpr trivial
  | pair k v =>
    refine raisesOnly_bind_iff.mpr ⟨raisesOnly_field k, fun _ _ => ?_⟩
    refine (raisesOnly_ite_error_iff (isLabelled_fixed (by decide))).mpr fun _ => ?_
    exact raisesOnly_bind_iff.mpr ⟨raisesOnly_field v, fun _ _ => raisesOnly_ok _⟩

theorem raisesOnly_addEnviron (out : Multimap) (m : HeaderField × HeaderField) :
    RaisesOnly (EnvelopeError.IsLabelled U toolSchemas) (addEnviron U out m) := by
  unfold addEnviron
  split
  · split
    · exact raisesOnly_bind_iff.mpr ⟨raisesOnly_field _, fun _ _ => raisesOnly_ok _⟩
    · exact raisesOnly_ok _
  · exact raisesOnly_ok _

theorem raisesOnly_headerMultimap (wsgiEnviron : Bool) (headers : HeaderInput) :
    RaisesOnly (EnvelopeError.IsLabelled U toolSchemas) (headerMultimap U wsgiEnviron headers) := by
  unfold headerMultimap
  split
  · split
    · exact raisesOnly_foldlM (fun _ _ _ => raisesOnly_addEnviron _ _) _
    · exact raisesOnly_error_iff.mpr trivial
  · split
    · exact raisesOnly_foldlM (fun _ _ _ => raisesOnly_addHeader _ _) _
    · exact raisesOnly_foldlM (fun _ _ _ => raisesOnly_addHeader _ _) _
    · exact raisesOnly_error_iff.mpr trivial

theorem raisesOnly_single (hdrs : Multimap) {name : Str} (h : IsLabel U toolSchemas name) :
    RaisesOnly (EnvelopeError.IsLabelled U toolSchemas) (single U hdrs name) := by
  unfold single
  split
  · exact raisesOnly_ok _
  · exact raisesOnly_ok _
  · exact raisesOnly_error_iff.mpr (isLabelled_mismatch h)

theorem raisesOnly_legacyGate (hdrs : Multimap) (supported : List Str) :
    RaisesOnly (EnvelopeError.IsLabelled U toolSchemas) (legacyGate U hdrs supported) := by
  unfold legacyGate
  refine (raisesOnly_ite_error_iff (isLabelled_fixed (by decide))).mpr fun _ => ?_
  refine (raisesOnly_ite_error_iff (isLabelled_fixed (by decide))).mpr fun _ => ?_
  refine (raisesOnly_ite_error_iff (isLabelled_fixed (by decide))).mpr fun _ => ?_
  refine raisesOnly_bind_iff.mpr ⟨raisesOnly_single hdrs (.inl (by decide)), fun hv _ => ?_⟩
  cases hv with
  | none => exact raisesOnly_ok _
  | some hv =>
    dsimp only
    split
    · exact raisesOnly_ok _
    · refine (raisesOnly_ite_error_iff (isLabelled_fixed (by decide))).mpr fun _ => ?_
      exact raisesOnly_error_iff.mpr (isLabelled_unsupported _ _)

/-! ## Validation -/

theorem raisesOnly_checkName (hdrs : Multimap) (method : Str) (params : Json φ) :
    RaisesOnly (EnvelopeError.IsLabelled U toolSchemas) (checkName U hdrs method params) := by
  have hinvalid : (rejected (-32602) "Invalid params" "invalid_name").IsLabelled U toolSchemas :=
    isLabelled_rejected (by decide) (by decide)
  have hheader : (mismatch headerName).IsLabelled U toolSchemas := isLabelled_fixed (by decide)
  unfold checkName
  refine raisesOnly_bind_iff.mpr ⟨raisesOnly_single hdrs (.inl (by decide)), fun rawName _ => ?_⟩
  split
  · split
    · exact raisesOnly_error_iff.mpr hinvalid
    · split
      · exact raisesOnly_error_iff.mpr hinvalid
      · split
        · exact raisesOnly_ok _
        · exact raisesOnly_error_iff.mpr hheader
  · exact (raisesOnly_ite_error_iff hheader).mpr fun _ => raisesOnly_ok _

theorem raisesOnly_checkParam (hdrs : Multimap) (expected : Dict Str Str) (arguments : Json φ)
    {a : Str × List Str} (hheader : IsLabel U toolSchemas (headerParamPrefix ++ a.1))
    (hlower : IsLabel U toolSchemas (paramHeader U a.1)) :
    RaisesOnly (EnvelopeError.IsLabelled U toolSchemas)
      (checkParam U hdrs expected arguments a) := by
  unfold checkParam
  refine raisesOnly_bind_iff.mpr ⟨raisesOnly_single hdrs hlower, fun raw _ => ?_⟩
  split
  · exact (raisesOnly_ite_error_iff (isLabelled_mismatch hheader)).mpr fun _ => raisesOnly_ok _
  · split
    · exact raisesOnly_ok _
    · exact raisesOnly_error_iff.mpr (isLabelled_mismatch hheader)

theorem raisesOnly_checkParams (hdrs : Multimap) (method : Str) (params : Json φ) :
    RaisesOnly (EnvelopeError.IsLabelled U toolSchemas)
      (checkParams U hdrs toolSchemas method params) := by
  unfold checkParams
  split
  · exact (raisesOnly_ite_error_iff (isLabelled_fixed (by decide))).mpr fun _ => raisesOnly_ok _
  · next schemas hschemas =>
    split
    · exact raisesOnly_error_iff.mpr (isLabelled_rejected (by decide) (by decide))
    · next schema hschema =>
      have hannotated : ∀ a ∈ xMcpHeaderAnnotations U schema, ∀ reason,
          reason = headerParamPrefix ++ a.1 ∨ reason = paramHeader U a.1 →
            IsLabel U toolSchemas reason := by
        intro a ha reason hreason
        obtain ⟨name, -, hget⟩ := Option.bind_eq_some_iff.mp hschema
        split at hschemas
        · exact .inr ⟨schemas, schema, hschemas, Dict.mem_values_of_get? hget, a, ha, hreason⟩
        · cases hschemas
      unfold checkToolParams
      split
      · exact raisesOnly_error_iff.mpr (isLabelled_fixed (by decide))
      · refine (raisesOnly_ite_error_iff (isLabelled_fixed (by decide))).mpr fun _ => ?_
        refine raisesOnly_forM fun a ha => ?_
        exact raisesOnly_checkParam hdrs _ _ (hannotated a ha _ (.inl rfl))
          (hannotated a ha _ (.inr rfl))

theorem raisesOnly_checkRouting (hdrs : Multimap) (supported : List Str) (method : Str)
    (params : Json φ) (headerVersion : Option Str) (version : Str) :
    RaisesOnly (EnvelopeError.IsLabelled U toolSchemas)
      (checkRouting U hdrs supported toolSchemas method params headerVersion version) := by
  unfold checkRouting
  refine (raisesOnly_ite_error_iff (isLabelled_fixed (by decide))).mpr fun _ => ?_
  refine (raisesOnly_ite_error_iff (isLabelled_unsupported _ _)).mpr fun _ => ?_
  refine raisesOnly_bind_iff.mpr ⟨raisesOnly_single hdrs (.inl (by decide)), fun _ _ => ?_⟩
  refine (raisesOnly_ite_error_iff (isLabelled_fixed (by decide))).mpr fun _ => ?_
  refine raisesOnly_bind_iff.mpr ⟨raisesOnly_checkName hdrs method params, fun _ _ => ?_⟩
  exact raisesOnly_bind_iff.mpr ⟨raisesOnly_checkParams hdrs method params,
    fun _ _ => raisesOnly_ok _⟩

theorem raisesOnly_of_labelled {α : Type} {hdrs : Multimap} {supported : List Str}
    {x : Except EnvelopeError α} (h : RaisesOnly (EnvelopeError.IsLabelled U toolSchemas) x) :
    RaisesOnly (EnvelopeError.IsRaised U toolSchemas hdrs supported) x :=
  fun e he => .inl (h e he)

theorem raisesOnly_rejected {α : Type} {hdrs : Multimap} {supported : List Str} {code : Int}
    {message reason : String} (hcode : code ∈ errorCodes) (hreason : lit reason ∈ fixedLabels) :
    RaisesOnly (EnvelopeError.IsRaised U toolSchemas hdrs supported)
      (.error (rejected code message reason) : Except EnvelopeError α) :=
  raisesOnly_error_iff.mpr (.inl (isLabelled_rejected hcode hreason))

/-- An error that allows the fallback comes after the gate. -/
theorem raisesOnly_gated {α : Type} {hdrs : Multimap} {supported : List Str} {e : EnvelopeError}
    (h : e ∈ fallbackErrors) :
    RaisesOnly (EnvelopeError.IsRaised U toolSchemas hdrs supported)
      (legacyGate U hdrs supported >>= fun _ => (.error e : Except EnvelopeError α)) := by
  refine raisesOnly_bind_iff.mpr ⟨raisesOnly_of_labelled (raisesOnly_legacyGate hdrs supported),
    fun _ hgate => ?_⟩
  exact raisesOnly_error_iff.mpr (.inr ⟨h, hgate⟩)

theorem raisesOnly_checkRequest (hdrs : Multimap) (supported : List Str) (method : Str)
    (params : Json φ) : RaisesOnly (EnvelopeError.IsRaised U toolSchemas hdrs supported)
      (checkRequest U hdrs supported toolSchemas method params) := by
  unfold checkRequest
  refine raisesOnly_bind_iff.mpr
    ⟨raisesOnly_of_labelled (raisesOnly_single hdrs (.inl (by decide))), fun _ _ => ?_⟩
  dsimp only
  split
  · exact raisesOnly_gated (by decide)
  · split
    · exact raisesOnly_gated (by decide)
    · exact raisesOnly_of_labelled (raisesOnly_checkRouting hdrs supported method params _ _)
    · exact raisesOnly_rejected (by decide) (by decide)
  · exact raisesOnly_rejected (by decide) (by decide)

/-- Whatever is raised has a label, or comes after the legacy gate. -/
theorem raisesOnly_validateRequestMetadata (headers : HeaderInput) (body : Json φ)
    (supportedVersions : List Str) (wsgiEnviron : Bool) :
    RaisesOnly (fun e => e.IsLabelled U toolSchemas ∨ ∃ hdrs,
        headerMultimap U wsgiEnviron headers = .ok hdrs ∧
          e.IsRaised U toolSchemas hdrs (sortStrs supportedVersions.dedup))
      (validateRequestMetadata U headers body supportedVersions toolSchemas wsgiEnviron) := by
  unfold validateRequestMetadata
  refine raisesOnly_bind_iff.mpr ⟨?_, fun hdrs hhdrs => ?_⟩
  · exact fun e he => .inl (raisesOnly_headerMultimap wsgiEnviron headers e he)
  · refine fun e he => .inr ⟨hdrs, hhdrs, ?_⟩
    revert e
    change RaisesOnly _ _
    dsimp only
    split
    · exact raisesOnly_gated (by decide)
    · split
      · exact raisesOnly_rejected (by decide) (by decide)
      · exact raisesOnly_checkRequest hdrs _ _ _
      · exact raisesOnly_rejected (by decide) (by decide)
    · exact raisesOnly_rejected (by decide) (by decide)

/-- The code and the reason of what is raised. -/
theorem code_reason_of_raised {headers : HeaderInput} {body : Json φ} {supportedVersions : List Str}
    {wsgiEnviron : Bool} {e : RequestMetadataError}
    (h : validateRequestMetadata U headers body supportedVersions toolSchemas wsgiEnviron =
      .error (.metadata e)) :
    e.code ∈ errorCodes ∧ (IsLabel U toolSchemas e.reason ∨ e.reason ∈ fallbackReasons) := by
  have hfallback : EnvelopeError.metadata e ∈ fallbackErrors →
      e.code ∈ errorCodes ∧ e.reason ∈ fallbackReasons := by
    intro he
    rcases List.mem_pair.mp he with he | he
    · cases he
      exact ⟨by decide, by decide⟩
    · cases he
      exact ⟨by decide, by decide⟩
  rcases raisesOnly_validateRequestMetadata headers body supportedVersions wsgiEnviron _ h with
    hlabel | ⟨_, -, hlabel | ⟨he, -⟩⟩
  · exact ⟨hlabel.1, .inl hlabel.2⟩
  · exact ⟨hlabel.1, .inl hlabel.2⟩
  · exact ⟨(hfallback he).1, .inr (hfallback he).2⟩

/-- An error that allows the fallback was raised past the legacy gate. -/
theorem legacyGate_of_fallback {headers : HeaderInput} {body : Json φ}
    {supportedVersions : List Str} {wsgiEnviron : Bool} {e : RequestMetadataError}
    (h : validateRequestMetadata U headers body supportedVersions toolSchemas wsgiEnviron =
      .error (.metadata e)) (he : e.reason ∈ fallbackReasons) :
    ∃ hdrs, headerMultimap U wsgiEnviron headers = .ok hdrs ∧
      legacyGate U hdrs (sortStrs supportedVersions.dedup) = .ok () := by
  rcases raisesOnly_validateRequestMetadata headers body supportedVersions wsgiEnviron _ h with
    hlabel | ⟨hdrs, hhdrs, hlabel | ⟨-, hgate⟩⟩
  · exact absurd he hlabel.2.not_fallback
  · exact absurd he hlabel.2.not_fallback
  · exact ⟨hdrs, hhdrs, hgate⟩

end

end CosaiMcp.Middleware.RequestMeta
