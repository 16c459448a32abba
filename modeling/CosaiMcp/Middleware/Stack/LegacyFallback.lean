import CosaiMcp.Middleware.RequestMeta.EnvelopeErrors
import CosaiMcp.Middleware.RequestMeta.EnvelopeSpec
import CosaiMcp.Middleware.Stack.Envelope

/-!
# The legacy fallback

A server may hand a request to a legacy handler when the envelope check returns, or fails for one of
the two reasons of a legacy request. By then every `_meta` of the body was reconciled with the
principal, and a request that fails for one of these reasons has no modern routing header
(`legacy_fallback_reconciled`).
-/

namespace CosaiMcp.Middleware.Stack

open Py Protocol RequestMeta

variable {φ : Type}

/-- The body is an object or a batch of objects, of which each `_meta` was accepted. -/
def Reconciled (K : KeyNames) (c : EnvelopeCall φ) : Prop :=
  ∃ messages, c.body.messages? = some messages ∧ ∀ message ∈ messages,
    (∃ ms, message = .obj ms) ∧ ∀ carrier ∈ carriersOf message,
      carrier.getOrNull (lit "_meta") = .null ∨
        ∃ fields, carrier.getOrNull (lit "_meta") = .obj fields ∧
          reconcileMeta K c.principal c.allowedMetaKeys fields = .ok ()

/-- No routing header in any case, and at most one known legacy version. -/
structure Unrouted (U : UnicodeData) (items : List HeaderItem) : Prop where
  wellFormed : ∀ item ∈ items, WellFormed U item
  unrouted : ∀ p ∈ headerPairs U items,
    p.1 ≠ lit "mcp-method" ∧ p.1 ≠ lit "mcp-name" ∧ isParamName p.1 = false
  version : valuesOf (headerPairs U items) (lit "mcp-protocol-version") = [] ∨
    ∃ v ∈ legacyVersions, valuesOf (headerPairs U items) (lit "mcp-protocol-version") = [v]

def IsFallback (result : Except EnvelopeFailure Str) : Prop :=
  ∃ e, result = .error (.metadata e) ∧ e.reason ∈ fallbackReasons

/-- No result that leads to a handler skips the identity checks. -/
structure NoBypass (K : KeyNames) (U : UnicodeData) (c : EnvelopeCall φ) (items : List HeaderItem)
    (result : Except EnvelopeFailure Str) : Prop where
  reconciled : (∃ version, result = .ok version) ∨ IsFallback result → Reconciled K c
  unrouted : IsFallback result → Unrouted U items

section Gate

variable {U : UnicodeData} {items : List HeaderItem} {supported : List Str}

/-- What the legacy gate lets through. -/
theorem unrouted_of_legacyGate (hitems : ∀ item ∈ items, WellFormed U item)
    (h : legacyGate U (multimapOf (headerPairs U items)) supported = .ok ()) :
    Unrouted U items := by
  unfold legacyGate at h
  rw [lower_headerMethod, lower_headerName, lower_headerParamPrefix, ite_error_eq_ok_iff,
    ite_error_eq_ok_iff, ite_error_eq_ok_iff] at h
  obtain ⟨hmethod, hname, hparam, h⟩ := h
  rw [mem_keys_multimapOf] at hmethod hname
  rw [List.any_eq_true] at hparam
  refine ⟨hitems, fun p hp => ⟨?_, ?_, ?_⟩, ?_⟩
  · exact fun heq => hmethod ⟨p, hp, heq⟩
  · exact fun heq => hname ⟨p, hp, heq⟩
  · rw [← Bool.not_eq_true]
    exact fun hprefix => hparam ⟨p.1, mem_keys_multimapOf.mpr ⟨p, hp, rfl⟩, hprefix⟩
  · obtain ⟨hv, hsingle, h⟩ := bind_eq_ok_iff.mp h
    cases hv with
    | none =>
      rw [single_eq_ok_none_iff, lower_headerProtocolVersion] at hsingle
      exact .inl hsingle
    | some hv =>
      rw [single_eq_ok_some_iff, lower_headerProtocolVersion] at hsingle
      dsimp only at h
      split at h
      · next hlegacy => exact .inr ⟨hv, hlegacy, hsingle⟩
      · split at h
        · cases h
        · cases h

end Gate

section Reconciliation

variable [FloatText φ] {rt : Audit.Runtime φ} {K : KeyNames} {c : EnvelopeCall φ}
  {σ : StackState φ}

omit [FloatText φ] in
theorem andThen_eq_ok {α β : Type} {x : Except EnvelopeFailure α × StackState φ}
    {f : α → StackState φ → Except EnvelopeFailure β × StackState φ} {b : β}
    (h : (andThen x f).1 = .ok b) : ∃ a, x.1 = .ok a ∧ (f a x.2).1 = .ok b := by
  obtain ⟨result, σ⟩ := x
  cases result with
  | error e => cases h
  | ok a => exact ⟨a, rfl, h⟩

omit [FloatText φ] in
theorem andThen_eq_error {α β : Type} {x : Except EnvelopeFailure α × StackState φ}
    {f : α → StackState φ → Except EnvelopeFailure β × StackState φ} {e : EnvelopeFailure}
    (h : (andThen x f).1 = .error e) :
    x.1 = .error e ∨ ∃ a, x.1 = .ok a ∧ (f a x.2).1 = .error e := by
  obtain ⟨result, σ⟩ := x
  cases result with
  | error e' => exact .inl (congrArg Except.error (Except.error.inj h))
  | ok a => exact .inr ⟨a, rfl, h⟩

/-- Reconciliation fails with a `MetaTrustError` only. -/
theorem error_reconcileCarriers {carriers : List (Json φ)} {e : EnvelopeFailure}
    (h : (reconcileCarriers rt K c σ carriers).1 = .error e) : ∃ keys, e = .metaTrust keys := by
  induction carriers generalizing σ with
  | nil => cases h
  | cons carrier carriers ih =>
    rcases andThen_eq_error h with h | ⟨_, -, h⟩
    · unfold reconcileCarrier at h
      split at h
      · cases h
      · split at h
        · cases h
        · exact ⟨_, (Except.error.inj h).symm⟩
      · exact ⟨_, (Except.error.inj h).symm⟩
    · exact ih h

theorem error_reconcileMessages {messages : List (Json φ)} {e : EnvelopeFailure}
    (h : (reconcileMessages rt K c σ messages).1 = .error e) : ∃ keys, e = .metaTrust keys := by
  induction messages generalizing σ with
  | nil => cases h
  | cons message messages ih =>
    unfold reconcileMessages at h
    split at h
    · rcases andThen_eq_error h with h | ⟨_, -, h⟩
      · exact error_reconcileCarriers h
      · exact ih h
    · exact ⟨_, (Except.error.inj h).symm⟩

theorem of_reconcileCarrier {carrier : Json φ}
    (h : (reconcileCarrier rt K c σ carrier).1 = .ok ()) :
    carrier.getOrNull (lit "_meta") = .null ∨
      ∃ fields, carrier.getOrNull (lit "_meta") = .obj fields ∧
        reconcileMeta K c.principal c.allowedMetaKeys fields = .ok () := by
  unfold reconcileCarrier at h
  split at h
  · next hmeta => exact .inl hmeta
  · next fields hmeta =>
    split at h
    · next hreconciled => exact .inr ⟨fields, hmeta, hreconciled⟩
    · cases h
  · cases h

theorem of_reconcileCarriers {carriers : List (Json φ)}
    (h : (reconcileCarriers rt K c σ carriers).1 = .ok ()) : ∀ carrier ∈ carriers,
      carrier.getOrNull (lit "_meta") = .null ∨
        ∃ fields, carrier.getOrNull (lit "_meta") = .obj fields ∧
          reconcileMeta K c.principal c.allowedMetaKeys fields = .ok () := by
  induction carriers generalizing σ with
  | nil => exact fun _ hmem => nomatch hmem
  | cons carrier carriers ih =>
    obtain ⟨_, hfirst, hrest⟩ := andThen_eq_ok h
    exact List.forall_mem_cons.mpr ⟨of_reconcileCarrier hfirst, ih hrest⟩

theorem of_reconcileMessages {messages : List (Json φ)}
    (h : (reconcileMessages rt K c σ messages).1 = .ok ()) : ∀ message ∈ messages,
      (∃ ms, message = .obj ms) ∧ ∀ carrier ∈ carriersOf message,
        carrier.getOrNull (lit "_meta") = .null ∨
          ∃ fields, carrier.getOrNull (lit "_meta") = .obj fields ∧
            reconcileMeta K c.principal c.allowedMetaKeys fields = .ok () := by
  induction messages generalizing σ with
  | nil => exact fun _ hmem => nomatch hmem
  | cons message messages ih =>
    unfold reconcileMessages at h
    split at h
    · obtain ⟨_, hfirst, hrest⟩ := andThen_eq_ok h
      exact List.forall_mem_cons.mpr ⟨⟨⟨_, rfl⟩, of_reconcileCarriers hfirst⟩, ih hrest⟩
    · cases h

/-- A check that returned, or failed in the validation, has reconciled the body before. -/
theorem reconciled_of_ok {U : UnicodeData} {version : Str}
    (h : (checkRequestEnvelope rt K U c σ).1 = .ok version) : Reconciled K c := by
  unfold checkRequestEnvelope at h
  split at h
  · cases h
  · next messages hmessages =>
    obtain ⟨_, hreconciled, -⟩ := andThen_eq_ok h
    exact ⟨messages, hmessages, of_reconcileMessages hreconciled⟩

theorem validated_of_error {U : UnicodeData} {e : RequestMetadataError}
    (h : (checkRequestEnvelope rt K U c σ).1 = .error (.metadata e)) :
    Reconciled K c ∧ validateRequestMetadata U c.headers c.body.json modernVersions c.toolSchemas
      c.wsgiEnviron = .error (.metadata e) := by
  unfold checkRequestEnvelope at h
  split at h
  · cases h
  · next messages hmessages =>
    rcases andThen_eq_error h with h | ⟨_, hreconciled, h⟩
    · obtain ⟨keys, hkeys⟩ := error_reconcileMessages h
      cases hkeys
    · refine ⟨⟨messages, hmessages, of_reconcileMessages hreconciled⟩, ?_⟩
      split at h
      · cases h
      · cases h
      · next herror =>
        cases h
        exact herror

/-- **A fallback to a legacy handler never skips the identity checks.** -/
theorem legacy_fallback_reconciled (rt : Audit.Runtime φ) (K : KeyNames) (U : UnicodeData)
    (items : List HeaderItem) (c : EnvelopeCall φ) (σ : StackState φ) :
    NoBypass K U c items (checkRequestEnvelope rt K U
      { c with headers := .pairs items, wsgiEnviron := false } σ).1 := by
  constructor
  · rintro (⟨version, h⟩ | ⟨e, h, -⟩)
    · have hreconciled := reconciled_of_ok h
      exact hreconciled
    · have hvalidated := validated_of_error h
      exact hvalidated.1
  · rintro ⟨e, h, hreason⟩
    obtain ⟨hdrs, hhdrs, hgate⟩ := legacyGate_of_fallback (validated_of_error h).2 hreason
    obtain ⟨hitems, rfl⟩ := headerMultimap_pairs_eq_ok_iff.mp hhdrs
    exact unrouted_of_legacyGate hitems hgate

end Reconciliation

end CosaiMcp.Middleware.Stack
