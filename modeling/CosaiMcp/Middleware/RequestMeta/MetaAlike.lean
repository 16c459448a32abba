import CosaiMcp.Middleware.RequestMeta.Envelope

/-!
# Requests that differ in their claims

Two messages are alike if they differ in what their `_meta` claims only, and the claims conflict
alike. The validation of the envelope reads no more of a `_meta` than its protocol version, so that
it cannot tell alike requests apart (`validateRequestMetadata_congr`).
-/

namespace CosaiMcp.Middleware.RequestMeta

open Py Protocol

variable {φ : Type}

/-- A `_meta` that is there but no mapping. -/
def IsMalformed : Json φ → Prop
  | .null | .obj _ => False
  | _ => True

/-- Objects that agree under every key but some, under which their values are related. -/
inductive AlikeAt (keys : List Str) (R : Str → Json φ → Json φ → Prop) : Json φ → Json φ → Prop
  | refl (j : Json φ) : AlikeAt keys R j j
  | members {ms ns : List (Str × Json φ)}
      (hother : ∀ k, k ∉ keys → (Json.obj ms).get? k = (Json.obj ns).get? k)
      (h : ∀ k ∈ keys, R k ((Json.obj ms).getOrNull k) ((Json.obj ns).getOrNull k)) :
      AlikeAt keys R (.obj ms) (.obj ns)

/-- Two `_meta` of one protocol version and of the same conflicts. -/
inductive MetaAlike (conflicts : List (Str × Json φ) → List Str) : Json φ → Json φ → Prop
  | refl (j : Json φ) : MetaAlike conflicts j j
  | claims {fs gs : List (Str × Json φ)}
      (hversion : (Json.obj fs).get? metaProtocolVersion = (Json.obj gs).get? metaProtocolVersion)
      (hconflicts : conflicts fs = conflicts gs) : MetaAlike conflicts (.obj fs) (.obj gs)
  | malformed {v w : Json φ} (hv : IsMalformed v) (hw : IsMalformed w) : MetaAlike conflicts v w

section

variable (conflicts : List (Str × Json φ) → List Str)

def CarrierAlike : Json φ → Json φ → Prop :=
  AlikeAt [lit "_meta"] fun _ => MetaAlike conflicts

def ErrorAlike : Json φ → Json φ → Prop :=
  AlikeAt [lit "data"] fun _ => CarrierAlike conflicts

def MessageAlike : Json φ → Json φ → Prop :=
  AlikeAt [lit "params", lit "result", lit "error"] fun k =>
    if k = lit "error" then ErrorAlike conflicts else CarrierAlike conflicts

end

variable {conflicts : List (Str × Json φ) → List Str}

theorem AlikeAt.get?_eq {keys : List Str} {R : Str → Json φ → Json φ → Prop} {i j : Json φ}
    (h : AlikeAt keys R i j) {k : Str} (hk : k ∉ keys) : i.get? k = j.get? k := by
  cases h with
  | refl => rfl
  | members hother _ => exact hother k hk

theorem AlikeAt.getOrNull_alike {keys : List Str} {R : Str → Json φ → Json φ → Prop} {i j : Json φ}
    (hrefl : ∀ k v, R k v v) (h : AlikeAt keys R i j) {k : Str} (hk : k ∈ keys) :
    R k (i.getOrNull k) (j.getOrNull k) := by
  cases h with
  | refl => exact hrefl k _
  | members _ h => exact h k hk

theorem CarrierAlike.metaAlike {c d : Json φ} (h : CarrierAlike conflicts c d) :
    MetaAlike conflicts (c.getOrNull (lit "_meta")) (d.getOrNull (lit "_meta")) :=
  AlikeAt.getOrNull_alike (fun _ v => .refl v) h List.mem_cons_self

section Message

variable {m n : Json φ} (h : MessageAlike conflicts m n)

include h

theorem MessageAlike.alike {k : Str} (hk : k ∈ [lit "params", lit "result", lit "error"]) :
    (if k = lit "error" then ErrorAlike conflicts else CarrierAlike conflicts)
      (m.getOrNull k) (n.getOrNull k) := by
  refine AlikeAt.getOrNull_alike (fun k v => ?_) h hk
  split
  · exact .refl v
  · exact .refl v

theorem MessageAlike.params : CarrierAlike conflicts (m.getOrNull (lit "params"))
    (n.getOrNull (lit "params")) := by
  have hne : lit "params" ≠ lit "error" := by decide
  have halike := h.alike (List.mem_cons_self : lit "params" ∈ _)
  rwa [if_neg hne] at halike

theorem MessageAlike.result : CarrierAlike conflicts (m.getOrNull (lit "result"))
    (n.getOrNull (lit "result")) := by
  have hne : lit "result" ≠ lit "error" := by decide
  have halike := h.alike (List.mem_cons_of_mem _ List.mem_cons_self : lit "result" ∈ _)
  rwa [if_neg hne] at halike

theorem MessageAlike.error : ErrorAlike conflicts (m.getOrNull (lit "error"))
    (n.getOrNull (lit "error")) := by
  have hmem : lit "error" ∈ [lit "params", lit "result", lit "error"] := by decide
  have halike := h.alike hmem
  rwa [if_pos rfl] at halike

end Message

/-! ## Validation -/

section Validation

variable (U : UnicodeData) {hdrs : Multimap} {supported : List Str}
  {toolSchemas : Option (Dict Str (Json φ))} {p q : Json φ}

theorem CarrierAlike.get?_eq (h : CarrierAlike conflicts p q) {k : Str} (hk : k ≠ lit "_meta") :
    p.get? k = q.get? k :=
  AlikeAt.get?_eq h (by simpa using hk)

theorem nameField?_ne {method field : Str} (h : nameField? method = some field) :
    field ≠ lit "_meta" := by
  have hall : ∀ m ∈ nameBearingMethods, m.2 ≠ lit "_meta" := by decide
  obtain ⟨_, _, heq, -⟩ := List.lookup_eq_some_iff.mp h
  exact hall (method, field) (heq ▸ List.mem_append_right _ List.mem_cons_self)

theorem mcpNameFor_congr (h : CarrierAlike conflicts p q) (method : Str) :
    mcpNameFor method p = mcpNameFor method q := by
  unfold mcpNameFor
  cases hfield : nameField? method with
  | none => rfl
  | some field => rw [Option.bind_some, Option.bind_some, h.get?_eq (nameField?_ne hfield)]

theorem checkRouting_congr (h : CarrierAlike conflicts p q) (method : Str)
    (headerVersion : Option Str) (version : Str) :
    checkRouting U hdrs supported toolSchemas method p headerVersion version =
      checkRouting U hdrs supported toolSchemas method q headerVersion version := by
  have hname : lit "name" ≠ lit "_meta" := by decide
  have harguments : lit "arguments" ≠ lit "_meta" := by decide
  unfold checkRouting checkName checkParams Json.getOrNull
  rw [mcpNameFor_congr h, h.get?_eq hname, h.get?_eq harguments]

theorem checkRequest_congr (h : CarrierAlike conflicts p q) (method : Str) :
    checkRequest U hdrs supported toolSchemas method p =
      checkRequest U hdrs supported toolSchemas method q := by
  have hmeta := h.metaAlike
  unfold checkRequest
  simp only [checkRouting_congr U h]
  generalize p.getOrNull (lit "_meta") = v at hmeta
  generalize q.getOrNull (lit "_meta") = w at hmeta
  cases hmeta with
  | refl => rfl
  | claims hversion _ =>
    dsimp only
    rw [hversion]
  | malformed hv hw =>
    cases v with
    | null => exact hv.elim
    | obj _ => exact hv.elim
    | _ =>
      cases w with
      | null => exact hw.elim
      | obj _ => exact hw.elim
      | _ => rfl

theorem paramsOf_alike {m n : Json φ} (h : MessageAlike conflicts m n) :
    CarrierAlike conflicts (paramsOf m) (paramsOf n) := by
  have hparams := h.params
  unfold paramsOf
  generalize m.getOrNull (lit "params") = v at hparams
  generalize n.getOrNull (lit "params") = w at hparams
  cases hparams with
  | refl => exact .refl _
  | members hother hmeta => exact .members hother hmeta

/-- The validation cannot tell alike requests apart. -/
theorem validateRequestMetadata_congr {ms ns : List (Str × Json φ)}
    (h : MessageAlike conflicts (.obj ms) (.obj ns)) (headers : HeaderInput)
    (supportedVersions : List Str) (wsgiEnviron : Bool) :
    validateRequestMetadata U headers (.obj ms) supportedVersions toolSchemas wsgiEnviron =
      validateRequestMetadata U headers (.obj ns) supportedVersions toolSchemas wsgiEnviron := by
  have hmethod : lit "method" ∉ [lit "params", lit "result", lit "error"] := by decide
  unfold validateRequestMetadata
  simp only [AlikeAt.get?_eq h hmethod, checkRequest_congr U (paramsOf_alike h)]

/-- Nor batches, of which it reads nothing. -/
theorem validateRequestMetadata_arr (headers : HeaderInput) (js js' : List (Json φ))
    (supportedVersions : List Str) (wsgiEnviron : Bool) :
    validateRequestMetadata U headers (.arr js) supportedVersions toolSchemas wsgiEnviron =
      validateRequestMetadata U headers (.arr js') supportedVersions toolSchemas wsgiEnviron :=
  rfl

end Validation

end CosaiMcp.Middleware.RequestMeta
