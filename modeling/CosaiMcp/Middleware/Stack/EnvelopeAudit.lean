import CosaiMcp.Middleware.RequestMeta.EnvelopeErrors
import CosaiMcp.Middleware.RequestMeta.MetaAlike
import CosaiMcp.Middleware.Stack.Envelope

/-!
# One entry for each rejection

A rejected request leaves one entry in the audit log, wherever it was rejected, and an accepted one
leaves none (`checkRequestEnvelope_audited_once`). What an entry tells of the request is which keys
of a `_meta` conflict, or which check failed.
-/

namespace CosaiMcp.Middleware.Stack

open Py Protocol RequestMeta

variable {φ : Type}

/-- A key path as it is reported: short and printable, or one of the two labels. -/
def IsReportedKey (K : KeyNames) (key : Str) : Prop :=
  key = lit "<batch element>" ∨ key = lit "_meta" ∨
    (key.length ≤ 128 ∧ ∀ c ∈ key, K.isPrintable c = true ∨ c = 63)

/-- What the event of an entry may hold: the subject, and the conflicting keys, or the check that
failed and its code. -/
inductive EnvelopeEvent (K : KeyNames) (U : UnicodeData) (c : EnvelopeCall φ) :
    List (Str × Json φ) → Prop
  | mismatch {keys : List Str} (hkeys : ∀ key ∈ keys, IsReportedKey K key)
      (hlength : keys.length ≤ 32) :
      EnvelopeEvent K U c [c.subject, (lit "keys", .arr (keys.map .str))]
  | unparsedBody :
      EnvelopeEvent K U c [c.subject, (lit "check", .str (lit "unparsed_body"))]
  | headerType :
      EnvelopeEvent K U c [c.subject, (lit "check", .str (lit "unsupported_header_type"))]
  | metadata {code : Int} {reason : Str} (hcode : code ∈ errorCodes)
      (hreason : IsLabel U c.toolSchemas reason ∨ reason ∈ fallbackReasons) :
      EnvelopeEvent K U c [c.subject, (lit "code", .int code), (lit "check", .str reason)]

/-- Bodies that differ in what their `_meta` claim only, with the same conflicts. -/
inductive BodyAlike (conflicts : List (Str × Json φ) → List Str) :
    RequestBody φ → RequestBody φ → Prop
  | object {ms ns : List (Str × Json φ)} (h : MessageAlike conflicts (.obj ms) (.obj ns)) :
      BodyAlike conflicts (.parsed (.obj ms)) (.parsed (.obj ns))
  | batch {js js' : List (Json φ)} (h : List.Forall₂ (MessageAlike conflicts) js js') :
      BodyAlike conflicts (.parsed (.arr js)) (.parsed (.arr js'))

variable [FloatText φ] (rt : Audit.Runtime φ) (K : KeyNames) (U : UnicodeData)

/-- A computation that leaves one entry if it raises, and none if it returns. -/
structure LoggedOnce {α : Type} (c : EnvelopeCall φ) (σ : StackState φ)
    (result : Except EnvelopeFailure α × StackState φ) : Prop where
  returned : ∀ a, result.1 = .ok a → result.2 = σ
  raised : ∀ e, result.1 = .error e → ∃ q event, result.2 = σ.log rt q ∧ q.event = some event ∧
    EnvelopeEvent K U c event

/-- One entry for each rejection and none otherwise, whatever the `_meta` claim. -/
structure AuditedOnce (c : EnvelopeCall φ) (σ : StackState φ) : Prop where
  logged : LoggedOnce rt K U c σ (checkRequestEnvelope rt K U c σ)
  independent : ∀ body, BodyAlike (conflictsOf K c.principal c.allowedMetaKeys) c.body body →
    checkRequestEnvelope rt K U { c with body } σ = checkRequestEnvelope rt K U c σ

section Logged

variable {rt K U} {c : EnvelopeCall φ} {σ : StackState φ}

theorem loggedOnce_ok {α : Type} (a : α) : LoggedOnce rt K U c σ (.ok a, σ) :=
  ⟨fun _ _ => rfl, nofun⟩

theorem loggedOnce_error {α : Type} {e : EnvelopeFailure} {q : Audit.LogCall φ}
    {event : List (Str × Json φ)} (hq : q.event = some event) (h : EnvelopeEvent K U c event) :
    LoggedOnce rt K U c σ ((.error e : Except EnvelopeFailure α), σ.log rt q) :=
  ⟨nofun, fun _ _ => ⟨q, event, rfl, hq, h⟩⟩

/-- A computation that goes on where another one returned. -/
theorem LoggedOnce.bind {α β : Type} {x : Except EnvelopeFailure α × StackState φ}
    {f : α → StackState φ → Except EnvelopeFailure β × StackState φ}
    (hx : LoggedOnce rt K U c σ x) (hf : ∀ a, LoggedOnce rt K U c σ (f a σ)) :
    LoggedOnce rt K U c σ (andThen x f) := by
  obtain ⟨result, σ'⟩ := x
  cases result with
  | error e => exact ⟨nofun, fun _ _ => hx.raised e rfl⟩
  | ok a =>
    have hσ := hx.returned a rfl
    dsimp only at hσ
    subst hσ
    exact hf a

theorem isReportedKey_safeKey (key : Str) : IsReportedKey K (safeKey K key) := by
  refine .inr (.inr ⟨?_, fun c hc => ?_⟩)
  · rw [safeKey, List.length_map, List.length_take]
    omega
  · obtain ⟨d, -, rfl⟩ := List.mem_map.mp hc
    split
    · next hd => exact .inl hd
    · exact .inr rfl

omit [FloatText φ] in
/-- What is reported of conflicts is safe to log. -/
theorem envelopeEvent_reportedKeys (bad : List Str) : EnvelopeEvent K U c
    [c.subject, (lit "keys", .arr ((reportedKeys K bad).map .str))] := by
  refine .mismatch (fun key hkey => ?_) ?_
  · obtain ⟨path, -, rfl⟩ := List.mem_map.mp (mem_sortStrs.mp (List.mem_of_mem_take hkey))
    exact isReportedKey_safeKey path
  · rw [reportedKeys, List.length_take]
    omega

omit [FloatText φ] in
theorem envelopeEvent_label {key : Str} (h : IsReportedKey K key) : EnvelopeEvent K U c
    [c.subject, (lit "keys", .arr ([key].map .str))] :=
  .mismatch (List.forall_mem_singleton.mpr h) (Nat.le_add_left 1 31)

theorem loggedOnce_reconcileCarrier (carrier : Json φ) :
    LoggedOnce rt K U c σ (reconcileCarrier rt K c σ carrier) := by
  unfold reconcileCarrier
  split
  · exact loggedOnce_ok ()
  · unfold reconcileMeta
    dsimp only
    split
    · next h =>
      split at h
      · exact loggedOnce_ok ()
      · cases h
    · next h =>
      split at h
      · cases h
      · cases h
        exact loggedOnce_error rfl (envelopeEvent_reportedKeys _)
  · exact loggedOnce_error rfl (envelopeEvent_label (.inr (.inl rfl)))

theorem loggedOnce_reconcileCarriers (carriers : List (Json φ)) :
    LoggedOnce rt K U c σ (reconcileCarriers rt K c σ carriers) := by
  induction carriers with
  | nil => exact loggedOnce_ok ()
  | cons carrier carriers ih =>
    exact (loggedOnce_reconcileCarrier carrier).bind fun _ => ih

theorem loggedOnce_reconcileMessages (messages : List (Json φ)) :
    LoggedOnce rt K U c σ (reconcileMessages rt K c σ messages) := by
  induction messages with
  | nil => exact loggedOnce_ok ()
  | cons message messages ih =>
    unfold reconcileMessages
    split
    · exact (loggedOnce_reconcileCarriers _).bind fun _ => ih
    · exact loggedOnce_error rfl (envelopeEvent_label (.inl rfl))

theorem loggedOnce_checkRequestEnvelope :
    LoggedOnce rt K U c σ (checkRequestEnvelope rt K U c σ) := by
  unfold checkRequestEnvelope
  split
  · exact loggedOnce_error rfl .unparsedBody
  · next messages _ =>
    refine (loggedOnce_reconcileMessages messages).bind fun _ => ?_
    split
    · exact loggedOnce_ok _
    · exact loggedOnce_error rfl .headerType
    · next e he =>
      obtain ⟨hcode, hreason⟩ := code_reason_of_raised he
      exact loggedOnce_error rfl (.metadata hcode hreason)

end Logged

/-! ## Alike bodies -/

section Alike

variable {rt K U} {c : EnvelopeCall φ} {σ : StackState φ}
  {conflicts : List (Str × Json φ) → List Str}

omit [FloatText φ] in
theorem carriersOf_alike {m n : Json φ} (h : MessageAlike conflicts m n) :
    List.Forall₂ (CarrierAlike conflicts) (carriersOf m) (carriersOf n) := by
  have herror := h.error
  unfold carriersOf
  refine .cons h.params (.cons h.result ?_)
  generalize m.getOrNull (lit "error") = v at herror
  generalize n.getOrNull (lit "error") = w at herror
  cases herror with
  | refl =>
    split
    · exact .cons (.refl _) .nil
    · exact .nil
  | members hother hdata => exact .cons (hdata _ List.mem_cons_self) .nil

/-- Reconciliation is given the messages, and does not look at the body of the call. -/
theorem reconcileCarriers_body (body : RequestBody φ) (carriers : List (Json φ)) :
    reconcileCarriers rt K { c with body } σ carriers = reconcileCarriers rt K c σ carriers := by
  induction carriers generalizing σ with
  | nil => rfl
  | cons carrier carriers ih =>
    unfold reconcileCarriers
    simp only [ih]
    rfl

theorem reconcileMessages_body (body : RequestBody φ) (messages : List (Json φ)) :
    reconcileMessages rt K { c with body } σ messages = reconcileMessages rt K c σ messages := by
  induction messages generalizing σ with
  | nil => rfl
  | cons message messages ih =>
    unfold reconcileMessages
    simp only [ih, reconcileCarriers_body]
    rfl

theorem reconcileCarrier_congr {carrier carrier' : Json φ}
    (h : CarrierAlike (conflictsOf K c.principal c.allowedMetaKeys) carrier carrier') :
    reconcileCarrier rt K c σ carrier = reconcileCarrier rt K c σ carrier' := by
  have hmeta := h.metaAlike
  unfold reconcileCarrier
  generalize carrier.getOrNull (lit "_meta") = v at hmeta
  generalize carrier'.getOrNull (lit "_meta") = w at hmeta
  cases hmeta with
  | refl => rfl
  | claims _ hconflicts =>
    dsimp only [reconcileMeta]
    rw [hconflicts]
  | malformed hv hw =>
    cases v with
    | null => exact hv.elim
    | obj _ => exact hv.elim
    | _ =>
      cases w with
      | null => exact hw.elim
      | obj _ => exact hw.elim
      | _ => rfl

theorem reconcileCarriers_congr {carriers carriers' : List (Json φ)}
    (h : List.Forall₂ (CarrierAlike (conflictsOf K c.principal c.allowedMetaKeys)) carriers
      carriers') :
    reconcileCarriers rt K c σ carriers = reconcileCarriers rt K c σ carriers' := by
  induction h generalizing σ with
  | nil => rfl
  | cons hcarrier _ ih =>
    unfold reconcileCarriers
    simp only [reconcileCarrier_congr hcarrier, ih]

theorem reconcileMessages_congr {messages messages' : List (Json φ)}
    (h : List.Forall₂ (MessageAlike (conflictsOf K c.principal c.allowedMetaKeys)) messages
      messages') :
    reconcileMessages rt K c σ messages = reconcileMessages rt K c σ messages' := by
  induction h generalizing σ with
  | nil => rfl
  | @cons m n _ _ hmessage _ ih =>
    have hcarriers : reconcileCarriers rt K c σ _ = _ :=
      reconcileCarriers_congr (carriersOf_alike hmessage)
    unfold reconcileMessages
    cases hmessage with
    | refl => simp only [ih]
    | members _ _ => simp only [hcarriers, ih]

omit [FloatText φ] in
theorem validateRequestMetadata_alike {body body' : RequestBody φ}
    (h : BodyAlike conflicts body body')
    (headers : HeaderInput) (toolSchemas : Option (Dict Str (Json φ))) (wsgiEnviron : Bool) :
    validateRequestMetadata U headers body.json modernVersions toolSchemas wsgiEnviron =
      validateRequestMetadata U headers body'.json modernVersions toolSchemas wsgiEnviron := by
  cases h with
  | object h => exact validateRequestMetadata_congr U h headers modernVersions wsgiEnviron
  | batch _ => exact validateRequestMetadata_arr U headers _ _ modernVersions wsgiEnviron

omit [FloatText φ] in
theorem messages?_alike {body body' : RequestBody φ} (h : BodyAlike conflicts body body') :
    ∃ ms ns, body.messages? = some ms ∧ body'.messages? = some ns ∧
      List.Forall₂ (MessageAlike conflicts) ms ns := by
  cases h with
  | object h => exact ⟨_, _, rfl, rfl, .cons h .nil⟩
  | batch h => exact ⟨_, _, rfl, rfl, h⟩

theorem checkRequestEnvelope_congr {body : RequestBody φ}
    (h : BodyAlike (conflictsOf K c.principal c.allowedMetaKeys) c.body body) :
    checkRequestEnvelope rt K U { c with body } σ = checkRequestEnvelope rt K U c σ := by
  obtain ⟨ms, ns, hms, hns, halike⟩ := messages?_alike h
  have hmessages : reconcileMessages rt K { c with body } σ ns = reconcileMessages rt K c σ ms :=
    (reconcileMessages_body body ns).trans (reconcileMessages_congr halike).symm
  unfold checkRequestEnvelope
  dsimp only
  rw [hms, hns]
  dsimp only
  rw [hmessages, validateRequestMetadata_alike h]
  rfl

end Alike

end CosaiMcp.Middleware.Stack
