import CosaiMcp.Middleware.RequestMeta.Envelope
import CosaiMcp.Middleware.RequestMeta.Reconcile
import CosaiMcp.Middleware.Stack.ToolCall

/-!
# The envelope check of the stack

`check_request_envelope` reconciles every `_meta` of the body with the principal, whatever the era of
the request, and then validates the routing headers. A rejection is logged where it is found: by the
callback of `reconcile_meta`, or by the `except` clauses around the validation.
-/

namespace CosaiMcp.Middleware.Stack

open Py Protocol RequestMeta

/-! ## Calls -/

/-- A body: a value of JSON, a string among them, or bytes that were not parsed. -/
inductive RequestBody (φ : Type) where
  | parsed (j : Json φ)
  | octets (b : Bytes)

/-- The arguments of a call, and what the log draws for its entry. -/
structure EnvelopeCall (φ : Type) where
  headers : HeaderInput
  body : RequestBody φ
  principal : AuthenticatedPrincipal
  toolSchemas : Option (Dict Str (Json φ))
  allowedMetaKeys : Option (List Str)
  wsgiEnviron : Bool
  sessionId : Str
  entryId : Str
  logTime : φ

inductive EnvelopeFailure where
  | typeError (message : Str)
  | metaTrust (keys : List Str)
  | metadata (error : RequestMetadataError)
deriving DecidableEq

variable {φ : Type}

/-! ## Audit -/

/-- A call of `self.audit.log`, of the kind `kind`. -/
def EnvelopeCall.logCall (c : EnvelopeCall φ) (kind : Str) (params event : List (Str × Json φ)) :
    Audit.LogCall φ where
  entryId := c.entryId
  now := c.logTime
  method := lit "check_request_envelope:" ++ kind
  sessionId := c.sessionId
  params := some params
  parentId := none
  event := some event

def EnvelopeCall.subject (c : EnvelopeCall φ) : Str × Json φ :=
  (lit "principal", .str c.principal.subject)

/-- `_log`. -/
def EnvelopeCall.mismatchLog (c : EnvelopeCall φ) (keys : List Str) : Audit.LogCall φ :=
  c.logCall (lit "meta_mismatch") [(lit "keys", .arr (keys.map .str)), c.subject]
    [c.subject, (lit "keys", .arr (keys.map .str))]

/-- The entry of a body or of headers that no check can read. -/
def EnvelopeCall.invalidLog (c : EnvelopeCall φ) (kind check : String) : Audit.LogCall φ :=
  c.logCall (lit kind) [c.subject] [c.subject, (lit "check", .str (lit check))]

/-- `_AUDIT_LABELS.get(code, "invalid_request")`. -/
def auditLabel (code : Int) : Str :=
  if code = errHeaderMismatch then lit "header_mismatch"
  else if code = errUnsupportedProtocolVersion then lit "unsupported_version"
  else if code = -32602 then lit "invalid_params"
  else lit "invalid_request"

def EnvelopeCall.metadataLog (c : EnvelopeCall φ) (e : RequestMetadataError) : Audit.LogCall φ :=
  c.logCall (auditLabel e.code) [(lit "code", .int e.code), (lit "check", .str e.reason), c.subject]
    [c.subject, (lit "code", .int e.code), (lit "check", .str e.reason)]

/-! ## Carriers -/

/-- What may carry a `_meta`: the parameters and the result of a message, and the data of its
error. -/
def carriersOf (message : Json φ) : List (Json φ) :=
  [message.getOrNull (lit "params"), message.getOrNull (lit "result")] ++
    match message.getOrNull (lit "error") with
    | .obj ms => [(Json.obj ms).getOrNull (lit "data")]
    | _ => []

section Check

variable [FloatText φ] (rt : Audit.Runtime φ) (K : KeyNames) (U : UnicodeData)

/-- `self.audit.log`, where there is a logger. -/
def StackState.log (σ : StackState φ) (q : Audit.LogCall φ) : StackState φ :=
  { σ with audit := σ.audit.map fun log => (log.log rt q).1 }

omit [FloatText φ] in
/-- Go on where a step returned, with the state that it left. -/
def andThen {α β : Type} (x : Except EnvelopeFailure α × StackState φ)
    (f : α → StackState φ → Except EnvelopeFailure β × StackState φ) :
    Except EnvelopeFailure β × StackState φ :=
  match x with
  | (.error e, σ) => (.error e, σ)
  | (.ok a, σ) => f a σ

/-- Reconcile the `_meta` of one carrier. -/
def reconcileCarrier (c : EnvelopeCall φ) (σ : StackState φ) (carrier : Json φ) :
    Except EnvelopeFailure Unit × StackState φ :=
  match carrier.getOrNull (lit "_meta") with
  | .null => (.ok (), σ)
  | .obj fields =>
    match reconcileMeta K c.principal c.allowedMetaKeys fields with
    | .ok () => (.ok (), σ)
    | .error keys => (.error (.metaTrust keys), σ.log rt (c.mismatchLog keys))
  | _ => (.error (.metaTrust [lit "_meta"]), σ.log rt (c.mismatchLog [lit "_meta"]))

def reconcileCarriers (c : EnvelopeCall φ) (σ : StackState φ) :
    List (Json φ) → Except EnvelopeFailure Unit × StackState φ
  | [] => (.ok (), σ)
  | carrier :: carriers =>
    andThen (reconcileCarrier rt K c σ carrier) fun _ σ => reconcileCarriers c σ carriers

/-- The loop over the messages of a body, of which those of a batch may be anything. -/
def reconcileMessages (c : EnvelopeCall φ) (σ : StackState φ) :
    List (Json φ) → Except EnvelopeFailure Unit × StackState φ
  | [] => (.ok (), σ)
  | message :: messages =>
    match message with
    | .obj _ =>
      andThen (reconcileCarriers rt K c σ (carriersOf message)) fun _ σ =>
        reconcileMessages c σ messages
    | _ => (.error (.metaTrust [lit "<batch element>"]),
        σ.log rt (c.mismatchLog [lit "<batch element>"]))

/-- The messages of a body; `none` if it is neither an object nor a batch. -/
def RequestBody.messages? : RequestBody φ → Option (List (Json φ))
  | .parsed (.obj ms) => some [.obj ms]
  | .parsed (.arr js) => some js
  | _ => none

def RequestBody.json : RequestBody φ → Json φ
  | .parsed j => j
  | .octets _ => .null

/-- `check_request_envelope`; it returns the protocol version. -/
def checkRequestEnvelope (c : EnvelopeCall φ) (σ : StackState φ) :
    Except EnvelopeFailure Str × StackState φ :=
  match c.body.messages? with
  | none =>
    (.error (.typeError (lit "check_request_envelope requires the parsed JSON-RPC body " ++
        lit "(object or batch array)")),
      σ.log rt (c.invalidLog "invalid_body" "unparsed_body"))
  | some messages =>
    andThen (reconcileMessages rt K c σ messages) fun _ σ =>
      match validateRequestMetadata U c.headers c.body.json modernVersions c.toolSchemas
          c.wsgiEnviron with
      | .ok version => (.ok version, σ)
      | .error (.typeError message) =>
        (.error (.typeError message),
          σ.log rt (c.invalidLog "invalid_headers" "unsupported_header_type"))
      | .error (.metadata e) => (.error (.metadata e), σ.log rt (c.metadataLog e))

end Check

end CosaiMcp.Middleware.Stack
