import CosaiMcp.Promises
import CosaiMcp.Py.Record
import CosaiMcp.Run
import CosaiMcp.Transport.LegacySse

/-!
# Requests over the legacy SSE transport

`LegacySSETransport` between `connect` and `close`: any number of `send` calls, the listener of the
stream and `recv` share the pending futures and the queue. Code runs from one `await` to the next
without interruption; that is one event, and a run is any interleaving of them. A future is a
promise (`Promises`); the calls of `send` are numbered by theirs.
-/

namespace CosaiMcp.Transport

open Py

variable {φ : Type}

/-- A message of the server. -/
abbrev ServerMessage (φ : Type) := List (Str × Json φ)

/-! ## The listener -/

/-- The task of the listener: in its loop, behind the loop, done. -/
inductive Listener where
  | reading (lineCount : Nat) (eventData : Option Str)
  | leaving
  | closed
deriving DecidableEq

section Feed

variable [FloatText φ]

/-- One turn of the loop of `_sse_listener`, with the message that it dispatches. -/
def Listener.feed (listener : Listener) (line : Str) : Option (ServerMessage φ) × Listener :=
  match listener with
  | .reading lineCount eventData =>
    if lineCount + 1 > legacySseMaxLines then (none, .leaving)
    else if startsWith (strip line) (lit "data:") then
      (none, .reading (lineCount + 1) (some (strip ((strip line).drop 5))))
    else
      match eventData with
      | none => (none, .reading (lineCount + 1) none)
      | some data =>
        if strip line = [] then
          match loads data with
          | none => (none, .reading (lineCount + 1) none)
          | some (.obj msg) => (some msg, .reading (lineCount + 1) none)
          | some _ => (none, .leaving)
        else (none, .reading (lineCount + 1) (some data))
  | .leaving => (none, .leaving)
  | .closed => (none, .closed)

theorem feed_reading (lineCount : Nat) (eventData : Option Str) (line : Str) :
    (Listener.reading lineCount eventData).feed (φ := φ) line =
      if lineCount + 1 > legacySseMaxLines then (none, .leaving)
      else if startsWith (strip line) (lit "data:") then
        (none, .reading (lineCount + 1) (some (strip ((strip line).drop 5))))
      else
        match eventData with
        | none => (none, .reading (lineCount + 1) none)
        | some data =>
          if strip line = [] then
            match loads data with
            | none => (none, .reading (lineCount + 1) none)
            | some (.obj msg) => (some msg, .reading (lineCount + 1) none)
            | some _ => (none, .leaving)
          else (none, .reading (lineCount + 1) (some data)) := rfl

theorem listen_leaving (lines : List Str) :
    (Run.trace (Listener.feed (φ := φ)) .leaving lines).filterMap Prod.snd = [] := by
  induction lines with
  | nil => rfl
  | cons line lines ih =>
    rw [Run.trace_cons]
    exact ih

/-- What the listener dispatches, turn by turn. -/
theorem listen_eq_trace (lineCount : Nat) (eventData : Option Str) (lines : List Str) :
    listen (φ := φ) lineCount eventData lines =
      (Run.trace (Listener.feed (φ := φ)) (.reading lineCount eventData) lines).filterMap
        Prod.snd := by
  induction lines generalizing lineCount eventData with
  | nil => rfl
  | cons line lines ih =>
    conv_lhs => unfold listen
    rw [Run.trace_cons, feed_reading]
    split
    · exact (listen_leaving lines).symm
    · split
      · exact ih _ _
      · cases eventData with
        | none => exact ih _ _
        | some data =>
          simp only
          split
          · cases loads (φ := φ) data with
            | none => exact ih _ _
            | some j =>
              cases j with
              | obj msg => rw [ih]; rfl
              | _ => exact (listen_leaving lines).symm
          · exact ih _ _

/-- One more line adds what its turn dispatches. -/
theorem listen_concat (lines : List Str) (line : Str) :
    listen (φ := φ) 0 none (lines ++ [line]) = listen 0 none lines ++
      ((Run.final (Listener.feed (φ := φ)) (.reading 0 none) lines).feed line).1.toList := by
  rw [listen_eq_trace, listen_eq_trace, Run.trace_concat, List.filterMap_append]
  congr 1

end Feed

/-! ## The transport -/

/-- `maxsize` of the queue. -/
def recvQueueSize : Nat := 64

structure LegacySSETransport (φ : Type) where
  pending : Promises Str (ServerMessage φ)
  recvQueue : List (ServerMessage φ)

/-- What tells `recv` that the stream is closed. -/
def sseClosed : ServerMessage φ := [(lit "_sse_closed", .bool true)]

namespace LegacySSETransport

/-- `_recv_queue.put_nowait`, with `QueueFull` passed over. -/
def offer (t : LegacySSETransport φ) (msg : ServerMessage φ) : LegacySSETransport φ :=
  if t.recvQueue.length < recvQueueSize then { t with recvQueue := t.recvQueue ++ [msg] } else t

variable (B : Builtins φ)

/-- The key under which a message is looked up, if it has an id. -/
def messageKey (msg : ServerMessage φ) : Option Str :=
  match (Json.obj msg).getOrNull (lit "id") with
  | .null => none
  | id => some (B.str id)

def dispatch (t : LegacySSETransport φ) (msg : ServerMessage φ) : LegacySSETransport φ :=
  match messageKey B msg with
  | none => t.offer msg
  | some key =>
    match t.pending.pending.get? key with
    | none => t.offer msg
    | some _ => { t with pending := t.pending.deliver key msg }

/-- The `finally` of the listener. -/
def finish (t : LegacySSETransport φ) : LegacySSETransport φ :=
  { t with pending := (t.pending.failEach t.pending.pending.values).clear }.offer sseClosed

end LegacySSETransport

/-! ## The calls of `send` -/

/-- What `send` makes of its POST; `none` stands for one that raised. -/
inductive Posted (φ : Type) where
  | inline (response : Json φ)
  | wait
  | failed

def posted (response : Option (HttpReply φ)) : Posted φ :=
  match response with
  | none => .failed
  | some response =>
    match checkRedirect response.statusCode with
    | .error _ => .failed
    | .ok () =>
      if response.statusCode = 200 ∧
          lit "application/json" <:+: (response.headers.get? (lit "content-type")).getD [] then
        match response.json with
        | none => .failed
        | some j => .inline j
      else .wait

/-- Where a call of `send` is. A call that waits longer than the timeout has its future cancelled
and goes on later, and one that is cancelled from outside runs no handler. -/
inductive Call (φ : Type) where
  | posting
  | waiting (expired : Bool)
  | returned (response : Json φ)
  | raised
  | cancelled

/-- The transport with its tasks, and what calls of `recv` have taken off the queue. -/
structure LegacySystem (φ : Type) where
  transport : LegacySSETransport φ
  calls : List (Call φ)
  listener : Listener
  taken : List (ServerMessage φ)

inductive LegacyEvent (φ : Type) where
  | send (requestId : Str)
  | posted (call : Nat) (response : Option (HttpReply φ))
  | expire (call : Nat)
  | resume (call : Nat)
  | timeOut (call : Nat)
  | cancel (call : Nat)
  | line (line : Str)
  | streamEnd
  | finish
  | recv

namespace LegacySystem

def init : LegacySystem φ := ⟨⟨Promises.empty, []⟩, [], .reading 0 none, []⟩

/-- The future of a call. -/
def future? (s : LegacySystem φ) (c : Nat) : Option (Promise (ServerMessage φ)) :=
  s.transport.pending.promise? c

def requestId? (s : LegacySystem φ) (c : Nat) : Option Str := s.transport.pending.key? c

def withPending (s : LegacySystem φ) (pending : Promises Str (ServerMessage φ)) :
    LegacySystem φ :=
  { s with transport := { s.transport with pending := pending } }

def setCall (s : LegacySystem φ) (c : Nat) (call : Call φ) : LegacySystem φ :=
  { s with calls := s.calls.set c call }

/-- The call ends, behind `self._pending.pop(request_id, None)`. -/
def leave (s : LegacySystem φ) (c : Nat) (call : Call φ) : LegacySystem φ :=
  (s.withPending (s.transport.pending.forgetOf c)).setCall c call

/-- The future of the call is cancelled, unless it is done. -/
def cancelFuture (s : LegacySystem φ) (c : Nat) : LegacySystem φ :=
  s.withPending (s.transport.pending.settle c .failed)

variable [FloatText φ] (B : Builtins φ)

def step (s : LegacySystem φ) : LegacyEvent φ → Option (LegacySystem φ)
  | .send requestId =>
    some { s.withPending (s.transport.pending.make requestId) with calls := s.calls ++ [.posting] }
  | .posted c response =>
    match s.calls[c]? with
    | some .posting =>
      match posted response with
      | .inline j => some (s.leave c (.returned j))
      | .wait => some (s.setCall c (.waiting false))
      | .failed => some (s.leave c .raised)
    | _ => none
  | .expire c =>
    match s.calls[c]? with
    | some (.waiting _) => some ((s.cancelFuture c).setCall c (.waiting true))
    | _ => none
  | .resume c =>
    match s.calls[c]?, s.future? c with
    | some (.waiting _), some (.value msg) => some (s.setCall c (.returned (.obj msg)))
    | some (.waiting _), some .failed => some (s.leave c .raised)
    | _, _ => none
  | .timeOut c =>
    match s.calls[c]? with
    | some (.waiting true) => some (s.leave c .raised)
    | _ => none
  | .cancel c =>
    match s.calls[c]? with
    | some .posting => some (s.setCall c .cancelled)
    | some (.waiting _) => some ((s.cancelFuture c).setCall c .cancelled)
    | _ => none
  | .line line =>
    match s.listener with
    | .reading lineCount eventData =>
      match (Listener.reading lineCount eventData).feed line with
      | (none, listener) => some { s with listener := listener }
      | (some msg, listener) =>
        some { s with transport := s.transport.dispatch B msg, listener := listener }
    | _ => none
  | .streamEnd =>
    match s.listener with
    | .reading _ _ => some { s with listener := .leaving }
    | _ => none
  | .finish =>
    match s.listener with
    | .leaving => some { s with transport := s.transport.finish, listener := .closed }
    | _ => none
  | .recv =>
    match s.transport.recvQueue with
    | [] => none
    | msg :: queue =>
      some { s with transport := { s.transport with recvQueue := queue }, taken := s.taken ++ [msg] }

end LegacySystem

end CosaiMcp.Transport
