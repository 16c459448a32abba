import CosaiMcp.Transport.LegacySend

/-!
# What becomes of the messages of a legacy stream

Every message that the listener dispatches goes to one place at most: to the future of one `send`,
whose request id is the id of the message, or to the queue, whose messages `recv` takes in their
order (`exec_delivery`). An answer to a call that is in flight decides the call (`exec_answered`),
and nothing waits for a stream that is gone (`exec_closed`).
-/

namespace CosaiMcp.Transport

open Py LegacySSETransport

variable {φ : Type} [FloatText φ] {B : Builtins φ}

/-! ## What a step can do -/

/-- What an event makes of a call and of the promises. -/
inductive Turn (t : Promises Str (ServerMessage φ)) (c : Nat) :
    LegacyEvent φ → Call φ → Call φ → Promises Str (ServerMessage φ) → Prop
  | inline {response : Option (HttpReply φ)} {j : Json φ} (h : posted response = .inline j) :
    Turn t c (.posted c response) .posting (.returned j) (t.forgetOf c)
  | wait {response : Option (HttpReply φ)} (h : posted response = .wait) :
    Turn t c (.posted c response) .posting (.waiting false) t
  | failed {response : Option (HttpReply φ)} (h : posted response = .failed) :
    Turn t c (.posted c response) .posting .raised (t.forgetOf c)
  | expire {expired : Bool} :
    Turn t c (.expire c) (.waiting expired) (.waiting true) (t.settle c .failed)
  | resume {expired : Bool} {msg : ServerMessage φ} (h : t.promise? c = some (.value msg)) :
    Turn t c (.resume c) (.waiting expired) (.returned (.obj msg)) t
  | fail {expired : Bool} (h : t.promise? c = some .failed) :
    Turn t c (.resume c) (.waiting expired) .raised (t.forgetOf c)
  | timeOut : Turn t c (.timeOut c) (.waiting true) .raised (t.forgetOf c)
  | cancelPost : Turn t c (.cancel c) .posting .cancelled t
  | cancelWait {expired : Bool} :
    Turn t c (.cancel c) (.waiting expired) .cancelled (t.settle c .failed)

variable (B) in
inductive Moves (s : LegacySystem φ) : LegacyEvent φ → LegacySystem φ → Prop
  | send (requestId : Str) : Moves s (.send requestId)
      { s.withPending (s.transport.pending.make requestId) with calls := s.calls ++ [.posting] }
  | turn {e : LegacyEvent φ} {c : Nat} {old new : Call φ} {t : Promises Str (ServerMessage φ)}
      (hcall : s.calls[c]? = some old) (h : Turn s.transport.pending c e old new t) :
      Moves s e ((s.withPending t).setCall c new)
  | silent {n : Nat} {d : Option Str} {line : Str} (hreading : s.listener = .reading n d)
      (h : ((Listener.reading n d).feed (φ := φ) line).1 = none) :
      Moves s (.line line) { s with listener := ((Listener.reading n d).feed (φ := φ) line).2 }
  | message {n : Nat} {d : Option Str} {line : Str} {msg : ServerMessage φ}
      (hreading : s.listener = .reading n d)
      (h : ((Listener.reading n d).feed line).1 = some msg) :
      Moves s (.line line) { s with
        transport := s.transport.dispatch B msg
        listener := ((Listener.reading n d).feed (φ := φ) line).2 }
  | streamEnd {n : Nat} {d : Option Str} (hreading : s.listener = .reading n d) :
      Moves s .streamEnd { s with listener := .leaving }
  | finish (hleaving : s.listener = .leaving) :
      Moves s .finish { s with transport := s.transport.finish, listener := .closed }
  | recv {msg : ServerMessage φ} {queue : List (ServerMessage φ)}
      (hqueue : s.transport.recvQueue = msg :: queue) : Moves s .recv { s with
        transport := { s.transport with recvQueue := queue }
        taken := s.taken ++ [msg] }

namespace LegacySystem

theorem step_posted {s s' : LegacySystem φ} {c : Nat} {response : Option (HttpReply φ)}
    (h : s.step B (.posted c response) = some s') : Moves B s (.posted c response) s' := by
  simp only [step] at h
  split at h
  · next hcall =>
    cases hp : posted response with
    | inline j => rw [hp] at h; cases h; exact .turn hcall (.inline hp)
    | wait => rw [hp] at h; cases h; exact .turn hcall (.wait hp)
    | failed => rw [hp] at h; cases h; exact .turn hcall (.failed hp)
  · cases h

theorem step_resume {s s' : LegacySystem φ} {c : Nat} (h : s.step B (.resume c) = some s') :
    Moves B s (.resume c) s' := by
  simp only [step] at h
  split at h
  · next hcall hfuture => cases h; exact .turn hcall (.resume hfuture)
  · next hcall hfuture => cases h; exact .turn hcall (.fail hfuture)
  · cases h

theorem step_cancel {s s' : LegacySystem φ} {c : Nat} (h : s.step B (.cancel c) = some s') :
    Moves B s (.cancel c) s' := by
  simp only [step] at h
  split at h
  · next hcall => cases h; exact .turn hcall .cancelPost
  · next hcall => cases h; exact .turn hcall .cancelWait
  · cases h

theorem step_line {s s' : LegacySystem φ} {line : Str} (h : s.step B (.line line) = some s') :
    Moves B s (.line line) s' := by
  simp only [step] at h
  split at h
  · next n d hreading =>
    split at h
    · next listener hfeed =>
      cases h
      have hmove := Moves.silent (B := B) hreading (congrArg Prod.fst hfeed)
      rwa [hfeed] at hmove
    · next msg listener hfeed =>
      cases h
      have hmove := Moves.message (B := B) hreading (congrArg Prod.fst hfeed)
      rwa [hfeed] at hmove
  · cases h

theorem step_moves {s s' : LegacySystem φ} {e : LegacyEvent φ} (h : s.step B e = some s') :
    Moves B s e s' := by
  cases e with
  | send requestId => cases h; exact .send requestId
  | posted c response => exact step_posted h
  | expire c =>
    simp only [step] at h
    split at h
    · next hcall => cases h; exact .turn hcall .expire
    · cases h
  | resume c => exact step_resume h
  | timeOut c =>
    simp only [step] at h
    split at h
    · next hcall => cases h; exact .turn hcall .timeOut
    · cases h
  | cancel c => exact step_cancel h
  | line line => exact step_line h
  | streamEnd =>
    simp only [step] at h
    split at h
    · next hreading => cases h; exact .streamEnd hreading
    · cases h
  | finish =>
    simp only [step] at h
    split at h
    · next hleaving => cases h; exact .finish hleaving
    · cases h
  | recv =>
    simp only [step] at h
    split at h
    · cases h
    · next hqueue => cases h; exact .recv hqueue

end LegacySystem

namespace Turn

variable {t t' : Promises Str (ServerMessage φ)} {c : Nat} {e : LegacyEvent φ} {old new : Call φ}

omit [FloatText φ]

/-- A turn of a call leaves the promises, takes one off the pending or lets its own fail. -/
theorem promises (h : Turn t c e old new t') :
    t' = t ∨ t' = t.forgetOf c ∨ t' = t.settle c .failed := by
  cases h with
  | inline _ => exact .inr (.inl rfl)
  | wait _ => exact .inl rfl
  | failed _ => exact .inr (.inl rfl)
  | expire => exact .inr (.inr rfl)
  | resume _ => exact .inl rfl
  | fail _ => exact .inr (.inl rfl)
  | timeOut => exact .inr (.inl rfl)
  | cancelPost => exact .inl rfl
  | cancelWait => exact .inr (.inr rfl)

theorem keys_eq (h : Turn t c e old new t') : t'.keys = t.keys := by
  obtain rfl | rfl | rfl := h.promises
  · rfl
  · exact t.keys_forgetOf c
  · exact t.keys_settle c .failed

theorem values_eq (h : Turn t c e old new t') : t'.values = t.values := by
  obtain rfl | rfl | rfl := h.promises
  · rfl
  · rw [Promises.values, Promises.made_forgetOf, Promises.values]
  · exact t.values_settle_failed c

theorem keeps (h : Turn t c e old new t') : Promises.Extends t t' := by
  obtain rfl | rfl | rfl := h.promises
  · exact Promises.Extends.refl _
  · exact Promises.extends_of_made (t.made_forgetOf c)
  · exact Promises.Extends.settle t c .failed

end Turn

namespace LegacySSETransport

omit [FloatText φ] in
theorem offer_cases (t : LegacySSETransport φ) (msg : ServerMessage φ) :
    t.offer msg = { t with recvQueue := t.recvQueue ++ [msg] } ∧
        t.recvQueue.length < recvQueueSize ∨
      t.offer msg = t ∧ recvQueueSize ≤ t.recvQueue.length := by
  rw [offer]
  by_cases h : t.recvQueue.length < recvQueueSize
  · exact .inl ⟨if_pos h, h⟩
  · exact .inr ⟨if_neg h, Nat.not_lt.mp h⟩

omit [FloatText φ] in
@[simp] theorem pending_offer (t : LegacySSETransport φ) (msg : ServerMessage φ) :
    (t.offer msg).pending = t.pending := by
  obtain ⟨h, -⟩ | ⟨h, -⟩ := t.offer_cases msg <;> rw [h]

omit [FloatText φ] in
theorem pending_finish (t : LegacySSETransport φ) :
    t.finish.pending = (t.pending.failEach t.pending.pending.values).clear :=
  pending_offer _ sseClosed

omit [FloatText φ] in
/-- A message goes to the future that is pending under its id, or is offered to the queue. -/
theorem dispatch_cases (t : LegacySSETransport φ) (msg : ServerMessage φ) :
    (∃ key c, messageKey B msg = some key ∧ t.pending.pending.get? key = some c ∧
        t.dispatch B msg = { t with pending := t.pending.deliver key msg }) ∨
      t.dispatch B msg = t.offer msg := by
  rw [dispatch]
  cases hkey : messageKey B msg with
  | none => exact .inr rfl
  | some key =>
    cases hc : t.pending.pending.get? key with
    | none => exact .inr (by simp only [hc])
    | some c => exact .inl ⟨key, c, rfl, hc, by simp only [hc]⟩

end LegacySSETransport

theorem Moves.keeps {s s' : LegacySystem φ} {e : LegacyEvent φ} (h : Moves B s e s') :
    Promises.Extends s.transport.pending s'.transport.pending := by
  cases h with
  | send requestId => exact Promises.extends_make _ requestId
  | turn _ hturn => exact hturn.keeps
  | @message _ _ _ msg _ _ =>
    obtain ⟨key, c, -, -, hd⟩ | hd := s.transport.dispatch_cases (B := B) msg
    · simp only [hd]
      exact Promises.extends_deliver _ key msg
    · simp only [hd, pending_offer]
      exact Promises.Extends.refl _
  | finish _ =>
    simp only [pending_finish]
    exact Promises.Extends.failEach _ _
  | _ => exact Promises.Extends.refl _

/-! ## What a run has seen -/

/-- The ids of the requests, in the order in which they were sent. -/
def requestIds (es : List (LegacyEvent φ)) : List Str :=
  es.filterMap fun e =>
    match e with
    | .send requestId => some requestId
    | _ => none

/-- The lines of the stream. -/
def streamLines (es : List (LegacyEvent φ)) : List Str :=
  es.filterMap fun e =>
    match e with
    | .line line => some line
    | _ => none

/-- The messages that the listener makes of them. -/
def heard (es : List (LegacyEvent φ)) : List (ServerMessage φ) := listen 0 none (streamLines es)

/-- The state of the loop behind the lines. -/
def loopState (es : List (LegacyEvent φ)) : Listener :=
  Run.final (Listener.feed (φ := φ)) (.reading 0 none) (streamLines es)

omit [FloatText φ] in
theorem requestIds_append (es es' : List (LegacyEvent φ)) :
    requestIds (es ++ es') = requestIds es ++ requestIds es' := List.filterMap_append

omit [FloatText φ] in
theorem streamLines_append (es es' : List (LegacyEvent φ)) :
    streamLines (es ++ es') = streamLines es ++ streamLines es' := List.filterMap_append

theorem heard_line (es : List (LegacyEvent φ)) (line : Str) :
    heard (es ++ [.line line]) =
      heard es ++ ((loopState es).feed line).1.toList := by
  rw [heard, streamLines_append]
  exact listen_concat (streamLines es) line

theorem loopState_line (es : List (LegacyEvent φ)) (line : Str) :
    loopState (es ++ [.line line]) = ((loopState es).feed (φ := φ) line).2 := by
  rw [loopState, streamLines_append]
  exact Run.final_concat _ _ _ _

theorem heard_of_no_line {es : List (LegacyEvent φ)} {e : LegacyEvent φ}
    (h : streamLines [e] = []) : heard (es ++ [e]) = heard es := by
  rw [heard, streamLines_append, h, List.append_nil, heard]

theorem loopState_of_no_line {es : List (LegacyEvent φ)} {e : LegacyEvent φ}
    (h : streamLines [e] = []) : loopState (es ++ [e]) = loopState es := by
  rw [loopState, streamLines_append, h, List.append_nil, loopState]

/-- What was heard stays first. -/
theorem heard_append (es es' : List (LegacyEvent φ)) :
    ∃ later, heard (es ++ es') = heard es ++ later := by
  induction es' using List.reverseRecOn with
  | nil => exact ⟨[], by simp⟩
  | append_singleton es' e ih =>
    obtain ⟨later, hlater⟩ := ih
    rw [← List.append_assoc]
    cases hline : streamLines [e] with
    | nil => exact ⟨later, by rw [heard_of_no_line hline, hlater]⟩
    | cons line lines =>
      cases e with
      | line line =>
        exact ⟨_, by rw [heard_line, hlater, List.append_assoc]⟩
      | _ => cases hline

omit [FloatText φ] in
/-- The send that a request id comes from. -/
theorem exists_send {es : List (LegacyEvent φ)} {c : Nat} {id : Str}
    (h : (requestIds es)[c]? = some id) :
    ∃ before after, es = before ++ .send id :: after ∧ (requestIds before).length = c := by
  induction es generalizing c with
  | nil => cases h
  | cons e es ih =>
    have hcons : requestIds (e :: es) = requestIds [e] ++ requestIds es := requestIds_append [e] es
    rw [hcons] at h
    cases e with
    | send requestId =>
      cases c with
      | zero => cases h; exact ⟨[], es, rfl, rfl⟩
      | succ c =>
        obtain ⟨before, after, rfl, hlength⟩ := ih (c := c) h
        refine ⟨.send requestId :: before, after, rfl, ?_⟩
        rw [← List.singleton_append, requestIds_append, List.length_append, hlength]
        exact Nat.add_comm 1 c
    | _ =>
      obtain ⟨before, after, rfl, hlength⟩ := ih h
      exact ⟨_ :: before, after, rfl, hlength⟩

/-! ## No message goes to two places -/

variable (B) in
/-- The message was heard after the `c`-th send, and its id is the one of that request. -/
def Answers (es : List (LegacyEvent φ)) (c : Nat) (msg : ServerMessage φ) : Prop :=
  ∃ before id after later, es = before ++ .send id :: after ∧ (requestIds before).length = c ∧
    messageKey B msg = some id ∧ heard es = heard before ++ later ∧ msg ∈ later

variable (B) in
/-- Neither a future nor the queue takes the message. -/
def LegacySystem.Refuses (s : LegacySystem φ) (msg : ServerMessage φ) : Prop :=
  match (messageKey B msg).bind s.transport.pending.pending.get? with
  | some c => s.future? c ≠ some .waiting
  | none => recvQueueSize ≤ s.transport.recvQueue.length

variable (B) in
/-- The message came when its future was done, or found the queue full. -/
def Lost (es : List (LegacyEvent φ)) (msg : ServerMessage φ) : Prop :=
  ∃ before line after s n d, es = before ++ .line line :: after ∧
    Run.exec (LegacySystem.step B) LegacySystem.init before = some s ∧
    s.listener = .reading n d ∧ ((Listener.reading n d).feed line).1 = some msg ∧ s.Refuses B msg

variable (B) in
/-- What was heard is with the futures, with the queue, which has its share in order, or lost. -/
def Shared (es : List (LegacyEvent φ)) (s : LegacySystem φ) : Prop :=
  ∃ queued lost sentinel, queued.Sublist (heard es) ∧
    (s.transport.pending.values ++ (queued ++ lost)).Perm (heard es) ∧
    (∀ msg ∈ lost, Lost B es msg) ∧
    s.taken ++ s.transport.recvQueue = queued ++ sentinel ∧
    (sentinel = [] ∨ sentinel = [sseClosed] ∧ s.listener = .closed)

/-- What a call returned is its future's, or was the body of its own POST. -/
def Returned (es : List (LegacyEvent φ)) (s : LegacySystem φ) : Prop :=
  ∀ c j, s.calls[c]? = some (.returned j) →
    (∃ msg, s.future? c = some (.value msg) ∧ j = .obj msg) ∨
      ∃ response, .posted c response ∈ es ∧ posted response = .inline j

variable (B) in
structure Delivered (es : List (LegacyEvent φ)) (s : LegacySystem φ) : Prop where
  run : Run.exec (LegacySystem.step B) LegacySystem.init es = some s
  keys : s.transport.pending.keys = requestIds es
  loop : ∀ n d, s.listener = .reading n d → loopState es = .reading n d
  answers : ∀ c msg, s.future? c = some (.value msg) → Answers B es c msg
  shared : Shared B es s
  returned : Returned es s

theorem Answers.concat {es : List (LegacyEvent φ)} {c : Nat} {msg : ServerMessage φ}
    (h : Answers B es c msg) (e : LegacyEvent φ) : Answers B (es ++ [e]) c msg := by
  obtain ⟨before, id, after, later, hes, hlength, hkey, hheard, hmsg⟩ := h
  obtain ⟨more, hmore⟩ := heard_append (φ := φ) es [e]
  refine ⟨before, id, after ++ [e], later ++ more, ?_, hlength, hkey, ?_,
    List.mem_append_left more hmsg⟩
  · rw [hes, List.append_assoc, List.cons_append]
  · rw [hmore, hheard, List.append_assoc]

theorem Lost.concat {es : List (LegacyEvent φ)} {msg : ServerMessage φ} (h : Lost B es msg)
    (e : LegacyEvent φ) : Lost B (es ++ [e]) msg := by
  obtain ⟨before, line, after, s, n, d, hes, hlost⟩ := h
  refine ⟨before, line, after ++ [e], s, n, d, ?_, hlost⟩
  rw [hes, List.append_assoc, List.cons_append]

namespace Delivered

variable {es : List (LegacyEvent φ)} {s s' : LegacySystem φ} {e : LegacyEvent φ}

theorem keys_step (h : Delivered B es s) (hs : Moves B s e s') :
    s'.transport.pending.keys = requestIds (es ++ [e]) := by
  rw [requestIds_append, ← h.keys]
  cases hs with
  | send requestId => exact s.transport.pending.keys_make requestId
  | turn hcall hturn =>
    refine hturn.keys_eq.trans ?_
    cases hturn <;> exact (List.append_nil _).symm
  | silent _ _ => exact (List.append_nil _).symm
  | @message _ _ _ msg _ _ =>
    refine Eq.trans ?_ (List.append_nil _).symm
    obtain ⟨key, c, -, -, hd⟩ | hd := s.transport.dispatch_cases (B := B) msg
    · simp only [hd]
      exact s.transport.pending.keys_deliver key msg
    · simp only [hd, pending_offer]
  | streamEnd _ => exact (List.append_nil _).symm
  | finish _ =>
    refine Eq.trans ?_ (List.append_nil _).symm
    simp only [pending_finish, Promises.keys_clear, Promises.keys_failEach]
  | recv _ => exact (List.append_nil _).symm

theorem loop_step (h : Delivered B es s) (hs : Moves B s e s') :
    ∀ n d, s'.listener = .reading n d → loopState (es ++ [e]) = .reading n d := by
  intro n d hreading
  cases hs with
  | send requestId => exact (loopState_of_no_line rfl).trans (h.loop n d hreading)
  | turn hcall hturn =>
    have hline : streamLines [e] = [] := by cases hturn <;> rfl
    exact (loopState_of_no_line hline).trans (h.loop n d hreading)
  | silent hread hfeed =>
    rw [loopState_line, h.loop _ _ hread]
    exact hreading
  | message hread hfeed =>
    rw [loopState_line, h.loop _ _ hread]
    exact hreading
  | streamEnd _ => cases hreading
  | finish _ => cases hreading
  | recv _ => exact (loopState_of_no_line rfl).trans (h.loop n d hreading)

/-- A value comes with the message of the step, or was there. -/
theorem value_of_step (hs : Moves B s e s') {c : Nat} {msg : ServerMessage φ}
    (hc : s'.future? c = some (.value msg)) :
    s.future? c = some (.value msg) ∨
      ∃ line n d id, e = .line line ∧ s.listener = .reading n d ∧
        ((Listener.reading n d).feed line).1 = some msg ∧
        messageKey B msg = some id ∧ s.requestId? c = some id := by
  cases hs with
  | send requestId =>
    have hmade : (s.transport.pending.make requestId).promise? c = some (.value msg) := hc
    rw [Promises.promise?_make] at hmade
    split at hmade
    · cases hmade
    · exact .inl hmade
  | @turn _ _ _ _ t _ hturn =>
    have hvalue : t.promise? c = some (.value msg) := hc
    obtain rfl | rfl | rfl := hturn.promises
    · exact .inl hvalue
    · rw [Promises.promise?, Promises.made_forgetOf] at hvalue
      exact .inl hvalue
    · exact .inl (Promises.value_of_settle_failed hvalue)
  | silent _ _ => exact .inl hc
  | @message n d line new hread hfeed =>
    obtain ⟨key, i, hkey, hi, hd⟩ | hd := s.transport.dispatch_cases (B := B) new
    · have hvalue : (s.transport.pending.deliver key new).promise? c = some (.value msg) := by
        have hfuture := hc
        simp only [LegacySystem.future?, hd] at hfuture
        exact hfuture
      rw [Promises.deliver, hi] at hvalue
      obtain hold | ⟨rfl, -, hnew⟩ := Promises.value_of_settle hvalue
      · exact .inl hold
      · cases hnew
        exact .inr ⟨line, n, d, key, rfl, hread, hfeed, hkey, Promises.key?_of_pending hi⟩
    · simp only [LegacySystem.future?, hd, pending_offer] at hc
      exact .inl hc
  | streamEnd _ => exact .inl hc
  | finish _ =>
    simp only [LegacySystem.future?, pending_finish] at hc
    exact .inl (Promises.value_of_failEach hc)
  | recv _ => exact .inl hc

theorem answers_step (h : Delivered B es s) (hs : Moves B s e s') :
    ∀ c msg, s'.future? c = some (.value msg) → Answers B (es ++ [e]) c msg := by
  intro c msg hc
  obtain hold | ⟨line, n, d, id, rfl, hread, hfeed, hkey, hid⟩ := value_of_step hs hc
  · exact (h.answers c msg hold).concat e
  · rw [LegacySystem.requestId?, Promises.key?_eq, h.keys] at hid
    obtain ⟨before, after, hes, hlength⟩ := exists_send hid
    obtain ⟨later, hlater⟩ := heard_append (φ := φ) before (.send id :: after)
    refine ⟨before, id, after ++ [.line line], later ++ [msg], ?_, hlength, hkey, ?_, by simp⟩
    · rw [hes, List.append_assoc, List.cons_append]
    · rw [heard_line, h.loop n d hread, hfeed, hes, hlater, List.append_assoc]
      rfl

theorem returned_step (h : Delivered B es s) (hs : Moves B s e s') :
    Returned (es ++ [e]) s' := by
  have hkept : ∀ c j, s.calls[c]? = some (.returned j) →
      (∃ msg, s'.future? c = some (.value msg) ∧ j = .obj msg) ∨
        ∃ response, .posted c response ∈ es ++ [e] ∧ posted response = .inline j := by
    intro c j hc
    obtain ⟨msg, hmsg, hj⟩ | ⟨response, hmem, hj⟩ := h.returned c j hc
    · exact .inl ⟨msg, hs.keeps.value hmsg, hj⟩
    · exact .inr ⟨response, List.mem_append_left _ hmem, hj⟩
  intro c j hc
  cases hs with
  | send requestId =>
    refine hkept c j ?_
    have hcalls : (s.calls ++ [Call.posting])[c]? = some (.returned j) := hc
    rw [List.getElem?_append] at hcalls
    split at hcalls
    · exact hcalls
    · rw [List.getElem?_singleton] at hcalls
      split at hcalls <;> cases hcalls
  | @turn _ d _ new t hcall hturn =>
    have hcalls : (s.calls.set d new)[c]? = some (.returned j) := hc
    by_cases hd : d = c
    · subst hd
      rw [List.getElem?_set_self (List.getElem?_eq_some_iff.mp hcall).1] at hcalls
      cases hcalls
      cases hturn with
      | inline hj => exact .inr ⟨_, List.mem_append_right _ List.mem_cons_self, hj⟩
      | resume hmsg => exact .inl ⟨_, hmsg, rfl⟩
    · rw [List.getElem?_set_ne hd] at hcalls
      exact hkept c j hcalls
  | _ => exact hkept c j hc

omit [FloatText φ] in
/-- Before the stream is closed the queue has only messages. -/
theorem no_sentinel {l : Listener} {sentinel : List (ServerMessage φ)}
    (h : sentinel = [] ∨ sentinel = [sseClosed] ∧ l = .closed) (hl : l ≠ .closed) :
    sentinel = [] := by
  obtain h | ⟨-, h⟩ := h
  · exact h
  · exact absurd h hl

theorem lost_message (h : Delivered B es s) {n : Nat} {d : Option Str} {line : Str}
    {msg : ServerMessage φ} (hread : s.listener = .reading n d)
    (hfeed : ((Listener.reading n d).feed line).1 = some msg) (hrefuses : s.Refuses B msg) :
    Lost B (es ++ [.line line]) msg :=
  ⟨es, line, [], s, n, d, rfl, h.run, hread, hfeed, hrefuses⟩

theorem shared_message (h : Delivered B es s) {n : Nat} {d : Option Str} {line : Str}
    {msg : ServerMessage φ} (hread : s.listener = .reading n d)
    (hfeed : ((Listener.reading n d).feed line).1 = some msg) :
    Shared B (es ++ [.line line]) { s with
      transport := s.transport.dispatch B msg
      listener := ((Listener.reading n d).feed (φ := φ) line).2 } := by
  obtain ⟨queued, lost, sentinel, horder, hshare, hlost, hqueue, hsentinel⟩ := h.shared
  have hnone : sentinel = [] := no_sentinel hsentinel (by rw [hread]; simp)
  subst hnone
  have hheard : heard (es ++ [.line line]) = heard es ++ [msg] := by
    rw [heard_line, h.loop n d hread, hfeed]
    rfl
  have horder' : queued.Sublist (heard es ++ [msg]) := horder.trans (List.sublist_append_left _ _)
  have hshare' : (msg :: (s.transport.pending.values ++ (queued ++ lost))).Perm
      (heard es ++ [msg]) := (hshare.cons msg).trans (List.perm_append_singleton msg _).symm
  have hkept : ∀ m ∈ lost, Lost B (es ++ [.line line]) m := fun m hm => (hlost m hm).concat _
  rw [Shared, hheard]
  cases htarget : (messageKey B msg).bind s.transport.pending.pending.get? with
  | some c =>
    obtain ⟨key, hkey, hc⟩ := Option.bind_eq_some_iff.mp htarget
    have hd : s.transport.dispatch B msg =
        { s.transport with pending := s.transport.pending.deliver key msg } := by
      simp only [dispatch, hkey, hc]
    by_cases hwaiting : s.future? c = some .waiting
    · refine ⟨queued, lost, [], horder', ?_, hkept, ?_, .inl rfl⟩
      · simp only [hd]
        exact ((Promises.values_deliver hc hwaiting msg).append_right _).trans hshare'
      · simp only [hd]
        exact hqueue
    · have hrefuses : s.Refuses B msg := by
        rw [LegacySystem.Refuses, htarget]
        exact hwaiting
      refine ⟨queued, lost ++ [msg], [], horder', ?_, ?_, ?_, .inl rfl⟩
      · simp only [hd]
        rw [Promises.values_deliver_of_settled hc hwaiting, ← List.append_assoc queued,
          ← List.append_assoc]
        exact (List.perm_append_singleton msg _).trans hshare'
      · intro m hm
        obtain hm | hm := List.mem_append.mp hm
        · exact hkept m hm
        · cases List.mem_singleton.mp hm
          exact h.lost_message hread hfeed hrefuses
      · simp only [hd]
        exact hqueue
  | none =>
    have hd : s.transport.dispatch B msg = s.transport.offer msg := by
      obtain ⟨key, c, hkey, hc, -⟩ | hd := s.transport.dispatch_cases (B := B) msg
      · rw [hkey, Option.bind_some, hc] at htarget
        cases htarget
      · exact hd
    obtain ⟨ho, -⟩ | ⟨ho, hfull⟩ := s.transport.offer_cases msg
    · refine ⟨queued ++ [msg], lost, [], horder.append (List.Sublist.refl [msg]), ?_, hkept, ?_,
        .inl rfl⟩
      · simp only [hd, ho]
        refine List.Perm.trans ?_ hshare'
        rw [List.append_assoc, List.singleton_append]
        exact ((List.perm_middle).append_left _).trans List.perm_middle
      · simp only [hd, ho]
        rw [← List.append_assoc, hqueue, List.append_nil, List.append_nil]
    · have hrefuses : s.Refuses B msg := by
        rw [LegacySystem.Refuses, htarget]
        exact hfull
      refine ⟨queued, lost ++ [msg], [], horder', ?_, ?_, ?_, .inl rfl⟩
      · simp only [hd, ho]
        rw [← List.append_assoc queued, ← List.append_assoc]
        exact (List.perm_append_singleton msg _).trans hshare'
      · intro m hm
        obtain hm | hm := List.mem_append.mp hm
        · exact hkept m hm
        · cases List.mem_singleton.mp hm
          exact h.lost_message hread hfeed hrefuses
      · simp only [hd, ho]
        exact hqueue

theorem shared_finish (h : Delivered B es s) (hleaving : s.listener = .leaving) :
    Shared B (es ++ [.finish])
      { s with transport := s.transport.finish, listener := .closed } := by
  obtain ⟨queued, lost, sentinel, horder, hshare, hlost, hqueue, hsentinel⟩ := h.shared
  have hnone : sentinel = [] := no_sentinel hsentinel (by rw [hleaving]; simp)
  subst hnone
  have hkept : ∀ m ∈ lost, Lost B (es ++ [.finish]) m := fun m hm => (hlost m hm).concat _
  rw [Shared, heard_of_no_line rfl]
  have hshare' : (s.transport.finish.pending.values ++ (queued ++ lost)).Perm (heard es) := by
    rw [pending_finish, Promises.values_clear, Promises.values_failEach]
    exact hshare
  rw [List.append_nil] at hqueue
  obtain ⟨ho, -⟩ | ⟨ho, -⟩ := LegacySSETransport.offer_cases { s.transport with
    pending := (s.transport.pending.failEach s.transport.pending.pending.values).clear } sseClosed
  · refine ⟨queued, lost, [sseClosed], horder, hshare', hkept, ?_, .inr ⟨rfl, rfl⟩⟩
    simp only [LegacySSETransport.finish, ho]
    rw [← List.append_assoc, hqueue]
  · refine ⟨queued, lost, [], horder, hshare', hkept, ?_, .inl rfl⟩
    simp only [LegacySSETransport.finish, ho]
    rw [hqueue, List.append_nil]

theorem shared_step (h : Delivered B es s) (hs : Moves B s e s') : Shared B (es ++ [e]) s' := by
  obtain ⟨queued, lost, sentinel, horder, hshare, hlost, hqueue, hsentinel⟩ := h.shared
  have hkept : ∀ m ∈ lost, Lost B (es ++ [e]) m := fun m hm => (hlost m hm).concat e
  cases hs with
  | send requestId =>
    rw [Shared, heard_of_no_line rfl]
    refine ⟨queued, lost, sentinel, horder, ?_, hkept, hqueue, hsentinel⟩
    exact (s.transport.pending.values_make requestId).symm ▸ hshare
  | turn hcall hturn =>
    have hline : streamLines [e] = [] := by cases hturn <;> rfl
    rw [Shared, heard_of_no_line hline]
    refine ⟨queued, lost, sentinel, horder, ?_, hkept, hqueue, hsentinel⟩
    exact hturn.values_eq.symm ▸ hshare
  | @silent n d line hread hfeed =>
    have hheard : heard (es ++ [.line line]) = heard es := by
      rw [heard_line, h.loop n d hread, hfeed]
      exact List.append_nil _
    have hnone : sentinel = [] := no_sentinel hsentinel (by rw [hread]; simp)
    rw [Shared, hheard]
    exact ⟨queued, lost, sentinel, horder, hshare, hkept, hqueue, .inl hnone⟩
  | message hread hfeed => exact h.shared_message hread hfeed
  | streamEnd hread =>
    have hnone : sentinel = [] := no_sentinel hsentinel (by rw [hread]; simp)
    rw [Shared, heard_of_no_line rfl]
    exact ⟨queued, lost, sentinel, horder, hshare, hkept, hqueue, .inl hnone⟩
  | finish hleaving => exact h.shared_finish hleaving
  | @recv msg queue hhead =>
    rw [Shared, heard_of_no_line rfl]
    refine ⟨queued, lost, sentinel, horder, hshare, hkept, ?_, hsentinel⟩
    rw [← hqueue, hhead, List.append_assoc, List.singleton_append]

theorem step (h : Delivered B es s) (hstep : s.step B e = some s') :
    Delivered B (es ++ [e]) s' := by
  have hs : Moves B s e s' := LegacySystem.step_moves hstep
  refine ⟨?_, h.keys_step hs, h.loop_step hs, h.answers_step hs, h.shared_step hs,
    h.returned_step hs⟩
  rw [Run.exec_append, h.run, Option.bind_some, Run.exec_cons, hstep]
  rfl

variable (B) in
theorem init : Delivered B [] (LegacySystem.init (φ := φ)) := by
  refine ⟨rfl, rfl, ?_, ?_, ?_, ?_⟩
  · intro n d h
    exact h
  · intro c msg h
    cases h
  · exact ⟨[], [], [], List.Sublist.refl [], List.Perm.refl _, List.forall_mem_nil _, rfl, .inl rfl⟩
  · intro c j h
    cases h

end Delivered

theorem delivered_of_exec {es : List (LegacyEvent φ)} {s : LegacySystem φ}
    (h : Run.exec (LegacySystem.step B) LegacySystem.init es = some s) : Delivered B es s :=
  Run.exec_history (LegacySystem.step B) (fun _ => True) (fun _ _ _ => trivial) (Delivered.init B)
    (fun _ _ _ _ hd _ hstep => hd.step hstep) es s trivial h

/-- In every run, what `send` returns came over the stream as the answer to its own request, or in
the reply to its own POST. No message is handed to two callers, `recv` gets its messages in their
order, and one is lost only on a full queue or a future that is done. -/
theorem exec_delivery {es : List (LegacyEvent φ)} {s : LegacySystem φ}
    (h : Run.exec (LegacySystem.step B) LegacySystem.init es = some s) :
    (∀ c j, s.calls[c]? = some (.returned j) →
      (∃ msg, j = .obj msg ∧ s.future? c = some (.value msg) ∧ Answers B es c msg) ∨
        ∃ response, .posted c response ∈ es ∧ posted response = .inline j) ∧
    Shared B es s := by
  have hd : Delivered B es s := delivered_of_exec h
  refine ⟨fun c j hc => ?_, hd.shared⟩
  obtain ⟨msg, hmsg, hj⟩ | hinline := hd.returned c j hc
  · exact .inl ⟨msg, hj, hmsg, hd.answers c msg hmsg⟩
  · exact .inr hinline

section Example

def sampleReply : ServerMessage WholeFloat := [(lit "id", .str (lit "b"))]

def sampleLine : Str := lit "data:" ++ (Json.obj sampleReply).text

theorem feed_sampleLine : (Listener.reading 0 none).feed (φ := WholeFloat) sampleLine =
    (none, .reading 1 (some (Json.obj sampleReply).text)) := by
  have hstarts : startsWith (strip sampleLine) (lit "data:") = true := by decide +kernel
  have hstrip : strip ((strip sampleLine).drop 5) = (Json.obj sampleReply).text := by decide +kernel
  rw [feed_reading, if_neg (by decide), if_pos hstarts, hstrip]

theorem feed_sampleEnd :
    (Listener.reading 1 (some (Json.obj sampleReply).text)).feed (φ := WholeFloat) [] =
      (some sampleReply, .reading 2 none) := by
  have hloads : loads (Json.obj sampleReply).text = some (Json.obj sampleReply) :=
    loads_text (.obj sampleReply)
  rw [feed_reading, if_neg (by decide), if_neg (by decide)]
  simp only [hloads]
  rfl

private def answeredRun : List (LegacyEvent WholeFloat) :=
  [.send (lit "a"), .send (lit "b"), .line sampleLine, .line [],
    .posted 1 (some ⟨⟨202, .empty, []⟩, none⟩), .resume 1]

/-- The answer to the second of two requests comes before the reply to its POST. -/
theorem exec_delivery_answered : ∃ s,
    Run.exec (LegacySystem.step textBuiltins) LegacySystem.init answeredRun = some s ∧
      Answers textBuiltins answeredRun 1 sampleReply ∧ Shared textBuiltins answeredRun s := by
  have hcalls : (Run.exec (LegacySystem.step textBuiltins) LegacySystem.init answeredRun).map
      LegacySystem.calls = some [.posting, .returned (.obj sampleReply)] := by
    simp only [answeredRun, Run.exec_cons, Run.exec_nil, LegacySystem.step, LegacySystem.init,
      feed_sampleLine, feed_sampleEnd, LegacySystem.withPending, Option.bind_some]
    rfl
  obtain ⟨s, hs, hcalls⟩ := Option.map_eq_some_iff.mp hcalls
  obtain ⟨hreturned, hshared⟩ := exec_delivery hs
  refine ⟨s, hs, ?_, hshared⟩
  obtain ⟨msg, hmsg, -, hanswers⟩ | ⟨response, hposted, hinline⟩ :=
    hreturned 1 (.obj sampleReply) (by rw [hcalls]; rfl)
  · cases hmsg
    exact hanswers
  · simp only [answeredRun, List.mem_cons, LegacyEvent.posted.injEq, reduceCtorEq, false_or,
      List.not_mem_nil, or_false] at hposted
    rw [hposted.2] at hinline
    cases hinline

end Example

end CosaiMcp.Transport
