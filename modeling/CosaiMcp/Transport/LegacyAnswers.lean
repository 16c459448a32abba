import CosaiMcp.Transport.LegacyDelivery

/-!
# Calls that are answered and calls that are left behind

With distinct request ids a call in flight is found under its id for as long as its future waits
(`Tracked`), so that an answer decides it (`exec_answered`), and so does the end of the stream
(`exec_closed`). Only calls in flight and calls that were cancelled are left in the table.
-/

namespace CosaiMcp.Transport

open Py LegacySSETransport

variable {φ : Type} [FloatText φ] {B : Builtins φ}

/-- The call has not ended. -/
def Call.inFlight : Call φ → Bool
  | .posting => true
  | .waiting _ => true
  | _ => false

/-! ## What is pending -/

/-- Each call in flight whose future waits is found under its id. -/
structure Tracked (s : LegacySystem φ) : Prop where
  length : s.calls.length = s.transport.pending.made.length
  found : ∀ c call id, s.calls[c]? = some call → call.inFlight = true →
    s.future? c = some .waiting → s.requestId? c = some id →
    s.transport.pending.pending.get? id = some c

/-- What is pending is a call in flight, or one that was cancelled, and has no answer yet. -/
structure Tidy (s : LegacySystem φ) : Prop where
  length : s.calls.length = s.transport.pending.made.length
  calls : ∀ id c, s.transport.pending.pending.get? id = some c →
    ∃ call, s.calls[c]? = some call ∧ (call.inFlight = true ∨ call = .cancelled)
  unanswered : ∀ id c, s.transport.pending.pending.get? id = some c →
    ∀ msg, s.future? c ≠ some (.value msg)

omit [FloatText φ] in
theorem Turn.call_of {t t' : Promises Str (ServerMessage φ)} {c : Nat} {e : LegacyEvent φ}
    {old new : Call φ} (h : Turn t c e old new t') (hnew : new.inFlight = true) :
    old.inFlight = true ∧ (t' = t ∨ t' = t.settle c .failed) := by
  cases h with
  | wait _ => exact ⟨rfl, .inl rfl⟩
  | expire => exact ⟨rfl, .inr rfl⟩
  | _ => cases hnew

omit [FloatText φ] in
theorem future?_lt {s : LegacySystem φ} {c : Nat} {p : Promise (ServerMessage φ)}
    (h : s.future? c = some p) : c < s.transport.pending.made.length :=
  Promises.lt_length_of_promise? h

/-! ### Calls in flight are found -/

namespace Tracked

variable {s s' : LegacySystem φ} {e : LegacyEvent φ}

theorem length_step (h : s.calls.length = s.transport.pending.made.length) (hs : Moves B s e s') :
    s'.calls.length = s'.transport.pending.made.length := by
  have hkeys : ∀ t : Promises Str (ServerMessage φ), t.keys = s.transport.pending.keys →
      t.made.length = s.transport.pending.made.length := by
    intro t ht
    have hlength := congrArg List.length ht
    rwa [Promises.keys, Promises.keys, List.length_map, List.length_map] at hlength
  cases hs with
  | send requestId =>
    show (s.calls ++ [_]).length = (s.transport.pending.made ++ [_]).length
    rw [List.length_append, List.length_append, h]
    rfl
  | @turn _ c _ new t _ hturn =>
    show (s.calls.set c new).length = t.made.length
    rw [List.length_set, h, hkeys t hturn.keys_eq]
  | @message _ _ _ msg _ _ =>
    refine h.trans (hkeys _ ?_).symm
    obtain ⟨key, c, -, -, hd⟩ | hd := s.transport.dispatch_cases (B := B) msg
    · simp only [hd]
      exact s.transport.pending.keys_deliver key msg
    · simp only [hd, pending_offer]
  | finish _ =>
    refine h.trans (hkeys _ ?_).symm
    simp only [pending_finish, Promises.keys_clear, Promises.keys_failEach]
  | _ => exact h

omit [FloatText φ] in
theorem found_turn (h : Tracked s) (hkeys : s.transport.pending.keys.Nodup) {d : Nat}
    {old new : Call φ} {t : Promises Str (ServerMessage φ)} (hcall : s.calls[d]? = some old)
    (hturn : Turn s.transport.pending d e old new t) {c : Nat} {call : Call φ} {id : Str}
    (hc : (s.calls.set d new)[c]? = some call) (hflight : call.inFlight = true)
    (hwaiting : t.promise? c = some .waiting) (hid : t.key? c = some id) :
    t.pending.get? id = some c := by
  have hid' : s.transport.pending.key? c = some id := by
    rwa [Promises.key?_eq, hturn.keys_eq, ← Promises.key?_eq] at hid
  by_cases hd : d = c
  · subst hd
    rw [List.getElem?_set_self (List.getElem?_eq_some_iff.mp hcall).1] at hc
    cases hc
    obtain ⟨hold, rfl | rfl⟩ := hturn.call_of hflight
    · exact h.found d old id hcall hold hwaiting hid'
    · exact absurd hwaiting (Promises.not_waiting_settle _ d)
  · rw [List.getElem?_set_ne hd] at hc
    have hother : s.transport.pending.key? d ≠ some id := by
      intro hdid
      rw [Promises.key?_eq] at hdid hid'
      have hlt := (List.getElem?_eq_some_iff.mp hdid).1
      exact hd ((List.getElem?_inj hlt hkeys).mp (hdid.trans hid'.symm))
    obtain rfl | rfl | rfl := hturn.promises
    · exact h.found c call id hc hflight hwaiting hid'
    · rw [Promises.pending_forgetOf hother]
      rw [Promises.promise?, Promises.made_forgetOf] at hwaiting
      exact h.found c call id hc hflight hwaiting hid'
    · rw [Promises.promise?_settle, if_neg hd] at hwaiting
      exact h.found c call id hc hflight hwaiting hid'

omit [FloatText φ] in
theorem found_message (h : Tracked s) (msg : ServerMessage φ) {c : Nat} {call : Call φ} {id : Str}
    (hc : s.calls[c]? = some call) (hflight : call.inFlight = true)
    (hwaiting : (s.transport.dispatch B msg).pending.promise? c = some .waiting)
    (hid : (s.transport.dispatch B msg).pending.key? c = some id) :
    (s.transport.dispatch B msg).pending.pending.get? id = some c := by
  obtain ⟨key, i, -, hi, hd⟩ | hd := s.transport.dispatch_cases (B := B) msg
  · simp only [hd, Promises.deliver, hi] at hwaiting hid ⊢
    rw [Promises.promise?_settle] at hwaiting
    rw [Promises.key?_settle, Promises.key?_forget] at hid
    rw [Promises.pending_settle, Promises.forget, Dict.get?_erase]
    by_cases hic : i = c
    · rw [if_pos hic] at hwaiting
      obtain ⟨p, -, hp⟩ := Option.map_eq_some_iff.mp hwaiting
      cases p <;> cases hp
    · rw [if_neg hic] at hwaiting
      have hfound := h.found c call id hc hflight hwaiting hid
      have hne : id ≠ key := by
        rintro rfl
        exact hic (Option.some.inj (hi.symm.trans hfound))
      rw [if_neg hne]
      exact hfound
  · simp only [hd, pending_offer] at hwaiting hid ⊢
    exact h.found c call id hc hflight hwaiting hid

omit [FloatText φ] in
theorem found_finish (h : Tracked s) {c : Nat} {call : Call φ} (hc : s.calls[c]? = some call)
    (hflight : call.inFlight = true) :
    s.transport.finish.pending.promise? c ≠ some .waiting := by
  intro hwaiting
  rw [pending_finish] at hwaiting
  have hfail : (s.transport.pending.failEach s.transport.pending.pending.values).promise? c =
      some .waiting := hwaiting
  have hlt : c < s.transport.pending.made.length := h.length ▸ (List.getElem?_eq_some_iff.mp hc).1
  obtain ⟨id, hid⟩ : ∃ id, s.requestId? c = some id :=
    ⟨_, Option.map_eq_some_iff.mpr ⟨_, List.getElem?_eq_getElem hlt, rfl⟩⟩
  rw [Promises.promise?_failEach] at hfail
  split at hfail
  · obtain ⟨p, -, hp⟩ := Option.map_eq_some_iff.mp hfail
    exact p.settle_failed_ne hp
  · next hpending =>
    exact hpending (Dict.mem_values_of_get? (h.found c call id hc hflight hfail hid))

omit [FloatText φ] in
theorem found_send (h : Tracked s) {requestId : Str}
    (hkeys : (s.transport.pending.keys ++ [requestId]).Nodup) {c : Nat} {call : Call φ} {id : Str}
    (hc : (s.calls ++ [.posting])[c]? = some call) (hflight : call.inFlight = true)
    (hwaiting : (s.transport.pending.make requestId).promise? c = some .waiting)
    (hid : (s.transport.pending.make requestId).key? c = some id) :
    (s.transport.pending.make requestId).pending.get? id = some c := by
  rw [Promises.key?_make] at hid
  show (s.transport.pending.pending.set requestId s.transport.pending.made.length).get? id = some c
  rw [Dict.get?_set]
  by_cases hlast : c = s.transport.pending.made.length
  · rw [if_pos hlast] at hid
    cases hid
    rw [if_pos rfl, hlast]
  · rw [if_neg hlast] at hid
    rw [Promises.promise?_make, if_neg hlast] at hwaiting
    have hlt : c < s.transport.pending.made.length := future?_lt hwaiting
    rw [List.getElem?_append_left (h.length ▸ hlt)] at hc
    have hne : id ≠ requestId := by
      rintro rfl
      rw [Promises.key?_eq] at hid
      exact (List.nodup_append.mp hkeys).2.2 id (List.mem_of_getElem? hid) id (by simp) rfl
    rw [if_neg hne]
    exact h.found c call id hc hflight hwaiting hid

theorem step (h : Tracked s) (hs : Moves B s e s') (hkeys : s'.transport.pending.keys.Nodup) :
    Tracked s' := by
  refine ⟨length_step h.length hs, fun c call id hc hflight hwaiting hid => ?_⟩
  cases hs with
  | send requestId =>
    refine h.found_send ?_ hc hflight hwaiting hid
    rwa [← Promises.keys_make]
  | turn hcall hturn =>
    have hkeys' : s.transport.pending.keys.Nodup := by
      rw [← hturn.keys_eq]
      exact hkeys
    exact h.found_turn hkeys' hcall hturn hc hflight hwaiting hid
  | message _ _ => exact h.found_message _ hc hflight hwaiting hid
  | finish _ => exact absurd hwaiting (h.found_finish hc hflight)
  | _ => exact h.found c call id hc hflight hwaiting hid

omit [FloatText φ] in
theorem init : Tracked (LegacySystem.init (φ := φ)) := by
  refine ⟨rfl, fun c call id hc => ?_⟩
  cases hc

end Tracked

/-! ### Only open calls are found -/

namespace Tidy

variable {s s' : LegacySystem φ} {e : LegacyEvent φ}

omit [FloatText φ] in
/-- What a turn takes off the table or leaves on it. -/
theorem calls_turn (h : Tidy s) {d : Nat} {old new : Call φ} {t : Promises Str (ServerMessage φ)}
    (hcall : s.calls[d]? = some old) (hturn : Turn s.transport.pending d e old new t)
    {id : Str} {c : Nat} (hc : t.pending.get? id = some c) :
    ∃ call, (s.calls.set d new)[c]? = some call ∧ (call.inFlight = true ∨ call = .cancelled) := by
  have hbefore : s.transport.pending.pending.get? id = some c := by
    obtain rfl | rfl | rfl := hturn.promises
    · exact hc
    · exact Promises.pending_of_forgetOf hc
    · exact hc
  by_cases hd : d = c
  · subst hd
    refine ⟨new, List.getElem?_set_self (List.getElem?_eq_some_iff.mp hcall).1, ?_⟩
    cases hturn with
    | wait _ => exact .inl rfl
    | expire => exact .inl rfl
    | resume hvalue => exact absurd hvalue (h.unanswered id d hbefore _)
    | cancelPost => exact .inr rfl
    | cancelWait => exact .inr rfl
    | _ => exact absurd hc (Promises.not_pending_forgetOf _ d id)
  · rw [List.getElem?_set_ne hd]
    exact h.calls id c hbefore

omit [FloatText φ] in
theorem unanswered_turn (h : Tidy s) {d : Nat} {old new : Call φ}
    {t : Promises Str (ServerMessage φ)} (hturn : Turn s.transport.pending d e old new t)
    {id : Str} {c : Nat} (hc : t.pending.get? id = some c) (msg : ServerMessage φ) :
    t.promise? c ≠ some (.value msg) := by
  intro hvalue
  obtain rfl | rfl | rfl := hturn.promises
  · exact h.unanswered id c hc msg hvalue
  · rw [Promises.promise?, Promises.made_forgetOf] at hvalue
    exact h.unanswered id c (Promises.pending_of_forgetOf hc) msg hvalue
  · exact h.unanswered id c hc msg (Promises.value_of_settle_failed hvalue)

omit [FloatText φ] in
/-- An answer takes its call off the table. -/
theorem message (h : Tidy s) (msg : ServerMessage φ) {id : Str} {c : Nat}
    (hc : (s.transport.dispatch B msg).pending.pending.get? id = some c) :
    s.transport.pending.pending.get? id = some c ∧
      ∀ m, (s.transport.dispatch B msg).pending.promise? c ≠ some (.value m) := by
  obtain ⟨key, i, -, hi, hd⟩ | hd := s.transport.dispatch_cases (B := B) msg
  · simp only [hd] at hc ⊢
    obtain ⟨hbefore, hother⟩ := Promises.pending_deliver hc
    refine ⟨hbefore, fun m hvalue => ?_⟩
    rw [Promises.promise?_deliver_of_pending hi] at hvalue
    by_cases hic : i = c
    · have hkey : s.requestId? c = some id := Promises.key?_of_pending hbefore
      have hkey' : s.requestId? i = some key := Promises.key?_of_pending hi
      rw [hic, hkey] at hkey'
      cases hkey'
      rw [hother rfl] at hi
      cases hi
    · rw [if_neg hic] at hvalue
      exact h.unanswered id c hbefore m hvalue
  · simp only [hd, pending_offer] at hc ⊢
    exact ⟨hc, h.unanswered id c hc⟩

theorem step (h : Tidy s) (hs : Moves B s e s') : Tidy s' := by
  have hlength : s'.calls.length = s'.transport.pending.made.length :=
    Tracked.length_step h.length hs
  cases hs with
  | send requestId =>
    have hget : ∀ id c, (s.transport.pending.make requestId).pending.get? id = some c →
        c = s.transport.pending.made.length ∨ s.transport.pending.pending.get? id = some c := by
      intro id c hc
      have hset : (s.transport.pending.pending.set requestId
          s.transport.pending.made.length).get? id = some c := hc
      rw [Dict.get?_set] at hset
      split at hset
      · exact .inl (Option.some.inj hset).symm
      · exact .inr hset
    refine ⟨hlength, fun id c hc => ?_, fun id c hc msg hvalue => ?_⟩
    · obtain rfl | hold := hget id c hc
      · refine ⟨.posting, ?_, .inl rfl⟩
        show (s.calls ++ [.posting])[s.transport.pending.made.length]? = some .posting
        rw [← h.length, List.getElem?_concat_length]
      · obtain ⟨call, hcall, hopen⟩ := h.calls id c hold
        exact ⟨call, List.getElem?_append_left (List.getElem?_eq_some_iff.mp hcall).1 ▸ hcall, hopen⟩
    · have hmade : (s.transport.pending.make requestId).promise? c = some (.value msg) := hvalue
      rw [Promises.promise?_make] at hmade
      obtain rfl | hold := hget id c hc
      · rw [if_pos rfl] at hmade
        cases hmade
      · split at hmade
        · cases hmade
        · exact h.unanswered id c hold msg hmade
  | turn hcall hturn =>
    exact ⟨hlength, fun id c hc => h.calls_turn hcall hturn hc,
      fun id c hc msg => h.unanswered_turn hturn hc msg⟩
  | message _ _ =>
    exact ⟨hlength, fun id c hc => h.calls id c (h.message _ hc).1,
      fun id c hc => (h.message _ hc).2⟩
  | finish _ =>
    refine ⟨hlength, fun id c hc => ?_, fun id c hc => ?_⟩
    · simp only [pending_finish] at hc
      cases hc
    · simp only [pending_finish] at hc
      cases hc
  | _ => exact ⟨hlength, h.calls, h.unanswered⟩

omit [FloatText φ] in
theorem init : Tidy (LegacySystem.init (φ := φ)) := by
  refine ⟨rfl, fun id c hc => ?_, fun id c hc => ?_⟩
  · cases hc
  · cases hc

end Tidy

theorem tracked_of_exec {es : List (LegacyEvent φ)} {s : LegacySystem φ}
    (hids : (requestIds es).Nodup)
    (h : Run.exec (LegacySystem.step B) LegacySystem.init es = some s) : Tracked s := by
  have hrun := Run.exec_history (LegacySystem.step B) (P := fun es s => Delivered B es s ∧ Tracked s)
    (fun es => (requestIds es).Nodup) ?_ ⟨Delivered.init B, Tracked.init⟩ ?_ es s hids h
  · exact hrun.2
  · intro es e hok
    rw [requestIds_append] at hok
    exact hok.sublist (List.sublist_append_left _ _)
  · intro es e s s' ⟨hd, ht⟩ hok hstep
    have hd' := hd.step hstep
    refine ⟨hd', ht.step (LegacySystem.step_moves hstep) ?_⟩
    rw [hd'.keys]
    exact hok

theorem tidy_of_exec {es : List (LegacyEvent φ)} {s : LegacySystem φ}
    (h : Run.exec (LegacySystem.step B) LegacySystem.init es = some s) : Tidy s :=
  Run.exec_invariant (fun _ _ _ ht hstep => ht.step (LegacySystem.step_moves hstep)) Tidy.init h

/-! ## An answer decides its call -/

/-- The call goes on to return the message, unless its POST fails or is answered itself, or it is
given up. -/
def Decided (after : List (LegacyEvent φ)) (c : Nat) (msg : ServerMessage φ) (call : Call φ) : Prop :=
  call.inFlight = true ∨ call = .returned (.obj msg) ∨
    (∃ response, .posted c response ∈ after ∧ posted response ≠ .wait) ∨
    .timeOut c ∈ after ∨ .cancel c ∈ after

omit [FloatText φ] in
theorem Decided.concat {after : List (LegacyEvent φ)} {c : Nat} {msg : ServerMessage φ} {call : Call φ}
    (h : Decided after c msg call) (e : LegacyEvent φ) : Decided (after ++ [e]) c msg call := by
  obtain h | h | ⟨response, hmem, h⟩ | h | h := h
  · exact .inl h
  · exact .inr (.inl h)
  · exact .inr (.inr (.inl ⟨response, List.mem_append_left _ hmem, h⟩))
  · exact .inr (.inr (.inr (.inl (List.mem_append_left _ h))))
  · exact .inr (.inr (.inr (.inr (List.mem_append_left _ h))))

omit [FloatText φ] in
theorem decided_turn {t t' : Promises Str (ServerMessage φ)} {c : Nat} {e : LegacyEvent φ}
    {old new : Call φ} (h : Turn t c e old new t') {msg : ServerMessage φ}
    (hvalue : t.promise? c = some (.value msg)) (after : List (LegacyEvent φ)) :
    Decided (after ++ [e]) c msg new := by
  have hlast : e ∈ after ++ [e] := List.mem_append_right _ List.mem_cons_self
  cases h with
  | inline hj => exact .inr (.inr (.inl ⟨_, hlast, by rw [hj]; simp⟩))
  | wait _ => exact .inl rfl
  | failed hf => exact .inr (.inr (.inl ⟨_, hlast, by rw [hf]; simp⟩))
  | expire => exact .inl rfl
  | resume hm =>
    rw [hvalue] at hm
    cases hm
    exact .inr (.inl rfl)
  | fail hf =>
    rw [hvalue] at hf
    cases hf
  | timeOut => exact .inr (.inr (.inr (.inl hlast)))
  | cancelPost => exact .inr (.inr (.inr (.inr hlast)))
  | cancelWait => exact .inr (.inr (.inr (.inr hlast)))

theorem decided_step {s s' : LegacySystem φ} {e : LegacyEvent φ} (hs : Moves B s e s') {c : Nat}
    {msg : ServerMessage φ} (hvalue : s.future? c = some (.value msg)) {after : List (LegacyEvent φ)}
    (h : ∃ call, s.calls[c]? = some call ∧ Decided after c msg call) :
    ∃ call, s'.calls[c]? = some call ∧ Decided (after ++ [e]) c msg call := by
  obtain ⟨call, hcall, hdecided⟩ := h
  cases hs with
  | send requestId =>
    refine ⟨call, ?_, hdecided.concat _⟩
    show (s.calls ++ [.posting])[c]? = some call
    rwa [List.getElem?_append_left (List.getElem?_eq_some_iff.mp hcall).1]
  | @turn _ d _ new _ hold hturn =>
    by_cases hd : d = c
    · subst hd
      exact ⟨new, List.getElem?_set_self (List.getElem?_eq_some_iff.mp hold).1,
        decided_turn hturn hvalue after⟩
    · refine ⟨call, ?_, hdecided.concat _⟩
      show (s.calls.set d new)[c]? = some call
      rwa [List.getElem?_set_ne hd]
  | _ => exact ⟨call, hcall, hdecided.concat _⟩

/-- With distinct request ids a message that answers a call in flight becomes the result of its
future for good, and the call returns it when it goes on. -/
theorem exec_answered {before after : List (LegacyEvent φ)} {line id : Str} {s₀ s : LegacySystem φ}
    {n c : Nat} {d : Option Str} {msg : ServerMessage φ} {call : Call φ}
    (hids : (requestIds before).Nodup)
    (hbefore : Run.exec (LegacySystem.step B) LegacySystem.init before = some s₀)
    (hread : s₀.listener = .reading n d) (hfeed : ((Listener.reading n d).feed line).1 = some msg)
    (hkey : messageKey B msg = some id) (hid : s₀.requestId? c = some id)
    (hcall : s₀.calls[c]? = some call) (hflight : call.inFlight = true)
    (hwaiting : s₀.future? c = some .waiting)
    (h : Run.exec (LegacySystem.step B) LegacySystem.init (before ++ .line line :: after) = some s) :
    s.future? c = some (.value msg) ∧ ∃ call, s.calls[c]? = some call ∧ Decided after c msg call ∧
      (∀ expired, call = .waiting expired →
        ∃ s', s.step B (.resume c) = some s' ∧ s'.calls[c]? = some (.returned (.obj msg))) := by
  rw [Run.exec_append, hbefore, Option.bind_some, Run.exec_cons] at h
  obtain ⟨s₁, hs₁, hafter⟩ := Option.bind_eq_some_iff.mp h
  have hfound := (tracked_of_exec hids hbefore).found c call id hcall hflight hwaiting hid
  have hd : s₀.transport.dispatch B msg =
      { s₀.transport with pending := s₀.transport.pending.deliver id msg } := by
    simp only [dispatch, hkey, hfound]
  have hstart : s₁.future? c = some (.value msg) ∧ s₁.calls = s₀.calls := by
    cases LegacySystem.step_moves hs₁ with
    | turn _ hturn => cases hturn
    | silent hread' hfeed' =>
      cases hread.symm.trans hread'
      cases hfeed.symm.trans hfeed'
    | message hread' hfeed' =>
      cases hread.symm.trans hread'
      cases hfeed.symm.trans hfeed'
      refine ⟨?_, rfl⟩
      show (s₀.transport.dispatch B msg).pending.promise? c = _
      simp only [hd]
      rw [Promises.promise?_deliver_of_pending hfound, if_pos rfl]
      exact congrArg (Option.map _) hwaiting
  have hrun := Run.exec_history (LegacySystem.step B)
    (P := fun after s => s.future? c = some (.value msg) ∧
      ∃ call, s.calls[c]? = some call ∧ Decided after c msg call) (fun _ => True)
    (fun _ _ _ => trivial) ⟨hstart.1, call, by rw [hstart.2, hcall], .inl hflight⟩
    (fun es e s s' hp _ hstep =>
      have hs := LegacySystem.step_moves hstep
      ⟨hs.keeps.value hp.1, decided_step hs hp.1 hp.2⟩) after s trivial hafter
  obtain ⟨hvalue, call', hcall', hdecided⟩ := hrun
  refine ⟨hvalue, call', hcall', hdecided, fun expired hw => ?_⟩
  subst hw
  refine ⟨s.setCall c (.returned (.obj msg)), by simp only [LegacySystem.step, hcall', hvalue], ?_⟩
  exact List.getElem?_set_self (List.getElem?_eq_some_iff.mp hcall').1

/-! ## The end of the stream -/

/-- Once the stream is closed: what `recv` will get, and nothing of the first calls in the table. -/
structure Closed (t : Promises Str (ServerMessage φ)) (messages : List (ServerMessage φ))
    (s : LegacySystem φ) : Prop where
  listener : s.listener = .closed
  messages_eq : s.taken ++ s.transport.recvQueue = messages
  keeps : Promises.Extends t s.transport.pending
  length : t.made.length ≤ s.transport.pending.made.length
  pending : ∀ id c, s.transport.pending.pending.get? id = some c → t.made.length ≤ c

theorem Closed.step {t : Promises Str (ServerMessage φ)} {messages : List (ServerMessage φ)}
    {s s' : LegacySystem φ} {e : LegacyEvent φ} (h : Closed t messages s) (hs : Moves B s e s') :
    Closed t messages s' := by
  have hkeeps := h.keeps.trans hs.keeps
  cases hs with
  | send requestId =>
    refine ⟨h.listener, h.messages_eq, hkeeps, ?_, fun id c hc => ?_⟩
    · show t.made.length ≤ (s.transport.pending.made ++ [_]).length
      rw [List.length_append]
      exact Nat.le_add_right_of_le h.length
    · have hset : (s.transport.pending.pending.set requestId
          s.transport.pending.made.length).get? id = some c := hc
      rw [Dict.get?_set] at hset
      split at hset
      · cases hset
        exact h.length
      · exact h.pending id c hset
  | @turn _ c _ _ t' _ hturn =>
    have hlength : t'.made.length = s.transport.pending.made.length := by
      have hkeys := congrArg List.length hturn.keys_eq
      rwa [Promises.keys, Promises.keys, List.length_map, List.length_map] at hkeys
    refine ⟨h.listener, h.messages_eq, hkeeps, ?_, fun id j hj => ?_⟩
    · show t.made.length ≤ t'.made.length
      rw [hlength]
      exact h.length
    · have hpending : t'.pending.get? id = some j := hj
      obtain rfl | rfl | rfl := hturn.promises
      · exact h.pending id j hpending
      · exact h.pending id j (Promises.pending_of_forgetOf hpending)
      · exact h.pending id j hpending
  | silent hread _ => exact absurd (h.listener.symm.trans hread) (by simp)
  | message hread _ => exact absurd (h.listener.symm.trans hread) (by simp)
  | streamEnd hread => exact absurd (h.listener.symm.trans hread) (by simp)
  | finish hleaving => exact absurd (h.listener.symm.trans hleaving) (by simp)
  | recv hqueue =>
    refine ⟨h.listener, ?_, hkeeps, h.length, h.pending⟩
    rw [← h.messages_eq, hqueue, List.append_assoc, List.singleton_append]

omit [FloatText φ] in
theorem recvQueue_offer (t : LegacySSETransport φ) (msg : ServerMessage φ) :
    (t.offer msg).recvQueue =
      t.recvQueue ++ if t.recvQueue.length < recvQueueSize then [msg] else [] := by
  obtain ⟨h, hroom⟩ | ⟨h, hfull⟩ := t.offer_cases msg
  · rw [h, if_pos hroom]
  · rw [h, if_neg (Nat.not_lt.mpr hfull), List.append_nil]

omit [FloatText φ] in
theorem closed_finish (s : LegacySystem φ) :
    Closed s.transport.finish.pending (s.taken ++ s.transport.finish.recvQueue)
      { s with transport := s.transport.finish, listener := .closed } := by
  refine ⟨rfl, rfl, Promises.Extends.refl _, Nat.le_refl _, fun id c hc => ?_⟩
  simp only [pending_finish] at hc
  cases hc

/-- Behind the end of the stream no call that was in flight waits for it, and none of the earlier
calls is left in the table. `recv` gets what was queued and then, unless the queue was full, the
notice of the end: where it was full, a later call of `recv` waits for ever. -/
theorem exec_closed {before after : List (LegacyEvent φ)} {s₀ s : LegacySystem φ}
    (hids : (requestIds before).Nodup)
    (hbefore : Run.exec (LegacySystem.step B) LegacySystem.init before = some s₀)
    (h : Run.exec (LegacySystem.step B) LegacySystem.init (before ++ .finish :: after) = some s) :
    s.taken ++ s.transport.recvQueue = s₀.taken ++ (s₀.transport.recvQueue ++
        if s₀.transport.recvQueue.length < recvQueueSize then [sseClosed] else []) ∧
      (∀ c call, s₀.calls[c]? = some call → call.inFlight = true →
        ∀ expired, s.calls[c]? = some (.waiting expired) → (s.step B (.resume c)).isSome) ∧
      ∀ id c, s.transport.pending.pending.get? id = some c → s₀.calls.length ≤ c ∧
        ∃ call, s.calls[c]? = some call ∧ (call.inFlight = true ∨ call = .cancelled) := by
  have htidy : Tidy s := tidy_of_exec h
  rw [Run.exec_append, hbefore, Option.bind_some, Run.exec_cons] at h
  obtain ⟨s₁, hs₁, hafter⟩ := Option.bind_eq_some_iff.mp h
  have htracked : Tracked s₀ := tracked_of_exec hids hbefore
  have hs₁ : s₁ = { s₀ with transport := s₀.transport.finish, listener := .closed } := by
    cases LegacySystem.step_moves hs₁ with
    | turn _ hturn => cases hturn
    | finish _ => rfl
  have hclosed : Closed s₀.transport.finish.pending (s₀.taken ++ s₀.transport.finish.recvQueue) s :=
    Run.exec_invariant (fun _ _ _ hc hstep => hc.step (LegacySystem.step_moves hstep))
      (hs₁ ▸ closed_finish s₀) hafter
  have hlength : s₀.transport.finish.pending.made.length = s₀.calls.length := by
    have hkeys := congrArg List.length
      ((congrArg Promises.keys (pending_finish s₀.transport)).trans
        ((Promises.keys_clear _).trans (Promises.keys_failEach _ _)))
    rw [Promises.keys, Promises.keys, List.length_map, List.length_map] at hkeys
    rw [hkeys, htracked.length]
  refine ⟨by rw [hclosed.messages_eq, finish, recvQueue_offer], ?_, fun id c hc => ⟨?_, htidy.calls id c hc⟩⟩
  · intro c call hcall hflight expired hwaiting
    have hlt : c < s₀.transport.finish.pending.made.length := by
      rw [hlength]
      exact (List.getElem?_eq_some_iff.mp hcall).1
    obtain ⟨p, hp⟩ : ∃ p, s₀.transport.finish.pending.promise? c = some p :=
      ⟨_, Option.map_eq_some_iff.mpr ⟨_, List.getElem?_eq_getElem hlt, rfl⟩⟩
    have hsettled : p ≠ .waiting := fun hw => htracked.found_finish hcall hflight (hw ▸ hp)
    obtain ⟨-, q, hq, hqp⟩ := hclosed.keeps c p hp
    have hfuture : s.future? c = some p := by
      rw [← hqp hsettled]
      exact hq
    cases p with
    | waiting => exact absurd rfl hsettled
    | value msg => simp only [LegacySystem.step, hwaiting, hfuture, Option.isSome_some]
    | failed => simp only [LegacySystem.step, hwaiting, hfuture, Option.isSome_some]
  · rw [← hlength]
    exact hclosed.pending id c hc

section Example

/-- Two requests, and the data of an event that is still open. -/
private def sentBefore : List (LegacyEvent WholeFloat) :=
  [.send (lit "a"), .send (lit "b"), .line sampleLine]

private def sentState : LegacySystem WholeFloat :=
  ⟨⟨(Promises.empty.make (lit "a")).make (lit "b"), []⟩, [.posting, .posting],
    .reading 1 (some (Json.obj sampleReply).text), []⟩

private theorem exec_sentBefore :
    Run.exec (LegacySystem.step textBuiltins) LegacySystem.init sentBefore = some sentState := by
  simp only [sentBefore, Run.exec_cons, Run.exec_nil, LegacySystem.step, LegacySystem.init,
    feed_sampleLine, LegacySystem.withPending, Option.bind_some]
  rfl

private theorem isSome_exec_sentBefore (e e' : LegacyEvent WholeFloat) {s : LegacySystem WholeFloat}
    (h : sentState.step textBuiltins e = some s) (h' : (s.step textBuiltins e').isSome = true) :
    ∃ s', Run.exec (LegacySystem.step textBuiltins) LegacySystem.init (sentBefore ++ [e, e']) =
      some s' := by
  obtain ⟨s', hs'⟩ := Option.isSome_iff_exists.mp h'
  refine ⟨s', ?_⟩
  rw [Run.exec_append, exec_sentBefore, Option.bind_some, Run.exec_cons, h, Option.bind_some,
    Run.exec_cons, hs']
  rfl

/-- The event ends and is the answer to the second request, before the reply to its POST. -/
theorem exec_answered_second : ∃ s,
    Run.exec (LegacySystem.step textBuiltins) LegacySystem.init
        (sentBefore ++ .line [] :: [.posted 1 none]) = some s ∧
      s.future? 1 = some (.value sampleReply) := by
  have hline : sentState.step textBuiltins (.line []) = some { sentState with
      transport := sentState.transport.dispatch textBuiltins sampleReply
      listener := .reading 2 none } := by
    simp only [LegacySystem.step, sentState, feed_sampleEnd]
  obtain ⟨s, hs⟩ := isSome_exec_sentBefore (.line []) (.posted 1 none) hline (by rfl)
  have hfeed := congrArg Prod.fst feed_sampleEnd
  have hid : sentState.requestId? 1 = some (lit "b") := rfl
  have hcall : sentState.calls[1]? = some .posting := rfl
  exact ⟨s, hs, (exec_answered (by decide) exec_sentBefore rfl hfeed rfl hid hcall rfl rfl hs).1⟩

/-- The stream ends instead, and the calls are not left waiting. -/
theorem exec_closed_second : ∃ s,
    Run.exec (LegacySystem.step textBuiltins) LegacySystem.init
        ((sentBefore ++ [.streamEnd]) ++ .finish :: []) = some s ∧
      s.taken ++ s.transport.recvQueue = [sseClosed] := by
  obtain ⟨s, hs⟩ := isSome_exec_sentBefore .streamEnd .finish rfl (by rfl)
  have hbefore : Run.exec (LegacySystem.step textBuiltins) LegacySystem.init
      (sentBefore ++ [.streamEnd]) = some { sentState with listener := .leaving } := by
    rw [Run.exec_append, exec_sentBefore]
    rfl
  have hs : Run.exec (LegacySystem.step textBuiltins) LegacySystem.init
      ((sentBefore ++ [.streamEnd]) ++ .finish :: []) = some s := by
    rw [List.append_assoc]
    exact hs
  exact ⟨s, hs, (exec_closed (by decide) hbefore hs).1⟩

end Example

end CosaiMcp.Transport
