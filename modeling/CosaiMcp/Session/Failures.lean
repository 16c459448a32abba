import CosaiMcp.Py.Except
import CosaiMcp.Session.Start

/-!
# Handshakes that fail

Which replies of a server make the handshake fail, and what of them the message of the failure
quotes (`Fails`). `start` raises a `SessionIncompleteError` exactly on such replies
(`fails_of_start`, `Fails.start`).
-/

namespace CosaiMcp.Session

open Py Protocol

variable {φ : Type}

/-! ## What a message quotes -/

section Quotes

variable (str repr : Json φ → Str)

/-- What the message quotes of the server, or of the exception. -/
def Failure.quoted : Failure φ → Str
  | .toolsListFailed e | .initializeFailed e | .legacySseFailed e => e.text
  | .toolsListError error | .initializeRejected error | .legacySseRejected error => str error
  | .toolsListNotComplete resultType => repr resultType
  | .initializeNoResult => []

/-- The status that the summary of a reply to `server/discover` quotes. -/
def statusText (response : Json φ) : List Str :=
  match response.getOrNull (lit "_status_code") with
  | .int n => [intText n]
  | .bool b => [str (.bool b)]
  | _ => []

/-- The beginning of a member `exception`, that the summary quotes too. -/
def exceptionText (response : Json φ) : List Str :=
  match response.get? (lit "exception") with
  | some e => [(beforeColon (str e)).take 60]
  | none => []

/-- All that the summary of a reply to `server/discover` quotes of it. -/
def summaryTexts (response : Json φ) : List Str := statusText str response ++ exceptionText str response

def Incomplete.quotes : Incomplete φ → List Str
  | .discover _ response => summaryTexts str response
  | .failed failure => [failure.quoted str repr]
  | .failedAfter failure response => failure.quoted str repr :: summaryTexts str response

end Quotes

/-! ## Replies -/

/-- The request was answered with a result. -/
def Answers (reply : Except Exn (Json φ)) (result : Json φ) : Prop :=
  ∃ ms, reply = .ok (.obj ms) ∧ (Json.obj ms).get? (lit "error") = none ∧
    result = ((Json.obj ms).get? (lit "result")).getD (.obj [])

/-- The request was answered with an error, or not at all. -/
inductive Rejects (str : Json φ → Str) (reply : Except Exn (Json φ)) : Str → Prop
  | exn {e : Exn} (h : reply = .error e) : Rejects str reply e.text
  | error {ms : List (Str × Json φ)} {error : Json φ} (h : reply = .ok (.obj ms))
      (herror : (Json.obj ms).get? (lit "error") = some error) : Rejects str reply (str error)

/-- `initialize` was answered with this version of the protocol. -/
def Negotiates (reply : Except Exn (Json φ)) (version : Json φ) : Prop :=
  ∃ m ms, Answers reply (.obj (m :: ms)) ∧ version.hashable = true ∧
    version = ((Json.obj (m :: ms)).get? (lit "protocolVersion")).getD (.str [])

/-- The version asks for the transport of 2024-11-05. -/
def Switches (version : Json φ) (targetUrl : Str) : Prop :=
  version.asStr? = some (lit "2024-11-05") ∧ targetUrl ≠ []

section Fails

variable [PyFloat φ] (str repr : Json φ → Str) (requested : ProtocolEra) (targetUrl : Str)
  (server : Handshake φ)

/-- The handshake of the modern era fails, and the message quotes the text. -/
inductive ModernFails : Str → Prop
  | list {text : Str} (h : Rejects str server.toolsList text) : ModernFails text
  | notComplete {ms : List (Str × Json φ)} {resultType : Json φ}
      (h : Answers server.toolsList (.obj ms))
      (htype : resultType = ((Json.obj ms).get? (lit "resultType")).getD (.str (lit "complete")))
      (hne : resultType.pyEq (.str (lit "complete")) = false) : ModernFails (repr resultType)

/-- The handshake of the legacy era fails, and the message quotes the text. -/
inductive LegacyFails : Str → Prop
  | rejected {text : Str} (h : Rejects str server.init text) : LegacyFails text
  | noResult {result : Json φ} (h : Answers server.init result) (hresult : result.truthy = false) :
      LegacyFails []
  | rejectedAgain {version : Json φ} {text : Str} (h : Negotiates server.init version)
      (hswitch : Switches version targetUrl) (hreconnect : server.reconnect = .ok ())
      (hrejects : Rejects str server.reinit text) : LegacyFails text
  | list {version : Json φ} {text : Str} (h : Negotiates server.init version)
      (hagain : Switches version targetUrl →
        server.reconnect = .ok () ∧ ∃ ms, Answers server.reinit (.obj ms))
      (hrejects : Rejects str server.toolsList text) : LegacyFails text

/-- The error of the reply to `server/discover` is that the method is unknown. -/
def UnknownMethod (response : Json φ) : Prop :=
  ((response.getOrNull (lit "error")).getOrNull (lit "code")).pyEq (.int (-32601)) = true

/-- The handshake fails, and the message quotes the texts. -/
inductive Fails : List Str → Prop
  | pinned {text : Str} (h : requested = .legacy)
      (hfails : LegacyFails str targetUrl server text) : Fails [text]
  | modern {ms rs : List (Str × Json φ)} {text : Str} (h : requested ≠ .legacy)
      (hdiscover : probeModern server.discover = some (.modern, .obj ms))
      (hresult : ((Json.obj ms).get? (lit "result")).getD (.obj []) = .obj rs)
      (hfails : ModernFails str repr server text) : Fails [text]
  | noDowngrade {detection : EraDetection} {ms : List (Str × Json φ)} (h : requested ≠ .legacy)
      (hdiscover : probeModern server.discover = some (detection, .obj ms))
      (hne : detection ≠ .modern)
      (hmodern : requested = .modern ∨ detection = .modernIncompatible ∨
        detection = .modernError) : Fails (summaryTexts str (.obj ms))
  | unknownMethod {ms : List (Str × Json φ)} {text : Str} (h : requested = .auto)
      (hdiscover : probeModern server.discover = some (.legacy, .obj ms))
      (hcode : UnknownMethod (.obj ms))
      (hfails : LegacyFails str targetUrl server text) : Fails [text]
  | undecided {detection : EraDetection} {ms : List (Str × Json φ)} {text : Str}
      (h : requested = .auto)
      (hdiscover : probeModern server.discover = some (detection, .obj ms))
      (hdetection : detection = .legacy ∨ detection = .undetermined)
      (hcode : ¬ (detection = .legacy ∧ UnknownMethod (.obj ms)))
      (hfails : LegacyFails str targetUrl server text) :
      Fails (text :: summaryTexts str (.obj ms))

end Fails

/-! ## Steps that fail -/

section Steps

variable {α β : Type}

/-- The step raises an error whose message quotes the text. -/
def FailsWith (str repr : Json φ → Str) (x : Except (StartError φ) α) (text : Str) : Prop :=
  ∃ failure, x = .error (.incomplete (.failed failure)) ∧ failure.quoted str repr = text

/-- The step raises no error about `server/discover`. -/
def OnlyFailed (x : Except (StartError φ) α) : Prop :=
  ∀ e, x = .error (.incomplete e) → ∃ failure, e = .failed failure

variable {str repr : Json φ → Str} {text : Str} {x : Except (StartError φ) α}
  {f : α → Except (StartError φ) β}

theorem failsWith_bind : FailsWith str repr (x >>= f) text ↔
    FailsWith str repr x text ∨ ∃ a, x = .ok a ∧ FailsWith str repr (f a) text := by
  cases x with
  | error e =>
    constructor
    · rintro ⟨failure, h, htext⟩
      exact .inl ⟨failure, congrArg _ (Except.error.inj h), htext⟩
    · rintro (⟨failure, h, htext⟩ | ⟨a, h, -⟩)
      · exact ⟨failure, congrArg _ (Except.error.inj h), htext⟩
      · cases h
  | ok a =>
    refine ⟨fun h => .inr ⟨a, rfl, h⟩, ?_⟩
    rintro (⟨_, h, -⟩ | ⟨_, ⟨⟩, h⟩)
    · cases h
    · exact h

theorem not_failsWith_ok {a : α} : ¬ FailsWith str repr (.ok a) text := by
  rintro ⟨_, h, -⟩
  cases h

theorem not_failsWith_raised : ¬ FailsWith str repr (.error .raised : Except _ α) text := by
  rintro ⟨_, h, -⟩
  cases h

theorem failsWith_failed {failure : Failure φ} :
    FailsWith str repr (.error (.incomplete (.failed failure)) : Except _ α) text ↔
      text = failure.quoted str repr := by
  constructor
  · rintro ⟨_, ⟨⟩, h⟩
    exact h.symm
  · exact fun h => ⟨failure, rfl, h.symm⟩

theorem OnlyFailed.bind (hx : OnlyFailed x) (hf : ∀ a, OnlyFailed (f a)) :
    OnlyFailed (x >>= f) := by
  cases x with
  | error e => exact fun e' h => hx e' (congrArg _ (Except.error.inj h))
  | ok a => exact hf a

theorem onlyFailed_ok (a : α) : OnlyFailed (.ok a : Except (StartError φ) α) := nofun

theorem onlyFailed_raised : OnlyFailed (.error .raised : Except (StartError φ) α) := nofun

theorem onlyFailed_failed (failure : Failure φ) :
    OnlyFailed (.error (.incomplete (.failed failure)) : Except (StartError φ) α) := by
  rintro _ ⟨⟩
  exact ⟨failure, rfl⟩

end Steps

section Start

variable {str repr : Json φ → Str} {text : Str} {reply : Except Exn (Json φ)}
  {onException : Exn → Failure φ} {onError : Json φ → Failure φ} {server : Handshake φ}
  {targetUrl : Str}

theorem accepted_ok_iff {j : Json φ} : accepted reply onException onError = .ok j ↔
    ∃ ms, reply = .ok (.obj ms) ∧ (Json.obj ms).get? (lit "error") = none ∧ j = .obj ms := by
  unfold accepted
  split
  · exact ⟨nofun, fun ⟨_, h, _⟩ => nomatch h⟩
  · next ms =>
    cases herror : (Json.obj ms).get? (lit "error") with
    | some error =>
      refine ⟨nofun, ?_⟩
      rintro ⟨_, ⟨⟩, hnone, -⟩
      cases herror.symm.trans hnone
    | none =>
      constructor
      · rintro ⟨⟩
        exact ⟨ms, rfl, herror, rfl⟩
      · rintro ⟨_, ⟨⟩, -, rfl⟩
        rfl
  · next hobject =>
    refine ⟨nofun, ?_⟩
    rintro ⟨ms, ⟨⟩, -⟩
    exact absurd rfl (hobject ms)

theorem failsWith_accepted (hexception : ∀ e, (onException e).quoted str repr = e.text)
    (herror : ∀ j, (onError j).quoted str repr = str j) :
    FailsWith str repr (accepted reply onException onError) text ↔ Rejects str reply text := by
  unfold accepted
  split
  · next e =>
    rw [failsWith_failed, hexception]
    constructor
    · rintro rfl
      exact .exn rfl
    · rintro (⟨⟨⟩⟩ | ⟨⟨⟩⟩)
      rfl
  · next ms =>
    cases hget : (Json.obj ms).get? (lit "error") with
    | some error =>
      dsimp only
      rw [failsWith_failed, herror]
      constructor
      · rintro rfl
        exact .error rfl hget
      · rintro (⟨⟨⟩⟩ | ⟨⟨⟩, hsome⟩)
        rw [Option.some.inj (hget.symm.trans hsome)]
    | none =>
      refine iff_of_false not_failsWith_ok ?_
      rintro (⟨⟨⟩⟩ | ⟨⟨⟩, hsome⟩)
      cases hget.symm.trans hsome
  · next hobject =>
    refine iff_of_false not_failsWith_raised ?_
    rintro (⟨⟨⟩⟩ | ⟨⟨⟩, -⟩)
    exact absurd rfl (hobject _)

theorem onlyFailed_accepted : OnlyFailed (accepted reply onException onError) := by
  unfold accepted
  split
  · exact onlyFailed_failed _
  · split
    · exact onlyFailed_failed _
    · exact onlyFailed_ok _
  · exact onlyFailed_raised

theorem resultOf_ok_iff {response j : Json φ} : resultOf response = .ok j ↔
    ∃ ms, j = .obj ms ∧ (response.get? (lit "result")).getD (.obj []) = .obj ms := by
  unfold resultOf
  split
  · next ms h =>
    rw [h]
    constructor
    · rintro ⟨⟩
      exact ⟨ms, rfl, rfl⟩
    · rintro ⟨_, rfl, ⟨⟩⟩
      rfl
  · next hobject =>
    constructor
    · intro h
      cases h
    · rintro ⟨ms, -, h⟩
      exact absurd h (hobject ms)

theorem resultOf_cases (response : Json φ) :
    (∃ j, resultOf response = .ok j) ∨ resultOf response = .error .raised := by
  unfold resultOf
  split
  · exact .inl ⟨_, rfl⟩
  · exact .inr rfl

theorem not_failsWith_resultOf {response : Json φ} :
    ¬ FailsWith str repr (resultOf response) text := by
  rcases resultOf_cases response with ⟨j, h⟩ | h
  · rw [h]
    exact not_failsWith_ok
  · rw [h]
    exact not_failsWith_raised

theorem onlyFailed_resultOf (response : Json φ) : OnlyFailed (resultOf response) := by
  rcases resultOf_cases response with ⟨j, h⟩ | h
  · rw [h]
    exact onlyFailed_ok j
  · rw [h]
    exact onlyFailed_raised

/-- The reply is taken, and its result. -/
theorem bind_resultOf_ok_iff {j : Json φ} :
    (accepted reply onException onError >>= resultOf) = .ok j ↔
      ∃ ms, j = .obj ms ∧ Answers reply (.obj ms) := by
  rw [Py.bind_eq_ok_iff]
  constructor
  · rintro ⟨response, haccepted, hresult⟩
    obtain ⟨ms, hreply, herror, rfl⟩ := accepted_ok_iff.mp haccepted
    obtain ⟨rs, rfl, hrs⟩ := resultOf_ok_iff.mp hresult
    exact ⟨rs, rfl, ms, hreply, herror, hrs.symm⟩
  · rintro ⟨rs, rfl, ms, hreply, herror, hrs⟩
    exact ⟨.obj ms, accepted_ok_iff.mpr ⟨ms, hreply, herror, rfl⟩,
      resultOf_ok_iff.mpr ⟨rs, rfl, hrs.symm⟩⟩

theorem failsWith_bind_resultOf (hexception : ∀ e, (onException e).quoted str repr = e.text)
    (herror : ∀ j, (onError j).quoted str repr = str j) :
    FailsWith str repr (accepted reply onException onError >>= resultOf) text ↔
      Rejects str reply text := by
  rw [failsWith_bind, failsWith_accepted hexception herror]
  exact or_iff_left fun ⟨_, _, h⟩ => not_failsWith_resultOf h

theorem onlyFailed_bind_resultOf : OnlyFailed (accepted reply onException onError >>= resultOf) :=
  onlyFailed_accepted.bind onlyFailed_resultOf

/-! ## The handshakes of the eras -/

theorem failsWith_listTools :
    FailsWith str repr (listTools server) text ↔ Rejects str server.toolsList text :=
  failsWith_bind_resultOf (fun _ => rfl) fun _ => rfl

theorem onlyFailed_listTools : OnlyFailed (listTools server) := onlyFailed_bind_resultOf

theorem listTools_eq_ok_iff {j : Json φ} :
    listTools server = .ok j ↔ ∃ ms, j = .obj ms ∧ Answers server.toolsList (.obj ms) :=
  bind_resultOf_ok_iff

theorem rerunLegacySse_eq_ok_iff : rerunLegacySse server = .ok () ↔
    server.reconnect = .ok () ∧ ∃ ms, Answers server.reinit (.obj ms) := by
  unfold rerunLegacySse
  cases server.reconnect with
  | error e => exact ⟨nofun, fun h => nomatch h.1⟩
  | ok _ =>
    dsimp only
    rw [← bind_assoc, Py.bind_eq_ok_iff]
    constructor
    · rintro ⟨j, h, -⟩
      obtain ⟨ms, -, hms⟩ := bind_resultOf_ok_iff.mp h
      exact ⟨rfl, ms, hms⟩
    · rintro ⟨-, ms, h⟩
      exact ⟨.obj ms, bind_resultOf_ok_iff.mpr ⟨ms, rfl, h⟩, rfl⟩

theorem failsWith_rerunLegacySse : FailsWith str repr (rerunLegacySse server) text ↔
    server.reconnect = .ok () ∧ Rejects str server.reinit text := by
  unfold rerunLegacySse
  cases server.reconnect with
  | error e => exact iff_of_false not_failsWith_raised fun h => nomatch h.1
  | ok _ =>
    dsimp only
    rw [← bind_assoc, failsWith_bind,
      failsWith_bind_resultOf (fun _ => rfl) fun _ => rfl]
    constructor
    · rintro (h | ⟨_, -, h⟩)
      · exact ⟨rfl, h⟩
      · exact absurd h not_failsWith_ok
    · exact fun h => .inl h.2

theorem onlyFailed_rerunLegacySse : OnlyFailed (rerunLegacySse server) := by
  unfold rerunLegacySse
  cases server.reconnect with
  | error e => exact onlyFailed_raised
  | ok _ =>
    dsimp only
    rw [← bind_assoc]
    exact onlyFailed_bind_resultOf.bind fun _ => onlyFailed_ok ()

variable [PyFloat φ]

theorem failsWith_startModern {response : Json φ} :
    FailsWith str repr (startModern server response) text ↔
      ∃ rs, (response.get? (lit "result")).getD (.obj []) = .obj rs ∧
        ModernFails str repr server text := by
  unfold startModern
  rw [failsWith_bind, or_iff_right not_failsWith_resultOf]
  have hlist : FailsWith str repr (do
      let result ← listTools server
      let resultType := (result.get? (lit "resultType")).getD (.str (lit "complete"))
      if resultType.pyEq (.str (lit "complete")) then return ProtocolEra.modern
      else .error (.incomplete (.failed (.toolsListNotComplete resultType)))) text ↔
        ModernFails str repr server text := by
    rw [failsWith_bind, failsWith_listTools]
    constructor
    · rintro (h | ⟨j, hj, h⟩)
      · exact .list h
      · obtain ⟨ms, rfl, hms⟩ := listTools_eq_ok_iff.mp hj
        dsimp only at h
        split at h
        · exact absurd h not_failsWith_ok
        · next hne =>
          rw [failsWith_failed.mp h]
          exact .notComplete hms rfl (Bool.eq_false_iff.mpr hne)
    · rintro (h | ⟨hms, htype, hne⟩)
      · exact .inl h
      · refine .inr ⟨_, listTools_eq_ok_iff.mpr ⟨_, rfl, hms⟩, ?_⟩
        dsimp only
        rw [← htype, if_neg (by rw [hne]; exact Bool.false_ne_true), failsWith_failed]
        rfl
  constructor
  · rintro ⟨j, hj, h⟩
    obtain ⟨rs, -, hrs⟩ := resultOf_ok_iff.mp hj
    exact ⟨rs, hrs, hlist.mp h⟩
  · rintro ⟨rs, hrs, h⟩
    exact ⟨.obj rs, resultOf_ok_iff.mpr ⟨rs, rfl, hrs⟩, hlist.mpr h⟩

theorem onlyFailed_startModern (response : Json φ) : OnlyFailed (startModern server response) := by
  unfold startModern
  refine (onlyFailed_resultOf response).bind fun _ => onlyFailed_listTools.bind fun result => ?_
  dsimp only
  split
  · exact onlyFailed_ok _
  · exact onlyFailed_failed _

omit [PyFloat φ] in
/-- The rest of the legacy handshake, once the version is known. -/
theorem failsWith_negotiated {version : Json φ} :
    FailsWith str repr (
      let rest := do
        let _ ← listTools server
        return ProtocolEra.legacy
      if version.asStr? = some (lit "2024-11-05") ∧ targetUrl ≠ [] then do
        rerunLegacySse server
        rest
      else rest) text ↔
    (Switches version targetUrl ∧ server.reconnect = .ok () ∧ Rejects str server.reinit text) ∨
      (Switches version targetUrl →
        server.reconnect = .ok () ∧ ∃ ms, Answers server.reinit (.obj ms)) ∧
      Rejects str server.toolsList text := by
  have hlist : FailsWith str repr (do
      let _ ← listTools server
      return ProtocolEra.legacy) text ↔ Rejects str server.toolsList text := by
    rw [failsWith_bind, failsWith_listTools]
    exact or_iff_left fun ⟨_, _, h⟩ => not_failsWith_ok h
  dsimp only
  split
  · next hswitch =>
    have hswitch' : Switches version targetUrl := hswitch
    rw [failsWith_bind, failsWith_rerunLegacySse]
    refine or_congr (and_iff_right hswitch').symm ?_
    constructor
    · rintro ⟨_, hrerun, h⟩
      exact ⟨fun _ => rerunLegacySse_eq_ok_iff.mp hrerun, hlist.mp h⟩
    · rintro ⟨hagain, h⟩
      exact ⟨(), rerunLegacySse_eq_ok_iff.mpr (hagain hswitch'), hlist.mpr h⟩
  · next hswitch =>
    constructor
    · exact fun h => .inr ⟨fun h => absurd h hswitch, hlist.mp h⟩
    · rintro (⟨h, -⟩ | ⟨-, h⟩)
      · exact absurd h hswitch
      · exact hlist.mpr h

theorem onlyFailed_startLegacy : OnlyFailed (startLegacy server targetUrl) := by
  have hlist : OnlyFailed (do
      let _ ← listTools server
      return ProtocolEra.legacy) := onlyFailed_listTools.bind fun _ => onlyFailed_ok _
  unfold startLegacy
  refine onlyFailed_accepted.bind fun response => ?_
  dsimp only
  split
  · exact onlyFailed_failed _
  · refine (onlyFailed_resultOf response).bind fun result => ?_
    split
    · exact onlyFailed_raised
    · split
      · exact onlyFailed_rerunLegacySse.bind fun _ => hlist
      · exact hlist

/-- The legacy handshake after `initialize` was answered with a version. -/
theorem failsWith_of_negotiates {version : Json φ} (h : Negotiates server.init version)
    (hfails : (Switches version targetUrl ∧ server.reconnect = .ok () ∧
        Rejects str server.reinit text) ∨
      (Switches version targetUrl →
        server.reconnect = .ok () ∧ ∃ ms, Answers server.reinit (.obj ms)) ∧
      Rejects str server.toolsList text) :
    FailsWith str repr (startLegacy server targetUrl) text := by
  obtain ⟨r, rs, ⟨ms, hreply, herror, hrs⟩, hhashable, rfl⟩ := h
  have htruthy : (Json.obj (r :: rs)).truthy = true := rfl
  unfold startLegacy
  refine failsWith_bind.mpr (.inr ⟨.obj ms, ?_, ?_⟩)
  · exact accepted_ok_iff.mpr ⟨ms, hreply, herror, rfl⟩
  dsimp only
  rw [← hrs, htruthy, if_neg (by exact Bool.false_ne_true)]
  refine failsWith_bind.mpr (.inr ⟨.obj (r :: rs), ?_, ?_⟩)
  · exact resultOf_ok_iff.mpr ⟨_, rfl, hrs.symm⟩
  rw [hhashable, if_neg (by exact Bool.false_ne_true)]
  exact failsWith_negotiated.mpr hfails

theorem failsWith_startLegacy : FailsWith str repr (startLegacy server targetUrl) text ↔
    LegacyFails str targetUrl server text := by
  constructor
  · intro h
    unfold startLegacy at h
    rcases failsWith_bind.mp h with h | ⟨response, haccepted, h⟩
    · exact .rejected ((failsWith_accepted (fun _ => rfl) fun _ => rfl).mp h)
    dsimp only at h
    obtain ⟨ms, hreply, herror, rfl⟩ := accepted_ok_iff.mp haccepted
    split at h
    · next hresult =>
      rw [failsWith_failed.mp h]
      exact .noResult ⟨ms, hreply, herror, rfl⟩ (by simpa using hresult)
    · next hresult =>
      rcases failsWith_bind.mp h with h | ⟨result, hok, h⟩
      · exact absurd h not_failsWith_resultOf
      obtain ⟨rs, rfl, hrs⟩ := resultOf_ok_iff.mp hok
      have hne : rs ≠ [] := by
        rintro rfl
        rw [hrs] at hresult
        exact hresult rfl
      obtain ⟨r, rs, rfl⟩ := List.exists_cons_of_ne_nil hne
      split at h
      · exact absurd h not_failsWith_raised
      · next hhashable =>
        have hnegotiates : Negotiates server.init
            (((Json.obj (r :: rs)).get? (lit "protocolVersion")).getD (.str [])) :=
          ⟨r, rs, ⟨ms, hreply, herror, hrs.symm⟩, by simpa using hhashable, rfl⟩
        rcases failsWith_negotiated.mp h with ⟨hswitch, hreconnect, h⟩ | ⟨hagain, h⟩
        · exact .rejectedAgain hnegotiates hswitch hreconnect h
        · exact .list hnegotiates hagain h
  · intro h
    cases h with
    | rejected h =>
      exact failsWith_bind.mpr (.inl ((failsWith_accepted (fun _ => rfl) fun _ => rfl).mpr h))
    | noResult h hresult =>
      obtain ⟨ms, hreply, herror, rfl⟩ := h
      unfold startLegacy
      refine failsWith_bind.mpr (.inr ⟨.obj ms, ?_, ?_⟩)
      · exact accepted_ok_iff.mpr ⟨ms, hreply, herror, rfl⟩
      · dsimp only
        rw [hresult, if_pos (by rfl)]
        exact failsWith_failed.mpr rfl
    | rejectedAgain h hswitch hreconnect hrejects =>
      exact failsWith_of_negotiates h (.inl ⟨hswitch, hreconnect, hrejects⟩)
    | list h hagain hrejects =>
      exact failsWith_of_negotiates h (.inr ⟨hagain, hrejects⟩)

/-- The failure of the legacy handshake, with what was made of `server/discover`. -/
theorem mapError_appendDiscover_iff {response : Json φ} {e : Incomplete φ} :
    (startLegacy server targetUrl).mapError (appendDiscover response) = .error (.incomplete e) ↔
      ∃ failure, startLegacy server targetUrl = .error (.incomplete (.failed failure)) ∧
        e = .failedAfter failure response := by
  constructor
  · intro h
    cases hstart : startLegacy server targetUrl with
    | ok era =>
      rw [hstart] at h
      cases h
    | error x =>
      rw [hstart] at h
      cases x with
      | raised => cases h
      | incomplete e' =>
        obtain ⟨failure, rfl⟩ := onlyFailed_startLegacy e' hstart
        cases h
        exact ⟨failure, rfl, rfl⟩
  · rintro ⟨failure, hstart, rfl⟩
    rw [hstart]
    rfl

section Requested

variable {requested : ProtocolEra} {discovered : Discovered φ} {e : Incomplete φ}

theorem fails_of_start
    (h : start requested targetUrl server = (discovered, .error (.incomplete e))) :
    Fails str repr requested targetUrl server (e.quotes str repr) := by
  unfold start at h
  split at h
  · next hlegacy =>
    have hstart := (Prod.mk.inj h).2
    obtain ⟨failure, rfl⟩ := onlyFailed_startLegacy e hstart
    exact .pinned hlegacy (failsWith_startLegacy.mp ⟨failure, hstart, rfl⟩)
  next hlegacy =>
  split at h
  · cases h
  · next detection ms hdiscover =>
    dsimp only at h
    split at h
    · next hmodern =>
      subst hmodern
      have hstart := (Prod.mk.inj h).2
      obtain ⟨failure, rfl⟩ := onlyFailed_startModern (.obj ms) e hstart
      obtain ⟨rs, hresult, hfails⟩ := failsWith_startModern.mp ⟨failure, hstart, rfl⟩
      exact .modern hlegacy hdiscover hresult hfails
    next hmodern =>
    split at h
    · next hkept =>
      cases h
      exact .noDowngrade hlegacy hdiscover hmodern hkept
    next hkept =>
    have hauto : requested = .auto := by
      cases requested with
      | auto => rfl
      | modern => exact absurd (.inl rfl) hkept
      | legacy => exact absurd rfl hlegacy
    split at h
    · next hcode =>
      obtain ⟨rfl, hcode⟩ := hcode
      have hstart := (Prod.mk.inj h).2
      obtain ⟨failure, rfl⟩ := onlyFailed_startLegacy e hstart
      exact .unknownMethod hauto hdiscover hcode (failsWith_startLegacy.mp ⟨failure, hstart, rfl⟩)
    · next hcode =>
      obtain ⟨failure, hstart, rfl⟩ := mapError_appendDiscover_iff.mp (Prod.mk.inj h).2
      refine .undecided hauto hdiscover ?_ hcode (failsWith_startLegacy.mp ⟨failure, hstart, rfl⟩)
      cases detection with
      | legacy => exact .inl rfl
      | undetermined => exact .inr rfl
      | modern => exact absurd rfl hmodern
      | modernIncompatible => exact absurd (.inr (.inl rfl)) hkept
      | modernError => exact absurd (.inr (.inr rfl)) hkept
  · cases h

theorem Fails.start {texts : List Str} (h : Fails str repr requested targetUrl server texts) :
    ∃ e, (start requested targetUrl server).2 = .error (.incomplete e) ∧
      e.quotes str repr = texts := by
  cases h with
  | pinned hlegacy hfails =>
    have hlegacyFails : FailsWith str repr (startLegacy server targetUrl) _ :=
      failsWith_startLegacy.mpr hfails
    obtain ⟨failure, hstart, rfl⟩ := hlegacyFails
    refine ⟨.failed failure, ?_, rfl⟩
    rw [Session.start, if_pos hlegacy, hstart]
  | modern hlegacy hdiscover hresult hfails =>
    obtain ⟨failure, hstart, rfl⟩ := failsWith_startModern.mpr ⟨_, hresult, hfails⟩
    refine ⟨.failed failure, ?_, rfl⟩
    rw [Session.start, if_neg hlegacy, hdiscover]
    simp only [↓reduceIte, hstart]
  | @noDowngrade detection ms hlegacy hdiscover hne hmodern =>
    refine ⟨.discover detection (.obj ms), ?_, rfl⟩
    rw [Session.start, if_neg hlegacy, hdiscover]
    simp only [if_neg hne, if_pos hmodern]
  | unknownMethod hauto hdiscover hcode hfails =>
    have hlegacyFails : FailsWith str repr (startLegacy server targetUrl) _ :=
      failsWith_startLegacy.mpr hfails
    obtain ⟨failure, hstart, rfl⟩ := hlegacyFails
    refine ⟨.failed failure, ?_, rfl⟩
    have hcode' : (discoveredOf .legacy (.obj _)).errorCode.pyEq (.int (-32601)) = true := hcode
    subst hauto
    rw [Session.start, if_neg (by decide), hdiscover]
    simp only [reduceCtorEq, ↓reduceIte, or_self, true_and, hcode', hstart]
  | @undecided detection ms _ hauto hdiscover hdetection hcode hfails =>
    have hlegacyFails : FailsWith str repr (startLegacy server targetUrl) _ :=
      failsWith_startLegacy.mpr hfails
    obtain ⟨failure, hstart, rfl⟩ := hlegacyFails
    refine ⟨.failedAfter failure (.obj ms), ?_, rfl⟩
    have hafter : (startLegacy server targetUrl).mapError (appendDiscover (.obj ms)) = _ :=
      mapError_appendDiscover_iff.mpr ⟨failure, hstart, rfl⟩
    subst hauto
    rw [Session.start, if_neg (by decide), hdiscover]
    rcases hdetection with rfl | rfl
    · have hcode' : ¬ (discoveredOf .legacy (.obj _)).errorCode.pyEq (.int (-32601)) = true :=
        fun h => hcode ⟨rfl, h⟩
      simp only [reduceCtorEq, ↓reduceIte, or_self, true_and, hcode', hafter]
    · simp only [reduceCtorEq, ↓reduceIte, or_self, false_and, hafter]

end Requested

end Start

end CosaiMcp.Session
