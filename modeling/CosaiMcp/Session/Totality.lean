import CosaiMcp.Py.Except
import CosaiMcp.Session.Lifecycle

/-!
# How a session start can end

A start whose replies are objects ends ready or with a `SessionIncompleteError` exactly if every
member of the replies that it takes for a mapping or looks up in a set is one, or has a hash
(`Shaped`); it never sends `initialize` to a server whose reply to `server/discover` shows a modern
one.
-/

namespace CosaiMcp.Session

open Py Protocol

variable {φ : Type} [PyFloat φ]

/-! ## What the two descriptions have in common -/

theorem startModernSession_result (server : Handshake φ) (response : Json φ) (s : SessionState φ) :
    (startModernSession server response s).1.map (·.protocolEra) = startModern server response := by
  unfold startModernSession startModern
  cases resultOf response with
  | error e => rfl
  | ok result =>
    cases listTools server with
    | error e => rfl
    | ok tools =>
      rw [ok_bind, ok_bind]
      by_cases hc : ((tools.get? (lit "resultType")).getD (.str (lit "complete"))).pyEq
          (.str (lit "complete")) = true
      · simp only [if_pos hc]
        rfl
      · simp only [if_neg hc]
        rfl

omit [PyFloat φ] in
theorem finishLegacySession_result (server : Handshake φ) (s : SessionState φ)
    (hera : s.era = .legacy) :
    (finishLegacySession server s).1.map (·.protocolEra) =
      (do let _ ← listTools server; return .legacy) := by
  unfold finishLegacySession
  cases listTools server with
  | error e => rfl
  | ok tools => exact congrArg Except.ok hera

omit [PyFloat φ] in
theorem rerunLegacySession_result (server : Handshake φ) (s : SessionState φ) :
    (rerunLegacySession server s).1 = rerunLegacySse server ∧
      (rerunLegacySession server s).2.era = s.era := by
  unfold rerunLegacySession rerunLegacySse
  cases server.reconnect with
  | error e => exact ⟨rfl, rfl⟩
  | ok u =>
    simp only
    cases accepted server.reinit .legacySseFailed .legacySseRejected with
    | error e => exact ⟨rfl, rfl⟩
    | ok response =>
      rw [ok_bind, ok_bind]
      cases resultOf response with
      | error e => exact ⟨rfl, rfl⟩
      | ok result => exact ⟨rfl, rfl⟩

omit [PyFloat φ] in
theorem continueLegacySession_result (server : Handshake φ) (targetUrl : Str) (version : Json φ)
    (s : SessionState φ) (hera : s.era = .legacy) :
    (continueLegacySession server targetUrl version s).1.map (·.protocolEra) =
      if !version.hashable then .error .raised
      else do
        if version.asStr? = some (lit "2024-11-05") ∧ targetUrl ≠ [] then rerunLegacySse server
        let _ ← listTools server
        return .legacy := by
  unfold continueLegacySession
  by_cases hhash : (!version.hashable) = true
  · rw [if_pos hhash, if_pos hhash]
    rfl
  rw [if_neg hhash, if_neg hhash]
  by_cases hv : version.asStr? = some (lit "2024-11-05")
  · by_cases hurl : targetUrl = []
    · simp only [if_pos hv, hurl, ne_eq, not_true_eq_false, and_false, if_false]
      exact finishLegacySession_result server _ hera
    simp only [if_pos hv, ne_eq, hurl, not_false_eq_true, and_true, if_true]
    obtain ⟨hresult, hkeep⟩ := rerunLegacySession_result server
      { s with transportType := lit "LegacySSETransport" }
    rw [← hresult]
    rcases hrun : rerunLegacySession server { s with transportType := lit "LegacySSETransport" }
      with ⟨r, s₁⟩
    cases r with
    | error e => rfl
    | ok u =>
      rw [hrun] at hkeep
      exact finishLegacySession_result server s₁ (hkeep.trans hera)
  · rw [if_neg hv, if_neg fun h => hv h.1]
    exact finishLegacySession_result server s hera

theorem startLegacySession_result (server : Handshake φ) (targetUrl : Str) (s : SessionState φ) :
    (startLegacySession server targetUrl s).1.map (·.protocolEra) =
      startLegacy server targetUrl := by
  unfold startLegacySession startLegacy
  cases accepted server.init .initializeFailed .initializeRejected with
  | error e => rfl
  | ok response =>
    simp only [ok_bind]
    by_cases htruthy : (!((response.get? (lit "result")).getD (.obj [])).truthy) = true
    · simp only [if_pos htruthy]
      rfl
    simp only [if_neg htruthy]
    cases resultOf response with
    | error e => rfl
    | ok result => exact continueLegacySession_result server targetUrl _ _ rfl

/-- The session returns or raises what the handshake by itself does. -/
theorem startSession_result (requested : ProtocolEra) (targetUrl : Str) (server : Handshake φ)
    (s : SessionState φ) :
    (startSession requested targetUrl server s).1.map (·.protocolEra) =
      (start requested targetUrl server).2 := by
  unfold startSession start
  by_cases hlegacy : requested = .legacy
  · rw [if_pos hlegacy, if_pos hlegacy]
    exact startLegacySession_result server targetUrl s
  rw [if_neg hlegacy, if_neg hlegacy]
  cases hprobe : probeModern server.discover with
  | none => rfl
  | some p =>
    obtain ⟨detection, response⟩ := p
    cases response with
    | obj ms =>
      simp only
      by_cases hmodern : detection = .modern
      · simp only [if_pos hmodern]
        exact startModernSession_result server (.obj ms) _
      simp only [if_neg hmodern]
      by_cases hstop : requested = .modern ∨ detection = .modernIncompatible ∨
          detection = .modernError
      · simp only [if_pos hstop]
        rfl
      simp only [if_neg hstop]
      have hresult := startLegacySession_result server targetUrl (s.request (lit "server/discover"))
      rcases hrun : startLegacySession server targetUrl (s.request (lit "server/discover"))
        with ⟨r, s₁⟩
      rw [hrun] at hresult
      by_cases hpositive : detection = .legacy ∧
          (discoveredOf detection (.obj ms)).errorCode.pyEq (.int (-32601)) = true
      · simp only [if_pos hpositive]
        exact hresult
      · simp only [if_neg hpositive, ← hresult]
        cases r with
        | error e => rfl
        | ok info => rfl
    | _ => rfl

/-! ## The status -/

/-- A run that returns leaves the session ready, one that raises leaves the status as it was. -/
def Settled (s : SessionState φ) (left : Left φ (SessionInfo φ)) : Prop :=
  match left with
  | (.ok info, s') => s'.status = .ready ∧ info = s'.info
  | (.error _, s') => s'.status = s.status

omit [PyFloat φ] in
theorem Settled.of_status {s s₁ : SessionState φ} {left : Left φ (SessionInfo φ)}
    (h : Settled s₁ left) (hs : s₁.status = s.status) : Settled s left := by
  obtain ⟨r, s'⟩ := left
  cases r with
  | error e => exact Eq.trans h hs
  | ok info => exact h

omit [PyFloat φ] in
theorem settled_finish (s : SessionState φ) (tools : Json φ) :
    Settled s (.ok (s.finish tools).info, s.finish tools) := ⟨rfl, rfl⟩

theorem startModernSession_settled (server : Handshake φ) (response : Json φ)
    (s : SessionState φ) : Settled s (startModernSession server response s) := by
  unfold startModernSession
  cases resultOf response with
  | error e => rfl
  | ok result =>
    cases listTools server with
    | error e => rfl
    | ok tools =>
      simp only
      split
      · exact (settled_finish _ tools).of_status rfl
      · rfl

omit [PyFloat φ] in
theorem finishLegacySession_settled (server : Handshake φ) (s : SessionState φ) :
    Settled s (finishLegacySession server s) := by
  unfold finishLegacySession
  cases listTools server with
  | error e => rfl
  | ok tools => exact (settled_finish _ tools).of_status rfl

omit [PyFloat φ] in
theorem rerunLegacySession_status (server : Handshake φ) (s : SessionState φ) :
    (rerunLegacySession server s).2.status = s.status := by
  unfold rerunLegacySession
  cases server.reconnect with
  | error e => rfl
  | ok u =>
    simp only
    split <;> rfl

omit [PyFloat φ] in
theorem continueLegacySession_settled (server : Handshake φ) (targetUrl : Str) (version : Json φ)
    (s : SessionState φ) : Settled s (continueLegacySession server targetUrl version s) := by
  unfold continueLegacySession
  split
  · rfl
  split
  · simp only
    split
    · have hstatus := rerunLegacySession_status server
        { s with transportType := lit "LegacySSETransport" }
      rcases hrun : rerunLegacySession server { s with transportType := lit "LegacySSETransport" }
        with ⟨r, s₁⟩
      rw [hrun] at hstatus
      cases r with
      | error e => exact hstatus
      | ok u => exact (finishLegacySession_settled server s₁).of_status hstatus
    · exact (finishLegacySession_settled server _).of_status rfl
  · exact finishLegacySession_settled server s

theorem startLegacySession_settled (server : Handshake φ) (targetUrl : Str) (s : SessionState φ) :
    Settled s (startLegacySession server targetUrl s) := by
  unfold startLegacySession
  simp only
  split
  · rfl
  split
  · rfl
  split
  · rfl
  · exact (continueLegacySession_settled server targetUrl _ _).of_status rfl

theorem startSession_settled (requested : ProtocolEra) (targetUrl : Str) (server : Handshake φ)
    (s : SessionState φ) : Settled s (startSession requested targetUrl server s) := by
  unfold startSession
  split
  · exact startLegacySession_settled server targetUrl s
  cases probeModern server.discover with
  | none => rfl
  | some p =>
    obtain ⟨detection, response⟩ := p
    cases response with
    | obj ms =>
      simp only
      split
      · exact (startModernSession_settled server _ _).of_status rfl
      split
      · rfl
      have hsettled := startLegacySession_settled server targetUrl
        (s.request (lit "server/discover"))
      rcases hrun : startLegacySession server targetUrl (s.request (lit "server/discover"))
        with ⟨r, s₁⟩
      rw [hrun] at hsettled
      split
      · exact hsettled
      · cases r with
        | error e => exact hsettled
        | ok info => exact hsettled
    | _ => rfl

/-! ## No downgrade -/

theorem startModernSession_sent (server : Handshake φ) (response : Json φ) (s : SessionState φ)
    (h : lit "initialize" ∉ s.sent) :
    lit "initialize" ∉ (startModernSession server response s).2.sent := by
  have hrequest : lit "initialize" ∉ s.sent ++ [lit "tools/list"] := by
    rw [List.mem_append, not_or]
    exact ⟨h, by decide⟩
  unfold startModernSession
  cases resultOf response with
  | error e => exact h
  | ok result =>
    cases listTools server with
    | error e => exact hrequest
    | ok tools =>
      simp only
      split <;> exact hrequest

/-- A server whose reply to `server/discover` shows a modern one is not sent `initialize`. -/
theorem not_downgraded {requested : ProtocolEra} (hrequested : requested ≠ .legacy)
    {server : Handshake φ} {detection : EraDetection} {response : Json φ}
    (hprobe : probeModern server.discover = some (detection, response))
    (hdetection : detection = .modern ∨ detection = .modernIncompatible ∨ detection = .modernError)
    (targetUrl : Str) {s : SessionState φ} (h : lit "initialize" ∉ s.sent) :
    lit "initialize" ∉ (startSession requested targetUrl server s).2.sent := by
  have hrequest : lit "initialize" ∉ (s.request (lit "server/discover")).sent := by
    rw [SessionState.request, List.mem_append, not_or]
    exact ⟨h, by decide⟩
  unfold startSession
  rw [if_neg hrequested]
  simp only [hprobe]
  cases response with
  | obj ms =>
    simp only
    split
    · exact startModernSession_sent server _ _ hrequest
    · next hmodern =>
      rw [if_pos (.inr (hdetection.resolve_left hmodern))]
      exact hrequest
  | _ => exact hrequest

/-! ## Shapes of replies -/

/-- A transport yields objects, or raises. -/
def Objects (reply : Except Exn (Json φ)) : Prop :=
  ∀ response, reply = .ok response → ∃ ms, response = .obj ms

/-- The reply, if it has come and has no error. -/
def answered (reply : Except Exn (Json φ)) : Option (Json φ) :=
  match reply with
  | .error _ => none
  | .ok response => if (response.get? (lit "error")).isSome then none else some response

/-- The member `result` is an object, or absent. -/
def HasResult (response : Json φ) : Prop :=
  ∃ ms, (response.get? (lit "result")).getD (.obj []) = .obj ms

/-- The version of the member `result`, empty if there is none. -/
def versionOf (response : Json φ) : Json φ :=
  (((response.get? (lit "result")).getD (.obj [])).get? (lit "protocolVersion")).getD (.str [])

def ToolsShaped (server : Handshake φ) : Prop :=
  ∀ response, answered server.toolsList = some response → HasResult response

/-- What a start takes for granted of the replies of the legacy handshake. -/
def LegacyShaped (server : Handshake φ) : Prop :=
  ∀ response, answered server.init = some response →
    ((response.get? (lit "result")).getD (.obj [])).truthy = true →
    HasResult response ∧ (versionOf response).hashable = true ∧ ToolsShaped server

/-- The list of versions in a reply to `server/discover`, from a result or from an error. -/
def versionsIn (response : Json φ) : Option (Json φ) :=
  match (response.getOrNull (lit "result")).get? (lit "supportedVersions") with
  | some supported => some supported
  | none =>
    let error := response.getOrNull (lit "error")
    if error.asDict?.isSome ∧
        (error.getOrNull (lit "code")).pyEq (.int errUnsupportedProtocolVersion) = true then
      some ((error.getOrNull (lit "data")).getOrNull (lit "supported"))
    else none

/-- Some version has no hash, and no modern version comes before it. -/
def UnhashableFirst (versions : List (Json φ)) : Prop :=
  ∃ before v after, versions = before ++ v :: after ∧ v.hashable = false ∧
    ∀ u ∈ before, ∀ version ∈ modernVersions, u.asStr? ≠ some version

/-- What a start takes for granted of the reply to `server/discover`. -/
def VersionsShaped (response : Json φ) : Prop :=
  ∀ versions, versionsIn response = some (.arr versions) → ¬ UnhashableFirst versions

/-- What a start takes for granted of the replies that it gets. -/
def Shaped (requested : ProtocolEra) (server : Handshake φ) : Prop :=
  if requested = .legacy then LegacyShaped server
  else match server.discover with
    | .error _ => requested = .auto → LegacyShaped server
    | .ok response =>
      VersionsShaped response ∧
      (classifyDiscoverResponse response = some .modern →
        HasResult response ∧ ToolsShaped server) ∧
      (requested = .auto → classifyDiscoverResponse response = some .legacy ∨
        classifyDiscoverResponse response = some .undetermined → LegacyShaped server)

/-! ## The versions -/

omit [PyFloat φ] in
theorem anyIn_eq_none_iff {versions : List Str} {vs : List (Json φ)} :
    anyIn versions vs = none ↔ ∃ before v after, vs = before ++ v :: after ∧ v.hashable = false ∧
      ∀ u ∈ before, ∀ version ∈ versions, u.asStr? ≠ some version := by
  induction vs with
  | nil =>
    constructor
    · intro h
      cases h
    · rintro ⟨before, v, after, h, -⟩
      cases before <;> cases h
  | cons w ws ih =>
    unfold anyIn
    by_cases hhash : (!w.hashable) = true
    · rw [if_pos hhash]
      exact iff_of_true rfl ⟨[], w, ws, rfl, by simpa using hhash, by simp⟩
    rw [if_neg hhash]
    have hw : w.hashable ≠ false := by simpa using hhash
    by_cases hmatch : (versions.any fun version => w.asStr? = some version) = true
    · rw [if_pos hmatch]
      constructor
      · intro h
        cases h
      · rintro ⟨before, v, after, h, hv, hbefore⟩
        cases before with
        | nil =>
          cases h
          exact absurd hv hw
        | cons u before =>
          cases h
          obtain ⟨version, hversion, heq⟩ := List.any_eq_true.mp hmatch
          exact absurd (of_decide_eq_true heq) (hbefore _ List.mem_cons_self version hversion)
    · rw [if_neg hmatch, ih]
      have hnot : ∀ version ∈ versions, w.asStr? ≠ some version := by
        intro version hversion heq
        exact hmatch (List.any_eq_true.mpr ⟨version, hversion, decide_eq_true heq⟩)
      constructor
      · rintro ⟨before, v, after, rfl, hv, hbefore⟩
        exact ⟨w :: before, v, after, rfl, hv, List.forall_mem_cons.mpr ⟨hnot, hbefore⟩⟩
      · rintro ⟨before, v, after, h, hv, hbefore⟩
        cases before with
        | nil =>
          cases h
          exact absurd hv hw
        | cons u before =>
          cases h
          exact ⟨before, v, after, rfl, hv, (List.forall_mem_cons.mp hbefore).2⟩

omit [PyFloat φ] in
/-- A look through all versions has found each of them to have a hash. -/
theorem hashable_of_anyIn_eq_false {versions : List Str} {vs : List (Json φ)}
    (h : anyIn versions vs = some false) : ∀ v ∈ vs, v.hashable = true := by
  induction vs with
  | nil =>
    intro v hv
    cases hv
  | cons w ws ih =>
    unfold anyIn at h
    split at h
    · cases h
    next hhash =>
    split at h
    · cases h
    · exact List.forall_mem_cons.mpr ⟨by simpa using hhash, ih h⟩

omit [PyFloat φ] in
theorem classifyVersions_eq_none_iff {supported : Json φ} :
    classifyVersions supported = none ↔ ∃ vs, supported = .arr vs ∧ UnhashableFirst vs := by
  cases supported with
  | arr vs =>
    have harr : (∃ vs', Json.arr vs = .arr vs' ∧ UnhashableFirst vs') ↔ UnhashableFirst vs := by
      simp
    rw [harr, UnhashableFirst, ← anyIn_eq_none_iff]
    have hdef : classifyVersions (.arr vs) = (anyIn modernVersions vs).bind fun modern =>
        if modern then some .modern
        else (anyIn legacyVersions vs).bind fun legacy =>
          if legacy then some .legacy else some .modernIncompatible := rfl
    rw [hdef]
    cases hmodern : anyIn modernVersions vs with
    | none => exact iff_of_true rfl rfl
    | some found =>
      cases found with
      | true => exact iff_of_false (by simp) (by simp)
      | false =>
        -- every version has a hash, so that the second look goes through as well
        refine iff_of_false (fun h => ?_) (by simp)
        cases hlegacy : anyIn legacyVersions vs with
        | none =>
          obtain ⟨before, v, after, rfl, hv, -⟩ := anyIn_eq_none_iff.mp hlegacy
          have hhash := hashable_of_anyIn_eq_false hmodern v (by simp)
          rw [hv] at hhash
          cases hhash
        | some found =>
          rw [hlegacy] at h
          cases found <;> cases h
  | _ => exact iff_of_false nofun (by rintro ⟨vs, h, -⟩; cases h)

/-- The versions of a reply are looked through. -/
theorem classifyDiscoverResponse_of_versionsIn {ms : List (Str × Json φ)} {supported : Json φ}
    (h : versionsIn (.obj ms) = some supported) :
    classifyDiscoverResponse (.obj ms) = classifyVersions supported := by
  unfold versionsIn at h
  cases ms with
  | nil => cases h
  | cons m ms =>
    unfold classifyDiscoverResponse
    simp only
    cases hresult : ((Json.obj (m :: ms)).getOrNull (lit "result")).get?
        (lit "supportedVersions") with
    | some versions =>
      rw [hresult] at h
      cases h
      rfl
    | none =>
      simp only [hresult] at h
      split at h
      · next hcode =>
        cases h
        unfold classifyError
        rw [if_pos hcode]
      · cases h

/-- A reply without versions is classified by its error. -/
theorem classifyDiscoverResponse_ne_none {ms : List (Str × Json φ)}
    (h : versionsIn (.obj ms) = none) : classifyDiscoverResponse (.obj ms) ≠ none := by
  unfold versionsIn at h
  cases ms with
  | nil => nofun
  | cons m ms =>
    unfold classifyDiscoverResponse
    simp only
    cases hresult : ((Json.obj (m :: ms)).getOrNull (lit "result")).get?
        (lit "supportedVersions") with
    | some versions =>
      rw [hresult] at h
      cases h
    | none =>
      simp only [hresult] at h
      split at h
      · cases h
      · next hcode =>
        simp only
        unfold classifyError
        rw [if_neg hcode]
        split
        · exact Option.some_ne_none _
        split <;> exact Option.some_ne_none _

theorem classifyDiscoverResponse_eq_none_iff {ms : List (Str × Json φ)} :
    classifyDiscoverResponse (.obj ms) = none ↔ ¬ VersionsShaped (.obj ms) := by
  unfold VersionsShaped
  cases h : versionsIn (.obj ms) with
  | none => exact iff_of_false (classifyDiscoverResponse_ne_none h) (by simp)
  | some supported =>
    rw [classifyDiscoverResponse_of_versionsIn h, classifyVersions_eq_none_iff]
    constructor
    · rintro ⟨vs, rfl, hfirst⟩ hshaped
      exact hshaped vs rfl hfirst
    · intro hnot
      by_contra hno
      refine hnot fun versions hversions hfirst => hno ⟨versions, ?_, hfirst⟩
      exact Option.some.inj hversions

/-! ## When a start raises something else -/

omit [PyFloat φ] in
theorem resultOf_eq_error_iff {response : Json φ} {e : StartError φ} :
    resultOf response = .error e ↔ e = .raised ∧ ¬ HasResult response := by
  unfold resultOf HasResult
  cases (response.get? (lit "result")).getD (.obj []) with
  | obj ms => simp
  | _ => simp [eq_comm]

omit [PyFloat φ] in
theorem accepted_eq_ok_iff {reply : Except Exn (Json φ)} (hobj : Objects reply)
    {f : Exn → Failure φ} {g : Json φ → Failure φ} {response : Json φ} :
    accepted reply f g = .ok response ↔ answered reply = some response := by
  cases reply with
  | error e => exact iff_of_false nofun nofun
  | ok r =>
    obtain ⟨ms, rfl⟩ := hobj r rfl
    unfold accepted answered
    cases h : (Json.obj ms).get? (lit "error") <;> simp [h]

omit [PyFloat φ] in
theorem accepted_ne_raised {reply : Except Exn (Json φ)} (hobj : Objects reply)
    {f : Exn → Failure φ} {g : Json φ → Failure φ} : accepted reply f g ≠ .error .raised := by
  cases reply with
  | error e => nofun
  | ok r =>
    obtain ⟨ms, rfl⟩ := hobj r rfl
    unfold accepted
    cases h : (Json.obj ms).get? (lit "error") <;> simp [h]

omit [PyFloat φ] in
theorem listTools_eq_raised_iff {server : Handshake φ} (hobj : Objects server.toolsList) :
    listTools server = .error .raised ↔ ¬ ToolsShaped server := by
  unfold listTools ToolsShaped
  rw [bind_eq_error_iff, or_iff_right (accepted_ne_raised hobj), not_forall]
  constructor
  · rintro ⟨response, hok, hresult⟩
    have hanswered := (accepted_eq_ok_iff hobj).mp hok
    exact ⟨response, fun h => (resultOf_eq_error_iff.mp hresult).2 (h hanswered)⟩
  · rintro ⟨response, h⟩
    rw [Classical.not_imp] at h
    exact ⟨response, (accepted_eq_ok_iff hobj).mpr h.1, resultOf_eq_error_iff.mpr ⟨rfl, h.2⟩⟩

omit [PyFloat φ] in
theorem hasResult_of_resultOf {response result : Json φ} (h : resultOf response = .ok result) :
    HasResult response ∧ (response.get? (lit "result")).getD (.obj []) = result := by
  unfold resultOf at h
  split at h
  · next ms hms =>
    cases h
    exact ⟨⟨ms, hms⟩, hms⟩
  · cases h

theorem startModern_eq_raised_iff {server : Handshake φ} (hobj : Objects server.toolsList)
    {response : Json φ} :
    startModern server response = .error .raised ↔ ¬ (HasResult response ∧ ToolsShaped server) := by
  unfold startModern
  cases hresult : resultOf response with
  | error e =>
    obtain ⟨rfl, hnot⟩ := resultOf_eq_error_iff.mp hresult
    exact iff_of_true rfl fun h => hnot h.1
  | ok result =>
    rw [ok_bind, bind_eq_error_iff, and_iff_right (hasResult_of_resultOf hresult).1,
      listTools_eq_raised_iff hobj]
    refine or_iff_left ?_
    rintro ⟨tools, -, h⟩
    simp only at h
    split at h <;> cases h

/-- The transport is not switched. -/
def NoSwitch (server : Handshake φ) (targetUrl : Str) : Prop :=
  ∀ response, answered server.init = some response →
    versionOf response = .str (lit "2024-11-05") → targetUrl = []

theorem startLegacy_eq_raised_iff {server : Handshake φ} {targetUrl : Str}
    (hinit : Objects server.init) (htools : Objects server.toolsList)
    (hswitch : NoSwitch server targetUrl) :
    startLegacy server targetUrl = .error .raised ↔ ¬ LegacyShaped server := by
  unfold startLegacy LegacyShaped
  rw [bind_eq_error_iff, or_iff_right (accepted_ne_raised hinit), not_forall]
  refine exists_congr fun response => ?_
  rw [Classical.not_imp, accepted_eq_ok_iff hinit]
  refine and_congr_right fun hanswered => ?_
  by_cases htruthy : ((response.get? (lit "result")).getD (.obj [])).truthy = true
  swap
  · rw [if_pos (by simpa using htruthy)]
    exact iff_of_false nofun fun h => h fun ht => absurd ht htruthy
  rw [if_neg (by simpa using htruthy)]
  cases hresult : resultOf response with
  | error e =>
    obtain ⟨rfl, hnot⟩ := resultOf_eq_error_iff.mp hresult
    exact iff_of_true rfl fun h => hnot (h htruthy).1
  | ok result =>
    obtain ⟨hhas, hget⟩ := hasResult_of_resultOf hresult
    have hversion : (result.get? (lit "protocolVersion")).getD (.str []) = versionOf response := by
      rw [versionOf, hget]
    simp only [ok_bind, hversion]
    by_cases hhash : (versionOf response).hashable = true
    swap
    · rw [if_pos (by simpa using hhash)]
      exact iff_of_true rfl fun h => hhash (h htruthy).2.1
    rw [if_neg (by simpa using hhash)]
    have hstay : ¬ ((versionOf response).asStr? = some (lit "2024-11-05") ∧ targetUrl ≠ []) := by
      rintro ⟨hv, hurl⟩
      exact hurl (hswitch response hanswered (Json.asStr?_eq_some_iff.mp hv))
    rw [if_neg hstay, bind_eq_error_iff, listTools_eq_raised_iff htools]
    constructor
    · rintro (hnot | ⟨tools, -, h⟩)
      · exact fun h => hnot (h htruthy).2.2
      · cases h
    · intro h
      exact .inl fun ht => h fun _ => ⟨hhas, hhash, ht⟩

omit [PyFloat φ] in
theorem mapError_eq_raised_iff {α : Type} {x : Except (StartError φ) α} {response : Json φ} :
    x.mapError (appendDiscover response) = .error .raised ↔ x = .error .raised := by
  cases x with
  | ok a => exact iff_of_false nofun nofun
  | error e =>
    cases e with
    | raised => exact iff_of_true rfl rfl
    | incomplete e => cases e <;> exact iff_of_false nofun nofun

/-- After the probe, one of the two handshakes raises. -/
theorem start_eq_raised_iff_of_probe {requested : ProtocolEra} (hrequested : requested ≠ .legacy)
    {targetUrl : Str} {server : Handshake φ} {detection : EraDetection} {ms : List (Str × Json φ)}
    (hprobe : probeModern server.discover = some (detection, .obj ms)) :
    (start requested targetUrl server).2 = .error .raised ↔
      detection = .modern ∧ startModern server (.obj ms) = .error .raised ∨
      requested = .auto ∧ (detection = .legacy ∨ detection = .undetermined) ∧
        startLegacy server targetUrl = .error .raised := by
  unfold start
  rw [if_neg hrequested]
  simp only [hprobe]
  by_cases hmodern : detection = .modern
  · subst hmodern
    simp
  have hskip : ¬ (detection = .modern ∧ startModern server (.obj ms) = .error .raised) :=
    fun h => hmodern h.1
  rw [if_neg hmodern, or_iff_right hskip]
  by_cases hstop : requested = .modern ∨ detection = .modernIncompatible ∨ detection = .modernError
  · rw [if_pos hstop]
    refine iff_of_false nofun ?_
    rintro ⟨rfl, hlegacy, -⟩
    rcases hlegacy with rfl | rfl <;> simp at hstop
  rw [if_neg hstop]
  have hauto : requested = .auto := by cases requested <;> simp_all
  have hdetection : detection = .legacy ∨ detection = .undetermined := by
    cases detection <;> simp_all
  rw [and_iff_right hauto, and_iff_right hdetection]
  split
  · exact Iff.rfl
  · exact mapError_eq_raised_iff

theorem start_eq_raised_iff (requested : ProtocolEra) {targetUrl : Str} {server : Handshake φ}
    (hdiscover : Objects server.discover) (hinit : Objects server.init)
    (htools : Objects server.toolsList) (hswitch : NoSwitch server targetUrl) :
    (start requested targetUrl server).2 = .error .raised ↔ ¬ Shaped requested server := by
  have hlegacy := startLegacy_eq_raised_iff hinit htools hswitch
  unfold Shaped
  by_cases hrequested : requested = .legacy
  · rw [if_pos hrequested, ← hlegacy, start, if_pos hrequested]
  rw [if_neg hrequested]
  cases hd : server.discover with
  | error e =>
    have hprobe : probeModern server.discover = some (.undetermined,
        .obj [(lit "exception", .str (e.typeName ++ lit ": " ++ e.text))]) := by rw [hd]; rfl
    rw [start_eq_raised_iff_of_probe hrequested hprobe, hlegacy]
    simp
  | ok response =>
    obtain ⟨ms, rfl⟩ := hdiscover response hd
    cases hclass : classifyDiscoverResponse (.obj ms) with
    | none =>
      refine iff_of_true ?_ fun h => classifyDiscoverResponse_eq_none_iff.mp hclass h.1
      simp [start, hrequested, probeModern, hd, hclass]
    | some detection =>
      have hversions : VersionsShaped (.obj ms) := by
        by_contra hnot
        rw [classifyDiscoverResponse_eq_none_iff.mpr hnot] at hclass
        cases hclass
      have hprobe : probeModern server.discover = some (detection, .obj ms) := by
        rw [hd, probeModern, hclass, Option.map_some]
      rw [start_eq_raised_iff_of_probe hrequested hprobe, hlegacy,
        startModern_eq_raised_iff htools]
      simp only [hversions, hclass, Option.some.injEq, true_and]
      tauto

/-! ## How a start ends -/

/-- A start ends ready, or with the one error and not ready; and it is no downgrade. -/
structure EndsWell (requested : ProtocolEra) (server : Handshake φ)
    (left : Left φ (SessionInfo φ)) : Prop where
  ended : (∃ info, left.1 = .ok info ∧ left.2.status = .ready) ∨
    ∃ e, left.1 = .error (.incomplete e) ∧ left.2.status ≠ .ready
  no_downgrade : requested ≠ .legacy → ∀ response detection, server.discover = .ok response →
    classifyDiscoverResponse response = some detection →
    detection = .modernIncompatible ∨ detection = .modernError →
    lit "initialize" ∉ left.2.sent

/-- On a transport that yields objects or raises, and without a switch of it, the start of a new
session ends well exactly if the replies have the shapes that it takes for granted. -/
theorem start_ends_well_iff (requested : ProtocolEra) (targetUrl transportType : Str)
    (server : Handshake φ) (hdiscover : Objects server.discover) (hinit : Objects server.init)
    (htools : Objects server.toolsList) (hswitch : NoSwitch server targetUrl) :
    EndsWell requested server
      (startSession requested targetUrl server (SessionState.new transportType)) ↔
    Shaped requested server := by
  have hraised := start_eq_raised_iff requested hdiscover hinit htools hswitch
  have hresult := startSession_result requested targetUrl server (SessionState.new transportType)
  have hsettled := startSession_settled requested targetUrl server (SessionState.new transportType)
  have hdowngrade : requested ≠ .legacy → ∀ response detection, server.discover = .ok response →
      classifyDiscoverResponse response = some detection →
      detection = .modernIncompatible ∨ detection = .modernError → lit "initialize" ∉
        (startSession requested targetUrl server (SessionState.new transportType)).2.sent := by
    intro hrequested response detection hd hclass hdetection
    have hprobe : probeModern server.discover = some (detection, response) := by
      rw [hd, probeModern, hclass, Option.map_some]
    exact not_downgraded hrequested hprobe (.inr hdetection) targetUrl List.not_mem_nil
  revert hresult hsettled hdowngrade
  rcases startSession requested targetUrl server (SessionState.new transportType) with ⟨r, s⟩
  intro hresult hsettled hdowngrade
  constructor
  · intro h
    by_contra hnot
    rw [hraised.mpr hnot] at hresult
    rcases h.ended with ⟨info, rfl, -⟩ | ⟨e, rfl, -⟩ <;> cases hresult
  · intro hshaped
    refine ⟨?_, hdowngrade⟩
    cases r with
    | ok info => exact .inl ⟨info, rfl, hsettled.1⟩
    | error e =>
      cases e with
      | incomplete e =>
        have hne : SessionStatus.incomplete ≠ .ready := by decide
        exact .inr ⟨e, rfl, fun h => hne (hsettled.symm.trans h)⟩
      | raised => exact absurd hshaped (hraised.mp hresult.symm)

/-! ## A result that is null -/

section Null

def noMethod : Json WholeFloat :=
  .obj [(lit "error", .obj [(lit "code", .int (-32601)), (lit "message", .str [])])]

def initialized : Json WholeFloat :=
  .obj [(lit "result", .obj [(lit "protocolVersion", .str (lit "2025-03-26"))])]

/-- A legacy server that answers `tools/list` with `toolsList`. -/
def legacyServer (toolsList : Json WholeFloat) : Handshake WholeFloat :=
  ⟨.ok noMethod, .ok initialized, .ok (), .ok initialized, .ok toolsList⟩

theorem objects_ok (ms : List (Str × Json WholeFloat)) : Objects (.ok (.obj ms)) := by
  intro response h
  cases h
  exact ⟨ms, rfl⟩

theorem noSwitch_legacyServer (toolsList : Json WholeFloat) (targetUrl : Str) :
    NoSwitch (legacyServer toolsList) targetUrl := by
  intro response h hversion
  cases h
  have hequal : lit "2025-03-26" = lit "2024-11-05" := Json.str.inj hversion
  exact absurd hequal (by decide)

def noTools : Json WholeFloat := .obj [(lit "result", .obj [(lit "tools", .arr [])])]

def nullResult : Json WholeFloat := .obj [(lit "result", .null)]

theorem start_ends_well_iff_no_tools : EndsWell .auto (legacyServer noTools)
    (startSession .auto [] (legacyServer noTools) (SessionState.new [])) := by
  refine (start_ends_well_iff .auto [] [] (legacyServer noTools) (objects_ok _) (objects_ok _)
    (objects_ok _) (noSwitch_legacyServer noTools [])).mpr ⟨?_, fun h => ?_, fun _ _ => ?_⟩
  · intro versions h
    cases h
  · cases h
  · intro response h _
    cases h
    refine ⟨⟨_, rfl⟩, by decide, fun response h => ?_⟩
    cases h
    exact ⟨_, rfl⟩

/-- The null of `tools/list` is asked for its member: an `AttributeError` leaves the start. -/
theorem null_result_escapes :
    (startSession .auto [] (legacyServer nullResult) (SessionState.new [])).1 = .error .raised ∧
    ¬ EndsWell .auto (legacyServer nullResult)
      (startSession .auto [] (legacyServer nullResult) (SessionState.new [])) := by
  have hraised : (startSession .auto [] (legacyServer nullResult) (SessionState.new [])).1 =
      .error .raised := rfl
  refine ⟨hraised, fun h => ?_⟩
  rcases h.ended with ⟨info, hok, -⟩ | ⟨e, herror, -⟩
  · cases hraised.symm.trans hok
  · cases hraised.symm.trans herror

end Null

end CosaiMcp.Session
