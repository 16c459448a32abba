import CosaiMcp.Harness.Keywords
import CosaiMcp.Harness.Verdict

/-!
# When a probe passes without its own request

A probe that passes should have passed by `execute_probe` (`Honest`). A PASS can also be synthesized
from the message of a failed handshake. Where no reply of the handshake has a status of rejection,
that is so exactly if a text of the server that the message quotes has one of the keywords, and the
probe's own request does not decide (`pass_honest_iff`).
-/

namespace CosaiMcp.Harness

open Py Catalog Protocol Session

variable {φ ρ : Type}

/-- The run passes only if the probe did. -/
def Honest (run : Run φ) : Prop :=
  run.passed = true → ∃ r, .ok r ∈ run.executed ∧ r.passed = true

theorem Honest.of_result {r : ProbeResult φ} {executed : List (Except Raised (ProbeResult φ))}
    (h : .ok r ∈ executed) : Honest ⟨some r, executed⟩ := fun hpassed => ⟨r, h, hpassed⟩

theorem Honest.of_not_passed {run : Run φ} (h : run.passed = false) : Honest run :=
  fun hpassed => absurd (h.symm.trans hpassed) Bool.false_ne_true

/-! ## The outcomes of a probe -/

theorem honest_lastResult (executed : List (Except Raised (ProbeResult φ))) :
    Honest (lastResult executed) := by
  unfold lastResult
  cases hlast : executed.getLast? with
  | none => exact .of_not_passed rfl
  | some outcome =>
    cases outcome with
    | error e => exact .of_not_passed rfl
    | ok r => exact .of_result (List.mem_of_getLast? hlast)

variable [PyFloat φ]

theorem firstServed_eq_ok_some {p : ProbeResult φ → Bool} {outcomes : List (Option (ProbeResult φ))}
    {r : ProbeResult φ} (h : firstServed p outcomes = .ok (some r)) : some r ∈ outcomes := by
  induction outcomes with
  | nil => cases h
  | cons outcome outcomes ih =>
    cases outcome with
    | none => exact List.mem_cons_of_mem _ (ih h)
    | some r' =>
      obtain ⟨b, -, h⟩ := Py.bind_eq_ok_iff.mp h
      split at h
      · cases h
        exact List.mem_cons_self
      · exact List.mem_cons_of_mem _ (ih h)

theorem verify_eq_returns {outcomes : List (Option (ProbeResult φ))} {r : ProbeResult φ}
    (h : verify outcomes = .returns r) : some r ∈ outcomes := by
  unfold verify at h
  split at h
  · cases h
  · rename_i hfirst
    cases h
    exact firstServed_eq_ok_some hfirst
  · split at h
    · cases h
    · split at h
      · cases h
      · rename_i hfirst
        cases h
        exact firstServed_eq_ok_some hfirst
      · split at h <;> cases h

/-- The probe's own request was answered with 401 or 403. -/
def Refused (r : ProbeResult φ) : Prop := isServed r = .ok false ∧ isAuthStatus r.statusCode = true

theorem isNull_of_isAuthStatus {status : Json φ} (h : isAuthStatus status = true) :
    status.isNull = false := by
  cases status with
  | null => cases h
  | _ => rfl

/-- One outcome counts as a refusal exactly if it is one. -/
theorem verify_singleton_eq_refused_iff {outcome : Option (ProbeResult φ)} :
    verify [outcome] = .refused ↔ ∃ r, outcome = some r ∧ Refused r := by
  cases outcome with
  | none => exact ⟨nofun, nofun⟩
  | some r =>
    have hfirst (p : ProbeResult φ → Bool) : firstServed p [some r] =
        isServed r >>= fun b => if b && p r then .ok (some r) else .ok none := rfl
    unfold verify
    rw [hfirst, hfirst]
    cases hserved : isServed r with
    | error e =>
      refine ⟨nofun, ?_⟩
      rintro ⟨_, ⟨⟩, hr⟩
      cases hserved.symm.trans hr.1
    | ok served =>
      cases served with
      | true =>
        have hnot : ¬ ∃ r', some r = some r' ∧ Refused r' := by
          rintro ⟨_, ⟨⟩, hr⟩
          cases hserved.symm.trans hr.1
        refine ⟨fun h => ?_, fun h => absurd h hnot⟩
        cases hpassed : r.passed with
        | false =>
          simp only [ok_bind, hpassed] at h
          cases h
        | true =>
          cases hunverified : [some r].any isUnverified <;>
            simp only [ok_bind, hpassed, hunverified] at h <;> cases h
      | false =>
        simp only [ok_bind, Bool.false_and, Bool.false_eq_true, if_false, List.any_cons,
          List.any_nil, Bool.or_false]
        constructor
        · intro h
          split at h
          · cases h
          · split at h
            · rename_i hrefused
              exact ⟨r, rfl, hserved, hrefused⟩
            · cases h
        · rintro ⟨_, ⟨⟩, -, hr⟩
          have hunverified : isUnverified (some r) = false := isNull_of_isAuthStatus hr
          have hrefused : isRefused (some r) = true := hr
          rw [hunverified, hrefused]
          rfl

/-! ## Quiet handshakes -/

def namesWord (U : UnicodeData) (text : Str) : Prop := ∃ word ∈ rejectWords, word <:+: U.lower text

/-- A reply without the status of a rejection, whose error message does not name one. -/
def QuietReply (rt : Runtime φ ρ) : Except Exn (Json φ) → Prop
  | .error e => ¬ namesWord rt.unicode e.text
  | .ok response => isAuthStatus (response.getOrNull (lit "_status_code")) = false ∧
    ¬ namesWord rt.unicode
      (rt.str ((response.getOrNull (lit "error")).getOrNull (lit "message")))

structure Quiet (rt : Runtime φ ρ) (server : Handshake φ) : Prop where
  discover : QuietReply rt server.discover
  init : QuietReply rt server.init
  reinit : QuietReply rt server.reinit
  toolsList : QuietReply rt server.toolsList

section Start

variable {rt : Runtime φ ρ} {handshake : Handshake φ} {requested : ProtocolEra} {targetUrl : Str}
  {discovered : Discovered φ} {e : Incomplete φ}

theorem authRejected_of_quiet (hquiet : Quiet rt handshake)
    (h : start requested targetUrl handshake = (discovered, .error (.incomplete e))) :
    discovered.authRejected = false := by
  rcases discovered_of_incomplete h with ⟨-, rfl⟩ | ⟨-, detection, response, hprobe, rfl⟩
  · rfl
  · have hdiscover := hquiet.discover
    unfold probeModern at hprobe
    cases hreply : handshake.discover with
    | error e =>
      rw [hreply] at hprobe
      cases hprobe
      rfl
    | ok reply =>
      rw [hreply] at hprobe hdiscover
      obtain ⟨d, -, hd⟩ := Option.map_eq_some_iff.mp hprobe
      cases hd
      exact hdiscover.1

theorem isSome_detection_iff
    (h : start requested targetUrl handshake = (discovered, .error (.incomplete e))) :
    discovered.detection.isSome = true ↔ requested ≠ .legacy := by
  rcases discovered_of_incomplete h with ⟨hlegacy, rfl⟩ | ⟨hlegacy, _, _, -, rfl⟩
  · exact ⟨nofun, fun hne => absurd hlegacy hne⟩
  · exact ⟨fun _ => hlegacy, fun _ => rfl⟩

end Start

/-! ## Runs -/

section Run

variable (rt : Runtime φ ρ) (repr : Json φ → Str) (targetUrl : Str) (vars : Dict Str Str)
  (probe : Probe φ ρ) (threatId : Str)

/-- The probe is of the modern surface, and `server/discover` was sent. Then its own request
decides. -/
def OwnDecides (config : ScanConfig) : Prop :=
  probe.requiresProtocolEra = some (lit "modern") ∧ config.protocolEra ≠ .legacy

/-- By its reply to `server/discover` the server is of the legacy era. -/
def AnswersAsLegacy (config : ScanConfig) (server : Server φ) : Prop :=
  config.protocolEra ≠ .modern ∧ ∃ response, server.handshake.discover = .ok response ∧
    classifyDiscoverResponse response = some .legacy ∧ UnknownMethod response

/-- The probe's own request is sent and refused with 401 or 403, and the probe does not pass by that
reply. -/
def OwnRefused (server : Server φ) : Prop :=
  ∃ request reply d r,
    executeProbe rt .modern targetUrl vars probe threatId = .sends request (judge rt probe threatId) ∧
      server.own 0 .modern request = .ok reply ∧ asDict reply = .ok d ∧
      isAuthStatus (d.getOrNull (lit "_status_code")) = true ∧
      below400 (d.getOrNull (lit "_status_code")) = .ok false ∧
      judge rt probe threatId (.ok reply) = .ok r ∧ r.passed = false

/-- The handshake fails on replies of which the message quotes a keyword, and the probe's own request
does not keep that from being believed. -/
def Misled (config : ScanConfig) (server : Server φ) : Prop :=
  (∃ texts, Fails rt.str repr config.protocolEra targetUrl server.handshake texts ∧
    ∃ text ∈ texts, NamesRejection rt.unicode text) ∧
  (OwnDecides probe config → ¬ AnswersAsLegacy config server ∧
    OwnRefused rt targetUrl vars probe threatId server)

variable {rt repr targetUrl vars probe threatId} {config : ScanConfig} {server : Server φ}

omit [PyFloat φ] in
theorem honest_rejected_iff {message : Str}
    {executed : List (Except Raised (ProbeResult φ))} :
    Honest (rejected rt probe threatId true message executed) ↔
      (isAuthRejection rt.unicode message = true → ∃ r, .ok r ∈ executed ∧ r.passed = true) := by
  unfold rejected
  rw [Bool.true_and]
  cases isAuthRejection rt.unicode message with
  | false => exact ⟨fun _ => nofun, fun _ => .of_not_passed rfl⟩
  | true => exact ⟨fun h _ => h rfl, fun h _ => h rfl⟩

theorem honest_runStarted {era : ProtocolEra} :
    Honest (runStarted rt targetUrl vars probe threatId server era) := by
  unfold runStarted
  split
  · exact honest_lastResult _
  · split
    · split
      · exact honest_lastResult _
      · exact .of_not_passed rfl
    · exact honest_lastResult _
    · exact .of_not_passed rfl

/-- The end of a probe of the modern surface, after its own request. -/
theorem honest_verified_iff {message : Str} {outcome : Except Raised (ProbeResult φ)} :
    Honest (match verify [outcome.toOption] with
      | .returns r => ⟨some r, [outcome]⟩
      | .raised => ⟨none, [outcome]⟩
      | .refused => rejected rt probe threatId true message [outcome]) ↔
    ¬ (isAuthRejection rt.unicode message = true ∧
      ∃ r, outcome = .ok r ∧ Refused r ∧ r.passed = false) := by
  have hrefused {r : ProbeResult φ} (hr : outcome = .ok r) (h : Refused r) :
      verify [outcome.toOption] = .refused :=
    verify_singleton_eq_refused_iff.mpr ⟨r, by rw [hr]; rfl, h⟩
  cases hverify : verify [outcome.toOption] with
  | returns r =>
    refine ⟨?_, fun _ => ?_⟩
    · rintro - ⟨-, r', hr', h, -⟩
      cases hverify.symm.trans (hrefused hr' h)
    · have hr := List.mem_singleton.mp (verify_eq_returns hverify)
      cases outcome with
      | error e => cases hr
      | ok r' =>
        cases hr
        exact .of_result List.mem_cons_self
  | raised =>
    refine ⟨?_, fun _ => .of_not_passed rfl⟩
    rintro - ⟨-, r', hr', h, -⟩
    cases hverify.symm.trans (hrefused hr' h)
  | refused =>
    obtain ⟨r, hr, h⟩ := verify_singleton_eq_refused_iff.mp hverify
    cases outcome with
    | error e => cases hr
    | ok r' =>
      cases hr
      rw [honest_rejected_iff]
      constructor
      · rintro hhonest ⟨hkeyword, _, ⟨⟩, -, hfailed⟩
        obtain ⟨r', hr', hpassed⟩ := hhonest hkeyword
        cases List.mem_singleton.mp hr'
        cases hfailed.symm.trans hpassed
      · intro hnot hkeyword
        refine ⟨r, List.mem_cons_self, ?_⟩
        by_contra hfailed
        exact hnot ⟨hkeyword, r, rfl, h, Bool.eq_false_iff.mpr hfailed⟩

theorem honest_runIncomplete_iff {discovered : Discovered φ} {message : Str}
    (hauth : discovered.authRejected = false)
    (hdetection : discovered.detection.isSome = true ↔ config.protocolEra ≠ .legacy) :
    Honest (runIncomplete rt targetUrl vars probe threatId server true config discovered message) ↔
      ¬ (isAuthRejection rt.unicode message = true ∧
        (OwnDecides probe config → isTargetLegacy probe config discovered = false ∧
          ∃ r, executeOnce rt targetUrl vars probe threatId server 0 .modern = .ok r ∧ Refused r ∧
            r.passed = false)) := by
  have hverified : isVerified rt probe true discovered message = true ↔ OwnDecides probe config := by
    unfold isVerified OwnDecides
    rw [hauth, Bool.and_false, Bool.false_or, Bool.true_and, Bool.and_eq_true, decide_eq_true_eq,
      hdetection]
  unfold runIncomplete
  cases htarget : isTargetLegacy probe config discovered with
  | true =>
    rw [if_pos rfl]
    refine ⟨?_, fun _ => .of_not_passed rfl⟩
    rintro - ⟨-, hown⟩
    have howns : OwnDecides probe config := by
      unfold isTargetLegacy at htarget
      simp only [Bool.and_eq_true, decide_eq_true_eq] at htarget
      exact ⟨htarget.1.1.1, hdetection.mp (by rw [htarget.1.1.2]; rfl)⟩
    cases (hown howns).1
  | false =>
    rw [if_neg Bool.false_ne_true]
    by_cases hown : OwnDecides probe config
    · rw [if_pos (hverified.mpr hown)]
      have hframings : framings probe = [.modern] := if_pos hown.1
      rw [hframings]
      refine honest_verified_iff.trans (not_congr (and_congr_right fun _ => ?_))
      exact ⟨fun h _ => ⟨rfl, h⟩, fun h => (h hown).2⟩
    · rw [if_neg fun h => hown (hverified.mp h), honest_rejected_iff]
      constructor
      · rintro hhonest ⟨hkeyword, -⟩
        obtain ⟨r, hr, -⟩ := hhonest hkeyword
        cases hr
      · intro hnot hkeyword
        exact absurd ⟨hkeyword, fun h => absurd h hown⟩ hnot

theorem isTargetLegacy_iff {discovered : Discovered φ} {e : Incomplete φ}
    (h : start config.protocolEra targetUrl server.handshake =
      (discovered, .error (.incomplete e))) (hown : OwnDecides probe config) :
    isTargetLegacy probe config discovered = true ↔ AnswersAsLegacy config server := by
  rcases discovered_of_incomplete h with ⟨hlegacy, -⟩ | ⟨-, detection, response, hprobe, rfl⟩
  · exact absurd hlegacy hown.2
  have htarget : isTargetLegacy probe config (discoveredOf detection response) = true ↔
      detection = .legacy ∧ UnknownMethod response ∧ config.protocolEra ≠ .modern := by
    unfold isTargetLegacy
    simp only [hown.1, decide_true, Bool.true_and, Bool.and_eq_true, decide_eq_true_eq, and_assoc]
    exact and_congr (Option.some_inj) Iff.rfl
  rw [htarget, AnswersAsLegacy]
  unfold probeModern at hprobe
  split at hprobe
  · next e hreply =>
    cases hprobe
    refine iff_of_false (fun h => nomatch h.1) ?_
    rintro ⟨-, response, hok, -⟩
    cases hreply.symm.trans hok
  · next reply hreply =>
    obtain ⟨d, hclassify, hd⟩ := Option.map_eq_some_iff.mp hprobe
    cases hd
    constructor
    · rintro ⟨rfl, hcode, hera⟩
      exact ⟨hera, response, hreply, hclassify, hcode⟩
    · rintro ⟨hera, response', hok, hlegacy, hcode⟩
      cases hreply.symm.trans hok
      exact ⟨Option.some.inj (hclassify.symm.trans hlegacy), hcode, hera⟩

omit [PyFloat φ] in
theorem exists_obj_of_asDict {reply d : Json φ} (h : asDict reply = .ok d) : ∃ ms, d = .obj ms := by
  unfold asDict at h
  split at h
  · cases h
    exact ⟨_, rfl⟩
  · split at h
    · cases h
    · obtain ⟨items, -, h⟩ := bind_eq_ok_iff.mp h
      cases h
      exact ⟨_, rfl⟩
  · split at h
    · cases h
    · split at h
      · cases h
        exact ⟨_, rfl⟩
      · cases h
  · cases h

/-- The status of a result is that of the reply. -/
theorem statusCode_judge {reply : Json φ} {r : ProbeResult φ}
    (h : judge rt probe threatId (.ok reply) = .ok r) :
    ∃ d, asDict reply = .ok d ∧ r.statusCode = d.getOrNull (lit "_status_code") := by
  obtain ⟨d, hd, -⟩ := bind_eq_ok_iff.mp h
  obtain ⟨ms, rfl⟩ := exists_obj_of_asDict hd
  have hobject : judge rt probe threatId (.ok reply) = judge rt probe threatId (.ok (.obj ms)) := by
    unfold judge
    dsimp only
    rw [hd, asDict]
  rw [hobject, judge_obj] at h
  obtain ⟨results, -, h⟩ := bind_eq_ok_iff.mp h
  obtain ⟨first, -, h⟩ := bind_eq_ok_iff.mp h
  obtain ⟨reason, -, h⟩ := bind_eq_ok_iff.mp h
  cases h
  exact ⟨.obj ms, hd, getOrNull_withBody (by decide)⟩

theorem ownRefused_iff : OwnRefused rt targetUrl vars probe threatId server ↔
    ∃ r, executeOnce rt targetUrl vars probe threatId server 0 .modern = .ok r ∧ Refused r ∧
      r.passed = false := by
  have hserved : ∀ {r : ProbeResult φ}, isAuthStatus r.statusCode = true →
      isServed r = below400 r.statusCode := fun h => by
    rw [isServed, isNull_of_isAuthStatus h]
    rfl
  unfold executeOnce OwnRefused
  constructor
  · rintro ⟨request, reply, d, r, hsends, hreply, hd, hauth, hbelow, hjudge, hfailed⟩
    obtain ⟨d', hd', hstatus⟩ := statusCode_judge hjudge
    cases hd.symm.trans hd'
    rw [← hstatus] at hauth hbelow
    refine ⟨r, ?_, ⟨(hserved hauth).trans hbelow, hauth⟩, hfailed⟩
    rw [hsends, ← hjudge, ← hreply]
  · rintro ⟨r, h, ⟨hnot, hauth⟩, hfailed⟩
    rcases executeProbe_cases rt .modern targetUrl vars probe threatId with
      ⟨-, error, reason, -, hdone⟩ | ⟨-, request, hsends⟩
    · rw [hdone] at h
      cases h
      cases hauth
    · rw [hsends] at h
      dsimp only at h
      cases hreply : server.own 0 .modern request with
      | error text =>
        rw [hreply] at h
        cases h
        cases hauth
      | ok reply =>
        rw [hreply] at h
        obtain ⟨d, hd, hstatus⟩ := statusCode_judge h
        rw [hserved hauth, hstatus] at hnot
        rw [hstatus] at hauth
        exact ⟨request, reply, d, r, hsends, hreply, hd, hauth, hnot, h, hfailed⟩

theorem honest_runConnected_iff (hsep : CaseSeparates rt.unicode)
    (hquiet : Quiet rt server.handshake) :
    Honest (runConnected rt repr targetUrl vars probe threatId server true config) ↔
      ¬ Misled rt repr targetUrl vars probe threatId config server := by
  unfold runConnected Misled
  split
  · rename_i hstart
    refine ⟨?_, fun _ => honest_runStarted⟩
    rintro - ⟨⟨_, hfails, -⟩, -⟩
    obtain ⟨e, h, -⟩ := hfails.start
    rw [hstart] at h
    cases h
  · rename_i discovered e hstart
    rw [honest_runIncomplete_iff (authRejected_of_quiet hquiet hstart) (isSome_detection_iff hstart),
      isAuthRejection_message_iff hsep]
    refine not_congr (and_congr ⟨fun h => ⟨_, fails_of_start hstart, h⟩, ?_⟩ ?_)
    · rintro ⟨texts, hfails, h⟩
      obtain ⟨e', he', rfl⟩ := hfails.start
      rw [hstart] at he'
      cases he'
      exact h
    · refine forall_congr' fun hown => and_congr ?_ ownRefused_iff.symm
      rw [← isTargetLegacy_iff hstart hown, Bool.not_eq_true]
  · rename_i hstart
    refine ⟨?_, fun _ => .of_not_passed rfl⟩
    rintro - ⟨⟨_, hfails, -⟩, -⟩
    obtain ⟨e, h, -⟩ := hfails.start
    rw [hstart] at h
    cases h

/-- The connection of the probe is made, and can be closed. -/
def Connects (probe : Probe φ ρ) (server : Server φ) : Prop :=
  (probe.transport = lit "http" ∨ probe.transport = lit "stdio") ∧
    server.connect = .ok () ∧ server.close = .ok ()

theorem honest_runEffective_iff (hsep : CaseSeparates rt.unicode)
    (hquiet : Quiet rt server.handshake) :
    Honest (runEffective rt repr targetUrl vars probe threatId server true config) ↔
      (Connects probe server → ¬ Misled rt repr targetUrl vars probe threatId config server) := by
  unfold runEffective Connects
  by_cases htransport : probe.transport = lit "http" ∨ probe.transport = lit "stdio"
  · have hknown : ¬ (probe.transport ≠ lit "http" ∧ probe.transport ≠ lit "stdio") := by
      rintro ⟨hhttp, hstdio⟩
      exact htransport.elim hhttp hstdio
    rw [if_neg hknown]
    cases server.connect with
    | error e =>
      refine ⟨?_, fun _ => .of_not_passed rfl⟩
      rintro - ⟨-, h, -⟩
      cases h
    | ok _ =>
      cases server.close with
      | error e =>
        refine ⟨?_, fun _ => .of_not_passed rfl⟩
        rintro - ⟨-, -, h⟩
        cases h
      | ok _ => exact (honest_runConnected_iff hsep hquiet).trans ⟨fun h _ => h, fun h =>
          h ⟨htransport, rfl, rfl⟩⟩
  · rw [if_pos (not_or.mp htransport)]
    exact ⟨fun _ h => absurd h.1 htransport, fun _ => .of_not_passed rfl⟩

end Run

/-- **Where no reply of the handshake is a rejection, a probe that passes has passed by its own
request**, exactly if no text that the server gives in a failing reply has a keyword, or else the
probe's own request decides. -/
theorem pass_honest_iff {rt : Runtime φ ρ} {repr : Json φ → Str} {targetUrl : Str}
    {vars : Dict Str Str} {probe : Probe φ ρ} {threatId : Str} {server : ScanConfig → Server φ}
    {config : ScanConfig} (hsep : CaseSeparates rt.unicode)
    (hquiet : ∀ config, Quiet rt (server config).handshake) :
    Honest (runProbe rt repr targetUrl vars probe threatId server config true) ↔
      ∀ effective, effectiveConfig (φ := φ) config probe = .ok effective →
        Connects probe (server effective) →
        ¬ Misled rt repr targetUrl vars probe threatId effective (server effective) := by
  unfold runProbe
  cases heffective : effectiveConfig (φ := φ) config probe with
  | error reason => exact ⟨fun _ => nofun, fun _ => .of_not_passed rfl⟩
  | ok effective =>
    refine (honest_runEffective_iff hsep (hquiet effective)).trans ⟨fun h => ?_, fun h => h _ rfl⟩
    rintro _ ⟨⟩
    exact h

/-! ## A trace id -/

mutual

/-- `repr(v)`, for strings without quotes and control characters. -/
def reprText : Json WholeFloat → Str
  | .null => lit "None"
  | .bool true => lit "True"
  | .bool false => lit "False"
  | .int n => intText n
  | .float x => x.text
  | .nan => lit "nan"
  | .str s => [39] ++ s ++ [39]
  | .arr js => lit "[" ++ (lit ", ").intercalate (reprItems js) ++ lit "]"
  | .obj ms => [123] ++ (lit ", ").intercalate (reprMembers ms) ++ [125]

def reprItems : List (Json WholeFloat) → List Str
  | [] => []
  | j :: js => reprText j :: reprItems js

def reprMembers : List (Str × Json WholeFloat) → List Str
  | [] => []
  | (k, v) :: ms => ([39] ++ k ++ [39] ++ lit ": " ++ reprText v) :: reprMembers ms

end

def textRuntime : Runtime WholeFloat Str where
  str
    | .str s => s
    | j => reprText j
  strTuple _ := []
  dumps _ := []
  compile _ := none
  search _ _ := false
  unicode := .ascii
  str_str _ := rfl

/-- A server that fails to initialize, and gives the trace id of that. -/
def failingHandshake (trace : Str) : Handshake WholeFloat where
  discover := .ok (.obj [(lit "error", .obj [(lit "code", .int (-32601)),
    (lit "message", .str (lit "Method not found"))]), (lit "_status_code", .int 404)])
  init := .ok (.obj [(lit "error", .obj [(lit "code", .int (-32603)),
    (lit "message", .str (lit "internal error")), (lit "data", .str trace)]),
    (lit "_status_code", .int 500)])
  reconnect := .ok ()
  reinit := .error ⟨lit "TimeoutError", []⟩
  toolsList := .error ⟨lit "TimeoutError", []⟩

/-- It answers the probe's own request. -/
def failingServer (trace : Str) : Server WholeFloat where
  connect := .ok ()
  handshake := failingHandshake trace
  own _ _ _ := .ok (.obj [(lit "result", .obj []), (lit "_status_code", .int 200)])
  close := .ok ()

/-- A probe that asks for the tools, and expects an error. -/
def refusalProbe : Probe WholeFloat Str :=
  ⟨lit "T01-001-p1", lit "http", lit "tools/list", [],
    [⟨lit "response.error", .eq, .scalar (.bool true) (Json.hashable_bool true), none⟩], none,
    .int 1, none, [], false, none⟩

def runRefusal (trace : Str) : Run WholeFloat :=
  runProbe textRuntime reprText (lit "http://127.0.0.1/mcp") .empty refusalProbe (lit "T01-001")
    (fun _ => failingServer trace) ⟨none, none, none, none, .auto⟩ true

theorem quiet_failingHandshake {trace : Str} : Quiet textRuntime (failingHandshake trace) := by
  have hword (text : Str)
      (h : ¬ ∃ word ∈ rejectWords, word <:+: UnicodeData.ascii.lower text) :
      ¬ namesWord textRuntime.unicode text := h
  have hfound := hword (lit "Method not found") (by decide +kernel)
  have hinternal := hword (lit "internal error") (by decide +kernel)
  have hempty := hword [] (by decide +kernel)
  exact ⟨⟨rfl, hfound⟩, ⟨rfl, hinternal⟩, hempty, hempty⟩

/-- A trace id without the digits of a rejection. -/
theorem pass_honest_iff_other_trace : Honest (runRefusal (lit "b7")) := by
  have hsep : CaseSeparates textRuntime.unicode := caseSeparates_ascii
  refine (pass_honest_iff hsep fun _ => quiet_failingHandshake).mpr ?_
  rintro effective heffective - ⟨⟨texts, hfails, hkeyword⟩, -⟩
  cases heffective
  obtain ⟨e, he, rfl⟩ := hfails.start
  cases he
  exact absurd hkeyword (by decide +kernel)

/-- A trace id with the digits 401: the probe passes, and its own request, which would have been
answered, is not sent. -/
theorem passed_by_trace_id : Quiet textRuntime (failingServer (lit "a401f")).handshake ∧
    (runRefusal (lit "a401f")).passed = true ∧ (runRefusal (lit "a401f")).executed.isEmpty = true ∧
    (executeOnce textRuntime (lit "http://127.0.0.1/mcp") .empty refusalProbe (lit "T01-001")
      (failingServer (lit "a401f")) 0 .legacy).toOption.map (·.passed) = some false := by
  refine ⟨quiet_failingHandshake, ?_, ?_, ?_⟩
  · decide +kernel
  · decide +kernel
  · decide +kernel
end CosaiMcp.Harness
