import CosaiMcp.Harness.Context
import CosaiMcp.Session.Start

/-!
# Running a probe

`runProbe` is what `_probe_subprocess_entry` does in the subprocess of a probe: it starts a session
and executes the probe in it. Where the handshake fails, a probe of the authorization may still pass:
by its own request, sent without a handshake, or because the message of the failure names a rejection
(`isAuthRejection`).
-/

namespace CosaiMcp.Harness

open Py Catalog Protocol Session

variable {φ ρ : Type}

/-! ## Rejections -/

def authRejectKeywords : List Str :=
  [lit "invalid_token", lit "authentication required", lit "401", lit "403", lit "unauthorized"]

/-- `_is_auth_rejection` of an exception with this message. -/
def isAuthRejection (U : UnicodeData) (message : Str) : Bool :=
  authRejectKeywords.any fun kw => decide (kw <:+: U.lower message)

/-! ## Configuration -/

structure ScanConfig where
  authToken : Option Str
  authHeader : Option Str
  readToken : Option Str
  foreignAudienceToken : Option Str
  protocolEra : ProtocolEra

/-- The configuration with another token in place of the credentials, if there is one. -/
def withToken (config : ScanConfig) (probeToken : Str) (token : Option Str) :
    Except (Reason φ) ScanConfig :=
  match token with
  | none | some [] => .error (.noToken probeToken)
  | some token => .ok { config with authToken := some token, authHeader := none }

/-- The configuration that a probe is run with. -/
def effectiveConfig (config : ScanConfig) (probe : Probe φ ρ) : Except (Reason φ) ScanConfig :=
  if probe.probeToken = some (lit "read") then withToken config (lit "read") config.readToken
  else if probe.probeToken = some (lit "foreign_audience") then
    withToken config (lit "foreign_audience") config.foreignAudienceToken
  else .ok config

/-! ## The target -/

/-- What the target does with the connection of one probe. -/
structure Server (φ : Type) where
  connect : Except Exn Unit
  handshake : Handshake φ
  /-- The replies to the requests of the probe, in the order and in the framing they are sent in. -/
  own : Nat → ProtocolEra → Request φ → Except Str (Json φ)
  close : Except Exn Unit

/-- The end of a probe: `none` is an exception, which is reported as an error. `executed` has the
outcomes of `execute_probe`. -/
structure Run (φ : Type) where
  result : Option (ProbeResult φ)
  executed : List (Except Raised (ProbeResult φ))

def Run.passed (run : Run φ) : Bool := run.result.any (·.passed)

/-! ## Outcomes without a handshake -/

section Framings

variable [PyFloat φ]

/-- The framings in which the probe's own request is sent. -/
def framings (probe : Probe φ ρ) : List ProtocolEra :=
  if probe.requiresProtocolEra = some (lit "modern") then [.modern]
  else if probe.requiresProtocolEra = some (lit "legacy") then [.legacy]
  else [.modern, .legacy]

/-- `status < 400`. -/
def below400 (status : Json φ) : Except Raised Bool :=
  match asNum? status with
  | some (.int n) => .ok (n < 400)
  | some (.float (.real x)) => .ok (!PyFloat.intLe 400 x)
  | some (.float .nan) => .ok false
  | none => .error .typeError

/-- `status is not None and status < 400`. -/
def isServed (r : ProbeResult φ) : Except Raised Bool :=
  if r.statusCode.isNull then .ok false else below400 r.statusCode

/-- The first of the outcomes that was served and satisfies `p`; `none` is an exception. -/
def firstServed (p : ProbeResult φ → Bool) :
    List (Option (ProbeResult φ)) → Except Raised (Option (ProbeResult φ))
  | [] => .ok none
  | none :: outcomes => firstServed p outcomes
  | some r :: outcomes => do
    if (← isServed r) && p r then return some r
    else firstServed p outcomes

/-- The outcome has no status. -/
def isUnverified (outcome : Option (ProbeResult φ)) : Bool :=
  outcome.elim true (·.statusCode.isNull)

def isRefused (outcome : Option (ProbeResult φ)) : Bool :=
  outcome.elim false (isAuthStatus ·.statusCode)

inductive Verification (φ : Type) where
  | returns (r : ProbeResult φ)
  | refused
  | raised

/-- The least favourable outcome decides. -/
def verify (outcomes : List (Option (ProbeResult φ))) : Verification φ :=
  match firstServed (!·.passed) outcomes with
  | .error _ => .raised
  | .ok (some r) => .returns r
  | .ok none =>
    if outcomes.any isUnverified then .raised
    else match firstServed (fun _ => true) outcomes with
      | .error _ => .raised
      | .ok (some r) => .returns r
      | .ok none => if outcomes.any isRefused then .refused else .raised

end Framings

/-! ## Running -/

section Run

variable [PyFloat φ] (rt : Runtime φ ρ) (repr : Json φ → Str) (targetUrl : Str)
  (vars : Dict Str Str) (probe : Probe φ ρ) (threatId : Str) (server : Server φ)

/-- `execute_probe`, in a session of the era, as the `n`-th time. -/
def executeOnce (n : Nat) (era : ProtocolEra) : Except Raised (ProbeResult φ) :=
  match executeProbe rt era targetUrl vars probe threatId with
  | .done result => .ok result
  | .sends request judge => judge (server.own n era request)

/-- At most `k` more times, to the first that passes. -/
def attempts (era : ProtocolEra) : Nat → Nat → List (Except Raised (ProbeResult φ))
  | _, 0 => []
  | n, k + 1 =>
    match executeOnce rt targetUrl vars probe threatId server n era with
    | .error e => [.error e]
    | .ok r => if r.passed then [.ok r] else .ok r :: attempts era (n + 1) k

/-- The last outcome is the result. -/
def lastResult (executed : List (Except Raised (ProbeResult φ))) : Run φ :=
  ⟨executed.getLast?.bind Except.toOption, executed⟩

/-- The probe in a session that has been started. -/
def runStarted (era : ProtocolEra) : Run φ :=
  match probe.probeCount with
  | .int n => lastResult (attempts rt targetUrl vars probe threatId server era 0
      (if 1 < n then n.toNat else 1))
  | count =>
    -- `count > 1`, and `range(count)` if so
    match asNum? count with
    | some (.float (.real x)) =>
      if PyFloat.leInt x 1 then lastResult (attempts rt targetUrl vars probe threatId server era 0 1)
      else ⟨none, []⟩
    | some _ => lastResult (attempts rt targetUrl vars probe threatId server era 0 1)
    | none => ⟨none, []⟩

/-- A PASS for a handshake that was rejected. -/
def synthesized : ProbeResult φ :=
  ⟨probe.id, threatId, true, [⟨lit "response.error", lit "eq", true⟩], .null, none, none⟩

/-- The end of a probe whose handshake has failed with this message. -/
def rejected (passOnAuthReject : Bool) (message : Str)
    (executed : List (Except Raised (ProbeResult φ))) : Run φ :=
  ⟨if passOnAuthReject && isAuthRejection rt.unicode message then some (synthesized probe threatId)
    else none, executed⟩

def isTargetLegacy (config : ScanConfig) (discovered : Discovered φ) : Bool :=
  probe.requiresProtocolEra = some (lit "modern") && discovered.detection = some .legacy &&
    discovered.errorCode.pyEq (.int (-32601)) && config.protocolEra ≠ .modern

/-- Without a handshake, the probe's own request is sent. -/
def isVerified (passOnAuthReject : Bool) (discovered : Discovered φ) (message : Str) : Bool :=
  passOnAuthReject && (isAuthRejection rt.unicode message && discovered.authRejected ||
    probe.requiresProtocolEra = some (lit "modern") && discovered.detection.isSome)

def runIncomplete (passOnAuthReject : Bool) (config : ScanConfig) (discovered : Discovered φ)
    (message : Str) : Run φ :=
  if isTargetLegacy probe config discovered then
    ⟨some (makeProbeResult probe threatId none (some .targetIsLegacy)), []⟩
  else if isVerified rt probe passOnAuthReject discovered message then
    let executed := (framings probe).mapIdx (executeOnce rt targetUrl vars probe threatId server)
    match verify (executed.map Except.toOption) with
    | .returns r => ⟨some r, executed⟩
    | .raised => ⟨none, executed⟩
    | .refused => rejected rt probe threatId passOnAuthReject message executed
  else rejected rt probe threatId passOnAuthReject message []

/-- The probe on a connection. -/
def runConnected (passOnAuthReject : Bool) (config : ScanConfig) : Run φ :=
  match start config.protocolEra targetUrl server.handshake with
  | (_, .ok era) => runStarted rt targetUrl vars probe threatId server era
  | (discovered, .error (.incomplete e)) =>
    runIncomplete rt targetUrl vars probe threatId server passOnAuthReject config discovered
      (e.message rt.str repr)
  | (_, .error .raised) => ⟨none, []⟩

/-- The probe with its configuration. -/
def runEffective (passOnAuthReject : Bool) (config : ScanConfig) : Run φ :=
  if probe.transport ≠ lit "http" ∧ probe.transport ≠ lit "stdio" then ⟨none, []⟩
  else match server.connect with
    | .error _ => ⟨none, []⟩
    | .ok () =>
      let run := runConnected rt repr targetUrl vars probe threatId server passOnAuthReject config
      match server.close with
      | .error _ => ⟨none, run.executed⟩
      | .ok () => run

variable (server : ScanConfig → Server φ) (config : ScanConfig) (passOnAuthReject : Bool)

/-- The target may tell the credentials apart. -/
def runProbe : Run φ :=
  match effectiveConfig config probe with
  | .error reason => ⟨some (makeProbeResult probe threatId none (some reason)), []⟩
  | .ok config =>
    runEffective rt repr targetUrl vars probe threatId (server config) passOnAuthReject config

end Run

end CosaiMcp.Harness
