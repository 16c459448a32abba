import CosaiMcp.Ir.Record
import CosaiMcp.Py.Splitlines
import CosaiMcp.Transport.Network

/-!
# Containment

`perform_containment` runs the actions for an incident one after another. What it does to the
outside is a list of effects, each with the place of its action: a request that is sent, or a file
that is written. What it finds there (the resolver, the replies, the file system) is an input, and
may change from one action to the next. A timeout is one of the exceptions of a request.
-/

namespace CosaiMcp.Ir

open Py Transport

variable {φ : Type}

/-- What containment calls. -/
structure Runtime where
  urlparse : UrlParser
  repr : Str → Str
  /-- `str` of an error of the allowlist. -/
  allowlistText : NetworkError → Str

inductive WriteError where
  /-- An `OSError` of this type. -/
  | os (type : Str)
  /-- A path that holds a null character. -/
  | value

/-- What becomes of a request: the status of its reply, or the type of an exception, which comes
after it was sent or before that. -/
inductive Exchange where
  | replied (status : Int)
  | lost (type : Str)
  | unsent (type : Str)

/-- The request has left. -/
def Exchange.sent : Exchange → Bool
  | .replied _ | .lost _ => true
  | .unsent _ => false

/-- What an action finds outside. -/
structure Surroundings where
  resolver : Resolver
  hostByName : Str → Except HostError Str
  post : Exchange
  delete : Exchange
  write : Except WriteError Unit

structure Options where
  emitEndpoint : Option Str
  emitAuthHeader : Option Str
  reportPath : Option Str
  allowPrivate : Bool

inductive Effect (φ : Type) where
  | delete (url : Str)
  | post (url : Str) (authorization : Option Str) (body : Json φ)
  | write (path : Str) (text : Str)

structure ContainmentResult where
  action : ContainmentAction
  success : Bool
  detail : Str

/-! ## The actions -/

section Actions

variable (rt : Runtime) (opts : Options) (incident : IncidentRecord) (w : Surroundings)

/-- The firewall rules for an address. -/
def firewallRules (ip : Str) : List Str :=
  [lit "iptables -A OUTPUT -d " ++ (ip ++ lit " -j DROP"),
    lit "pfctl -t cosai_quarantine -T add " ++ ip]

/-- `_resolve_host_ip`: an `OSError` is caught, a `UnicodeError` is not. -/
def resolveHostIp (hostname : Str) : Except PyError (Option Str) :=
  match w.hostByName hostname with
  | .ok ip => .ok (some ip)
  | .error .os => .ok none
  | .error .unicode => .error .valueError

/-- The address of the host, if there is a host and it has one. -/
def hostAddress (hostname : Str) : Except PyError (Option Str) :=
  if hostname = [] then .ok none else (resolveHostIp w hostname).map (·.filter (· ≠ []))

/-- The lines of `_generate_block_commands` for a URL with this host and address. -/
def blockLines (targetUrl hostname : Str) (address : Option Str) : List Str :=
  (lit "# Block egress to MCP server: " ++ targetUrl) ::
    match address with
    | some ip => (lit "# Resolved: " ++ (hostname ++ (lit " → " ++ ip))) :: firewallRules ip
    | none => [lit "# Could not resolve " ++ (rt.repr hostname ++ lit " — block by hostname instead:"),
        lit "# iptables does not support hostnames; use DNS sinkhole or WAF rule.",
        lit "# Add to /etc/hosts:  0.0.0.0  " ++ hostname]

def generateBlockCommands (targetUrl : Str) : Except PyError (List Str) :=
  match rt.urlparse targetUrl with
  | none => .error .valueError
  | some (_, hostname) =>
    (hostAddress w (hostname.getD [])).map (blockLines rt targetUrl (hostname.getD []))

/-- What an action returns, and what it has done. -/
abbrev Outcome (φ α : Type) := Except PyError α × List (Effect φ)

/-- A request that goes through the allowlist; its errors are caught, but for a `ValueError`. -/
def throughAllowlist (action : ContainmentAction) (url : Str)
    (send : Outcome φ ContainmentResult) : Outcome φ ContainmentResult :=
  match assertEgressAllowed rt.urlparse w.resolver opts.allowPrivate url with
  | .error .valueError => (.error .valueError, [])
  | .error e => (.ok ⟨action, false,
      lit "blocked by network allowlist (" ++ (rt.allowlistText e ++ lit ")")⟩, [])
  | .ok () => send

/-- The effects of a request. -/
def Exchange.effects (x : Exchange) (request : Effect φ) : List (Effect φ) :=
  if x.sent then [request] else []

/-- What is reported of an event. -/
def emitResult : Exchange → ContainmentResult
  | .replied status =>
    if 200 ≤ status ∧ status < 300 then
      ⟨.emitIncident, true, lit "OCSF Security Incident emitted → HTTP " ++ intText status⟩
    else ⟨.emitIncident, false, lit "SIEM returned HTTP " ++ intText status⟩
  | .lost type | .unsent type =>
    ⟨.emitIncident, false, lit "connection error (" ++ (type ++ lit ")")⟩

/-- `_emit_ocsf_incident_http`. -/
def emitOcsfIncident (ocsf : Json φ) (endpoint : Str) : Outcome φ ContainmentResult :=
  throughAllowlist rt opts w .emitIncident endpoint
    (.ok (emitResult w.post),
      w.post.effects (.post endpoint (opts.emitAuthHeader.filter (· ≠ [])) ocsf))

/-- `_session_kill`: every exception of `client.delete` is swallowed, so that the signal counts as
sent even where it was not. -/
def sessionKill (targetUrl : Str) : Outcome φ ContainmentResult :=
  throughAllowlist rt opts w .sessionKill targetUrl
    (.ok ⟨.sessionKill, true, lit "Session kill signal sent to " ++
      (targetUrl ++ lit " (best-effort; not guaranteed)")⟩, w.delete.effects (.delete targetUrl))

/-- The slashes that an absolute path begins with: one, or exactly two. -/
def pathRoot : Str → Str
  | 47 :: 47 :: 47 :: _ => [47]
  | 47 :: 47 :: _ => [47, 47]
  | 47 :: _ => [47]
  | _ => []

/-- `str(Path(s))`, on POSIX. -/
def pathText (s : Str) : Str :=
  let text := pathRoot s ++
    [47].intercalate ((s.splitOn 47).filter fun part => part ≠ [] ∧ part ≠ [46])
  if text = [] then [46] else text

/-- The path of the quarantine report. -/
def pathOfReport : Str :=
  pathText (opts.reportPath.getD (lit "cosai-incident-" ++ (incident.incidentId ++ lit ".json")))

variable [FloatText φ]

def quarantineReport (ocsf : Json φ) : Outcome φ ContainmentResult :=
  let path := pathOfReport opts incident
  let text := (Json.obj [(lit "cosai_ir_version", .str (lit "1.0")), (lit "incident", incident.toDict),
    (lit "ocsf_incident", ocsf)]).indented 2 0
  match w.write with
  | .ok () => (.ok ⟨.quarantineReport, true, lit "Quarantine report written to " ++ path⟩,
      [.write path text])
  | .error (.os type) => (.ok ⟨.quarantineReport, false, lit "Failed to write report: " ++ type⟩, [])
  | .error .value => (.error .valueError, [])

def performAction (ocsf : Json φ) : ContainmentAction → Outcome φ ContainmentResult
  | .emitIncident =>
    match opts.emitEndpoint.filter (· ≠ []) with
    | none => (.ok ⟨.emitIncident, false, lit "No emit endpoint configured — pass --emit-to"⟩, [])
    | some endpoint => emitOcsfIncident rt opts w ocsf endpoint
  | .quarantineReport => quarantineReport opts incident w ocsf
  | .blockEgress =>
    match generateBlockCommands rt w incident.targetUrl with
    | .error e => (.error e, [])
    | .ok commands => (.ok ⟨.blockEgress, true,
        lit "Block commands (review and execute as root):" ++ 10 :: joinLines commands⟩, [])
  | .sessionKill => sessionKill rt opts w incident.targetUrl

end Actions

/-! ## The run -/

section Perform

variable [FloatText φ] (rt : Runtime) (opts : Options) (incident : IncidentRecord)
  (env : Nat → Surroundings) (ocsf : Json φ)

/-- The actions from the `i`-th on. -/
def performFrom : Nat → List ContainmentAction →
    Except PyError (List ContainmentResult) × List (Nat × Effect φ)
  | _, [] => (.ok [], [])
  | i, action :: actions =>
    let (result, effects) := performAction rt opts incident (env i) ocsf action
    match result with
    | .error e => (.error e, effects.map (i, ·))
    | .ok r =>
      let (results, more) := performFrom (i + 1) actions
      (results.map (r :: ·), effects.map (i, ·) ++ more)

end Perform

/-- `perform_containment`. -/
def performContainment [FloatText φ] (rt : Runtime) (opts : Options) (nowMs : Int)
    (incident : IncidentRecord) (env : Nat → Surroundings)
    (actions : Option (List ContainmentAction)) :
    Except PyError (List ContainmentResult) × List (Nat × Effect φ) :=
  performFrom rt opts incident env (buildOcsfIncident nowMs incident) 0
    (actions.getD incident.recommendedActions)

/-! ## The command -/

structure ContainOptions where
  emitTo : Option Str
  emitAuthHeader : Option Str
  blockEgress : Bool
  doSessionKill : Bool
  allActions : Bool
  allowPrivate : Bool

/-- The actions of `ir contain`. -/
def containActions (cli : ContainOptions) (incident : IncidentRecord) : List ContainmentAction :=
  if cli.allActions then incident.recommendedActions
  else
    let actions := (if given cli.emitTo then [.emitIncident] else []) ++
      (if cli.blockEgress then [.blockEgress] else []) ++
      (if cli.doSessionKill then [.sessionKill] else [])
    if actions = [] then
      (if given cli.emitTo then [.emitIncident] else []) ++ [.quarantineReport]
    else actions

/-- The lines that are printed below the first one for block commands. -/
def printedLines (detail : Str) : List Str := (splitlines detail).drop 1

end CosaiMcp.Ir
