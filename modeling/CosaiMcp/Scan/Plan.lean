import CosaiMcp.Adversarial.Enforcer
import CosaiMcp.Catalog.Files
import CosaiMcp.Catalog.Hash
import CosaiMcp.Harness.Runner
import CosaiMcp.Scan.Audience
import CosaiMcp.Scan.Baseline
import CosaiMcp.Scan.ExitCode
import CosaiMcp.Scan.Manifest

/-!
# What a scan does before it connects

`_run_scan` checks its arguments, loads the catalog and picks the threats before the first request
is sent: `prepare`. A claim of an assurance level needs a full scan (`checkAssurance`), a foreign
token must be sacrificial, adversarial probes need the consent of the owner and stay in-band.

What the file system and the libraries contribute is a parameter (`Tools`), and so is what is read
from the files that the arguments name: the catalog, the baseline and the evidence.
-/

namespace CosaiMcp.Scan

open Py
open Adversarial (UnsafeProbeError checkNoExternalEndpoints)
open Assurance (EvidenceItem)
open Catalog
open CosaiMcp.Scorecard (Ed25519)
open Harness (ScanConfig)
open Protocol (ProtocolEra)

variable {φ ρ δ κ : Type}

/-! ## Arguments -/

structure ServerProfile where
  name : Str
  mcpPath : Str
  authHeaderFormat : Option Str
  toolNameMap : Dict Str Str
  skipCategories : List Str

/-- `apply_tool_name`. -/
def ServerProfile.applyToolName (p : ServerProfile) (placeholder : Str) : Str :=
  (p.toolNameMap.get? placeholder).getD placeholder

structure AdversarialMode where
  enabled : Bool
  ownershipDeclaration : Option Str
  allowStateful : Bool
  scanId : Str

/-- `AdversarialMode()`. -/
def AdversarialMode.default : AdversarialMode := ⟨false, none, false, []⟩

structure EvidenceManifest where
  target : Str
  items : Dict Str EvidenceItem

/-- The arguments of `_run_scan`. -/
structure Options where
  target : Str
  categories : Option (List Str)
  engine : Str
  allowCustomCatalog : Bool
  failOn : Str
  authToken : Option Str
  readToken : Option Str
  foreignAudienceToken : Option Str
  mcpPath : Str
  adaptive : Bool
  profile : Option ServerProfile
  adversarialMode : Option AdversarialMode
  /-- What `Baseline.load` makes of the file, if one is named. -/
  baseline : Option (Except PyError Baseline)
  piiStrict : Bool
  statefulMethodOverrides : Option (Dict Str Str)
  toolAllowlist : Option (List Str)
  expectedCatalogHash : Option Str
  protocolEra : ProtocolEra
  assuranceLevel : Option Int
  /-- What `load_evidence` makes of the directory, if one is named. -/
  evidence : Option (Except PyError EvidenceManifest)

inductive OptInError where
  | noDeclaration
  | noHostname
  | shortHostname
  | notNamed

/-- Why a scan is not run. -/
inductive ScanError (φ : Type) where
  | invalidTarget
  | audience (e : AudienceError)
  | evidenceWithoutLevel
  | level (n : Int)
  | categories
  | engine
  | customCatalog
  | pinnedEra
  | profile (name : Str)
  | evidence (e : PyError)
  | otherTarget
  | optIn (e : OptInError)
  | catalog (e : CatalogError)
  | unsafeProbe (e : UnsafeProbeError φ)
  | catalogHash
  /-- An exception in the course of the scan. -/
  | raised (e : PyError)

/-! ## Libraries -/

structure Tools (φ ρ δ κ : Type) where
  manifest : ManifestRuntime φ δ
  urls : UrlData
  /-- `str.upper`. -/
  upper : Str → Str
  httpxUrl : Str → Option HttpxUrl
  clock : Clock φ
  ed25519 : Ed25519 κ
  /-- `COSAI_PUBKEY`. -/
  pubkey : Str
  catalogRuntime : Runtime φ ρ
  validThreat : Json φ → Bool
  /-- The digest of an ASCII text. -/
  sha256Text : Str → Str
  sha256Hex : Bytes → Str
  isDecimal : CodePoint → Bool
  /-- `CONTROLS`. -/
  controls : List Assurance.Control
  /-- `str(uuid.uuid4())`. -/
  scanId : Str
  /-- `secrets.token_hex(8)`, for the threat at an index. -/
  canaryToken : Nat → Str
  scanTimestamp : Str

/-! ## The target -/

/-- The schemes of `uses_params`. -/
def usesParams : List Str :=
  [[], lit "ftp", lit "hdl", lit "prospero", lit "http", lit "imap", lit "https", lit "shttp",
    lit "rtsp", lit "rtsps", lit "rtspu", lit "sip", lit "sips", lit "mms", lit "sftp", lit "tel"]

/-- `urlparse(url).path`, without the parameters of its last segment. -/
def pathOf (url : Str) : Str :=
  let (scheme, rest) := Url.splitScheme (Url.clean url)
  let rest := match rest with
    | 47 :: 47 :: rest => rest.dropWhile (!Url.endsNetloc ·)
    | _ => rest
  let path := rest.takeWhile fun c => c ≠ 35 && c ≠ 63
  if scheme ∈ usesParams then
    path.rdropWhile (· ≠ 47) ++ (path.rtakeWhile (· ≠ 47)).takeWhile (· ≠ 59)
  else path

/-- The text of the port of a network location. -/
def portText (netloc : Str) : Str :=
  let hostinfo := netloc.rtakeWhile (· ≠ 64)
  let rest := if 91 ∈ hostinfo then
      (((hostinfo.dropWhile (· ≠ 91)).drop 1).dropWhile (· ≠ 93)).drop 1
    else hostinfo
  (rest.dropWhile (· ≠ 58)).drop 1

/-- `parsed.port` does not raise. -/
def validPort (netloc : Str) : Bool :=
  let port := portText netloc
  port = [] || (port.all isDigit && decide (natOf port ≤ 65535))

/-- `_parse_target` of a URL does not raise. -/
def isTarget (D : UrlData) (target : Str) : Bool :=
  Url.schemeOf target ≠ [] && (Url.hostOf D target).getD [] ≠ [] && validPort (netlocOf target)

/-- The MCP endpoint, as the transport derives it. -/
def endpointOf (target mcpPath : Str) : Str :=
  if pathOf target ≠ [] ∧ pathOf target ≠ [47] then target.rdropWhile (· = 47)
  else originOf target ++ mcpPath.rdropWhile (· = 47) ++ [47]

def Options.effectiveMcpPath (opts : Options) : Str :=
  match opts.profile.map (·.mcpPath) with
  | none | some [] => opts.mcpPath
  | some path => path

/-! ## Credentials -/

/-- `auth_header` in the configuration of the operator. -/
def Options.effectiveAuthHeader (opts : Options) : Option Str := do
  let token ← opts.authToken
  let format ← (← opts.profile).authHeaderFormat
  if token ≠ [] ∧ format ≠ [] then some (replaceStr format (lit "\x7btoken\x7d") token) else none

/-- The configuration of the operator. -/
def Options.config (opts : Options) : ScanConfig :=
  ⟨opts.authToken, opts.effectiveAuthHeader, opts.readToken, opts.foreignAudienceToken,
    opts.protocolEra⟩

section Prepare

variable (T : Tools φ ρ δ κ) (opts : Options)

def checkTarget : Except (ScanError φ) Unit :=
  if isTarget T.urls opts.target then .ok () else .error .invalidTarget

def checkForeignToken [PyFloat φ] : Except (ScanError φ) Unit :=
  match opts.foreignAudienceToken with
  | none => .ok ()
  | some token =>
    (validateForeignAudienceToken T.urls T.httpxUrl T.clock token opts.target opts.authToken
      (endpointOf opts.target opts.effectiveMcpPath)).mapError .audience

/-! ## Assurance -/

def isFalsy (categories : Option (List Str)) : Bool := categories.getD [] = []

/-- The evidence for this target. -/
def loadEvidence : Except (ScanError φ) (Dict Str EvidenceItem) :=
  match opts.evidence with
  | none => .ok .empty
  | some (.error e) => .error (.evidence e)
  | some (.ok manifest) =>
    if !isTarget T.urls manifest.target then .error .invalidTarget
    else if manifest.target ≠ opts.target then .error .otherTarget
    else .ok manifest.items

/-- A level can be claimed of a full scan only. -/
def checkAssurance (engine : Str) : Except (ScanError φ) (Dict Str EvidenceItem) :=
  match opts.assuranceLevel with
  | none => if opts.evidence.isSome then .error .evidenceWithoutLevel else .ok .empty
  | some n =>
    if n ∉ [1, 2, 3, 4] then .error (.level n)
    else if !isFalsy opts.categories then .error .categories
    else if engine ≠ lit "all" then .error .engine
    else if opts.allowCustomCatalog then .error .customCatalog
    else if opts.protocolEra ≠ .auto then .error .pinnedEra
    else match opts.profile.filter (·.skipCategories ≠ []) with
      | some p => .error (.profile p.name)
      | none => loadEvidence T opts

/-! ## Consent -/

def isHostnameChar (c : CodePoint) : Bool :=
  Url.isLetter c || isDigit c || c = 46 || c = 95 || c = 45

/-- The word occurs in the text, with no character of a host name before or after it. -/
def occursAlone (word text : Str) : Bool :=
  (List.range (text.length + 1)).any fun i =>
    word.isPrefixOf (text.drop i) && !(text.take i).getLast?.any isHostnameChar &&
      !(text.drop (i + word.length)).head?.any isHostnameChar

/-- `validate_dual_optin`, in adversarial mode. -/
def validateDualOptin (declaration : Option Str) : Except OptInError Unit :=
  let hostname := (Url.hostOf T.urls opts.target).getD []
  if declaration.getD [] = [] then .error .noDeclaration
  else if hostname = [] then .error .noHostname
  else if hostname.length < 4 then .error .shortHostname
  else if occursAlone (T.urls.lower hostname) (T.urls.lower (declaration.getD [])) then .ok ()
  else .error .notNamed

/-- The mode of this scan. -/
def Options.adversarial : AdversarialMode :=
  let adv := opts.adversarialMode.getD .default
  if adv.enabled then { adv with scanId := T.scanId } else adv

def checkOptIn : Except (ScanError φ) Unit :=
  let adv := opts.adversarial T
  if adv.enabled then (validateDualOptin T opts adv.ownershipDeclaration).mapError .optIn
  else .ok ()

def isAdversarialId (id : Str) : Bool := lit "-ADV-" <:+: T.upper id

/-- `_adversarial_safety_dict`. -/
def adversarialSafetyDict (threat : ThreatDefinition φ ρ) : List (Str × Json φ) :=
  [(lit "id", .str threat.id), (lit "mode", .str threat.mode),
    (lit "probes", .arr (threat.probes.map fun p => .obj [(lit "id", .str p.id),
      (lit "transport", .str p.transport), (lit "method", .str p.method),
      (lit "payload", toJsonSafe (.proxy p.payload))]))]

def checkInBand (threats : List (ThreatDefinition φ ρ)) : Except (ScanError φ) Unit :=
  let adv := opts.adversarial T
  if adv.enabled then
    threats.forM fun threat =>
      if isAdversarialId T threat.id then
        (checkNoExternalEndpoints T.urls (adversarialSafetyDict threat) opts.target
          adv.allowStateful).mapError .unsafeProbe
      else .ok ()
  else .ok ()

/-! ## Threats -/

/-- The categories in upper case; `none` for all of them. -/
def normaliseCategories (categories : Option (List Str)) : Option (List Str) :=
  match categories with
  | none | some [] => none
  | some categories =>
    let upper := categories.map T.upper
    if upper.all (· = lit "ALL") then none else some upper

def inScope (categories : Option (List Str)) (category : Str) : Bool :=
  categories.all (·.contains category)

def skips (category : Str) : Bool :=
  opts.profile.any (·.skipCategories.contains category)

/-- The threats of the categories that are asked for. -/
def threatsInScope (threats : List (ThreatDefinition φ ρ)) : List (ThreatDefinition φ ρ) :=
  threats.filter fun t => inScope (normaliseCategories T opts.categories) (T.upper t.category)

/-- The threats of the scan: those in scope that the profile does not skip. -/
def selectThreats (threats : List (ThreatDefinition φ ρ)) : List (ThreatDefinition φ ρ) :=
  (threatsInScope T opts threats).filter fun t => !skips opts (T.upper t.category)

def checkCatalogHash (hash : Str) : Except (ScanError φ) Unit :=
  if opts.expectedCatalogHash.any (· ≠ hash) then .error .catalogHash else .ok ()

/-- What is known before the first request. -/
structure Plan (φ ρ : Type) where
  engine : Str
  categories : Option (List Str)
  evidence : Dict Str EvidenceItem
  threats : List (ThreatDefinition φ ρ)
  catalogHash : Str

variable [PyFloat φ]

/-- The part of `_run_scan` before the first request. -/
def prepare (tree : CatalogTree) : Except (ScanError φ) (Plan φ ρ) := do
  checkTarget T opts
  let engine := T.urls.lower opts.engine
  checkForeignToken T opts
  let evidence ← checkAssurance T opts engine
  checkOptIn T opts
  let threats ← (loadAll T.ed25519 T.pubkey T.catalogRuntime T.validThreat opts.allowCustomCatalog
    false (opts.adversarial T).enabled tree).mapError .catalog
  checkInBand T opts (threatsInScope T opts threats)
  let threats := selectThreats T opts threats
  let hash := catalogHash T.sha256Text threats
  checkCatalogHash opts hash
  return ⟨engine, normaliseCategories T opts.categories, evidence, threats, hash⟩

end Prepare

end CosaiMcp.Scan
