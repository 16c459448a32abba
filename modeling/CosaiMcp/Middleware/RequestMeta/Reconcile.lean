import CosaiMcp.Protocol.Annotations

/-!
# Reconciling `_meta` with the principal

`reconcileMeta` walks through the members of `_meta`, and those of nested mappings and lists up to a
depth limit, and collects the paths of the claims that conflict with the authenticated principal.

What `meta_identity.py` makes of the words of a key is a parameter (`KeyNames`), of which only the
two self-reported keys of the protocol are known.
-/

namespace CosaiMcp.Middleware.RequestMeta

open Py Protocol

/-! ## Keys -/

def subjectNames : List Str :=
  [lit "user", lit "userid", lit "uid", lit "sub", lit "subject", lit "principal",
    lit "onbehalfof", lit "act", lit "actor", lit "username", lit "email", lit "enduser",
    lit "enduserid", lit "impersonate", lit "impersonateuser", lit "runas", lit "owner",
    lit "ownerid", lit "identity", lit "caller", lit "customerid", lit "oid", lit "upn",
    lit "login", lit "preferredusername", lit "uniquename", lit "givenname", lit "familyname",
    lit "nickname"]

def tenantNames : List Str :=
  [lit "tenant", lit "tenantid", lit "org", lit "orgid", lit "organization", lit "organisation",
    lit "account", lit "accountid", lit "workspace", lit "workspaceid", lit "project",
    lit "projectid", lit "team", lit "teamid", lit "customer", lit "realm", lit "tid"]

def clientNames : List Str := [lit "clientid", lit "azp", lit "appid", lit "cid"]

def scopeNames : List Str :=
  [lit "role", lit "roles", lit "scope", lit "scopes", lit "scp", lit "permissions",
    lit "groups", lit "entitlements", lit "authorities", lit "enduserrole", lit "enduserscope",
    lit "wids", lit "resourceaccess"]

def adminNames : List Str :=
  [lit "admin", lit "isadmin", lit "superuser", lit "root", lit "sudo", lit "elevated"]

def identityNames : List Str :=
  subjectNames ++ tenantNames ++ clientNames ++ scopeNames ++ adminNames

/-- `names & others`, as a truth value. -/
def meets (names others : List Str) : Bool := names.any (· ∈ others)

/-- The two predicates of `meta_identity.py` on keys, with the prefix grammar of top-level keys or
without it, and `c.isprintable()`. -/
structure KeyNames where
  candidateNames : (prefixed : Bool) → Str → List Str
  hasIdentityWord : (prefixed : Bool) → Str → Bool
  isPrintable : CodePoint → Bool
  /-- The self-reported keys of the protocol name no identity. -/
  selfReported : ∀ key ∈ [metaClientInfo, metaClientCapabilities],
    meets (candidateNames true key) identityNames = false ∧ hasIdentityWord true key = false

/-- `is_identity_key` of a key without `%` and `+`, which `unquote_plus` leaves as it is. -/
def KeyNames.isIdentityKey (K : KeyNames) (key : Str) : Bool :=
  meets (K.candidateNames false key) identityNames || K.hasIdentityWord false key

/-- The identity that the access token establishes. -/
structure AuthenticatedPrincipal where
  subject : Str
  tenant : Option Str
  clientId : Option Str
  scopes : List Str

/-! ## Claims -/

/-- The words of `s.split()`. -/
def splitWords (s : Str) : List Str := (s.splitOnP isSpace).filter (· ≠ [])

variable {φ : Type}

/-- `_as_set`. -/
def asSet : Json φ → Option (List Str)
  | .str s => some (splitWords (replaceChar s 44 32))
  | .arr js => js.mapM Json.asStr?
  | _ => none

/-- `value in (False, None, 0, "false")`, of a scalar. -/
def isDenied : Json φ → Bool
  | .null => true
  | .bool b => !b
  | .int n => n == 0
  | .str s => s = lit "false"
  | _ => false

/-- `isinstance(value, str) and value == claim`. -/
def isText (value : Json φ) (claim : Option Str) : Bool :=
  match value, claim with
  | .str s, some t => s = t
  | _, _ => false

/-- `_claim_conflicts`. -/
def claimConflicts (names : List Str) (value : Json φ) (P : AuthenticatedPrincipal) : Bool :=
  if meets names subjectNames then !isText value (some P.subject)
  else if meets names tenantNames then !isText value P.tenant
  else if meets names clientNames then !isText value P.clientId
  else if meets names scopeNames then
    match asSet value with
    | none => true
    | some claimed => !claimed.all (· ∈ P.scopes)
  else if meets names adminNames then
    match value with
    | .null | .bool _ | .int _ | .str _ => !isDenied value && lit "admin" ∉ P.scopes
    | _ => true
  else false

section Walk

variable (K : KeyNames) (P : AuthenticatedPrincipal)

/-- `_visit` of a key; `below` are the conflicts that descending into its value finds. -/
def visit (key : Str) (value : Json φ) (path : Str) (depth : Nat) (operatorApproved : Bool)
    (below : List Str) : List Str :=
  let names := K.candidateNames (depth == 0) key
  if meets names identityNames then
    if claimConflicts names value P then [path] else below
  else if !operatorApproved && K.hasIdentityWord (depth == 0) key then [path]
  else below

mutual

/-- `_descend`: the paths of the conflicts, in the order in which they are found. -/
def descend (path : Str) (depth limit : Nat) : Json φ → List Str
  | .obj ms =>
    if ms.isEmpty then []
    else if limit ≤ depth + 1 then [path]
    else descendMembers path (depth + 1) limit ms
  | .arr js =>
    if js.isEmpty then []
    else if limit ≤ depth + 1 then [path]
    else descendItems path (depth + 1) limit 0 js ++ if 256 < js.length then [path] else []
  | .null | .bool _ | .int _ | .float _ | .nan | .str _ => []

def descendMembers (path : Str) (depth limit : Nat) : List (Str × Json φ) → List Str
  | [] => []
  | (k, v) :: ms =>
    visit K P k v (path ++ 62 :: k) depth false (descend (path ++ 62 :: k) depth limit v) ++
      descendMembers path depth limit ms

/-- The first 256 items, from the `i`-th one on. -/
def descendItems (path : Str) (depth limit : Nat) : Nat → List (Json φ) → List Str
  | _, [] => []
  | i, j :: js =>
    if i < 256 then
      descend (path ++ 62 :: natText i) depth limit j ++ descendItems path depth limit (i + 1) js
    else []

end

/-! ## Trace context -/

def isLowerHex (c : CodePoint) : Bool := isDigit c || (97 ≤ c.val && c.val ≤ 102)

/-- `parse_traceparent` of a text. -/
def parseTraceparent (value : Str) : Option (Str × Str × Str) :=
  let s := strip value
  let trace := (s.drop 3).take 32
  let parent := (s.drop 36).take 16
  let flags := (s.drop 53).take 2
  if s.length = 55 ∧ s = lit "00-" ++ trace ++ 45 :: parent ++ 45 :: flags ∧
      trace.all isLowerHex ∧ parent.all isLowerHex ∧ flags.all isLowerHex ∧
      trace ≠ List.replicate 32 48 ∧ parent ≠ List.replicate 16 48 then
    some (trace, parent, flags)
  else none

/-- The parts of a member of `baggage` or `tracestate` whose keys are looked at. -/
def traceParts (key member : Str) : List Str :=
  if key = lit "baggage" then member.splitOn 59 else [member]

/-- The key of a part is encoded, or names an identity. -/
def isClaimingPart (part : Str) : Bool :=
  let key := strip (part.takeWhile (· ≠ 61))
  37 ∈ key || 43 ∈ key || K.isIdentityKey key

/-- `_trace_key_invalid`. -/
def traceKeyInvalid (key : Str) : Json φ → Bool
  | .str s =>
    if 8192 < s.length then true
    else if key = lit "traceparent" then (parseTraceparent s).isNone
    else if key = lit "baggage" ∨ key = lit "tracestate" then
      (s.splitOn 44).any fun member => (traceParts key member).any (isClaimingPart K)
    else false
  | _ => true

/-! ## Reconciliation -/

def protocolKeys : List Str := [metaProtocolVersion]

def traceKeys : List Str := [lit "traceparent", lit "tracestate", lit "baggage"]

def selfReportedKeys : List Str := [metaClientInfo, metaClientCapabilities]

def reservedKeys : List Str := protocolKeys ++ traceKeys ++ selfReportedKeys

def maxMetaDepth : Nat := 4

def maxSelfReportedDepth : Nat := 8

/-- `isinstance(value, str) and len(value) <= 64`. -/
def isShortText : Json φ → Bool
  | .str s => s.length ≤ 64
  | _ => false

/-- One turn of the loop of `reconcile_meta`. -/
def topConflicts (allowedKeys : Option (List Str)) (key : Str) (value : Json φ) : List Str :=
  if key ∈ protocolKeys then if isShortText value then [] else [key]
  else if 1 < key.count 47 then [key]
  else if key ∈ traceKeys then if traceKeyInvalid K key value then [key] else []
  else if key ∈ selfReportedKeys then descend K P key 0 maxSelfReportedDepth value
  else if allowedKeys.any fun allowed => key ∉ allowed ++ reservedKeys then [key]
  else visit K P key value key 0 allowedKeys.isSome (descend K P key 0 maxMetaDepth value)

/-- The paths of all conflicts. -/
def conflictsOf (allowedKeys : Option (List Str)) (fields : List (Str × Json φ)) : List Str :=
  fields.flatMap fun m => topConflicts K P allowedKeys m.1 m.2

/-- `_safe_key`. -/
def safeKey (key : Str) : Str := (key.take 128).map fun c => if K.isPrintable c then c else 63

/-- What is reported of the conflicts. -/
def reportedKeys (bad : List Str) : List Str := (sortStrs (bad.map (safeKey K))).take 32

/-- `reconcile_meta`; an error is the `MetaTrustError` with these keys, which `on_mismatch` was
called with. -/
def reconcileMeta (allowedKeys : Option (List Str)) (fields : List (Str × Json φ)) :
    Except (List Str) Unit :=
  let bad := conflictsOf K P allowedKeys fields
  if bad.isEmpty then .ok () else .error (reportedKeys K bad)

end Walk

end CosaiMcp.Middleware.RequestMeta
