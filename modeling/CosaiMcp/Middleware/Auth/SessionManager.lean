import CosaiMcp.Middleware.Auth.JtiCache
import CosaiMcp.Py.Base64
import CosaiMcp.Py.Value
import CosaiMcp.Run

/-!
# The session manager

`validate_token` and `verify_dpop_proof` of `middleware/session.py`. Both check what they were
given, read the wall clock, and take the `jti` to the one replay cache of the manager, which reads
the monotonic clock. The JOSE library and the hash are parameters; so are `str`, `str.upper` and
`float` of a string. The texts of the errors quote the claims and are left out.
-/

namespace CosaiMcp.Middleware.Auth

open Py

variable {φ : Type}

/-- What the manager calls outside its module. `κ` are the keys and key sets of the JOSE library. -/
structure Runtime (φ κ : Type) where
  /-- `jwt.decode(token, key, algorithms)`: header and claims; `none` is an exception. -/
  decode : (token : Str) → (key : κ) → (algorithms : List (Json φ)) →
    Option (List (Str × Json φ) × List (Str × Json φ))
  /-- `OKPKey.import_key(jwk)`. -/
  importKey : List (Str × Json φ) → Option κ
  sha256 : Bytes → Bytes
  /-- `str(v)`. -/
  strOf : Json φ → Str
  strOf_str : ∀ s, strOf (.str s) = s
  upper : Str → Str
  /-- `float(s)`; `none` is `ValueError`. -/
  floatOfStr : Str → Option (FloatOrNan φ)

inductive SessionError where
  | decodeFailed
  | algorithmNotAllowed
  | missingClaim (claim : Str)
  | issuerMismatch
  | audienceMismatch
  | expired
  | notYetValid
  | replay (jti : Str)
  | notCompact
  | headerNotDecoded
  | wrongType
  | invalidJwk
  | keyTypeNotSupported
  | signatureInvalid
  | methodMismatch
  | urlMismatch
  | stale
  | tokenHashMismatch
  | typeError
  | valueError
  | overflowError
  | attributeError
  | unicodeEncodeError
deriving DecidableEq

structure SessionClaims (φ : Type) where
  subject : Str
  issuer : Str
  audience : Str
  jti : Str
  expiresAt : FloatOrNan φ
  issuedAt : FloatOrNan φ
  extra : List (Str × Json φ)

/-- The constructor's arguments other than those of the replay cache. -/
structure SessionManager (φ : Type) where
  expectedIssuer : Str
  expectedAudience : Str
  allowedAlgorithms : List Str
  clockSkew : φ

/-- The readings of the two clocks in one call. -/
structure Reading (φ : Type) where
  wall : φ
  mono : φ

section Numbers

variable [FloatArith φ] {κ : Type} (rt : Runtime φ κ)

/-- The `float` operand that a value is in arithmetic with a `float`. -/
def operand (v : Json φ) : Except SessionError (FloatOrNan φ) :=
  match asNum? v with
  | none => .error .typeError
  | some n =>
    match n.toFloat? with
    | none => .error .overflowError
    | some x => .ok x

/-- `float(v)`. -/
def floatOf (v : Json φ) : Except SessionError (FloatOrNan φ) :=
  match v with
  | .str s =>
    match rt.floatOfStr s with
    | none => .error .valueError
    | some x => .ok x
  | v => operand v

end Numbers

/-! ## Bearer tokens -/

section Bearer

variable [FloatArith φ] {κ : Type} (rt : Runtime φ κ) (M : SessionManager φ)

/-- The members of the `aud` claim as a set. -/
def audSet (aud : Json φ) : Except SessionError (List (Json φ)) :=
  match aud with
  | .str s => .ok [.str s]
  | .arr items => if items.all Json.hashable then .ok items else .error .typeError
  | .obj ms => .ok (ms.map fun m => .str m.1)
  | _ => .error .typeError

def requiredClaims : List Str :=
  [lit "iss", lit "aud", lit "exp", lit "nbf", lit "jti", lit "sub"]

/-- `claims[claim]` of a claim that is there. -/
def claim (claims : List (Str × Json φ)) (name : Str) : Json φ :=
  (Json.obj claims).getOrNull name

/-- `now > claims["exp"] + self._clock_skew`. -/
def isExpired (claims : List (Str × Json φ)) (now : φ) : Except SessionError Bool := do
  let exp ← operand (claim claims (lit "exp"))
  .ok ((exp.add M.clockSkew).lt now)

/-- `now < claims["nbf"] - self._clock_skew`. -/
def isNotYetValid (claims : List (Str × Json φ)) (now : φ) : Except SessionError Bool := do
  let nbf ← operand (claim claims (lit "nbf"))
  .ok ((nbf.sub M.clockSkew).gt now)

/-- `validate_token` up to the replay cache: the claims. -/
def checkToken (token : Str) (keyset : κ) (now : φ) :
    Except SessionError (List (Str × Json φ)) :=
  match rt.decode token keyset (M.allowedAlgorithms.map .str) with
  | none => .error .decodeFailed
  | some (header, claims) =>
    match (Json.obj header).get? (lit "alg") with
    | some (.str alg) =>
      if alg = [] ∨ alg = lit "none" ∨ alg ∉ M.allowedAlgorithms then .error .algorithmNotAllowed
      else
        match requiredClaims.find? fun name => ((Json.obj claims).get? name).isNone with
        | some name => .error (.missingClaim name)
        | none =>
          if (claim claims (lit "iss")).asStr? ≠ some M.expectedIssuer then .error .issuerMismatch
          else do
            let audiences ← audSet (claim claims (lit "aud"))
            if audiences.all (·.asStr? ≠ some M.expectedAudience) then .error .audienceMismatch
            else do
              let expired ← isExpired M claims now
              if expired then .error .expired
              else do
                let early ← isNotYetValid M claims now
                if early then .error .notYetValid else .ok claims
    | some v =>
      if v.truthy = false ∨ v.hashable = true then .error .algorithmNotAllowed
      else .error .typeError
    | none => .error .algorithmNotAllowed

def bearerKey (jti : Str) : Str := lit "bearer:" ++ jti

def sessionClaims (claims : List (Str × Json φ)) (jti : Str) :
    Except SessionError (SessionClaims φ) := do
  let expiresAt ← floatOf rt (claim claims (lit "exp"))
  let issuedAt ←
    match (Json.obj claims).get? (lit "iat") with
    | some iat => floatOf rt iat
    | none => operand (.int 0)
  .ok { subject := rt.strOf (claim claims (lit "sub")),
        issuer := rt.strOf (claim claims (lit "iss")),
        audience := M.expectedAudience, jti, expiresAt, issuedAt,
        extra := claims.filter fun m => m.1 ∉ requiredClaims ∧ m.1 ≠ lit "iat" }

/-- `validate_token`, and the replay cache that it leaves. -/
def validateToken (c : JtiCache φ) (token : Str) (keyset : κ) (r : Reading φ) :
    Except SessionError (SessionClaims φ) × JtiCache φ :=
  match checkToken rt M token keyset r.wall with
  | .error e => (.error e, c)
  | .ok claims =>
    let jti := rt.strOf (claim claims (lit "jti"))
    match c.checkAndAdd r.mono (bearerKey jti) with
    | (false, c) => (.error (.replay jti), c)
    | (true, c) => (sessionClaims rt M claims jti, c)

end Bearer

/-! ## Proofs of possession -/

section DPoP

variable [FloatArith φ] {κ : Type} (rt : Runtime φ κ)

/-- The arguments of `verify_dpop_proof`. -/
structure ProofArgs (φ : Type) where
  proof : Str
  expectedMethod : Str
  expectedUrl : Str
  boundAccessToken : Option Str
  maxAge : φ

/-- `_b64url_decode`; `none` is `ValueError`. -/
def b64urlDecode (s : Str) : Option Bytes :=
  urlsafeB64decode (s ++ List.replicate ((4 - s.length % 4) % 4) 61)

def b64url (data : Bytes) : Str := rstripPad (urlsafeB64encode data)

/-- The header of a compact JWT, decoded from its first part. -/
def proofHeader (proof : Str) : Except SessionError (List (Str × Json φ)) :=
  match proof.splitOn 46 with
  | [part, _, _] =>
    match (b64urlDecode part).bind loadsBytes with
    | none => .error .headerNotDecoded
    | some (.obj header) => .ok header
    | some _ => .error .attributeError
  | _ => .error .notCompact

/-- The claims of a proof whose signature the key of its header verifies. -/
def proofClaims (proof : Str) : Except SessionError (List (Str × Json φ)) := do
  let header ← proofHeader proof
  if (claim header (lit "typ")).asStr? ≠ some (lit "dpop+jwt") then .error .wrongType
  else
    let alg := ((Json.obj header).get? (lit "alg")).getD (.str [])
    if alg.truthy = false ∨ alg.asStr? = some (lit "none") then .error .algorithmNotAllowed
    else
      match claim header (lit "jwk") with
      | .obj jwk =>
        if (claim jwk (lit "kty")).asStr? ≠ some (lit "OKP") then .error .keyTypeNotSupported
        else
          match rt.importKey jwk with
          | none => .error .signatureInvalid
          | some key =>
            match rt.decode proof key [alg] with
            | none => .error .signatureInvalid
            | some (_, claims) => .ok claims
      | _ => .error .invalidJwk

/-- `abs(now - float(iat)) > max_age_seconds`. -/
def isStale (claims : List (Str × Json φ)) (now maxAge : φ) : Except SessionError Bool :=
  if (claim claims (lit "iat")).isNull then .error (.missingClaim (lit "iat"))
  else do
    let iat ← floatOf rt (claim claims (lit "iat"))
    .ok ((iat.subFrom now).abs.gt maxAge)

/-- `verify_dpop_proof` up to the replay cache: the claims and the `jti`. -/
def checkProof (a : ProofArgs φ) (now : φ) :
    Except SessionError (List (Str × Json φ) × Str) := do
  let claims ← proofClaims rt a.proof
  match ((Json.obj claims).get? (lit "htm")).getD (.str []) with
  | .str htm =>
    if rt.upper htm ≠ rt.upper a.expectedMethod then .error .methodMismatch
    else if (claim claims (lit "htu")).asStr? ≠ some a.expectedUrl then .error .urlMismatch
    else do
      let stale ← isStale rt claims now a.maxAge
      if stale then .error .stale
      else
        let jti := rt.strOf (((Json.obj claims).get? (lit "jti")).getD (.str []))
        if jti = [] then .error (.missingClaim (lit "jti")) else .ok (claims, jti)
  | _ => .error .attributeError

def dpopKey (jti : Str) : Str := lit "dpop:" ++ jti

/-- The check of `ath` against the access token that the proof is bound to. -/
def checkTokenHash (claims : List (Str × Json φ)) (boundAccessToken : Option Str) :
    Except SessionError Unit :=
  match boundAccessToken with
  | none => .ok ()
  | some token =>
    if isAscii token = false then .error .unicodeEncodeError
    else if (claim claims (lit "ath")).asStr? ≠ some (b64url (rt.sha256 (asciiBytes token))) then
      .error .tokenHashMismatch
    else .ok ()

/-- `verify_dpop_proof`, and the replay cache that it leaves. -/
def verifyDpopProof (c : JtiCache φ) (a : ProofArgs φ) (r : Reading φ) :
    Except SessionError Unit × JtiCache φ :=
  match checkProof rt a r.wall with
  | .error e => (.error e, c)
  | .ok (claims, jti) =>
    match c.checkAndAdd r.mono (dpopKey jti) with
    | (false, c) => (.error (.replay jti), c)
    | (true, c) => (checkTokenHash rt claims a.boundAccessToken, c)

end DPoP

/-! ## Runs -/

section Runs

variable [FloatArith φ] {κ : Type} (rt : Runtime φ κ) (M : SessionManager φ)

/-- A call of one of the two methods. -/
inductive Call (φ κ : Type) where
  | bearer (token : Str) (keyset : κ)
  | dpop (a : ProofArgs φ)

/-- A call with the readings of the clocks in it: whether it returned, and the replay cache that it
leaves. -/
def step (c : JtiCache φ) (i : Call φ κ × Reading φ) : Bool × JtiCache φ :=
  match i.1 with
  | .bearer token keyset =>
    let (result, c) := validateToken rt M c token keyset i.2
    (result.toOption.isSome, c)
  | .dpop a =>
    let (result, c) := verifyDpopProof rt c a i.2
    (result.toOption.isSome, c)

/-- The calls of a run that satisfy `p` and returned. -/
def accepted (p : Call φ κ → Bool) (c : JtiCache φ) (is : List (Call φ κ × Reading φ)) :
    List (Call φ κ × Reading φ) :=
  ((Run.trace (step rt M) c is).filter fun t => p t.1.1 && t.2).map Prod.fst

end Runs

end CosaiMcp.Middleware.Auth
