import CosaiMcp.Harness.Assertions
import CosaiMcp.Py.Base64
import CosaiMcp.Py.Except
import CosaiMcp.Py.Url

/-!
# Tokens for another audience

A scan may show the server under test a token that was issued for another resource, to see whether
it is turned away. Such a token is handed to a server that may be hostile, so that it must be of no
use there and of little use elsewhere (`Sacrificial`). The parser of `httpx` is a parameter, and the
subtraction of floats is one of the clock.
-/

namespace CosaiMcp.Scan

open Py
open Harness (splitDots)

variable {φ : Type}

/-! ## URLs as identifiers -/

structure HttpxUrl where
  scheme : Str
  host : Str
  port : Option Nat
  path : Str

def defaultPort (scheme : Str) : Option Nat :=
  if scheme = lit "http" then some 80 else if scheme = lit "https" then some 443 else none

section Canonical

variable (U : UnicodeData) (httpxUrl : Str → Option HttpxUrl)

/-- `_canonical`; `httpxUrl` gives `none` where `httpx.URL` raises. -/
def canonical (url : Str) : Option Str :=
  match httpxUrl url with
  | none => none
  | some u =>
    if u.scheme = [] ∨ u.host = [] then none
    else
      let scheme := U.lower u.scheme
      let port := if u.port = none ∨ u.port = defaultPort scheme then []
        else 58 :: natText (u.port.getD 0)
      let host := U.lower u.host
      let host := if 58 ∈ host then 91 :: host ++ [93] else host
      some (scheme ++ lit "://" ++ host ++ port ++ u.path.rdropWhile (· = 47))

end Canonical

/-- The network location of a URL. -/
def netlocOf (url : Str) : Str := Url.splitNetloc (Url.splitScheme (Url.clean url)).2

def originOf (url : Str) : Str := Url.schemeOf url ++ lit "://" ++ netlocOf url

/-- `_LOOPBACK_HOSTS`. -/
def loopbackHosts : List Str := [lit "localhost", lit "127.0.0.1", lit "::1"]

/-! ## Claims -/

section Claims

variable [FloatText φ]

/-- The payload of a JWT. Nothing of it is verified. -/
def jwtPayload (token : Str) : Option (List (Str × Json φ)) :=
  match splitDots token with
  | [_, payload, _] => do
    let bytes ← urlsafeB64decode (payload ++ List.replicate ((4 - payload.length % 4) % 4) 61)
    match ← loadsBytes bytes with
    | .obj ms => some ms
    | _ => none
  | _ => none

/-- The audiences that a payload names. -/
def audiences (payload : List (Str × Json φ)) : List (Json φ) :=
  match (Json.obj payload).get? (lit "aud") with
  | some (.str a) => [.str a]
  | some (.arr js) => js
  | _ => []

end Claims

/-- The clock of the scan. -/
structure Clock (φ : Type) where
  /-- `time.time()`. -/
  now : φ
  /-- `x - y`, for finite `x` and `y`. -/
  minus : φ → φ → φ

/-- Why a token is refused. -/
inductive AudienceError where
  | cleartext
  | noAuthToken
  | notJwt
  | noAudience
  | ownAudience
  | expired
  | longLived
  /-- `OverflowError`, of `math.isfinite`. -/
  | overflow

section Validate

variable [PyFloat φ]

/-- `math.isfinite`. -/
def isFinite : FloatOrNan φ → Bool
  | .real x => !decide (FloatText.inf ≤ x) && !decide (x ≤ FloatText.negInf)
  | .nan => false

/-- `exp - now > 3600` is false. -/
def isShortLived (clock : Clock φ) : FloatOrNan φ → Bool
  | .real x => PyFloat.leInt (clock.minus x clock.now) 3600
  | .nan => false

def validateExpiry (clock : Clock φ) (exp : Option (Json φ)) : Except AudienceError Unit :=
  match exp.bind asNum? with
  | none => .error .expired
  | some n =>
    match n.toFloat? with
    | none => .error .overflow
    | some x =>
      if !isFinite x || n.le clock.now then .error .expired
      else if isShortLived clock x then .ok () else .error .longLived

variable (D : UrlData) (httpxUrl : Str → Option HttpxUrl) (clock : Clock φ)

/-- The identifiers of the server under test. -/
def ownAudiences (targetUrl endpoint : Str) : List Str :=
  [targetUrl, originOf targetUrl, endpoint].filterMap (canonical D.toUnicodeData httpxUrl)

def isOwnAudience (targetUrl endpoint : Str) : Json φ → Bool
  | .str a => (canonical D.toUnicodeData httpxUrl a).any
      ((ownAudiences D httpxUrl targetUrl endpoint).contains ·)
  | _ => false

def isAudience : Json φ → Bool
  | .str (_ :: _) => true
  | _ => false

/-- `_validate_foreign_audience_token`. -/
def validateForeignAudienceToken (token targetUrl : Str) (authToken : Option Str) (endpoint : Str) :
    Except AudienceError Unit :=
  if Url.schemeOf targetUrl ≠ lit "https" ∧ (Url.hostOf D targetUrl).getD [] ∉ loopbackHosts then
    .error .cleartext
  else if authToken.getD [] = [] then .error .noAuthToken
  else
    match jwtPayload (φ := φ) token with
    | none => .error .notJwt
    | some payload =>
      if audiences payload = [] ∨ (audiences payload).all isAudience = false then
        .error .noAudience
      else if (audiences payload).any (isOwnAudience D httpxUrl targetUrl endpoint) then
        .error .ownAudience
      else validateExpiry clock ((Json.obj payload).get? (lit "exp"))

/-- A token that may be shown to the server: it travels in the clear to this machine only, a token
that the server accepts is at hand, no audience of it is the server, and it expires within the
hour. -/
structure Sacrificial (token targetUrl : Str) (authToken : Option Str) (endpoint : Str) : Prop where
  confidential : Url.schemeOf targetUrl = lit "https" ∨
    (Url.hostOf D targetUrl).getD [] ∈ loopbackHosts
  attributable : authToken.getD [] ≠ []
  foreign : ∃ payload, jwtPayload (φ := φ) token = some payload ∧ audiences payload ≠ [] ∧
    (∀ a ∈ audiences payload, isAudience a = true ∧
      isOwnAudience D httpxUrl targetUrl endpoint a = false) ∧
    ∃ n x, ((Json.obj payload).get? (lit "exp")).bind asNum? = some n ∧ n.toFloat? = some x ∧
      isFinite x = true ∧ n.le clock.now = false ∧ isShortLived clock x = true

theorem validateExpiry_eq_ok_iff {exp : Option (Json φ)} :
    validateExpiry clock exp = .ok () ↔
      ∃ n x, exp.bind asNum? = some n ∧ n.toFloat? = some x ∧
        isFinite x = true ∧ n.le clock.now = false ∧ isShortLived clock x = true := by
  rw [validateExpiry]
  cases hn : exp.bind asNum? with
  | none => simp
  | some n =>
    cases hx : n.toFloat? with
    | none => simp [hx]
    | some x => cases hf : isFinite x <;> cases hl : n.le clock.now <;>
        cases hs : isShortLived clock x <;> simp [hx, hf, hl, hs]

theorem validateForeignAudienceToken_eq_ok_iff {token targetUrl : Str} {authToken : Option Str}
    {endpoint : Str} :
    validateForeignAudienceToken D httpxUrl clock token targetUrl authToken endpoint = .ok () ↔
      Sacrificial D httpxUrl clock token targetUrl authToken endpoint := by
  rw [validateForeignAudienceToken]
  constructor
  · intro h
    split at h
    · cases h
    next hclear =>
    split at h
    · cases h
    next htoken =>
    cases hp : jwtPayload (φ := φ) token with
    | none => rw [hp] at h; cases h
    | some payload =>
      rw [hp] at h
      dsimp only at h
      split at h
      · cases h
      next haud =>
      split at h
      · cases h
      next hown =>
      rw [not_or, Bool.not_eq_false, List.all_eq_true] at haud
      rw [Bool.not_eq_true, List.any_eq_false] at hown
      refine ⟨?_, htoken, payload, hp, haud.1, ?_, (validateExpiry_eq_ok_iff clock).mp h⟩
      · by_contra hn
        exact hclear (not_or.mp hn)
      · intro a ha
        exact ⟨haud.2 a ha, by simpa using hown a ha⟩
  · rintro ⟨hclear, htoken, payload, hp, hne, hall, hexp⟩
    rw [if_neg (fun h => hclear.elim h.1 h.2), if_neg htoken, hp]
    dsimp only
    have haud : (audiences payload).all isAudience = true :=
      List.all_eq_true.mpr fun a ha => (hall a ha).1
    have hown : (audiences payload).any (isOwnAudience D httpxUrl targetUrl endpoint) = false :=
      List.any_eq_false.mpr fun a ha => by simp [(hall a ha).2]
    rw [if_neg (by simp [hne, haud]), if_neg (by simp [hown])]
    exact (validateExpiry_eq_ok_iff clock).mpr hexp

end Validate

end CosaiMcp.Scan
