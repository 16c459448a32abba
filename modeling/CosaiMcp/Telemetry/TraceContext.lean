import CosaiMcp.Middleware.RequestMeta.MetaIdentity

/-!
# Baggage in `_meta`

`sanitizeBaggage` keeps the members of a baggage with allowed keys, up to a size, each value quoted
anew. It is the entries of the allowlist that are looked at for identities, not the keys as they are
forwarded.
-/

namespace CosaiMcp.Telemetry

open Py
open Percent (unquote)
open Middleware.Boundary (isAlphanumeric)
open Middleware.RequestMeta (NameData)

variable {φ : Type}

def maxBaggageInputChars : Nat := 8192

/-- `_SENSITIVE_BAGGAGE_KEYS`. -/
def sensitiveBaggageKeys : List Str :=
  [lit "user", lit "userid", lit "username", lit "email", lit "sub", lit "subject",
    lit "principal", lit "tenant", lit "tenantid", lit "org", lit "orgid", lit "organization",
    lit "organisation", lit "account", lit "accountid", lit "session", lit "sessionid",
    lit "token", lit "accesstoken", lit "authorization", lit "clientid", lit "enduser",
    lit "enduserid", lit "enduserrole", lit "enduserscope", lit "apikey", lit "password",
    lit "secret", lit "customerid", lit "uid"]

/-- A character of `_BAGGAGE_KEY_RE`. -/
def isBaggageKeyChar (c : CodePoint) : Bool :=
  isAlphanumeric c || c ∈ lit "!#$%&*+.^_|~-" || c = 39 || c = 96

/-- `_BAGGAGE_KEY_RE` matches up to the end, or up to a newline there. -/
def isBaggageKey (key : Str) : Bool :=
  let body := if endsWith key [10] then key.dropLast else key
  body.all isBaggageKeyChar && decide (1 ≤ body.length) && decide (body.length ≤ 64)

/-- Where `sanitize_baggage` raises. -/
inductive BaggageError where
  | unicodeEncodeError

section Sanitize

variable (N : NameData)

/-- `_norm_key`. -/
def normKey (key : Str) : Str :=
  (N.lower key).filter fun c => !(c = 45 || c = 46 || c = 95 || isSpace c)

/-- The keys that may be forwarded, in lower case. -/
def allowedOf (allowedKeys : List Str) : List Str :=
  (allowedKeys.filter fun k =>
    decide (normKey N k ∉ sensitiveBaggageKeys) && !N.isIdentityKey false k).map N.lower

/-- The key and the value of a member, where the loop does not pass over it. -/
def acceptMember (allowed : List Str) (maxBytes : Int) (member : Str) : Option (Str × Str) :=
  if maxBytes < member.length then none
  else
    let stripped := strip member
    let key := strip (stripped.takeWhile (· ≠ 61))
    let rest := (stripped.dropWhile (· ≠ 61)).drop 1
    if 61 ∉ stripped ∨ isBaggageKey key = false ∨ N.lower key ∉ allowed ∨ 37 ∈ key ∨ 43 ∈ key then
      none
    else some (key, unquote (strip (rest.takeWhile (· ≠ 59))))

/-- The loop over the members. -/
def keepMembers (allowed : List Str) (maxBytes : Int) :
    List Str → Nat → List Str → Except BaggageError (List Str)
  | kept, _, [] => .ok kept
  | kept, size, member :: members =>
    match acceptMember N allowed maxBytes member with
    | none => keepMembers allowed maxBytes kept size members
    | some (key, value) =>
      match Percent.quote value with
      | none => .error .unicodeEncodeError
      | some val =>
        let entry := key ++ 61 :: val
        if (size + entry.length + (if kept = [] then 0 else 1) : Int) > maxBytes then .ok kept
        else
          keepMembers allowed maxBytes (kept ++ [entry])
            (size + entry.length + if 1 < (kept ++ [entry]).length then 1 else 0) members

/-- `s or None`. -/
def orNone (s : Str) : Option Str := if s = [] then none else some s

def sanitizeBaggage (value : Json φ) (allowedKeys : List Str) (maxBytes : Int) :
    Except BaggageError (Option Str) :=
  match value with
  | .str s =>
    if maxBaggageInputChars < s.length then .ok none
    else do
      let kept ← keepMembers N (allowedOf N allowedKeys) maxBytes [] 0 ((s.splitOn 44).take 64)
      return orNone ([44].intercalate kept)
  | _ => .ok none

end Sanitize

end CosaiMcp.Telemetry
