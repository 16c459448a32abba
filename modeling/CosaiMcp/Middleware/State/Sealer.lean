import CosaiMcp.Middleware.State.Common
import CosaiMcp.Py.Base64
import CosaiMcp.Py.Float
import CosaiMcp.Py.Heap
import CosaiMcp.Py.Value
import Mathlib.Data.List.Dedup

/-!
# The request-state sealer

`RequestStateSealer` of `middleware/state.py`: client-held state under AES-256-GCM, with a replay
cache in the process. What a call takes from outside is an argument: the clock reading, the value of
`secrets.token_hex(16)`, the bytes of `os.urandom(12)`, and what a shared `spent_store` answers. The
primitives are parameters too (`Crypto`). `φ` is the type of the clock readings, a `PyFloat`.

`openChecks` is `open` up to the replay cache and `ReplayCache.redeem` its block under the lock;
`openToken` is the whole call.
-/

namespace CosaiMcp.Middleware.State

open Py

def formatTag : Str := lit "v1"

def nonceBytes : Nat := 12

def keyBytes : Nat := 32

def maxStateChars : Nat := 64 * 1024

def maxTtlSeconds : Int := 3600

def maxSealsPerKey : Int := 2 ^ 31

def maxSpentEntries : Int := 1000000

def maxSpentPerOwner : Int := 10000

def maxSpentPerTenant : Int := maxSpentEntries / 4

/-- `_b64`. -/
def b64 (data : Bytes) : Str := rstripPad (urlsafeB64encode data)

/-- `_unb64`; `none` is `binascii.Error` or `ValueError`. -/
def unb64 (text : Str) : Option Bytes :=
  urlsafeB64decode (text ++ List.replicate ((4 - text.length % 4) % 4) 61)

/-- What the sealer calls: `hashlib.sha256` and the two methods of `AESGCM`. A `decrypt` that yields
`none` is `InvalidTag`. -/
structure Crypto where
  sha256 : Bytes → Bytes
  encrypt : (key nonce data aad : Bytes) → Bytes
  decrypt : (key nonce data aad : Bytes) → Option Bytes

/-! ## The constructor -/

/-- The constructor's arguments, but for the clock and the `spent_store`. -/
structure SealerConfig where
  keys : Dict Str Bytes
  activeKid : Str
  audience : Str
  defaultTtlSeconds : Int
  singleUse : Bool

inductive SealerError where
  | noKeys
  | invalidKid (kid : Str)
  | keyLength
  | weakKey (kid : Str)
  | audienceRequired
  | activeKidUnknown
  | ttlOutOfRange
deriving DecidableEq

def isKidChar (c : CodePoint) : Bool :=
  (65 ≤ c.val && c.val ≤ 90) || (97 ≤ c.val && c.val ≤ 122) || isDigit c || c == 95 || c == 45

/-- `_KID_RE.match`: the `$` of the pattern also stands before a final line feed. -/
def kidMatches (kid : Str) : Bool :=
  let body := if kid.getLast? = some 10 then kid.dropLast else kid
  1 ≤ body.length && body.length ≤ 32 && body.all isKidChar

/-- `_is_weak_key`. -/
def isWeakKey (key : Bytes) : Bool :=
  key.dedup.length < 16 || key.all fun b => 0x20 ≤ b.val && b.val ≤ 0x7E

def keyError (kid : Str) (key : Bytes) : Option SealerError :=
  if !kidMatches kid then some (.invalidKid kid)
  else if key.length ≠ keyBytes then some .keyLength
  else if isWeakKey key then some (.weakKey kid)
  else none

/-- What the constructor raises. -/
def SealerConfig.error? (cfg : SealerConfig) : Option SealerError :=
  if cfg.keys.size = 0 then some .noKeys
  else
    match cfg.keys.items.findSome? fun k => keyError k.1 k.2 with
    | some e => some e
    | none =>
      if cfg.audience = [] then some .audienceRequired
      else if cfg.activeKid ∉ cfg.keys.keys then some .activeKidUnknown
      else if ¬(0 < cfg.defaultTtlSeconds ∧ cfg.defaultTtlSeconds ≤ maxTtlSeconds) then
        some .ttlOutOfRange
      else none

/-- A sealer that was built: the constructor raised nothing. -/
structure RequestStateSealer extends SealerConfig where
  valid : toSealerConfig.error? = none

namespace RequestStateSealer

variable (S : RequestStateSealer)

theorem keyError_eq_none {kid : Str} {key : Bytes} (h : (kid, key) ∈ S.keys.items) :
    keyError kid key = none := by
  have hv := S.valid
  unfold SealerConfig.error? at hv
  split at hv
  · cases hv
  · split at hv
    · cases hv
    · rename_i hnone
      exact List.findSome?_eq_none_iff.mp hnone (kid, key) h

theorem activeKid_mem : S.activeKid ∈ S.keys.keys := by
  have hv := S.valid
  unfold SealerConfig.error? at hv
  split at hv
  · cases hv
  · split at hv
    · cases hv
    · split at hv
      · cases hv
      · split at hv
        · cases hv
        · rename_i h; simpa using h

theorem activeKey_isSome : (S.keys.get? S.activeKid).isSome = true := by
  obtain ⟨key, hkey⟩ := Dict.mem_keys_iff.mp S.activeKid_mem
  rw [Dict.get?_eq_some_iff.mpr hkey]
  rfl

/-- The key behind `self._aead[self._active]`. -/
def activeKey : Bytes := (S.keys.get? S.activeKid).get S.activeKey_isSome

/-- `_aad`; `none` is the `UnicodeEncodeError` of an audience with a lone surrogate. -/
def aad (C : Crypto) (kid : Str) : Option Bytes := do
  let tag ← encodeUtf8 (lit "cosai-requestState")
  let format ← encodeUtf8 formatTag
  let kid ← encodeUtf8 kid
  let audience ← encodeUtf8 S.audience
  some (tag ++ 124 :: (format ++ 124 :: (kid ++ 124 :: C.sha256 audience)))

end RequestStateSealer

/-! ## `seal` -/

/-- What `secrets.token_hex(16)` yields. -/
abbrev HexToken := { s : Str // s.length = 32 ∧ ∀ c ∈ s, ∃ n < 16, c = hexDigit n }

/-- What `os.urandom(12)` yields. -/
abbrev Nonce := { b : Bytes // b.length = nonceBytes }

/-- One call of `seal`: its arguments and what it takes from the clock and the generators. -/
structure SealCall (φ : Type) where
  payload : Dict Str (Json φ)
  principal : Str
  requestId : Str
  tenant : Str
  ttlSeconds : Option Int
  now : φ
  jti : HexToken
  nonce : Nonce

inductive SealError where
  | ownerRequired
  | tenantRequired
  | ttlOutOfRange
  | usageLimit
  | unicodeEncodeError
  | tooLarge
deriving DecidableEq

/-- The arguments of a call of `AESGCM.encrypt`. -/
structure Encryption where
  key : Bytes
  nonce : Bytes
  data : Bytes
  aad : Bytes
deriving DecidableEq

def Encryption.ciphertext (C : Crypto) (e : Encryption) : Bytes :=
  C.encrypt e.key e.nonce e.data e.aad

section Seal

variable {φ : Type} [PyFloat φ]

/-- The expiry of a seal that lives for `ttl` seconds. -/
def SealCall.expiry (c : SealCall φ) (ttl : Int) : φ := PyFloat.addInt c.now ttl

/-- The sealed plaintext. -/
def SealCall.claims (c : SealCall φ) (ttl : Int) : Json φ :=
  .obj [(lit "p", .str c.principal), (lit "t", .str c.tenant), (lit "r", .str c.requestId),
    (lit "exp", .float (c.expiry ttl)), (lit "jti", .str c.jti.val),
    (lit "d", .obj c.payload.items)]

namespace RequestStateSealer

variable (C : Crypto) (S : RequestStateSealer)

def ttl (c : SealCall φ) : Int := c.ttlSeconds.getD S.defaultTtlSeconds

def sealArgsError (c : SealCall φ) : Option SealError :=
  if c.principal = [] ∨ c.requestId = [] then some .ownerRequired
  else if c.tenant = [] then some .tenantRequired
  else if ¬(0 < S.ttl c ∧ S.ttl c ≤ maxTtlSeconds) then some .ttlOutOfRange
  else none

/-- `seal` up to the call of `encrypt`. The dictionary is `_seals`. -/
def prepare (seals : Dict Str Int) (c : SealCall φ) : Except SealError Encryption × Dict Str Int :=
  match S.sealArgsError c with
  | some e => (.error e, seals)
  | none =>
    match encodeUtf8 (c.claims (S.ttl c)).text with
    | none => (.error .unicodeEncodeError, seals)
    | some body =>
      let used := (seals.get? S.activeKid).getD 0
      if maxSealsPerKey ≤ used then (.error .usageLimit, seals)
      else
        let seals := seals.set S.activeKid (used + 1)
        match S.aad C S.activeKid with
        | none => (.error .unicodeEncodeError, seals)
        | some aad => (.ok ⟨S.activeKey, c.nonce.val, body, aad⟩, seals)

/-- The token of an encryption. -/
def tokenOf (e : Encryption) : Str :=
  formatTag ++ 46 :: (S.activeKid ++ 46 :: b64 (e.nonce ++ e.ciphertext C))

/-- `seal`. -/
def sealState (seals : Dict Str Int) (c : SealCall φ) : Except SealError Str × Dict Str Int :=
  match S.prepare C seals c with
  | (.error e, seals) => (.error e, seals)
  | (.ok e, seals) =>
    if maxStateChars < (S.tokenOf C e).length then (.error .tooLarge, seals)
    else (.ok (S.tokenOf C e), seals)

end RequestStateSealer

end Seal

/-! ## The checks of `open` -/

/-- What a caller passes to `open`; a token that is not a `str` is `none`. -/
structure OpenArgs where
  token : Option Str
  principal : Str
  requestId : Str
  tenant : Str
deriving DecidableEq

inductive OpenError where
  | stateVerification
  | unicodeEncodeError
  | overflowError
deriving DecidableEq

/-- The text before and after the first dot. -/
def splitDot (s : Str) : Option (Str × Str) :=
  if 46 ∈ s then some (s.takeWhile (· ≠ 46), (s.dropWhile (· ≠ 46)).drop 1) else none

/-- `token.split(".", 2)`; with fewer than two dots the unpacking raises. -/
def splitToken (token : Str) : Option (Str × Str × Str) := do
  let (fmt, rest) ← splitDot token
  let (kid, blob) ← splitDot rest
  some (fmt, kid, blob)

/-- What the checks before the replay cache leave. The `jti` is checked with `single_use` only. -/
structure Opened (φ : Type) where
  exp : Num φ
  payload : List (Str × Json φ)
  jti : Option Str

section Open

variable {φ : Type} [PyFloat φ]

/-- `if not _eq(v, s): raise StateVerificationError`. -/
def requireEq (v : Option (Json φ)) (s : Str) : Except OpenError Unit :=
  match strEq (v.bind Json.asStr?) s with
  | none => .error .unicodeEncodeError
  | some false => .error .stateVerification
  | some true => .ok ()

/-- The test after the clock reading, left to right: the expiry and the payload. -/
def checkClaims (claims : Json φ) (a : OpenArgs) (now : φ) :
    Except OpenError (Num φ × List (Str × Json φ)) :=
  match (claims.get? (lit "exp")).bind asNum? with
  | none => .error .stateVerification
  | some exp =>
    if exp.le now then .error .stateVerification
    else do
      requireEq (claims.get? (lit "p")) a.principal
      requireEq (claims.get? (lit "t")) a.tenant
      requireEq (claims.get? (lit "r")) a.requestId
      match (claims.get? (lit "d")).bind Json.asDict? with
      | none => .error .stateVerification
      | some payload => .ok (exp, payload)

def requireJti (claims : Json φ) : Except OpenError Str :=
  match (claims.get? (lit "jti")).bind Json.asStr? with
  | none => .error .stateVerification
  | some jti => if jti = [] then .error .stateVerification else .ok jti

namespace RequestStateSealer

variable (C : Crypto) (S : RequestStateSealer)

/-- The nonce and the ciphertext that a token carries, with the key and the data they are to be
decrypted under. -/
def parseToken (token : Option Str) : Option (Bytes × Bytes × Bytes × Bytes) := do
  let token ← token
  let (fmt, kid, blob) ← (if token.length ≤ maxStateChars then splitToken token else none)
  let key ← (if fmt = formatTag then S.keys.get? kid else none)
  let raw ← unb64 blob
  let aad ← (if nonceBytes < raw.length then S.aad C kid else none)
  some (key, raw.take nonceBytes, raw.drop nonceBytes, aad)

/-- The `try` block: every failure in it is a `StateVerificationError`. -/
def readToken (token : Option Str) : Option (Json φ) := do
  let (key, nonce, ciphertext, aad) ← S.parseToken C token
  let body ← C.decrypt key nonce ciphertext aad
  loadsBytes body

/-- `open` up to the replay cache. -/
def openChecks (a : OpenArgs) (now : φ) : Except OpenError (Opened φ) :=
  match S.readToken C a.token with
  | none => .error .stateVerification
  | some claims => do
    let (exp, payload) ← checkClaims claims a now
    if S.singleUse then
      let jti ← requireJti claims
      .ok ⟨exp, payload, some jti⟩
    else .ok ⟨exp, payload, none⟩

end RequestStateSealer

end Open

/-! ## The replay cache -/

/-- `_spent`, `_spent_heap`, `_spent_per_owner` and `_spent_per_tenant`. -/
structure ReplayCache (φ : Type) where
  spent : Dict Str (Str × Str)
  heap : List (FloatOrNan φ × Str)
  perOwner : Dict (Str × Str) Int
  perTenant : Dict Str Int

/-- What the block under the lock takes from the checks: the clock reading is from before. -/
structure Ticket (φ : Type) where
  jti : Str
  exp : Num φ
  owner : Str × Str
  now : φ

namespace ReplayCache

variable {φ : Type}

def init : ReplayCache φ := ⟨.empty, [], .empty, .empty⟩

/-- `_spent.pop(jti, None)` and its counters. -/
def forget (s : ReplayCache φ) (jti : Str) : ReplayCache φ :=
  match s.spent.get? jti with
  | none => s
  | some owner => { s with
      spent := s.spent.erase jti
      perOwner := decrement s.perOwner owner
      perTenant := decrement s.perTenant owner.2 }

def ownerCount (s : ReplayCache φ) (owner : Str × Str) : Int := (s.perOwner.get? owner).getD 0

def tenantCount (s : ReplayCache φ) (tenant : Str) : Int := (s.perTenant.get? tenant).getD 0

/-- The caps, each with its floor. -/
def full (s : ReplayCache φ) (owner : Str × Str) : Bool :=
  let mine := s.ownerCount owner
  let total : Int := s.spent.size
  let inTenant := s.tenantCount owner.2
  maxSpentPerOwner ≤ mine ||
    (maxSpentPerTenant ≤ inTenant && (ownerFloor ≤ mine || 2 * maxSpentPerTenant ≤ inTenant)) ||
    (maxSpentEntries ≤ total && (ownerFloor ≤ mine || 2 * maxSpentEntries ≤ total))

/-- The entry without its expiry. -/
def record (s : ReplayCache φ) (jti : Str) (owner : Str × Str) : ReplayCache φ :=
  { s with
    spent := s.spent.set jti owner
    perOwner := s.perOwner.set owner (s.ownerCount owner + 1)
    perTenant := s.perTenant.set owner.2 (s.tenantCount owner.2 + 1) }

variable [PyFloat φ]

/-- The order of the heap: that of the tuples `(exp, jti)`. -/
def entryLt (a b : FloatOrNan φ × Str) : Bool :=
  match a.1.before b.1 with
  | .lt => true
  | .eq => a.2 < b.2
  | .gt => false

/-- One turn of the purge loop: the first entry, if it has expired. -/
def popExpired (s : ReplayCache φ) (now : φ) : Option (ReplayCache φ) :=
  match heappop entryLt s.heap with
  | none => none
  | some (first, heap) => if first.1.le now then some ({ s with heap }.forget first.2) else none

/-- The purge loop, which the entries of the heap bound. -/
def purgeLoop (now : φ) : Nat → ReplayCache φ → ReplayCache φ
  | 0, s => s
  | n + 1, s =>
    match s.popExpired now with
    | none => s
    | some s => purgeLoop now n s

def purge (s : ReplayCache φ) (now : φ) : ReplayCache φ := purgeLoop now s.heap.length s

/-- The block under the lock. An `OverflowError` of `float(exp)` comes after the entry is made. -/
def redeem (s : ReplayCache φ) (t : Ticket φ) : Except OpenError Unit × ReplayCache φ :=
  let s := s.purge t.now
  if t.jti ∈ s.spent.keys then (.error .stateVerification, s)
  else if s.full t.owner then (.error .stateVerification, s)
  else
    let s := s.record t.jti t.owner
    match t.exp.toFloat? with
    | none => (.error .overflowError, s)
    | some exp => (.ok (), { s with heap := heappush entryLt s.heap (exp, t.jti) })

end ReplayCache

/-- `spent_store.add_if_absent`; `none` is an exception. -/
abbrev SpentStore (φ : Type) := Str → FloatOrNan φ → Option Bool

/-- `open`: with a `spent_store` the store decides, without one the replay cache. -/
def RequestStateSealer.openToken {φ : Type} [PyFloat φ] (C : Crypto) (S : RequestStateSealer)
    (store : Option (SpentStore φ)) (s : ReplayCache φ) (a : OpenArgs) (now : φ) :
    Except OpenError (List (Str × Json φ)) × ReplayCache φ :=
  match S.openChecks C a now with
  | .error e => (.error e, s)
  | .ok o =>
    match o.jti, store with
    | none, _ => (.ok o.payload, s)
    | some jti, some addIfAbsent =>
      match o.exp.toFloat?.bind (addIfAbsent jti) with
      | some true => (.ok o.payload, s)
      | _ => (.error .stateVerification, s)
    | some jti, none =>
      match s.redeem ⟨jti, o.exp, (a.principal, a.tenant), now⟩ with
      | (.ok (), s) => (.ok o.payload, s)
      | (.error e, s) => (.error e, s)

end CosaiMcp.Middleware.State
