import CosaiMcp.Middleware.State.Common
import CosaiMcp.Py.Tally
import Mathlib.Data.Finset.Sort

/-!
# The handle registry

`HandleRegistry` of `middleware/state.py`: server-held references with an owner, a kind and an
expiry. One operation is one critical section, except `revoke`, which is `resolve` followed by
`adminRevoke`. The clock reading an operation takes is its argument `now`; the value that
`secrets.token_urlsafe` would yield is an argument of `mint`.

Times are any type with comparisons and a sum, no laws assumed: `now + ttl` and `now + 1` stand for
whatever sum the clock's number type has, rounding included.
-/

namespace CosaiMcp.Middleware.State

open Py

structure HandleRecord (τ : Type) where
  handle : Str
  principal : Str
  tenant : Str
  kind : Str
  createdAt : τ
  expiresAt : τ
deriving DecidableEq

/-- How a callback ends. One that escapes raises what is no `Exception`, such as `CancelledError` or
`SystemExit`. -/
inductive CallbackOutcome where
  | returns
  | raises
  | escapes
deriving DecidableEq

/-- How `_notify` ends: it raises `RuntimeError` behind its loop if callbacks failed, and what escapes
from a callback leaves the loop. -/
inductive NotifyResult where
  | returned
  | failed (failures : Nat)
  | escaped
deriving DecidableEq

/-- The constructor's arguments. `onRevoke r` says how the callback ends on `r`. -/
structure HandleConfig (τ : Type) where
  maxHandles : Int
  maxHandlesPerPrincipal : Int
  maxHandlesPerTenant : Option Int
  maxTtlSeconds : τ
  onRevoke : Option (HandleRecord τ → CallbackOutcome)

/-- The tenant partition: by default a quarter of the registry. -/
def HandleConfig.maxPerTenant {τ : Type} (cfg : HandleConfig τ) : Int :=
  match cfg.maxHandlesPerTenant with
  | some n => n
  | none => max 1 (cfg.maxHandles / 4)

structure HandleRegistry (τ : Type) where
  records : Dict Str (HandleRecord τ)
  counts : Dict (Str × Str) Int
  tenantCounts : Dict Str Int
  nextPurge : τ

inductive MintError (τ : Type) where
  | ownerRequired
  | ttlOutOfRange (maxTtl : τ)
  | registryFull
  | principalLimit
  | tenantLimit
deriving DecidableEq

inductive ResolveError where
  | handleError
  | unicodeEncodeError
deriving DecidableEq

namespace HandleRecord

variable {τ : Type}

def owner (r : HandleRecord τ) : Str × Str := (r.principal, r.tenant)

/-- `r` belongs to `principal`, within `tenant` if one is given. -/
def belongsTo (r : HandleRecord τ) (principal : Str) (tenant : Option Str) : Bool :=
  r.principal == principal && tenant.all (r.tenant == ·)

variable [LE τ] [DecidableLE τ]

def expired (r : HandleRecord τ) (now : τ) : Bool := r.expiresAt ≤ now

end HandleRecord

namespace HandleRegistry

variable {τ : Type}

def init [Zero τ] : HandleRegistry τ := ⟨.empty, .empty, .empty, 0⟩

def size (s : HandleRegistry τ) : Int := s.records.size

def ownerCount (s : HandleRegistry τ) (owner : Str × Str) : Int := (s.counts.get? owner).getD 0

def tenantCount (s : HandleRegistry τ) (tenant : Str) : Int := (s.tenantCounts.get? tenant).getD 0

/-- `_drop`. -/
def drop (s : HandleRegistry τ) (handle : Str) : Option (HandleRecord τ) × HandleRegistry τ :=
  match s.records.get? handle with
  | none => (none, s)
  | some r => (some r, { s with
      records := s.records.erase handle
      counts := decrement s.counts (r.principal, r.tenant)
      tenantCounts := decrement s.tenantCounts r.tenant })

def dropAll (s : HandleRegistry τ) (handles : List Str) : HandleRegistry τ :=
  handles.foldl (fun s h => (s.drop h).2) s

/-- The insertion at the end of `mint`. -/
def insert (s : HandleRegistry τ) (r : HandleRecord τ) : HandleRegistry τ :=
  { s with
    counts := s.counts.set r.owner (s.ownerCount r.owner + 1)
    tenantCounts := s.tenantCounts.set r.tenant (s.tenantCount r.tenant + 1)
    records := s.records.set r.handle r }

variable [LE τ] [DecidableLE τ] [LT τ] [DecidableLT τ] [Add τ] [Zero τ] [One τ]

def expiredHandles (s : HandleRegistry τ) (now : τ) : List Str :=
  (s.records.items.filter (·.2.expired now)).map Prod.fst

/-- `_purge`: a full sweep, at most once a second unless forced. -/
def purge (s : HandleRegistry τ) (now : τ) (force : Bool) : HandleRegistry τ :=
  if !force ∧ now < s.nextPurge then s
  else { s with nextPurge := now + 1 }.dropAll (s.expiredHandles now)

/-! ## `mint` -/

variable (cfg : HandleConfig τ)

/-- A capacity check: a state at the cap is swept first, and refused if it is still at the cap and
`refuse` holds. -/
def refuseAfterSweep (atCap refuse : HandleRegistry τ → Bool) (e : MintError τ)
    (s : HandleRegistry τ) (now : τ) : Option (MintError τ) × HandleRegistry τ :=
  let s := if atCap s then s.purge now true else s
  if atCap s && refuse s then (some e, s) else (none, s)

/-- The amortised sweep and the global cap. Owners below the floor are admitted up to twice the
cap. -/
def globalCheck (s : HandleRegistry τ) (owner : Str × Str) (now : τ) :
    Option (MintError τ) × HandleRegistry τ :=
  refuseAfterSweep (cfg.maxHandles ≤ ·.size)
    (fun s => ownerFloor ≤ s.ownerCount owner || 2 * cfg.maxHandles ≤ s.size)
    .registryFull (s.purge now false) now

def principalCheck (s : HandleRegistry τ) (owner : Str × Str) (now : τ) :
    Option (MintError τ) × HandleRegistry τ :=
  refuseAfterSweep (cfg.maxHandlesPerPrincipal ≤ ·.ownerCount owner) (fun _ => true)
    .principalLimit s now

def tenantCheck (s : HandleRegistry τ) (owner : Str × Str) (now : τ) :
    Option (MintError τ) × HandleRegistry τ :=
  refuseAfterSweep (cfg.maxPerTenant ≤ ·.tenantCount owner.2)
    (fun s => ownerFloor ≤ s.ownerCount owner || 2 * cfg.maxPerTenant ≤ s.tenantCount owner.2)
    .tenantLimit s now

/-- The three capacity checks in the order of the source, each on the state the last one left. -/
def capacityCheck (s : HandleRegistry τ) (owner : Str × Str) (now : τ) :
    Option (MintError τ) × HandleRegistry τ :=
  match s.globalCheck cfg owner now with
  | (some e, s) => (some e, s)
  | (none, s) =>
    match s.principalCheck cfg owner now with
    | (some e, s) => (some e, s)
    | (none, s) => s.tenantCheck cfg owner now

def mintArgsError (principal tenant : Str) (ttl : τ) : Option (MintError τ) :=
  if principal = [] ∨ tenant = [] then some .ownerRequired
  else if ¬(0 < ttl ∧ ttl ≤ cfg.maxTtlSeconds) then some (.ttlOutOfRange cfg.maxTtlSeconds)
  else none

def mint (s : HandleRegistry τ) (principal tenant kind : Str) (ttl : τ) (handle : Str) (now : τ) :
    Except (MintError τ) Str × HandleRegistry τ :=
  match mintArgsError cfg principal tenant ttl with
  | some e => (.error e, s)
  | none =>
    match s.capacityCheck cfg (principal, tenant) now with
    | (some e, s) => (.error e, s)
    | (none, s) => (.ok handle, s.insert
        { handle, principal, tenant, kind, createdAt := now, expiresAt := now + ttl })

/-! ## `resolve`, the revocations and `list_for_principal` -/

/-- The critical section of `resolve`: an expired record is dropped and not returned. -/
def lookup (s : HandleRegistry τ) (handle : Str) (now : τ) :
    Option (HandleRecord τ) × HandleRegistry τ :=
  match s.records.get? handle with
  | none => (none, s)
  | some r => if r.expired now then (none, (s.drop handle).2) else (some r, s)

/-- The test after the critical section of `resolve`, left to right. -/
def authorize (record : Option (HandleRecord τ)) (principal tenant : Str) (kind : Option Str) :
    Except ResolveError (HandleRecord τ) :=
  match record with
  | none => .error .handleError
  | some r =>
    match strEq (some principal) r.principal with
    | none => .error .unicodeEncodeError
    | some false => .error .handleError
    | some true =>
      match strEq (some tenant) r.tenant with
      | none => .error .unicodeEncodeError
      | some false => .error .handleError
      | some true => if kind.all (r.kind == ·) then .ok r else .error .handleError

/-- A handle argument that is not a `str` is `none`. -/
def resolve (s : HandleRegistry τ) (handle : Option Str) (principal tenant : Str)
    (kind : Option Str) (now : τ) :
    Except ResolveError (HandleRecord τ) × HandleRegistry τ :=
  match handle with
  | none => (.error .handleError, s)
  | some h =>
    if 256 < h.length then (.error .handleError, s)
    else
      let (record, s) := s.lookup h now
      (authorize record principal tenant kind, s)

/-- The critical section of `admin_revoke`. -/
def adminDrop (s : HandleRegistry τ) (handle : Option Str) :
    Option (HandleRecord τ) × HandleRegistry τ :=
  match handle with
  | none => (none, s)
  | some h => s.drop h

/-- The critical section of `revoke_principal`. -/
def dropPrincipal (s : HandleRegistry τ) (principal : Str) (tenant : Option Str) :
    List (HandleRecord τ) × HandleRegistry τ :=
  let doomed := s.records.values.filter (·.belongsTo principal tenant)
  (doomed, s.dropAll (doomed.map (·.handle)))

/-- The loop of `_notify`, with the number of callbacks that have failed. -/
def notifyLoop (onRevoke : HandleRecord τ → CallbackOutcome) :
    Nat → List (HandleRecord τ) → NotifyResult
  | failures, [] => if 0 < failures then .failed failures else .returned
  | failures, r :: rs =>
    match onRevoke r with
    | .returns => notifyLoop onRevoke failures rs
    | .raises => notifyLoop onRevoke (failures + 1) rs
    | .escapes => .escaped

/-- `_notify`. -/
def notify (rs : List (HandleRecord τ)) : NotifyResult :=
  match cfg.onRevoke with
  | none => .returned
  | some onRevoke => notifyLoop onRevoke 0 rs

def listForPrincipal (s : HandleRegistry τ) (principal : Str) (tenant : Option Str) (now : τ) :
    List (HandleRecord τ) × HandleRegistry τ :=
  let s := s.purge now true
  (s.records.values.filter (·.belongsTo principal tenant), s)

end HandleRegistry

/-! ## One call after the other -/

/-- What `secrets.token_urlsafe(32)` yields: 43 characters. -/
abbrev UrlsafeToken := { s : Str // s.length = 43 }

inductive HandleOp (τ : Type) where
  | mint (principal tenant kind : Str) (ttl : τ) (handle : UrlsafeToken)
  | resolve (handle : Option Str) (principal tenant : Str) (kind : Option Str)
  | revoke (handle : Option Str) (principal tenant : Str)
  | adminRevoke (handle : Option Str)
  | revokePrincipal (principal : Str) (tenant : Option Str)
  | listForPrincipal (principal : Str) (tenant : Option Str)

/-- One call, at the time `now`. -/
structure HandleCall (τ : Type) where
  now : τ
  op : HandleOp τ

/-- The record that a `mint` call stores if it is accepted. -/
def HandleCall.record? {τ : Type} [Add τ] (c : HandleCall τ) : Option (HandleRecord τ) :=
  match c.op with
  | .mint principal tenant kind ttl handle =>
    some { handle := handle.val, principal, tenant, kind, createdAt := c.now,
           expiresAt := c.now + ttl }
  | _ => none

/-- What a call returns or raises. A revocation returns the records it removed (`revoke` and
`admin_revoke` return whether there is one), unless `_notify` raises. -/
inductive HandleResult (τ : Type) where
  | minted (handle : Str)
  | mintFailed (e : MintError τ)
  | resolved (r : HandleRecord τ)
  | denied (e : ResolveError)
  | revoked (removed : List (HandleRecord τ)) (notified : NotifyResult)
  | listed (rs : List (HandleRecord τ))
deriving DecidableEq

/-- The handles that a revocation removed. -/
def HandleResult.revokedHandles {τ : Type} : HandleResult τ → List Str
  | .revoked removed _ => removed.map (·.handle)
  | _ => []

namespace HandleRegistry

variable {τ : Type} [LE τ] [DecidableLE τ] [LT τ] [DecidableLT τ] [Add τ] [Zero τ] [One τ]
  (cfg : HandleConfig τ)

def step (s : HandleRegistry τ) (c : HandleCall τ) : HandleResult τ × HandleRegistry τ :=
  match c.op with
  | .mint principal tenant kind ttl handle =>
    match s.mint cfg principal tenant kind ttl handle.val c.now with
    | (.ok h, s) => (.minted h, s)
    | (.error e, s) => (.mintFailed e, s)
  | .resolve handle principal tenant kind =>
    match s.resolve handle principal tenant kind c.now with
    | (.ok r, s) => (.resolved r, s)
    | (.error e, s) => (.denied e, s)
  | .revoke handle principal tenant =>
    match s.resolve handle principal tenant none c.now with
    | (.error e, s) => (.denied e, s)
    | (.ok r, s) =>
      let (removed, s) := s.adminDrop (some r.handle)
      (.revoked removed.toList (notify cfg removed.toList), s)
  | .adminRevoke handle =>
    let (removed, s) := s.adminDrop handle
    (.revoked removed.toList (notify cfg removed.toList), s)
  | .revokePrincipal principal tenant =>
    let (doomed, s) := s.dropPrincipal principal tenant
    (.revoked doomed (notify cfg doomed), s)
  | .listForPrincipal principal tenant =>
    let (rs, s) := s.listForPrincipal principal tenant c.now
    (.listed rs, s)

end HandleRegistry

end CosaiMcp.Middleware.State
