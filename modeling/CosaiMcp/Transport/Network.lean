import CosaiMcp.Py.Except
import CosaiMcp.Py.IpAddress

/-!
# The network allowlist

The blocks of addresses that are not to be reached (`is_private_address`, `is_always_blocked`), and
the two places that go by them: the choice of an address for a host (`resolveAndPin`) and the check
of a URL before containment acts on it (`assertEgressAllowed`). The resolver and `urlparse` are
parameters.
-/

namespace CosaiMcp.Transport

open Py

/-! ## Blocks -/

inductive Block where
  | v4 (n : Network 32)
  | v6 (n : Network 128)

/-- `ip in net`, which is false for the other version. -/
def Block.contains : Block → IpAddress → Bool
  | .v4 n, .v4 ip => n.contains ip
  | .v6 n, .v6 ip _ => n.contains ip
  | .v4 _, .v6 _ _ => false
  | .v6 _, .v4 _ => false

theorem no_host_bits_loopback4 : (0x7f000000 : BitVec 32) &&& netmask 32 8 = 0x7f000000 := by
  decide

theorem no_host_bits_loopback6 : (1 : BitVec 128) &&& netmask 128 128 = 1 := by decide

theorem no_host_bits_linkLocal4 : (0xa9fe0000 : BitVec 32) &&& netmask 32 16 = 0xa9fe0000 := by
  decide

theorem no_host_bits_unspecified4 : (0 : BitVec 32) &&& netmask 32 32 = 0 := by decide

def rfc1918 : List Block :=
  [.v4 ⟨0x0a000000, 8, by decide⟩, .v4 ⟨0xac100000, 12, by decide⟩,
    .v4 ⟨0xc0a80000, 16, by decide⟩]

def linkLocal : List Block :=
  [.v4 ⟨0xa9fe0000, 16, no_host_bits_linkLocal4⟩,
    .v6 ⟨0xfe800000000000000000000000000000, 10, by decide⟩]

def loopback : List Block :=
  [.v4 ⟨0x7f000000, 8, no_host_bits_loopback4⟩, .v6 ⟨1, 128, no_host_bits_loopback6⟩]

def ula : List Block := [.v6 ⟨0xfc000000000000000000000000000000, 7, by decide⟩]

def alwaysBlocked : List Block := ula

def privateBlocks : List Block := rfc1918 ++ linkLocal ++ loopback

/-! ## Checks of an address -/

inductive NetworkError where
  /-- An `OSError` of the resolver. -/
  | resolver
  | cannotResolve
  /-- A `ValueError`, of `ip_address`, `urlparse` or the encoding of a host name. -/
  | valueError
  | alwaysBlocked (ip : Str)
  | privateAddress (ip : Str)
  | disallowedScheme (scheme : Str)
  | noHost
deriving DecidableEq

/-- `_parse_ip`. -/
def parseIp (ip : Str) : Except NetworkError IpAddress :=
  match ipAddress ip with
  | none => .error .valueError
  | some a => .ok a

def isPrivateAddress (ip : Str) : Except NetworkError Bool := do
  let parsed ← parseIp ip
  return privateBlocks.any (·.contains parsed)

def isAlwaysBlocked (ip : Str) : Except NetworkError Bool := do
  let parsed ← parseIp ip
  return alwaysBlocked.any (·.contains parsed)

/-- The checks that both callers make of an address. -/
def checkIp (allowPrivate : Bool) (ip : Str) : Except NetworkError Unit := do
  let blocked ← isAlwaysBlocked ip
  if blocked then throw (.alwaysBlocked ip)
  let isPrivate ← isPrivateAddress ip
  if isPrivate && !allowPrivate then throw (.privateAddress ip)

/-! ## Resolving -/

/-- An answer of the resolver: its family and the text of its address. -/
structure Answer where
  /-- `AF_INET`. -/
  inet : Bool
  ip : Str

/-- `results.sort(key=lambda r: 0 if r[0] == AF_INET else 1)`. -/
def preferIPv4 (results : List Answer) : List Answer :=
  results.filter (·.inet) ++ results.filter (!·.inet)

/-- How the lookup of a host name raises: with an `OSError`, or with the `UnicodeError` of a name that
cannot be encoded, such as `a..b`. -/
inductive HostError where
  | os
  | unicode
deriving DecidableEq

/-- `getaddrinfo`. -/
abbrev Resolver := Str → Except HostError (List Answer)

def getaddrinfo (resolver : Resolver) (hostname : Str) : Except NetworkError (List Answer) :=
  match resolver hostname with
  | .error .os => .error .resolver
  | .error .unicode => .error .valueError
  | .ok results => .ok results

def resolveAndPin (resolver : Resolver) (allowPrivateTargets : Bool) (hostname : Str) :
    Except NetworkError Str := do
  let results ← getaddrinfo resolver hostname
  match preferIPv4 results with
  | [] => throw .cannotResolve
  | first :: _ =>
    checkIp allowPrivateTargets first.ip
    return first.ip

/-- `urlparse` of a URL: scheme and host, `none` where it raises. -/
abbrev UrlParser := Str → Option (Str × Option Str)

def assertEgressAllowed (urlparse : UrlParser) (resolver : Resolver) (allowPrivate : Bool)
    (url : Str) : Except NetworkError Unit := do
  match urlparse url with
  | none => throw .valueError
  | some (scheme, hostname) =>
    if scheme ≠ lit "http" ∧ scheme ≠ lit "https" then throw (.disallowedScheme scheme)
    let hostname := hostname.getD []
    if hostname = [] then throw .noHost
    let results ← getaddrinfo resolver hostname
    if results.isEmpty then throw .cannotResolve
    results.forM fun res => checkIp allowPrivate res.ip

end CosaiMcp.Transport
