import CosaiMcp.Transport.Network

/-!
# What the network allowlist lets through

An address denotes an endpoint, of IPv4 if it is an IPv4 address mapped into IPv6. The blocks are
exactly the internal endpoints of either version (`refused_iff`), but an address is looked up as it
is written, so that an internal IPv4 endpoint gets through as a mapped address, and only so
(`denotesInternal_iff`).
-/

namespace CosaiMcp.Transport

open Py

/-! ## Internal endpoints -/

inductive Endpoint where
  | v4 (ip : BitVec 32)
  | v6 (ip : BitVec 128)

namespace Endpoint

def dotted (a b c d : Nat) : Nat := ((a * 256 + b) * 256 + c) * 256 + d

def Loopback : Endpoint → Prop
  | .v4 ip => dotted 127 0 0 0 ≤ ip.toNat ∧ ip.toNat ≤ dotted 127 255 255 255
  | .v6 ip => ip.toNat = 1

def Rfc1918 : Endpoint → Prop
  | .v4 ip =>
    dotted 10 0 0 0 ≤ ip.toNat ∧ ip.toNat ≤ dotted 10 255 255 255 ∨
    dotted 172 16 0 0 ≤ ip.toNat ∧ ip.toNat ≤ dotted 172 31 255 255 ∨
    dotted 192 168 0 0 ≤ ip.toNat ∧ ip.toNat ≤ dotted 192 168 255 255
  | .v6 _ => False

def LinkLocal : Endpoint → Prop
  | .v4 ip => dotted 169 254 0 0 ≤ ip.toNat ∧ ip.toNat ≤ dotted 169 254 255 255
  | .v6 ip => 0xfe80 * 2 ^ 112 ≤ ip.toNat ∧ ip.toNat < 0xfec0 * 2 ^ 112

def Ula : Endpoint → Prop
  | .v4 _ => False
  | .v6 ip => 0xfc00 * 2 ^ 112 ≤ ip.toNat ∧ ip.toNat < 0xfe00 * 2 ^ 112

def Internal (e : Endpoint) : Prop := e.Loopback ∨ e.Rfc1918 ∨ e.LinkLocal ∨ e.Ula

end Endpoint

/-- The endpoint of the version that the address is written in. -/
def asWritten : IpAddress → Endpoint
  | .v4 ip => .v4 ip
  | .v6 ip _ => .v6 ip

/-- `::ffff:a.b.c.d`. -/
def IsMapped (ip : BitVec 128) : Prop := ip.toNat / 2 ^ 32 = 0xffff

instance (ip : BitVec 128) : Decidable (IsMapped ip) := inferInstanceAs (Decidable (_ = _))

def mappedIPv4 (ip : BitVec 128) : BitVec 32 := ip.setWidth 32

/-- The endpoint that a connection to the address reaches. -/
def endpoint : IpAddress → Endpoint
  | .v4 ip => .v4 ip
  | .v6 ip _ => if IsMapped ip then .v4 (mappedIPv4 ip) else .v6 ip

/-! ## The blocks -/

/-- The address is in one of the blocks. -/
def refused (a : IpAddress) : Bool :=
  alwaysBlocked.any (·.contains a) || privateBlocks.any (·.contains a)

/-- The blocks hold exactly the internal endpoints. -/
theorem refused_iff (a : IpAddress) : refused a = true ↔ (asWritten a).Internal := by
  cases a with
  | v4 ip =>
    simp only [refused, alwaysBlocked, ula, privateBlocks, rfc1918, linkLocal, loopback,
      List.any_cons, List.any_nil, List.cons_append, List.nil_append, Block.contains,
      Bool.or_eq_true, Bool.or_false, Bool.false_or, Network.contains_iff, Network.size, asWritten,
      Endpoint.Internal, Endpoint.Loopback, Endpoint.Rfc1918, Endpoint.LinkLocal, Endpoint.Ula,
      Endpoint.dotted, BitVec.reduceToNat, Nat.reduceSub, Nat.reducePow, or_false]
    constructor <;> omega
  | v6 ip scopeId =>
    simp only [refused, alwaysBlocked, ula, privateBlocks, rfc1918, linkLocal, loopback,
      List.any_cons, List.any_nil, List.cons_append, List.nil_append, Block.contains,
      Bool.or_eq_true, Bool.or_false, Bool.false_or, Network.contains_iff, Network.size, asWritten,
      Endpoint.Internal, Endpoint.Loopback, Endpoint.Rfc1918, Endpoint.LinkLocal, Endpoint.Ula,
      BitVec.reduceToNat, Nat.reduceSub, Nat.reducePow, false_or]
    constructor <;> omega

/-! ## Addresses that are let through -/

/-- The text is an address of an internal endpoint. -/
def DenotesInternal (ip : Str) : Prop := ∃ a, ipAddress ip = some a ∧ (endpoint a).Internal

/-- The text is an IPv6 address that an internal IPv4 address is mapped to. -/
def MapsInternal (ip : Str) : Prop :=
  ∃ n scopeId, ipAddress ip = some (.v6 n scopeId) ∧ IsMapped n ∧
    (Endpoint.v4 (mappedIPv4 n)).Internal

/-- The text is an address outside of all blocks. -/
def Accepted (ip : Str) : Prop := ∃ a, ipAddress ip = some a ∧ refused a = false

/-- The block of the mapped addresses lies outside of all blocks. -/
theorem not_internal_of_isMapped {n : BitVec 128} (h : IsMapped n) : ¬ (Endpoint.v6 n).Internal := by
  unfold IsMapped at h
  simp only [Endpoint.Internal, Endpoint.Loopback, Endpoint.Rfc1918, Endpoint.LinkLocal,
    Endpoint.Ula, false_or, not_or]
  omega

theorem accepted_of_mapsInternal {ip : Str} (h : MapsInternal ip) : Accepted ip := by
  obtain ⟨n, scopeId, hip, hmapped, -⟩ := h
  refine ⟨_, hip, ?_⟩
  rw [Bool.eq_false_iff, Ne, refused_iff]
  exact not_internal_of_isMapped hmapped

/-- An accepted address denotes an internal endpoint only as a mapped one. -/
theorem denotesInternal_iff {ip : Str} (h : Accepted ip) : DenotesInternal ip ↔ MapsInternal ip := by
  obtain ⟨a, hip, haccepted⟩ := h
  rw [Bool.eq_false_iff, Ne, refused_iff] at haccepted
  constructor
  · rintro ⟨a', hip', hinternal⟩
    cases hip.symm.trans hip'
    cases a with
    | v4 n => exact absurd hinternal haccepted
    | v6 n scopeId =>
      by_cases hmapped : IsMapped n
      · rw [endpoint, if_pos hmapped] at hinternal
        exact ⟨n, scopeId, hip, hmapped, hinternal⟩
      · rw [endpoint, if_neg hmapped] at hinternal
        exact absurd hinternal haccepted
  · rintro ⟨n, scopeId, hip', hmapped, hinternal⟩
    refine ⟨_, hip', ?_⟩
    rw [endpoint, if_pos hmapped]
    exact hinternal

/-- Without the permission, the checks of an address go through exactly if it is accepted. -/
theorem checkIp_eq_ok_iff {ip : Str} : checkIp false ip = .ok () ↔ Accepted ip := by
  unfold checkIp isAlwaysBlocked isPrivateAddress parseIp Accepted
  cases hip : ipAddress ip with
  | none =>
    constructor
    · intro h
      cases h
    · rintro ⟨a, ha, -⟩
      cases ha
  | some a =>
    have hrefused : (∃ a', some a = some a' ∧ refused a' = false) ↔ refused a = false := by simp
    rw [hrefused, refused, Bool.or_eq_false_iff]
    cases hblocked : alwaysBlocked.any (·.contains a) <;>
      cases hprivate : privateBlocks.any (·.contains a) <;>
      simp [bind, Except.bind, hblocked, hprivate, pure, Except.pure, throw, throwThe,
        MonadExceptOf.throw]

/-! ## The callers -/

/-- The answer that a host is pinned to: the first one of IPv4, or the first one. -/
def preferred (resolver : Resolver) (hostname : Str) : Option Answer :=
  (resolver hostname).toOption.bind fun results => (preferIPv4 results).head?

/-- A host is pinned to the answer that is preferred, if that passes. -/
theorem resolveAndPin_eq_ok {resolver : Resolver} {allowPrivate : Bool} {hostname ip : Str} :
    resolveAndPin resolver allowPrivate hostname = .ok ip ↔
      ∃ answer, preferred resolver hostname = some answer ∧
        checkIp allowPrivate answer.ip = .ok () ∧ answer.ip = ip := by
  unfold resolveAndPin getaddrinfo preferred
  cases resolver hostname with
  | error e =>
    constructor
    · intro h
      cases e <;> cases h
    · rintro ⟨answer, h, -⟩
      cases h
  | ok results =>
    rw [ok_bind, Except.toOption, Option.bind_some]
    cases preferIPv4 results with
    | nil =>
      constructor
      · intro h
        cases h
      · rintro ⟨answer, h, -⟩
        cases h
    | cons answer rest =>
      have hcheck : (do checkIp allowPrivate answer.ip; return answer.ip) = Except.ok ip ↔
          checkIp allowPrivate answer.ip = .ok () ∧ answer.ip = ip := by
        rw [bind_eq_ok_iff]
        constructor
        · rintro ⟨⟨⟩, hok, h⟩
          cases h
          exact ⟨hok, rfl⟩
        · rintro ⟨hok, rfl⟩
          exact ⟨⟨⟩, hok, rfl⟩
      rw [List.head?_cons]
      constructor
      · intro h
        exact ⟨answer, rfl, hcheck.mp h⟩
      · rintro ⟨answer', hanswer, h⟩
        cases hanswer
        exact hcheck.mpr h

theorem resolveAndPin_eq_ok_iff {resolver : Resolver} {hostname ip : Str} :
    resolveAndPin resolver false hostname = .ok ip ↔
      ∃ answer, preferred resolver hostname = some answer ∧ Accepted answer.ip ∧ answer.ip = ip := by
  simp only [resolveAndPin_eq_ok, checkIp_eq_ok_iff]

/-- What the host of a URL resolves to, if containment gets to look at that. -/
def urlAnswers (urlparse : UrlParser) (resolver : Resolver) (url : Str) : Option (List Answer) :=
  match urlparse url with
  | none => none
  | some (scheme, hostname) =>
    if scheme ≠ lit "http" ∧ scheme ≠ lit "https" ∨ hostname.getD [] = [] then none
    else (resolver (hostname.getD [])).toOption

theorem assertEgressAllowed_eq_ok_iff {urlparse : UrlParser} {resolver : Resolver} {url : Str} :
    assertEgressAllowed urlparse resolver false url = .ok () ↔
      ∃ results, urlAnswers urlparse resolver url = some results ∧ results ≠ [] ∧
        ∀ answer ∈ results, Accepted answer.ip := by
  unfold assertEgressAllowed urlAnswers getaddrinfo
  cases urlparse url with
  | none => simp [throw, throwThe, MonadExceptOf.throw]
  | some p =>
    obtain ⟨scheme, hostname⟩ := p
    by_cases hscheme : scheme ≠ lit "http" ∧ scheme ≠ lit "https"
    · simp [hscheme, throw, throwThe, MonadExceptOf.throw, bind, Except.bind]
    by_cases hhost : hostname.getD [] = []
    · simp [hscheme, hhost, throw, throwThe, MonadExceptOf.throw, bind, Except.bind]
    simp only [if_neg hscheme, if_neg hhost, if_neg (not_or.mpr ⟨hscheme, hhost⟩)]
    cases resolver (hostname.getD []) with
    | error e => cases e <;> simp [bind, Except.bind, Except.toOption]
    | ok results =>
      cases results with
      | nil => simp [throw, throwThe, MonadExceptOf.throw, bind, Except.bind, Except.toOption]
      | cons answer rest =>
        have hloop : (answer :: rest).forM (fun res => checkIp false res.ip) = .ok () ↔
            ∀ res ∈ answer :: rest, Accepted res.ip :=
          forM_eq_ok_iff.trans (forall₂_congr fun _ _ => checkIp_eq_ok_iff)
        constructor
        · intro h
          exact ⟨_, rfl, List.cons_ne_nil _ _, hloop.mp h⟩
        · rintro ⟨results, hresults, -, hall⟩
          cases hresults
          exact hloop.mpr hall

/-- Neither caller lets an internal endpoint through, unless as a mapped address: one that a host is
pinned to, or one among the answers for a URL none of which is refused. -/
theorem allowlist_complete_iff (urlparse : UrlParser) (resolver : Resolver) (hostname url : Str) :
    ((∀ ip, resolveAndPin resolver false hostname = .ok ip → ¬ DenotesInternal ip) ↔
      ∀ answer, preferred resolver hostname = some answer → ¬ MapsInternal answer.ip) ∧
    ((assertEgressAllowed urlparse resolver false url = .ok () →
        ∀ results, urlAnswers urlparse resolver url = some results →
          ∀ answer ∈ results, ¬ DenotesInternal answer.ip) ↔
      ∀ results, urlAnswers urlparse resolver url = some results →
        ∀ answer ∈ results, MapsInternal answer.ip → ∃ other ∈ results, ¬ Accepted other.ip) := by
  constructor
  · constructor
    · intro h answer hanswer hmaps
      have haccepted := accepted_of_mapsInternal hmaps
      have hok := resolveAndPin_eq_ok_iff.mpr ⟨answer, hanswer, haccepted, rfl⟩
      exact h _ hok ((denotesInternal_iff haccepted).mpr hmaps)
    · intro h ip hok hinternal
      obtain ⟨answer, hanswer, haccepted, rfl⟩ := resolveAndPin_eq_ok_iff.mp hok
      exact h answer hanswer ((denotesInternal_iff haccepted).mp hinternal)
  · constructor
    · intro h results hresults answer hanswer hmaps
      by_contra hall
      have haccepted : ∀ other ∈ results, Accepted other.ip := by
        intro other hother
        by_contra hnot
        exact hall ⟨other, hother, hnot⟩
      have hok := assertEgressAllowed_eq_ok_iff.mpr
        ⟨results, hresults, List.ne_nil_of_mem hanswer, haccepted⟩
      exact h hok results hresults answer hanswer
        ((denotesInternal_iff (haccepted answer hanswer)).mpr hmaps)
    · intro h hok results hresults answer hanswer hinternal
      obtain ⟨results', hresults', -, haccepted⟩ := assertEgressAllowed_eq_ok_iff.mp hok
      cases hresults.symm.trans hresults'
      have hmaps := (denotesInternal_iff (haccepted answer hanswer)).mp hinternal
      obtain ⟨other, hother, hnot⟩ := h results hresults answer hanswer hmaps
      exact hnot (haccepted other hother)

/-! ## A mapped loopback address -/

def mappedLoopback : Str := lit "::ffff:127.0.0.1"

def mappedResolver : Resolver := fun _ => .ok [⟨false, mappedLoopback⟩]

/-- A host is pinned to a mapped loopback address, and a URL of that host is let through. -/
theorem mapped_loopback_allowed :
    resolveAndPin mappedResolver false (lit "evil") = .ok mappedLoopback ∧
    assertEgressAllowed (fun _ => some (lit "http", some (lit "evil"))) mappedResolver false
      (lit "http://evil/") = .ok () ∧
    DenotesInternal mappedLoopback := by
  have hip : ipAddress mappedLoopback = some (.v6 0xffff7f000001 none) := by decide
  refine ⟨by decide, by decide, _, hip, ?_⟩
  rw [endpoint, if_pos (by decide)]
  refine .inl ?_
  unfold Endpoint.Loopback
  decide

end CosaiMcp.Transport
