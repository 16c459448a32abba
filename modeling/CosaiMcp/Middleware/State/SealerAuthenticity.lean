import CosaiMcp.Middleware.State.SealerSpec

/-!
# Authenticity of sealed state

What a family of sealers, possibly with common keys, seals and opens. Under an ideal cipher and an
injective hash, `open` gets to the replay cache exactly with the seals of its audience and of a key
that it has, for their principal, tenant and request and before their expiry, and it yields what was
sealed (`sealed_state_authentic`).

The payload is what it was only if none of its strings, keys included, has a high surrogate right
before a low one: `json.dumps` writes both as escapes, which `json.loads` takes for one code point
(`surrogates_joined`).
-/

namespace CosaiMcp.Middleware.State

open Py

section Family

variable {φ ι : Type} [PyFloat φ] [DecidableEq ι] {C : Crypto} {family : ι → RequestStateSealer}
  {seals : ι → Dict Str Int} {calls : List (ι × SealCall φ)}

/-- What `seal` is given is plain text, and the payload has no surrogate pair. -/
structure SealCall.Plain (c : SealCall φ) : Prop where
  principal : isScalar c.principal = true
  tenant : isScalar c.tenant = true
  requestId : isScalar c.requestId = true
  payload : (Json.obj c.payload.items).Stable

/-- `S` has the audience and the key of `T`, and the seal `c` of `T` has not expired. -/
structure Redeemable (S T : RequestStateSealer) (c : SealCall φ) (now : φ) : Prop where
  audience : S.audience = T.audience
  key : S.keys.get? T.activeKid = some T.activeKey
  unexpired : now < c.expiry (T.ttl c)

/-- The call `c` of the sealer `T` made the nonce and the ciphertext of the token. -/
def SealedIn (C : Crypto) (S T : RequestStateSealer) (c : SealCall φ) (r : SealResult)
    (token : Option Str) : Prop :=
  ∃ e, r.encryption = some e ∧ T.Sealed C c e ∧
    S.parseToken C token = some (T.activeKey, c.nonce.val, e.ciphertext C, e.aad)

omit [PyFloat φ] in
theorem reload_payload {c : SealCall φ} (h : c.Plain) :
    (Json.obj c.payload.items).reload = .obj c.payload.items :=
  Json.reload_eq_self _ h.payload

/-- A token that names its seal's additional data is opened under the seal's key id and audience. -/
theorem redeemable_of_parseToken (hsha : Function.Injective C.sha256) {S T : RequestStateSealer}
    {c : SealCall φ} {e : Encryption} {token : Option Str} {now : φ} (hsealed : T.Sealed C c e)
    (hparse : S.parseToken C token = some (e.key, e.nonce, e.ciphertext C, e.aad))
    (hnow : now < c.expiry (T.ttl c)) : Redeemable S T c now := by
  obtain ⟨kid, hkid, hkey, haad⟩ := RequestStateSealer.parseToken_eq_some hparse
  obtain ⟨rfl, haudience⟩ :=
    RequestStateSealer.aad_inj hsha hkid T.activeKid_mem haad hsealed.aad
  exact ⟨haudience, by rw [hkey, hsealed.key], hnow⟩

/-- Sealed state is authentic, and comes back. The first part is about any token: what `S` opens was
sealed, with this payload and for this owner and request, on a sealer of the same audience and under
a key of `S`. The second part is about the tokens that such seals returned. -/
theorem sealed_state_authentic (hsha : Function.Injective C.sha256)
    (hideal : C.Ideal (encryptions (Run.trace (sealStep C family) seals calls)))
    (hplain : ∀ call ∈ calls, call.2.Plain) (S : RequestStateSealer) (now : φ) :
    (∀ a o, S.openChecks C a now = .ok o →
      ∃ i c r, ((i, c), r) ∈ Run.trace (sealStep C family) seals calls ∧
        SealedIn C S (family i) c r a.token ∧ Redeemable S (family i) c now ∧
        c.payload.items = o.payload ∧ c.principal = a.principal ∧ c.requestId = a.requestId ∧
        c.tenant = a.tenant) ∧
    ∀ i c r token, ((i, c), r) ∈ Run.trace (sealStep C family) seals calls →
      r.token = .ok token → Redeemable S (family i) c now →
      ∃ o, S.openChecks C ⟨some token, c.principal, c.requestId, c.tenant⟩ now = .ok o ∧
        o.payload = c.payload.items := by
  refine ⟨fun a o h => ?_, fun i c r token hmem htoken hS => ?_⟩
  · obtain ⟨claims, hread, hclaims, -⟩ := openChecks_eq_ok_iff.mp h
    obtain ⟨i, c, r, e, hmem, he, hparse, rfl⟩ := readToken_eq_some hideal hread
    have hsealed := sealed_of_mem_trace hmem he
    have hc := hplain _ (Run.mem_trace _ hmem).1
    obtain ⟨-, hnow, ⟨hp, -⟩, ⟨ht, -⟩, ⟨hr, -⟩, hd⟩ := checkClaims_reloaded_iff.mp hclaims
    rw [mergePairs_eq_self (noPair_of_isScalar hc.principal)] at hp
    rw [mergePairs_eq_self (noPair_of_isScalar hc.tenant)] at ht
    rw [mergePairs_eq_self (noPair_of_isScalar hc.requestId)] at hr
    rw [reload_payload hc] at hd
    refine ⟨i, c, r, hmem, ⟨e, he, hsealed, ?_⟩,
      redeemable_of_parseToken hsha hsealed hparse hnow, Json.obj.inj hd, hp, hr, ht⟩
    rw [← hsealed.key, ← hsealed.nonce]
    exact hparse
  · have hc := hplain _ (Run.mem_trace _ hmem).1
    have hread := readToken_token hideal hmem htoken hS.audience hS.key
    have hclaims : checkClaims (c.reloaded ((family i).ttl c))
        ⟨some token, c.principal, c.requestId, c.tenant⟩ now = .ok (_, c.payload.items) :=
      checkClaims_reloaded_iff.mpr ⟨rfl, hS.unexpired,
        ⟨mergePairs_eq_self (noPair_of_isScalar hc.principal), hc.principal⟩,
        ⟨mergePairs_eq_self (noPair_of_isScalar hc.tenant), hc.tenant⟩,
        ⟨mergePairs_eq_self (noPair_of_isScalar hc.requestId), hc.requestId⟩, reload_payload hc⟩
    refine ⟨⟨_, c.payload.items, if S.singleUse then some c.jti.val else none⟩,
      openChecks_eq_ok_iff.mpr ⟨_, hread, hclaims, ?_⟩, rfl⟩
    split
    · exact ⟨_, requireJti_reloaded c _, rfl⟩
    · rfl

end Family

/-! ## One seal -/

section Sample

/-- A run of one seal, on one sealer, of a payload of one string. -/
def oneSeal (payload : Str) : List (Unit × SealCall WholeFloat) := [((), sampleSeal 1 payload 10)]

def oneSealer : Unit → RequestStateSealer := fun _ => sampleSealer

def noSeals : Unit → Dict Str Int := fun _ => .empty

def oneSealCipher (payload : Str) : Crypto := .ofRun oneSealer noSeals (oneSeal payload)

def oneSealResult (payload : Str) : SealResult :=
  (sealStep (oneSealCipher payload) oneSealer noSeals ((), sampleSeal 1 payload 10)).1

def oneSealTrace (payload : Str) : List ((Unit × SealCall WholeFloat) × SealResult) :=
  Run.trace (sealStep (oneSealCipher payload) oneSealer) noSeals (oneSeal payload)

/-- The sealer opens a token for the owner and the request of the seal, before its expiry. -/
def openSample (payload token : Str) : Except OpenError (Opened WholeFloat) :=
  sampleSealer.openChecks (oneSealCipher payload)
    ⟨some token, lit "alice", lit "tools/call", lit "acme"⟩ (.whole 5)

theorem mem_oneSealTrace (payload : Str) :
    (((), sampleSeal 1 payload 10), oneSealResult payload) ∈ oneSealTrace payload :=
  List.mem_singleton_self _

theorem redeemable_sample (payload : Str) :
    Redeemable sampleSealer sampleSealer (sampleSeal 1 payload 10) (.whole 5) := by
  refine ⟨rfl, sampleSealer.get?_activeKid, PyFloat.not_le.mp ?_⟩
  show ¬ WholeFloat.whole 10 ≤ WholeFloat.whole 5
  decide

theorem sealed_state_authentic_one_seal :
    ∃ token o, (oneSealResult (lit "two")).token = .ok token ∧
      openSample (lit "two") token = .ok o ∧ o.payload = [(lit "step", .str (lit "two"))] ∧
      ∃ i c r, ((i, c), r) ∈ oneSealTrace (lit "two") ∧ c.payload.items = o.payload := by
  have hplain : ∀ call ∈ oneSeal (lit "two"), call.2.Plain := by
    intro call hcall
    obtain rfl := List.mem_singleton.mp hcall
    exact ⟨by decide, by decide, by decide, List.nodup_singleton _,
      noPair_of_isScalar (by decide), noPair_of_isScalar (by decide), trivial⟩
  obtain ⟨hsound, hcomplete⟩ := sealed_state_authentic (C := oneSealCipher (lit "two"))
    Function.injective_id (Crypto.ofRun_ideal _ _ _) hplain sampleSealer (.whole 5)
  obtain ⟨token, htoken⟩ := exists_eq_ok (x := (oneSealResult (lit "two")).token)
    (by decide +kernel)
  obtain ⟨o, ho, hd⟩ := hcomplete () _ _ token (mem_oneSealTrace _) htoken (redeemable_sample _)
  obtain ⟨i, c, r, hmem, -, -, hc, -⟩ := hsound _ o ho
  exact ⟨token, o, htoken, ho, hd, i, c, r, hmem, hc⟩

/-- A high and a low surrogate. -/
def surrogatePair : Str := [0xD83D, 0xDE00]

/-- A high and a low surrogate are sealed, and one code point comes back. -/
theorem surrogates_joined :
    Function.Injective (oneSealCipher surrogatePair).sha256 ∧
    (oneSealCipher surrogatePair).Ideal (encryptions (oneSealTrace surrogatePair)) ∧
    ∃ token o, (oneSealResult surrogatePair).token = .ok token ∧
      Redeemable sampleSealer sampleSealer (sampleSeal 1 surrogatePair 10) (.whole 5) ∧
      openSample surrogatePair token = .ok o ∧ o.payload = [(lit "step", .str [0x1F600])] ∧
      o.payload ≠ (sampleSeal 1 surrogatePair 10).payload.items := by
  have hideal : (oneSealCipher surrogatePair).Ideal (encryptions (oneSealTrace surrogatePair)) :=
    Crypto.ofRun_ideal _ _ _
  obtain ⟨token, htoken⟩ := exists_eq_ok (x := (oneSealResult surrogatePair).token)
    (by decide +kernel)
  have hS := redeemable_sample surrogatePair
  have hread := readToken_token hideal (mem_oneSealTrace _) htoken hS.audience hS.key
  have hclaims : checkClaims ((sampleSeal 1 surrogatePair 10).reloaded 10)
      ⟨some token, lit "alice", lit "tools/call", lit "acme"⟩ (.whole 5) =
        .ok (_, [(lit "step", .str [0x1F600])]) :=
    checkClaims_reloaded_iff.mpr
      ⟨rfl, hS.unexpired, ⟨rfl, rfl⟩, ⟨rfl, rfl⟩, ⟨rfl, rfl⟩, rfl⟩
  refine ⟨Function.injective_id, hideal, token,
    ⟨_, [(lit "step", .str [0x1F600])], some (sampleJti 1).val⟩, htoken, hS,
    openChecks_eq_ok_iff.mpr ⟨_, hread, hclaims, _, requireJti_reloaded _ _, rfl⟩, rfl, fun h => ?_⟩
  have hs : ([0x1F600] : Str) = surrogatePair := Json.str.inj (Prod.mk.inj (List.cons.inj h).1).2
  exact absurd hs (by decide)

end Sample

end CosaiMcp.Middleware.State
