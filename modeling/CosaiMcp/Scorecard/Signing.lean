import CosaiMcp.Py.Base64
import CosaiMcp.Py.Canonical
import CosaiMcp.Scorecard.Builder
import CosaiMcp.Scorecard.Serial

/-!
# Signing a scorecard

A scorecard is signed over the canonical text of its document without the key and the signature
(`signableDict`), and verified against the trusted key. The signature scheme is a parameter, and so
is what the environment and the keyring hold.
-/

namespace CosaiMcp.Scorecard

open Py

variable {φ κ : Type}

/-! ## Hexadecimal texts -/

/-- `b.hex()`. -/
def hexOf (b : Bytes) : Str := b.flatMap fun x => [hexDigit (x.val / 16), hexDigit (x.val % 16)]

def isHexSpace (c : CodePoint) : Bool := c = 32 || (9 ≤ c.val && c.val ≤ 13)

/-- `bytes.fromhex(s)`, which skips white space between bytes; `none` is `ValueError`. -/
def fromHex : Str → Option Bytes
  | [] => some []
  | [c] => if isHexSpace c then some [] else none
  | c :: d :: s =>
    if isHexSpace c then fromHex (d :: s)
    else do
      let high ← hexValue? c
      let low ← hexValue? d
      let bytes ← fromHex s
      some (Fin.ofNat _ (16 * high + low) :: bytes)

theorem fromHex_hexOf (b : Bytes) : fromHex (hexOf b) = some b := by
  induction b with
  | nil => rfl
  | cons x b ih =>
    have hdigits : ∀ x : Fin 16, isHexSpace (hexDigit x.val) = false ∧
        hexValue? (hexDigit x.val) = some x.val := by decide
    obtain ⟨hspace, hhigh⟩ := hdigits ⟨x.val / 16, by omega⟩
    obtain ⟨-, hlow⟩ := hdigits ⟨x.val % 16, by omega⟩
    have hbyte : Fin.ofNat 256 (16 * (x.val / 16) + x.val % 16) = x :=
      Fin.ext (by rw [Nat.div_add_mod]; exact Nat.mod_eq_of_lt x.isLt)
    have hcons : hexOf (x :: b) =
        hexDigit (x.val / 16) :: hexDigit (x.val % 16) :: hexOf b := rfl
    rw [hcons, fromHex, if_neg (by rw [hspace]; exact Bool.false_ne_true), hhigh, hlow, ih]
    exact congrArg (fun y => some (y :: b)) hbyte

/-! ## Keys -/

/-- Ed25519, as `cryptography` has it. -/
structure Ed25519 (κ : Type) where
  publicBytes : κ → Bytes
  sign : κ → Bytes → Bytes
  /-- `verify(public, signature, payload)` does not raise. -/
  verify : Bytes → Bytes → Bytes → Bool
  verify_sign : ∀ k m, verify (publicBytes k) (sign k m) m = true
  length_publicBytes : ∀ k, (publicBytes k).length = 32
  length_sign : ∀ k m, (sign k m).length = 64

inductive VerificationError where
  | unsigned
  | malformed
  /-- A pinned key that is set and no key. -/
  | trustAnchor
  | noTrustAnchor
  | untrustedKey
  | invalidSignature

/-- Where keys come from. -/
structure KeyStore (κ : Type) where
  /-- `COSAI_SCORECARD_PUBKEY`. -/
  pinned : Str
  /-- `org_signing_key()`; an error is `OrgSigningKeyError`. -/
  org : Except Unit (Option κ)
  /-- The key of the installation, if there is a keyring. -/
  keyring : Option κ

/-- `_get_or_create_private_key`. -/
def KeyStore.privateKey (ks : KeyStore κ) : Except SignError κ :=
  match ks.org with
  | .error () => .error .orgSigningKey
  | .ok (some k) => .ok k
  | .ok none =>
    match ks.keyring with
    | none => .error .other
    | some k => .ok k

/-- `_get_trusted_public_key_bytes`. -/
def KeyStore.trusted (E : Ed25519 κ) (ks : KeyStore κ) : Except VerificationError (Option Bytes) :=
  if ks.pinned ≠ [] then
    match b64decodeValidate ks.pinned with
    | none => .error .trustAnchor
    | some raw => if raw.length ≠ 32 then .error .trustAnchor else .ok (some raw)
  else
    match ks.org with
    | .error () => .error .trustAnchor
    | .ok (some k) => .ok (some (E.publicBytes k))
    | .ok none => .ok (ks.keyring.map E.publicBytes)

/-! ## Signing and verifying -/

variable [FloatText φ]

/-- `_canonical_bytes`: the text is ASCII. -/
def canonicalBytes (d : Json φ) : Bytes := asciiBytes d.canonical

omit [FloatText φ] in
/-- `_signable_dict`. -/
def signableDict (s : Scorecard φ) : Json φ :=
  match s.toDict with
  | .obj ms => .obj (ms.filter fun m => m.1 ≠ lit "public_key" && m.1 ≠ lit "signature")
  | d => d

def signWith (E : Ed25519 κ) (k : κ) (s : Scorecard φ) : Scorecard φ :=
  { s with
    publicKey := hexOf (E.publicBytes k)
    signature := hexOf (E.sign k (canonicalBytes (signableDict s))) }

def signScorecard (E : Ed25519 κ) (ks : KeyStore κ) (s : Scorecard φ) :
    Except SignError (Scorecard φ) :=
  ks.privateKey.map fun k => signWith E k s

/-- `verify_scorecard` against a trusted key. -/
def verifyAgainst (E : Ed25519 κ) (trusted : Except VerificationError (Option Bytes))
    (s : Scorecard φ) : Except VerificationError Unit :=
  if !s.isSigned then .error .unsigned
  else
    match fromHex s.publicKey with
    | none => .error .malformed
    | some artifact =>
      match trusted with
      | .error e => .error e
      | .ok none => .error .noTrustAnchor
      | .ok (some key) =>
        if artifact ≠ key then .error .untrustedKey
        else
          match fromHex s.signature with
          | none => .error .invalidSignature
          | some signature =>
            if E.verify artifact signature (canonicalBytes (signableDict s)) then .ok ()
            else .error .invalidSignature

def verifyScorecard (E : Ed25519 κ) (ks : KeyStore κ) (s : Scorecard φ) :
    Except VerificationError Unit :=
  verifyAgainst E (ks.trusted E) s

/-! ## Their specifications -/

omit [FloatText φ] in
theorem signableDict_eq (s : Scorecard φ) :
    signableDict s = .obj (s.head ++ assuranceMember s.assurance) := by
  rw [signableDict, Scorecard.toDict]
  cases s.assurance with
  | none => rfl
  | some r => rfl

omit [FloatText φ] in
theorem nodup_signable (s : Scorecard φ) :
    ((s.head ++ assuranceMember s.assurance).map Prod.fst).Nodup := by
  cases s.assurance <;>
    simp only [Scorecard.head, assuranceMember, List.map_cons, List.map_nil, List.map_append] <;>
    decide

theorem signableDict_signWith (E : Ed25519 κ) (k : κ) (s : Scorecard φ) :
    signableDict (signWith E k s) = signableDict s := by
  rw [signableDict_eq, signableDict_eq]
  rfl

theorem canonicalBytes_inj {d e : Json φ} :
    canonicalBytes d = canonicalBytes e ↔ d.canonical = e.canonical := by
  refine ⟨fun h => ?_, fun h => congrArg asciiBytes h⟩
  have hd := encodeUtf8_of_isAscii (isAscii_canonical d)
  have he := encodeUtf8_of_isAscii (isAscii_canonical e)
  exact encodeUtf8_inj hd (he.trans (congrArg some h.symm))

/-- A scorecard passes just when the trusted key verifies its signature over its own bytes. -/
theorem verifyAgainst_eq_ok_iff {E : Ed25519 κ} {key : Bytes} {s : Scorecard φ} :
    verifyAgainst E (.ok (some key)) s = .ok () ↔
      s.isSigned = true ∧ fromHex s.publicKey = some key ∧ ∃ signature,
        fromHex s.signature = some signature ∧
          E.verify key signature (canonicalBytes (signableDict s)) = true := by
  unfold verifyAgainst
  cases hsigned : s.isSigned with
  | false => exact ⟨nofun, fun h => nomatch h.1⟩
  | true =>
    rw [if_neg (by simp)]
    cases fromHex s.publicKey with
    | none => exact ⟨nofun, fun h => nomatch h.2.1⟩
    | some artifact =>
      simp only [true_and, Option.some.injEq]
      by_cases hkey : artifact = key
      · subst hkey
        rw [if_neg (fun h => h rfl)]
        cases fromHex s.signature with
        | none => exact ⟨nofun, fun ⟨_, _, h, _⟩ => nomatch h⟩
        | some signature =>
          simp only
          split
          · next hverify => exact ⟨fun _ => ⟨trivial, signature, rfl, hverify⟩, fun _ => rfl⟩
          · next hverify =>
            refine ⟨nofun, fun ⟨_, other, hother, h⟩ => ?_⟩
            cases hother
            exact absurd h hverify
      · rw [if_pos hkey]
        exact ⟨nofun, fun h => absurd h.1 hkey⟩

end CosaiMcp.Scorecard
