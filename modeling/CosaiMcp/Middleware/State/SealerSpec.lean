import CosaiMcp.Middleware.State.Sealer
import CosaiMcp.Py.Canonical
import CosaiMcp.Py.Except
import CosaiMcp.Run

/-!
# What sealing and opening do

The sealer's operations in terms of what they read and produce: when `prepare` gets to the call of
`encrypt` and with what (`prepare_eq_ok`), what a token is taken apart into (`parseToken_tokenOf`,
`parseToken_eq_some`), that the additional data determine the key id and the audience (`aad_inj`),
what the sealed plaintext is read back as (`loadsBytes_claims`), and when the claim checks pass
(`checkClaims_eq_ok_iff`).

`Crypto.Ideal` says that `AESGCM` is an ideal cipher, relative to a list of all encryptions.
-/

namespace CosaiMcp.Middleware.State

open Py

/-! ## Tokens -/

theorem unb64_b64 (data : Bytes) : unb64 (b64 data) = some data := urlsafeB64decode_rstripPad data

theorem splitDot_append {s : Str} (hs : 46 ∉ s) (t : Str) :
    splitDot (s ++ 46 :: t) = some (s, t) := by
  have hne : ∀ c ∈ s, decide (c ≠ 46) = true := fun c hc => by
    simpa using fun h : c = 46 => hs (h ▸ hc)
  rw [splitDot, if_pos (by simp), List.takeWhile_append_of_pos hne, List.dropWhile_append_of_pos hne]
  simp

theorem isKidChar_or_of_kidMatches {kid : Str} (h : kidMatches kid = true) {c : CodePoint}
    (hc : c ∈ kid) : isKidChar c = true ∨ c = 10 := by
  simp only [kidMatches, Bool.and_eq_true, List.all_eq_true] at h
  split at h
  · rename_i hlast
    obtain ⟨init, rfl⟩ := List.getLast?_eq_some_iff.mp hlast
    rw [List.dropLast_concat] at h
    rcases List.mem_append.mp hc with hc | hc
    · exact .inl (h.2 c hc)
    · exact .inr (List.mem_singleton.mp hc)
  · exact .inl (h.2 c hc)

namespace RequestStateSealer

variable {C : Crypto} {S : RequestStateSealer} {kid : Str}

theorem kidMatches_of_mem (h : kid ∈ S.keys.keys) : kidMatches kid = true := by
  obtain ⟨key, hkey⟩ := Dict.mem_keys_iff.mp h
  have hnone := S.keyError_eq_none hkey
  unfold keyError at hnone
  split at hnone
  · cases hnone
  · rename_i hm; simpa using hm

/-- A configured key id is ASCII, without a dot and without a bar. -/
theorem kid_chars (h : kid ∈ S.keys.keys) : isAscii kid = true ∧ 46 ∉ kid ∧ 124 ∉ kid := by
  have hchars := fun {c} (hc : c ∈ kid) => isKidChar_or_of_kidMatches (kidMatches_of_mem h) hc
  refine ⟨List.all_eq_true.mpr fun c hc => ?_, fun hc => ?_, fun hc => ?_⟩
  · rcases hchars hc with hk | rfl
    · simp only [isKidChar, isDigit, Bool.or_eq_true, Bool.and_eq_true, decide_eq_true_eq,
        beq_iff_eq] at hk
      rcases hk with (((hk | hk) | hk) | rfl) | rfl
      · simp only [decide_eq_true_eq]; omega
      · simp only [decide_eq_true_eq]; omega
      · simp only [decide_eq_true_eq]; omega
      · decide
      · decide
    · decide
  · rcases hchars hc with hk | hk <;> exact absurd hk (by decide)
  · rcases hchars hc with hk | hk <;> exact absurd hk (by decide)

theorem splitToken_tokenOf (e : Encryption) :
    splitToken (S.tokenOf C e) =
      some (formatTag, S.activeKid, b64 (e.nonce ++ e.ciphertext C)) := by
  simp only [splitToken, tokenOf, splitDot_append (show 46 ∉ formatTag by decide),
    splitDot_append (kid_chars S.activeKid_mem).2.1, Option.bind_eq_bind, Option.bind_some]

theorem get?_activeKid (S : RequestStateSealer) : S.keys.get? S.activeKid = some S.activeKey :=
  (Option.some_get _).symm

/-- A token that is taken apart names a configured key id, and stays under the size limit. -/
theorem parseToken_eq_some {token : Option Str} {key nonce ct aad : Bytes}
    (h : S.parseToken C token = some (key, nonce, ct, aad)) :
    ∃ kid ∈ S.keys.keys, S.keys.get? kid = some key ∧ S.aad C kid = some aad := by
  simp only [parseToken, Option.bind_eq_bind, Option.bind_eq_some_iff,
    Option.ite_none_right_eq_some] at h
  obtain ⟨_, -, parts, -, key', ⟨-, hkey⟩, raw, -, aad', ⟨-, haad⟩, h⟩ := h
  cases h
  exact ⟨parts.2.1, Dict.mem_keys_of_get? hkey, hkey, haad⟩

/-- The parts of a token under a sealer that knows its key. -/
theorem parseToken_tokenOf {S' : RequestStateSealer} {e : Encryption} {key aad : Bytes}
    (hsize : (S'.tokenOf C e).length ≤ maxStateChars) (hkey : S.keys.get? S'.activeKid = some key)
    (haad : S.aad C S'.activeKid = some aad) (hnonce : e.nonce.length = nonceBytes)
    (hct : e.ciphertext C ≠ []) :
    S.parseToken C (some (S'.tokenOf C e)) = some (key, e.nonce, e.ciphertext C, aad) := by
  have hlen : nonceBytes < (e.nonce ++ e.ciphertext C).length := by
    have := List.length_pos_iff.mpr hct
    rw [List.length_append]; omega
  have htake : (e.nonce ++ e.ciphertext C).take nonceBytes = e.nonce := by
    rw [← hnonce, List.take_left']; rfl
  have hdrop : (e.nonce ++ e.ciphertext C).drop nonceBytes = e.ciphertext C := by
    rw [← hnonce, List.drop_left']; rfl
  simp only [parseToken, Option.bind_eq_bind, Option.bind_some, hsize, splitToken_tokenOf, hkey,
    unb64_b64, hlen, haad, htake, hdrop, ↓reduceIte]

/-! ## The additional data -/

theorem aad_eq_some {aad : Bytes} (hkid : kid ∈ S.keys.keys) (h : S.aad C kid = some aad) :
    ∃ audience, encodeUtf8 S.audience = some audience ∧
      aad = asciiBytes (lit "cosai-requestState") ++ 124 :: (asciiBytes formatTag ++
        124 :: (asciiBytes kid ++ 124 :: C.sha256 audience)) := by
  rw [RequestStateSealer.aad, encodeUtf8_of_isAscii (by decide), encodeUtf8_of_isAscii (by decide),
    encodeUtf8_of_isAscii (kid_chars hkid).1] at h
  simp only [Option.bind_eq_bind, Option.bind_some] at h
  obtain ⟨audience, haudience, h⟩ := Option.bind_eq_some_iff.mp h
  exact ⟨audience, haudience, (Option.some.inj h).symm⟩

/-- Two texts up to the first bar. -/
theorem append_bar_inj {x y s t : Bytes} (hx : 124 ∉ x) (hy : 124 ∉ y)
    (h : x ++ 124 :: s = y ++ 124 :: t) : x = y ∧ s = t := by
  rcases List.append_eq_append_iff.mp h with ⟨w, rfl, hw⟩ | ⟨w, rfl, hw⟩
  · cases w with
    | nil => exact ⟨(List.append_nil x).symm, (List.cons.inj hw).2⟩
    | cons b w =>
      obtain rfl := (List.cons.inj hw).1
      exact absurd (List.mem_append_right x List.mem_cons_self) hy
  · cases w with
    | nil => exact ⟨List.append_nil y, (List.cons.inj hw).2.symm⟩
    | cons b w =>
      obtain rfl := (List.cons.inj hw).1
      exact absurd (List.mem_append_right y List.mem_cons_self) hx

/-- The additional data determine the key id and the audience. -/
theorem aad_inj (hsha : Function.Injective C.sha256) {S' : RequestStateSealer} {kid' : Str}
    {aad : Bytes} (hkid : kid ∈ S.keys.keys) (hkid' : kid' ∈ S'.keys.keys)
    (h : S.aad C kid = some aad) (h' : S'.aad C kid' = some aad) :
    kid = kid' ∧ S.audience = S'.audience := by
  obtain ⟨audience, haudience, rfl⟩ := aad_eq_some hkid h
  obtain ⟨audience', haudience', heq⟩ := aad_eq_some hkid' h'
  have heq := List.append_cancel_left heq
  have heq := List.append_cancel_left (List.cons.inj heq).2
  have hbar : ∀ {T : RequestStateSealer} {k : Str}, k ∈ T.keys.keys → 124 ∉ asciiBytes k := by
    intro T k hk hmem
    obtain ⟨hascii, -, hbar⟩ := kid_chars hk
    obtain ⟨c, hc, hval⟩ := mem_asciiBytes hascii hmem
    exact hbar ((Fin.ext hval : c = 124) ▸ hc)
  obtain ⟨hk, hx⟩ := append_bar_inj (hbar hkid) (hbar hkid') (List.cons.inj heq).2
  refine ⟨?_, ?_⟩
  · refine encodeUtf8_inj (encodeUtf8_of_isAscii (kid_chars hkid).1) ?_
    rw [hk]
    exact encodeUtf8_of_isAscii (kid_chars hkid').1
  · rw [hsha hx] at haudience
    exact encodeUtf8_inj haudience haudience'

/-! ## Sealing -/

section Seal

variable {φ : Type} [PyFloat φ]

/-- What `seal` has checked and computed when it calls `encrypt`. -/
structure Sealed (C : Crypto) (S : RequestStateSealer) (c : SealCall φ) (e : Encryption) : Prop where
  args : S.sealArgsError c = none
  key : e.key = S.activeKey
  nonce : e.nonce = c.nonce.val
  data : encodeUtf8 (c.claims (S.ttl c)).text = some e.data
  aad : S.aad C S.activeKid = some e.aad

theorem prepare_eq_ok {seals seals' : Dict Str Int} {c : SealCall φ} {e : Encryption}
    (h : S.prepare C seals c = (.ok e, seals')) : Sealed C S c e := by
  unfold prepare at h
  split at h
  · cases h
  · rename_i hargs
    split at h
    · cases h
    · rename_i body hbody
      simp only at h
      split at h
      · cases h
      · split at h
        · cases h
        · rename_i aad haad
          cases h
          exact ⟨hargs, rfl, rfl, hbody, haad⟩

theorem sealState_eq_ok {seals seals' : Dict Str Int} {c : SealCall φ} {token : Str}
    (h : S.sealState C seals c = (.ok token, seals')) :
    ∃ e, S.prepare C seals c = (.ok e, seals') ∧ token = S.tokenOf C e ∧
      token.length ≤ maxStateChars := by
  unfold sealState at h
  split at h
  · cases h
  · rename_i e seals₁ he
    split at h
    · cases h
    · rename_i hsize
      cases h
      exact ⟨e, he, rfl, by omega⟩

end Seal

end RequestStateSealer

/-! ## The sealed plaintext -/

section Claims

variable {φ : Type} [PyFloat φ]

theorem noPair_hexToken (jti : HexToken) : NoPair jti.val := by
  refine noPair_of_isScalar (isScalar_of_isAscii (List.all_eq_true.mpr fun c hc => ?_))
  obtain ⟨n, hn, rfl⟩ := jti.property.2 c hc
  have hall : ∀ n : Fin 16, (hexDigit n.val).val < 0x80 := by decide
  simpa using hall ⟨n, hn⟩

/-- What `json.loads` makes of a sealed plaintext. -/
def SealCall.reloaded (c : SealCall φ) (ttl : Int) : Json φ :=
  .obj [(lit "p", .str (mergePairs c.principal)), (lit "t", .str (mergePairs c.tenant)),
    (lit "r", .str (mergePairs c.requestId)), (lit "exp", .float (c.expiry ttl)),
    (lit "jti", .str c.jti.val), (lit "d", (Json.obj c.payload.items).reload)]

theorem reload_claims (c : SealCall φ) (ttl : Int) : (c.claims ttl).reload = c.reloaded ttl := by
  have hjti := mergePairs_eq_self (noPair_hexToken c.jti)
  rw [SealCall.claims, Json.reload, dictOf_of_nodup]
  · simp only [Json.reloadMembers, Json.reload, hjti]
    rfl
  · simp only [Json.reloadMembers, List.map_cons, List.map_nil]
    decide

/-- The decrypted plaintext of a seal is read back as its claims. -/
theorem loadsBytes_claims {c : SealCall φ} {ttl : Int} {data : Bytes}
    (h : encodeUtf8 (c.claims ttl).text = some data) :
    loadsBytes data = some (c.reloaded ttl) := by
  rw [← reload_claims]
  exact loadsBytes_encodeUtf8 h

omit [PyFloat φ] in
theorem requireEq_eq_ok_iff {v : Option (Json φ)} {s : Str} :
    requireEq v s = .ok () ↔ v.bind Json.asStr? = some s ∧ isScalar s = true := by
  rw [← strEq_eq_true_iff, requireEq]
  cases strEq (v.bind Json.asStr?) s with
  | none => simp
  | some b => cases b <;> simp

/-- When the claim checks pass, and what they leave. -/
theorem checkClaims_eq_ok_iff {claims : Json φ} {a : OpenArgs} {now : φ} {exp : Num φ}
    {payload : List (Str × Json φ)} :
    checkClaims claims a now = .ok (exp, payload) ↔
      (claims.get? (lit "exp")).bind asNum? = some exp ∧ exp.le now = false ∧
      requireEq (claims.get? (lit "p")) a.principal = .ok () ∧
      requireEq (claims.get? (lit "t")) a.tenant = .ok () ∧
      requireEq (claims.get? (lit "r")) a.requestId = .ok () ∧
      (claims.get? (lit "d")).bind Json.asDict? = some payload := by
  unfold checkClaims
  cases (claims.get? (lit "exp")).bind asNum? with
  | none => exact ⟨nofun, nofun⟩
  | some n =>
    simp only [Option.some.injEq]
    by_cases hle : n.le now = true
    · rw [if_pos hle]
      refine ⟨nofun, ?_⟩
      rintro ⟨rfl, hle', -⟩
      exact absurd hle (by simp [hle'])
    · rw [if_neg hle]
      simp only [bind_eq_ok_iff]
      constructor
      · rintro ⟨_, hp, _, ht, _, hr, h⟩
        split at h
        · cases h
        · rename_i hd
          cases h
          exact ⟨rfl, by simpa using hle, hp, ht, hr, hd⟩
      · rintro ⟨rfl, -, hp, ht, hr, hd⟩
        exact ⟨(), hp, (), ht, (), hr, by rw [hd]⟩

/-- The claim checks pass on the claims of a seal exactly for its owner, request and tenant, before
its expiry. -/
theorem checkClaims_reloaded_iff {c : SealCall φ} {ttl : Int} {a : OpenArgs} {now : φ} {exp : Num φ}
    {payload : List (Str × Json φ)} :
    checkClaims (c.reloaded ttl) a now = .ok (exp, payload) ↔
      exp = .float (.real (c.expiry ttl)) ∧ now < c.expiry ttl ∧
      (mergePairs c.principal = a.principal ∧ isScalar a.principal = true) ∧
      (mergePairs c.tenant = a.tenant ∧ isScalar a.tenant = true) ∧
      (mergePairs c.requestId = a.requestId ∧ isScalar a.requestId = true) ∧
      (Json.obj c.payload.items).reload = .obj payload := by
  have hexp : ((c.reloaded ttl).get? (lit "exp")).bind asNum? =
      some (.float (.real (c.expiry ttl))) := rfl
  have hp : ((c.reloaded ttl).get? (lit "p")).bind Json.asStr? = some (mergePairs c.principal) := rfl
  have ht : ((c.reloaded ttl).get? (lit "t")).bind Json.asStr? = some (mergePairs c.tenant) := rfl
  have hr : ((c.reloaded ttl).get? (lit "r")).bind Json.asStr? = some (mergePairs c.requestId) := rfl
  have hd : (c.reloaded ttl).get? (lit "d") = some (Json.obj c.payload.items).reload := rfl
  have hdict : (some (Json.obj c.payload.items).reload).bind Json.asDict? = some payload ↔
      (Json.obj c.payload.items).reload = .obj payload := by
    rw [Json.reload]
    simp [Json.asDict?]
  rw [checkClaims_eq_ok_iff]
  simp only [requireEq_eq_ok_iff, hexp, hp, ht, hr, hd, hdict, Option.some.injEq]
  constructor
  · rintro ⟨rfl, hle, h⟩
    exact ⟨rfl, PyFloat.not_le.mp (by simpa [Num.le, FloatOrNan.le] using hle), h⟩
  · rintro ⟨rfl, hlt, h⟩
    exact ⟨rfl, by simpa [Num.le, FloatOrNan.le] using PyFloat.not_le.mpr hlt, h⟩

theorem requireJti_reloaded (c : SealCall φ) (ttl : Int) :
    requireJti (c.reloaded ttl) = .ok c.jti.val := by
  have hget : ((c.reloaded ttl).get? (lit "jti")).bind Json.asStr? = some c.jti.val := rfl
  have hne : c.jti.val ≠ [] := by
    intro h
    have := c.jti.property.1
    rw [h] at this
    cases this
  rw [requireJti, hget]
  simp only [hne, ↓reduceIte]

/-- When `open` gets to the replay cache. -/
theorem openChecks_eq_ok_iff {C : Crypto} {S : RequestStateSealer} {a : OpenArgs} {now : φ}
    {o : Opened φ} :
    S.openChecks C a now = .ok o ↔
      ∃ claims, S.readToken C a.token = some claims ∧
        checkClaims claims a now = .ok (o.exp, o.payload) ∧
        if S.singleUse then ∃ jti, requireJti claims = .ok jti ∧ o.jti = some jti
        else o.jti = none := by
  obtain ⟨exp, payload, jti?⟩ := o
  unfold RequestStateSealer.openChecks
  cases (S.readToken C a.token : Option (Json φ)) with
  | none => exact ⟨nofun, fun ⟨_, h, _⟩ => by cases h⟩
  | some claims =>
    simp only [bind_eq_ok_iff, Option.some.injEq, exists_eq_left', Prod.exists]
    cases S.singleUse with
    | true =>
      simp only [↓reduceIte, bind_eq_ok_iff, Except.ok.injEq, Opened.mk.injEq]
      constructor
      · rintro ⟨_, _, hc, jti, hj, rfl, rfl, rfl⟩; exact ⟨hc, jti, hj, rfl⟩
      · rintro ⟨hc, jti, hj, rfl⟩; exact ⟨_, _, hc, jti, hj, rfl, rfl, rfl⟩
    | false =>
      simp only [Bool.false_eq_true, ↓reduceIte, Except.ok.injEq, Opened.mk.injEq]
      constructor
      · rintro ⟨_, _, hc, rfl, rfl, rfl⟩; exact ⟨hc, rfl⟩
      · rintro ⟨hc, rfl⟩; exact ⟨_, _, hc, rfl, rfl, rfl⟩

end Claims

/-! ## An ideal cipher -/

/-- `AESGCM` as an ideal cipher, relative to all the encryptions made with it: decryption undoes
each of them, the tag is appended, and nothing else is decrypted. -/
structure Crypto.Ideal (C : Crypto) (log : List Encryption) : Prop where
  undoes : ∀ e ∈ log, C.decrypt e.key e.nonce (e.ciphertext C) e.aad = some e.data
  tagged : ∀ e ∈ log, (e.ciphertext C).length = e.data.length + 16
  only : ∀ key nonce ct aad, C.decrypt key nonce ct aad ≠ none →
    ∃ e ∈ log, e.key = key ∧ e.nonce = nonce ∧ e.ciphertext C = ct ∧ e.aad = aad

/-- A cipher that looks its plaintexts up in the list of all encryptions. -/
def Crypto.ofLog (log : List Encryption) : Crypto where
  sha256 := id
  encrypt _ _ data _ := data ++ List.replicate 16 0
  decrypt key nonce ct aad :=
    (log.find? fun e => e.key = key ∧ e.nonce = nonce ∧ e.data ++ List.replicate 16 0 = ct ∧
      e.aad = aad).map (·.data)

theorem Crypto.ofLog_ideal (log : List Encryption) : (Crypto.ofLog log).Ideal log where
  undoes e he := by
    simp only [Encryption.ciphertext, Crypto.ofLog]
    cases hf : log.find? fun e' => decide (e'.key = e.key ∧ e'.nonce = e.nonce ∧
        e'.data ++ List.replicate 16 0 = e.data ++ List.replicate 16 0 ∧ e'.aad = e.aad) with
    | none => simpa using List.find?_eq_none.mp hf e he
    | some e' =>
      have hmatch := List.find?_some hf
      simp only [decide_eq_true_eq] at hmatch
      rw [Option.map_some, List.append_cancel_right hmatch.2.2.1]
  tagged e _ := by simp [Encryption.ciphertext, Crypto.ofLog]
  only key nonce ct aad h := by
    obtain ⟨data, hdata⟩ := Option.ne_none_iff_exists'.mp h
    obtain ⟨e, he, -⟩ := Option.map_eq_some_iff.mp hdata
    have hmatch := List.find?_some he
    simp only [decide_eq_true_eq] at hmatch
    exact ⟨e, List.mem_of_find?_eq_some he, hmatch⟩

/-! ## A family of sealers -/

section Family

variable {φ ι : Type} [PyFloat φ]

/-- What one call of `seal` leaves behind: an encryption if it got that far, and its outcome. -/
structure SealResult where
  encryption : Option Encryption
  token : Except SealError Str

variable [DecidableEq ι] (C : Crypto) (family : ι → RequestStateSealer)

/-- One call of `seal` on one sealer of the family. The state is the `_seals` of each. -/
def sealStep (seals : ι → Dict Str Int) (call : ι × SealCall φ) :
    SealResult × (ι → Dict Str Int) :=
  let (token, seals') := (family call.1).sealState C (seals call.1) call.2
  (⟨((family call.1).prepare C (seals call.1) call.2).1.toOption, token⟩,
    Function.update seals call.1 seals')

/-- All the encryptions of a run. -/
def encryptions (trace : List ((ι × SealCall φ) × SealResult)) : List Encryption :=
  trace.filterMap (·.2.encryption)

variable {C family} {seals : ι → Dict Str Int} {calls : List (ι × SealCall φ)} {i : ι}
  {c : SealCall φ} {r : SealResult}

theorem sealed_of_mem_trace (h : ((i, c), r) ∈ Run.trace (sealStep C family) seals calls)
    {e : Encryption} (he : r.encryption = some e) : (family i).Sealed C c e := by
  obtain ⟨-, seals', rfl⟩ := Run.mem_trace (sealStep C family) h
  simp only [sealStep] at he
  cases hp : (family i).prepare C (seals' i) c with
  | mk outcome seals'' =>
    rw [hp] at he
    cases outcome with
    | error _ => cases he
    | ok e' =>
      cases he
      exact RequestStateSealer.prepare_eq_ok hp

theorem token_of_mem_trace (h : ((i, c), r) ∈ Run.trace (sealStep C family) seals calls)
    {token : Str} (ht : r.token = .ok token) :
    ∃ e, r.encryption = some e ∧ token = (family i).tokenOf C e ∧
      token.length ≤ maxStateChars := by
  obtain ⟨-, seals', rfl⟩ := Run.mem_trace (sealStep C family) h
  have hseal : (family i).sealState C (seals' i) c =
      (.ok token, ((family i).sealState C (seals' i) c).2) := Prod.ext ht rfl
  obtain ⟨e, he, htoken, hsize⟩ := RequestStateSealer.sealState_eq_ok hseal
  refine ⟨e, ?_, htoken, hsize⟩
  simp only [sealStep, he]
  rfl

variable {S : RequestStateSealer}

/-- A token that can be read carries an encryption of the run, and the claims of its seal. -/
theorem readToken_eq_some
    (hideal : C.Ideal (encryptions (Run.trace (sealStep C family) seals calls)))
    {token : Option Str} {claims : Json φ} (h : S.readToken C token = some claims) :
    ∃ i c r e, ((i, c), r) ∈ Run.trace (sealStep C family) seals calls ∧ r.encryption = some e ∧
      S.parseToken C token = some (e.key, e.nonce, e.ciphertext C, e.aad) ∧
      claims = c.reloaded ((family i).ttl c) := by
  obtain ⟨⟨key, nonce, ct, aad⟩, hparse, h⟩ := Option.bind_eq_some_iff.mp h
  obtain ⟨body, hbody, h⟩ := Option.bind_eq_some_iff.mp h
  obtain ⟨e, he, rfl, rfl, rfl, rfl⟩ := hideal.only key nonce ct aad (by rw [hbody]; nofun)
  obtain ⟨⟨⟨i, c⟩, r⟩, hmem, hr⟩ := List.mem_filterMap.mp he
  have hsealed := sealed_of_mem_trace hmem hr
  rw [hideal.undoes e he] at hbody
  obtain rfl := Option.some.inj hbody
  rw [loadsBytes_claims hsealed.data] at h
  exact ⟨i, c, r, e, hmem, hr, hparse, (Option.some.inj h).symm⟩

/-- A token that a seal returned is read by every sealer with its key and audience. -/
theorem readToken_token
    (hideal : C.Ideal (encryptions (Run.trace (sealStep C family) seals calls)))
    (h : ((i, c), r) ∈ Run.trace (sealStep C family) seals calls) {token : Str}
    (ht : r.token = .ok token) (haudience : S.audience = (family i).audience)
    (hkey : S.keys.get? (family i).activeKid = some (family i).activeKey) :
    S.readToken C (some token) = some (c.reloaded ((family i).ttl c)) := by
  obtain ⟨e, he, rfl, hsize⟩ := token_of_mem_trace h ht
  have hsealed := sealed_of_mem_trace h he
  have hmem : e ∈ encryptions (Run.trace (sealStep C family) seals calls) :=
    List.mem_filterMap.mpr ⟨_, h, he⟩
  have hct : e.ciphertext C ≠ [] := fun h => by
    have := hideal.tagged e hmem
    rw [h, List.length_nil] at this
    omega
  have haad : S.aad C (family i).activeKid = some e.aad := by
    rw [← hsealed.aad, RequestStateSealer.aad, RequestStateSealer.aad, haudience]
  have hnonce : e.nonce.length = nonceBytes := hsealed.nonce ▸ c.nonce.property
  rw [RequestStateSealer.readToken,
    RequestStateSealer.parseToken_tokenOf hsize hkey haad hnonce hct]
  simp only [Option.bind_eq_bind, Option.bind_some]
  rw [← hsealed.key, hideal.undoes e hmem]
  exact loadsBytes_claims hsealed.data

end Family

/-! ## A sealer on which the model can be run -/

section Sample

variable {φ ι : Type} [PyFloat φ] [DecidableEq ι]

/-- A cipher that is ideal for a given run. -/
def Crypto.ofRun (family : ι → RequestStateSealer) (seals : ι → Dict Str Int)
    (calls : List (ι × SealCall φ)) : Crypto :=
  .ofLog (encryptions (Run.trace (sealStep (.ofLog []) family) seals calls))

/-- What a run encrypts depends on the hash only. -/
theorem Crypto.ofRun_ideal (family : ι → RequestStateSealer) (seals : ι → Dict Str Int)
    (calls : List (ι × SealCall φ)) : (Crypto.ofRun family seals calls).Ideal
      (encryptions (Run.trace (sealStep (.ofRun family seals calls) family) seals calls)) :=
  Crypto.ofLog_ideal _

def sampleSealer : RequestStateSealer where
  keys := ⟨[(lit "k1", (List.range 32).map (Fin.ofNat _))], by decide⟩
  activeKid := lit "k1"
  audience := lit "https://mcp.example.com/mcp"
  defaultTtlSeconds := 300
  singleUse := true
  valid := by decide +kernel

def sampleJti (n : Nat) : HexToken :=
  ⟨List.replicate 32 (hexDigit (n % 16)), List.length_replicate, fun c hc =>
    ⟨n % 16, Nat.mod_lt n (by decide), List.eq_of_mem_replicate hc⟩⟩

/-- The `n`-th seal of a sample run: at time zero, for `ttl` seconds. -/
def sampleSeal (n : Nat) (payload : Str) (ttl : Int) : SealCall WholeFloat where
  payload := ⟨[(lit "step", .str payload)], List.nodup_singleton _⟩
  principal := lit "alice"
  requestId := lit "tools/call"
  tenant := lit "acme"
  ttlSeconds := some ttl
  now := .whole 0
  jti := sampleJti n
  nonce := ⟨List.replicate nonceBytes (Fin.ofNat _ n), List.length_replicate⟩

end Sample

end CosaiMcp.Middleware.State
