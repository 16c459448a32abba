import CosaiMcp.Middleware.Auth.DPoPReplay

/-!
# What a proof of possession can raise

`verify_dpop_proof` promises `DPoP_ProofError` on any check that fails, but three of its checks
raise something else on a JSON value of another type than they expect, and the last check, that of
`ath`, comes after the proof has been recorded as used. `Regular` says what must not happen for a
call to raise nothing but `DPoP_ProofError` and to record nothing when it raises; it is necessary
too (`verifyDpopProof_total_atomic_iff`).
-/

namespace CosaiMcp.Middleware.Auth

open Py

/-- The errors that are `DPoP_ProofError`. -/
def SessionError.isProofError : SessionError → Prop
  | .typeError | .valueError | .overflowError | .attributeError | .unicodeEncodeError => False
  | _ => True

variable {φ κ : Type} [FloatArith φ] {rt : Runtime φ κ}

/-! ## The header and the signature -/

/-- The first of three parts of a proof decodes to the JSON value. -/
def HeaderIs (proof : Str) (v : Json φ) : Prop :=
  ∃ part payload signature, proof.splitOn 46 = [part, payload, signature] ∧
    (b64urlDecode part).bind loadsBytes = some v

/-- What the header is, once the parts of the proof are known. -/
theorem headerIs_iff {proof part payload signature : Str}
    (hparts : proof.splitOn 46 = [part, payload, signature]) {v : Json φ} :
    HeaderIs proof v ↔ (b64urlDecode part).bind loadsBytes = some v := by
  constructor
  · rintro ⟨part', payload', signature', hparts', h⟩
    rw [hparts] at hparts'
    cases hparts'
    exact h
  · exact fun h => ⟨part, payload, signature, hparts, h⟩

theorem proofHeader_eq_ok_iff {proof : Str} {header : List (Str × Json φ)} :
    proofHeader proof = .ok header ↔ HeaderIs proof (.obj header) := by
  unfold proofHeader
  split
  · next part payload signature hparts =>
    rw [headerIs_iff hparts]
    split
    · next h => simp only [h, reduceCtorEq]
    · next h => rw [h]; simp only [Except.ok.injEq, Option.some.injEq, Json.obj.injEq]
    · next v hv h =>
      rw [h, Option.some.injEq]
      exact ⟨nofun, fun hobj => absurd hobj (hv header)⟩
  · next hparts =>
    refine ⟨nofun, ?_⟩
    rintro ⟨part, payload, signature, h, -⟩
    exact absurd h (hparts part payload signature)

theorem raisesOnly_proofHeader_iff {proof : Str} :
    RaisesOnly SessionError.isProofError (proofHeader (φ := φ) proof) ↔
      ∀ v : Json φ, HeaderIs proof v → ∃ header, v = .obj header := by
  unfold proofHeader
  split
  · next part payload signature hparts =>
    simp only [headerIs_iff hparts]
    split
    · next h =>
      refine ⟨fun _ v hv => ?_, fun _ => raisesOnly_error_iff.mpr trivial⟩
      cases h.symm.trans hv
    · next header h =>
      refine ⟨fun _ v hv => ⟨header, ?_⟩, fun _ => raisesOnly_ok _⟩
      exact Option.some.inj (hv.symm.trans h)
    · next v hv h =>
      rw [raisesOnly_error_iff]
      refine ⟨False.elim, fun hobj => ?_⟩
      obtain ⟨header, rfl⟩ := hobj v h
      exact hv header rfl
  · next hparts =>
    refine ⟨fun _ v => ?_, fun _ => raisesOnly_error_iff.mpr trivial⟩
    rintro ⟨part, payload, signature, h, -⟩
    exact absurd h (hparts part payload signature)

/-- `header.get("alg", "")`. -/
def headerAlg (header : List (Str × Json φ)) : Json φ :=
  ((Json.obj header).get? (lit "alg")).getD (.str [])

/-- The proof is signed with the key in its own header, and these are its claims. -/
def Verified (rt : Runtime φ κ) (proof : Str) (claims : List (Str × Json φ)) : Prop :=
  ∃ header jwk key decoded, HeaderIs proof (.obj header) ∧
    (claim header (lit "typ")).asStr? = some (lit "dpop+jwt") ∧
    (headerAlg header).truthy = true ∧ (headerAlg header).asStr? ≠ some (lit "none") ∧
    claim header (lit "jwk") = .obj jwk ∧ (claim jwk (lit "kty")).asStr? = some (lit "OKP") ∧
    rt.importKey jwk = some key ∧ rt.decode proof key [headerAlg header] = some (decoded, claims)

theorem proofClaims_eq_ok_iff {proof : Str} {claims : List (Str × Json φ)} :
    proofClaims rt proof = .ok claims ↔ Verified rt proof claims := by
  constructor
  · intro h
    obtain ⟨header, hheader, h⟩ := bind_eq_ok_iff.mp h
    obtain ⟨htyp, h⟩ := ite_error_eq_ok_iff.mp h
    obtain ⟨halg, h⟩ := ite_error_eq_ok_iff.mp h
    split at h
    · next jwk hjwk =>
      obtain ⟨hkty, h⟩ := ite_error_eq_ok_iff.mp h
      split at h
      · cases h
      · next key hkey =>
        split at h
        · cases h
        · next decoded claims' hdecode =>
          cases h
          obtain ⟨htruthy, hnone⟩ := not_or.mp halg
          exact ⟨header, jwk, key, decoded, proofHeader_eq_ok_iff.mp hheader, not_not.mp htyp,
            Bool.eq_true_of_not_eq_false htruthy, hnone, hjwk, not_not.mp hkty, hkey, hdecode⟩
    · cases h
  · rintro ⟨header, jwk, key, decoded, hheader, htyp, htruthy, hnone, hjwk, hkty, hkey, hdecode⟩
    refine bind_eq_ok_iff.mpr ⟨header, proofHeader_eq_ok_iff.mpr hheader, ?_⟩
    refine ite_error_eq_ok_iff.mpr ⟨not_not.mpr htyp, ?_⟩
    refine ite_error_eq_ok_iff.mpr ⟨not_or.mpr ⟨Bool.not_eq_false _ ▸ htruthy, hnone⟩, ?_⟩
    rw [hjwk]
    refine ite_error_eq_ok_iff.mpr ⟨not_not.mpr hkty, ?_⟩
    unfold headerAlg at hdecode
    simp only [hkey, hdecode]

/-- Past the header, every failure is a `DPoP_ProofError`. -/
theorem raisesOnly_proofClaims_iff {proof : Str} :
    RaisesOnly SessionError.isProofError (proofClaims rt proof) ↔
      ∀ v : Json φ, HeaderIs proof v → ∃ header, v = .obj header := by
  rw [proofClaims, raisesOnly_bind_iff, raisesOnly_proofHeader_iff, and_iff_left_iff_imp]
  intro _ header _
  refine (raisesOnly_ite_error_iff trivial).mpr fun _ => ?_
  refine (raisesOnly_ite_error_iff trivial).mpr fun _ => ?_
  split
  · refine (raisesOnly_ite_error_iff trivial).mpr fun _ => ?_
    split
    · exact raisesOnly_error_iff.mpr trivial
    · split
      · exact raisesOnly_error_iff.mpr trivial
      · exact raisesOnly_ok _
  · exact raisesOnly_error_iff.mpr trivial

/-! ## The checks of the claims -/

theorem not_isProofError_of_operand {v : Json φ} {e : SessionError} (h : operand v = .error e) :
    ¬e.isProofError := by
  unfold operand at h
  split at h
  · cases h
    exact id
  · split at h
    · cases h
      exact id
    · cases h

theorem not_isProofError_of_floatOf {v : Json φ} {e : SessionError}
    (h : floatOf rt v = .error e) : ¬e.isProofError := by
  unfold floatOf at h
  split at h
  · split at h
    · cases h
      exact id
    · cases h
  · exact not_isProofError_of_operand h

theorem raisesOnly_isStale_iff {claims : List (Str × Json φ)} {now maxAge : φ} :
    RaisesOnly SessionError.isProofError (isStale rt claims now maxAge) ↔
      ((claim claims (lit "iat")).isNull = false →
        ∃ iat, floatOf rt (claim claims (lit "iat")) = .ok iat) := by
  rw [isStale, raisesOnly_ite_error_iff trivial, raisesOnly_bind_iff, Bool.not_eq_true]
  refine imp_congr_right fun _ => ?_
  constructor
  · rintro ⟨h, -⟩
    cases hiat : floatOf rt (claim claims (lit "iat")) with
    | error e => exact absurd (h e hiat) (not_isProofError_of_floatOf hiat)
    | ok iat => exact ⟨iat, rfl⟩
  · rintro ⟨iat, hiat⟩
    rw [hiat]
    exact ⟨raisesOnly_ok _, fun _ _ => raisesOnly_ok _⟩

/-- `claims.get("htm", "")`. -/
def methodClaim (claims : List (Str × Json φ)) : Json φ :=
  ((Json.obj claims).get? (lit "htm")).getD (.str [])

/-- `str(claims.get("jti", ""))`. -/
def jtiClaim (rt : Runtime φ κ) (claims : List (Str × Json φ)) : Str :=
  rt.strOf (((Json.obj claims).get? (lit "jti")).getD (.str []))

/-- The proof is for the method and the URL of the request. -/
def Addressed (rt : Runtime φ κ) (a : ProofArgs φ) (claims : List (Str × Json φ)) : Prop :=
  (∃ htm, methodClaim claims = .str htm ∧ rt.upper htm = rt.upper a.expectedMethod) ∧
    (claim claims (lit "htu")).asStr? = some a.expectedUrl

/-- The proof passes every check before the replay cache. -/
structure Passes (rt : Runtime φ κ) (a : ProofArgs φ) (now : φ) (claims : List (Str × Json φ)) :
    Prop where
  verified : Verified rt a.proof claims
  addressed : Addressed rt a claims
  timely : isStale rt claims now a.maxAge = .ok false
  identified : jtiClaim rt claims ≠ []

theorem checkProof_eq_ok_iff {a : ProofArgs φ} {now : φ} {claims : List (Str × Json φ)}
    {jti : Str} :
    checkProof rt a now = .ok (claims, jti) ↔ Passes rt a now claims ∧ jti = jtiClaim rt claims := by
  constructor
  · intro h
    obtain ⟨claims', hclaims, h⟩ := bind_eq_ok_iff.mp h
    split at h
    · next htm hhtm =>
      obtain ⟨hmethod, h⟩ := ite_error_eq_ok_iff.mp h
      obtain ⟨hurl, h⟩ := ite_error_eq_ok_iff.mp h
      obtain ⟨stale, hstale, h⟩ := bind_eq_ok_iff.mp h
      obtain ⟨hfresh, h⟩ := ite_error_eq_ok_iff.mp h
      obtain ⟨hjti, h⟩ := ite_error_eq_ok_iff.mp h
      cases h
      rw [Bool.eq_false_iff.mpr hfresh] at hstale
      exact ⟨⟨proofClaims_eq_ok_iff.mp hclaims, ⟨⟨htm, hhtm, not_not.mp hmethod⟩, not_not.mp hurl⟩,
        hstale, hjti⟩, rfl⟩
    · cases h
  · rintro ⟨⟨hverified, ⟨⟨htm, hhtm, hmethod⟩, hurl⟩, hstale, hjti⟩, rfl⟩
    refine bind_eq_ok_iff.mpr ⟨claims, proofClaims_eq_ok_iff.mpr hverified, ?_⟩
    unfold methodClaim at hhtm
    rw [hhtm]
    refine ite_error_eq_ok_iff.mpr ⟨not_not.mpr hmethod, ?_⟩
    refine ite_error_eq_ok_iff.mpr ⟨not_not.mpr hurl, ?_⟩
    refine bind_eq_ok_iff.mpr ⟨false, hstale, ?_⟩
    refine ite_error_eq_ok_iff.mpr ⟨Bool.false_ne_true, ?_⟩
    exact ite_error_eq_ok_iff.mpr ⟨hjti, rfl⟩

/-- What the checks before the replay cache take for granted of what they read. -/
structure Typed (rt : Runtime φ κ) (a : ProofArgs φ) : Prop where
  header : ∀ v : Json φ, HeaderIs a.proof v → ∃ header, v = .obj header
  method : ∀ claims, Verified rt a.proof claims → ∃ htm, methodClaim claims = .str htm
  issued : ∀ claims, Verified rt a.proof claims → Addressed rt a claims →
    (claim claims (lit "iat")).isNull = false →
    ∃ iat, floatOf rt (claim claims (lit "iat")) = .ok iat

theorem raisesOnly_checkProof_iff {a : ProofArgs φ} {now : φ} :
    RaisesOnly SessionError.isProofError (checkProof rt a now) ↔ Typed rt a := by
  rw [checkProof, raisesOnly_bind_iff, raisesOnly_proofClaims_iff]
  simp only [proofClaims_eq_ok_iff]
  constructor
  · rintro ⟨hheader, hclaims⟩
    refine ⟨hheader, fun claims hverified => ?_, fun claims hverified haddr => ?_⟩
    · have h := hclaims claims hverified
      split at h
      · next htm hhtm => exact ⟨htm, hhtm⟩
      · exact (raisesOnly_error_iff.mp h).elim
    · obtain ⟨⟨htm, hhtm, hmethod⟩, hurl⟩ := haddr
      have h := hclaims claims hverified
      unfold methodClaim at hhtm
      rw [hhtm] at h
      have h := (raisesOnly_ite_error_iff trivial).mp h (not_not.mpr hmethod)
      have h := (raisesOnly_ite_error_iff trivial).mp h (not_not.mpr hurl)
      exact raisesOnly_isStale_iff.mp (raisesOnly_bind_iff.mp h).1
  · rintro ⟨hheader, hmethod, hissued⟩
    refine ⟨hheader, fun claims hverified => ?_⟩
    obtain ⟨htm, hhtm⟩ := hmethod claims hverified
    have hhtm' := hhtm
    unfold methodClaim at hhtm'
    rw [hhtm']
    refine (raisesOnly_ite_error_iff trivial).mpr fun hagree => ?_
    refine (raisesOnly_ite_error_iff trivial).mpr fun hurl => ?_
    refine raisesOnly_bind_iff.mpr ⟨raisesOnly_isStale_iff.mpr ?_, fun stale _ => ?_⟩
    · exact hissued claims hverified ⟨⟨htm, hhtm, not_not.mp hagree⟩, not_not.mp hurl⟩
    · refine (raisesOnly_ite_error_iff trivial).mpr fun _ => ?_
      exact (raisesOnly_ite_error_iff trivial).mpr fun _ => raisesOnly_ok _

/-! ## The replay cache -/

/-- The cache `c'` is `c` without entries that have expired. -/
structure OnlySwept (now : φ) (c c' : JtiCache φ) : Prop where
  maxsize : c'.maxsize = c.maxsize
  ttl : c'.ttl = c.ttl
  old : ∀ entry ∈ c'.cache.items, entry ∈ c.cache.items
  kept : ∀ entry ∈ c.cache.items, entry.2.le now = false → entry ∈ c'.cache.items

theorem OnlySwept.refl (now : φ) (c : JtiCache φ) : OnlySwept now c c :=
  ⟨rfl, rfl, fun _ h => h, fun _ h _ => h⟩

theorem onlySwept_sweep (now : φ) (c : JtiCache φ) : OnlySwept now c (c.sweep now) where
  maxsize := rfl
  ttl := rfl
  old _ h := (JtiCache.mem_sweep.mp h).1
  kept _ h hlive := JtiCache.mem_sweep.mpr ⟨h, hlive⟩

/-- A call that stores its key only sweeps if what it stores was there. -/
theorem onlySwept_checkAndAdd_iff {c : JtiCache φ} {now : φ} {key : Str}
    (h : (c.checkAndAdd now key).1 = true) :
    OnlySwept now c (c.checkAndAdd now key).2 ↔
      (key, FloatArith.add now c.ttl) ∈ c.cache.items := by
  constructor
  · intro hswept
    exact hswept.old _ (JtiCache.mem_checkAndAdd_of_true h)
  · intro hmem
    refine ⟨JtiCache.maxsize_checkAndAdd, JtiCache.ttl_checkAndAdd, fun entry hentry => ?_,
      fun entry hentry hlive => JtiCache.mem_checkAndAdd_of_mem hentry hlive⟩
    rcases JtiCache.mem_checkAndAdd hentry with ⟨hold, -⟩ | ⟨-, rfl⟩
    · exact hold
    · exact hmem

theorem checkAndAdd_eq_true_iff {c : JtiCache φ} {now : φ} {key : Str} :
    (c.checkAndAdd now key).1 = true ↔
      key ∉ (c.sweep now).cache.keys ∧ (c.sweep now).cache.size < c.maxsize := by
  unfold JtiCache.checkAndAdd
  dsimp only
  split
  · next hfound => exact ⟨nofun, fun h => absurd hfound h.1⟩
  · next hfresh =>
    split
    · next hfull => exact ⟨nofun, fun h => absurd hfull (Nat.not_le_of_lt h.2)⟩
    · next hroom => exact ⟨fun _ => ⟨hfresh, Nat.lt_of_not_le hroom⟩, fun _ => rfl⟩

/-! ## The whole call -/

/-- When a call does what it promises. The last field is about a proof that passes all the checks
before `ath` and whose `jti` is new to a cache with room for it. -/
structure Regular (rt : Runtime φ κ) (c : JtiCache φ) (a : ProofArgs φ) (r : Reading φ) : Prop
    extends Typed rt a where
  bound : ∀ claims, Passes rt a r.wall claims →
    dpopKey (jtiClaim rt claims) ∉ (c.sweep r.mono).cache.keys →
    (c.sweep r.mono).cache.size < c.maxsize → ∀ token, a.boundAccessToken = some token →
    isAscii token = true ∧
      ((claim claims (lit "ath")).asStr? = some (b64url (rt.sha256 (asciiBytes token))) ∨
        (dpopKey (jtiClaim rt claims), FloatArith.add r.mono c.ttl) ∈ c.cache.items)

/-- Nothing but `DPoP_ProofError` is raised, and a call that raises only sweeps. -/
structure TotalAtomic (now : φ) (c : JtiCache φ) (result : Except SessionError Unit × JtiCache φ) :
    Prop where
  total : RaisesOnly SessionError.isProofError result.1
  atomic : ∀ e, result.1 = .error e → OnlySwept now c result.2

theorem totalAtomic_checkTokenHash_iff {c c' : JtiCache φ} {now : φ}
    {claims : List (Str × Json φ)} {bound : Option Str} :
    TotalAtomic now c (checkTokenHash rt claims bound, c') ↔
      ∀ token, bound = some token → isAscii token = true ∧
        ((claim claims (lit "ath")).asStr? = some (b64url (rt.sha256 (asciiBytes token))) ∨
          OnlySwept now c c') := by
  cases bound with
  | none =>
    refine ⟨fun _ => nofun, fun _ => ⟨raisesOnly_ok _, nofun⟩⟩
  | some token =>
    simp only [Option.some.injEq, forall_eq']
    unfold checkTokenHash
    dsimp only
    by_cases hascii : isAscii token = false
    · rw [if_pos hascii]
      constructor
      · intro h
        exact (raisesOnly_error_iff.mp h.total).elim
      · intro h
        exact absurd hascii (Bool.not_eq_false _ ▸ h.1)
    · rw [if_neg hascii]
      rw [Bool.not_eq_false] at hascii
      by_cases hath :
          (claim claims (lit "ath")).asStr? = some (b64url (rt.sha256 (asciiBytes token)))
      · rw [if_neg (not_not.mpr hath)]
        exact ⟨fun _ => ⟨hascii, .inl hath⟩, fun _ => ⟨raisesOnly_ok _, nofun⟩⟩
      · rw [if_pos hath]
        constructor
        · intro h
          exact ⟨hascii, .inr (h.atomic _ rfl)⟩
        · rintro ⟨-, h⟩
          have hswept := h.resolve_left hath
          exact ⟨raisesOnly_error_iff.mpr trivial, fun _ _ => hswept⟩

/-- The calls that have come to the replay cache. -/
theorem totalAtomic_checkAndAdd_iff {c : JtiCache φ} {now : φ} {jti : Str}
    {claims : List (Str × Json φ)} {bound : Option Str} :
    TotalAtomic now c
      (match c.checkAndAdd now (dpopKey jti) with
        | (false, c) => (.error (.replay jti), c)
        | (true, c) => (checkTokenHash rt claims bound, c)) ↔
      ((c.checkAndAdd now (dpopKey jti)).1 = true → ∀ token, bound = some token →
        isAscii token = true ∧
          ((claim claims (lit "ath")).asStr? = some (b64url (rt.sha256 (asciiBytes token))) ∨
            (dpopKey jti, FloatArith.add now c.ttl) ∈ c.cache.items)) := by
  cases hres : (c.checkAndAdd now (dpopKey jti)).1 with
  | false =>
    have hswept := JtiCache.checkAndAdd_eq_false hres
    have hpair : c.checkAndAdd now (dpopKey jti) = (false, c.sweep now) := Prod.ext hres hswept
    rw [hpair]
    refine ⟨fun _ => nofun, fun _ => ⟨raisesOnly_error_iff.mpr trivial, fun _ _ => ?_⟩⟩
    exact onlySwept_sweep now c
  | true =>
    have hpair : c.checkAndAdd now (dpopKey jti) = (true, (c.checkAndAdd now (dpopKey jti)).2) :=
      Prod.ext hres rfl
    rw [hpair]
    dsimp only
    rw [totalAtomic_checkTokenHash_iff, onlySwept_checkAndAdd_iff hres]
    exact ⟨fun h _ => h, fun h => h rfl⟩

/-- A call raises nothing but `DPoP_ProofError`, and records nothing when it raises, exactly if it
is regular. -/
theorem verifyDpopProof_total_atomic_iff (rt : Runtime φ κ) (c : JtiCache φ) (a : ProofArgs φ)
    (r : Reading φ) :
    TotalAtomic r.mono c (verifyDpopProof rt c a r) ↔ Regular rt c a r := by
  unfold verifyDpopProof
  split
  · next e hcheck =>
    have hpasses : ∀ claims, ¬Passes rt a r.wall claims := by
      intro claims h
      cases hcheck.symm.trans (checkProof_eq_ok_iff.mpr ⟨h, rfl⟩)
    have htyped : RaisesOnly SessionError.isProofError (checkProof rt a r.wall) ↔ Typed rt a :=
      raisesOnly_checkProof_iff
    rw [hcheck] at htyped
    constructor
    · intro h
      refine ⟨htyped.mp ?_, fun claims h => absurd h (hpasses claims)⟩
      exact raisesOnly_error_iff.mpr (raisesOnly_error_iff.mp h.total)
    · intro h
      refine ⟨?_, fun _ _ => OnlySwept.refl _ _⟩
      exact raisesOnly_error_iff.mpr (raisesOnly_error_iff.mp (htyped.mpr h.toTyped))
  · next claims jti hcheck =>
    obtain ⟨hpasses, rfl⟩ := checkProof_eq_ok_iff.mp hcheck
    have htyped : Typed rt a := by
      apply raisesOnly_checkProof_iff.mp
      rw [hcheck]
      exact raisesOnly_ok _
    have hunique : ∀ claims', Passes rt a r.wall claims' → claims' = claims := by
      intro claims' h
      cases hcheck.symm.trans (checkProof_eq_ok_iff.mpr ⟨h, rfl⟩)
      rfl
    refine totalAtomic_checkAndAdd_iff.trans ?_
    rw [checkAndAdd_eq_true_iff]
    constructor
    · intro h
      refine ⟨htyped, fun claims' hpasses' hfresh hroom => ?_⟩
      rw [hunique claims' hpasses'] at hfresh ⊢
      exact h ⟨hfresh, hroom⟩
    · intro h hnew
      exact h.bound claims hpasses hnew.1 hnew.2

/-! ## Two calls that are not regular -/

section Irregular

/-- A proof whose header is `[]`. -/
def listProof : ProofArgs WholeFloat := { okpArgs with proof := lit "W10.p.s" }

/-- A proof without `ath`, for a call that is bound to a token. -/
def unboundProof : ProofArgs WholeFloat := { okpArgs with boundAccessToken := some (lit "t") }

def emptyCache : JtiCache WholeFloat := .new 10000 (.whole 300)

def verifyAtZero (a : ProofArgs WholeFloat) : Except SessionError Unit × JtiCache WholeFloat :=
  verifyDpopProof (iatRuntime (.int 0)) emptyCache a ⟨.whole 0, .whole 0⟩

/-- The first call raises `AttributeError`; the second rejects a proof that it has recorded. -/
theorem irregular_calls :
    ((verifyAtZero listProof).1 = .error .attributeError ∧
      ¬TotalAtomic (.whole 0) emptyCache (verifyAtZero listProof)) ∧
    ((verifyAtZero unboundProof).1 = .error .tokenHashMismatch ∧
      (verifyAtZero unboundProof).2.cache.keys = [lit "dpop:j"] ∧
      ¬TotalAtomic (.whole 0) emptyCache (verifyAtZero unboundProof)) := by
  have hlist : (verifyAtZero listProof).1 = .error .attributeError := by decide +kernel
  have hunbound : (verifyAtZero unboundProof).1 = .error .tokenHashMismatch := by decide +kernel
  have hkeys : (verifyAtZero unboundProof).2.cache.items =
      [(lit "dpop:j", .real (.whole 300))] := by decide +kernel
  refine ⟨⟨hlist, fun h => ?_⟩, hunbound, by rw [Dict.keys, hkeys]; rfl, fun h => ?_⟩
  · exact h.total _ hlist
  · have hold := (h.atomic _ hunbound).old _ (hkeys ▸ List.mem_singleton_self _)
    cases hold

end Irregular

end CosaiMcp.Middleware.Auth
