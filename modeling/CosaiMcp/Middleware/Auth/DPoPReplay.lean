import CosaiMcp.Middleware.Auth.SessionSpec
import CosaiMcp.Py.Except

/-!
# Replay of DPoP proofs

A proof passes the age check for less than 122 seconds (`age_of_not_stale` at both ends), and its
entry is in the replay cache for more than 299 (`due_of_le`), so it is accepted at most once; but
the age check lets a proof through whose `iat` is NaN, at any time. Without such proofs every
proof is accepted at most once, and within the age that was asked for (`dpop_fresh_and_once`).
-/

namespace CosaiMcp.Middleware.Auth

open Py

variable {φ κ : Type} [FloatArith φ] {rt : Runtime φ κ} {M : SessionManager φ}

/-! ## The checks of a proof -/

theorem checkProof_eq_ok {a : ProofArgs φ} {now : φ} {claims : List (Str × Json φ)} {jti : Str}
    (h : checkProof rt a now = .ok (claims, jti)) :
    proofClaims rt a.proof = .ok claims ∧ isStale rt claims now a.maxAge = .ok false ∧
      jti = rt.strOf (((Json.obj claims).get? (lit "jti")).getD (.str [])) := by
  obtain ⟨claims', hclaims, h⟩ := bind_eq_ok_iff.mp h
  split at h
  · obtain ⟨-, h⟩ := ite_error_eq_ok_iff.mp h
    obtain ⟨-, h⟩ := ite_error_eq_ok_iff.mp h
    obtain ⟨stale, hstale, h⟩ := bind_eq_ok_iff.mp h
    obtain ⟨hfresh, h⟩ := ite_error_eq_ok_iff.mp h
    obtain ⟨-, h⟩ := ite_error_eq_ok_iff.mp h
    cases h
    rw [Bool.eq_false_iff.mpr hfresh] at hstale
    exact ⟨hclaims, hstale, rfl⟩
  · cases h

theorem isStale_eq_false {claims : List (Str × Json φ)} {now maxAge : φ}
    (h : isStale rt claims now maxAge = .ok false) :
    ∃ iat, floatOf rt (claim claims (lit "iat")) = .ok iat ∧
      (iat.subFrom now).abs.gt maxAge = false := by
  obtain ⟨-, h⟩ := ite_error_eq_ok_iff.mp h
  obtain ⟨iat, hiat, h⟩ := bind_eq_ok_iff.mp h
  exact ⟨iat, hiat, by injection h⟩

/-! ## Times -/

section Times

/-- What is not more than 60 seconds away by the arithmetic of floats is less than 61 away. -/
theorem age_of_not_stale {now iat maxAge : φ} {w : ℚ} (hnow : FloatArith.rat? now = some w)
    (hmax : FloatArith.rat? maxAge = some 60)
    (h : ((FloatOrNan.real iat).subFrom now).abs.gt maxAge = false) :
    ∃ q, FloatArith.rat? iat = some q ∧ -61 < w - q ∧ w - q < 61 := by
  have hbounds : ∀ z : φ, (FloatOrNan.real z).abs.gt maxAge = false →
      PyFloat.leInt z 60 = true ∧ PyFloat.intLe (-60) z = true := by
    intro z hz
    simp only [FloatOrNan.abs, FloatOrNan.gt, Bool.not_eq_false', decide_eq_true_eq] at hz
    exact FloatArith.leInt_abs_iff.mp ((FloatArith.le_iff_leInt (by exact_mod_cast hmax)).mp hz)
  cases hiat : FloatArith.rat? iat with
  | none =>
    obtain ⟨z, hz, hinf⟩ := FloatArith.sub_of_infinite hnow hiat
    rw [FloatOrNan.subFrom, hz] at h
    obtain ⟨hle, hge⟩ := hbounds z h
    rcases FloatArith.intLe_or_leInt_of_infinite hinf with hno | hno
    · rw [hno 60] at hle
      cases hle
    · rw [hno (-60)] at hge
      cases hge
  | some q =>
    obtain ⟨z, hz, hround⟩ := FloatArith.sub_of_finite hnow hiat
    rw [FloatOrNan.subFrom, hz] at h
    obtain ⟨hle, hge⟩ := hbounds z h
    refine ⟨q, rfl, ?_, ?_⟩
    · by_contra hlow
      have hz' := (hround (-61) (by norm_num)).2 (by push_cast; linarith)
      have := FloatArith.int_le_of_leInt hge hz'
      omega
    · by_contra hhigh
      have hz' := (hround 61 (by norm_num)).1 (by push_cast; linarith)
      have := FloatArith.int_le_of_leInt hz' hle
      omega

/-- An entry is due more than 299 seconds after it was stored. -/
theorem due_of_le {stored ttl now : φ} {p q : ℚ} (hstored : FloatArith.rat? stored = some p)
    (httl : FloatArith.rat? ttl = some 300) (hnow : FloatArith.rat? now = some q)
    (hp : |p| ≤ 2 ^ 52) (h : (FloatArith.add stored ttl).le now = true) : p + 299 < q := by
  obtain ⟨z, hz, hround⟩ := FloatArith.add_of_finite hstored httl
  rw [hz] at h
  have hle : z ≤ now := of_decide_eq_true h
  have hfloor : ((⌊p + 300⌋ : ℤ) : ℚ) ≤ p + 300 := Int.floor_le _
  have hnext : p + 300 < (⌊p + 300⌋ : ℤ) + 1 := Int.lt_floor_add_one _
  obtain ⟨hp1, hp2⟩ := abs_le.mp hp
  have hbits : |⌊p + 300⌋| ≤ (2 : ℤ) ^ 53 := by
    rw [abs_le]
    constructor
    · exact_mod_cast (show (-(2 ^ 53) : ℚ) ≤ (⌊p + 300⌋ : ℤ) by linarith)
    · exact_mod_cast (show ((⌊p + 300⌋ : ℤ) : ℚ) ≤ 2 ^ 53 by linarith)
  have hbelow := FloatArith.intLe_trans ((hround _ hbits).1 hfloor) hle
  have := (FloatArith.intLe_iff hnow _).mp hbelow
  linarith

end Times

/-! ## Runs -/

section Runs

def presentsProof (proof : Str) : Call φ κ → Bool
  | .bearer _ _ => false
  | .dpop a => a.proof = proof

def isProof : Call φ κ → Bool
  | .bearer _ _ => false
  | .dpop _ => true

/-- The two clocks advance together: one is ahead of the other by `offset`, to within the second
that may pass between their readings in one call. -/
def Together (offset : ℚ) (r : Reading φ) : Prop :=
  ∃ w m, FloatArith.rat? r.wall = some w ∧ FloatArith.rat? r.mono = some m ∧ |m| ≤ 2 ^ 52 ∧
    offset ≤ m - w ∧ m - w ≤ offset + 1

/-- The `iat` of a proof is not NaN for `float`. -/
def IatIsNumber (rt : Runtime φ κ) (proof : Str) : Prop :=
  ∀ claims, proofClaims rt proof = .ok claims →
    floatOf rt (claim claims (lit "iat")) ≠ .ok .nan

/-- The `iat` of a proof lies within the age that was asked for. -/
def Fresh (rt : Runtime φ κ) (a : ProofArgs φ) (now : φ) : Prop :=
  ∃ claims iat, proofClaims rt a.proof = .ok claims ∧
    floatOf rt (claim claims (lit "iat")) = .ok iat ∧
    (iat.subFrom now).abs.le a.maxAge = true

/-- A number that is not greater is at most. -/
theorem le_of_not_gt {x : FloatOrNan φ} {y : φ} (hx : x ≠ .nan) (h : x.gt y = false) :
    x.le y = true := by
  cases x with
  | nan => exact absurd rfl hx
  | real x => simpa [FloatOrNan.gt, FloatOrNan.le] using h

theorem fresh_of_checkProof {a : ProofArgs φ} {r : Reading φ} {offset : ℚ}
    (hclock : Together offset r) (hiat : IatIsNumber rt a.proof)
    {checked : List (Str × Json φ) × Str} (h : checkProof rt a r.wall = .ok checked) :
    Fresh rt a r.wall := by
  obtain ⟨hclaims, hstale, -⟩ := checkProof_eq_ok h
  obtain ⟨iat, hfloat, hgt⟩ := isStale_eq_false hstale
  refine ⟨checked.1, iat, hclaims, hfloat, le_of_not_gt ?_ hgt⟩
  obtain ⟨w, m, hwall, -, -, -, -⟩ := hclock
  cases iat with
  | nan => exact absurd hfloat (hiat _ hclaims)
  | real x =>
    cases hx : FloatArith.rat? x with
    | none =>
      obtain ⟨z, hz, -⟩ := FloatArith.sub_of_infinite hwall hx
      rw [FloatOrNan.subFrom, hz]
      exact nofun
    | some q =>
      obtain ⟨z, hz, -⟩ := FloatArith.sub_of_finite hwall hx
      rw [FloatOrNan.subFrom, hz]
      exact nofun

variable {proof : Str} {c : JtiCache φ} {i : Call φ κ × Reading φ}

/-- What is due at a time is due at every later one. -/
theorem le_of_le_of_le {exp : FloatOrNan φ} {x y : φ} (h : exp.le x = true) (hxy : x ≤ y) :
    exp.le y = true := by
  cases exp with
  | nan => cases h
  | real e => exact decide_eq_true (le_trans (of_decide_eq_true h) hxy)

/-- A run of calls by clocks that advance together, with the default age for proofs. -/
structure DefaultRun (offset : ℚ) (is : List (Call φ κ × Reading φ)) : Prop where
  together : ∀ i ∈ is, Together offset i.2
  advances : is.Pairwise fun i j => i.2.mono ≤ j.2.mono
  maxAge : ∀ i ∈ is, ∀ a, i.1 = .dpop a → FloatArith.rat? a.maxAge = some 60

/-- Such a run in which the `iat` of no proof is NaN. -/
structure ProofRun (rt : Runtime φ κ) (offset : ℚ) (is : List (Call φ κ × Reading φ)) : Prop
    extends DefaultRun offset is where
  iat : ∀ i ∈ is, ∀ a, i.1 = .dpop a → IatIsNumber rt a.proof

theorem ProofRun.tail {offset : ℚ} {is : List (Call φ κ × Reading φ)}
    (h : ProofRun rt offset (i :: is)) : ProofRun rt offset is where
  together j hj := h.together j (List.mem_cons_of_mem i hj)
  advances := (List.pairwise_cons.mp h.advances).2
  maxAge j hj := h.maxAge j (List.mem_cons_of_mem i hj)
  iat j hj := h.iat j (List.mem_cons_of_mem i hj)

/-- A call on the proof, in a run as above. -/
structure ProofCall (rt : Runtime φ κ) (offset : ℚ) (proof : Str) (i : Call φ κ × Reading φ) :
    Prop where
  presents : presentsProof proof i.1 = true
  together : Together offset i.2
  iat : IatIsNumber rt proof
  maxAge : ∀ a, i.1 = .dpop a → FloatArith.rat? a.maxAge = some 60

theorem ProofRun.proofCall {offset : ℚ} {is : List (Call φ κ × Reading φ)}
    (h : ProofRun rt offset is) (hi : i ∈ is) (hp : presentsProof proof i.1 = true) :
    ProofCall rt offset proof i where
  presents := hp
  together := h.together i hi
  iat := by
    cases hcall : i.1 with
    | bearer token keyset =>
      rw [hcall] at hp
      cases hp
    | dpop a =>
      rw [hcall] at hp
      cases of_decide_eq_true hp
      exact h.iat i hi a hcall
  maxAge := h.maxAge i hi

/-- The time that a proof says it was issued at, if it passes the checks at all, is less than 61
seconds from the reading of the clock. -/
theorem ProofCall.issued {offset : ℚ} (h : ProofCall rt offset proof i) {key : Str}
    (hkey : cacheKey? rt M i = some key) :
    ∃ claims iat q w, proofClaims rt proof = .ok claims ∧
      key = dpopKey (rt.strOf (((Json.obj claims).get? (lit "jti")).getD (.str []))) ∧
      floatOf rt (claim claims (lit "iat")) = .ok (.real iat) ∧ FloatArith.rat? iat = some q ∧
      FloatArith.rat? i.2.wall = some w ∧ -61 < w - q ∧ w - q < 61 := by
  obtain ⟨hp, hclock, hiat, hage⟩ := h
  obtain ⟨call, r⟩ := i
  cases call with
  | bearer token keyset => cases hp
  | dpop a =>
    cases of_decide_eq_true hp
    cases hcheck : checkProof rt a r.wall with
    | error e =>
      simp only [cacheKey?, hcheck] at hkey
      cases hkey
    | ok checked =>
      simp only [cacheKey?, hcheck] at hkey
      cases hkey
      obtain ⟨hclaims, hstale, hjti⟩ := checkProof_eq_ok hcheck
      obtain ⟨iat, hfloat, hgt⟩ := isStale_eq_false hstale
      obtain ⟨w, m, hwall, -, -, -, -⟩ := hclock
      cases iat with
      | nan => exact absurd hfloat (hiat _ hclaims)
      | real x =>
        obtain ⟨q, hq, hlow, hhigh⟩ := age_of_not_stale hwall (hage a rfl) hgt
        exact ⟨checked.1, x, q, w, hclaims, congrArg dpopKey hjti, hfloat, hq, hwall, hlow, hhigh⟩

/-- All calls on one proof that pass the checks have the same key. -/
theorem ProofCall.key_unique {offset : ℚ} {j : Call φ κ × Reading φ}
    (h : ProofCall rt offset proof i) (h' : ProofCall rt offset proof j) {key key' : Str}
    (hkey : cacheKey? rt M i = some key) (hkey' : cacheKey? rt M j = some key') : key' = key := by
  obtain ⟨claims, -, -, -, hclaims, hk, -⟩ := h.issued hkey
  obtain ⟨claims', -, -, -, hclaims', hk', -⟩ := h'.issued hkey'
  cases hclaims.symm.trans hclaims'
  rw [hk, hk']

/-- When the entry of a proof that passed the checks is due, the proof is stale. -/
theorem ProofCall.stale_of_due {offset : ℚ} {j : Call φ κ × Reading φ}
    (h : ProofCall rt offset proof i) (h' : ProofCall rt offset proof j) {key : Str}
    (hkey : cacheKey? rt M i = some key) {ttl : φ} (httl : FloatArith.rat? ttl = some 300)
    (hdue : (FloatArith.add i.2.mono ttl).le j.2.mono = true) : cacheKey? rt M j = none := by
  cases hkey' : cacheKey? rt M j with
  | none => rfl
  | some key' =>
    obtain ⟨claims, iat, q, w, hclaims, -, hfloat, hq, hw, hlow, -⟩ := h.issued hkey
    obtain ⟨claims', iat', q', w', hclaims', -, hfloat', hq', hw', -, hhigh⟩ := h'.issued hkey'
    cases hclaims.symm.trans hclaims'
    cases hfloat.symm.trans hfloat'
    cases hq.symm.trans hq'
    obtain ⟨w₁, m₁, hw₁, hm₁, hbits, hoff₁, -⟩ := h.together
    obtain ⟨w₂, m₂, hw₂, hm₂, -, -, hoff₂⟩ := h'.together
    cases hw.symm.trans hw₁
    cases hw'.symm.trans hw₂
    have hlate := due_of_le hm₁ httl hm₂ hbits hdue
    linarith

/-- Once a proof was accepted, it is not accepted again: its entry is in the replay cache until the
proof is stale. -/
theorem ProofCall.not_accepted_again {offset : ℚ} (h : ProofCall rt offset proof i) {key : Str}
    (hkey : cacheKey? rt M i = some key) {ttl : φ} (httl : FloatArith.rat? ttl = some 300)
    {is : List (Call φ κ × Reading φ)} (hrun : ProofRun rt offset is)
    (hmem : (key, FloatArith.add i.2.mono ttl) ∈ c.cache.items) :
    accepted rt M (presentsProof proof) c is = [] := by
  induction is generalizing c with
  | nil => rfl
  | cons j is ih =>
    cases hdue : (FloatArith.add i.2.mono ttl).le j.2.mono with
    | true =>
      refine accepted_eq_nil fun j' hj' hp => ?_
      refine h.stale_of_due (hrun.proofCall hj' hp) hkey httl ?_
      rcases List.mem_cons.mp hj' with rfl | hlater
      · exact hdue
      · exact le_of_le_of_le hdue ((List.pairwise_cons.mp hrun.advances).1 j' hlater)
    | false =>
      obtain ⟨hstays, hrejected⟩ := step_of_live rt M hmem hdue
      rw [accepted_cons_of_not, ih hrun.tail hstays]
      intro hp
      cases hkey' : cacheKey? rt M j with
      | none => rw [step_of_none hkey']
      | some key' =>
        rw [h.key_unique (hrun.proofCall List.mem_cons_self hp) hkey hkey'] at hkey'
        exact hrejected hkey'

theorem length_accepted_proof {offset : ℚ} {is : List (Call φ κ × Reading φ)}
    (hrun : ProofRun rt offset is) (httl : FloatArith.rat? c.ttl = some 300) :
    (accepted rt M (presentsProof proof) c is).length ≤ 1 := by
  induction is generalizing c with
  | nil => exact Nat.zero_le _
  | cons i is ih =>
    by_cases h : presentsProof proof i.1 = true ∧ (step rt M c i).1 = true
    · obtain ⟨key, hkey, hmem⟩ := step_eq_true h.2
      have hcall := hrun.proofCall List.mem_cons_self h.1
      rw [accepted_cons, hcall.not_accepted_again hkey httl hrun.tail hmem, List.append_nil]
      split
      · exact Nat.le_refl _
      · exact Nat.zero_le _
    · rw [accepted_cons_of_not]
      · exact ih hrun.tail (by rw [ttl_step, httl])
      · exact fun hp => Bool.eq_false_iff.mpr fun hres => h ⟨hp, hres⟩

/-- What was accepted is a call of the run that passed the checks. -/
theorem mem_accepted {p : Call φ κ → Bool} {is : List (Call φ κ × Reading φ)}
    (h : i ∈ accepted rt M p c is) : i ∈ is ∧ ∃ key, cacheKey? rt M i = some key := by
  obtain ⟨⟨j, res⟩, ht, rfl⟩ := List.mem_map.mp h
  obtain ⟨ht, hres⟩ := List.mem_filter.mp ht
  obtain ⟨hj, s, hs⟩ := Run.mem_trace (step rt M) ht
  rw [Bool.and_eq_true] at hres
  obtain ⟨key, hkey, -⟩ := step_eq_true (hs ▸ hres.2)
  exact ⟨hj, key, hkey⟩

/-- In every run of calls, on whatever proofs and tokens, in which no proof has an `iat` that is
NaN, every proof is accepted at most once, and only within the age that was asked for. -/
theorem dpop_fresh_and_once (rt : Runtime φ κ) (M : SessionManager φ) (maxsize : Nat) {ttl : φ}
    (httl : FloatArith.rat? ttl = some 300) {offset : ℚ} {is : List (Call φ κ × Reading φ)}
    (hrun : DefaultRun offset is)
    (hiat : ∀ i ∈ is, ∀ a, i.1 = .dpop a → IatIsNumber rt a.proof) :
    (∀ proof, (accepted rt M (presentsProof proof) (.new maxsize ttl) is).length ≤ 1) ∧
      ∀ a r, (.dpop a, r) ∈ accepted rt M isProof (.new maxsize ttl) is → Fresh rt a r.wall := by
  constructor
  · intro proof
    exact length_accepted_proof ⟨hrun, hiat⟩ httl
  · intro a r h
    obtain ⟨hmem, key, hkey⟩ := mem_accepted h
    cases hcheck : checkProof rt a r.wall with
    | error e =>
      simp only [cacheKey?, hcheck] at hkey
      cases hkey
    | ok checked =>
      exact fresh_of_checkProof (hrun.together _ hmem) (hiat _ hmem a rfl) hcheck

end Runs

/-! ## A proof without a time -/

section Timeless

/-- A proof with the header `{"typ":"dpop+jwt","alg":"EdDSA","jwk":{"kty":"OKP"}}`. -/
def okpProof : Str :=
  lit "eyJ0eXAiOiJkcG9wK2p3dCIsImFsZyI6IkVkRFNBIiwiandrIjp7Imt0eSI6Ik9LUCJ9fQ.p.s"

/-- A library that decodes every proof to claims with the given `iat`. -/
def iatRuntime (iat : Json WholeFloat) : Runtime WholeFloat Unit where
  decode _ _ _ := some ([], [(lit "htm", .str (lit "POST")), (lit "htu", .str (lit "u")),
    (lit "iat", iat), (lit "jti", .str (lit "j"))])
  importKey _ := some ()
  sha256 := id
  strOf j := j.asStr?.getD []
  strOf_str := Json.getD_asStr?_str
  upper := id
  floatOfStr _ := none

def okpArgs : ProofArgs WholeFloat := ⟨okpProof, lit "POST", lit "u", none, .whole 60⟩

def okpCalls (first second : Int) : List (Call WholeFloat Unit × Reading WholeFloat) :=
  [(.dpop okpArgs, ⟨.whole first, .whole first⟩), (.dpop okpArgs, ⟨.whole second, .whole second⟩)]

theorem defaultRun_okpCalls : DefaultRun 0 (okpCalls 0 300) where
  together i hi := by
    rcases List.mem_pair.mp hi with rfl | rfl
    · exact ⟨0, 0, rfl, rfl, by norm_num, by norm_num, by norm_num⟩
    · exact ⟨300, 300, rfl, rfl, by norm_num, by norm_num, by norm_num⟩
  advances := by decide
  maxAge i hi a ha := by
    rcases List.mem_pair.mp hi with rfl | rfl
    · cases ha
      rfl
    · cases ha
      rfl

/-- A proof that was issued at time 0, presented at once and after five minutes. -/
theorem dpop_fresh_and_once_five_minutes :
    (∀ proof, (accepted (iatRuntime (.int 0)) ⟨[], [], [], .whole 30⟩ (presentsProof proof)
      (.new 10000 (.whole 300)) (okpCalls 0 300)).length ≤ 1) ∧
      ∀ a r, (.dpop a, r) ∈ accepted (iatRuntime (.int 0)) ⟨[], [], [], .whole 30⟩ isProof
        (.new 10000 (.whole 300)) (okpCalls 0 300) → Fresh (iatRuntime (.int 0)) a r.wall := by
  refine dpop_fresh_and_once (iatRuntime (.int 0)) ⟨[], [], [], .whole 30⟩ 10000 rfl
    defaultRun_okpCalls fun i hi a ha claims hclaims hnan => ?_
  -- whatever the proof, the library decodes it to claims with the `iat` 0
  obtain ⟨header, -, h⟩ := bind_eq_ok_iff.mp hclaims
  obtain ⟨-, h⟩ := ite_error_eq_ok_iff.mp h
  obtain ⟨-, h⟩ := ite_error_eq_ok_iff.mp h
  split at h
  · obtain ⟨-, h⟩ := ite_error_eq_ok_iff.mp h
    cases h
    cases hnan
  · cases h

/-- With NaN for its `iat` it is accepted both times. -/
theorem dpop_accepted_twice :
    DefaultRun 0 (okpCalls 0 300) ∧
      (accepted (iatRuntime .nan) ⟨[], [], [], .whole 30⟩ (presentsProof okpProof)
        (.new 10000 (.whole 300)) (okpCalls 0 300)).length = 2 :=
  ⟨defaultRun_okpCalls, by decide +kernel⟩

end Timeless

end CosaiMcp.Middleware.Auth
