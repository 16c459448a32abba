import CosaiMcp.Middleware.Auth.SessionSpec
import CosaiMcp.Py.Except

/-!
# Replay of bearer tokens

The replay cache forgets a token 300 seconds after it was accepted, and a token may live longer.
A token is accepted at most once in every run in which its entry is never due while the expiry
check would still let it through (`bearer_accepted_at_most_once`). A token of an hour is accepted
again after five minutes (`bearer_accepted_twice`).
-/

namespace CosaiMcp.Middleware.Auth

open Py

variable {φ κ : Type} [FloatArith φ] {rt : Runtime φ κ} {M : SessionManager φ}

/-! ## The checks of a token -/

/-- A token that passes the checks was decoded to its claims, and has not expired. -/
theorem checkToken_eq_ok {token : Str} {keyset : κ} {now : φ} {claims : List (Str × Json φ)}
    (h : checkToken rt M token keyset now = .ok claims) :
    (∃ header, rt.decode token keyset (M.allowedAlgorithms.map .str) = some (header, claims)) ∧
      isExpired M claims now = .ok false := by
  unfold checkToken at h
  split at h
  · cases h
  · rename_i header claims' hdecode
    split at h
    · obtain ⟨-, h⟩ := ite_error_eq_ok_iff.mp h
      split at h
      · cases h
      · obtain ⟨-, h⟩ := ite_error_eq_ok_iff.mp h
        obtain ⟨audiences, -, h⟩ := bind_eq_ok_iff.mp h
        obtain ⟨-, h⟩ := ite_error_eq_ok_iff.mp h
        obtain ⟨expired, hexpired, h⟩ := bind_eq_ok_iff.mp h
        obtain ⟨hlive, h⟩ := ite_error_eq_ok_iff.mp h
        obtain ⟨early, -, h⟩ := bind_eq_ok_iff.mp h
        obtain ⟨-, h⟩ := ite_error_eq_ok_iff.mp h
        cases h
        rw [Bool.eq_false_iff.mpr hlive] at hexpired
        exact ⟨⟨header, hdecode⟩, hexpired⟩
    · split at h
      · cases h
      · cases h
    · cases h

variable (M) in
/-- `exp` plus the clock skew, the time up to which the expiry check lets a token through. -/
def deadline (claims : List (Str × Json φ)) : FloatOrNan φ :=
  match operand (claim claims (lit "exp")) with
  | .ok exp => exp.add M.clockSkew
  | .error _ => .nan

theorem deadline_of_isExpired {claims : List (Str × Json φ)} {now : φ}
    (h : isExpired M claims now = .ok false) : (deadline M claims).lt now = false := by
  obtain ⟨exp, hexp, h⟩ := bind_eq_ok_iff.mp h
  rw [deadline, hexp]
  cases hlt : (exp.add M.clockSkew).lt now with
  | false => rfl
  | true =>
    rw [hlt] at h
    cases h

/-- What is past at a time is past at every later one. -/
theorem lt_of_lt_of_le {d : FloatOrNan φ} {x y : φ} (h : d.lt x = true) (hxy : x ≤ y) :
    d.lt y = true := by
  cases d with
  | nan => cases h
  | real d =>
    simp only [FloatOrNan.lt, Bool.not_eq_true', decide_eq_false_iff_not] at h ⊢
    exact fun hyd => h (le_trans hxy hyd)

/-! ## Runs -/

section Runs

def presents (token : Str) : Call φ κ → Bool
  | .bearer t _ => t = token
  | .dpop _ => false

/-- The claims of a token are its payload, with whatever keys it is decoded. -/
def HasPayload (rt : Runtime φ κ) (M : SessionManager φ) (token : Str)
    (payload : List (Str × Json φ)) : Prop :=
  ∀ keyset header claims,
    rt.decode token keyset (M.allowedAlgorithms.map .str) = some (header, claims) →
    claims = payload

/-- The key of a token with the claims `payload` in the replay cache. -/
def tokenKey (rt : Runtime φ κ) (payload : List (Str × Json φ)) : Str :=
  bearerKey (rt.strOf (claim payload (lit "jti")))

/-- If the call comes when the entry of the token is due, it comes after the deadline. -/
def DueAfterDeadline (rt : Runtime φ κ) (M : SessionManager φ) (payload : List (Str × Json φ))
    (c : JtiCache φ) (i : Call φ κ × Reading φ) : Prop :=
  ∀ exp, (tokenKey rt payload, exp) ∈ c.cache.items → exp.le i.2.mono = true →
    (deadline M payload).lt i.2.wall = true

variable {token : Str} {payload : List (Str × Json φ)} {c : JtiCache φ}
  {i : Call φ κ × Reading φ}

/-- A call on the token that passes the checks has its key and comes before its deadline. -/
theorem cacheKey?_of_presents (hpayload : HasPayload rt M token payload)
    (hp : presents token i.1 = true) {key : Str} (hkey : cacheKey? rt M i = some key) :
    key = tokenKey rt payload ∧ (deadline M payload).lt i.2.wall = false := by
  obtain ⟨call, r⟩ := i
  cases call with
  | dpop a => cases hp
  | bearer t keyset =>
    cases of_decide_eq_true hp
    cases hcheck : checkToken rt M token keyset r.wall with
    | error e =>
      simp only [cacheKey?, hcheck] at hkey
      cases hkey
    | ok claims =>
      simp only [cacheKey?, hcheck] at hkey
      cases hkey
      obtain ⟨⟨header, hdecode⟩, hexpired⟩ := checkToken_eq_ok hcheck
      cases hpayload keyset header claims hdecode
      exact ⟨rfl, deadline_of_isExpired hexpired⟩

/-- After the deadline no call on the token passes the checks. -/
theorem cacheKey?_after_deadline (hpayload : HasPayload rt M token payload)
    (hp : presents token i.1 = true) (hdead : (deadline M payload).lt i.2.wall = true) :
    cacheKey? rt M i = none := by
  cases hkey : cacheKey? rt M i with
  | none => rfl
  | some key =>
    have hlive := (cacheKey?_of_presents hpayload hp hkey).2
    rw [hdead] at hlive
    cases hlive

/-- While the cache has an entry of the token, none of the calls to come on it is accepted. -/
theorem not_accepted_of_mem (hpayload : HasPayload rt M token payload)
    {is : List (Call φ κ × Reading φ)}
    (hclock : is.Pairwise fun i j => i.2.wall ≤ j.2.wall)
    (hdue : Run.Throughout (step rt M) (DueAfterDeadline rt M payload) c is)
    {exp : FloatOrNan φ} (hmem : (tokenKey rt payload, exp) ∈ c.cache.items) :
    accepted rt M (presents token) c is = [] := by
  induction is generalizing c with
  | nil => rfl
  | cons i is ih =>
    obtain ⟨hwall, hclock⟩ := List.pairwise_cons.mp hclock
    cases hexp : exp.le i.2.mono with
    | true =>
      have hdead := hdue.1 exp hmem hexp
      refine accepted_eq_nil fun j hj hp => cacheKey?_after_deadline hpayload hp ?_
      rcases List.mem_cons.mp hj with rfl | hj
      · exact hdead
      · exact lt_of_lt_of_le hdead (hwall j hj)
    | false =>
      obtain ⟨hstays, hrejected⟩ := step_of_live rt M hmem hexp
      rw [accepted_cons_of_not, ih hclock hdue.2 hstays]
      intro hp
      cases hkey : cacheKey? rt M i with
      | none => rw [step_of_none hkey]
      | some key =>
        rw [(cacheKey?_of_presents hpayload hp hkey).1] at hkey
        exact hrejected hkey

/-- A token is accepted at most once in every run of calls, on whatever tokens and proofs, in which
its entry in the replay cache is never due before its deadline. -/
theorem bearer_accepted_at_most_once (rt : Runtime φ κ) (M : SessionManager φ) {token : Str}
    {payload : List (Str × Json φ)} (hpayload : HasPayload rt M token payload) (maxsize : Nat)
    (ttl : φ) {is : List (Call φ κ × Reading φ)}
    (hclock : is.Pairwise fun i j => i.2.wall ≤ j.2.wall)
    (hdue : Run.Throughout (step rt M) (DueAfterDeadline rt M payload) (.new maxsize ttl) is) :
    (accepted rt M (presents token) (.new maxsize ttl) is).length ≤ 1 := by
  generalize JtiCache.new maxsize ttl = c at hdue ⊢
  induction is generalizing c with
  | nil => exact Nat.zero_le _
  | cons i is ih =>
    obtain ⟨-, hclock'⟩ := List.pairwise_cons.mp hclock
    by_cases h : presents token i.1 = true ∧ (step rt M c i).1 = true
    · obtain ⟨key, hkey, hmem⟩ := step_eq_true h.2
      rw [(cacheKey?_of_presents hpayload h.1 hkey).1] at hmem
      rw [accepted_cons, not_accepted_of_mem hpayload hclock' hdue.2 hmem, List.append_nil]
      split
      · exact Nat.le_refl _
      · exact Nat.zero_le _
    · rw [accepted_cons_of_not]
      · exact ih hclock' _ hdue.2
      · exact fun hp => Bool.eq_false_iff.mpr fun hres => h ⟨hp, hres⟩

end Runs

/-! ## A token of an hour -/

section Hour

/-- The claims of a token that expires after an hour. -/
def hourClaims : List (Str × Json WholeFloat) :=
  [(lit "iss", .str (lit "i")), (lit "aud", .str (lit "a")), (lit "exp", .int 3600),
    (lit "nbf", .int 0), (lit "jti", .str (lit "j")), (lit "sub", .str (lit "s"))]

/-- A library that decodes every token to these claims. -/
def hourRuntime : Runtime WholeFloat Unit where
  decode _ _ _ := some ([(lit "alg", .str (lit "EdDSA"))], hourClaims)
  importKey _ := none
  sha256 := id
  strOf j := j.asStr?.getD []
  strOf_str := Json.getD_asStr?_str
  upper := id
  floatOfStr _ := none

def hourManager : SessionManager WholeFloat := ⟨lit "i", lit "a", [lit "EdDSA"], .whole 30⟩

/-- The same call at two times, by clocks that agree. -/
def hourCalls (first second : Int) : List (Call WholeFloat Unit × Reading WholeFloat) :=
  [(.bearer (lit "t") (), ⟨.whole first, .whole first⟩),
    (.bearer (lit "t") (), ⟨.whole second, .whole second⟩)]

/-- Presented twice within ten seconds, it is accepted once. -/
theorem bearer_accepted_at_most_once_hour :
    (accepted hourRuntime hourManager (presents (lit "t")) (.new 10000 (.whole 300))
      (hourCalls 0 10)).length ≤ 1 := by
  have hpayload : HasPayload hourRuntime hourManager (lit "t") hourClaims := by
    intro keyset header claims h
    cases h
    rfl
  have hcache : (step hourRuntime hourManager (.new 10000 (.whole 300))
      (.bearer (lit "t") (), ⟨.whole 0, .whole 0⟩)).2.cache.items =
        [(tokenKey hourRuntime hourClaims, .real (.whole 300))] := rfl
  have hdue : Run.Throughout (step hourRuntime hourManager)
      (DueAfterDeadline hourRuntime hourManager hourClaims) (.new 10000 (.whole 300))
      (hourCalls 0 10) := by
    refine ⟨fun exp h => (nomatch h), fun exp h hle => ?_, trivial⟩
    rw [hcache, List.mem_singleton] at h
    cases h
    cases hle
  exact bearer_accepted_at_most_once hourRuntime hourManager hpayload 10000 (.whole 300)
    (by decide) hdue

/-- Presented again after five minutes, it is accepted twice, long before it expires. -/
theorem bearer_accepted_twice :
    (accepted hourRuntime hourManager (presents (lit "t")) (.new 10000 (.whole 300))
      (hourCalls 0 300)).length = 2 ∧
    HasPayload hourRuntime hourManager (lit "t") hourClaims ∧
    deadline hourManager hourClaims = .real (.whole 3630) := by
  refine ⟨rfl, fun keyset header claims h => ?_, rfl⟩
  cases h
  rfl

end Hour

end CosaiMcp.Middleware.Auth
