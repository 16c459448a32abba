import CosaiMcp.Middleware.Auth.SessionManager

/-!
# What a call does to the replay cache

A call that passes its checks takes one key to the replay cache (`cacheKey?`), any other call leaves
the cache alone (`step_of_none`, `step_of_some`). An entry that is not due stays, and as long as it
stays no call with its key returns (`step_of_live`).
-/

namespace CosaiMcp.Middleware.Auth

open Py

variable {φ κ : Type} [FloatArith φ] (rt : Runtime φ κ) (M : SessionManager φ)

/-- The key that a call takes to the replay cache, if it passes the checks before it. -/
def cacheKey? (i : Call φ κ × Reading φ) : Option Str :=
  match i.1 with
  | .bearer token keyset =>
    (checkToken rt M token keyset i.2.wall).toOption.map fun claims =>
      bearerKey (rt.strOf (claim claims (lit "jti")))
  | .dpop a => (checkProof rt a i.2.wall).toOption.map fun checked => dpopKey checked.2

variable {rt M} {c : JtiCache φ} {i : Call φ κ × Reading φ}

theorem step_of_none (h : cacheKey? rt M i = none) : step rt M c i = (false, c) := by
  obtain ⟨call, r⟩ := i
  cases call with
  | bearer token keyset =>
    cases hcheck : checkToken rt M token keyset r.wall with
    | error e => simp only [step, validateToken, hcheck]; rfl
    | ok claims =>
      simp only [cacheKey?, hcheck] at h
      cases h
  | dpop a =>
    cases hcheck : checkProof rt a r.wall with
    | error e => simp only [step, verifyDpopProof, hcheck]; rfl
    | ok checked =>
      simp only [cacheKey?, hcheck] at h
      cases h

/-- A call with a key leaves what the replay cache leaves, and returns only if its key is new. -/
theorem step_of_some {key : Str} (h : cacheKey? rt M i = some key) :
    (step rt M c i).2 = (c.checkAndAdd i.2.mono key).2 ∧
      ((step rt M c i).1 = true → (c.checkAndAdd i.2.mono key).1 = true) := by
  obtain ⟨call, r⟩ := i
  cases call with
  | bearer token keyset =>
    cases hcheck : checkToken rt M token keyset r.wall with
    | error e =>
      simp only [cacheKey?, hcheck] at h
      cases h
    | ok claims =>
      simp only [cacheKey?, hcheck] at h
      cases h
      simp only [step, validateToken, hcheck]
      generalize c.checkAndAdd r.mono _ = result
      obtain ⟨fresh, c'⟩ := result
      cases fresh with
      | false => exact ⟨rfl, nofun⟩
      | true => exact ⟨rfl, fun _ => rfl⟩
  | dpop a =>
    cases hcheck : checkProof rt a r.wall with
    | error e =>
      simp only [cacheKey?, hcheck] at h
      cases h
    | ok checked =>
      simp only [cacheKey?, hcheck] at h
      cases h
      simp only [step, verifyDpopProof, hcheck]
      generalize c.checkAndAdd r.mono _ = result
      obtain ⟨fresh, c'⟩ := result
      cases fresh with
      | false => exact ⟨rfl, nofun⟩
      | true => exact ⟨rfl, fun _ => rfl⟩

/-- A call that returned stored its key, to be kept until the time to live is over. -/
theorem step_eq_true (h : (step rt M c i).1 = true) :
    ∃ key, cacheKey? rt M i = some key ∧
      (key, FloatArith.add i.2.mono c.ttl) ∈ (step rt M c i).2.cache.items := by
  cases hkey : cacheKey? rt M i with
  | none =>
    rw [step_of_none hkey] at h
    cases h
  | some key =>
    obtain ⟨hcache, hfresh⟩ := step_of_some (c := c) hkey
    refine ⟨key, rfl, ?_⟩
    rw [hcache]
    exact JtiCache.mem_checkAndAdd_of_true (hfresh h)

@[simp] theorem ttl_step : (step rt M c i).2.ttl = c.ttl := by
  cases hkey : cacheKey? rt M i with
  | none => rw [step_of_none hkey]
  | some key => rw [(step_of_some hkey).1, JtiCache.ttl_checkAndAdd]

variable (rt M) in
/-- An entry that is not due at a call stays, and a call with its key does not return. -/
theorem step_of_live {key : Str} {exp : FloatOrNan φ} (h : (key, exp) ∈ c.cache.items)
    (hlive : exp.le i.2.mono = false) : (key, exp) ∈ (step rt M c i).2.cache.items ∧
      (cacheKey? rt M i = some key → (step rt M c i).1 = false) := by
  constructor
  · cases hkey : cacheKey? rt M i with
    | none => rwa [step_of_none hkey]
    | some key' =>
      rw [(step_of_some hkey).1]
      exact JtiCache.mem_checkAndAdd_of_mem h hlive
  · intro hkey
    by_contra hres
    have hfresh := (step_of_some (c := c) hkey).2 (Bool.not_eq_false _ ▸ hres)
    rw [JtiCache.checkAndAdd_of_live h hlive] at hfresh
    cases hfresh

/-! ## Accepted calls of a run -/

section Accepted

variable {p : Call φ κ → Bool} {is : List (Call φ κ × Reading φ)}

theorem accepted_cons : accepted rt M p c (i :: is) =
    (if p i.1 && (step rt M c i).1 then [i] else []) ++ accepted rt M p (step rt M c i).2 is := by
  rw [accepted, Run.trace_cons, List.filter_cons]
  dsimp only
  split
  · rfl
  · rfl

theorem accepted_cons_of_not (h : p i.1 = true → (step rt M c i).1 = false) :
    accepted rt M p c (i :: is) = accepted rt M p (step rt M c i).2 is := by
  rw [accepted_cons, if_neg, List.nil_append]
  intro hcond
  rw [Bool.and_eq_true] at hcond
  rw [h hcond.1] at hcond
  cases hcond.2

/-- No call is accepted of which none has a key. -/
theorem accepted_eq_nil (h : ∀ i ∈ is, p i.1 = true → cacheKey? rt M i = none) :
    accepted rt M p c is = [] := by
  induction is generalizing c with
  | nil => rfl
  | cons i is ih =>
    rw [accepted_cons_of_not, ih fun j hj => h j (List.mem_cons_of_mem i hj)]
    intro hp
    rw [step_of_none (h i List.mem_cons_self hp)]

end Accepted

end CosaiMcp.Middleware.Auth
