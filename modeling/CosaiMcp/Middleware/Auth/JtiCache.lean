import CosaiMcp.Py.Dict
import CosaiMcp.Py.FloatArith

/-!
# The replay cache of tokens and proofs

`JtiCache` of `middleware/auth.py`: every key that was accepted, with the reading of the monotonic
clock at which it may be forgotten. A key that was stored is there until a call sweeps it
(`mem_checkAndAdd_of_mem`), and a key that is there is not accepted (`checkAndAdd_of_live`).
-/

namespace CosaiMcp.Middleware.Auth

open Py

variable {φ : Type} [FloatArith φ]

structure JtiCache (φ : Type) where
  maxsize : Nat
  ttl : φ
  cache : Dict Str (FloatOrNan φ)

namespace JtiCache

def new (maxsize : Nat) (ttl : φ) : JtiCache φ := ⟨maxsize, ttl, .empty⟩

/-- The entries that have not expired. -/
def sweep (c : JtiCache φ) (now : φ) : JtiCache φ :=
  { c with cache := c.cache.filter fun entry => !entry.2.le now }

/-- `check_and_add`, with the reading `now` of the monotonic clock. -/
def checkAndAdd (c : JtiCache φ) (now : φ) (jti : Str) : Bool × JtiCache φ :=
  let swept := c.sweep now
  if jti ∈ swept.cache.keys then (false, swept)
  else if swept.maxsize ≤ swept.cache.size then (false, swept)
  else (true, { swept with cache := swept.cache.set jti (FloatArith.add now swept.ttl) })

variable {c : JtiCache φ} {now : φ} {jti : Str}

theorem mem_sweep {entry : Str × FloatOrNan φ} :
    entry ∈ (c.sweep now).cache.items ↔ entry ∈ c.cache.items ∧ entry.2.le now = false := by
  simp only [sweep, Dict.items_filter, List.mem_filter, Bool.not_eq_true']

/-- A call that accepts a key did not find it, and stores it with its expiry. -/
theorem checkAndAdd_eq_true (h : (c.checkAndAdd now jti).1 = true) :
    jti ∉ (c.sweep now).cache.keys ∧ (c.checkAndAdd now jti).2.cache =
      (c.sweep now).cache.set jti (FloatArith.add now c.ttl) := by
  unfold checkAndAdd at h ⊢
  dsimp only at h ⊢
  split at h
  · cases h
  · rename_i hfresh
    split at h
    · cases h
    · rename_i hsize
      rw [if_neg hfresh, if_neg hsize]
      exact ⟨hfresh, rfl⟩

/-- A call that does not accept its key only sweeps. -/
theorem checkAndAdd_eq_false (h : (c.checkAndAdd now jti).1 = false) :
    (c.checkAndAdd now jti).2 = c.sweep now := by
  unfold checkAndAdd at h ⊢
  dsimp only at h ⊢
  split at h
  · rename_i hfound
    rw [if_pos hfound]
  · rename_i hfresh
    split at h
    · rename_i hsize
      rw [if_neg hfresh, if_pos hsize]
    · cases h

@[simp] theorem ttl_checkAndAdd : (c.checkAndAdd now jti).2.ttl = c.ttl := by
  unfold checkAndAdd
  dsimp only
  split
  · rfl
  · split
    · rfl
    · rfl

@[simp] theorem maxsize_checkAndAdd : (c.checkAndAdd now jti).2.maxsize = c.maxsize := by
  unfold checkAndAdd
  dsimp only
  split
  · rfl
  · split
    · rfl
    · rfl

/-- A call does not fill the cache beyond its size. -/
theorem size_checkAndAdd (h : c.cache.size ≤ c.maxsize) :
    (c.checkAndAdd now jti).2.cache.size ≤ c.maxsize := by
  have hswept : (c.sweep now).cache.size ≤ c.maxsize :=
    (List.length_filter_le _ _).trans h
  unfold checkAndAdd
  dsimp only
  split
  · exact hswept
  · next hfresh =>
    split
    · exact hswept
    · next hsize =>
      dsimp only
      rw [Dict.size, Dict.items_set_of_not_mem hfresh, List.length_append, List.length_singleton]
      exact Nat.lt_of_not_le hsize

/-- What is in the cache after a call was there and has not expired, or is what it stored. -/
theorem mem_checkAndAdd {entry : Str × FloatOrNan φ}
    (h : entry ∈ (c.checkAndAdd now jti).2.cache.items) :
    (entry ∈ c.cache.items ∧ entry.2.le now = false) ∨
      ((c.checkAndAdd now jti).1 = true ∧ entry = (jti, FloatArith.add now c.ttl)) := by
  cases hres : (c.checkAndAdd now jti).1 with
  | false =>
    rw [checkAndAdd_eq_false hres] at h
    exact .inl (mem_sweep.mp h)
  | true =>
    rw [(checkAndAdd_eq_true hres).2] at h
    rcases Dict.mem_items_set.mp h with h | h
    · exact .inr ⟨rfl, h⟩
    · exact .inl (mem_sweep.mp h.1)

/-- An entry that a call does not sweep stays. -/
theorem mem_checkAndAdd_of_mem {entry : Str × FloatOrNan φ} (h : entry ∈ c.cache.items)
    (hlive : entry.2.le now = false) : entry ∈ (c.checkAndAdd now jti).2.cache.items := by
  have hswept := mem_sweep.mpr ⟨h, hlive⟩
  cases hres : (c.checkAndAdd now jti).1 with
  | false => rwa [checkAndAdd_eq_false hres]
  | true =>
    obtain ⟨hfresh, heq⟩ := checkAndAdd_eq_true hres
    rw [heq]
    refine Dict.mem_items_set.mpr (.inr ⟨hswept, fun hkey => hfresh ?_⟩)
    exact Dict.mem_keys_iff.mpr ⟨entry.2, hkey ▸ hswept⟩

/-- A key whose entry is live is not accepted. -/
theorem checkAndAdd_of_live {exp : FloatOrNan φ} (h : (jti, exp) ∈ c.cache.items)
    (hlive : exp.le now = false) : (c.checkAndAdd now jti).1 = false := by
  by_contra hres
  obtain ⟨hfresh, -⟩ := checkAndAdd_eq_true (Bool.not_eq_false _ ▸ hres)
  exact hfresh (Dict.mem_keys_iff.mpr ⟨exp, mem_sweep.mpr ⟨h, hlive⟩⟩)

/-- The key that a call accepts is in the cache after it. -/
theorem mem_checkAndAdd_of_true (h : (c.checkAndAdd now jti).1 = true) :
    (jti, FloatArith.add now c.ttl) ∈ (c.checkAndAdd now jti).2.cache.items := by
  rw [(checkAndAdd_eq_true h).2]
  exact Dict.mem_items_set.mpr (.inl rfl)

end JtiCache

end CosaiMcp.Middleware.Auth
