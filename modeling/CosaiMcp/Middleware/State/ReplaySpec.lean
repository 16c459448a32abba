import CosaiMcp.Middleware.State.Sealer

/-!
# What the replay cache does

The block under the lock, in terms of the entries that leave it and the one that comes. The purge
loop takes entries that have expired off the heap, and their `jti`s out of `_spent` (`purge_spec`);
it stops at an entry that has not (`popExpired_purge`). Of two purges the one by the later reading
decides (`purge_purge_of_le`, `purge_purge_of_ge`). A block that goes through makes one entry
(`redeem_eq_ok`), one that raises makes none (`redeem_eq_error`).
-/

namespace CosaiMcp.Middleware.State

open Py

namespace ReplayCache

variable {φ : Type}

@[simp] theorem heap_forget (s : ReplayCache φ) (jti : Str) : (s.forget jti).heap = s.heap := by
  unfold forget; split <;> rfl

theorem get?_spent_forget (s : ReplayCache φ) (jti j : Str) :
    (s.forget jti).spent.get? j = if j = jti then none else s.spent.get? j := by
  unfold forget
  split
  · rename_i h
    split
    · rename_i hj; rw [hj, h]
    · rfl
  · exact Dict.get?_erase _ _ _

variable [PyFloat φ]

/-- One turn of the loop takes one expired entry out. -/
theorem popExpired_eq_some {s s' : ReplayCache φ} {now : φ} (h : s.popExpired now = some s') :
    ∃ first, s.heap.Perm (first :: s'.heap) ∧ first.1.le now = true ∧
      ∀ j, s'.spent.get? j = if j = first.2 then none else s.spent.get? j := by
  unfold popExpired at h
  split at h
  · cases h
  · rename_i first heap hpop
    split at h
    · rename_i hle
      cases h
      refine ⟨first, ?_, hle, get?_spent_forget _ _⟩
      rw [heap_forget]
      exact (heappop_perm entryLt hpop).2
    · cases h

theorem purgeLoop_spec (now : φ) (n : Nat) (s : ReplayCache φ) :
    ∃ popped : List (FloatOrNan φ × Str),
      s.heap.Perm (popped ++ (purgeLoop now n s).heap) ∧ (∀ p ∈ popped, p.1.le now = true) ∧
      ∀ j, (purgeLoop now n s).spent.get? j =
        if j ∈ popped.map Prod.snd then none else s.spent.get? j := by
  induction n generalizing s with
  | zero => exact ⟨[], .refl _, by simp, fun j => by simp [purgeLoop]⟩
  | succ n ih =>
    unfold purgeLoop
    split
    · exact ⟨[], .refl _, by simp, fun j => by simp⟩
    · rename_i s' hs'
      obtain ⟨first, hperm, hle, hspent⟩ := popExpired_eq_some hs'
      obtain ⟨popped, hperm', hle', hspent'⟩ := ih s'
      refine ⟨first :: popped, hperm.trans (hperm'.cons first), ?_, fun j => ?_⟩
      · intro p hp
        rcases List.mem_cons.mp hp with rfl | hp
        · exact hle
        · exact hle' p hp
      · rw [hspent' j, hspent j, List.map_cons]
        by_cases hj : j = first.2
        · simp only [hj, List.mem_cons, true_or, ↓reduceIte, ite_self]
        · simp only [hj, List.mem_cons, false_or, ↓reduceIte]

/-- The purge takes expired entries off the heap and their `jti`s out of `_spent`, and nothing
else. -/
theorem purge_spec (s : ReplayCache φ) (now : φ) :
    ∃ popped : List (FloatOrNan φ × Str),
      s.heap.Perm (popped ++ (s.purge now).heap) ∧ (∀ p ∈ popped, p.1.le now = true) ∧
      ∀ j, (s.purge now).spent.get? j =
        if j ∈ popped.map Prod.snd then none else s.spent.get? j :=
  purgeLoop_spec now _ s

/-- The purge goes on until the first entry of the heap has not expired. -/
theorem popExpired_purge (s : ReplayCache φ) (now : φ) : (s.purge now).popExpired now = none := by
  have h : ∀ (n : Nat) (s : ReplayCache φ), s.heap.length ≤ n →
      (purgeLoop now n s).popExpired now = none := by
    intro n
    induction n with
    | zero =>
      intro s hs
      have hnil : s.heap = [] := List.length_eq_zero_iff.mp (by omega)
      rw [purgeLoop, popExpired, hnil]
      rfl
    | succ n ih =>
      intro s hs
      unfold purgeLoop
      split
      · assumption
      · rename_i s' hs'
        obtain ⟨first, hperm, -⟩ := popExpired_eq_some hs'
        have hlen := hperm.length_eq
        rw [List.length_cons] at hlen
        exact ih s' (by omega)
  exact h _ s (Nat.le_refl _)

/-! ## Two purges -/

theorem purge_of_popExpired_eq_none {s : ReplayCache φ} {now : φ}
    (h : s.popExpired now = none) : s.purge now = s := by
  unfold purge
  cases s.heap.length with
  | zero => rfl
  | succ n =>
    rw [purgeLoop]
    simp only [h]

theorem purge_of_popExpired_eq_some {s s' : ReplayCache φ} {now : φ}
    (h : s.popExpired now = some s') : s.purge now = s'.purge now := by
  obtain ⟨first, hperm, -⟩ := popExpired_eq_some h
  rw [purge, hperm.length_eq, List.length_cons, purgeLoop]
  simp only [h]
  rfl

/-- What has expired by one reading has expired by a later one. -/
theorem popExpired_mono {s s' : ReplayCache φ} {now now' : φ} (hle : now ≤ now')
    (h : s.popExpired now = some s') : s.popExpired now' = some s' := by
  unfold popExpired at h ⊢
  split at h
  · cases h
  · next first heap hpop =>
    split at h
    · next hexp =>
      cases h
      have hexp' : first.1.le now' = true := by
        cases hfirst : first.1 with
        | nan =>
          rw [hfirst] at hexp
          cases hexp
        | real x =>
          rw [hfirst] at hexp
          exact decide_eq_true ((of_decide_eq_true hexp : x ≤ now).trans hle)
      exact if_pos hexp'
    · cases h

/-- The purge by a reading is the beginning of the purge by any later one. -/
theorem purge_purge_of_le {now now' : φ} (hle : now ≤ now') (s : ReplayCache φ) :
    (s.purge now).purge now' = s.purge now' := by
  induction hn : s.heap.length generalizing s with
  | zero =>
    have hnil : s.heap = [] := List.length_eq_zero_iff.mp hn
    have hnone : s.popExpired now = none := by
      rw [popExpired, hnil]
      rfl
    rw [purge_of_popExpired_eq_none hnone]
  | succ n ih =>
    cases hpop : s.popExpired now with
    | none => rw [purge_of_popExpired_eq_none hpop]
    | some s' =>
      obtain ⟨first, hperm, -⟩ := popExpired_eq_some hpop
      have hlen := hperm.length_eq
      rw [List.length_cons] at hlen
      rw [purge_of_popExpired_eq_some hpop,
        purge_of_popExpired_eq_some (popExpired_mono hle hpop)]
      exact ih s' (by omega)

/-- A purge by an earlier reading finds nothing to do after one by a later reading. -/
theorem purge_purge_of_ge {now now' : φ} (hle : now' ≤ now) (s : ReplayCache φ) :
    (s.purge now).purge now' = s.purge now := by
  apply purge_of_popExpired_eq_none
  cases h : (s.purge now).popExpired now' with
  | none => rfl
  | some s' =>
    have hsome := popExpired_mono hle h
    rw [popExpired_purge] at hsome
    cases hsome

/-! ## Entering -/

/-- A block that goes through found no entry, and made one. -/
theorem redeem_eq_ok {s s' : ReplayCache φ} {t : Ticket φ} (h : s.redeem t = (.ok (), s')) :
    t.jti ∉ (s.purge t.now).spent.keys ∧
    ∃ exp, t.exp.toFloat? = some exp ∧ s'.heap.Perm ((exp, t.jti) :: (s.purge t.now).heap) ∧
      s'.spent = (s.purge t.now).spent.set t.jti t.owner := by
  simp only [redeem] at h
  split at h
  · cases h
  · rename_i hfresh
    split at h
    · cases h
    · split at h
      · cases h
      · rename_i exp hexp
        cases h
        exact ⟨hfresh, exp, hexp, heappush_perm _ _ _, rfl⟩

/-- A block that raises makes no entry, unless `float` of the expiry is what raised. -/
theorem redeem_eq_error {s s' : ReplayCache φ} {t : Ticket φ} {e : OpenError}
    (h : s.redeem t = (.error e, s')) : s' = s.purge t.now ∨ t.exp.toFloat? = none := by
  simp only [redeem] at h
  split at h
  · cases h; exact .inl rfl
  · split at h
    · cases h; exact .inl rfl
    · split at h
      · rename_i hexp; exact .inr hexp
      · cases h

end ReplayCache

end CosaiMcp.Middleware.State
