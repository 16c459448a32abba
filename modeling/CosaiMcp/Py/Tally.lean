import CosaiMcp.Py.Dict
import Mathlib.Data.List.Count

/-!
# Exact tallies

A counting dictionary `c` is *exact* for a list `l` and a key function `f` when it stores, for every
key that some element of `l` has, the number of those elements, and nothing for any other key
(`Exact`). Adding one element and removing one element keep exactness (`Exact.insert`,
`Exact.remove`); both are stated up to the order of `l`, so a caller only says which element came or
went. `Exact.getD` reads an exact tally back as a count.
-/

namespace Py

universe u v

variable {α : Type u} {κ : Type v} [DecidableEq κ]

/-- How many elements of `l` have the key `k`. -/
def countKey (f : α → κ) (l : List α) (k : κ) : Nat := l.countP fun a => decide (f a = k)

/-- The stored form of a count: a zero is not stored. -/
def tally (n : Nat) : Option Int := if n = 0 then none else some n

/-- `c` counts the elements of `l` by key, and stores no zero. -/
def Exact (c : Dict κ Int) (f : α → κ) (l : List α) : Prop :=
  ∀ k, c.get? k = tally (countKey f l k)

@[simp] theorem countKey_nil (f : α → κ) (k : κ) : countKey f [] k = 0 := rfl

theorem countKey_cons (f : α → κ) (a : α) (l : List α) (k : κ) :
    countKey f (a :: l) k = countKey f l k + if f a = k then 1 else 0 := by
  simp [countKey, List.countP_cons]

theorem countKey_append (f : α → κ) (l l' : List α) (k : κ) :
    countKey f (l ++ l') k = countKey f l k + countKey f l' k :=
  List.countP_append

theorem countKey_perm {f : α → κ} {l l' : List α} (h : l.Perm l') (k : κ) :
    countKey f l k = countKey f l' k :=
  h.countP_eq _

theorem Exact.nil (f : α → κ) : Exact Dict.empty f ([] : List α) := fun _ => rfl

/-- Reading an exact tally with default `0` gives the count. -/
theorem Exact.getD {c : Dict κ Int} {f : α → κ} {l : List α} (h : Exact c f l) (k : κ) :
    (c.get? k).getD 0 = countKey f l k := by
  rw [h k, tally]
  split
  · rename_i h0; simp [h0]
  · rfl

/-- A stored count is positive. -/
theorem Exact.pos {c : Dict κ Int} {f : α → κ} {l : List α} (h : Exact c f l) {k : κ} {n : Int}
    (hk : c.get? k = some n) : 0 < n := by
  rw [h k, tally] at hk
  split at hk
  · cases hk
  · cases hk; omega

/-- Counting one more element of key `f a`. -/
theorem Exact.insert {c : Dict κ Int} {f : α → κ} {l l' : List α} {a : α} (h : Exact c f l)
    (hp : l'.Perm (a :: l)) : Exact (c.set (f a) ((c.get? (f a)).getD 0 + 1)) f l' := by
  intro k
  rw [Dict.get?_set, countKey_perm hp, countKey_cons, h.getD]
  by_cases hk : k = f a
  · subst hk; simp [tally]
  · simp [hk, Ne.symm hk, h k]

/-- Counting one element of key `f a` less: the count goes down by one, and is dropped at zero. -/
theorem Exact.remove {c c' : Dict κ Int} {f : α → κ} {l l' : List α} {a : α} (h : Exact c f l)
    (hp : l.Perm (a :: l'))
    (hc : ∀ k, c'.get? k = if k = f a then
      (if 0 < (c.get? k).getD 1 - 1 then some ((c.get? k).getD 1 - 1) else none) else c.get? k) :
    Exact c' f l' := by
  intro k
  have hcount : countKey f l k = countKey f l' k + if f a = k then 1 else 0 := by
    rw [countKey_perm hp, countKey_cons]
  rw [hc k]
  by_cases hk : k = f a
  · subst hk
    simp only [↓reduceIte] at hcount ⊢
    have hget : c.get? (f a) = some ((countKey f l' (f a) : Int) + 1) := by
      rw [h (f a), hcount]; simp [tally]
    rw [hget, Option.getD_some, tally]
    by_cases h0 : countKey f l' (f a) = 0
    · simp [h0]
    · have hpos : (0 : Int) < (countKey f l' (f a) : Int) + 1 - 1 := by omega
      rw [ite_cond_eq_true _ _ (eq_true hpos), ite_cond_eq_false _ _ (eq_false h0)]
      congr 1
      omega
  · rw [h k, hcount]; simp [hk, Ne.symm hk]

end Py
