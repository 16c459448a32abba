import CosaiMcp.Py.Dict
import CosaiMcp.Py.Str

/-!
# Helpers of `middleware/state.py`

What the sealer's replay cache and the handle registry share: the floor below which an owner is
admitted past a cap, the counters and the comparison of strings.
-/

namespace CosaiMcp.Middleware.State

open Py

def ownerFloor : Int := 8

/-- `_decrement`. -/
def decrement {κ : Type} [DecidableEq κ] (counts : Dict κ Int) (key : κ) : Dict κ Int :=
  let left := (counts.get? key).getD 1 - 1
  if 0 < left then counts.set key left else counts.erase key

theorem get?_decrement {κ : Type} [DecidableEq κ] (counts : Dict κ Int) (key k : κ) :
    (decrement counts key).get? k = if k = key then
      (if 0 < (counts.get? k).getD 1 - 1 then some ((counts.get? k).getD 1 - 1) else none)
      else counts.get? k := by
  unfold decrement
  by_cases hk : k = key
  · subst hk
    simp only [↓reduceIte]
    split
    · rw [Dict.get?_set]; simp
    · rw [Dict.get?_erase]; simp
  · simp only [hk, ↓reduceIte]
    split
    · rw [Dict.get?_set]; simp [hk]
    · rw [Dict.get?_erase]; simp [hk]

/-- `_eq`: a value that is not a `str` is different from every string; `none` is the
`UnicodeEncodeError` of a lone surrogate. -/
def strEq (a : Option Str) (b : Str) : Option Bool :=
  match a with
  | none => some false
  | some a => do
    let x ← encodeUtf8 a
    let y ← encodeUtf8 b
    some (x == y)

theorem strEq_eq_true_iff {a : Option Str} {b : Str} :
    strEq a b = some true ↔ a = some b ∧ isScalar b = true := by
  cases a with
  | none => simp [strEq]
  | some a =>
    constructor
    · intro h
      obtain ⟨x, hx, h⟩ := Option.bind_eq_some_iff.mp h
      obtain ⟨y, hy, h⟩ := Option.bind_eq_some_iff.mp h
      have hxy : x = y := by simpa using h
      subst hxy
      exact ⟨congrArg some (encodeUtf8_inj hx hy), isScalar_of_encodeUtf8 hy⟩
    · rintro ⟨hab, hb⟩
      cases hab
      obtain ⟨x, hx⟩ := exists_encodeUtf8 hb
      simp [strEq, hx]

end CosaiMcp.Middleware.State
