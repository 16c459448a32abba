import CosaiMcp.Py.Float
import Mathlib.Algebra.Order.Floor.Ring
import Mathlib.Data.Rat.Floor
import Mathlib.Tactic.Linarith

/-!
# Sums and differences of floats

`FloatArith φ` adds to `PyFloat φ` the value of a finite float, and sum, difference and magnitude.
Of rounding only what correct rounding gives about integers is assumed: a result does not pass an
integer of at most 53 bits that the exact value does not pass (`Rounds`).
-/

namespace Py

/-- No integer of at most 53 bits lies between the float `z` and the number `q`. -/
def Rounds {φ : Type} [PyFloat φ] (z : φ) (q : ℚ) : Prop :=
  ∀ n : ℤ, |n| ≤ 2 ^ 53 →
    ((n : ℚ) ≤ q → PyFloat.intLe n z = true) ∧ (q ≤ n → PyFloat.leInt z n = true)

class FloatArith (φ : Type) extends PyFloat φ where
  /-- The value of a finite float. -/
  rat? : φ → Option ℚ
  /-- `x + y`. -/
  add : φ → φ → FloatOrNan φ
  /-- `x - y`. -/
  sub : φ → φ → FloatOrNan φ
  /-- `abs(x)`. -/
  abs : φ → φ
  intLe_iff : ∀ {x q}, rat? x = some q → ∀ n : ℤ, intLe n x = true ↔ (n : ℚ) ≤ q
  intLe_or_leInt_of_infinite : ∀ {x}, rat? x = none →
    (∀ n, leInt x n = false) ∨ ∀ n, intLe n x = false
  le_iff_leInt : ∀ {x y} {n : ℤ}, rat? y = some (n : ℚ) → (x ≤ y ↔ leInt x n = true)
  intLe_trans : ∀ {x y n}, intLe n x = true → x ≤ y → intLe n y = true
  int_le_of_leInt : ∀ {x m n}, intLe m x = true → leInt x n = true → m ≤ n
  leInt_abs_iff : ∀ {x n}, leInt (abs x) n = true ↔ leInt x n = true ∧ intLe (-n) x = true
  add_of_finite : ∀ {x y p q}, rat? x = some p → rat? y = some q →
    ∃ z, add x y = .real z ∧ Rounds z (p + q)
  sub_of_finite : ∀ {x y p q}, rat? x = some p → rat? y = some q →
    ∃ z, sub x y = .real z ∧ Rounds z (p - q)
  sub_of_infinite : ∀ {x y p}, rat? x = some p → rat? y = none →
    ∃ z, sub x y = .real z ∧ rat? z = none

section

variable {φ : Type} [FloatArith φ]

/-- `x + y`. -/
def FloatOrNan.add (x : FloatOrNan φ) (y : φ) : FloatOrNan φ :=
  match x with
  | .real x => FloatArith.add x y
  | .nan => .nan

/-- `x - y`. -/
def FloatOrNan.sub (x : FloatOrNan φ) (y : φ) : FloatOrNan φ :=
  match x with
  | .real x => FloatArith.sub x y
  | .nan => .nan

/-- `y - x`. -/
def FloatOrNan.subFrom (x : FloatOrNan φ) (y : φ) : FloatOrNan φ :=
  match x with
  | .real x => FloatArith.sub y x
  | .nan => .nan

/-- `abs(x)`. -/
def FloatOrNan.abs : FloatOrNan φ → FloatOrNan φ
  | .real x => .real (FloatArith.abs x)
  | .nan => .nan

/-- `x < y`. -/
def FloatOrNan.lt (x : FloatOrNan φ) (y : φ) : Bool :=
  match x with
  | .real x => !(y ≤ x)
  | .nan => false

/-- `x > y`. -/
def FloatOrNan.gt (x : FloatOrNan φ) (y : φ) : Bool :=
  match x with
  | .real x => !(x ≤ y)
  | .nan => false

end

/-! ## The floats with an integral value -/

namespace WholeFloat

def rat? : WholeFloat → Option ℚ
  | .whole n => some n
  | .negInf | .inf => none

def add : WholeFloat → WholeFloat → FloatOrNan WholeFloat
  | .whole m, .whole n => .real (.whole (m + n))
  | .inf, .negInf | .negInf, .inf => .nan
  | .inf, _ | _, .inf => .real .inf
  | .negInf, _ | _, .negInf => .real .negInf

def neg : WholeFloat → WholeFloat
  | .whole n => .whole (-n)
  | .inf => .negInf
  | .negInf => .inf

def abs : WholeFloat → WholeFloat
  | .whole n => .whole |n|
  | .inf | .negInf => .inf

theorem rounds_whole {n : ℤ} : Rounds (WholeFloat.whole n) n := by
  intro m _
  constructor
  · intro h
    exact decide_eq_true (by exact_mod_cast h)
  · intro h
    exact decide_eq_true (by exact_mod_cast h)

instance : FloatArith WholeFloat where
  rat? := rat?
  add := add
  sub x y := add x (neg y)
  abs := abs
  intLe_iff {x q} hx n := by
    cases x with
    | whole m =>
      cases hx
      exact decide_eq_true_iff.trans Int.cast_le.symm
    | inf => cases hx
    | negInf => cases hx
  intLe_or_leInt_of_infinite {x} hx := by
    cases x with
    | whole m => cases hx
    | inf => exact .inl fun n => rfl
    | negInf => exact .inr fun n => rfl
  le_iff_leInt {x y n} hy := by
    cases y with
    | whole m =>
      have hm : m = n := by exact_mod_cast Option.some.inj hy
      rw [hm]
      rfl
    | inf => cases hy
    | negInf => cases hy
  intLe_trans {x y n} hx hxy := le_trans (α := WholeFloat) (a := .whole n) hx hxy
  int_le_of_leInt {x m n} hm hn := by
    have h := le_trans (α := WholeFloat) (a := .whole m) (c := .whole n) hm hn
    exact of_decide_eq_true h
  leInt_abs_iff {x n} := by
    cases x with
    | whole m =>
      show decide (|m| ≤ n) = true ↔ decide (m ≤ n) = true ∧ decide (-n ≤ m) = true
      rw [decide_eq_true_iff, decide_eq_true_iff, decide_eq_true_iff, abs_le, and_comm]
    | inf => exact ⟨nofun, fun h => h.1⟩
    | negInf => exact ⟨nofun, fun h => nomatch h.2⟩
  add_of_finite {x y p q} hx hy := by
    cases x with
    | whole m =>
      cases y with
      | whole n =>
        cases hx
        cases hy
        refine ⟨.whole (m + n), rfl, ?_⟩
        exact_mod_cast rounds_whole (n := m + n)
      | inf => cases hy
      | negInf => cases hy
    | inf => cases hx
    | negInf => cases hx
  sub_of_finite {x y p q} hx hy := by
    cases x with
    | whole m =>
      cases y with
      | whole n =>
        cases hx
        cases hy
        refine ⟨.whole (m + -n), rfl, ?_⟩
        exact_mod_cast rounds_whole (n := m + -n)
      | inf => cases hy
      | negInf => cases hy
    | inf => cases hx
    | negInf => cases hx
  sub_of_infinite {x y p} hx hy := by
    cases x with
    | whole m =>
      cases y with
      | whole n => cases hy
      | inf => exact ⟨.negInf, rfl, rfl⟩
      | negInf => exact ⟨.inf, rfl, rfl⟩
    | inf => cases hx
    | negInf => cases hx

end WholeFloat

end Py
