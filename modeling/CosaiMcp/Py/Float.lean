import CosaiMcp.Py.Number
import Mathlib.Order.Basic
import Mathlib.Order.Defs.PartialOrder

/-!
# Floating-point numbers

`PyFloat φ` is what the model takes from the `float` type: its text, a total order, the exact
comparison with integers, `float(n)` and the sum with an integer. `φ` stands for the floats other
than NaN; `0.0` and `-0.0` may be two values, each at most the other.

`WholeFloat` is a concrete instance on which the model can be run: the floats with an integral
value, and the infinities.
-/

namespace Py

class PyFloat (φ : Type) extends FloatText φ, Preorder φ where
  le_total : ∀ x y : φ, x ≤ y ∨ y ≤ x
  decidableLe : DecidableLE φ
  /-- `n <= x`. -/
  intLe : Int → φ → Bool
  /-- `x <= n`. -/
  leInt : φ → Int → Bool
  /-- `float(n)`; `none` is `OverflowError`. -/
  ofInt : Int → Option φ
  /-- `x + n`, for `n` within the range of `float`. -/
  addInt : φ → Int → φ

section Order

variable {φ : Type} [PyFloat φ]

instance PyFloat.instDecidableLE : DecidableLE φ := PyFloat.decidableLe

theorem PyFloat.not_le {x y : φ} : ¬ x ≤ y ↔ y < x :=
  ⟨fun h => lt_of_le_not_ge ((PyFloat.le_total x y).resolve_left h) h, fun h => not_le_of_gt h⟩

end Order

/-! ## Numbers of a document -/

/-- A float that may be NaN. -/
inductive FloatOrNan (φ : Type) where
  | real (x : φ)
  | nan
deriving DecidableEq

/-- An `int` or a `float`. -/
inductive Num (φ : Type) where
  | int (n : Int)
  | float (x : FloatOrNan φ)
deriving DecidableEq

section Num

variable {φ : Type} [PyFloat φ]

/-- `x <= y`. -/
def FloatOrNan.le (x : FloatOrNan φ) (y : φ) : Bool :=
  match x with
  | .real x => x ≤ y
  | .nan => false

/-- `n <= y`. -/
def Num.le (n : Num φ) (y : φ) : Bool :=
  match n with
  | .int n => PyFloat.intLe n y
  | .float x => x.le y

/-- `float(n)`; `none` is `OverflowError`. -/
def Num.toFloat? : Num φ → Option (FloatOrNan φ)
  | .int n => (PyFloat.ofInt n).map .real
  | .float x => some x

/-- The order in which tuples compare floats: the `NaN` of a JSON document is one object, and a
tuple takes an object to be equal to itself. -/
def FloatOrNan.before (x y : FloatOrNan φ) : Ordering :=
  match x, y with
  | .real x, .real y => if x ≤ y then (if y ≤ x then .eq else .lt) else .gt
  | .nan, .nan => .eq
  | _, _ => .gt

end Num

/-! ## The floats with an integral value -/

inductive WholeFloat where
  | negInf
  | whole (n : Int)
  | inf
deriving DecidableEq

namespace WholeFloat

def text : WholeFloat → Str
  | .negInf => lit "-Infinity"
  | .whole n => intText n ++ lit ".0"
  | .inf => lit "Infinity"

def ofText (s : Str) : WholeFloat := .whole (intOf (s.takeWhile fun c => c ≠ 46))

def le : WholeFloat → WholeFloat → Bool
  | .negInf, _ => true
  | .whole _, .negInf => false
  | .whole m, .whole n => m ≤ n
  | .whole _, .inf => true
  | .inf, .inf => true
  | .inf, _ => false

def addInt : WholeFloat → Int → WholeFloat
  | .whole m, n => .whole (m + n)
  | x, _ => x

theorem scanNumber_text (n : Int) :
    scanNumber (text (.whole n)) = some (text (.whole n), true, []) :=
  scanNumber_intText_append (r := lit ".0") (fun _ hc => by cases hc; rfl) n

theorem ofText_text (n : Int) : ofText (text (.whole n)) = .whole n := by
  have hdot : (46 : CodePoint) ∉ intText n := by
    intro h
    cases n with
    | ofNat n => exact absurd (isDigit_of_mem_natText h) (by decide)
    | negSucc n =>
      rcases List.mem_cons.mp h with h | h
      · exact absurd h (by decide)
      · exact absurd (isDigit_of_mem_natText h) (by decide)
  have htake : (text (.whole n)).takeWhile (fun c => c ≠ 46) = intText n := by
    rw [text, List.takeWhile_append_of_pos]
    · exact List.append_nil _
    · intro c hc
      simpa using fun h : c = 46 => hdot (h ▸ hc)
  rw [ofText, htake, intOf_intText]

instance : PyFloat WholeFloat where
  repr := text
  ofText := ofText
  inf := .inf
  negInf := .negInf
  repr_cases x := by
    cases x with
    | negInf => exact .inr (.inl ⟨rfl, rfl⟩)
    | inf => exact .inl ⟨rfl, rfl⟩
    | whole n => exact .inr (.inr ⟨scanNumber_text n, ofText_text n⟩)
  le x y := le x y
  le_refl x := by cases x <;> simp [le]
  le_trans x y z hxy hyz := by
    cases x <;> cases y <;> cases z <;> simp [le] at hxy hyz ⊢
    omega
  le_total x y := by
    cases x <;> cases y <;> simp [le]
    omega
  decidableLe x y := inferInstanceAs (Decidable (le x y = true))
  intLe n x := le (.whole n) x
  leInt x n := le x (.whole n)
  ofInt n := some (.whole n)
  addInt := addInt

end WholeFloat

end Py
