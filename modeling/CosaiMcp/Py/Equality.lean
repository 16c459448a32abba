import CosaiMcp.Py.Float
import CosaiMcp.Py.Json

/-!
# Equality of JSON values

`Json.pyEq` is `==`: numbers and booleans are compared by value across their types, objects
regardless of the order of their members. The NaN of a document is one object, which is not equal
to itself but is inside a container, where identity is tried first.
-/

namespace Py

variable {φ : Type} [PyFloat φ]

/-- `n == j`. -/
def intEq (n : Int) : Json φ → Bool
  | .bool b => n == (if b then 1 else 0)
  | .int m => n == m
  | .float x => PyFloat.intLe n x && PyFloat.leInt x n
  | _ => false

/-- `x == j`. -/
def floatEq (x : φ) : Json φ → Bool
  | .bool b => PyFloat.intLe (if b then 1 else 0) x && PyFloat.leInt x (if b then 1 else 0)
  | .int n => PyFloat.intLe n x && PyFloat.leInt x n
  | .float y => x ≤ y && y ≤ x
  | _ => false

def Json.isNan : Json φ → Bool
  | .nan => true
  | _ => false

mutual

/-- `a == b`. -/
def Json.pyEq : Json φ → Json φ → Bool
  | .null, b => b.isNull
  | .bool a, b => intEq (if a then 1 else 0) b
  | .int n, b => intEq n b
  | .float x, b => floatEq x b
  | .nan, _ => false
  | .str s, .str t => s == t
  | .str _, _ => false
  | .arr js, .arr ks => Json.pyEqItems js ks
  | .arr _, _ => false
  | .obj ms, .obj ns => ms.length == ns.length && Json.pyEqMembers ms (.obj ns)
  | .obj _, _ => false

def Json.pyEqItems : List (Json φ) → List (Json φ) → Bool
  | [], [] => true
  | j :: js, k :: ks => (j.isNan && k.isNan || j.pyEq k) && Json.pyEqItems js ks
  | _, _ => false

/-- Every member is one of the other object. -/
def Json.pyEqMembers : List (Str × Json φ) → Json φ → Bool
  | [], _ => true
  | (k, v) :: ms, other =>
    (match other.get? k with
      | some w => v.isNan && w.isNan || v.pyEq w
      | none => false) && Json.pyEqMembers ms other

end

end Py
