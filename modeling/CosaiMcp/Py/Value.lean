import CosaiMcp.Py.Float
import CosaiMcp.Py.Json

/-!
# Values of a document as operands

What `not v`, arithmetic and `set` make of a value that `json.loads` yields.
-/

namespace Py

variable {φ : Type}

/-- `isinstance(v, (int, float))`: a `bool` is an `int`. -/
def asNum? : Json φ → Option (Num φ)
  | .bool b => some (.int (if b then 1 else 0))
  | .int n => some (.int n)
  | .float x => some (.float (.real x))
  | .nan => some (.float .nan)
  | _ => none

/-- `bool(v)`. -/
def Json.truthy [PyFloat φ] : Json φ → Bool
  | .null => false
  | .bool b => b
  | .int n => n ≠ 0
  | .float x => !(PyFloat.intLe 0 x && PyFloat.leInt x 0)
  | .nan => true
  | .str s => s ≠ []
  | .arr js => !js.isEmpty
  | .obj ms => !ms.isEmpty

/-- An object or an array has no hash. -/
def Json.hashable : Json φ → Bool
  | .arr _ | .obj _ => false
  | _ => true

theorem Json.hashable_bool (b : Bool) : (bool b : Json φ).hashable = true := rfl

end Py
