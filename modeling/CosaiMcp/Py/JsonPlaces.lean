import CosaiMcp.Py.Equality
import CosaiMcp.Py.JsonRead

/-!
# Places in a JSON value

A place is a way from a value down to a part of it, by keys and indexes (`atPlace?`). Sorting the
members of all objects moves nothing (`atPlace?_sorted`), and neither does a round trip of a value
whose keys are stable (`atPlace?_reload`). A value is covered by another one if that one shows the
like at every place of the first (`Covers`).
-/

namespace Py

/-- A step down. -/
inductive Step where
  | key (k : Str)
  | index (i : Nat)
deriving DecidableEq

variable {φ : Type}

def Step.part? (j : Json φ) : Step → Option (Json φ)
  | .key k => j.get? k
  | .index i =>
    match j with
    | .arr js => js[i]?
    | _ => none

/-- The part of a value at a place. -/
def atPlace? : List Step → Json φ → Option (Json φ)
  | [], j => some j
  | p :: ps, j => (p.part? j).bind (atPlace? ps)

theorem atPlace?_cons (p : Step) (ps : List Step) (j : Json φ) :
    atPlace? (p :: ps) j = (p.part? j).bind (atPlace? ps) := rfl

/-! ## Places of a value that was sorted or read back -/

theorem Json.KeysStable.part {j v : Json φ} (h : j.KeysStable) {p : Step}
    (hv : p.part? j = some v) : v.KeysStable := by
  cases h with
  | arr hjs =>
    cases p with
    | key k => cases hv
    | index i => exact hjs v (List.mem_of_getElem? hv)
  | obj hn hk hms =>
    cases p with
    | key k => exact hms _ ((Json.get?_eq_some_iff hn).mp hv)
    | index i => cases hv
  | _ => cases p <;> cases hv

theorem stable_of_part {j v : Json φ} (h : j.Stable) {p : Step} (hv : p.part? j = some v) :
    v.Stable := by
  cases p with
  | key k => exact stable_of_get? h hv
  | index i =>
    cases j with
    | arr js => exact Json.stableItems_iff.mp h v (List.mem_of_getElem? hv)
    | _ => cases hv

theorem stable_of_atPlace {j v : Json φ} (h : j.Stable) {ps : List Step}
    (hv : atPlace? ps j = some v) : v.Stable := by
  induction ps generalizing j with
  | nil => cases hv; exact h
  | cons p ps ih =>
    rw [atPlace?_cons] at hv
    obtain ⟨w, hw, hv⟩ := Option.bind_eq_some_iff.mp hv
    exact ih (stable_of_part h hw) hv

theorem part?_sorted {j : Json φ} (h : j.KeysStable) (p : Step) :
    p.part? j.sorted = (p.part? j).map Json.sorted := by
  cases h with
  | @arr js hjs =>
    cases p with
    | key k => rfl
    | index i =>
      rw [Json.sorted, Json.sortedItems_eq]
      exact List.getElem?_map
  | obj hn hk hms =>
    cases p with
    | key k => exact Json.get?_sorted hn k
    | index i => rw [Json.sorted_obj]; rfl
  | _ => cases p <;> rfl

theorem part?_reload {j : Json φ} (h : j.KeysStable) (p : Step) :
    p.part? j.reload = (p.part? j).map Json.reload := by
  cases h with
  | @arr js hjs =>
    cases p with
    | key k => rfl
    | index i =>
      rw [Json.reload, Json.reloadItems_eq]
      exact List.getElem?_map
  | obj hn hk hms =>
    rw [reload_obj_of_keys hn hk]
    cases p with
    | key k => exact Json.get?_map Json.reload _ k
    | index i => rfl
  | _ => cases p <;> rfl

theorem atPlace?_sorted {j : Json φ} (h : j.KeysStable) (ps : List Step) :
    atPlace? ps j.sorted = (atPlace? ps j).map Json.sorted := by
  induction ps generalizing j with
  | nil => rfl
  | cons p ps ih =>
    rw [atPlace?_cons, atPlace?_cons, part?_sorted h]
    cases hv : p.part? j with
    | none => rfl
    | some v => exact ih (h.part hv)

theorem atPlace?_reload {j : Json φ} (h : j.KeysStable) (ps : List Step) :
    atPlace? ps j.reload = (atPlace? ps j).map Json.reload := by
  induction ps generalizing j with
  | nil => rfl
  | cons p ps ih =>
    rw [atPlace?_cons, atPlace?_cons, part?_reload h]
    cases hv : p.part? j with
    | none => rfl
    | some v => exact ih (h.part hv)

/-! ## Values that show nothing else -/

/-- `type(a) is type(b)`. -/
def Json.sameType : Json φ → Json φ → Bool
  | .null, .null | .bool _, .bool _ | .int _, .int _ | .str _, .str _ | .arr _, .arr _ => true
  | .obj _, .obj _ => true
  | .float _, .float _ | .float _, .nan | .nan, .float _ | .nan, .nan => true
  | _, _ => false

variable [PyFloat φ]

/-- Both are objects, arrays of one length, or equal and of one type. -/
def Json.alike (v w : Json φ) : Bool :=
  match v, w with
  | .obj _, .obj _ => true
  | .arr js, .arr ks => js.length == ks.length
  | v, w => v.pyEq w && v.sameType w

/-- At every place of `v` the value `w` shows the like. -/
def Covers (w v : Json φ) : Prop :=
  ∀ ps x, atPlace? ps v = some x → ∃ y, atPlace? ps w = some y ∧ x.alike y = true

theorem covers_iff {w v : Json φ} :
    Covers w v ↔ v.alike w = true ∧
      ∀ (p : Step) x, p.part? v = some x → ∃ y, p.part? w = some y ∧ Covers y x := by
  constructor
  · intro h
    obtain ⟨y, hy, halike⟩ := h [] v rfl
    cases hy
    refine ⟨halike, fun p x hx => ?_⟩
    obtain ⟨y, hy, -⟩ := h [p] x (by rw [atPlace?_cons, hx]; rfl)
    rw [atPlace?_cons] at hy
    obtain ⟨z, hz, -⟩ := Option.bind_eq_some_iff.mp hy
    refine ⟨z, hz, fun ps x' hx' => ?_⟩
    obtain ⟨y', hy', halike'⟩ := h (p :: ps) x' (by rw [atPlace?_cons, hx]; exact hx')
    rw [atPlace?_cons, hz] at hy'
    exact ⟨y', hy', halike'⟩
  · rintro ⟨halike, hparts⟩ ps x hx
    cases ps with
    | nil => cases hx; exact ⟨w, rfl, halike⟩
    | cons p ps =>
      rw [atPlace?_cons] at hx
      obtain ⟨v', hv', hx⟩ := Option.bind_eq_some_iff.mp hx
      obtain ⟨w', hw', hcovers⟩ := hparts p v' hv'
      obtain ⟨y, hy, halike'⟩ := hcovers ps x hx
      exact ⟨y, by rw [atPlace?_cons, hw']; exact hy, halike'⟩

theorem alike_self_iff (j : Json φ) : j.alike j = true ↔ j ≠ .nan := by
  cases j with
  | float x => simp [Json.alike, Json.pyEq, floatEq, Json.sameType]
  | int n => simp [Json.alike, Json.pyEq, intEq, Json.sameType]
  | bool b => cases b <;> simp [Json.alike, Json.pyEq, intEq, Json.sameType]
  | null => simp [Json.alike, Json.pyEq, Json.isNull, Json.sameType]
  | _ => simp [Json.alike, Json.pyEq, Json.sameType]

theorem nan_alike (j : Json φ) : (Json.nan : Json φ).alike j = false := by
  cases j <;> simp [Json.alike, Json.pyEq]

theorem not_nan_of_covers {w v : Json φ} (h : Covers w v) (ps : List Step) :
    atPlace? ps v ≠ some .nan := by
  intro hnan
  obtain ⟨y, -, halike⟩ := h ps .nan hnan
  rw [nan_alike] at halike
  cases halike

/-- A value covers itself, unless it has a NaN, which is not equal to itself. -/
theorem covers_self_iff {j : Json φ} : Covers j j ↔ ∀ ps, atPlace? ps j ≠ some .nan := by
  refine ⟨not_nan_of_covers, fun h ps x hx => ⟨x, hx, (alike_self_iff x).mpr ?_⟩⟩
  rintro rfl
  exact h ps hx

end Py
