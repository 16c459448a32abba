import CosaiMcp.Py.JsonRead

/-!
# Equality of JSON values whatever the order of keys

`Json.Same` relates arrays item by item, and objects that have the same keys with related values.
For values whose objects have no key twice it is equality of the sorted values (`same_iff_sorted`),
so that canonical texts agree just on related values (`canonical_eq_iff`).
-/

namespace Py

variable {φ : Type}

inductive Json.Same : Json φ → Json φ → Prop
  | null : Same .null .null
  | bool (b : Bool) : Same (.bool b) (.bool b)
  | int (n : Int) : Same (.int n) (.int n)
  | float (x : φ) : Same (.float x) (.float x)
  | nan : Same .nan .nan
  | str (s : Str) : Same (.str s) (.str s)
  | arr {is js : List (Json φ)} (h : List.Forall₂ Same is js) : Same (.arr is) (.arr js)
  | obj {ms ns : List (Str × Json φ)}
      (h : ∀ k, Option.Rel Same ((Json.obj ms).get? k) ((Json.obj ns).get? k)) :
      Same (.obj ms) (.obj ns)

theorem forall₂_iff_map_eq {α β : Type} {R : α → α → Prop} {P : α → Prop} {f : α → β}
    {as : List α} : ∀ {bs : List α}, (∀ a ∈ as, ∀ b, P b → (R a b ↔ f a = f b)) → (∀ b ∈ bs, P b) →
      (List.Forall₂ R as bs ↔ as.map f = bs.map f) := by
  induction as with
  | nil => intro bs _ _; cases bs <;> simp
  | cons a as ih =>
    intro bs h hbs
    cases bs with
    | nil => simp
    | cons b bs =>
      rw [List.forall₂_cons, List.map_cons, List.map_cons, List.cons.injEq,
        h a List.mem_cons_self b (hbs b List.mem_cons_self),
        ih (fun a ha => h a (List.mem_cons_of_mem _ ha))
          fun b hb => hbs b (List.mem_cons_of_mem _ hb)]

theorem optionRel_iff_map_eq {α β : Type} {R : α → α → Prop} {f : α → β} {a b : Option α}
    (h : ∀ x, a = some x → ∀ y, b = some y → (R x y ↔ f x = f y)) :
    Option.Rel R a b ↔ a.map f = b.map f := by
  cases a with
  | none =>
    cases b with
    | none => exact iff_of_true .none rfl
    | some y => exact iff_of_false (fun h => nomatch h) (fun h => nomatch h)
  | some x =>
    cases b with
    | none => exact iff_of_false (fun h => nomatch h) (fun h => nomatch h)
    | some y =>
      rw [Option.map_some, Option.map_some, Option.some.injEq, ← h x rfl y rfl]
      exact ⟨fun h => by cases h; assumption, .some⟩

theorem Json.same_arr {is js : List (Json φ)} :
    (Json.arr is).Same (.arr js) ↔ List.Forall₂ Json.Same is js :=
  ⟨fun h => by cases h; assumption, .arr⟩

theorem Json.same_obj {ms ns : List (Str × Json φ)} :
    (Json.obj ms).Same (.obj ns) ↔
      ∀ k, Option.Rel Json.Same ((Json.obj ms).get? k) ((Json.obj ns).get? k) :=
  ⟨fun h => by cases h; assumption, .obj⟩

/-- Values are the same whatever the order of keys just when they are equal once sorted. -/
theorem Json.same_iff_sorted {i : Json φ} : ∀ {j : Json φ}, i.Stable → j.Stable →
    (i.Same j ↔ i.sorted = j.sorted) := by
  induction i using Json.induct with
  | arr is ih =>
    intro j hi hj
    cases j with
    | arr js =>
      have hi := Json.stableItems_iff.mp hi
      rw [Json.same_arr, Json.sorted, Json.sorted, Json.sortedItems_eq, Json.sortedItems_eq,
        Json.arr.injEq]
      exact forall₂_iff_map_eq (fun i hmem j => ih i hmem (hi i hmem)) (Json.stableItems_iff.mp hj)
    | _ => exact iff_of_false (by rintro ⟨⟩) (by rintro ⟨⟩)
  | obj ms ih =>
    intro j hi hj
    cases j with
    | obj ns =>
      rw [Json.same_obj, Json.sorted_obj_eq_iff hi.1 hj.1]
      refine forall_congr' fun k => optionRel_iff_map_eq fun v hv w hw => ?_
      exact ih _ ((Json.get?_eq_some_iff hi.1).mp hv) (stable_of_get? hi hv) (stable_of_get? hj hw)
    | _ => exact iff_of_false (by rintro ⟨⟩) (by rintro ⟨⟩)
  | _ =>
    intro j _ _
    constructor
    · intro h
      cases h
      rfl
    · intro h
      cases j <;> cases h
      constructor

/-- Canonical texts agree just on values that are the same whatever the order of keys. -/
theorem Json.canonical_eq_iff [FloatText φ] {i j : Json φ} (hi : i.Stable) (hj : j.Stable) :
    i.canonical = j.canonical ↔ i.Same j := by
  rw [Json.same_iff_sorted hi hj]
  exact ⟨sorted_eq_of_canonical_eq hi hj, fun h => congrArg Json.text h⟩

end Py
