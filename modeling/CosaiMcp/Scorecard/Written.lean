import CosaiMcp.Py.JsonRead
import CosaiMcp.Assurance.Serial

/-!
# Files that are written as they were read

A member of a file is read, converted and written again. It comes out as it was (`Same`) just when
it has the type that is written: a text for `str`, an integer for `int`, a list for a loop.
-/

namespace CosaiMcp.Scorecard

open Py Assurance

variable {φ : Type}

/-! ## Members of a file -/

/-- The value `w` of the file is what is written in its place. -/
def Same (w e : Json φ) : Prop := w.sorted = e.sorted.reload

/-- What was read of a key that is there is its value. -/
def Reads (d : Json φ) (key : Str) (x : Json φ) : Prop := ∀ w, d.get? key = some w → x = w

def HasText (d : Json φ) (key : Str) : Prop := ∃ s, d.get? key = some (.str s)

def HasInt (d : Json φ) (key : Str) : Prop := ∃ n, d.get? key = some (.int n)

def HasTexts (d : Json φ) (key : Str) : Prop := ∃ ss, d.get? key = some (texts ss)

/-- `None`, or a text other than the empty one. -/
def HasOptText (d : Json φ) (key : Str) : Prop :=
  d.get? key = some .null ∨ ∃ s, s ≠ [] ∧ d.get? key = some (.str s)

/-- A list with elements of this form. -/
def HasArray (d : Json φ) (key : Str) (N : Json φ → Prop) : Prop :=
  ∃ js, d.get? key = some (.arr js) ∧ ∀ j ∈ js, N j

def HasObject (d : Json φ) (key : Str) : Prop := ∃ ms, d.get? key = some (.obj ms)

/-- No keys other than these. -/
def OnlyKeys (d : Json φ) (keys : List Str) : Prop := ∀ key, d.get? key ≠ none → key ∈ keys

theorem reads_of_subscript {d : Json φ} {key : Str} {x : Json φ} (h : subscript d key = .ok x) :
    Reads d key x := by
  intro w hw
  cases d with
  | obj ms =>
    rw [subscript_eq hw] at h
    exact (Except.ok.inj h).symm
  | _ => cases hw

theorem reads_of_getDefault {d : Json φ} {key : Str} {default x : Json φ}
    (h : getDefault d key default = .ok x) : Reads d key x := by
  intro w hw
  cases d with
  | obj ms =>
    rw [getDefault_eq hw] at h
    exact (Except.ok.inj h).symm
  | _ => cases hw

/-! ## Values that are written as they are -/

theorem sorted_eq_str {x : Json φ} {s : Str} (h : x.sorted = .str s) : x = .str s := by
  cases x with
  | str t => exact h
  | obj ms => rw [Json.sorted_obj] at h; cases h
  | _ => cases h

theorem sorted_eq_int {x : Json φ} {n : Int} (h : x.sorted = .int n) : x = .int n := by
  cases x with
  | int m => exact h
  | obj ms => rw [Json.sorted_obj] at h; cases h
  | _ => cases h

theorem sorted_eq_null {x : Json φ} (h : x.sorted = .null) : x = .null := by
  cases x with
  | null => rfl
  | obj ms => rw [Json.sorted_obj] at h; cases h
  | _ => cases h

theorem sorted_eq_arr {x : Json φ} {js : List (Json φ)} (h : x.sorted = .arr js) :
    ∃ is, x = .arr is ∧ is.map Json.sorted = js := by
  cases x with
  | arr is =>
    rw [Json.sorted, Json.sortedItems_eq] at h
    exact ⟨is, rfl, Json.arr.inj h⟩
  | obj ms => rw [Json.sorted_obj] at h; cases h
  | _ => cases h

theorem sorted_eq_obj {x : Json φ} {ns : List (Str × Json φ)} (h : x.sorted = .obj ns) :
    ∃ ms, x = .obj ms := by
  cases x with
  | obj ms => exact ⟨ms, rfl⟩
  | _ => cases h

/-- A document of stable texts is written as itself. -/
theorem same_self {x : Json φ} (hx : x.Stable) : Same x x := by
  rw [Same, hx.keysStable.reload_sorted, x.reload_eq_self hx]

variable (B : Builtins φ)

theorem same_text_iff {x : Json φ} (hx : x.Stable) :
    Same x (.str (B.str x)) ↔ ∃ s, x = .str s := by
  constructor
  · exact fun h => ⟨_, sorted_eq_str h⟩
  · rintro ⟨s, rfl⟩
    rw [B.str_str]
    exact congrArg Json.str (mergePairs_eq_self hx).symm

theorem same_int {x : Json φ} {n : Int} : Same x (.int n) ↔ x = .int n := by
  refine ⟨fun h => sorted_eq_int h, fun h => ?_⟩
  rw [h]
  rfl

theorem same_int_iff {x : Json φ} {n : Int} (h : B.int x = .ok n) :
    Same x (.int n) ↔ ∃ m, x = .int m := by
  constructor
  · exact fun hsame => ⟨n, same_int.mp hsame⟩
  · rintro ⟨m, rfl⟩
    cases h
    rfl

theorem same_enum {α : Type} {members : List α} {value : α → Str} {x : Json φ} {a : α}
    (hvalue : ∀ a, isScalar (value a) = true) (h : enumMember members value x = .ok a) :
    Same x (.str (value a)) := by
  unfold enumMember at h
  split at h
  · next s =>
    split at h
    · cases h
    · next b hb =>
      cases h
      have hs : value a = s := of_decide_eq_true (List.find?_some hb :)
      rw [← hs]
      exact congrArg Json.str (mergePairs_eq_self (noPair_of_isScalar (hvalue a))).symm
  · cases h

theorem same_arr_iff {js : List (Json φ)} {es : List (Json φ)} :
    Same (.arr js) (.arr es) ↔ List.Forall₂ Same js es := by
  rw [Same, Json.sorted, Json.sorted, Json.reload, Json.sortedItems_eq, Json.sortedItems_eq,
    Json.reloadItems_eq, Json.arr.injEq, List.map_map, ← List.forall₂_eq_eq_eq,
    List.forall₂_map_left_iff, List.forall₂_map_right_iff]
  rfl

/-- A list whose elements are each read and written. -/
theorem same_mapM_iff {β : Type} {f : Json φ → Except PyError β} {g : β → Json φ}
    {N : Json φ → Prop} {js : List (Json φ)} {bs : List β} (h : js.mapM f = .ok bs)
    (hN : ∀ j ∈ js, ∀ b, f j = .ok b → (Same j (g b) ↔ N j)) :
    Same (.arr js) (.arr (bs.map g)) ↔ ∀ j ∈ js, N j := by
  rw [same_arr_iff]
  induction js generalizing bs with
  | nil =>
    cases h
    exact ⟨fun _ => nofun, fun _ => .nil⟩
  | cons j js ih =>
    rw [List.mapM_cons] at h
    obtain ⟨b, hb, h⟩ := bind_eq_ok_iff.mp h
    obtain ⟨bs', hbs, h⟩ := bind_eq_ok_iff.mp h
    cases h
    rw [List.map_cons, List.forall₂_cons, List.forall_mem_cons, hN j List.mem_cons_self b hb,
      ih hbs fun i hi => hN i (List.mem_cons_of_mem j hi)]

theorem same_texts_iff {x : Json φ} {ss : List Str} (hx : x.Stable) (h : B.strs x = .ok ss) :
    Same x (texts ss) ↔ ∃ ts, x = texts ts := by
  constructor
  · intro hsame
    obtain ⟨is, rfl, his⟩ := sorted_eq_arr hsame
    cases h
    have hstable := Json.stableItems_iff.mp hx
    refine ⟨is.map B.str, congrArg Json.arr ?_⟩
    rw [List.map_map]
    refine ((List.map_congr_left fun i hi => ?_).trans (List.map_id is)).symm
    have hforall := same_arr_iff.mp (show Same (.arr is) (.arr ((is.map B.str).map .str)) from hsame)
    rw [List.map_map, List.forall₂_map_right_iff, List.forall₂_same] at hforall
    obtain ⟨s, rfl⟩ := (same_text_iff B (hstable i hi)).mp (hforall i hi)
    exact congrArg Json.str (B.str_str s)
  · rintro ⟨ts, rfl⟩
    rw [texts, strs_arr] at h
    cases h
    refine same_arr_iff.mpr ?_
    rw [List.forall₂_map_left_iff, List.forall₂_map_right_iff, List.forall₂_same]
    intro t ht
    have hstable := Json.stableItems_iff.mp hx (.str t) (List.mem_map_of_mem ht)
    exact congrArg Json.str (mergePairs_eq_self hstable).symm

theorem same_optText_iff [PyFloat φ] {x : Json φ} (hx : x.Stable) :
    Same x (optText (if x.truthy then some (B.str x) else none)) ↔
      x = .null ∨ ∃ s, s ≠ [] ∧ x = .str s := by
  by_cases ht : x.truthy = true
  · rw [if_pos ht]
    refine (same_text_iff B hx).trans ⟨?_, ?_⟩
    · rintro ⟨s, rfl⟩
      exact Or.inr ⟨s, of_decide_eq_true ht, rfl⟩
    · rintro (rfl | ⟨s, -, rfl⟩)
      · cases ht
      · exact ⟨s, rfl⟩
  · rw [if_neg ht]
    constructor
    · exact fun h => Or.inl (sorted_eq_null h)
    · rintro (rfl | ⟨s, hs, rfl⟩)
      · rfl
      · exact absurd (decide_eq_true hs) ht

/-! ## The same for the member of a file -/

section Member

variable {d x : Json φ} {key : Str}

theorem member_iff {e : Json φ} {P : Json φ → Prop} (hd : d.Stable) (hx : Reads d key x)
    (h : x.Stable → (Same x e ↔ P x)) :
    (∃ w, d.get? key = some w ∧ Same w e) ↔ ∃ w, d.get? key = some w ∧ P w := by
  refine exists_congr fun w => and_congr_right fun hw => ?_
  cases hx w hw
  exact h (stable_of_get? hd hw)

theorem member_text_iff (hd : d.Stable) (hx : Reads d key x) :
    (∃ w, d.get? key = some w ∧ Same w (.str (B.str x))) ↔ HasText d key := by
  rw [member_iff (P := fun w => ∃ s, w = .str s) hd hx fun hs => same_text_iff B hs]
  exact ⟨fun ⟨w, hw, s, hs⟩ => ⟨s, hs ▸ hw⟩, fun ⟨s, hs⟩ => ⟨_, hs, s, rfl⟩⟩

theorem member_int_iff (hd : d.Stable) (hx : Reads d key x) {n : Int} (h : B.int x = .ok n) :
    (∃ w, d.get? key = some w ∧ Same w (.int n)) ↔ HasInt d key := by
  rw [member_iff (P := fun w => ∃ m, w = .int m) hd hx fun _ => same_int_iff B h]
  exact ⟨fun ⟨w, hw, m, hm⟩ => ⟨m, hm ▸ hw⟩, fun ⟨m, hm⟩ => ⟨_, hm, m, rfl⟩⟩

theorem member_texts_iff (hd : d.Stable) (hx : Reads d key x) {ss : List Str}
    (h : B.strs x = .ok ss) :
    (∃ w, d.get? key = some w ∧ Same w (texts ss)) ↔ HasTexts d key := by
  rw [member_iff (P := fun w => ∃ ts, w = texts ts) hd hx fun hs => same_texts_iff B hs h]
  exact ⟨fun ⟨w, hw, ts, hts⟩ => ⟨ts, hts ▸ hw⟩, fun ⟨ts, hts⟩ => ⟨_, hts, ts, rfl⟩⟩

theorem member_optText_iff [PyFloat φ] (hd : d.Stable) (hx : Reads d key x) :
    (∃ w, d.get? key = some w ∧ Same w (optText (if x.truthy then some (B.str x) else none))) ↔
      HasOptText d key := by
  rw [member_iff (P := fun w => w = .null ∨ ∃ s, s ≠ [] ∧ w = .str s) hd hx
    fun hs => same_optText_iff B hs]
  constructor
  · rintro ⟨w, hw, rfl | ⟨s, hs, rfl⟩⟩
    · exact Or.inl hw
    · exact Or.inr ⟨s, hs, hw⟩
  · rintro (h | ⟨s, hs, h⟩)
    · exact ⟨_, h, Or.inl rfl⟩
    · exact ⟨_, h, Or.inr ⟨s, hs, rfl⟩⟩

theorem member_enum {α : Type} {members : List α} {value : α → Str} {a : α}
    (hvalue : ∀ a, isScalar (value a) = true) (hx : subscript d key = .ok x)
    (h : enumMember members value x = .ok a) :
    ∃ w, d.get? key = some w ∧ Same w (.str (value a)) := by
  refine ⟨x, ?_, same_enum hvalue h⟩
  cases d with
  | obj ms =>
    cases hget : (Json.obj ms).get? key with
    | none =>
      rw [subscript, hget] at hx
      cases hx
    | some w =>
      rw [subscript_eq hget] at hx
      exact congrArg some (Except.ok.inj hx)
  | _ => cases hx

theorem member_optEnum_iff [PyFloat φ] {α : Type} {members : List α} {value : α → Str}
    {a : Option α} (hvalue : ∀ a, isScalar (value a) = true) (hd : d.Stable) (hx : Reads d key x)
    (h : ifTruthy x (enumMember members value) = .ok a) :
    (∃ w, d.get? key = some w ∧ Same w (optText (a.map value))) ↔ HasOptText d key := by
  have hsame : Same x (optText (a.map value)) ↔ x = .null ∨ ∃ s, s ≠ [] ∧ x = .str s := by
    unfold ifTruthy at h
    by_cases ht : x.truthy = true
    · rw [if_pos ht] at h
      cases hm : enumMember members value x with
      | error e => rw [hm] at h; cases h
      | ok b =>
        rw [hm] at h
        cases h
        refine ⟨fun _ => Or.inr ?_, fun _ => same_enum hvalue hm⟩
        have hstr := sorted_eq_str (same_enum hvalue hm)
        rw [hstr] at ht
        exact ⟨_, of_decide_eq_true ht, hstr⟩
    · rw [if_neg ht] at h
      cases h
      constructor
      · exact fun hnull => Or.inl (sorted_eq_null hnull)
      · rintro (rfl | ⟨s, hs, rfl⟩)
        · rfl
        · exact absurd (decide_eq_true hs) ht
  rw [member_iff (P := fun w => w = .null ∨ ∃ s, s ≠ [] ∧ w = .str s) hd hx fun _ => hsame]
  constructor
  · rintro ⟨w, hw, rfl | ⟨s, hs, rfl⟩⟩
    · exact Or.inl hw
    · exact Or.inr ⟨s, hs, hw⟩
  · rintro (h | ⟨s, hs, h⟩)
    · exact ⟨_, h, Or.inl rfl⟩
    · exact ⟨_, h, Or.inr ⟨s, hs, rfl⟩⟩

theorem member_array_iff {β : Type} {f : Json φ → Except PyError β} {g : β → Json φ}
    {N : Json φ → Prop} {js : List (Json φ)} {bs : List β} (hd : d.Stable) (hx : Reads d key x)
    (hjs : iterate x = .ok js) (h : js.mapM f = .ok bs)
    (hN : ∀ j, j.Stable → ∀ b, f j = .ok b → (Same j (g b) ↔ N j)) :
    (∃ w, d.get? key = some w ∧ Same w (.arr (bs.map g))) ↔ HasArray d key N := by
  have hsame : x.Stable → (Same x (.arr (bs.map g)) ↔ ∃ js, x = .arr js ∧ ∀ j ∈ js, N j) := by
    intro hstable
    have harr : ∀ {is}, x = .arr is → (Same x (.arr (bs.map g)) ↔ ∀ j ∈ is, N j) := by
      rintro is rfl
      cases hjs
      exact same_mapM_iff h fun j hj => hN j (Json.stableItems_iff.mp hstable j hj)
    constructor
    · intro hs
      obtain ⟨is, his, -⟩ := sorted_eq_arr hs
      exact ⟨is, his, (harr his).mp hs⟩
    · rintro ⟨is, his, hall⟩
      exact (harr his).mpr hall
  rw [member_iff (P := fun w => ∃ js, w = .arr js ∧ ∀ j ∈ js, N j) hd hx hsame]
  exact ⟨fun ⟨w, hw, js, hjs, hall⟩ => ⟨js, hjs ▸ hw, hall⟩,
    fun ⟨js, hjs, hall⟩ => ⟨_, hjs, js, rfl, hall⟩⟩

theorem items_of_dict [PyFloat φ] {ms : List (Str × Json φ)} {o : Option (Dict Str (Json φ))}
    (hn : (ms.map Prod.fst).Nodup) (h : ifTruthy (.obj ms) B.dict = .ok o) :
    (o.getD Dict.empty).items = ms := by
  cases ms with
  | nil =>
    cases h
    rfl
  | cons m ms =>
    cases h
    exact Dict.items_ofList hn

/-- A dict that is copied, or replaced by an empty one if it is false. -/
theorem member_dict_iff [PyFloat φ] {o : Option (Dict Str (Json φ))} (hd : d.Stable)
    (hx : Reads d key x) (h : ifTruthy x B.dict = .ok o) :
    (∃ w, d.get? key = some w ∧ Same w (.obj (o.getD Dict.empty).items)) ↔ HasObject d key := by
  have hsame : x.Stable → (Same x (.obj (o.getD Dict.empty).items) ↔ ∃ ms, x = .obj ms) := by
    intro hstable
    constructor
    · intro hs
      rw [Same, Json.sorted_obj] at hs
      exact sorted_eq_obj hs
    · rintro ⟨ms, rfl⟩
      rw [items_of_dict B hstable.1 h]
      exact same_self hstable
  rw [member_iff (P := fun w => ∃ ms, w = .obj ms) hd hx hsame]
  exact ⟨fun ⟨w, hw, ms, hms⟩ => ⟨ms, hms ▸ hw⟩, fun ⟨ms, hms⟩ => ⟨_, hms, ms, rfl⟩⟩

end Member

/-! ## Records -/

/-- `d` is written as the record `es` just when it has the same keys and values. -/
theorem same_record_iff {d : Json φ} {es : List (Str × Json φ)} (hd : d.Stable)
    (hobj : ∃ ms, d = .obj ms) (hes : (es.map Prod.fst).Nodup)
    (hk : (es.map Prod.fst).all isScalar = true) :
    Same d (.obj es) ↔ OnlyKeys d (es.map Prod.fst) ∧
      ∀ e ∈ es, ∃ w, d.get? e.1 = some w ∧ Same w e.2 := by
  obtain ⟨ms, rfl⟩ := hobj
  refine (sorted_eq_record_iff hd.1 hes hk).trans (and_congr ⟨fun h key hkey => ?_, fun h m hm => ?_⟩
    Iff.rfl)
  · obtain ⟨w, hw⟩ := Option.ne_none_iff_exists'.mp hkey
    exact h (key, w) ((Json.get?_eq_some_iff hd.1).mp hw)
  · refine h m.1 ?_
    rw [(Json.get?_eq_some_iff hd.1).mpr hm]
    exact Option.some_ne_none _

theorem exists_obj_of_subscript {d : Json φ} {key : Str} {x : Json φ}
    (h : subscript d key = .ok x) : ∃ ms, d = .obj ms := by
  cases d with
  | obj ms => exact ⟨ms, rfl⟩
  | _ => cases h

theorem exists_obj_of_getDefault {d : Json φ} {key : Str} {default x : Json φ}
    (h : getDefault d key default = .ok x) : ∃ ms, d = .obj ms := by
  cases d with
  | obj ms => exact ⟨ms, rfl⟩
  | _ => cases h

end CosaiMcp.Scorecard
