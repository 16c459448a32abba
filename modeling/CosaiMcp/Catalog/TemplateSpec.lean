import CosaiMcp.Catalog.Template
import CosaiMcp.Py.Canonical
import CosaiMcp.Py.Except

/-!
# Substitution and the order of keys

A substitution changes no key, so it can be made before the members of a payload are sorted or after
that (`substituteValue_sorted`).
-/

namespace CosaiMcp.Catalog

open Py

variable {φ : Type} {vars : Dict Str Str}

/-! ## Containers -/

section Containers

variable {f : Json φ → Json φ}

theorem substituteItems_of_forall {js : List (Json φ)}
    (h : ∀ j ∈ js, substituteValue vars j = .ok (f j)) :
    substituteItems vars js = .ok (js.map f) := by
  induction js with
  | nil => rfl
  | cons j js ih =>
    obtain ⟨hj, hjs⟩ := List.forall_mem_cons.mp h
    rw [substituteItems, hj, ih hjs]
    rfl

theorem substituteMembers_of_forall {ms : List (Str × Json φ)}
    (h : ∀ m ∈ ms, substituteValue vars m.2 = .ok (f m.2)) :
    substituteMembers vars ms = .ok (ms.map fun m => (m.1, f m.2)) := by
  induction ms with
  | nil => rfl
  | cons m ms ih =>
    obtain ⟨hm, hms⟩ := List.forall_mem_cons.mp h
    rw [substituteMembers, hm, ih hms]
    rfl

theorem forall_of_substituteItems {js rs : List (Json φ)} (h : substituteItems vars js = .ok rs) :
    ∀ j ∈ js, ∃ r, substituteValue vars j = .ok r := by
  induction js generalizing rs with
  | nil => nofun
  | cons j js ih =>
    rw [substituteItems] at h
    obtain ⟨r, hr, h⟩ := bind_eq_ok_iff.mp h
    obtain ⟨rs', hrs', -⟩ := bind_eq_ok_iff.mp h
    exact List.forall_mem_cons.mpr ⟨⟨r, hr⟩, ih hrs'⟩

theorem forall_of_substituteMembers {ms ns : List (Str × Json φ)}
    (h : substituteMembers vars ms = .ok ns) :
    ∀ m ∈ ms, ∃ r, substituteValue vars m.2 = .ok r := by
  induction ms generalizing ns with
  | nil => nofun
  | cons m ms ih =>
    rw [substituteMembers] at h
    obtain ⟨r, hr, h⟩ := bind_eq_ok_iff.mp h
    obtain ⟨ns', hns', -⟩ := bind_eq_ok_iff.mp h
    exact List.forall_mem_cons.mpr ⟨⟨r, hr⟩, ih hns'⟩

end Containers

/-- The payload after the substitution, where that does not raise. -/
def substituted (vars : Dict Str Str) (j : Json φ) : Json φ :=
  (substituteValue vars j).toOption.getD .null

theorem substituted_of_ok {j r : Json φ} (h : substituteValue vars j = .ok r) :
    substituted vars j = r := by
  rw [substituted, h]
  rfl

theorem substituteValue_of_exists {j : Json φ} (h : ∃ r, substituteValue vars j = .ok r) :
    substituteValue vars j = .ok (substituted vars j) := by
  obtain ⟨r, hr⟩ := h
  rw [substituted_of_ok hr, hr]

theorem substituteValue_arr {js : List (Json φ)} {r : Json φ} :
    substituteValue vars (.arr js) = .ok r ↔
      (∀ j ∈ js, ∃ r, substituteValue vars j = .ok r) ∧ r = .arr (js.map (substituted vars)) := by
  rw [substituteValue]
  constructor
  · intro h
    obtain ⟨rs, hrs, h⟩ := bind_eq_ok_iff.mp h
    have hjs := forall_of_substituteItems hrs
    rw [substituteItems_of_forall fun j hj => substituteValue_of_exists (hjs j hj)] at hrs
    cases hrs
    cases h
    exact ⟨hjs, rfl⟩
  · rintro ⟨hjs, rfl⟩
    rw [substituteItems_of_forall fun j hj => substituteValue_of_exists (hjs j hj)]
    rfl

theorem substituteValue_obj {ms : List (Str × Json φ)} {r : Json φ} :
    substituteValue vars (.obj ms) = .ok r ↔
      (∀ m ∈ ms, ∃ r, substituteValue vars m.2 = .ok r) ∧
        r = .obj (ms.map fun m => (m.1, substituted vars m.2)) := by
  rw [substituteValue]
  constructor
  · intro h
    obtain ⟨ns, hns, h⟩ := bind_eq_ok_iff.mp h
    have hms := forall_of_substituteMembers hns
    rw [substituteMembers_of_forall fun m hm => substituteValue_of_exists (hms m hm)] at hns
    cases hns
    cases h
    exact ⟨hms, rfl⟩
  · rintro ⟨hms, rfl⟩
    rw [substituteMembers_of_forall fun m hm => substituteValue_of_exists (hms m hm)]
    rfl

theorem get?_of_substituteValue {j r : Json φ} (h : substituteValue vars j = .ok r) (key : Str) :
    r.get? key = (j.get? key).map (substituted vars) := by
  cases j with
  | obj ms =>
    obtain ⟨-, rfl⟩ := substituteValue_obj.mp h
    exact Json.get?_map (substituted vars) ms key
  | arr js =>
    obtain ⟨-, rfl⟩ := substituteValue_arr.mp h
    rfl
  | str s =>
    obtain ⟨t, -, h⟩ := bind_eq_ok_iff.mp h
    cases h
    rfl
  | _ =>
    cases h
    rfl

/-! ## Sorting -/

/-- A substitution goes through in one order of the keys if it does in another, with the same
result up to that order. -/
theorem substituteValue_sorted (j r : Json φ) :
    substituteValue vars j.sorted = .ok r ↔
      ∃ s, substituteValue vars j = .ok s ∧ r = s.sorted := by
  induction j using Json.induct generalizing r with
  | arr js ih =>
    have hsub {j : Json φ} (hj : j ∈ js) (h : ∃ r, substituteValue vars j = .ok r) :
        substituted vars j.sorted = (substituted vars j).sorted := by
      obtain ⟨r, hr⟩ := h
      rw [substituted_of_ok ((ih j hj r.sorted).mpr ⟨r, hr, rfl⟩), substituted_of_ok hr]
    rw [Json.sorted, Json.sortedItems_eq, substituteValue_arr]
    constructor
    · rintro ⟨hjs, rfl⟩
      have hjs (j : Json φ) (hj : j ∈ js) : ∃ r, substituteValue vars j = .ok r := by
        obtain ⟨r, hr⟩ := hjs j.sorted (List.mem_map_of_mem hj)
        obtain ⟨s, hs, -⟩ := (ih j hj r).mp hr
        exact ⟨s, hs⟩
      refine ⟨_, substituteValue_arr.mpr ⟨hjs, rfl⟩, ?_⟩
      rw [Json.sorted, Json.sortedItems_eq, List.map_map, List.map_map]
      exact congrArg Json.arr (List.map_congr_left fun j hj => hsub hj (hjs j hj))
    · rintro ⟨s, hs, rfl⟩
      obtain ⟨hjs, rfl⟩ := substituteValue_arr.mp hs
      refine ⟨List.forall_mem_map.mpr fun j hj => ?_, ?_⟩
      · obtain ⟨r, hr⟩ := hjs j hj
        exact ⟨r.sorted, (ih j hj r.sorted).mpr ⟨r, hr, rfl⟩⟩
      · rw [Json.sorted, Json.sortedItems_eq, List.map_map, List.map_map]
        exact congrArg Json.arr (List.map_congr_left fun j hj => (hsub hj (hjs j hj)).symm)
  | obj ms ih =>
    have hsub {m : Str × Json φ} (hm : m ∈ ms) (h : ∃ r, substituteValue vars m.2 = .ok r) :
        substituted vars m.2.sorted = (substituted vars m.2).sorted := by
      obtain ⟨r, hr⟩ := h
      rw [substituted_of_ok ((ih m hm r.sorted).mpr ⟨r, hr, rfl⟩), substituted_of_ok hr]
    have hmap (hms : ∀ m ∈ ms, ∃ r, substituteValue vars m.2 = .ok r) :
        Json.obj (((sortMembers ms).map fun m => (m.1, m.2.sorted)).map
            fun m => (m.1, substituted vars m.2)) =
          (Json.obj (ms.map fun m => (m.1, substituted vars m.2))).sorted := by
      rw [Json.sorted_obj, sortMembers_map, List.map_map, List.map_map]
      refine congrArg Json.obj (List.map_congr_left fun m hm => ?_)
      have hm := mem_sortMembers.mp hm
      exact congrArg (Prod.mk m.1) (hsub hm (hms m hm))
    rw [Json.sorted_obj, substituteValue_obj]
    constructor
    · rintro ⟨hms, rfl⟩
      have hms (m : Str × Json φ) (hm : m ∈ ms) : ∃ r, substituteValue vars m.2 = .ok r := by
        obtain ⟨r, hr⟩ := hms (m.1, m.2.sorted) (List.mem_map_of_mem (mem_sortMembers.mpr hm))
        obtain ⟨s, hs, -⟩ := (ih m hm r).mp hr
        exact ⟨s, hs⟩
      exact ⟨_, substituteValue_obj.mpr ⟨hms, rfl⟩, hmap hms⟩
    · rintro ⟨s, hs, rfl⟩
      obtain ⟨hms, rfl⟩ := substituteValue_obj.mp hs
      refine ⟨List.forall_mem_map.mpr fun m hm => ?_, (hmap hms).symm⟩
      have hm := mem_sortMembers.mp hm
      obtain ⟨r, hr⟩ := hms m hm
      exact ⟨r.sorted, (ih m hm r.sorted).mpr ⟨r, hr, rfl⟩⟩
  | str s =>
    rw [Json.sorted, substituteValue]
    constructor
    · intro h
      obtain ⟨t, ht, h⟩ := bind_eq_ok_iff.mp h
      cases h
      exact ⟨.str t, by rw [ht]; rfl, rfl⟩
    · rintro ⟨v, hv, rfl⟩
      obtain ⟨t, ht, hv⟩ := bind_eq_ok_iff.mp hv
      cases hv
      rw [ht]
      rfl
  | _ =>
    constructor
    · intro h
      cases h
      exact ⟨_, rfl, rfl⟩
    · rintro ⟨s, hs, rfl⟩
      cases hs
      rfl

theorem keysStable_substitute {j r : Json φ} (hj : j.KeysStable)
    (h : substituteValue vars j = .ok r) : r.KeysStable := by
  induction hj generalizing r with
  | arr _ ih =>
    obtain ⟨hjs, rfl⟩ := substituteValue_arr.mp h
    exact .arr (List.forall_mem_map.mpr fun j hj => ih j hj (substituteValue_of_exists (hjs j hj)))
  | obj hn hk _ ih =>
    obtain ⟨hms, rfl⟩ := substituteValue_obj.mp h
    refine .obj ?_ (List.forall_mem_map.mpr hk) (List.forall_mem_map.mpr fun m hm =>
      ih m hm (substituteValue_of_exists (hms m hm)))
    rw [List.map_map]
    exact hn
  | str s =>
    obtain ⟨t, -, h⟩ := bind_eq_ok_iff.mp h
    cases h
    exact .str t
  | null => cases h; exact .null
  | bool b => cases h; exact .bool b
  | int n => cases h; exact .int n
  | float x => cases h; exact .float x
  | nan => cases h; exact .nan

end CosaiMcp.Catalog
