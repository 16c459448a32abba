import Mathlib.Data.List.Nodup
import Mathlib.Data.List.Perm.Basic

/-!
# Insertion-ordered dictionaries

A dictionary keeps its pairs in the order in which the keys were first stored, and no key twice;
the second is a field, so every operation has to prove that it keeps it. `Dict.set` on a stored key
replaces the value in place, on a new key it appends. The rest of a development reads a dictionary
through `get?` (`get?_eq_some_iff`, `get?_set`, `get?_erase`) or through its list of values
(`values_set_of_not_mem`, `perm_erase`).
-/

namespace Py

universe u v

/-- A dictionary: its pairs in insertion order, no key twice. -/
structure Dict (κ : Type u) (ν : Type v) where
  items : List (κ × ν)
  nodup : (items.map Prod.fst).Nodup
deriving DecidableEq

namespace Dict

variable {κ : Type u} {ν : Type v}

@[ext] theorem ext {d d' : Dict κ ν} (h : d.items = d'.items) : d = d' := by
  cases d; cases d'; cases h; rfl

def empty : Dict κ ν := ⟨[], List.nodup_nil⟩

def keys (d : Dict κ ν) : List κ := d.items.map Prod.fst

def values (d : Dict κ ν) : List ν := d.items.map Prod.snd

def size (d : Dict κ ν) : Nat := d.items.length

/-- Keep the pairs that satisfy `p`, in order. -/
def filter (d : Dict κ ν) (p : κ × ν → Bool) : Dict κ ν :=
  ⟨d.items.filter p, d.nodup.sublist ((List.filter_sublist).map Prod.fst)⟩

@[simp] theorem items_empty : (empty : Dict κ ν).items = [] := rfl

@[simp] theorem keys_empty : (empty : Dict κ ν).keys = [] := rfl

@[simp] theorem values_empty : (empty : Dict κ ν).values = [] := rfl

@[simp] theorem size_empty : (empty : Dict κ ν).size = 0 := rfl

@[simp] theorem items_filter (d : Dict κ ν) (p : κ × ν → Bool) :
    (d.filter p).items = d.items.filter p := rfl

theorem size_eq_length_values (d : Dict κ ν) : d.size = d.values.length := by
  simp [size, values]

theorem mem_keys_iff {d : Dict κ ν} {k : κ} : k ∈ d.keys ↔ ∃ v, (k, v) ∈ d.items := by
  simp [keys]

theorem mem_values_iff {d : Dict κ ν} {v : ν} : v ∈ d.values ↔ ∃ k, (k, v) ∈ d.items := by
  simp [values]

/-- Two pairs of one dictionary with the same key are the same pair. -/
theorem value_unique {d : Dict κ ν} {k : κ} {v w : ν} (hv : (k, v) ∈ d.items)
    (hw : (k, w) ∈ d.items) : v = w := by
  have h := List.inj_on_of_nodup_map d.nodup hv hw rfl
  exact congrArg Prod.snd h

private theorem keys_append (d : Dict κ ν) {k : κ} (hk : k ∉ d.keys) (v : ν) :
    ((d.items ++ [(k, v)]).map Prod.fst).Nodup := by
  rw [List.map_append, List.nodup_append]
  refine ⟨d.nodup, by simp, ?_⟩
  intro a ha b hb hab
  simp only [List.map_cons, List.map_nil, List.mem_singleton] at hb
  exact hk (hb ▸ hab ▸ ha)

variable [DecidableEq κ]

def get? (d : Dict κ ν) (k : κ) : Option ν := (d.items.find? (·.1 = k)).map Prod.snd

def erase (d : Dict κ ν) (k : κ) : Dict κ ν := d.filter (·.1 ≠ k)

private theorem keys_replace (l : List (κ × ν)) (k : κ) (v : ν) :
    (l.map fun p => if p.1 = k then (p.1, v) else p).map Prod.fst = l.map Prod.fst := by
  rw [List.map_map]
  refine List.map_congr_left fun p _ => ?_
  by_cases hp : p.1 = k <;> simp [hp]

/-- Store `v` under `k`: in place if `k` is stored, at the end if it is not. -/
def set (d : Dict κ ν) (k : κ) (v : ν) : Dict κ ν :=
  if hk : k ∈ d.keys then
    ⟨d.items.map fun p => if p.1 = k then (p.1, v) else p, by
      rw [keys_replace]; exact d.nodup⟩
  else
    ⟨d.items ++ [(k, v)], keys_append d hk v⟩

/-- The dictionary of a list of pairs, stored one after the other. -/
def ofList (l : List (κ × ν)) : Dict κ ν := l.foldl (fun d p => d.set p.1 p.2) empty

/-- `d.update(e)`. -/
def update (d e : Dict κ ν) : Dict κ ν := e.items.foldl (fun d p => d.set p.1 p.2) d

/-! ## Reading a dictionary -/

theorem get?_eq_some_iff {d : Dict κ ν} {k : κ} {v : ν} :
    d.get? k = some v ↔ (k, v) ∈ d.items := by
  constructor
  · intro h
    obtain ⟨p, hp, rfl⟩ := Option.map_eq_some_iff.mp h
    have hk : p.1 = k := by simpa using List.find?_some hp
    have hm : p ∈ d.items := List.mem_of_find?_eq_some hp
    rw [← hk]; exact hm
  · intro h
    cases hf : d.items.find? (·.1 = k) with
    | none =>
      have hne := List.find?_eq_none.mp hf _ h
      simp at hne
    | some p =>
      have hk : p.1 = k := by simpa using List.find?_some hf
      have hm : (k, p.2) ∈ d.items := by rw [← hk]; exact List.mem_of_find?_eq_some hf
      simp [get?, hf, value_unique h hm]

theorem get?_eq_none_iff {d : Dict κ ν} {k : κ} : d.get? k = none ↔ k ∉ d.keys := by
  rw [Option.eq_none_iff_forall_not_mem, mem_keys_iff, not_exists]
  exact forall_congr' fun v => not_congr get?_eq_some_iff

theorem mem_keys_of_get? {d : Dict κ ν} {k : κ} {v : ν} (h : d.get? k = some v) : k ∈ d.keys :=
  mem_keys_iff.mpr ⟨v, get?_eq_some_iff.mp h⟩

theorem mem_values_of_get? {d : Dict κ ν} {k : κ} {v : ν} (h : d.get? k = some v) :
    v ∈ d.values :=
  mem_values_iff.mpr ⟨k, get?_eq_some_iff.mp h⟩

@[simp] theorem get?_empty (k : κ) : (empty : Dict κ ν).get? k = none := rfl

theorem get?_congr {d d' : Dict κ ν} {k k' : κ}
    (h : ∀ v, (k, v) ∈ d.items ↔ (k', v) ∈ d'.items) : d.get? k = d'.get? k' :=
  Option.ext fun v => get?_eq_some_iff.trans ((h v).trans get?_eq_some_iff.symm)

/-! ## Removing a key -/

theorem mem_items_erase {d : Dict κ ν} {k : κ} {p : κ × ν} :
    p ∈ (d.erase k).items ↔ p ∈ d.items ∧ p.1 ≠ k := by
  simp [erase]

theorem get?_erase (d : Dict κ ν) (k k' : κ) :
    (d.erase k).get? k' = if k' = k then none else d.get? k' := by
  split
  · rename_i h
    rw [get?_eq_none_iff, mem_keys_iff]
    rintro ⟨v, hv⟩
    exact (mem_items_erase.mp hv).2 h
  · rename_i h
    exact get?_congr fun v => by simp [mem_items_erase, h]

theorem erase_of_not_mem {d : Dict κ ν} {k : κ} (h : k ∉ d.keys) : d.erase k = d := by
  refine Dict.ext (List.filter_eq_self.mpr fun p hp => ?_)
  simpa using fun hk : p.1 = k => h (mem_keys_iff.mpr ⟨p.2, hk ▸ hp⟩)

/-- Removing a stored key takes exactly its pair out of the dictionary. -/
theorem perm_erase {d : Dict κ ν} {k : κ} {v : ν} (h : d.get? k = some v) :
    d.items.Perm ((k, v) :: (d.erase k).items) := by
  have hm : (k, v) ∈ d.items := get?_eq_some_iff.mp h
  have hn : ((k, v) :: (d.erase k).items).Nodup :=
    List.nodup_cons.mpr ⟨fun hin => (mem_items_erase.mp hin).2 rfl,
      List.Nodup.of_map _ (d.erase k).nodup⟩
  refine (List.perm_ext_iff_of_nodup (List.Nodup.of_map _ d.nodup) hn).mpr fun p => ?_
  rw [List.mem_cons, mem_items_erase]
  constructor
  · intro hp
    by_cases hpk : p.1 = k
    · have hp' : (k, p.2) ∈ d.items := hpk ▸ hp
      exact Or.inl (Prod.ext hpk (value_unique hp' hm))
    · exact Or.inr ⟨hp, hpk⟩
  · rintro (rfl | ⟨hp, -⟩)
    · exact hm
    · exact hp

theorem mem_values_of_erase {d : Dict κ ν} {k : κ} {v : ν} (h : v ∈ (d.erase k).values) :
    v ∈ d.values := by
  obtain ⟨k', hk'⟩ := mem_values_iff.mp h
  exact mem_values_iff.mpr ⟨k', (mem_items_erase.mp hk').1⟩

theorem values_perm_erase {d : Dict κ ν} {k : κ} {v : ν} (h : d.get? k = some v) :
    d.values.Perm (v :: (d.erase k).values) :=
  (perm_erase h).map Prod.snd

/-! ## Storing a value -/

theorem items_set_of_not_mem {d : Dict κ ν} {k : κ} (hk : k ∉ d.keys) (v : ν) :
    (d.set k v).items = d.items ++ [(k, v)] := by
  simp [set, hk]

theorem keys_set_of_not_mem {d : Dict κ ν} {k : κ} (hk : k ∉ d.keys) (v : ν) :
    (d.set k v).keys = d.keys ++ [k] := by
  simp [keys, items_set_of_not_mem hk]

theorem values_set_of_not_mem {d : Dict κ ν} {k : κ} (hk : k ∉ d.keys) (v : ν) :
    (d.set k v).values = d.values ++ [v] := by
  simp [values, items_set_of_not_mem hk]

theorem mem_items_set {d : Dict κ ν} {k : κ} {v : ν} {p : κ × ν} :
    p ∈ (d.set k v).items ↔ p = (k, v) ∨ (p ∈ d.items ∧ p.1 ≠ k) := by
  by_cases hk : k ∈ d.keys
  · obtain ⟨w, hw⟩ := mem_keys_iff.mp hk
    simp only [set, hk, ↓reduceDIte, List.mem_map]
    constructor
    · rintro ⟨q, hq, rfl⟩
      by_cases hqk : q.1 = k
      · left; simp [hqk]
      · right; simp [hqk, hq]
    · rintro (rfl | ⟨hp, hpk⟩)
      · exact ⟨(k, w), hw, by simp⟩
      · exact ⟨p, hp, by simp [hpk]⟩
  · rw [items_set_of_not_mem hk, List.mem_append, List.mem_singleton]
    constructor
    · rintro (hp | rfl)
      · refine Or.inr ⟨hp, fun h => hk ?_⟩
        exact mem_keys_iff.mpr ⟨p.2, h ▸ hp⟩
      · exact Or.inl rfl
    · rintro (rfl | ⟨hp, -⟩)
      · exact Or.inr rfl
      · exact Or.inl hp

theorem get?_set (d : Dict κ ν) (k : κ) (v : ν) (k' : κ) :
    (d.set k v).get? k' = if k' = k then some v else d.get? k' := by
  split
  · rename_i h
    rw [get?_eq_some_iff, mem_items_set]
    exact Or.inl (by rw [h])
  · rename_i h
    exact get?_congr fun w => by simp [mem_items_set, h]

theorem erase_set (d : Dict κ ν) (k : κ) (v : ν) : (d.set k v).erase k = d.erase k := by
  refine Dict.ext ?_
  unfold set erase
  split
  · simp only [items_filter, List.filter_map]
    rw [List.map_congr_left (g := id) ?_, List.map_id]
    · refine List.filter_congr fun p _ => ?_
      by_cases hp : p.1 = k <;> simp [hp]
    · intro p hp
      have hp := (List.mem_filter.mp hp).2
      by_cases hk : p.1 = k
      · simp [hk] at hp
      · simp [hk]
  · simp

/-- Storing a value puts it in the place of what was stored under its key. -/
theorem values_perm_set (d : Dict κ ν) (k : κ) (v : ν) :
    (d.set k v).values.Perm (v :: (d.erase k).values) := by
  rw [← erase_set d k v]
  exact values_perm_erase (by rw [get?_set]; simp)

theorem mem_values_of_set {d : Dict κ ν} {k : κ} {v w : ν} (h : w ∈ (d.set k v).values) :
    w = v ∨ w ∈ d.values := by
  rcases List.mem_cons.mp ((values_perm_set d k v).mem_iff.mp h) with h | h
  · exact .inl h
  · exact .inr (mem_values_of_erase h)

theorem mem_keys_set {d : Dict κ ν} {k k' : κ} {v : ν} :
    k' ∈ (d.set k v).keys ↔ k' = k ∨ k' ∈ d.keys := by
  simp only [mem_keys_iff, mem_items_set, Prod.mk.injEq]
  constructor
  · rintro ⟨w, ⟨hk, -⟩ | ⟨hw, -⟩⟩
    · exact Or.inl hk
    · exact Or.inr ⟨w, hw⟩
  · rintro (rfl | ⟨w, hw⟩)
    · exact ⟨v, Or.inl ⟨rfl, rfl⟩⟩
    · by_cases hk : k' = k
      · exact ⟨v, Or.inl ⟨hk, rfl⟩⟩
      · exact ⟨w, Or.inr ⟨hw, hk⟩⟩

theorem items_foldl_set {l : List (κ × ν)} {d : Dict κ ν}
    (h : (d.keys ++ l.map Prod.fst).Nodup) :
    (l.foldl (fun d p => d.set p.1 p.2) d).items = d.items ++ l := by
  induction l generalizing d with
  | nil => simp
  | cons p l ih =>
    have hk : p.1 ∉ d.keys := fun hin => (List.nodup_append.mp h).2.2 p.1 hin p.1 (by simp) rfl
    rw [List.foldl_cons, ih, items_set_of_not_mem hk]
    · simp
    · rw [keys_set_of_not_mem hk]; simpa using h

/-- Pairs of distinct keys are stored as they come. -/
theorem items_ofList {l : List (κ × ν)} (h : (l.map Prod.fst).Nodup) : (ofList l).items = l :=
  items_foldl_set (d := empty) h

/-- Pairs of new keys come after those that were there. -/
theorem items_update {d e : Dict κ ν} (h : ∀ k ∈ e.keys, k ∉ d.keys) :
    (d.update e).items = d.items ++ e.items := by
  refine items_foldl_set (List.nodup_append.mpr ⟨d.nodup, e.nodup, ?_⟩)
  rintro k hd _ he rfl
  exact h k he hd

/-! ## A dictionary of computed pairs -/

variable {α : Type*} {key : α → κ} {val : α → Option ν} {l : List α}

omit [DecidableEq κ] in
theorem nodup_keys_filterMap (h : (l.map key).Nodup) :
    ((l.filterMap fun a => (val a).map (key a, ·)).map Prod.fst).Nodup := by
  refine h.sublist ?_
  induction l with
  | nil => exact List.Sublist.slnil
  | cons a l ih =>
    have ih := ih (List.nodup_cons.mp h).2
    cases hv : val a with
    | none => simpa [hv] using ih.cons (key a)
    | some v => simpa [hv] using ih.cons_cons (key a)

/-- Under the key of `a` the dictionary of the pairs computed from `l` holds what `a` gives. -/
theorem get?_ofList_filterMap (h : (l.map key).Nodup) {a : α} (ha : a ∈ l) :
    (ofList (l.filterMap fun a => (val a).map (key a, ·))).get? (key a) = val a := by
  refine Option.ext fun v => ?_
  rw [get?_eq_some_iff, items_ofList (nodup_keys_filterMap h), List.mem_filterMap]
  constructor
  · rintro ⟨b, hb, hpair⟩
    obtain ⟨w, hw, hpair⟩ := Option.map_eq_some_iff.mp hpair
    cases Prod.ext_iff.mp hpair |>.2
    rw [← List.inj_on_of_nodup_map h hb ha (Prod.ext_iff.mp hpair).1]
    exact hw
  · intro hv
    exact ⟨a, ha, by rw [hv]; rfl⟩

end Dict

end Py
