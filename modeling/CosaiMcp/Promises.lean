import CosaiMcp.Py.Dict

/-!
# Promises looked up by a key

A promise is made under a key and is settled at most once: with a value, or as failed. Until the key
is taken out of the table of pending promises, a value that comes in under the key goes to the
promise that was made last under it. What is settled stays so (`Extends`), a promise has only
values of its own key (`keyed`), and a value goes to one promise (`values_deliver`) or to none.
-/

open Py

universe u v

inductive Promise (ν : Type v) where
  | waiting
  | value (v : ν)
  | failed
deriving DecidableEq

namespace Promise

variable {ν : Type v}

/-- Only a waiting promise takes a result. -/
def settle (p result : Promise ν) : Promise ν :=
  match p with
  | waiting => result
  | value v => value v
  | failed => failed

def value? : Promise ν → Option ν
  | value v => some v
  | _ => none

@[simp] theorem settle_waiting (result : Promise ν) : waiting.settle result = result := rfl

theorem settle_of_ne {p : Promise ν} (h : p ≠ waiting) (result : Promise ν) :
    p.settle result = p := by
  cases p with
  | waiting => exact absurd rfl h
  | value v => rfl
  | failed => rfl

theorem settle_failed_ne (p : Promise ν) : p.settle failed ≠ waiting := by
  cases p <;> simp [settle]

theorem value?_settle_failed (p : Promise ν) : (p.settle failed).value? = p.value? := by
  cases p <;> rfl

end Promise

/-- Every promise with the key that it was made under, oldest first, and which of them is pending
under which key. -/
structure Promises (κ : Type u) (ν : Type v) where
  made : List (κ × Promise ν)
  pending : Dict κ Nat
  /-- What is pending under a key was made under it. -/
  keyed : ∀ p ∈ pending.items, (made.map Prod.fst)[p.2]? = some p.1

namespace Promises

variable {κ : Type u} {ν : Type v}

theorem keyed_empty : ∀ p ∈ (Dict.empty : Dict κ Nat).items,
    (([] : List (κ × Promise ν)).map Prod.fst)[p.2]? = some p.1 := by
  intro p hp
  cases hp

def empty : Promises κ ν := ⟨[], Dict.empty, keyed_empty⟩

/-- The promise that was made `i`-th. -/
def promise? (t : Promises κ ν) (i : Nat) : Option (Promise ν) := (t.made[i]?).map Prod.snd

/-- The key that the `i`-th promise was made under. -/
def key? (t : Promises κ ν) (i : Nat) : Option κ := (t.made[i]?).map Prod.fst

/-- The values that promises have. -/
def values (t : Promises κ ν) : List ν := t.made.filterMap fun p => p.2.value?

theorem keyed_settle (t : Promises κ ν) (i : Nat) (result : Promise ν) :
    ∀ p ∈ t.pending.items,
      ((t.made.modify i fun p => (p.1, p.2.settle result)).map Prod.fst)[p.2]? = some p.1 := by
  intro p hp
  have hkey := t.keyed p hp
  rw [List.getElem?_map] at hkey ⊢
  rw [List.getElem?_modify, ← hkey]
  cases t.made[p.2]? with
  | none => rfl
  | some q => by_cases hi : i = p.2 <;> simp [hi]

def settle (t : Promises κ ν) (i : Nat) (result : Promise ν) : Promises κ ν :=
  ⟨t.made.modify i fun p => (p.1, p.2.settle result), t.pending, t.keyed_settle i result⟩

/-- Every promise in a list fails, if it still waits. -/
def failEach (t : Promises κ ν) (is : List Nat) : Promises κ ν :=
  is.foldl (fun t i => t.settle i .failed) t

theorem keyed_clear (t : Promises κ ν) : ∀ p ∈ (Dict.empty : Dict κ Nat).items,
    (t.made.map Prod.fst)[p.2]? = some p.1 := by
  intro p hp
  cases hp

/-- Nothing is pending any more. -/
def clear (t : Promises κ ν) : Promises κ ν := ⟨t.made, Dict.empty, t.keyed_clear⟩

variable [DecidableEq κ]

theorem keyed_make (t : Promises κ ν) (k : κ) :
    ∀ p ∈ (t.pending.set k t.made.length).items,
      ((t.made ++ [(k, Promise.waiting)]).map Prod.fst)[p.2]? = some p.1 := by
  intro p hp
  rw [List.map_append]
  rcases Dict.mem_items_set.mp hp with rfl | ⟨hp, -⟩
  · simp
  · have hkey := t.keyed p hp
    rw [List.getElem?_append_left (List.getElem?_eq_some_iff.mp hkey).1]
    exact hkey

/-- A promise is made and is pending under its key, in place of one that was. -/
def make (t : Promises κ ν) (k : κ) : Promises κ ν :=
  ⟨t.made ++ [(k, .waiting)], t.pending.set k t.made.length, t.keyed_make k⟩

theorem keyed_forget (t : Promises κ ν) (k : κ) :
    ∀ p ∈ (t.pending.erase k).items, (t.made.map Prod.fst)[p.2]? = some p.1 :=
  fun p hp => t.keyed p (Dict.mem_items_erase.mp hp).1

/-- Nothing is pending under the key any more. -/
def forget (t : Promises κ ν) (k : κ) : Promises κ ν :=
  ⟨t.made, t.pending.erase k, t.keyed_forget k⟩

/-- What is pending under the key of a promise is not so any more. -/
def forgetOf (t : Promises κ ν) (i : Nat) : Promises κ ν :=
  match t.key? i with
  | none => t
  | some k => t.forget k

/-- The value goes to what is pending under the key. -/
def deliver (t : Promises κ ν) (k : κ) (v : ν) : Promises κ ν :=
  match t.pending.get? k with
  | none => t
  | some i => (t.forget k).settle i (.value v)

/-! ## What the operations do to a promise -/

omit [DecidableEq κ] in
@[simp] theorem made_settle (t : Promises κ ν) (i : Nat) (result : Promise ν) :
    (t.settle i result).made = t.made.modify i fun p => (p.1, p.2.settle result) := rfl

omit [DecidableEq κ] in
theorem promise?_settle (t : Promises κ ν) (i : Nat) (result : Promise ν) (j : Nat) :
    (t.settle i result).promise? j =
      if i = j then (t.promise? j).map (·.settle result) else t.promise? j := by
  simp only [promise?, made_settle, List.getElem?_modify]
  cases t.made[j]? with
  | none => simp
  | some p => by_cases hi : i = j <;> simp [hi]

omit [DecidableEq κ] in
@[simp] theorem key?_settle (t : Promises κ ν) (i : Nat) (result : Promise ν) (j : Nat) :
    (t.settle i result).key? j = t.key? j := by
  simp only [key?, made_settle, List.getElem?_modify]
  cases t.made[j]? with
  | none => simp
  | some p => by_cases hi : i = j <;> simp [hi]

@[simp] theorem promise?_forget (t : Promises κ ν) (k : κ) (j : Nat) :
    (t.forget k).promise? j = t.promise? j := rfl

@[simp] theorem key?_forget (t : Promises κ ν) (k : κ) (j : Nat) :
    (t.forget k).key? j = t.key? j := rfl

theorem promise?_make (t : Promises κ ν) (k : κ) (j : Nat) :
    (t.make k).promise? j = if j = t.made.length then some .waiting else t.promise? j := by
  simp only [promise?, make]
  by_cases hj : j = t.made.length
  · simp [hj]
  · rw [if_neg hj]
    by_cases hlt : j < t.made.length
    · rw [List.getElem?_append_left hlt]
    · rw [List.getElem?_eq_none (by simp; omega), List.getElem?_eq_none (by omega)]

theorem key?_make (t : Promises κ ν) (k : κ) (j : Nat) :
    (t.make k).key? j = if j = t.made.length then some k else t.key? j := by
  simp only [key?, make]
  by_cases hj : j = t.made.length
  · simp [hj]
  · rw [if_neg hj]
    by_cases hlt : j < t.made.length
    · rw [List.getElem?_append_left hlt]
    · rw [List.getElem?_eq_none (by simp; omega), List.getElem?_eq_none (by omega)]

omit [DecidableEq κ] in
theorem lt_length_of_promise? {t : Promises κ ν} {i : Nat} {p : Promise ν}
    (h : t.promise? i = some p) : i < t.made.length := by
  obtain ⟨q, hq, -⟩ := Option.map_eq_some_iff.mp h
  exact (List.getElem?_eq_some_iff.mp hq).1

omit [DecidableEq κ] in
/-- A promise that every one of a list of them fails with is settled. -/
theorem promise?_failEach (t : Promises κ ν) (is : List Nat) (j : Nat) :
    (t.failEach is).promise? j =
      if j ∈ is then (t.promise? j).map (·.settle .failed) else t.promise? j := by
  induction is generalizing t with
  | nil => simp [failEach]
  | cons i is ih =>
    rw [failEach, List.foldl_cons, ← failEach, ih, promise?_settle]
    by_cases hi : i = j
    · cases hp : t.promise? j with
      | none => simp
      | some p => cases p <;> simp [hi, Promise.settle]
    · have hne : ¬ j = i := fun h => hi h.symm
      simp [hi, hne]

omit [DecidableEq κ] in
@[simp] theorem key?_failEach (t : Promises κ ν) (is : List Nat) (j : Nat) :
    (t.failEach is).key? j = t.key? j := by
  induction is generalizing t with
  | nil => rfl
  | cons i is ih => rw [failEach, List.foldl_cons, ← failEach, ih, key?_settle]

omit [DecidableEq κ] in
@[simp] theorem pending_failEach (t : Promises κ ν) (is : List Nat) :
    (t.failEach is).pending = t.pending := by
  induction is generalizing t with
  | nil => rfl
  | cons i is ih => rw [failEach, List.foldl_cons, ← failEach, ih]; rfl

/-- What is pending under a key was made under it. -/
theorem key?_of_pending {t : Promises κ ν} {k : κ} {i : Nat} (h : t.pending.get? k = some i) :
    t.key? i = some k := by
  have hkey := t.keyed (k, i) (Dict.get?_eq_some_iff.mp h)
  rwa [List.getElem?_map] at hkey

theorem promise?_deliver_of_pending {t : Promises κ ν} {k : κ} {i : Nat}
    (h : t.pending.get? k = some i) (v : ν) (j : Nat) :
    (t.deliver k v).promise? j =
      if i = j then (t.promise? j).map (·.settle (.value v)) else t.promise? j := by
  rw [deliver, h]
  exact promise?_settle _ i _ j

theorem forgetOf_eq (t : Promises κ ν) (i : Nat) :
    (t.forgetOf i = t ∧ t.key? i = none) ∨ ∃ k, t.key? i = some k ∧ t.forgetOf i = t.forget k := by
  rw [forgetOf]
  cases h : t.key? i with
  | none => exact .inl ⟨rfl, rfl⟩
  | some k => exact .inr ⟨k, rfl, rfl⟩

theorem made_forgetOf (t : Promises κ ν) (i : Nat) : (t.forgetOf i).made = t.made := by
  obtain ⟨h, -⟩ | ⟨k, -, h⟩ := t.forgetOf_eq i
  · rw [h]
  · rw [h]; rfl

/-! ## Keys -/

/-- The keys that promises were made under, oldest first. -/
def keys (t : Promises κ ν) : List κ := t.made.map Prod.fst

omit [DecidableEq κ] in
theorem key?_eq (t : Promises κ ν) (i : Nat) : t.key? i = t.keys[i]? := by
  rw [key?, keys, List.getElem?_map]

theorem keys_make (t : Promises κ ν) (k : κ) : (t.make k).keys = t.keys ++ [k] := by
  simp [keys, make]

omit [DecidableEq κ] in
@[simp] theorem keys_settle (t : Promises κ ν) (i : Nat) (result : Promise ν) :
    (t.settle i result).keys = t.keys := by
  refine List.ext_getElem? fun j => ?_
  rw [← key?_eq, key?_settle, key?_eq]

omit [DecidableEq κ] in
@[simp] theorem keys_failEach (t : Promises κ ν) (is : List Nat) :
    (t.failEach is).keys = t.keys := by
  refine List.ext_getElem? fun j => ?_
  rw [← key?_eq, key?_failEach, key?_eq]

@[simp] theorem keys_forgetOf (t : Promises κ ν) (i : Nat) : (t.forgetOf i).keys = t.keys := by
  rw [keys, made_forgetOf, keys]

omit [DecidableEq κ] in
@[simp] theorem keys_clear (t : Promises κ ν) : t.clear.keys = t.keys := rfl

@[simp] theorem keys_deliver (t : Promises κ ν) (k : κ) (v : ν) :
    (t.deliver k v).keys = t.keys := by
  rw [deliver]
  cases t.pending.get? k with
  | none => rfl
  | some i => exact keys_settle (t.forget k) i _

/-! ## What is pending -/

omit [DecidableEq κ] in
theorem pending_settle (t : Promises κ ν) (i : Nat) (result : Promise ν) :
    (t.settle i result).pending = t.pending := rfl

/-- Another key than that of the promise stays pending. -/
theorem pending_forgetOf {t : Promises κ ν} {i : Nat} {k : κ} (h : t.key? i ≠ some k) :
    (t.forgetOf i).pending.get? k = t.pending.get? k := by
  obtain ⟨hsame, -⟩ | ⟨k', hk', hforget⟩ := t.forgetOf_eq i
  · rw [hsame]
  · have hne : k ≠ k' := fun hkk => h (hkk ▸ hk')
    rw [hforget, forget, Dict.get?_erase, if_neg hne]

/-- A promise that was taken off is not pending. -/
theorem not_pending_forgetOf (t : Promises κ ν) (i : Nat) (k : κ) :
    (t.forgetOf i).pending.get? k ≠ some i := by
  intro h
  have hkey : t.key? i = some k := by
    have hkey := key?_of_pending h
    rwa [key?_eq, keys_forgetOf, ← key?_eq] at hkey
  obtain ⟨-, hnone⟩ | ⟨k', hk', hforget⟩ := t.forgetOf_eq i
  · rw [hkey] at hnone
    cases hnone
  · cases hkey.symm.trans hk'
    rw [hforget, forget, Dict.get?_erase, if_pos rfl] at h
    cases h

/-- What is pending still was so before. -/
theorem pending_of_forgetOf {t : Promises κ ν} {i j : Nat} {k : κ}
    (h : (t.forgetOf i).pending.get? k = some j) : t.pending.get? k = some j := by
  obtain ⟨hsame, -⟩ | ⟨k', -, hforget⟩ := t.forgetOf_eq i
  · rwa [hsame] at h
  · rw [hforget, forget, Dict.get?_erase] at h
    split at h
    · cases h
    · exact h

/-- A promise that still waits behind `deliver` is under another key or is not pending. -/
theorem pending_deliver {t : Promises κ ν} {k : κ} {v : ν} {j : Nat} {k' : κ}
    (h : (t.deliver k v).pending.get? k' = some j) :
    t.pending.get? k' = some j ∧ (k' = k → t.pending.get? k = none) := by
  rw [deliver] at h
  cases hi : t.pending.get? k with
  | none =>
    rw [hi] at h
    exact ⟨h, fun _ => rfl⟩
  | some i =>
    rw [hi] at h
    have hget : (t.pending.erase k).get? k' = some j := h
    rw [Dict.get?_erase] at hget
    split at hget
    · cases hget
    · next hne => exact ⟨hget, fun hk => absurd hk hne⟩

omit [DecidableEq κ] in
/-- A promise that is to fail does not wait. -/
theorem not_waiting_settle (t : Promises κ ν) (i : Nat) :
    (t.settle i .failed).promise? i ≠ some .waiting := by
  intro h
  rw [promise?_settle, if_pos rfl] at h
  obtain ⟨p, -, hp⟩ := Option.map_eq_some_iff.mp h
  exact p.settle_failed_ne hp

/-! ## Promises are kept -/

/-- The later table has every promise of the earlier one, and those that were settled as they
were. -/
def Extends (t t' : Promises κ ν) : Prop :=
  ∀ i p, t.promise? i = some p →
    t'.key? i = t.key? i ∧ ∃ q, t'.promise? i = some q ∧ (p ≠ .waiting → q = p)

namespace Extends

omit [DecidableEq κ]

theorem refl (t : Promises κ ν) : Extends t t := fun _ p h => ⟨rfl, p, h, fun _ => rfl⟩

theorem trans {t t' t'' : Promises κ ν} (h : Extends t t') (h' : Extends t' t'') :
    Extends t t'' := by
  intro i p hp
  obtain ⟨hkey, q, hq, hqp⟩ := h i p hp
  obtain ⟨hkey', r, hr, hrq⟩ := h' i q hq
  refine ⟨hkey'.trans hkey, r, hr, fun hne => ?_⟩
  have hq' : q = p := hqp hne
  rw [hrq (hq' ▸ hne), hq']

/-- A value stays. -/
theorem value {t t' : Promises κ ν} (h : Extends t t') {i : Nat} {v : ν}
    (hv : t.promise? i = some (.value v)) : t'.promise? i = some (.value v) := by
  obtain ⟨-, q, hq, hqp⟩ := h i _ hv
  have hsettled : Promise.value v ≠ .waiting := by simp
  rw [hq, hqp hsettled]

theorem settle (t : Promises κ ν) (i : Nat) (result : Promise ν) : Extends t (t.settle i result) := by
  intro j p hp
  refine ⟨key?_settle t i result j, ?_⟩
  rw [promise?_settle, hp]
  by_cases hi : i = j
  · exact ⟨p.settle result, by simp [hi], fun hne => Promise.settle_of_ne hne result⟩
  · exact ⟨p, by simp [hi], fun _ => rfl⟩

theorem failEach (t : Promises κ ν) (is : List Nat) : Extends t (t.failEach is) := by
  induction is generalizing t with
  | nil => exact refl t
  | cons i is ih =>
    rw [Promises.failEach, List.foldl_cons, ← Promises.failEach]
    exact (settle t i .failed).trans (ih _)

end Extends

theorem extends_make (t : Promises κ ν) (k : κ) : Extends t (t.make k) := by
  intro i p hp
  have hne : i ≠ t.made.length := Nat.ne_of_lt (lt_length_of_promise? hp)
  rw [key?_make, promise?_make, if_neg hne, if_neg hne]
  exact ⟨rfl, p, hp, fun _ => rfl⟩

omit [DecidableEq κ] in
theorem extends_of_made {t t' : Promises κ ν} (h : t'.made = t.made) : Extends t t' := by
  intro i p hp
  rw [key?, promise?, h]
  exact ⟨rfl, p, hp, fun _ => rfl⟩

theorem extends_deliver (t : Promises κ ν) (k : κ) (v : ν) : Extends t (t.deliver k v) := by
  rw [deliver]
  cases t.pending.get? k with
  | none => exact Extends.refl t
  | some i => exact Extends.settle (t.forget k) i _

/-! ## Values -/

@[simp] theorem values_make (t : Promises κ ν) (k : κ) : (t.make k).values = t.values := by
  rw [values, make, List.filterMap_append]
  exact List.append_nil _

omit [DecidableEq κ] in
@[simp] theorem values_clear (t : Promises κ ν) : t.clear.values = t.values := rfl

omit [DecidableEq κ] in
theorem values_settle_failed (t : Promises κ ν) (i : Nat) :
    (t.settle i .failed).values = t.values := by
  by_cases hi : i < t.made.length
  · rw [values, made_settle, List.modify_eq_take_cons_drop hi, List.filterMap_append,
      List.filterMap_cons, Promise.value?_settle_failed]
    conv_rhs => rw [values, ← List.take_append_drop i t.made, List.drop_eq_getElem_cons hi,
      List.filterMap_append, List.filterMap_cons]
  · rw [values, made_settle, List.modify_eq_self (by omega)]
    rfl

omit [DecidableEq κ] in
theorem values_failEach (t : Promises κ ν) (is : List Nat) : (t.failEach is).values = t.values := by
  induction is generalizing t with
  | nil => rfl
  | cons i is ih => rw [failEach, List.foldl_cons, ← failEach, ih, values_settle_failed]

omit [DecidableEq κ] in
theorem values_settle_value {t : Promises κ ν} {i : Nat} (h : t.promise? i = some .waiting) (v : ν) :
    (t.settle i (.value v)).values.Perm (v :: t.values) := by
  have hi : i < t.made.length := lt_length_of_promise? h
  have hwait : (t.made[i]).2 = .waiting := by
    simpa [promise?, List.getElem?_eq_getElem hi] using h
  have hvalues : t.values = (t.made.take i).filterMap (fun p => p.2.value?) ++
      (t.made.drop (i + 1)).filterMap (fun p => p.2.value?) := by
    conv_lhs => rw [values, ← List.take_append_drop i t.made, List.drop_eq_getElem_cons hi,
      List.filterMap_append, List.filterMap_cons, hwait]
    rfl
  rw [values, made_settle, List.modify_eq_take_cons_drop hi, List.filterMap_append, List.filterMap_cons,
    hwait, hvalues]
  exact List.perm_middle

omit [DecidableEq κ] in
theorem settle_of_settled {t : Promises κ ν} {i : Nat} (h : t.promise? i ≠ some .waiting)
    (result : Promise ν) : (t.settle i result).made = t.made := by
  refine List.ext_getElem? fun j => ?_
  rw [made_settle, List.getElem?_modify]
  cases hj : t.made[j]? with
  | none => rfl
  | some p =>
    by_cases hi : i = j
    · subst hi
      have hp : p.2 ≠ .waiting := fun hw => h (by rw [promise?, hj, Option.map_some, hw])
      simp [Promise.settle_of_ne hp]
    · simp [hi]

omit [DecidableEq κ] in
/-- A promise has the value that it is settled with, or had one. -/
theorem value_of_settle {t : Promises κ ν} {i j : Nat} {result : Promise ν} {v : ν}
    (h : (t.settle i result).promise? j = some (.value v)) :
    t.promise? j = some (.value v) ∨
      i = j ∧ t.promise? j = some .waiting ∧ result = .value v := by
  rw [promise?_settle] at h
  by_cases hi : i = j
  · rw [if_pos hi] at h
    obtain ⟨p, hp, hsettle⟩ := Option.map_eq_some_iff.mp h
    cases p with
    | waiting => exact .inr ⟨hi, hp, hsettle⟩
    | value w => cases hsettle; exact .inl hp
    | failed => cases hsettle
  · rw [if_neg hi] at h
    exact .inl h

omit [DecidableEq κ] in
theorem value_of_settle_failed {t : Promises κ ν} {i j : Nat} {v : ν}
    (h : (t.settle i .failed).promise? j = some (.value v)) : t.promise? j = some (.value v) := by
  obtain h | ⟨-, -, h⟩ := value_of_settle h
  · exact h
  · cases h

omit [DecidableEq κ] in
theorem value_of_failEach {t : Promises κ ν} {is : List Nat} {j : Nat} {v : ν}
    (h : (t.failEach is).promise? j = some (.value v)) : t.promise? j = some (.value v) := by
  induction is generalizing t with
  | nil => exact h
  | cons i is ih => exact value_of_settle_failed (ih h)

/-- A value goes to the promise that waits under its key. -/
theorem values_deliver {t : Promises κ ν} {k : κ} {i : Nat} (hk : t.pending.get? k = some i)
    (hi : t.promise? i = some .waiting) (v : ν) :
    (t.deliver k v).values.Perm (v :: t.values) := by
  rw [deliver, hk]
  exact values_settle_value (t := t.forget k) hi v

/-- Where that is settled the value goes nowhere. -/
theorem values_deliver_of_settled {t : Promises κ ν} {k : κ} {i : Nat}
    (hk : t.pending.get? k = some i) (hi : t.promise? i ≠ some .waiting) (v : ν) :
    (t.deliver k v).values = t.values := by
  rw [deliver, hk]
  simp only
  rw [values, settle_of_settled (t := t.forget k) hi]
  rfl

end Promises
