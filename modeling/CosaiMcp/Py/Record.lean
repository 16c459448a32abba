import CosaiMcp.Py.Canonical
import CosaiMcp.Py.Except
import CosaiMcp.Py.Value

/-!
# Reading a record

How `from_dict` functions take a document apart: members with and without a default, conversions,
members of an enumeration, and loops over what a member holds. A record that was written is read
member by member (`subscript_eq`, `getDefault_eq`), and comes back from a text as the record of its
members (`reload_record`). A document that is parsed and written again is the same if it has the
keys of the record and their values (`sorted_eq_record_iff`).
-/

namespace Py

variable {φ : Type}

inductive PyError where
  | keyError
  | valueError
  | typeError
  | attributeError
  | overflowError
deriving DecidableEq

/-- `d[key]`. -/
def subscript (d : Json φ) (key : Str) : Except PyError (Json φ) :=
  match d with
  | .obj ms =>
    match (Json.obj ms).get? key with
    | none => .error .keyError
    | some v => .ok v
  | _ => .error .typeError

/-- `d.get(key, default)`. -/
def getDefault (d : Json φ) (key : Str) (default : Json φ) : Except PyError (Json φ) :=
  match d with
  | .obj ms => .ok (((Json.obj ms).get? key).getD default)
  | _ => .error .attributeError

/-- The elements that a loop over a value goes through. -/
def iterate : Json φ → Except PyError (List (Json φ))
  | .arr js => .ok js
  | .str s => .ok (s.map fun c => .str [c])
  | .obj ms => .ok (ms.map fun m => .str m.1)
  | _ => .error .typeError

/-- The member of an enumeration of texts that has this value. -/
def enumMember {α : Type} (members : List α) (value : α → Str) (v : Json φ) : Except PyError α :=
  match v with
  | .str s =>
    match members.find? (value · = s) with
    | none => .error .valueError
    | some a => .ok a
  | _ => .error .valueError

/-- `f(v) if v else None`. -/
def ifTruthy [PyFloat φ] {α : Type} (v : Json φ) (f : Json φ → Except PyError α) :
    Except PyError (Option α) :=
  if v.truthy then (f v).map some else .ok none

/-- Conversions that go by texts or floats. -/
structure Builtins (φ : Type) where
  /-- `str(v)`. -/
  str : Json φ → Str
  str_str : ∀ s, str (.str s) = s
  /-- `int(s)`. -/
  parseInt : Str → Except PyError Int
  /-- `int(x)`. -/
  truncate : φ → Except PyError Int
  /-- `dict(pairs)`, with keys as `json.dumps` writes them. -/
  dictOfPairs : List (Json φ) → Except PyError (Dict Str (Json φ))

namespace Builtins

variable (B : Builtins φ)

/-- `int(v)`. -/
def int : Json φ → Except PyError Int
  | .int n => .ok n
  | .bool b => .ok (if b then 1 else 0)
  | .float x => B.truncate x
  | .nan => .error .valueError
  | .str s => B.parseInt s
  | _ => .error .typeError

/-- `dict(v)`. -/
def dict : Json φ → Except PyError (Dict Str (Json φ))
  | .obj ms => .ok (Dict.ofList ms)
  | .arr js => B.dictOfPairs js
  | .str [] => .ok Dict.empty
  | .str _ => .error .valueError
  | _ => .error .typeError

/-- `tuple(str(x) for x in v)`. -/
def strs (v : Json φ) : Except PyError (List Str) := (iterate v).map fun js => js.map B.str

end Builtins

/-- Conversions that know texts and refuse all else. -/
def textBuiltins : Builtins WholeFloat :=
  { str := fun v => v.asStr?.getD []
    str_str := Json.getD_asStr?_str
    parseInt := fun _ => .error .valueError
    truncate := fun _ => .error .overflowError
    dictOfPairs := fun _ => .error .typeError }

/-! ## Reading what was written -/

theorem subscript_eq {ms : List (Str × Json φ)} {key : Str} {v : Json φ}
    (h : (Json.obj ms).get? key = some v) : subscript (.obj ms) key = .ok v := by
  rw [subscript, h]

theorem getDefault_eq {ms : List (Str × Json φ)} {key : Str} {v default : Json φ}
    (h : (Json.obj ms).get? key = some v) : getDefault (.obj ms) key default = .ok v := by
  rw [getDefault, h]
  rfl

theorem strs_arr (B : Builtins φ) (ss : List Str) :
    B.strs (.arr (ss.map .str)) = .ok ss := by
  have hstrs : (ss.map Json.str).map B.str = ss := by
    rw [List.map_map]
    exact (List.map_congr_left fun s _ => B.str_str s).trans (List.map_id ss)
  rw [Builtins.strs, iterate, Except.map, hstrs]

theorem noPair_keys {ms : List (Str × Json φ)} (h : (ms.map Prod.fst).all isScalar = true) :
    ∀ m ∈ ms, NoPair m.1 := fun m hm =>
  noPair_of_isScalar (List.all_eq_true.mp h m.1 (List.mem_map_of_mem hm))

theorem reload_record {ms : List (Str × Json φ)} (hn : (ms.map Prod.fst).Nodup)
    (hk : (ms.map Prod.fst).all isScalar = true) :
    (Json.obj ms).reload = .obj (ms.map fun m => (m.1, m.2.reload)) :=
  reload_obj_of_keys hn (noPair_keys hk)

/-- A record with stable members. -/
theorem keysStable_record {ms : List (Str × Json φ)} (hn : (ms.map Prod.fst).Nodup)
    (hk : (ms.map Prod.fst).all isScalar = true) (h : ∀ m ∈ ms, m.2.KeysStable) :
    (Json.obj ms).KeysStable :=
  .obj hn (noPair_keys hk) h

theorem mapM_map_eq_ok {ε α β γ : Type} {f : β → Except ε γ} {g : α → β} {c : α → γ} {l : List α}
    (h : ∀ a ∈ l, f (g a) = .ok (c a)) : (l.map g).mapM f = .ok (l.map c) := by
  rw [mapM_eq_ok_iff, List.map_map, List.map_map]
  exact List.map_congr_left h

theorem ifTruthy_eq_some_iff [PyFloat φ] {α : Type} {v : Json φ} {f : Json φ → Except PyError α}
    {a : α} : ifTruthy v f = .ok (some a) ↔ v.truthy = true ∧ f v = .ok a := by
  unfold ifTruthy
  split
  · next ht =>
    cases f v with
    | error e => exact ⟨nofun, fun h => nomatch h.2⟩
    | ok b => simp [ht, Except.map]
  · next ht => exact ⟨nofun, fun h => absurd h.1 ht⟩

/-! ## Documents in the form of a record -/

theorem sortMembers_eq_iff {ms ns : List (Str × Json φ)} (hms : (ms.map Prod.fst).Nodup)
    (hns : (ns.map Prod.fst).Nodup) :
    sortMembers ms = sortMembers ns ↔ ∀ k, (Json.obj ms).get? k = (Json.obj ns).get? k := by
  constructor
  · intro h k
    rw [Json.get?_perm hms (sortMembers_perm ms).symm, h,
      Json.get?_perm hns (sortMembers_perm ns).symm]
  · intro h
    apply sortMembers_eq_of_perm hms
    refine (List.perm_ext_iff_of_nodup (.of_map _ hms) (.of_map _ hns)).mpr ?_
    rintro ⟨k, v⟩
    rw [← Json.get?_eq_some_iff hms, ← Json.get?_eq_some_iff hns, h k]

/-- A document is a record, up to the order of keys and a round trip of the record, just when it
has the keys of the record and no others, with values that are those of the record. -/
theorem sorted_eq_record_iff {ms es : List (Str × Json φ)} (hms : (ms.map Prod.fst).Nodup)
    (hes : (es.map Prod.fst).Nodup) (hk : (es.map Prod.fst).all isScalar = true) :
    (Json.obj ms).sorted = (Json.obj es).sorted.reload ↔
      (∀ m ∈ ms, m.1 ∈ es.map Prod.fst) ∧
        ∀ e ∈ es, ∃ w, (Json.obj ms).get? e.1 = some w ∧ w.sorted = e.2.sorted.reload := by
  have hmap : ∀ {ms : List (Str × Json φ)} (f : Json φ → Json φ), (ms.map Prod.fst).Nodup →
      ((ms.map fun m => (m.1, f m.2)).map Prod.fst).Nodup := by
    intro ms f hms
    rwa [List.map_map]
  have hkeys : ∀ m ∈ (sortMembers es).map fun m => (m.1, m.2.sorted), NoPair m.1 := by
    intro m hm
    obtain ⟨e, he, rfl⟩ := List.mem_map.mp hm
    exact noPair_keys hk e (mem_sortMembers.mp he)
  have hleft : (Json.obj ms).sorted = .obj (sortMembers (ms.map fun m => (m.1, m.2.sorted))) := by
    rw [Json.sorted_obj, sortMembers_map]
  have hright : (Json.obj es).sorted.reload =
      .obj (sortMembers (es.map fun e => (e.1, e.2.sorted.reload))) := by
    rw [Json.sorted_obj, reload_obj_of_keys (hmap _ (nodup_keys_sortMembers.mpr hes)) hkeys,
      List.map_map, sortMembers_map (fun j : Json φ => j.sorted.reload)]
    rfl
  rw [hleft, hright, Json.obj.injEq, sortMembers_eq_iff (hmap Json.sorted hms)
    (hmap (fun j => j.sorted.reload) hes)]
  simp only [Json.get?_map Json.sorted, Json.get?_map fun j : Json φ => j.sorted.reload]
  constructor
  · intro h
    refine ⟨fun m hm => ?_, fun e he => ?_⟩
    · have hm' := h m.1
      rw [(Json.get?_eq_some_iff hms).mpr hm, Option.map_some] at hm'
      obtain ⟨v, hv, -⟩ := Option.map_eq_some_iff.mp hm'.symm
      exact List.mem_map.mpr ⟨(m.1, v), (Json.get?_eq_some_iff hes).mp hv, rfl⟩
    · have he' := h e.1
      rw [(Json.get?_eq_some_iff hes).mpr he, Option.map_some] at he'
      obtain ⟨w, hw, hsame⟩ := Option.map_eq_some_iff.mp he'
      exact ⟨w, hw, hsame⟩
  · rintro ⟨honly, hvalues⟩ k
    cases he : (Json.obj es).get? k with
    | some v =>
      obtain ⟨w, hw, hsame⟩ := hvalues (k, v) ((Json.get?_eq_some_iff hes).mp he)
      rw [hw, Option.map_some, Option.map_some, hsame]
    | none =>
      cases hm : (Json.obj ms).get? k with
      | none => rfl
      | some w =>
        obtain ⟨e, he', hek⟩ := List.mem_map.mp (honly (k, w) ((Json.get?_eq_some_iff hms).mp hm))
        have hsome := (Json.get?_eq_some_iff hes).mpr (show (e.1, e.2) ∈ es from he')
        rw [hek, he] at hsome
        cases hsome
end Py
