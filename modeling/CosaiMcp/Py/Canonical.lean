import CosaiMcp.Py.JsonRoundTrip

/-!
# Canonical JSON text

`Json.canonical` is `json.dumps` with sorted keys. A value whose objects have distinct keys without
surrogate pairs (`KeysStable`) keeps its canonical text through a round trip (`canonical_reload`),
and two such values of one text are the same after a round trip, up to the order of keys
(`reload_sorted_of_canonical_eq`). What is written consists of printable ASCII characters
(`isGraphic_of_mem_text`).
-/

namespace Py

variable {φ : Type}

/-- The order in which `sort_keys` writes the members of an object. -/
def keyLe {ν : Type} (a b : Str × ν) : Bool := strLe a.1 b.1

def sortMembers {ν : Type} (ms : List (Str × ν)) : List (Str × ν) := ms.mergeSort keyLe

mutual

/-- A value with the members of its objects sorted by key. -/
def Json.sorted : Json φ → Json φ
  | .arr js => .arr (Json.sortedItems js)
  | .obj ms => .obj (sortMembers (Json.sortedMembers ms))
  | .null => .null
  | .bool b => .bool b
  | .int n => .int n
  | .float x => .float x
  | .nan => .nan
  | .str s => .str s

def Json.sortedItems : List (Json φ) → List (Json φ)
  | [] => []
  | j :: js => Json.sorted j :: Json.sortedItems js

def Json.sortedMembers : List (Str × Json φ) → List (Str × Json φ)
  | [] => []
  | (k, v) :: ms => (k, Json.sorted v) :: Json.sortedMembers ms

end

/-- `json.dumps(j, sort_keys=True, separators=(",", ":"))`. -/
def Json.canonical [FloatText φ] (j : Json φ) : Str := j.sorted.text

/-! ## Sorting members -/

section Members

variable {ν : Type}

theorem pairwise_sortMembers (ms : List (Str × ν)) :
    (sortMembers ms).Pairwise fun a b => keyLe a b = true := by
  apply List.pairwise_mergeSort
  · exact fun _ _ _ => strLe_trans
  · exact fun _ _ => strLe_total _ _

theorem sortMembers_perm (ms : List (Str × ν)) : (sortMembers ms).Perm ms :=
  List.mergeSort_perm ms keyLe

theorem mem_sortMembers {ms : List (Str × ν)} {m : Str × ν} : m ∈ sortMembers ms ↔ m ∈ ms :=
  (sortMembers_perm ms).mem_iff

theorem nodup_keys_sortMembers {ms : List (Str × ν)} :
    ((sortMembers ms).map Prod.fst).Nodup ↔ (ms.map Prod.fst).Nodup :=
  ((sortMembers_perm ms).map Prod.fst).nodup_iff

/-- Sorted members with distinct keys are determined by what they are. -/
theorem eq_of_perm_of_pairwise {ms ns : List (Str × ν)} (hn : (ms.map Prod.fst).Nodup)
    (hms : ms.Pairwise fun a b => keyLe a b = true) (hns : ns.Pairwise fun a b => keyLe a b = true)
    (h : ms.Perm ns) : ms = ns := by
  refine List.Perm.eq_of_pairwise (fun a b ha hb hab hba => ?_) hms hns h
  exact List.inj_on_of_nodup_map hn ha (h.mem_iff.mpr hb) (strLe_antisymm hab hba)

theorem sortMembers_eq_of_perm {ms ns : List (Str × ν)} (hn : (ms.map Prod.fst).Nodup)
    (h : ms.Perm ns) : sortMembers ms = sortMembers ns :=
  eq_of_perm_of_pairwise (nodup_keys_sortMembers.mpr hn) (pairwise_sortMembers ms)
    (pairwise_sortMembers ns)
    ((sortMembers_perm ms).trans (h.trans (sortMembers_perm ns).symm))

theorem sortMembers_filter {ms : List (Str × ν)} (hn : (ms.map Prod.fst).Nodup)
    (p : Str × ν → Bool) : (sortMembers ms).filter p = sortMembers (ms.filter p) :=
  eq_of_perm_of_pairwise
    ((nodup_keys_sortMembers.mpr hn).sublist (List.filter_sublist.map Prod.fst))
    ((pairwise_sortMembers ms).filter p) (pairwise_sortMembers _)
    (((sortMembers_perm ms).filter p).trans (sortMembers_perm _).symm)

theorem sortMembers_map {ν' : Type} (f : ν → ν') (ms : List (Str × ν)) :
    sortMembers (ms.map fun m => (m.1, f m.2)) = (sortMembers ms).map fun m => (m.1, f m.2) := by
  symm
  apply List.map_mergeSort
  exact fun _ _ _ _ => rfl

theorem sortMembers_sortMembers (ms : List (Str × ν)) :
    sortMembers (sortMembers ms) = sortMembers ms :=
  List.mergeSort_of_pairwise (pairwise_sortMembers ms)

end Members

/-! ## Members as maps -/

theorem Json.sortedItems_eq (js : List (Json φ)) : Json.sortedItems js = js.map Json.sorted := by
  induction js with
  | nil => rfl
  | cons j js ih => rw [Json.sortedItems, ih, List.map_cons]

theorem Json.sortedMembers_eq (ms : List (Str × Json φ)) :
    Json.sortedMembers ms = ms.map fun m => (m.1, m.2.sorted) := by
  induction ms with
  | nil => rfl
  | cons m ms ih => rw [Json.sortedMembers, ih, List.map_cons]

theorem Json.sorted_obj (ms : List (Str × Json φ)) :
    (Json.obj ms).sorted = .obj ((sortMembers ms).map fun m => (m.1, m.2.sorted)) := by
  rw [Json.sorted, Json.sortedMembers_eq, sortMembers_map]

theorem Json.reloadItems_eq (js : List (Json φ)) : Json.reloadItems js = js.map Json.reload := by
  induction js with
  | nil => rfl
  | cons j js ih => rw [Json.reloadItems, ih, List.map_cons]

theorem Json.reloadMembers_eq (ms : List (Str × Json φ)) :
    Json.reloadMembers ms = ms.map fun m => (mergePairs m.1, m.2.reload) := by
  induction ms with
  | nil => rfl
  | cons m ms ih => rw [Json.reloadMembers, ih, List.map_cons]

/-! ## Values with stable keys -/

/-- Every object, at any depth, has distinct keys without surrogate pairs. -/
inductive Json.KeysStable : Json φ → Prop
  | null : KeysStable .null
  | bool (b : Bool) : KeysStable (.bool b)
  | int (n : Int) : KeysStable (.int n)
  | float (x : φ) : KeysStable (.float x)
  | nan : KeysStable .nan
  | str (s : Str) : KeysStable (.str s)
  | arr {js : List (Json φ)} (h : ∀ j ∈ js, KeysStable j) : KeysStable (.arr js)
  | obj {ms : List (Str × Json φ)} (hn : (ms.map Prod.fst).Nodup) (hk : ∀ m ∈ ms, NoPair m.1)
      (h : ∀ m ∈ ms, KeysStable m.2) : KeysStable (.obj ms)

theorem reload_obj_of_keys {ms : List (Str × Json φ)} (hn : (ms.map Prod.fst).Nodup)
    (hk : ∀ m ∈ ms, NoPair m.1) :
    (Json.obj ms).reload = .obj (ms.map fun m => (m.1, m.2.reload)) := by
  have hmembers : Json.reloadMembers ms = ms.map fun m => (m.1, m.2.reload) := by
    rw [Json.reloadMembers_eq]
    exact List.map_congr_left fun m hm => by rw [mergePairs_eq_self (hk m hm)]
  rw [Json.reload, hmembers, dictOf_of_nodup]
  rwa [List.map_map]

theorem Json.KeysStable.sorted {j : Json φ} (h : j.KeysStable) : j.sorted.KeysStable := by
  induction h with
  | arr _ ih =>
    rw [Json.sorted, Json.sortedItems_eq]
    refine .arr fun j hj => ?_
    obtain ⟨i, hi, rfl⟩ := List.mem_map.mp hj
    exact ih i hi
  | obj hn hk _ ih =>
    rw [Json.sorted_obj]
    refine .obj ?_ ?_ ?_
    · rw [List.map_map]
      exact nodup_keys_sortMembers.mpr hn
    · intro m hm
      obtain ⟨i, hi, rfl⟩ := List.mem_map.mp hm
      exact hk i (mem_sortMembers.mp hi)
    · intro m hm
      obtain ⟨i, hi, rfl⟩ := List.mem_map.mp hm
      exact ih i (mem_sortMembers.mp hi)
  | null => exact .null
  | bool b => exact .bool b
  | int n => exact .int n
  | float x => exact .float x
  | nan => exact .nan
  | str s => exact .str s

theorem Json.KeysStable.reload {j : Json φ} (h : j.KeysStable) : j.reload.KeysStable := by
  induction h with
  | arr _ ih =>
    rw [Json.reload, Json.reloadItems_eq]
    refine .arr fun j hj => ?_
    obtain ⟨i, hi, rfl⟩ := List.mem_map.mp hj
    exact ih i hi
  | obj hn hk _ ih =>
    rw [reload_obj_of_keys hn hk]
    refine .obj (by rwa [List.map_map]) ?_ ?_
    · intro m hm
      obtain ⟨i, hi, rfl⟩ := List.mem_map.mp hm
      exact hk i hi
    · intro m hm
      obtain ⟨i, hi, rfl⟩ := List.mem_map.mp hm
      exact ih i hi
  | null => exact .null
  | bool b => exact .bool b
  | int n => exact .int n
  | float x => exact .float x
  | nan => exact .nan
  | str s => exact .str _

/-- Sorting and reading back can be exchanged. -/
theorem Json.KeysStable.reload_sorted {j : Json φ} (h : j.KeysStable) :
    j.sorted.reload = j.reload.sorted := by
  induction h with
  | arr _ ih =>
    simp only [Json.sorted, Json.reload, Json.sortedItems_eq, Json.reloadItems_eq, List.map_map]
    exact congrArg _ (List.map_congr_left fun j hj => ih j hj)
  | @obj ms hn hk _ ih =>
    have hstable := Json.sorted_obj ms
    rw [Json.sorted_obj, reload_obj_of_keys hn hk, reload_obj_of_keys, Json.sorted_obj,
      sortMembers_map, List.map_map, List.map_map]
    · refine congrArg _ (List.map_congr_left fun m hm => ?_)
      exact congrArg (Prod.mk m.1) (ih m (mem_sortMembers.mp hm))
    · rw [List.map_map]
      exact nodup_keys_sortMembers.mpr hn
    · intro m hm
      obtain ⟨i, hi, rfl⟩ := List.mem_map.mp hm
      exact hk i (mem_sortMembers.mp hi)
  | null => rfl
  | bool b => rfl
  | int n => rfl
  | float x => rfl
  | nan => rfl
  | str s => rfl

theorem Json.sorted_sorted (j : Json φ) : j.sorted.sorted = j.sorted := by
  induction j using Json.induct with
  | arr js ih =>
    simp only [Json.sorted, Json.sortedItems_eq, List.map_map]
    exact congrArg _ (List.map_congr_left fun j hj => ih j hj)
  | obj ms ih =>
    rw [Json.sorted_obj, Json.sorted_obj, sortMembers_map, sortMembers_sortMembers, List.map_map]
    refine congrArg _ (List.map_congr_left fun m hm => ?_)
    exact congrArg (Prod.mk m.1) (ih m (mem_sortMembers.mp hm))
  | _ => rfl

/-! ## Members of a value that was sorted or read back -/

theorem Json.get?_map (f : Json φ → Json φ) (ms : List (Str × Json φ)) (k : Str) :
    (Json.obj (ms.map fun m => (m.1, f m.2))).get? k = ((Json.obj ms).get? k).map f := by
  rw [Json.get?, Json.get?, List.find?_map, Option.map_map, Option.map_map]
  rfl

/-- The order of members does not matter. -/
theorem Json.get?_perm {ms ns : List (Str × Json φ)} (hn : (ms.map Prod.fst).Nodup)
    (h : ms.Perm ns) (k : Str) : (Json.obj ms).get? k = (Json.obj ns).get? k :=
  @Dict.get?_congr _ _ _ ⟨ms, hn⟩ ⟨ns, (h.map Prod.fst).nodup_iff.mp hn⟩ k k fun _ => h.mem_iff

theorem Json.get?_sorted {ms : List (Str × Json φ)} (hn : (ms.map Prod.fst).Nodup) (k : Str) :
    (Json.obj ms).sorted.get? k = ((Json.obj ms).get? k).map Json.sorted := by
  rw [Json.sorted_obj, Json.get?_map, Json.get?_perm hn (sortMembers_perm ms).symm]

theorem Json.get?_eq_some_iff {ms : List (Str × Json φ)} (hn : (ms.map Prod.fst).Nodup) {k : Str}
    {v : Json φ} : (Json.obj ms).get? k = some v ↔ (k, v) ∈ ms :=
  Dict.get?_eq_some_iff (d := ⟨ms, hn⟩)

/-- Objects are the same up to the order of keys when they have the same under every key. -/
theorem Json.sorted_obj_eq_iff {ms ns : List (Str × Json φ)} (hms : (ms.map Prod.fst).Nodup)
    (hns : (ns.map Prod.fst).Nodup) :
    (Json.obj ms).sorted = (Json.obj ns).sorted ↔
      ∀ k, ((Json.obj ms).get? k).map Json.sorted = ((Json.obj ns).get? k).map Json.sorted := by
  have hkeys : ∀ {ms : List (Str × Json φ)}, (ms.map Prod.fst).Nodup →
      ((ms.map fun m => (m.1, m.2.sorted)).map Prod.fst).Nodup := by
    intro ms hms
    rwa [List.map_map]
  constructor
  · intro h k
    rw [← Json.get?_sorted hms, ← Json.get?_sorted hns, h]
  · intro h
    rw [Json.sorted_obj, Json.sorted_obj, ← sortMembers_map, ← sortMembers_map]
    congr 1
    apply sortMembers_eq_of_perm (hkeys hms)
    refine (List.perm_ext_iff_of_nodup (.of_map _ (hkeys hms)) (.of_map _ (hkeys hns))).mpr ?_
    rintro ⟨k, v⟩
    rw [← Json.get?_eq_some_iff (hkeys hms), ← Json.get?_eq_some_iff (hkeys hns), Json.get?_map,
      Json.get?_map, h k]

/-! ## The characters of a text -/

theorem isNumberChar_of_isDigit {c : CodePoint} (h : isDigit c = true) : isNumberChar c = true := by
  simp [isNumberChar, h]

theorem isNumberChar_of_mem_scanMinus {s : Str} {c : CodePoint} (h : c ∈ (scanMinus s).1) :
    isNumberChar c = true := by
  unfold scanMinus at h
  split at h
  · cases h
  · split at h
    · rename_i hd
      rw [List.mem_singleton.mp h, hd]
      rfl
    · cases h

theorem isNumberChar_of_mem_scanInteger {s : Str} {p : Str × Str} {c : CodePoint}
    (hp : scanInteger s = some p) (h : c ∈ p.1) : isNumberChar c = true := by
  unfold scanInteger at hp
  split at hp
  · cases hp
  · split at hp
    · rename_i hd
      cases hp
      rw [List.mem_singleton.mp h, hd]
      rfl
    · split at hp
      · rename_i hd
        cases hp
        rcases List.mem_cons.mp h with rfl | h
        · exact isNumberChar_of_isDigit hd
        · exact isNumberChar_of_isDigit (List.mem_takeWhile_imp h)
      · cases hp

theorem isNumberChar_of_mem_scanFraction {s : Str} {c : CodePoint} (h : c ∈ (scanFraction s).1) :
    isNumberChar c = true := by
  unfold scanFraction at h
  split at h
  · cases h
  · dsimp only at h
    split at h
    · rename_i hd
      rcases List.mem_cons.mp h with rfl | h
      · rw [hd.1]
        rfl
      · exact isNumberChar_of_isDigit (List.mem_takeWhile_imp h)
    · cases h

theorem isNumberChar_of_mem_scanSign {s : Str} {c : CodePoint} (h : c ∈ (scanSign s).1) :
    isNumberChar c = true := by
  unfold scanSign at h
  split at h
  · cases h
  · split at h
    · rename_i hd
      rw [List.mem_singleton.mp h]
      rcases hd with hd | hd <;> rw [hd] <;> rfl
    · cases h

theorem isNumberChar_of_mem_scanExponent {s : Str} {c : CodePoint} (h : c ∈ (scanExponent s).1) :
    isNumberChar c = true := by
  unfold scanExponent at h
  split at h
  · cases h
  · dsimp only at h
    split at h
    · rename_i hd
      rcases List.mem_cons.mp h with rfl | h
      · rcases hd.1 with hd | hd <;> rw [hd] <;> rfl
      · rcases List.mem_append.mp h with h | h
        · exact isNumberChar_of_mem_scanSign h
        · exact isNumberChar_of_isDigit (List.mem_takeWhile_imp h)
    · cases h

theorem isNumberChar_of_mem_scanNumber {s t r : Str} {float : Bool} {c : CodePoint}
    (ht : scanNumber s = some (t, float, r)) (h : c ∈ t) : isNumberChar c = true := by
  obtain ⟨integer, hinteger, heq⟩ := Option.map_eq_some_iff.mp ht
  cases heq
  rcases List.mem_append.mp h with h | h
  · rcases List.mem_append.mp h with h | h
    · rcases List.mem_append.mp h with h | h
      · exact isNumberChar_of_mem_scanMinus h
      · exact isNumberChar_of_mem_scanInteger hinteger h
    · exact isNumberChar_of_mem_scanFraction h
  · exact isNumberChar_of_mem_scanExponent h

/-- The printable ASCII characters. -/
def isGraphic (c : CodePoint) : Bool := 32 ≤ c.val && c.val ≤ 126

theorem isGraphic_of_isNumberChar {c : CodePoint} (h : isNumberChar c = true) :
    isGraphic c = true := by
  simp only [isNumberChar, isDigit, Bool.or_eq_true, Bool.and_eq_true, decide_eq_true_eq,
    beq_iff_eq] at h
  simp only [isGraphic, Bool.and_eq_true, decide_eq_true_eq]
  rcases h with ((((h | rfl) | rfl) | rfl) | rfl) | rfl
  · omega
  · decide
  · decide
  · decide
  · decide
  · decide

theorem isGraphic_hexDigit {n : Nat} (h : n < 16) : isGraphic (hexDigit n) = true := by
  have hall : ∀ n : Fin 16, isGraphic (hexDigit n.val) = true := by decide
  exact hall ⟨n, h⟩

theorem isGraphic_unicodeEscape {n : Nat} {c : CodePoint} (h : c ∈ unicodeEscape n) :
    isGraphic c = true := by
  simp only [unicodeEscape, List.mem_cons, List.not_mem_nil, or_false] at h
  rcases h with rfl | rfl | rfl | rfl | rfl | rfl
  · decide
  · decide
  · exact isGraphic_hexDigit (by omega)
  · exact isGraphic_hexDigit (by omega)
  · exact isGraphic_hexDigit (by omega)
  · exact isGraphic_hexDigit (by omega)

theorem isGraphic_of_simpleEscape? {e c : CodePoint} (h : simpleEscape? e = some c) :
    isGraphic e = true := by
  by_contra hg
  have hne : ∀ n : CodePoint, isGraphic n = true → e ≠ n := fun n hn he => hg (he ▸ hn)
  have h34 := hne 34 rfl
  have h92 := hne 92 rfl
  have h47 := hne 47 rfl
  simp [simpleEscape?, h34, h92, h47, hne 98 rfl, hne 102 rfl, hne 110 rfl, hne 114 rfl,
    hne 116 rfl] at h

theorem isGraphic_escapeChar {c d : CodePoint} (h : d ∈ escapeChar c) : isGraphic d = true := by
  rcases escapeChar_cases c with ⟨e, he, -, hx, -⟩ | ⟨he, -, -, hle⟩ | ⟨he, -⟩ | ⟨he, -⟩
  · rw [he] at h
    rcases List.mem_pair.mp h with rfl | rfl
    · rfl
    · exact isGraphic_of_simpleEscape? hx
  · rw [he] at h
    rw [List.mem_singleton.mp h]
    simpa [isGraphic] using hle
  · exact isGraphic_unicodeEscape (he ▸ h)
  · rw [he] at h
    rcases List.mem_append.mp h with h | h
    · exact isGraphic_unicodeEscape h
    · exact isGraphic_unicodeEscape h

theorem isGraphic_of_mem_quote {s : Str} {c : CodePoint} (h : c ∈ quote s) : isGraphic c = true := by
  rcases List.mem_cons.mp h with rfl | h
  · rfl
  · rcases List.mem_append.mp h with h | h
    · obtain ⟨d, -, hd⟩ := List.mem_flatMap.mp h
      exact isGraphic_escapeChar hd
    · rw [List.mem_singleton.mp h]
      rfl

section Graphic

variable [FloatText φ]

theorem isGraphic_of_mem_intText {n : Int} {c : CodePoint} (h : c ∈ intText n) :
    isGraphic c = true := by
  cases n with
  | ofNat n => exact isGraphic_of_isNumberChar (isNumberChar_of_isDigit (isDigit_of_mem_natText h))
  | negSucc n =>
    rcases List.mem_cons.mp h with rfl | h
    · rfl
    · exact isGraphic_of_isNumberChar (isNumberChar_of_isDigit (isDigit_of_mem_natText h))

theorem isGraphic_of_mem_repr {x : φ} {c : CodePoint} (h : c ∈ FloatText.repr x) :
    isGraphic c = true := by
  rcases FloatText.repr_cases x with ⟨-, hr⟩ | ⟨-, hr⟩ | ⟨hr, -⟩
  · have hall : (lit "Infinity").all isGraphic = true := by decide
    exact List.all_eq_true.mp hall c (hr ▸ h)
  · have hall : (lit "-Infinity").all isGraphic = true := by decide
    exact List.all_eq_true.mp hall c (hr ▸ h)
  · exact isGraphic_of_isNumberChar (isNumberChar_of_mem_scanNumber hr h)

/-- What is written consists of printable ASCII characters. -/
theorem isGraphic_of_mem_text {j : Json φ} {c : CodePoint} : c ∈ j.text → isGraphic c = true := by
  have hlit : ∀ s : Str, s.all isGraphic = true → ∀ c ∈ s, isGraphic c = true :=
    fun s h => List.all_eq_true.mp h
  refine Json.text.induct (fun j => ∀ c ∈ j.text, isGraphic c = true)
    (fun ms => ∀ c ∈ Json.moreMembers ms, isGraphic c = true)
    (fun js => ∀ c ∈ Json.moreItems js, isGraphic c = true)
    ?null ?true ?false ?int ?float ?nan ?str ?arrNil ?arrCons ?objNil ?objCons ?itemsNil ?itemsCons
    ?membersNil ?membersCons j c
  case null => exact hlit _ rfl
  case «true» => exact hlit _ rfl
  case «false» => exact hlit _ rfl
  case nan => exact hlit _ rfl
  case arrNil => exact hlit _ rfl
  case objNil => exact hlit _ rfl
  case itemsNil => exact hlit _ rfl
  case membersNil => exact hlit _ rfl
  case int => exact fun n c h => isGraphic_of_mem_intText h
  case float => exact fun x c h => isGraphic_of_mem_repr h
  case str => exact fun s c h => isGraphic_of_mem_quote h
  case arrCons =>
    intro j js hj hjs c h
    rcases List.mem_cons.mp h with rfl | h
    · rfl
    · exact (List.mem_append.mp h).elim (hj c) (hjs c)
  case itemsCons =>
    intro j js hj hjs c h
    rcases List.mem_cons.mp h with rfl | h
    · rfl
    · exact (List.mem_append.mp h).elim (hj c) (hjs c)
  case objCons =>
    intro k v ms hv hms c h
    rcases List.mem_cons.mp h with rfl | h
    · rfl
    · rcases List.mem_append.mp h with h | h
      · exact isGraphic_of_mem_quote h
      · rcases List.mem_cons.mp h with rfl | h
        · rfl
        · exact (List.mem_append.mp h).elim (hv c) (hms c)
  case membersCons =>
    intro k v ms hv hms c h
    rcases List.mem_cons.mp h with rfl | h
    · rfl
    · rcases List.mem_append.mp h with h | h
      · exact isGraphic_of_mem_quote h
      · rcases List.mem_cons.mp h with rfl | h
        · rfl
        · exact (List.mem_append.mp h).elim (hv c) (hms c)

theorem isAscii_of_isGraphic {s : Str} (h : ∀ c ∈ s, isGraphic c = true) : isAscii s = true := by
  refine List.all_eq_true.mpr fun c hc => ?_
  have hc := h c hc
  simp only [isGraphic, Bool.and_eq_true, decide_eq_true_eq] at hc
  exact decide_eq_true (by omega)

theorem isAscii_canonical (j : Json φ) : isAscii j.canonical = true :=
  isAscii_of_isGraphic fun _ => isGraphic_of_mem_text

/-- A text is read back from its bytes. -/
theorem loadsBytes_encodeUtf8 {j : Json φ} {b : Bytes} (hb : encodeUtf8 j.text = some b) :
    loadsBytes b = some j.reload := by
  have hascii : isAscii j.text = true := isAscii_of_isGraphic fun _ => isGraphic_of_mem_text
  rw [encodeUtf8_of_isAscii hascii, Option.some.injEq] at hb
  have hplain : ∀ x ∈ b, 0 < x.val ∧ x.val < 0x80 := by
    rintro x hx
    obtain ⟨c, hc, hval⟩ := mem_asciiBytes hascii (hb ▸ hx)
    have hgraphic := isGraphic_of_mem_text hc
    simp only [isGraphic, Bool.and_eq_true, decide_eq_true_eq] at hgraphic
    omega
  have hdecode : (Encoding.utf8 false).decode b = some j.text := by
    rw [← hb]
    exact decodeUtf8_asciiBytes true hascii
  rw [loadsBytes, detectEncoding_of_plain hplain, hdecode]
  exact loads_text j

/-- An object that is not empty is written between braces. -/
theorem text_obj_braces {ms : List (Str × Json φ)} (h : ms ≠ []) :
    ∃ t, (Json.obj ms).text = 123 :: (t ++ [125]) := by
  have hmore : ∀ ms : List (Str × Json φ), ∃ t, Json.moreMembers ms = t ++ [125] := by
    intro ms
    induction ms with
    | nil => exact ⟨[], rfl⟩
    | cons m ms ih =>
      obtain ⟨t, ht⟩ := ih
      refine ⟨44 :: (quote m.1 ++ 58 :: (m.2.text ++ t)), ?_⟩
      rw [Json.moreMembers, ht]
      simp only [List.cons_append, List.append_assoc]
  cases ms with
  | nil => exact absurd rfl h
  | cons m ms =>
    obtain ⟨t, ht⟩ := hmore ms
    refine ⟨quote m.1 ++ 58 :: (m.2.text ++ t), ?_⟩
    rw [Json.text, ht]
    simp only [List.cons_append, List.append_assoc]

end Graphic

/-! ## Canonical text and round trips -/

/-- A surrogate pair is written as the code point it stands for. -/
theorem escapeChar_joinSurrogates {a b : CodePoint} (ha : isHighSurrogate a.val = true)
    (hb : isLowSurrogate b.val = true) :
    escapeChar (joinSurrogates a.val b.val) = escapeChar a ++ escapeChar b := by
  simp only [isHighSurrogate, isLowSurrogate, Bool.and_eq_true, decide_eq_true_eq] at ha hb
  have hsa : isSurrogate a = true := by
    simp only [isSurrogate, Bool.and_eq_true, decide_eq_true_eq]; omega
  have hsb : isSurrogate b = true := by
    simp only [isSurrogate, Bool.and_eq_true, decide_eq_true_eq]; omega
  have hval : (joinSurrogates a.val b.val).val =
      0x10000 + (a.val - 0xD800) * 0x400 + (b.val - 0xDC00) := by
    rw [joinSurrogates, Fin.val_ofNat, Nat.mod_eq_of_lt (by omega)]
  rw [escapeChar_of_surrogate hsa, escapeChar_of_surrogate hsb]
  rcases escapeChar_cases (joinSurrogates a.val b.val) with ⟨e, -, -, -, h⟩ | ⟨-, -, -, -, h⟩ |
    ⟨-, h⟩ | ⟨he, -⟩
  · omega
  · omega
  · omega
  · have hhigh : 0xD800 + ((joinSurrogates a.val b.val).val - 0x10000) / 0x400 = a.val := by omega
    have hlow : 0xDC00 + ((joinSurrogates a.val b.val).val - 0x10000) % 0x400 = b.val := by omega
    rw [he, hhigh, hlow]

theorem flatMap_escapeChar_mergePairs (s : Str) :
    (mergePairs s).flatMap escapeChar = s.flatMap escapeChar := by
  induction s using mergePairs.induct with
  | case1 => rfl
  | case2 c => rfl
  | case3 a b s hpair ih =>
    rw [mergePairs, if_pos hpair, List.flatMap_cons, ih, escapeChar_joinSurrogates hpair.1 hpair.2,
      List.flatMap_cons, List.flatMap_cons, List.append_assoc]
  | case4 a b s hpair ih =>
    rw [mergePairs, if_neg hpair, List.flatMap_cons, ih]
    rfl

section Text

variable [FloatText φ]

theorem text_arr_congr {js : List (Json φ)} {f : Json φ → Json φ}
    (h : ∀ j ∈ js, (f j).text = j.text) : (Json.arr (js.map f)).text = (Json.arr js).text := by
  have hmore : ∀ js : List (Json φ), (∀ j ∈ js, (f j).text = j.text) →
      Json.moreItems (js.map f) = Json.moreItems js := by
    intro js
    induction js with
    | nil => exact fun _ => rfl
    | cons j js ih =>
      intro h
      rw [List.map_cons, Json.moreItems, Json.moreItems, h j List.mem_cons_self,
        ih fun j hj => h j (List.mem_cons_of_mem _ hj)]
  cases js with
  | nil => rfl
  | cons j js =>
    rw [List.map_cons, Json.text, Json.text, h j List.mem_cons_self,
      hmore js fun j hj => h j (List.mem_cons_of_mem _ hj)]

theorem text_obj_congr {ms : List (Str × Json φ)} {f : Json φ → Json φ}
    (h : ∀ m ∈ ms, (f m.2).text = m.2.text) :
    (Json.obj (ms.map fun m => (m.1, f m.2))).text = (Json.obj ms).text := by
  have hmore : ∀ ms : List (Str × Json φ), (∀ m ∈ ms, (f m.2).text = m.2.text) →
      Json.moreMembers (ms.map fun m => (m.1, f m.2)) = Json.moreMembers ms := by
    intro ms
    induction ms with
    | nil => exact fun _ => rfl
    | cons m ms ih =>
      intro h
      rw [List.map_cons, Json.moreMembers, Json.moreMembers, h m List.mem_cons_self,
        ih fun m hm => h m (List.mem_cons_of_mem _ hm)]
  cases ms with
  | nil => rfl
  | cons m ms =>
    rw [List.map_cons, Json.text, Json.text, h m List.mem_cons_self,
      hmore ms fun m hm => h m (List.mem_cons_of_mem _ hm)]

/-- What was read back is written as it was. -/
theorem Json.KeysStable.text_reload {j : Json φ} (h : j.KeysStable) : j.reload.text = j.text := by
  induction h with
  | arr _ ih =>
    rw [Json.reload, Json.reloadItems_eq]
    exact text_arr_congr ih
  | obj hn hk _ ih =>
    rw [reload_obj_of_keys hn hk]
    exact text_obj_congr ih
  | str s => rw [Json.reload, Json.text, Json.text, quote, quote, flatMap_escapeChar_mergePairs]
  | null => rfl
  | bool b => rfl
  | int n => rfl
  | float x => rfl
  | nan => rfl

theorem Json.KeysStable.canonical_reload {j : Json φ} (h : j.KeysStable) :
    j.reload.canonical = j.canonical := by
  rw [Json.canonical, Json.canonical, ← h.reload_sorted, h.sorted.text_reload]

theorem Json.canonical_sorted (j : Json φ) : j.sorted.canonical = j.canonical := by
  rw [Json.canonical, Json.canonical, j.sorted_sorted]

/-- Values of one canonical text are read back as the same value. -/
theorem reload_sorted_of_canonical_eq {i j : Json φ} (h : i.canonical = j.canonical) :
    i.sorted.reload = j.sorted.reload := by
  have hi := loads_text i.sorted
  have hj := loads_text j.sorted
  have htext : i.sorted.text = j.sorted.text := h
  rw [htext, hj] at hi
  exact (Option.some.inj hi).symm

end Text

end Py
