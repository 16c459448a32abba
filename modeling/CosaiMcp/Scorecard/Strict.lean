import CosaiMcp.Py.JsonPlaces
import CosaiMcp.Scorecard.Binding

/-!
# The strict loader of scorecard files

`_load_scorecard_strict` compares the file with what the signature covers, and accepts it just if
that covers the file. With a signature that verifies, every value of the file is the signed one at
its place (`strict_verified`). A file is its values, with the pairs of its objects as they stand in
it.
-/

namespace CosaiMcp.Scorecard

open Py Assurance

variable {φ κ : Type}

/-! ## Duplicate keys -/

mutual

/-- No call of `_no_duplicate_keys` on the objects of the file raises. -/
def noDuplicateKeys : Json φ → Bool
  | .obj ms => decide (ms.map Prod.fst).Nodup && noDuplicateKeysMembers ms
  | .arr js => noDuplicateKeysItems js
  | _ => true

def noDuplicateKeysItems : List (Json φ) → Bool
  | [] => true
  | j :: js => noDuplicateKeys j && noDuplicateKeysItems js

def noDuplicateKeysMembers : List (Str × Json φ) → Bool
  | [] => true
  | m :: ms => noDuplicateKeys m.2 && noDuplicateKeysMembers ms

end

/-! ## The comparison with the canonical form -/

/-- With the path of the field. -/
inductive StrictError where
  | duplicateKey
  | notObject
  | unknownField (path : Str)
  | notCanonical (path : Str)
  | unreadable (error : PyError)

/-- `path.rstrip('.')`. -/
def stripDots (path : Str) : Str := (path.reverse.dropWhile (· = 46)).reverse

variable [PyFloat φ]

mutual

def rawMatchesCanonical : Json φ → Json φ → Str → Except StrictError Unit
  | .obj ms, canonical, path =>
    match canonical with
    | .obj _ => rawMatchesMembers ms canonical path
    | _ => .error (.notCanonical (stripDots path))
  | .arr js, canonical, path =>
    match canonical with
    | .arr ks =>
      if js.length ≠ ks.length then .error (.notCanonical (stripDots path))
      else rawMatchesItems 0 js ks path
    | _ => .error (.notCanonical (stripDots path))
  | raw, canonical, path =>
    if raw.pyEq canonical && raw.sameType canonical then .ok ()
    else .error (.notCanonical (stripDots path))

def rawMatchesMembers : List (Str × Json φ) → Json φ → Str → Except StrictError Unit
  | [], _, _ => .ok ()
  | m :: ms, canonical, path =>
    match canonical.get? m.1 with
    | none => .error (.unknownField (path ++ m.1))
    | some w =>
      match rawMatchesCanonical m.2 w (path ++ m.1 ++ lit ".") with
      | .error e => .error e
      | .ok () => rawMatchesMembers ms canonical path

def rawMatchesItems : Nat → List (Json φ) → List (Json φ) → Str → Except StrictError Unit
  | i, j :: js, k :: ks, path =>
    match rawMatchesCanonical j k (path ++ intText i ++ lit ".") with
    | .error e => .error e
    | .ok () => rawMatchesItems (i + 1) js ks path
  | _, _, _, _ => .ok ()

end

/-- `_load_scorecard_strict`, of the values of a file. -/
def loadScorecardStrict (B : Builtins φ) (file : Json φ) : Except StrictError (Scorecard φ) :=
  if !noDuplicateKeys file then .error .duplicateKey
  else
    match file with
    | .obj ms =>
      match Scorecard.fromDict B (.obj ms) with
      | .error e => .error (.unreadable e)
      | .ok sc =>
        match rawMatchesCanonical (.obj ms) sc.toDict [] with
        | .error e => .error e
        | .ok () => .ok sc
    | _ => .error .notObject

/-! ## What the comparison accepts -/

omit [PyFloat φ] in
theorem noDuplicateKeysItems_iff {js : List (Json φ)} :
    noDuplicateKeysItems js = true ↔ ∀ j ∈ js, noDuplicateKeys j = true := by
  induction js with
  | nil => simp [noDuplicateKeysItems]
  | cons j js ih => rw [noDuplicateKeysItems, Bool.and_eq_true, ih, List.forall_mem_cons]

omit [PyFloat φ] in
theorem noDuplicateKeysMembers_iff {ms : List (Str × Json φ)} :
    noDuplicateKeysMembers ms = true ↔ ∀ m ∈ ms, noDuplicateKeys m.2 = true := by
  induction ms with
  | nil => simp [noDuplicateKeysMembers]
  | cons m ms ih => rw [noDuplicateKeysMembers, Bool.and_eq_true, ih, List.forall_mem_cons]

theorem rawMatchesMembers_eq_ok_iff {ms : List (Str × Json φ)} {canonical : Json φ} {path : Str} :
    rawMatchesMembers ms canonical path = .ok () ↔ ∀ m ∈ ms, ∃ w, canonical.get? m.1 = some w ∧
      rawMatchesCanonical m.2 w (path ++ m.1 ++ lit ".") = .ok () := by
  induction ms with
  | nil => simp [rawMatchesMembers]
  | cons m ms ih =>
    rw [rawMatchesMembers, List.forall_mem_cons]
    cases hw : canonical.get? m.1 with
    | none => simp
    | some w =>
      simp only [Option.some.injEq, exists_eq_left']
      cases hm : rawMatchesCanonical m.2 w (path ++ m.1 ++ lit ".") with
      | error e => simp
      | ok _ => simpa using ih

theorem rawMatchesItems_eq_ok_iff {js ks : List (Json φ)} {path : Str} {i : Nat} :
    rawMatchesItems i js ks path = .ok () ↔ ∀ n j k, js[n]? = some j → ks[n]? = some k →
      rawMatchesCanonical j k (path ++ intText ((i + n : Nat) : Int) ++ lit ".") = .ok () := by
  induction js generalizing i ks with
  | nil => simp [rawMatchesItems]
  | cons j js ih =>
    cases ks with
    | nil => simp [rawMatchesItems]
    | cons k ks =>
      have hshift : ∀ n, i + 1 + n = i + (n + 1) := fun n => by omega
      rw [rawMatchesItems]
      cases hj : rawMatchesCanonical j k (path ++ intText (i : Int) ++ lit ".") with
      | error e =>
        refine iff_of_false (by simp) fun h => ?_
        have hzero := h 0 j k rfl rfl
        rw [Nat.add_zero, hj] at hzero
        cases hzero
      | ok _ =>
        simp only
        rw [ih]
        constructor
        · intro h n a b ha hb
          cases n with
          | zero =>
            cases ha
            cases hb
            exact hj
          | succ n =>
            rw [← hshift]
            exact h n a b ha hb
        · intro h n a b ha hb
          rw [hshift]
          exact h (n + 1) a b ha hb

omit [PyFloat φ] in
theorem part?_obj_iff {ms : List (Str × Json φ)} (hn : (ms.map Prod.fst).Nodup) {p : Step}
    {x : Json φ} : p.part? (.obj ms) = some x ↔ ∃ k, p = .key k ∧ (k, x) ∈ ms := by
  cases p with
  | key k => simpa [Step.part?] using Json.get?_eq_some_iff hn
  | index i => simp [Step.part?]

omit [PyFloat φ] in
theorem part?_arr_iff {js : List (Json φ)} {p : Step} {x : Json φ} :
    p.part? (.arr js) = some x ↔ ∃ i, p = .index i ∧ js[i]? = some x := by
  cases p with
  | key k => simp [Step.part?, Json.get?]
  | index i => simp [Step.part?]

theorem scalar_eq_ok_iff {raw canonical : Json φ} {path : Str}
    (h : rawMatchesCanonical raw canonical path =
      if raw.alike canonical then .ok () else .error (.notCanonical (stripDots path))) :
    rawMatchesCanonical raw canonical path = .ok () ↔ raw.alike canonical = true := by
  rw [h]
  split <;> simp_all

theorem covers_scalar_iff {raw canonical : Json φ} (h : ∀ p : Step, p.part? raw = none) :
    Covers canonical raw ↔ raw.alike canonical = true := by
  rw [covers_iff]
  refine and_iff_left fun p x hx => ?_
  rw [h p] at hx
  cases hx

/-- The file is accepted, whatever the path, just if the canonical form covers it. -/
theorem rawMatchesCanonical_eq_ok_iff {raw : Json φ} : ∀ {canonical : Json φ} {path : Str},
    noDuplicateKeys raw = true →
      (rawMatchesCanonical raw canonical path = .ok () ↔ Covers canonical raw) := by
  induction raw using Json.induct with
  | obj ms ih =>
    intro canonical path hkeys
    rw [noDuplicateKeys, Bool.and_eq_true, decide_eq_true_eq] at hkeys
    have hvalues := noDuplicateKeysMembers_iff.mp hkeys.2
    rw [covers_iff]
    cases canonical with
    | obj ns =>
      rw [rawMatchesCanonical, rawMatchesMembers_eq_ok_iff]
      constructor
      · refine fun h => ⟨rfl, fun p x hx => ?_⟩
        obtain ⟨k, rfl, hmem⟩ := (part?_obj_iff hkeys.1).mp hx
        obtain ⟨w, hw, hmatch⟩ := h (k, x) hmem
        exact ⟨w, hw, (ih (k, x) hmem (hvalues _ hmem)).mp hmatch⟩
      · rintro ⟨-, h⟩ ⟨k, x⟩ hmem
        obtain ⟨w, hw, hcovers⟩ := h (.key k) x ((part?_obj_iff hkeys.1).mpr ⟨k, rfl, hmem⟩)
        exact ⟨w, hw, (ih (k, x) hmem (hvalues _ hmem)).mpr hcovers⟩
    | _ => simp [rawMatchesCanonical, Json.alike, Json.pyEq, Json.sameType]
  | arr js ih =>
    intro canonical path hkeys
    rw [noDuplicateKeys] at hkeys
    have hitems := noDuplicateKeysItems_iff.mp hkeys
    rw [covers_iff]
    cases canonical with
    | arr ks =>
      rw [rawMatchesCanonical]
      by_cases hlength : js.length = ks.length
      · rw [if_neg (fun h => h hlength), rawMatchesItems_eq_ok_iff]
        constructor
        · refine fun h => ⟨by simp [Json.alike, hlength], fun p x hx => ?_⟩
          obtain ⟨i, rfl, hi⟩ := part?_arr_iff.mp hx
          have hlt : i < ks.length := hlength ▸ (List.getElem?_eq_some_iff.mp hi).1
          have hmem := List.mem_of_getElem? hi
          have hmatch := h i x _ hi (List.getElem?_eq_getElem hlt)
          exact ⟨_, List.getElem?_eq_getElem hlt, (ih x hmem (hitems x hmem)).mp hmatch⟩
        · rintro ⟨-, h⟩ n x k hx hk
          obtain ⟨w, hw, hcovers⟩ := h (.index n) x hx
          cases hk.symm.trans hw
          have hmem := List.mem_of_getElem? hx
          exact (ih x hmem (hitems x hmem)).mpr hcovers
      · rw [if_pos hlength]
        simp [Json.alike, hlength]
    | _ => simp [rawMatchesCanonical, Json.alike, Json.pyEq, Json.sameType]
  | _ =>
    intro canonical path _
    exact (scalar_eq_ok_iff rfl).trans (covers_scalar_iff (fun p => by cases p <;> rfl)).symm

theorem loadScorecardStrict_eq_ok_iff {B : Builtins φ} {file : Json φ} {c : Scorecard φ} :
    loadScorecardStrict B file = .ok c ↔ noDuplicateKeys file = true ∧ (∃ ms, file = .obj ms) ∧
      Scorecard.fromDict B file = .ok c ∧ Covers c.toDict file := by
  unfold loadScorecardStrict
  cases hkeys : noDuplicateKeys file with
  | false => simp
  | true =>
    cases file with
    | obj ms =>
      simp only [Bool.not_true, Bool.false_eq_true, ↓reduceIte, true_and]
      have hobj : ∃ ns, Json.obj ms = .obj ns := ⟨ms, rfl⟩
      rw [and_iff_right hobj]
      cases hread : Scorecard.fromDict B (.obj ms) with
      | error e => simp
      | ok sc =>
        simp only [Except.ok.injEq]
        have hmatch : rawMatchesCanonical (.obj ms) sc.toDict [] = .ok () ↔
            Covers sc.toDict (.obj ms) := rawMatchesCanonical_eq_ok_iff hkeys
        cases hsc : rawMatchesCanonical (.obj ms) sc.toDict [] with
        | error e =>
          rw [hsc] at hmatch
          refine iff_of_false (by simp) ?_
          rintro ⟨rfl, hcovers⟩
          cases hmatch.mpr hcovers
        | ok _ =>
          rw [hsc] at hmatch
          refine ⟨fun h => ?_, fun h => by rw [h.1]⟩
          cases h
          exact ⟨rfl, hmatch.mp rfl⟩
    | _ => simp

/-! ## What is accepted and verified was signed -/

omit [PyFloat φ] in
/-- No string of the file has a surrogate pair, as JSON texts are read. -/
inductive Merged : Json φ → Prop
  | null : Merged .null
  | bool (b : Bool) : Merged (.bool b)
  | int (n : Int) : Merged (.int n)
  | float (x : φ) : Merged (.float x)
  | nan : Merged .nan
  | str {s : Str} (h : NoPair s) : Merged (.str s)
  | arr {js : List (Json φ)} (h : ∀ j ∈ js, Merged j) : Merged (.arr js)
  | obj {ms : List (Str × Json φ)} (hk : ∀ m ∈ ms, NoPair m.1) (h : ∀ m ∈ ms, Merged m.2) :
    Merged (.obj ms)

omit [PyFloat φ] in
theorem stable_of_merged {j : Json φ} (h : Merged j) (hkeys : noDuplicateKeys j = true) :
    j.Stable := by
  induction h with
  | str h => exact h
  | arr _ ih =>
    rw [noDuplicateKeys] at hkeys
    exact Json.stableItems_iff.mpr fun j hj => ih j hj (noDuplicateKeysItems_iff.mp hkeys j hj)
  | obj hk _ ih =>
    rw [noDuplicateKeys, Bool.and_eq_true, decide_eq_true_eq] at hkeys
    refine ⟨hkeys.1, Json.stableMembers_iff.mpr fun m hm => ⟨hk m hm, ?_⟩⟩
    exact ih m hm (noDuplicateKeysMembers_iff.mp hkeys.2 m hm)
  | _ => trivial

omit [PyFloat φ] in
theorem merged_of_stable {j : Json φ} (h : j.Stable) : Merged j := by
  induction j using Json.induct with
  | null => exact .null
  | bool b => exact .bool b
  | int n => exact .int n
  | float x => exact .float x
  | nan => exact .nan
  | str s => exact .str h
  | arr js ih => exact .arr fun j hj => ih j hj (Json.stableItems_iff.mp h j hj)
  | obj ms ih =>
    have hms := Json.stableMembers_iff.mp h.2
    exact .obj (fun m hm => (hms m hm).1) fun m hm => ih m hm (hms m hm).2

/-- A value that is like an object is one. -/
theorem exists_obj_of_alike {v : Json φ} {ns : List (Str × Json φ)}
    (h : v.alike (.obj ns) = true) : ∃ ms, v = .obj ms := by
  cases v with
  | obj ms => exact ⟨ms, rfl⟩
  | _ => simp [Json.alike, Json.pyEq, Json.sameType] at h

/-- The scope of a report that covers its document has the keys of the document. -/
theorem nativeScope_of_covers_report {B : Builtins φ} {d : Json φ} (hd : d.Stable)
    {r : AssuranceReport (Json φ)} (h : AssuranceReport.fromDict B d = .ok r)
    (hcovers : Covers r.toDict d) : r.NativeScope := by
  cases hscope : d.get? (lit "scope") with
  | some v =>
    obtain ⟨y, hy, halike⟩ := hcovers [.key (lit "scope")] v (by
      rw [atPlace?_cons, Step.part?, hscope]
      rfl)
    cases hy
    obtain ⟨ms, rfl⟩ := exists_obj_of_alike halike
    exact nativeScope_of_fromDict B hd h ⟨ms, hscope⟩
  | none =>
    unfold AssuranceReport.fromDict at h
    obtain ⟨level, -, h⟩ := bind_eq_ok_iff.mp h
    obtain ⟨level', -, h⟩ := bind_eq_ok_iff.mp h
    obtain ⟨result, -, h⟩ := bind_eq_ok_iff.mp h
    obtain ⟨result', -, h⟩ := bind_eq_ok_iff.mp h
    obtain ⟨version, -, h⟩ := bind_eq_ok_iff.mp h
    obtain ⟨controls, -, h⟩ := bind_eq_ok_iff.mp h
    obtain ⟨js, -, h⟩ := bind_eq_ok_iff.mp h
    obtain ⟨cs, -, h⟩ := bind_eq_ok_iff.mp h
    obtain ⟨scope, hread, h⟩ := bind_eq_ok_iff.mp h
    obtain ⟨scope', hread', h⟩ := bind_eq_ok_iff.mp h
    cases h
    cases d with
    | obj ms =>
      rw [getDefault, hscope] at hread
      cases hread
      cases hread'
      exact .obj List.nodup_nil (List.forall_mem_nil _) (List.forall_mem_nil _)
    | _ => cases hread

theorem nativeScope_of_covers {B : Builtins φ} {d : Json φ} (hd : d.Stable) {c : Scorecard φ}
    (h : Scorecard.fromDict B d = .ok c) (hcovers : Covers c.toDict d) : c.NativeScope := by
  unfold Scorecard.fromDict at h
  obtain ⟨scanId, -, h⟩ := bind_eq_ok_iff.mp h
  obtain ⟨targetUrl, -, h⟩ := bind_eq_ok_iff.mp h
  obtain ⟨timestamp, -, h⟩ := bind_eq_ok_iff.mp h
  obtain ⟨catalogHash, -, h⟩ := bind_eq_ok_iff.mp h
  obtain ⟨toolVersion, -, h⟩ := bind_eq_ok_iff.mp h
  obtain ⟨categories, -, h⟩ := bind_eq_ok_iff.mp h
  obtain ⟨js, -, h⟩ := bind_eq_ok_iff.mp h
  obtain ⟨cs, -, h⟩ := bind_eq_ok_iff.mp h
  obtain ⟨level, -, h⟩ := bind_eq_ok_iff.mp h
  obtain ⟨level', -, h⟩ := bind_eq_ok_iff.mp h
  obtain ⟨publicKey, -, h⟩ := bind_eq_ok_iff.mp h
  obtain ⟨signature, -, h⟩ := bind_eq_ok_iff.mp h
  obtain ⟨x, hx, h⟩ := bind_eq_ok_iff.mp h
  obtain ⟨report, hreport, h⟩ := bind_eq_ok_iff.mp h
  cases h
  intro r hr
  cases hr
  obtain ⟨ht, hread⟩ := ifTruthy_eq_some_iff.mp hreport
  obtain ⟨w, hw⟩ := exists_get?_of_truthy hx ht
  cases reads_of_getDefault hx w hw
  refine nativeScope_of_covers_report (stable_of_get? hd hw) hread ?_
  obtain ⟨y, hy, hpart⟩ := (covers_iff.mp hcovers).2 (.key (lit "assurance")) x hw
  cases hy
  exact hpart

/-- What a stable value is like stays so when it is sorted and read back. -/
theorem alike_reload_sorted {x y : Json φ} (hx : x.Stable) (h : x.alike y = true) :
    x.alike y.sorted.reload = true := by
  cases y with
  | obj ns =>
    obtain ⟨ms, rfl⟩ := exists_obj_of_alike h
    rw [Json.sorted_obj, Json.reload]
    rfl
  | arr ks =>
    cases x with
    | arr js =>
      rw [Json.sorted, Json.sortedItems_eq, Json.reload, Json.reloadItems_eq]
      simpa [Json.alike] using h
    | _ => simp [Json.alike, Json.pyEq, Json.sameType] at h
  | str t =>
    cases x with
    | str s =>
      have hst : s = t := by simpa [Json.alike, Json.pyEq, Json.sameType] using h
      subst hst
      rw [Json.sorted, Json.reload, mergePairs_eq_self hx]
      exact h
    | _ => simp [Json.alike, Json.pyEq, Json.sameType] at h
  | _ => exact h

theorem covers_reload_sorted {x y : Json φ} (hx : x.Stable) (hy : y.KeysStable)
    (h : Covers y x) : Covers y.sorted.reload x := by
  intro ps v hv
  obtain ⟨w, hw, halike⟩ := h ps v hv
  refine ⟨w.sorted.reload, ?_, alike_reload_sorted (stable_of_atPlace hx hv) halike⟩
  rw [atPlace?_reload hy.sorted, atPlace?_sorted hy, hw]
  rfl

omit [PyFloat φ] in
/-- A key all of whose members are kept. -/
theorem get?_filter {ms : List (Str × Json φ)} {p : Str × Json φ → Bool} {k : Str}
    (h : ∀ m : Str × Json φ, m.1 = k → p m = true) :
    (Json.obj (ms.filter p)).get? k = (Json.obj ms).get? k := by
  rw [Json.get?, Json.get?, List.find?_filter]
  refine congrArg _ (congrArg (fun f => List.find? f ms) (funext fun m => ?_))
  by_cases hm : m.1 = k
  · simp [hm, h m hm]
  · simp [hm]

omit [PyFloat φ] in
theorem get?_signableDict (c : Scorecard φ) {k : Str} (h₁ : k ≠ lit "public_key")
    (h₂ : k ≠ lit "signature") : (signableDict c).get? k = c.toDict.get? k := by
  rw [signableDict, Scorecard.toDict]
  exact get?_filter fun m hm => by simp [hm, h₁, h₂]

/-- Without key and signature the canonical form still covers the file. -/
theorem covers_unsigned {c : Scorecard φ} {d : Json φ} (hd : d.Stable) (h : Covers c.toDict d) :
    Covers (signableDict c) (unsigned d) := by
  obtain ⟨halike, hparts⟩ := covers_iff.mp h
  obtain ⟨ms, rfl⟩ := exists_obj_of_alike halike
  refine covers_iff.mpr ⟨by rw [signableDict_eq]; rfl, fun p x hx => ?_⟩
  cases p with
  | index i => cases hx
  | key k =>
    have hne : k ≠ lit "public_key" ∧ k ≠ lit "signature" := by
      obtain ⟨m, hm, -⟩ := Option.map_eq_some_iff.mp hx
      have hk : m.1 = k := by simpa using List.find?_some hm
      have hmem := (List.mem_filter.mp (List.mem_of_find?_eq_some hm)).2
      rw [hk] at hmem
      simpa using hmem
    have hx' : (Json.obj ms).get? k = some x := by
      rw [← get?_unsigned hd hne.1 hne.2]
      exact hx
    obtain ⟨y, hy, hcovers⟩ := hparts (.key k) x hx'
    exact ⟨y, (get?_signableDict c hne.1 hne.2).trans hy, hcovers⟩

/-- A file that the strict loader accepts and whose signature verifies shows nothing, besides the
key and the signature, that the signed text does not show at the same place. -/
theorem strict_verified (E : Ed25519 κ) (B : Builtins φ) (key : Bytes)
    (signed : Scorecard φ → Prop) {file : Json φ} {c : Scorecard φ} (hfile : Merged file)
    (hload : loadScorecardStrict B file = .ok c)
    (hverified : verifyAgainst E (.ok (some key)) c = .ok ()) (hunforged : Unforged E key signed c) :
    ∃ s document, signed s ∧ loads (signableDict s).canonical = some document ∧
      Covers document (unsigned file) := by
  obtain ⟨hkeys, -, hread, hcovers⟩ := loadScorecardStrict_eq_ok_iff.mp hload
  have hd : file.Stable := stable_of_merged hfile hkeys
  obtain ⟨-, -, signature, hsignature, hverify⟩ := verifyAgainst_eq_ok_iff.mp hverified
  obtain ⟨s, hs, hbytes⟩ := hunforged signature hsignature hverify
  have hnative : c.NativeScope := nativeScope_of_covers hd hread hcovers
  refine ⟨s, (signableDict c).sorted.reload, hs, ?_, ?_⟩
  · rw [canonicalBytes_inj.mp hbytes, Json.canonical, loads_text]
  · exact covers_reload_sorted (stable_unsigned hd) (keysStable_signableDict hnative)
      (covers_unsigned hd hcovers)

/-! ## What was written is accepted -/

omit [PyFloat φ] in
theorem collapsed_eq_self {s : Scorecard φ}
    (h : ∀ r ∈ s.assurance, ∀ c ∈ r.controls, c.evidenceSha256 ≠ some []) : s.collapsed = s := by
  have hcontrol : ∀ c : ControlVerdict, c.evidenceSha256 ≠ some [] → c.collapsed = c := by
    intro c hc
    refine congrArg (fun e => { c with evidenceSha256 := e }) ?_
    cases he : c.evidenceSha256 with
    | none => rfl
    | some e => exact Option.filter_some_pos (decide_eq_true fun h0 => hc (he.trans (by rw [h0])))
  have hassurance : s.assurance.map AssuranceReport.collapsed = s.assurance := by
    cases hr : s.assurance with
    | none => rfl
    | some r =>
      have hcontrols : r.controls.map ControlVerdict.collapsed = r.controls :=
        (List.map_congr_left fun c hc => hcontrol c (h r hr c hc)).trans (List.map_id _)
      exact congrArg (fun cs => some { r with controls := cs }) hcontrols
  exact congrArg (fun a => { s with assurance := a }) hassurance

/-- A digest that is written as an empty text is not covered by none. -/
theorem digest_of_covers {s : Scorecard φ} (h : Covers s.collapsed.toDict s.toDict) :
    ∀ r ∈ s.assurance, ∀ c ∈ r.controls, c.evidenceSha256 ≠ some [] := by
  intro r hr c hc hempty
  obtain ⟨i, hi⟩ := List.getElem?_of_mem hc
  have hplace : ∀ s : Scorecard φ, ∀ r ∈ s.assurance, ∀ c, r.controls[i]? = some c →
      atPlace? [.key (lit "assurance"), .key (lit "controls"), .index i,
        .key (lit "evidence_sha256")] s.toDict = some (optText c.evidenceSha256) := by
    intro s r hr c hi
    have hassurance : s.toDict.get? (lit "assurance") = some r.toDict := by
      rw [Scorecard.toDict, hr]
      rfl
    rw [atPlace?_cons, Step.part?, hassurance, Option.bind_some, atPlace?_cons]
    show (((r.controls.map (ControlVerdict.toDict (φ := φ)))[i]?).bind _) = _
    rw [List.getElem?_map, hi]
    rfl
  obtain ⟨y, hy, halike⟩ := h _ _ (hplace s r hr c hi)
  have hcollapsed := hplace s.collapsed r.collapsed (by rw [Scorecard.collapsed, hr]; rfl)
    c.collapsed (by rw [AssuranceReport.collapsed, List.getElem?_map, hi]; rfl)
  cases hcollapsed.symm.trans hy
  rw [ControlVerdict.collapsed, hempty] at halike
  cases halike

omit [PyFloat φ] in
/-- The key and the signature are texts. -/
theorem no_nan_toDict_iff {s : Scorecard φ} :
    (∀ ps, atPlace? ps s.toDict ≠ some .nan) ↔ ∀ ps, atPlace? ps (signableDict s) ≠ some .nan := by
  have htext : ∀ (t : Str) (ps : List Step), atPlace? ps (.str t : Json φ) ≠ some .nan := by
    intro t ps h
    cases ps with
    | nil => cases h
    | cons p ps => cases p <;> cases h
  constructor
  · intro h ps hnan
    cases ps with
    | nil => rw [signableDict_eq] at hnan; cases hnan
    | cons p ps =>
      cases p with
      | index i => rw [signableDict_eq] at hnan; cases hnan
      | key k =>
        by_cases hk : k = lit "public_key" ∨ k = lit "signature"
        · have hnone : (signableDict s).get? k = none := by
            rw [signableDict_eq]
            obtain rfl | rfl := hk <;> cases s.assurance <;> rfl
          rw [atPlace?_cons, Step.part?, hnone] at hnan
          cases hnan
        · rw [not_or] at hk
          rw [atPlace?_cons, Step.part?, get?_signableDict s hk.1 hk.2] at hnan
          exact h (.key k :: ps) hnan
  · intro h ps hnan
    cases ps with
    | nil => cases hnan
    | cons p ps =>
      cases p with
      | index i => cases hnan
      | key k =>
        rw [atPlace?_cons, Step.part?] at hnan
        by_cases hk : k = lit "public_key" ∨ k = lit "signature"
        · obtain rfl | rfl := hk
          · exact htext s.publicKey ps hnan
          · exact htext s.signature ps hnan
        · rw [not_or] at hk
          rw [← get?_signableDict s hk.1 hk.2] at hnan
          exact h (.key k :: ps) hnan

omit [PyFloat φ] in
theorem reload_eq_nan_iff {j : Json φ} : j.reload = .nan ↔ j = .nan := by
  cases j <;> simp [Json.reload]

omit [PyFloat φ] in
theorem no_nan_reloaded_iff {s : Scorecard φ} (h : s.NativeScope) :
    (∀ ps, atPlace? ps (signableDict s.reloaded) ≠ some .nan) ↔
      ∀ ps, atPlace? ps (signableDict s) ≠ some .nan := by
  refine forall_congr' fun ps => not_congr ?_
  rw [← reload_signableDict h, atPlace?_reload (keysStable_signableDict h), Option.map_eq_some_iff]
  constructor
  · rintro ⟨j, hj, hnan⟩
    rw [hj, reload_eq_nan_iff.mp hnan]
  · intro hj
    exact ⟨.nan, hj, rfl⟩

omit [PyFloat φ] in
theorem digests_reloaded_iff {s : Scorecard φ} :
    (∀ r ∈ s.reloaded.assurance, ∀ c ∈ r.controls, c.evidenceSha256 ≠ some []) ↔
      ∀ r ∈ s.assurance, ∀ c ∈ r.controls, c.evidenceSha256 ≠ some [] := by
  have hcontrol : ∀ c : ControlVerdict,
      c.reloaded.evidenceSha256 ≠ some [] ↔ c.evidenceSha256 ≠ some [] := by
    intro c
    rw [ControlVerdict.reloaded]
    cases c.evidenceSha256 with
    | none => simp
    | some e => simp [mergePairs_eq_nil]
  rw [Scorecard.reloaded]
  cases s.assurance with
  | none => simp
  | some r => simp [AssuranceReport.reloaded, hcontrol]

omit [PyFloat φ] in
theorem noDuplicateKeys_of_keysStable {j : Json φ} (h : j.KeysStable) :
    noDuplicateKeys j = true := by
  induction h with
  | arr _ ih => exact noDuplicateKeysItems_iff.mpr ih
  | obj hn _ _ ih =>
    rw [noDuplicateKeys, Bool.and_eq_true, decide_eq_true_eq]
    exact ⟨hn, noDuplicateKeysMembers_iff.mpr ih⟩
  | _ => rfl

omit [PyFloat φ] in
theorem keysStable_toDict {s : Scorecard φ} (h : s.NativeScope) : s.toDict.KeysStable := by
  have hsignable := keysStable_signableDict h
  rw [signableDict_eq] at hsignable
  cases hsignable with
  | obj _ _ hms =>
    refine keysStable_record ?_ (by cases s.assurance <;> rfl) ?_
    · cases s.assurance <;>
        simp only [Scorecard.head, assuranceMember, List.map_cons, List.map_nil,
          List.map_append] <;> decide
    · intro m hm
      simp only [List.mem_append, List.mem_cons, List.not_mem_nil, or_false] at hm
      obtain (hm | rfl | rfl) | hm := hm
      · exact hms m (List.mem_append_left _ hm)
      · exact .str _
      · exact .str _
      · exact hms m (List.mem_append_right _ hm)

omit [PyFloat φ] in
theorem nativeScope_reloaded {s : Scorecard φ} (h : s.NativeScope) :
    s.reloaded.NativeScope := by
  intro r hr
  obtain ⟨r', hr', rfl⟩ := Option.map_eq_some_iff.mp hr
  have hstable := (h r' hr').reload
  cases h r' hr' with
  | obj hn hk _ =>
    rw [reload_obj_of_keys hn hk] at hstable
    exact hstable

/-- The file of a signed scorecard is accepted and verifies just if no control has an empty digest
and the scope has no NaN. -/
theorem strict_roundTrips_iff (E : Ed25519 κ) (B : Builtins φ) (k : κ) {s : Scorecard φ}
    (h : s.NativeScope) :
    (∃ file c, loads (signWith E k s).toDict.text = some file ∧
      loadScorecardStrict B file = .ok c ∧
        verifyAgainst E (.ok (some (E.publicBytes k))) c = .ok ()) ↔
      (∀ r ∈ s.assurance, ∀ c ∈ r.controls, c.evidenceSha256 ≠ some []) ∧
        ∀ ps, atPlace? ps (signableDict s) ≠ some .nan := by
  have hnative : (signWith E k s).NativeScope := h
  obtain ⟨hreads, hparsed⟩ := read_signed E B k h
  rw [← signableDict_signWith E k s, ← no_nan_reloaded_iff hnative, ← no_nan_toDict_iff]
  constructor
  · rintro ⟨file, c, hfile, hload, -⟩
    cases hreads.symm.trans hfile
    obtain ⟨-, -, hread, hcovers⟩ := loadScorecardStrict_eq_ok_iff.mp hload
    cases hparsed.symm.trans hread
    exact ⟨(digests_reloaded_iff (s := signWith E k s)).mp (digest_of_covers hcovers),
      not_nan_of_covers hcovers⟩
  · rintro ⟨hdigests, hnan⟩
    obtain ⟨d, c, hround⟩ := (roundTrips_iff E B k s h).mpr hdigests
    cases hreads.symm.trans hround.reads
    cases hparsed.symm.trans hround.parsed
    have hself : (signWith E k s).reloaded.collapsed = (signWith E k s).reloaded :=
      collapsed_eq_self (digests_reloaded_iff.mpr hdigests)
    refine ⟨_, _, hreads, loadScorecardStrict_eq_ok_iff.mpr ⟨?_, ⟨_, rfl⟩, hparsed, ?_⟩,
      hround.accepted⟩
    · exact noDuplicateKeys_of_keysStable (keysStable_toDict (nativeScope_reloaded hnative))
    · rw [hself]
      exact covers_self_iff.mpr hnan

section Example

/-- A scorecard whose report has a control that failed. -/
private def plainCard : Scorecard WholeFloat :=
  ⟨[], lit "http://t", [], [], [], [], .insufficientCoverage, [], [],
    some ⟨1, .notMet, [], [⟨lit "AU-01", [], [], some .must, .fail, [], [], none⟩], Dict.empty⟩⟩

private def signedCard : Scorecard WholeFloat := signWith scheme () plainCard

private theorem load_signedCard :
    loadScorecardStrict textBuiltins signedCard.toDict = .ok signedCard := by
  rfl

private theorem merged_signedCard : Merged signedCard.toDict :=
  merged_of_stable (Json.stable_of_isPlain (by decide))

private theorem verified_signedCard :
    verifyAgainst scheme (.ok (some (scheme.publicBytes ()))) signedCard = .ok () :=
  verifyAgainst_eq_ok_iff.mpr ⟨rfl, fromHex_hexOf _, _, fromHex_hexOf _, rfl⟩

private theorem unforged_signedCard :
    Unforged scheme (scheme.publicBytes ()) (· = plainCard) signedCard :=
  fun _ _ _ => ⟨plainCard, rfl, congrArg canonicalBytes (signableDict_signWith _ _ _).symm⟩

theorem strict_verified_plain : ∃ s document, s = plainCard ∧
    loads (signableDict s).canonical = some document ∧
      Covers document (unsigned signedCard.toDict) :=
  strict_verified scheme textBuiltins (scheme.publicBytes ()) (· = plainCard) merged_signedCard
    load_signedCard verified_signedCard unforged_signedCard

private theorem nativeScope_plainCard : plainCard.NativeScope := by
  intro r hr
  cases hr
  exact .obj List.nodup_nil (List.forall_mem_nil _) (List.forall_mem_nil _)

theorem strict_roundTrips_iff_plain :
    (∃ file c, loads (signWith scheme () plainCard).toDict.text = some file ∧
      loadScorecardStrict textBuiltins file = .ok c ∧
        verifyAgainst scheme (.ok (some (scheme.publicBytes ()))) c = .ok ()) ↔
      (∀ r ∈ plainCard.assurance, ∀ c ∈ r.controls, c.evidenceSha256 ≠ some []) ∧
        ∀ ps, atPlace? ps (signableDict plainCard) ≠ some .nan :=
  strict_roundTrips_iff scheme textBuiltins () nativeScope_plainCard

end Example

end CosaiMcp.Scorecard
