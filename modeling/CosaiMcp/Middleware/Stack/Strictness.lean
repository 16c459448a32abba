import CosaiMcp.Middleware.Stack.Enforcers

/-!
# Strict schemas

`ParameterValidator` adds `additionalProperties: false` to the schema that was registered, and to no
schema within it. Arguments that it lets through have no undeclared name at their root, and further
down none where the schema itself forbids it; a schema within that says nothing stays open
(`openFilter_passes`). The injection guard reaches every string (`validate_strict`).

JSON Schema is taken from draft 7 (`Draft7`): beside a `$ref` no other keyword counts.
-/

namespace CosaiMcp.Middleware.Stack

open Py

variable {φ : Type}

/-! ## Draft 7 -/

/-- The value of a keyword of a schema. -/
def keyword (schema : List (Str × Json φ)) (name : Str) : Option (Json φ) :=
  if lit "$ref" ∈ schema.map Prod.fst then none else (Json.obj schema).get? name

/-- The names that a keyword maps to schemas. -/
def namesOf (schema : List (Str × Json φ)) (name : Str) : List Str :=
  match keyword schema name with
  | some (.obj ms) => ms.map Prod.fst
  | _ => []

/-- The schema has the name in its `properties`, or a pattern for it. -/
def Declares (isMatch : (pattern name : Str) → Bool) (schema : List (Str × Json φ)) (name : Str) :
    Prop :=
  name ∈ namesOf schema (lit "properties") ∨
    ∃ pattern ∈ namesOf schema (lit "patternProperties"), isMatch pattern name = true

/-- What the validator is relied on for. -/
structure Draft7 (rt : ValidationRuntime φ) where
  Valid : (schema value : Json φ) → Prop
  /-- `re.search(pattern, name)`. -/
  isMatch : (pattern name : Str) → Bool
  valid_of_no_errors : ∀ {schema arguments}, rt.schemaErrors schema arguments = [] →
    Valid (.obj schema) (.obj arguments)
  properties : ∀ {schema value ps k sub v}, Valid (.obj schema) (.obj value) →
    keyword schema (lit "properties") = some (.obj ps) → (Json.obj ps).get? k = some sub →
      (Json.obj value).get? k = some v → Valid sub v
  additionalProperties : ∀ {schema value}, Valid (.obj schema) (.obj value) →
    keyword schema (lit "additionalProperties") = some (.bool false) →
      ∀ k ∈ value.map Prod.fst, Declares isMatch schema k

/-! ## The levels of the arguments -/

/-- A value with its schema, reached through `properties`. -/
inductive Reaches (schema value : Json φ) : (sub v : Json φ) → Prop
  | root : Reaches schema value schema value
  | property {s a ps k sub v} (h : Reaches schema value (.obj s) (.obj a))
      (hprops : keyword s (lit "properties") = some (.obj ps))
      (hsub : (Json.obj ps).get? k = some sub) (hv : (Json.obj a).get? k = some v) :
      Reaches schema value sub v

/-- A string inside a value, through objects and lists. -/
inductive Inside (s : Str) : Json φ → Prop
  | str : Inside s (.str s)
  | member {k v ms} (h : Inside s v) (hmem : (k, v) ∈ ms) : Inside s (.obj ms)
  | item {v js} (h : Inside s v) (hmem : v ∈ js) : Inside s (.arr js)

section Keywords

variable {schema : List (Str × Json φ)} {k : Str}

theorem get?_obj_eq_none_iff : (Json.obj schema).get? k = none ↔ k ∉ schema.map Prod.fst := by
  unfold Json.get?
  rw [Option.map_eq_none_iff, List.find?_eq_none]
  constructor
  · intro h hk
    obtain ⟨m, hm, rfl⟩ := List.mem_map.mp hk
    exact h m hm (decide_eq_true rfl)
  · exact fun h m hm heq => h (of_decide_eq_true heq ▸ List.mem_map_of_mem hm)

theorem get?_concat (key : Str) (v : Json φ) : (Json.obj (schema ++ [(key, v)])).get? k =
    ((Json.obj schema).get? k).or (if key = k then some v else none) := by
  induction schema with
  | nil => exact Json.get?_cons
  | cons m ms ih =>
    rw [List.cons_append, Json.get?_cons, Json.get?_cons, ih]
    split <;> rfl

theorem mem_of_keyword {v : Json φ} (h : keyword schema k = some v) :
    lit "$ref" ∉ schema.map Prod.fst ∧ (Json.obj schema).get? k = some v := by
  unfold keyword at h
  split at h
  · cases h
  · next href => exact ⟨href, h⟩

theorem keyword_strictSchema (hk : k ≠ lit "additionalProperties") :
    keyword (strictSchema schema) k = keyword schema k := by
  unfold strictSchema
  split
  · have hkeys : lit "$ref" ∈ (schema ++ [(lit "additionalProperties", Json.bool false)]).map
        Prod.fst ↔ lit "$ref" ∈ schema.map Prod.fst := by
      rw [List.map_append, List.mem_append, List.map_singleton, List.mem_singleton]
      exact or_iff_left (show lit "$ref" ≠ lit "additionalProperties" by decide)
    unfold keyword
    simp only [hkeys, get?_concat, if_neg hk.symm, Option.or_none]
  · rfl

theorem declares_strictSchema {isMatch : (pattern name : Str) → Bool} :
    Declares isMatch (strictSchema schema) k ↔ Declares isMatch schema k := by
  unfold Declares namesOf
  rw [keyword_strictSchema (by decide), keyword_strictSchema (by decide)]

/-- A schema that declares properties is closed, if it does not say anything else. -/
theorem additionalProperties_strictSchema {ps : Json φ}
    (hprops : keyword schema (lit "properties") = some ps)
    (homits : keyword schema (lit "additionalProperties") = none) :
    keyword (strictSchema schema) (lit "additionalProperties") = some (.bool false) := by
  obtain ⟨href, hget⟩ := mem_of_keyword hprops
  have hdeclares : lit "properties" ∈ schema.map Prod.fst := by
    by_contra hno
    rw [get?_obj_eq_none_iff.mpr hno] at hget
    cases hget
  have hnone : (Json.obj schema).get? (lit "additionalProperties") = none := by
    unfold keyword at homits
    rwa [if_neg href] at homits
  have hkeys : lit "$ref" ∉ (schema ++ [(lit "additionalProperties", Json.bool false)]).map
      Prod.fst := by
    rw [List.map_append, List.mem_append, List.map_singleton, List.mem_singleton]
    exact not_or.mpr ⟨href, show lit "$ref" ≠ lit "additionalProperties" by decide⟩
  have hstrict : strictSchema schema = schema ++ [(lit "additionalProperties", .bool false)] :=
    if_pos ⟨hdeclares, get?_obj_eq_none_iff.mp hnone⟩
  unfold keyword
  rw [hstrict, if_neg hkeys, get?_concat, hnone]
  rfl

/-- Where it does say something, the schema stays as it is. -/
theorem strictSchema_of_keyword {v : Json φ}
    (h : keyword schema (lit "additionalProperties") = some v) : strictSchema schema = schema := by
  unfold strictSchema
  refine if_neg fun hc => ?_
  obtain ⟨-, hget⟩ := mem_of_keyword h
  rw [get?_obj_eq_none_iff.mpr hc.2] at hget
  cases hget

end Keywords

/-! ## Validation -/

section Guard

variable {rt : ValidationRuntime φ} {s : Str}

theorem search_of_scanText {path : Str} (h : scanText rt path s = []) :
    ∀ label ∈ injectionLabels, rt.search label s = none := by
  unfold scanText at h
  split at h
  · cases h
  · next hnone =>
    intro label hlabel
    exact Option.map_eq_none_iff.mp (List.findSome?_eq_none_iff.mp hnone label hlabel)

theorem scanValue_of_scanMembers {path : Str} {ms : List (Str × Json φ)}
    (h : scanMembers rt path ms = []) {k : Str} {v : Json φ} (hmem : (k, v) ∈ ms) :
    scanValue rt (path ++ lit "." ++ k) v = [] := by
  induction ms with
  | nil => cases hmem
  | cons m ms ih =>
    obtain ⟨key, value⟩ := m
    unfold scanMembers at h
    obtain ⟨hfirst, hrest⟩ := List.append_eq_nil_iff.mp h
    rcases List.mem_cons.mp hmem with heq | hmem
    · cases heq
      exact hfirst
    · exact ih hrest hmem

theorem exists_scanValue_of_scanItems {path : Str} {i : Nat} {js : List (Json φ)}
    (h : scanItems rt path i js = []) {v : Json φ} (hmem : v ∈ js) :
    ∃ path', scanValue rt path' v = [] := by
  induction js generalizing i with
  | nil => cases hmem
  | cons j js ih =>
    unfold scanItems at h
    obtain ⟨hfirst, hrest⟩ := List.append_eq_nil_iff.mp h
    rcases List.mem_cons.mp hmem with rfl | hmem
    · exact ⟨_, hfirst⟩
    · exact ih hrest hmem

/-- The guard reaches every string. -/
theorem search_of_scanValue {v : Json φ} (hinside : Inside s v) {path : Str}
    (h : scanValue rt path v = []) : ∀ label ∈ injectionLabels, rt.search label s = none := by
  induction hinside generalizing path with
  | str =>
    unfold scanValue at h
    exact search_of_scanText h
  | member _ hmem ih =>
    unfold scanValue at h
    exact ih (scanValue_of_scanMembers h hmem)
  | item _ hmem ih =>
    unfold scanValue at h
    obtain ⟨path', h⟩ := exists_scanValue_of_scanItems h hmem
    exact ih h

end Guard

section Strict

variable {rt : ValidationRuntime φ} {schema arguments : List (Str × Json φ)}

/-- Every level below the root is valid as it was registered. -/
theorem valid_of_reaches (D : Draft7 rt)
    (h : D.Valid (.obj (strictSchema schema)) (.obj arguments)) {sub v : Json φ}
    (hreaches : Reaches (.obj schema) (.obj arguments) sub v) :
    sub = .obj schema ∧ v = .obj arguments ∨ D.Valid sub v := by
  induction hreaches with
  | root => exact .inl ⟨rfl, rfl⟩
  | property _ hprops hsub hv ih =>
    refine .inr ?_
    rcases ih with ⟨heq, heq'⟩ | hvalid
    · cases heq
      cases heq'
      exact D.properties h ((keyword_strictSchema (by decide)).trans hprops) hsub hv
    · exact D.properties hvalid hprops hsub hv

theorem validate_eq_ok {V : ParameterValidator φ} {toolName : Str}
    (hschema : V.schemas.get? toolName = some schema)
    (h : V.validate rt toolName arguments = .ok ()) :
    scanValue rt (lit "arguments") (.obj arguments) = [] ∧
      rt.schemaErrors (strictSchema schema) arguments = [] := by
  unfold ParameterValidator.validate at h
  rw [hschema] at h
  dsimp only at h
  split at h
  · next hnone =>
    obtain ⟨hscan, herrors⟩ := List.append_eq_nil_iff.mp hnone
    exact ⟨hscan, List.map_eq_nil_iff.mp herrors⟩
  · cases h

/-- Names at the root are declared where the schema does not say otherwise, and at any level where
the schema of the level forbids others; no string matches a pattern of the guard. -/
structure Strict (D : Draft7 rt) (schema arguments : List (Str × Json φ)) : Prop where
  root : keyword schema (lit "additionalProperties") = none →
    ∀ {ps}, keyword schema (lit "properties") = some ps →
      ∀ k ∈ arguments.map Prod.fst, Declares D.isMatch schema k
  level : ∀ {s a}, Reaches (.obj schema) (.obj arguments) (.obj s) (.obj a) →
    keyword s (lit "additionalProperties") = some (.bool false) →
      ∀ k ∈ a.map Prod.fst, Declares D.isMatch s k
  noInjection : ∀ {text}, Inside text (.obj arguments) →
    ∀ label ∈ injectionLabels, rt.search label text = none

theorem validate_strict {rt : ValidationRuntime φ} (D : Draft7 rt) {V : ParameterValidator φ}
    {toolName : Str} {schema arguments : List (Str × Json φ)}
    (hschema : V.schemas.get? toolName = some schema)
    (h : V.validate rt toolName arguments = .ok ()) : Strict D schema arguments := by
  obtain ⟨hscan, herrors⟩ := validate_eq_ok hschema h
  have hvalid := D.valid_of_no_errors herrors
  refine ⟨fun homits ps hprops k hk => ?_, fun {s a} hreaches hcloses => ?_,
    fun hinside => search_of_scanValue hinside hscan⟩
  · exact declares_strictSchema.mp (D.additionalProperties hvalid
      (additionalProperties_strictSchema hprops homits) k hk)
  · rcases valid_of_reaches D hvalid hreaches with ⟨heq, heq'⟩ | hvalid'
    · cases heq
      cases heq'
      rw [strictSchema_of_keyword hcloses] at hvalid
      exact D.additionalProperties hvalid hcloses
    · exact D.additionalProperties hvalid' hcloses

end Strict

/-! ## A schema within a schema -/

section Example

private def isClosed (s : List (Str × Json φ)) : Bool :=
  match keyword s (lit "additionalProperties") with
  | some (.bool false) => true
  | _ => false

mutual

/-- `properties` and `additionalProperties: false` of draft 7. -/
private def conforms (schema : Json φ) : Json φ → Bool
  | .obj a =>
    match schema with
    | .obj s =>
      membersConform s a &&
        (!isClosed s || (a.map Prod.fst).all (· ∈ namesOf s (lit "properties")))
    | _ => true
  | _ => true

private def membersConform (s : List (Str × Json φ)) : List (Str × Json φ) → Bool
  | [] => true
  | (k, v) :: ms =>
    (match keyword s (lit "properties") with
      | some ps => (ps.get? k).all fun sub => conforms sub v
      | none => true) && membersConform s ms

end

private theorem conforms_of_membersConform {s a : List (Str × Json φ)} {ps : Json φ} {k : Str}
    {sub v : Json φ} (h : membersConform s a = true)
    (hprops : keyword s (lit "properties") = some ps) (hsub : ps.get? k = some sub)
    (hv : (Json.obj a).get? k = some v) : conforms sub v = true := by
  induction a with
  | nil => cases hv
  | cons m ms ih =>
    obtain ⟨key, value⟩ := m
    unfold membersConform at h
    rw [hprops, Bool.and_eq_true] at h
    dsimp only at h
    rw [Json.get?_cons] at hv
    split at hv
    · next hkey =>
      cases hv
      have hfirst := h.1
      rw [hkey, hsub] at hfirst
      exact hfirst
    · exact ih h.2 hv

private def runtime : ValidationRuntime WholeFloat where
  search _ _ := none
  schemaErrors schema arguments :=
    if conforms (.obj schema) (.obj arguments) then []
    else [([], lit "additionalProperties", lit "unexpected")]
  escape := id

private def draft7 : Draft7 runtime where
  Valid schema value := conforms schema value = true
  isMatch _ _ := false
  valid_of_no_errors h := by
    by_contra hno
    unfold runtime at h
    dsimp only at h
    rw [if_neg hno] at h
    cases h
  properties {schema value ps k sub v} h hprops hsub hv := by
    unfold conforms at h
    exact conforms_of_membersConform (Bool.and_eq_true_iff.mp h).1 hprops hsub hv
  additionalProperties {schema value} h hcloses k hk := by
    unfold conforms at h
    have hnames := (Bool.and_eq_true_iff.mp h).2
    unfold isClosed at hnames
    rw [hcloses] at hnames
    exact .inl (of_decide_eq_true (List.all_eq_true.mp hnames k hk))

/-- `{"properties": {"filter": {"properties": {"name": {}}}}}`. -/
private def searchSchema : List (Str × Json WholeFloat) :=
  [(lit "properties",
    .obj [(lit "filter", .obj [(lit "properties", .obj [(lit "name", .obj [])])])])]

private def validator : ParameterValidator WholeFloat where
  schemas := ⟨[(lit "search", searchSchema)], by decide⟩
  allowUnknownTools := false

theorem validate_strict_search :
    Strict draft7 searchSchema [(lit "filter", .obj [(lit "name", .str (lit "x"))])] :=
  validate_strict draft7
    (show validator.schemas.get? (lit "search") = some searchSchema from rfl) rfl

/-- The filter takes a name that its schema does not declare. -/
theorem openFilter_passes :
    validator.validate runtime (lit "search")
        [(lit "filter", .obj [(lit "admin", .bool true)])] = .ok () ∧
      Reaches (.obj searchSchema) (.obj [(lit "filter", .obj [(lit "admin", .bool true)])])
        (.obj [(lit "properties", .obj [(lit "name", .obj [])])])
        (.obj [(lit "admin", .bool true)]) ∧
      keyword [(lit "properties", Json.obj (φ := WholeFloat) [(lit "name", .obj [])])]
        (lit "additionalProperties") = none ∧
      ¬ Declares draft7.isMatch
        [(lit "properties", Json.obj (φ := WholeFloat) [(lit "name", .obj [])])]
        (lit "admin") := by
  refine ⟨rfl, .property (k := lit "filter") .root rfl rfl rfl, rfl, ?_⟩
  rintro (h | ⟨_, _, h⟩)
  · exact absurd h (by decide)
  · cases h

end Example

end CosaiMcp.Middleware.Stack
