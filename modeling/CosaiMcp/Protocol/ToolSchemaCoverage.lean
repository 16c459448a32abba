import CosaiMcp.Protocol.HeaderNames
import CosaiMcp.Protocol.ToolSchemaWalk
import CosaiMcp.Py.Canonical

/-!
# Annotations that escape both walks

`walkAnnotations` follows `properties` from the root (`mem_walkAnnotations_iff`), `walkSchema`
visits every object but those that it takes for maps of properties. An annotation escapes both if
it is on the root, too deep, or on a schema that a map calls `properties`, and so does a new one
whose type has no hash (`annotations_covered_iff`).
-/

namespace CosaiMcp.Protocol

open Py

variable {φ : Type} {U : UnicodeData}

/-! ## Values with unique keys -/

/-- No object, at any depth, has a key twice: the value is made of `dict`s. -/
inductive UniqueKeys : Json φ → Prop
  | null : UniqueKeys .null
  | bool (b : Bool) : UniqueKeys (.bool b)
  | int (n : Int) : UniqueKeys (.int n)
  | float (x : φ) : UniqueKeys (.float x)
  | nan : UniqueKeys .nan
  | str (s : Str) : UniqueKeys (.str s)
  | arr {js : List (Json φ)} (h : ∀ j ∈ js, UniqueKeys j) : UniqueKeys (.arr js)
  | obj {ms : List (Str × Json φ)} (hn : (ms.map Prod.fst).Nodup)
      (h : ∀ m ∈ ms, UniqueKeys m.2) : UniqueKeys (.obj ms)

theorem UniqueKeys.members {ms : List (Str × Json φ)} (h : UniqueKeys (.obj ms)) :
    (ms.map Prod.fst).Nodup ∧ ∀ m ∈ ms, UniqueKeys m.2 := by
  cases h with
  | obj hn h => exact ⟨hn, h⟩

theorem UniqueKeys.item {js : List (Json φ)} (h : UniqueKeys (.arr js)) :
    ∀ j ∈ js, UniqueKeys j := by
  cases h with
  | arr h => exact h

/-! ## Subschemas -/

/-- The keywords, `properties` apart, whose value maps names to schemas. -/
def schemaMapKeywords : List Str :=
  [lit "$defs", lit "definitions", lit "patternProperties", lit "dependentSchemas"]

/-- A subschema, and its path if it is reached through `properties` only. Any value in a schema
stands for a schema, but that of `properties`, and so does what a map of schemas names. -/
inductive SubschemaAt (root : Json φ) : Option (List Str) → Json φ → Prop
  | root : SubschemaAt root (some []) root
  | property {p : Option (List Str)} {ms props : List (Str × Json φ)} {key : Str} {sub : Json φ}
      (h : SubschemaAt root p (.obj ms)) (hprops : (lit "properties", .obj props) ∈ ms)
      (hsub : (key, sub) ∈ props) : SubschemaAt root (p.map (· ++ [key])) sub
  | member {p : Option (List Str)} {ms : List (Str × Json φ)} {key : Str} {value : Json φ}
      (h : SubschemaAt root p (.obj ms)) (hvalue : (key, value) ∈ ms)
      (hkey : key = lit "properties" → isObject value = false) : SubschemaAt root none value
  | entry {p : Option (List Str)} {ms defs : List (Str × Json φ)} {key name : Str} {sub : Json φ}
      (h : SubschemaAt root p (.obj ms)) (hkey : key ∈ schemaMapKeywords)
      (hdefs : (key, .obj defs) ∈ ms) (hsub : (name, sub) ∈ defs) : SubschemaAt root none sub
  | item {p : Option (List Str)} {js : List (Json φ)} {j : Json φ}
      (h : SubschemaAt root p (.arr js)) (hj : j ∈ js) : SubschemaAt root none j

/-- The visits to a value are to subschemas, be it a schema or a map of properties. -/
structure VisitsSubschemas (root j : Json φ) : Prop where
  schema : ∀ {p depth via path v}, SubschemaAt root p j → v ∈ visits depth via path j →
    ∃ p', SubschemaAt root p' v.node
  map : ∀ {p ms depth via path v}, SubschemaAt root p (.obj ms) → (lit "properties", j) ∈ ms →
    v ∈ visitsMap depth via path j → ∃ p', SubschemaAt root p' v.node

theorem visitsSubschemas_scalar {root j : Json φ} (hj : isContainer j = false) :
    VisitsSubschemas root j := by
  cases j with
  | arr js => cases hj
  | obj ms => cases hj
  | _ =>
    refine ⟨fun hp hv => ?_, fun _ _ hv => by cases hv⟩
    rw [visits, List.mem_singleton] at hv
    subst hv
    exact ⟨_, hp⟩

section Below

variable {root : Json φ} {p : Option (List Str)} {depth : Nat} {via : Bool} {path : Str}
  {v : Visit φ}

theorem subschemaAt_of_mem_members {ms ns : List (Str × Json φ)}
    (ih : ∀ m ∈ ms, VisitsSubschemas root m.2) (hp : SubschemaAt root p (.obj ms))
    (hns : ∀ m ∈ ns, m ∈ ms) (hv : v ∈ visitsMembers depth via path ns) :
    ∃ p', SubschemaAt root p' v.node := by
  induction ns with
  | nil => cases hv
  | cons m ns ihns =>
    obtain ⟨key, value⟩ := m
    have hm := hns _ List.mem_cons_self
    rw [visitsMembers, List.mem_append] at hv
    rcases hv with hv | hv
    · split at hv
      · next hkey =>
        rw [hkey.1] at hm
        exact (ih _ hm).map hp hm hv
      · next hkey =>
        split at hv
        · refine (ih _ hm).schema (.member hp hm fun heq => ?_) hv
          exact eq_false_of_ne_true fun hobject => hkey ⟨heq, hobject⟩
        · cases hv
    · exact ihns (fun m hm => hns m (List.mem_cons_of_mem _ hm)) hv

theorem subschemaAt_of_mem_properties {ms props ns : List (Str × Json φ)}
    (ih : ∀ m ∈ props, VisitsSubschemas root m.2) (hp : SubschemaAt root p (.obj ms))
    (hprops : (lit "properties", .obj props) ∈ ms) (hns : ∀ m ∈ ns, m ∈ props)
    (hv : v ∈ visitsProperties depth via path ns) : ∃ p', SubschemaAt root p' v.node := by
  induction ns with
  | nil => cases hv
  | cons m ns ihns =>
    obtain ⟨prop, sub⟩ := m
    have hm := hns _ List.mem_cons_self
    rw [visitsProperties, List.mem_append] at hv
    rcases hv with hv | hv
    · exact (ih _ hm).schema (.property hp hprops hm) hv
    · exact ihns (fun m hm => hns m (List.mem_cons_of_mem _ hm)) hv

theorem subschemaAt_of_mem_items {js is : List (Json φ)} {i : Nat}
    (ih : ∀ j ∈ js, VisitsSubschemas root j) (hp : SubschemaAt root p (.arr js))
    (his : ∀ j ∈ is, j ∈ js) (hv : v ∈ visitsItems depth path i is) :
    ∃ p', SubschemaAt root p' v.node := by
  induction is generalizing i with
  | nil => cases hv
  | cons j is ihis =>
    have hj := his _ List.mem_cons_self
    rw [visitsItems, List.mem_append] at hv
    rcases hv with hv | hv
    · exact (ih _ hj).schema (.item hp hj) hv
    · exact ihis (fun j hj => his j (List.mem_cons_of_mem _ hj)) hv

end Below

theorem visitsSubschemas (root j : Json φ) : VisitsSubschemas root j := by
  induction j using Json.induct with
  | obj ms ih =>
    refine ⟨fun hp hv => ?_, fun hp hmem hv => ?_⟩
    · rw [visits, List.mem_cons] at hv
      rcases hv with rfl | hv
      · exact ⟨_, hp⟩
      · exact subschemaAt_of_mem_members ih hp (fun _ hm => hm) hv
    · exact subschemaAt_of_mem_properties ih hp hmem (fun _ hm => hm) hv
  | arr js ih =>
    refine ⟨fun hp hv => ?_, fun _ _ hv => by cases hv⟩
    rw [visits, List.mem_cons] at hv
    rcases hv with rfl | hv
    · exact ⟨_, hp⟩
    · exact subschemaAt_of_mem_items ih hp (fun _ hj => hj) hv
  | null => exact visitsSubschemas_scalar rfl
  | bool b => exact visitsSubschemas_scalar rfl
  | int n => exact visitsSubschemas_scalar rfl
  | float x => exact visitsSubschemas_scalar rfl
  | nan => exact visitsSubschemas_scalar rfl
  | str s => exact visitsSubschemas_scalar rfl

/-! ## Chains of properties -/

/-- The schema that a path of property names leads to. -/
def Chain (s : Json φ) : List Str → Json φ → Prop
  | [], t => t = s
  | key :: path, t => ∃ props sub, s.get? (lit "properties") = some (.obj props) ∧
      (key, sub) ∈ props ∧ Chain sub path t

theorem Chain.concat {s t sub : Json φ} {path : List Str} {props : List (Str × Json φ)} {key : Str}
    (h : Chain s path t) (hprops : t.get? (lit "properties") = some (.obj props))
    (hsub : (key, sub) ∈ props) : Chain s (path ++ [key]) sub := by
  induction path generalizing s with
  | nil =>
    cases h
    exact ⟨props, sub, hprops, hsub, rfl⟩
  | cons k path ih =>
    obtain ⟨props', sub', hprops', hsub', h⟩ := h
    exact ⟨props', sub', hprops', hsub', ih h⟩

theorem UniqueKeys.properties {s : Json φ} {props : List (Str × Json φ)} (h : UniqueKeys s)
    (hprops : s.get? (lit "properties") = some (.obj props)) :
    (props.map Prod.fst).Nodup ∧ ∀ m ∈ props, UniqueKeys m.2 := by
  cases s with
  | obj ms =>
    obtain ⟨hn, hms⟩ := h.members
    exact (hms _ ((Json.get?_eq_some_iff hn).mp hprops)).members
  | _ => cases hprops

theorem Chain.unique {s t t' : Json φ} {path : List Str} (hs : UniqueKeys s) (h : Chain s path t)
    (h' : Chain s path t') : t = t' := by
  induction path generalizing s with
  | nil => exact h.trans h'.symm
  | cons key path ih =>
    obtain ⟨props, sub, hprops, hsub, h⟩ := h
    obtain ⟨props', sub', hprops', hsub', h'⟩ := h'
    cases hprops.symm.trans hprops'
    obtain ⟨hn, hsubs⟩ := hs.properties hprops
    have hsame : (key, sub) = (key, sub') := List.inj_on_of_nodup_map hn hsub hsub' rfl
    cases hsame
    exact ih (hsubs _ hsub) h h'

theorem uniqueKeys_of_subschemaAt {root t : Json φ} {p : Option (List Str)}
    (hroot : UniqueKeys root) (h : SubschemaAt root p t) : UniqueKeys t := by
  induction h with
  | root => exact hroot
  | property _ hprops hsub ih => exact (ih.members.2 _ hprops).members.2 _ hsub
  | member _ hvalue _ ih => exact ih.members.2 _ hvalue
  | entry _ _ hdefs hsub ih => exact (ih.members.2 _ hdefs).members.2 _ hsub
  | item _ hj ih => exact ih.item _ hj

theorem chain_of_subschemaAt {root t : Json φ} {p : Option (List Str)} (hroot : UniqueKeys root)
    (h : SubschemaAt root p t) : ∀ path, p = some path → Chain root path t := by
  induction h with
  | root =>
    intro path hpath
    cases hpath
    rfl
  | @property p ms props key sub h hprops hsub ih =>
    intro path hpath
    obtain ⟨before, rfl, rfl⟩ := Option.map_eq_some_iff.mp hpath
    obtain ⟨hn, -⟩ := (uniqueKeys_of_subschemaAt hroot h).members
    exact (ih before rfl).concat ((Json.get?_eq_some_iff hn).mpr hprops) hsub
  | member => nofun
  | entry => nofun
  | item => nofun

/-! ## The walk through properties -/

/-- What the walk through `properties` finds at one entry. -/
theorem mem_walk_entry_iff {n : Nat} {key : Str} {sub : Json φ} {before : List Str}
    {a : Str × List Str × Json φ} :
    (a ∈ match sub with
      | .obj _ =>
        (match sub.get? (lit "x-mcp-header") with
          | some (.str ann) => [(ann, before ++ [key], sub.getOrNull (lit "type"))]
          | _ => []) ++ walkAnnotations n sub (before ++ [key])
      | _ => []) ↔
      (sub.get? (lit "x-mcp-header") = some (.str a.1) ∧
        a.2 = (before ++ [key], sub.getOrNull (lit "type"))) ∨
      a ∈ walkAnnotations n sub (before ++ [key]) := by
  obtain ⟨name, path, typ⟩ := a
  cases sub with
  | obj ms =>
    simp only [List.mem_append]
    refine or_congr_left ?_
    split
    · next ann hann =>
      rw [hann, List.mem_singleton]
      constructor
      · intro heq
        cases heq
        exact ⟨rfl, rfl⟩
      · rintro ⟨hname, hrest⟩
        cases hname
        cases hrest
        rfl
    · next hann =>
      exact iff_of_false nofun fun h => hann _ h.1
  | _ =>
    have hnone (m : Nat) (j : Json φ) (hj : j.get? (lit "properties") = none) :
        walkAnnotations m j (before ++ [key]) = [] := by
      cases m with
      | zero => rfl
      | succ m => rw [walkAnnotations, hj]
    refine iff_of_false nofun ?_
    rintro (⟨h, -⟩ | h)
    · cases h
    · rw [hnone n _ rfl] at h
      cases h

/-- The walk finds the annotated schemas at the ends of chains that are short enough. -/
theorem mem_walkAnnotations_iff {n : Nat} {s : Json φ} {before : List Str} {name : Str}
    {path : List Str} {typ : Json φ} :
    (name, path, typ) ∈ walkAnnotations n s before ↔
      ∃ chain t, path = before ++ chain ∧ chain ≠ [] ∧ chain.length ≤ n ∧ Chain s chain t ∧
        t.get? (lit "x-mcp-header") = some (.str name) ∧ typ = t.getOrNull (lit "type") := by
  induction n generalizing s before with
  | zero =>
    refine iff_of_false nofun ?_
    rintro ⟨chain, t, -, hne, hlen, -⟩
    exact hne (List.length_eq_zero_iff.mp (Nat.le_zero.mp hlen))
  | succ n ih =>
    rw [walkAnnotations]
    constructor
    · intro h
      split at h
      · next props hprops =>
        obtain ⟨⟨key, sub⟩, hsub, h⟩ := List.mem_flatMap.mp h
        rcases mem_walk_entry_iff.mp h with ⟨hann, hrest⟩ | h
        · cases hrest
          exact ⟨[key], sub, rfl, List.cons_ne_nil _ _, by simp, ⟨props, sub, hprops, hsub, rfl⟩,
            hann, rfl⟩
        · obtain ⟨chain, t, rfl, -, hlen, hchain, hann, htyp⟩ := ih.mp h
          refine ⟨key :: chain, t, by simp, List.cons_ne_nil _ _, ?_,
            ⟨props, sub, hprops, hsub, hchain⟩, hann, htyp⟩
          rw [List.length_cons]
          omega
      · cases h
    · rintro ⟨chain, t, rfl, hne, hlen, hchain, hann, rfl⟩
      cases chain with
      | nil => exact absurd rfl hne
      | cons key chain =>
        obtain ⟨props, sub, hprops, hsub, hchain⟩ := hchain
        rw [hprops]
        refine List.mem_flatMap.mpr ⟨(key, sub), hsub, mem_walk_entry_iff.mpr ?_⟩
        cases chain with
        | nil =>
          cases hchain
          exact .inl ⟨hann, rfl⟩
        | cons k chain =>
          refine .inr (ih.mpr ⟨k :: chain, t, by simp, List.cons_ne_nil _ _, ?_, hchain, hann, rfl⟩)
          rw [List.length_cons] at hlen
          omega

/-! ## The chains are visited -/

theorem visits_eq_cons (depth : Nat) (via : Bool) (path : Str) (j : Json φ) :
    visits depth via path j = ⟨j, depth, via, path⟩ :: (visits depth via path j).tail := by
  cases j <;> rw [visits] <;> rfl

/-- The visits to the properties of an object are among those to the object, one after the other. -/
theorem sublist_visits_properties {s : Json φ} {props : List (Str × Json φ)}
    (hprops : s.get? (lit "properties") = some (.obj props)) (depth : Nat) (via : Bool)
    (path : Str) :
    (visitsProperties depth via (path ++ lit "/properties/") props).Sublist
      (visits depth via path s).tail := by
  cases s with
  | obj ms =>
    rw [visits, List.tail_cons]
    induction ms with
    | nil => cases hprops
    | cons m ms ih =>
      obtain ⟨key, value⟩ := m
      rw [Json.get?_cons] at hprops
      rw [visitsMembers]
      by_cases hkey : key = lit "properties"
      · rw [if_pos hkey] at hprops
        cases hprops
        rw [if_pos ⟨hkey, rfl⟩, visitsMap]
        exact List.sublist_append_left _ _
      · rw [if_neg hkey] at hprops
        exact (ih hprops).trans (List.sublist_append_right _ _)
  | _ => cases hprops

theorem sublist_visitsProperties {props : List (Str × Json φ)} {m : Str × Json φ} (hm : m ∈ props)
    (depth : Nat) (via : Bool) (path : Str) :
    (visits (depth + 1) via (path ++ m.1) m.2).Sublist (visitsProperties depth via path props) := by
  induction props with
  | nil => cases hm
  | cons m' props ih =>
    obtain ⟨prop, sub⟩ := m'
    rw [visitsProperties]
    rcases List.mem_cons.mp hm with rfl | hm
    · exact List.sublist_append_left _ _
    · exact (ih hm).trans (List.sublist_append_right _ _)

theorem exists_visit_of_chain {s t : Json φ} {chain : List Str} (h : Chain s chain t) (depth : Nat)
    (via : Bool) (path : Str) : ∃ v ∈ visits depth via path s, v.node = t := by
  induction chain generalizing s depth path with
  | nil =>
    cases h
    exact ⟨_, by rw [visits_eq_cons]; exact List.mem_cons_self, rfl⟩
  | cons key chain ih =>
    obtain ⟨props, sub, hprops, hsub, h⟩ := h
    obtain ⟨v, hv, hnode⟩ := ih h (depth + 1) (path ++ lit "/properties/" ++ key)
    refine ⟨v, ?_, hnode⟩
    rw [visits_eq_cons]
    exact List.mem_cons_of_mem _ ((sublist_visits_properties hprops depth via path).subset
      ((sublist_visitsProperties hsub depth via _).subset hv))

/-- The names that one walk finds are among those that the other one meets, in the same order. -/
theorem names_sublist (n : Nat) (s : Json φ) (before : List Str) (depth : Nat) (via : Bool)
    (path : Str) : ((walkAnnotations n s before).map Prod.fst).Sublist
      ((visits depth via path s).tail.filterMap headerName?) := by
  induction n generalizing s before depth path with
  | zero => exact List.nil_sublist _
  | succ n ih =>
    rw [walkAnnotations]
    split
    · next props hprops =>
      refine List.Sublist.trans ?_ ((sublist_visits_properties hprops depth via path).filterMap _)
      generalize path ++ lit "/properties/" = below
      clear hprops
      induction props with
      | nil => exact List.nil_sublist _
      | cons m props ihprops =>
        obtain ⟨key, sub⟩ := m
        rw [List.flatMap_cons, List.map_append, visitsProperties, List.filterMap_append]
        refine List.Sublist.append ?_ ihprops
        cases sub with
        | obj ms =>
          simp only [List.map_append]
          rw [visits_eq_cons, List.filterMap_cons]
          have hname : headerName? ⟨Json.obj ms, depth + 1, via, below ++ key⟩ =
              (((Json.obj ms).get? (lit "x-mcp-header")).getD .null).asStr? := rfl
          rw [hname]
          have hrest := ih (.obj ms) (before ++ [key]) (depth + 1) (below ++ key)
          cases (Json.obj ms).get? (lit "x-mcp-header") with
          | none => exact hrest
          | some ann =>
            cases ann with
            | str name => exact hrest.cons_cons name
            | _ => exact hrest
        | _ => exact List.nil_sublist _
    · exact List.nil_sublist _

/-! ## Coverage -/

variable (U) in
/-- The name and the path are in the result of `x_mcp_header_annotations`. -/
def Honoured (root : Json φ) (p : Option (List Str)) (ann : Json φ) : Prop :=
  ∃ name path, ann = .str name ∧ p = some path ∧ (name, path) ∈ xMcpHeaderAnnotations U root

variable (U) in
/-- Each annotation is honoured, or there is a violation to report. -/
def Covered (repr : Json φ → Str) (root : Json φ) : Prop :=
  ∀ p t, SubschemaAt root p t → t.getOrNull (lit "x-mcp-header") ≠ .null →
    Honoured U root p (t.getOrNull (lit "x-mcp-header")) ∨
      ∃ violations, toolSchemaViolations U repr root = .ok violations ∧ violations ≠ []

/-- Each annotated schema is at the end of at most 17 property names, and not the root. -/
def WithinReach (root : Json φ) : Prop :=
  ∀ p t, SubschemaAt root p t → t.getOrNull (lit "x-mcp-header") ≠ .null →
    ∃ path, p = some path ∧ path ≠ [] ∧ path.length ≤ 17

theorem isHeaderType_annotatedType (typ : Json φ) :
    isHeaderType (annotatedType typ) = isPrimitiveType typ := by
  cases typ with
  | arr types =>
    simp only [annotatedType, isPrimitiveType]
    generalize types.filter (!isNullType ·) = rest
    rcases rest with _ | ⟨t, _ | ⟨u, rest⟩⟩
    · rfl
    · rfl
    · rfl
  | _ => rfl

theorem nodup_lowerNames {vs : List (Visit φ)} (h : AllGood U vs) : (lowerNames U vs).Nodup := by
  induction vs using List.reverseRecOn with
  | nil => exact List.nodup_nil
  | append_singleton vs v ih =>
    obtain ⟨hvs, hv⟩ := allGood_concat.mp h
    rw [lowerNames_concat]
    cases hname : headerName? v with
    | none =>
      rw [Option.toList_none, List.map_nil, List.append_nil]
      exact ih hvs
    | some name =>
      have hann : annotationOf v = .str name := by
        unfold headerName? at hname
        cases hj : annotationOf v with
        | str s =>
          rw [hj] at hname
          cases hname
          rfl
        | _ =>
          rw [hj] at hname
          cases hname
      obtain ⟨name', hname', -, hfresh, -⟩ := hv.annotated (by rw [hann]; nofun)
      cases hann.symm.trans hname'
      rw [Option.toList_some, List.map_singleton, List.nodup_append]
      refine ⟨ih hvs, List.nodup_singleton _, fun a ha b hb hab => ?_⟩
      rw [List.mem_singleton] at hb
      exact hfresh (hb ▸ hab ▸ ha)

/-- With nothing to report, an annotated schema within reach is honoured. -/
theorem honoured_of_clean {root t : Json φ} {path : List Str} (hclean : Clean U (schemaVisits root))
    (hchain : Chain root path t) (hne : path ≠ []) (hlen : path.length ≤ 17)
    (hann : t.getOrNull (lit "x-mcp-header") ≠ .null) :
    Honoured U root (some path) (t.getOrNull (lit "x-mcp-header")) := by
  obtain ⟨v, hv, hnode⟩ := exists_visit_of_chain hchain 0 true []
  subst hnode
  obtain ⟨before, after, hsplit⟩ := List.append_of_mem hv
  obtain ⟨name, hname, htoken, -, htype, -⟩ := (hclean.good before v after hsplit).annotated hann
  refine ⟨name, path, hname, rfl, ?_⟩
  have hget : v.node.get? (lit "x-mcp-header") = some (.str name) := by
    have hsome : (v.node.get? (lit "x-mcp-header")).getD .null = .str name := hname
    cases hget : v.node.get? (lit "x-mcp-header") with
    | none =>
      rw [hget] at hsome
      cases hsome
    | some ann =>
      rw [hget] at hsome
      exact congrArg some hsome
  have hwalk : (name, path, v.node.getOrNull (lit "type")) ∈ walkAnnotations 17 root [] :=
    mem_walkAnnotations_iff.mpr ⟨path, v.node, rfl, hne, hlen, hchain, hget, rfl⟩
  -- no two annotations of the walk have one name, as no two visits do
  have hnodup : ((walkAnnotations 17 root []).map fun a => U.lower a.1).Nodup := by
    have hsublist := ((names_sublist 17 root [] 0 true []).map U.lower)
    rw [List.map_map] at hsublist
    refine List.Nodup.sublist hsublist ?_
    refine List.Nodup.sublist ?_ (nodup_lowerNames hclean.good)
    exact ((List.tail_sublist _).filterMap _).map _
  obtain ⟨pre, post, hpre⟩ := List.append_of_mem hwalk
  refine mem_validAnnotations_iff.mpr ⟨pre, _, post, hpre, htoken, List.not_mem_nil, ?_, ?_⟩
  · intro b hb _ heq
    rw [hpre, List.map_append, List.nodup_append] at hnodup
    exact hnodup.2.2 _ (List.mem_map_of_mem hb) _ List.mem_cons_self heq
  · rw [← isHeaderType_annotatedType]
    exact htype

/-- An annotation whose type has no hash is not honoured. -/
theorem not_honoured_of_unhashable {root : Json φ} (hroot : UniqueKeys root)
    {p : Option (List Str)} {v : Visit φ} {before : List (Visit φ)} (h : SubschemaAt root p v.node)
    (hv : Unhashable U before v) : ¬ Honoured U root p (annotationOf v) := by
  rintro ⟨name, path, -, rfl, hkept⟩
  obtain ⟨pre, typ, post, hpre, -, -, -, hprim⟩ := mem_validAnnotations_iff.mp hkept
  have hwalk : (name, path, typ) ∈ walkAnnotations 17 root [] := by
    rw [hpre]
    exact List.mem_append_right _ List.mem_cons_self
  obtain ⟨chain, t, hpath, -, -, hchain, -, rfl⟩ := mem_walkAnnotations_iff.mp hwalk
  rw [List.nil_append] at hpath
  subst hpath
  have hsame : t = v.node := hchain.unique hroot (chain_of_subschemaAt hroot h _ rfl)
  subst hsame
  obtain ⟨_, -, -, -, hhash⟩ := hv
  rw [← isHeaderType_annotatedType] at hprim
  exact Bool.noConfusion (hprim.symm.trans (isHeaderType_of_not_hashable hhash))

/-- No annotation escapes both walks exactly if no visit raises and, should there be nothing else to
report, every annotated schema is within reach of the walk through properties. -/
theorem annotations_covered_iff (U : UnicodeData) (repr : Json φ → Str)
    {ms : List (Str × Json φ)} (hkeys : UniqueKeys (.obj ms))
    (hbudget : (schemaVisits (.obj ms)).length ≤ maxSchemaNodes) :
    Covered U repr (.obj ms) ↔ ¬ Stuck U (schemaVisits (.obj ms)) ∧
      (Clean U (schemaVisits (.obj ms)) → WithinReach (.obj ms)) := by
  rcases toolSchemaViolations_spec U repr ms hbudget with ⟨hraises, hstuck⟩ |
    ⟨violations, hok, hunstuck, hviolations⟩
  · refine iff_of_false (fun hcovered => ?_) fun h => h.1 hstuck
    obtain ⟨before, v, after, hsplit, hv⟩ := hstuck
    have hmem : v ∈ schemaVisits (.obj ms) := by
      rw [hsplit]
      exact List.mem_append_right _ List.mem_cons_self
    obtain ⟨p, hp⟩ := (visitsSubschemas _ _).schema .root hmem
    have hann : v.node.getOrNull (lit "x-mcp-header") ≠ .null := by
      obtain ⟨name, hname, -⟩ := hv
      have hname : v.node.getOrNull (lit "x-mcp-header") = .str name := hname
      rw [hname]
      nofun
    rcases hcovered p v.node hp hann with hhonoured | ⟨violations, hok, -⟩
    · exact not_honoured_of_unhashable hkeys hp hv hhonoured
    · cases hraises.symm.trans hok
  · constructor
    · intro hcovered
      refine ⟨hunstuck, fun hclean p t hp hann => ?_⟩
      rcases hcovered p t hp hann with ⟨name, path, -, hpath, hkept⟩ | ⟨violations', hok', hne⟩
      · obtain ⟨pre, typ, post, hpre, -⟩ := mem_validAnnotations_iff.mp hkept
        have hwalk : (name, path, typ) ∈ walkAnnotations 17 (.obj ms) [] := by
          rw [hpre]
          exact List.mem_append_right _ List.mem_cons_self
        obtain ⟨chain, t', hchain, hne, hlen, -⟩ := mem_walkAnnotations_iff.mp hwalk
        rw [List.nil_append] at hchain
        subst hchain
        exact ⟨_, hpath, hne, hlen⟩
      · cases hok.symm.trans hok'
        exact absurd (hviolations.mpr hclean) hne
    · rintro ⟨-, hreach⟩ p t hp hann
      by_cases hclean : Clean U (schemaVisits (.obj ms))
      · obtain ⟨path, rfl, hne, hlen⟩ := hreach hclean p t hp hann
        exact .inl (honoured_of_clean hclean (chain_of_subschemaAt hkeys hp _ rfl) hne hlen hann)
      · exact .inr ⟨violations, hok, fun hnil => hclean (hviolations.mp hnil)⟩

/-! ## A schema called properties -/

/-- An annotated schema. -/
def regionSchema : Json Unit :=
  .obj [(lit "type", .str (lit "string")), (lit "x-mcp-header", .str (lit "Region"))]

/-- The walk takes the one definition for a map of properties. -/
def hiddenSchema : List (Str × Json Unit) :=
  [(lit "$defs", .obj [(lit "properties", regionSchema)])]

theorem hiddenSchema_escapes : ¬ Covered .ascii (fun _ => []) (.obj hiddenSchema) := by
  intro hcovered
  have hsub : SubschemaAt (.obj hiddenSchema) none regionSchema :=
    .entry .root (by decide) List.mem_cons_self List.mem_cons_self
  rcases hcovered none regionSchema hsub (by rintro ⟨⟩) with ⟨_, _, -, h, -⟩ | ⟨vs, hok, hne⟩
  · cases h
  · have hnone : (toolSchemaViolations .ascii (fun _ => []) (.obj hiddenSchema)).toOption.map
        List.length = some 0 := by decide
    rw [hok] at hnone
    exact hne (List.length_eq_zero_iff.mp (Option.some.inj hnone))

/-- The same annotation on a property. -/
def plainSchema : List (Str × Json Unit) :=
  [(lit "properties", .obj [(lit "r", regionSchema)])]

theorem uniqueKeys_plainSchema : UniqueKeys (.obj plainSchema) := by
  have hregion : UniqueKeys regionSchema := by
    refine .obj (by decide) fun m hm => ?_
    simp only [List.mem_cons, List.not_mem_nil, or_false] at hm
    rcases hm with rfl | rfl
    · exact .str _
    · exact .str _
  refine .obj (by decide) fun m hm => ?_
  rw [plainSchema, List.mem_singleton] at hm
  subst hm
  refine .obj (by decide) fun m hm => ?_
  rw [List.mem_singleton] at hm
  subst hm
  exact hregion

theorem plainSchema_covered_iff : Covered .ascii (fun _ => []) (.obj plainSchema) ↔
    ¬ Stuck .ascii (schemaVisits (.obj plainSchema)) ∧
      (Clean .ascii (schemaVisits (.obj plainSchema)) → WithinReach (.obj plainSchema)) :=
  annotations_covered_iff .ascii (fun _ => []) uniqueKeys_plainSchema (by decide)

end CosaiMcp.Protocol
