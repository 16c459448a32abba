import CosaiMcp.Middleware.Boundary.Detector

/-!
# Which descriptions the detector reads

`scan` reads the description of a tool, and in its schema those that are reached through
`properties` alone (`Walked`). A subschema may also stand under other keywords (`Subschema`), where
a description is not read; and a schema on the way whose `properties` is no object stops the scan.
-/

namespace CosaiMcp.Middleware.Boundary

open Py

variable {φ : Type} {E : Engine φ}

/-! ## Matches -/

variable (E) in
/-- One of the patterns is found in some variant of the text. -/
def Matches (patterns : List Str) (text : Str) : Prop :=
  ∃ pattern ∈ patterns, ∃ variant ∈ detectionVariants E text,
    (E.search pattern variant).isSome = true

theorem check_ne_nil_iff (E : Engine φ) (text location : Str) (patterns : List Str) :
    check E text location patterns ≠ [] ↔ Matches E patterns text := by
  unfold check Matches
  rw [Ne, List.filterMap_eq_nil_iff]
  simp only [not_forall, List.findSome?_eq_none_iff, Option.map_eq_none_iff]
  constructor
  · rintro ⟨pattern, hpattern, variant, hvariant, hfound⟩
    exact ⟨pattern, hpattern, variant, hvariant, Option.isSome_iff_ne_none.mpr hfound⟩
  · rintro ⟨pattern, hpattern, variant, hvariant, hfound⟩
    exact ⟨pattern, hpattern, variant, hvariant, Option.isSome_iff_ne_none.mp hfound⟩

theorem detectionVariants_nil : detectionVariants E [] = [] := by
  have hfold : normalizeUnicode E [] = [] := by
    rw [normalizeUnicode, E.nfkc_nil]
    rfl
  have hfragments : decodeEncodedFragments E [] = [] := rfl
  unfold detectionVariants
  simp only [decodeTagChars, List.flatMap_nil, List.flatMap_cons, hfold, hfragments]
  rfl

/-- There is nothing to find in an empty text. -/
theorem not_matches_nil {patterns : List Str} : ¬ Matches E patterns [] := by
  rintro ⟨_, -, variant, hvariant, -⟩
  rw [detectionVariants_nil] at hvariant
  cases hvariant

/-! ## Subschemas -/

/-- The keywords of a schema whose value maps names to schemas. -/
def mapKeywords : List Str := [lit "properties", lit "$defs", lit "definitions"]

/-- The keywords whose value may be a schema. -/
def schemaKeywords : List Str := [lit "items", lit "additionalProperties"]

/-- The keywords whose value may be a list of schemas. -/
def listKeywords : List Str := [lit "items", lit "anyOf", lit "oneOf", lit "allOf"]

/-- The values of an object. -/
def valuesOf : Json φ → List (Json φ)
  | .obj ms => ms.map Prod.snd
  | _ => []

def itemsOf : Json φ → List (Json φ)
  | .arr js => js
  | _ => []

/-- The schemas that stand directly under a keyword of the schema. -/
def children (s : Json φ) : List (Json φ) :=
  (mapKeywords.filterMap s.get?).flatMap valuesOf ++ schemaKeywords.filterMap s.get? ++
    (listKeywords.filterMap s.get?).flatMap itemsOf

/-- `t` is a subschema of `s`, at any depth. -/
inductive Subschema : Json φ → Json φ → Prop
  | self (s : Json φ) : Subschema s s
  | under {s c t : Json φ} (hc : c ∈ children s) (ht : Subschema c t) : Subschema s t

/-- `t` is reached from `s` through `properties` alone. -/
inductive Walked : Json φ → Json φ → Prop
  | self (s : Json φ) : Walked s s
  | property {s t : Json φ} {props : List (Str × Json φ)} {m : Str × Json φ}
      (hprops : s.get? (lit "properties") = some (.obj props)) (hm : m ∈ props)
      (ht : Walked m.2 t) : Walked s t

variable (E) in
/-- The description has one of the patterns for tool descriptions. -/
def IsPoisoned (s : Json φ) : Prop :=
  Matches E toolDescriptionPatterns (textAt E s (lit "description"))

/-- What `.items()` needs of a schema. -/
def HasProperties (s : Json φ) : Prop :=
  ∀ value, s.get? (lit "properties") = some value → ∃ props, value = .obj props

/-! ## The walk over a schema -/

/-- What a walk over schemas gives: an error if one of them stops it, and otherwise findings if one
of them is poisoned. -/
def WalkSpec (stops poisoned : Prop) : Except PyError (List InjectionFinding) → Prop
  | .error _ => stops
  | .ok findings => ¬ stops ∧ (findings ≠ [] ↔ poisoned)

/-- Some schema that is reached from `s` has no `properties` to loop over. -/
def Stops (s : Json φ) : Prop := ∃ t, Walked s t ∧ ¬ HasProperties t

variable (E) in
/-- Some schema that is reached from `s` is poisoned. -/
def WalkPoisoned (s : Json φ) : Prop := ∃ t, Walked s t ∧ IsPoisoned E t

/-- Findings of two walks, one after the other. -/
theorem WalkSpec.append {stops stops' poisoned poisoned' : Prop}
    {x y : Except PyError (List InjectionFinding)} (hx : WalkSpec stops poisoned x)
    (hy : WalkSpec stops' poisoned' y) :
    WalkSpec (stops ∨ stops') (poisoned ∨ poisoned')
      (do let findings ← x; let rest ← y; .ok (findings ++ rest)) := by
  cases x with
  | error e => exact .inl hx
  | ok findings =>
    cases y with
    | error e => exact .inr hy
    | ok rest =>
      refine ⟨fun h => h.elim hx.1 hy.1, ?_⟩
      rw [← hx.2, ← hy.2, Ne, List.append_eq_nil_iff]
      tauto

theorem scanProperties_eq (location : Str) (ms : List (Str × Json φ)) :
    scanProperties E location ms =
      match (Json.obj ms).get? (lit "properties") with
      | none => .ok []
      | some value => scanItems E location value := by
  induction ms with
  | nil => rfl
  | cons m ms ih =>
    obtain ⟨key, value⟩ := m
    rw [scanProperties, Json.get?_cons]
    by_cases hkey : key = lit "properties"
    · rw [if_pos hkey, if_pos hkey]
    · rw [if_neg hkey, if_neg hkey, ih]

theorem scanEntries_spec {props : List (Str × Json φ)}
    (h : ∀ m ∈ props, ∀ location, WalkSpec (Stops m.2) (WalkPoisoned E m.2)
      (scanSchema E location m.2)) (location : Str) :
    WalkSpec (∃ m ∈ props, Stops m.2) (∃ m ∈ props, WalkPoisoned E m.2)
      (scanEntries E location props) := by
  induction props with
  | nil =>
    rw [scanEntries]
    refine ⟨fun ⟨_, hm, _⟩ => List.not_mem_nil hm, ?_⟩
    simp
  | cons m props ih =>
    obtain ⟨name, sub⟩ := m
    obtain ⟨hm, hprops⟩ := List.forall_mem_cons.mp h
    have hboth := (hm (location ++ lit "." ++ name)).append (ih hprops)
    simp only [List.exists_mem_cons_iff]
    rw [scanEntries]
    exact hboth

theorem walked_iff {s t : Json φ} :
    Walked s t ↔ t = s ∨ ∃ props, s.get? (lit "properties") = some (.obj props) ∧
      ∃ m ∈ props, Walked m.2 t := by
  constructor
  · intro h
    cases h with
    | self => exact .inl rfl
    | property hprops hm ht => exact .inr ⟨_, hprops, _, hm, ht⟩
  · rintro (rfl | ⟨props, hprops, m, hm, ht⟩)
    · exact .self _
    · exact .property hprops hm ht

/-- The walk below a schema whose `properties` is an object. -/
theorem exists_walked_iff {s : Json φ} {props : List (Str × Json φ)} {P : Json φ → Prop}
    (hprops : s.get? (lit "properties") = some (.obj props)) :
    (∃ t, Walked s t ∧ P t) ↔ P s ∨ ∃ m ∈ props, ∃ t, Walked m.2 t ∧ P t := by
  constructor
  · rintro ⟨t, ht, hP⟩
    rcases walked_iff.mp ht with rfl | ⟨props', hprops', m, hm, ht⟩
    · exact .inl hP
    · cases hprops.symm.trans hprops'
      exact .inr ⟨m, hm, t, ht, hP⟩
  · rintro (hP | ⟨m, hm, t, ht, hP⟩)
    · exact ⟨s, .self s, hP⟩
    · exact ⟨t, .property hprops hm ht, hP⟩

theorem exists_walked_iff_self {s : Json φ} {P : Json φ → Prop}
    (hprops : ∀ props, s.get? (lit "properties") ≠ some (.obj props)) :
    (∃ t, Walked s t ∧ P t) ↔ P s := by
  constructor
  · rintro ⟨t, ht, hP⟩
    rcases walked_iff.mp ht with rfl | ⟨props, hprops', -⟩
    · exact hP
    · exact absurd hprops' (hprops props)
  · exact fun hP => ⟨s, .self s, hP⟩

/-- The findings about the description of a schema itself. -/
theorem own_findings (E : Engine φ) (s : Json φ) (location : Str) :
    (if textAt E s (lit "description") = [] then []
      else check E (textAt E s (lit "description")) location toolDescriptionPatterns) ≠ [] ↔
        IsPoisoned E s := by
  unfold IsPoisoned
  split
  · next hempty =>
    rw [hempty]
    exact iff_of_false (fun h => h rfl) not_matches_nil
  · exact check_ne_nil_iff E _ _ _

/-- A value that is no object is no schema: the walk passes it by. -/
theorem scanSchema_spec_of_not_object {s : Json φ} (hs : ∀ ms, s ≠ .obj ms) :
    (∀ location, scanSchema E location s = .ok []) → ∀ location,
      WalkSpec (Stops s) (WalkPoisoned E s) (scanSchema E location s) := by
  intro hscan location
  have hget (key : Str) : s.get? key = none := by
    cases s with
    | obj ms => exact absurd rfl (hs ms)
    | _ => rfl
  have hprops (props : List (Str × Json φ)) : s.get? (lit "properties") ≠ some (.obj props) := by
    rw [hget]
    nofun
  have hdescription : textAt E s (lit "description") = [] := by
    rw [textAt, hget, Option.getD_none, E.str_str]
  have hstops : ¬ Stops s := by
    rw [Stops, exists_walked_iff_self hprops]
    refine fun h => h fun value hvalue => ?_
    rw [hget] at hvalue
    cases hvalue
  have hpoisoned : ¬ WalkPoisoned E s := by
    rw [WalkPoisoned, exists_walked_iff_self hprops, IsPoisoned, hdescription]
    exact not_matches_nil
  rw [hscan]
  exact ⟨hstops, iff_of_false (fun h => h rfl) hpoisoned⟩

/-- One schema, if the walks over the schemas below it are as they should be. -/
theorem scanSchema_spec_of_members {ms : List (Str × Json φ)}
    (h : ∀ props, (Json.obj ms).get? (lit "properties") = some (.obj props) → ∀ m ∈ props,
      ∀ location, WalkSpec (Stops m.2) (WalkPoisoned E m.2) (scanSchema E location m.2))
    (location : Str) :
    WalkSpec (Stops (.obj ms)) (WalkPoisoned E (.obj ms)) (scanSchema E location (.obj ms)) := by
  have hown := own_findings E (.obj ms) (location ++ lit ":description")
  rw [scanSchema, scanProperties_eq]
  generalize hfindings : (if textAt E (.obj ms) (lit "description") = [] then []
    else check E (textAt E (.obj ms) (lit "description")) (location ++ lit ":description")
      toolDescriptionPatterns) = findings at hown ⊢
  cases hprops : (Json.obj ms).get? (lit "properties") with
  | none =>
    have hnone (props : List (Str × Json φ)) :
        (Json.obj ms).get? (lit "properties") ≠ some (.obj props) := by
      rw [hprops]
      nofun
    rw [Stops, exists_walked_iff_self hnone, WalkPoisoned, exists_walked_iff_self hnone]
    refine ⟨fun h => h fun value hvalue => ?_, ?_⟩
    · rw [hprops] at hvalue
      cases hvalue
    · rw [List.append_nil]
      exact hown
  | some value =>
    by_cases hobject : ∃ props, value = .obj props
    · obtain ⟨props, rfl⟩ := hobject
      rw [Stops, exists_walked_iff hprops, WalkPoisoned, exists_walked_iff hprops]
      have hself : ¬ ¬ HasProperties (.obj ms) := by
        refine fun h => h fun value hvalue => ?_
        rw [hprops] at hvalue
        cases hvalue
        exact ⟨props, rfl⟩
      have hnested := scanEntries_spec (h props hprops) location
      have hfirst : WalkSpec (¬ HasProperties (.obj ms)) (IsPoisoned E (.obj ms)) (.ok findings) :=
        ⟨hself, hown⟩
      exact hfirst.append hnested
    · -- the loop needs an object
      have hstops : Stops (.obj ms) :=
        ⟨_, .self _, fun h => hobject (h value hprops)⟩
      cases value with
      | obj props => exact absurd ⟨props, rfl⟩ hobject
      | _ => exact hstops

theorem scanSchema_spec (s : Json φ) (location : Str) :
    WalkSpec (Stops s) (WalkPoisoned E s) (scanSchema E location s) := by
  -- the induction also covers the members of a value, which may be a map of properties
  have hboth : (∀ location, WalkSpec (Stops s) (WalkPoisoned E s) (scanSchema E location s)) ∧
      ∀ ms, s = .obj ms → ∀ m ∈ ms, ∀ location,
        WalkSpec (Stops m.2) (WalkPoisoned E m.2) (scanSchema E location m.2) := by
    induction s using Json.induct with
    | obj ms ih =>
      refine ⟨scanSchema_spec_of_members fun props hprops => ?_, ?_⟩
      · obtain ⟨m, hm, hvalue⟩ := Option.map_eq_some_iff.mp hprops
        exact (ih m (List.mem_of_find?_eq_some hm)).2 props hvalue
      · rintro ms' hms m hm
        cases hms
        exact (ih m hm).1
    | null => exact ⟨scanSchema_spec_of_not_object nofun fun _ => rfl, nofun⟩
    | bool b => exact ⟨scanSchema_spec_of_not_object nofun fun _ => rfl, nofun⟩
    | int n => exact ⟨scanSchema_spec_of_not_object nofun fun _ => rfl, nofun⟩
    | float x => exact ⟨scanSchema_spec_of_not_object nofun fun _ => rfl, nofun⟩
    | nan => exact ⟨scanSchema_spec_of_not_object nofun fun _ => rfl, nofun⟩
    | str s => exact ⟨scanSchema_spec_of_not_object nofun fun _ => rfl, nofun⟩
    | arr js => exact ⟨scanSchema_spec_of_not_object nofun fun _ => rfl, nofun⟩
  exact hboth.1 location

/-! ## Tools -/

/-- `tool.get("inputSchema", {})`. -/
def schemaOf (tool : List (Str × Json φ)) : Json φ :=
  ((Json.obj tool).get? (lit "inputSchema")).getD (.obj [])

variable (E) in
/-- Its own description, or that of some subschema, has one of the patterns. -/
def ToolPoisoned (tool : List (Str × Json φ)) : Prop :=
  IsPoisoned E (.obj tool) ∨ ∃ s, Subschema (schemaOf tool) s ∧ IsPoisoned E s

variable (E) in
/-- Its name, its own description, or that of a schema reached through `properties` alone has one
of the patterns. -/
def ToolCaught (tool : List (Str × Json φ)) : Prop :=
  (Matches E injectionPatterns (textAt E (.obj tool) (lit "name")) ∨ IsPoisoned E (.obj tool)) ∨
    WalkPoisoned E (schemaOf tool)

theorem scanTool_spec (tool : List (Str × Json φ)) :
    WalkSpec (Stops (schemaOf tool)) (ToolCaught E tool) (scanTool E tool) := by
  have hschema := scanSchema_spec (E := E) (schemaOf tool)
    (lit "tool:" ++ textAt E (.obj tool) (lit "name") ++ lit ":schema")
  have hname := check_ne_nil_iff E (textAt E (.obj tool) (lit "name"))
    (lit "tool:" ++ textAt E (.obj tool) (lit "name") ++ lit ":name") injectionPatterns
  have hdescription := check_ne_nil_iff E (textAt E (.obj tool) (lit "description"))
    (lit "tool:" ++ textAt E (.obj tool) (lit "name") ++ lit ":description")
    toolDescriptionPatterns
  unfold scanTool
  simp only [schemaOf] at hschema ⊢
  cases hwalk : scanSchema E _ (((Json.obj tool).get? (lit "inputSchema")).getD (.obj [])) with
  | error e =>
    rw [hwalk] at hschema
    exact hschema
  | ok nested =>
    rw [hwalk] at hschema
    refine ⟨hschema.1, ?_⟩
    rw [ToolCaught, IsPoisoned, ← hname, ← hdescription]
    simp only [schemaOf]
    rw [← hschema.2]
    simp only [Ne, List.append_eq_nil_iff, Decidable.not_and_iff_not_or_not]

theorem scan_spec (tools : List (List (Str × Json φ))) :
    WalkSpec (∃ tool ∈ tools, Stops (schemaOf tool)) (∃ tool ∈ tools, ToolCaught E tool)
      (scan E tools) := by
  unfold scan
  induction tools with
  | nil =>
    refine ⟨fun ⟨_, htool, _⟩ => List.not_mem_nil htool, ?_⟩
    simp
  | cons tool tools ih =>
    have htool := scanTool_spec (E := E) tool
    rw [List.mapM_cons]
    simp only [List.exists_mem_cons_iff]
    cases hscan : scanTool E tool with
    | error e =>
      rw [hscan] at htool
      exact .inl htool
    | ok findings =>
      rw [hscan] at htool
      have hboth := htool.append ih
      cases hrest : tools.mapM (scanTool E) with
      | error e =>
        rw [hrest] at hboth
        exact hboth
      | ok rest =>
        rw [hrest] at hboth
        exact hboth

variable (E) in
/-- A scan of the tools is flagged if one of them is poisoned. -/
def Covered (tools : List (List (Str × Json φ))) : Prop :=
  (∃ tool ∈ tools, ToolPoisoned E tool) → ∃ findings, scan E tools = .ok findings ∧ findings ≠ []

/-- Poisoned tools are flagged unless no text that is read has a pattern, or some schema on the way
has no `properties` to loop over. -/
theorem covered_iff (E : Engine φ) (tools : List (List (Str × Json φ))) :
    Covered E tools ↔ (∀ tool ∈ tools, ¬ ToolPoisoned E tool) ∨
      (∀ tool ∈ tools, ∀ s, Walked (schemaOf tool) s → HasProperties s) ∧
        ∃ tool ∈ tools, ToolCaught E tool := by
  have hspec := scan_spec (E := E) tools
  have hstops : (¬ ∃ tool ∈ tools, Stops (schemaOf tool)) ↔
      ∀ tool ∈ tools, ∀ s, Walked (schemaOf tool) s → HasProperties s := by
    simp only [Stops, not_exists, not_and, not_not]
  rw [← hstops]
  have hflagged : (∃ findings, scan E tools = .ok findings ∧ findings ≠ []) ↔
      (¬ ∃ tool ∈ tools, Stops (schemaOf tool)) ∧ ∃ tool ∈ tools, ToolCaught E tool := by
    cases hscan : scan E tools with
    | error e =>
      rw [hscan] at hspec
      exact iff_of_false (fun ⟨_, h, _⟩ => nomatch h) fun h => h.1 hspec
    | ok findings =>
      rw [hscan] at hspec
      obtain ⟨hwalks, hfindings⟩ := hspec
      rw [← hfindings]
      exact ⟨fun ⟨_, h, hne⟩ => ⟨hwalks, Except.ok.inj h ▸ hne⟩, fun h => ⟨findings, rfl, h.2⟩⟩
  unfold Covered
  rw [hflagged]
  constructor
  · intro h
    by_cases hpoisoned : ∃ tool ∈ tools, ToolPoisoned E tool
    · exact .inr (h hpoisoned)
    · exact .inl fun tool htool hp => hpoisoned ⟨tool, htool, hp⟩
  · rintro (hclean | h) ⟨tool, htool, hp⟩
    · exact absurd hp (hclean tool htool)
    · exact h

/-! ## A poisoned item -/

/-- Finds a pattern that is plain text. -/
def plainEngine : Engine Unit where
  search pattern text := if pattern <:+: text then some (0, pattern.length) else none
  str
    | .str s => s
    | _ => []
  escape := id
  nfkc := id
  isPrintable _ := true
  base64Text _ := none
  hexText _ := none
  secondFirst _ _ := false
  str_str _ := rfl
  nfkc_nil := rfl

/-- A list parameter, with an instruction in the description of its items. -/
def poisonedItems : List (Str × Json Unit) :=
  [(lit "name", .str (lit "search")), (lit "inputSchema", .obj
    [(lit "properties", .obj [(lit "tags", .obj [(lit "type", .str (lit "array")),
      (lit "items", .obj [(lit "description", .str (lit "jailbreak"))])])])])]

theorem poisonedItems_missed : ¬ Covered plainEngine [poisonedItems] := by
  intro h
  have hmatch : IsPoisoned plainEngine (.obj [(lit "description", .str (lit "jailbreak"))]) :=
    ⟨lit "jailbreak", by decide, lit "jailbreak", by decide +kernel, by decide⟩
  have hsub : Subschema (schemaOf poisonedItems)
      (.obj [(lit "description", .str (lit "jailbreak"))]) := by
    refine .under (c := .obj [(lit "type", .str (lit "array")),
      (lit "items", .obj [(lit "description", .str (lit "jailbreak"))])]) ?_ (.under ?_ (.self _))
    · exact List.mem_cons_self
    · exact List.mem_cons_self
  obtain ⟨findings, hscan, hne⟩ :=
    h ⟨poisonedItems, List.mem_singleton_self _, .inr ⟨_, hsub, hmatch⟩⟩
  have hnone : (scan plainEngine [poisonedItems]).toOption.map List.length = some 0 := by
    decide +kernel
  rw [hscan] at hnone
  exact hne (List.length_eq_zero_iff.mp (Option.some.inj hnone))

end CosaiMcp.Middleware.Boundary
