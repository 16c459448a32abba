import CosaiMcp.Protocol.ToolSchema

/-!
# The nodes that the walk visits

`walkSchema` visits the nodes of a schema one after the other (`walkSchema_eq`), each with its
depth, whether it is reached through `properties` only, and its path. Within the budget, what
`toolSchemaViolations` returns is a matter of this list: it raises at a new annotation whose type
has no hash (`Stuck`), and has nothing to report of a list that is `Clean`.
-/

namespace CosaiMcp.Protocol

open Py

variable {φ : Type}

/-! ## Visits -/

structure Visit (φ : Type) where
  node : Json φ
  depth : Nat
  viaPropertiesOnly : Bool
  path : Str

mutual

/-- The visits to a node and to all below it, in the order of the walk. -/
def visits (depth : Nat) (viaPropertiesOnly : Bool) (path : Str) : Json φ → List (Visit φ)
  | .arr js => ⟨.arr js, depth, viaPropertiesOnly, path⟩ :: visitsItems depth path 0 js
  | .obj ms =>
    ⟨.obj ms, depth, viaPropertiesOnly, path⟩ :: visitsMembers depth viaPropertiesOnly path ms
  | .null => [⟨.null, depth, viaPropertiesOnly, path⟩]
  | .bool b => [⟨.bool b, depth, viaPropertiesOnly, path⟩]
  | .int n => [⟨.int n, depth, viaPropertiesOnly, path⟩]
  | .float x => [⟨.float x, depth, viaPropertiesOnly, path⟩]
  | .nan => [⟨.nan, depth, viaPropertiesOnly, path⟩]
  | .str s => [⟨.str s, depth, viaPropertiesOnly, path⟩]

def visitsItems (depth : Nat) (path : Str) (i : Nat) : List (Json φ) → List (Visit φ)
  | [] => []
  | j :: js =>
    visits (depth + 1) false (path ++ lit "[" ++ natText i ++ lit "]") j ++
      visitsItems depth path (i + 1) js

def visitsMembers (depth : Nat) (viaPropertiesOnly : Bool) (path : Str) :
    List (Str × Json φ) → List (Visit φ)
  | [] => []
  | (key, value) :: ms =>
    (if key = lit "properties" ∧ isObject value = true then
      visitsMap depth viaPropertiesOnly (path ++ lit "/properties/") value
    else if isContainer value = true then
      visits (depth + 1) false (path ++ lit "/" ++ key) value
    else []) ++ visitsMembers depth viaPropertiesOnly path ms

def visitsMap (depth : Nat) (viaPropertiesOnly : Bool) (path : Str) : Json φ → List (Visit φ)
  | .obj props => visitsProperties depth viaPropertiesOnly path props
  | .null | .bool _ | .int _ | .float _ | .nan | .str _ | .arr _ => []

def visitsProperties (depth : Nat) (viaPropertiesOnly : Bool) (path : Str) :
    List (Str × Json φ) → List (Visit φ)
  | [] => []
  | (prop, sub) :: props =>
    visits (depth + 1) viaPropertiesOnly (path ++ prop) sub ++
      visitsProperties depth viaPropertiesOnly path props

end

section Walk

variable (U : UnicodeData) (repr : Json φ → Str)

/-- One visit. -/
def WalkState.visit (st : WalkState) (v : Visit φ) : Except PyError WalkState :=
  if st.nodes > maxSchemaNodes then .ok st
  else if isObject v.node = true then
    inspect U repr v.node v.viaPropertiesOnly v.path (st.enter v.depth)
  else .ok (st.enter v.depth)

variable {U repr}

/-- Once the budget is spent, nothing happens any more. -/
theorem foldlM_visit_of_spent {st : WalkState} (h : st.nodes > maxSchemaNodes)
    (vs : List (Visit φ)) : vs.foldlM (WalkState.visit U repr) st = .ok st := by
  induction vs with
  | nil => rfl
  | cons v vs ih =>
    rw [List.foldlM_cons, WalkState.visit, if_pos h]
    exact ih

theorem walkProperties_eq {props : List (Str × Json φ)}
    (h : ∀ m ∈ props, ∀ depth via path st, walkSchema U repr depth via path st m.2 =
      (visits depth via path m.2).foldlM (WalkState.visit U repr) st)
    (depth : Nat) (via : Bool) (path : Str) (st : WalkState) :
    walkProperties U repr depth via path st props =
      (visitsProperties depth via path props).foldlM (WalkState.visit U repr) st := by
  induction props generalizing st with
  | nil => rfl
  | cons m props ih =>
    obtain ⟨prop, sub⟩ := m
    obtain ⟨hm, hprops⟩ := List.forall_mem_cons.mp h
    rw [walkProperties, visitsProperties, List.foldlM_append, hm]
    exact bind_congr fun st => ih hprops st

theorem walkItems_eq {js : List (Json φ)}
    (h : ∀ j ∈ js, ∀ depth via path st, walkSchema U repr depth via path st j =
      (visits depth via path j).foldlM (WalkState.visit U repr) st)
    (depth : Nat) (path : Str) (i : Nat) (st : WalkState) :
    walkItems U repr depth path i st js =
      (visitsItems depth path i js).foldlM (WalkState.visit U repr) st := by
  induction js generalizing st i with
  | nil => rfl
  | cons j js ih =>
    obtain ⟨hj, hjs⟩ := List.forall_mem_cons.mp h
    rw [walkItems, visitsItems, List.foldlM_append, hj]
    exact bind_congr fun st => ih hjs (i + 1) st

theorem walkMembers_eq {ms : List (Str × Json φ)}
    (h : ∀ m ∈ ms, (∀ depth via path st, walkSchema U repr depth via path st m.2 =
        (visits depth via path m.2).foldlM (WalkState.visit U repr) st) ∧
      ∀ depth via path st, walkMap U repr depth via path st m.2 =
        (visitsMap depth via path m.2).foldlM (WalkState.visit U repr) st)
    (depth : Nat) (via : Bool) (path : Str) (st : WalkState) :
    walkMembers U repr depth via path st ms =
      (visitsMembers depth via path ms).foldlM (WalkState.visit U repr) st := by
  induction ms generalizing st with
  | nil => rfl
  | cons m ms ih =>
    obtain ⟨key, value⟩ := m
    obtain ⟨⟨hschema, hmap⟩, hms⟩ := List.forall_mem_cons.mp h
    rw [walkMembers, visitsMembers, List.foldlM_append]
    simp only at hschema hmap
    split
    · rw [hmap]
      exact bind_congr fun st => ih hms st
    · split
      · rw [hschema]
        exact bind_congr fun st => ih hms st
      · rw [List.foldlM_nil]
        exact bind_congr fun st => ih hms st

variable (U repr) in
/-- A value may be walked over as a schema, or as a map of properties. -/
structure WalksAsVisits (j : Json φ) : Prop where
  schema : ∀ depth via path st, walkSchema U repr depth via path st j =
    (visits depth via path j).foldlM (WalkState.visit U repr) st
  map : ∀ depth via path st, walkMap U repr depth via path st j =
    (visitsMap depth via path j).foldlM (WalkState.visit U repr) st

theorem walksAsVisits_scalar {j : Json φ} (hj : isContainer j = false) :
    WalksAsVisits U repr j := by
  cases j with
  | arr js => cases hj
  | obj ms => cases hj
  | _ =>
    refine ⟨fun depth via path st => ?_, fun _ _ _ _ => rfl⟩
    rw [walkSchema, visits, List.foldlM_cons, WalkState.visit]
    split <;> rfl

theorem walksAsVisits (j : Json φ) : WalksAsVisits U repr j := by
  induction j using Json.induct with
  | obj ms ih =>
    refine ⟨fun depth via path st => ?_, fun depth via path st => ?_⟩
    · rw [walkSchema, visits, List.foldlM_cons, WalkState.visit]
      split
      · next hspent => exact (foldlM_visit_of_spent hspent _).symm
      · have hobject : isObject (Json.obj ms) = true := rfl
        simp only [hobject, if_true]
        exact bind_congr fun st =>
          walkMembers_eq (fun m hm => ⟨(ih m hm).schema, (ih m hm).map⟩) depth via path st
    · rw [walkMap, visitsMap]
      exact walkProperties_eq (fun m hm => (ih m hm).schema) depth via path st
  | arr js ih =>
    refine ⟨fun depth via path st => ?_, fun _ _ _ _ => rfl⟩
    rw [walkSchema, visits, List.foldlM_cons, WalkState.visit]
    split
    · next hspent => exact (foldlM_visit_of_spent hspent _).symm
    · exact walkItems_eq (fun j hj => (ih j hj).schema) depth path 0 _
  | null => exact walksAsVisits_scalar rfl
  | bool b => exact walksAsVisits_scalar rfl
  | int n => exact walksAsVisits_scalar rfl
  | float x => exact walksAsVisits_scalar rfl
  | nan => exact walksAsVisits_scalar rfl
  | str s => exact walksAsVisits_scalar rfl

/-- The walk is one visit after the other. -/
theorem walkSchema_eq (j : Json φ) (depth : Nat) (via : Bool) (path : Str) (st : WalkState) :
    walkSchema U repr depth via path st j =
      (visits depth via path j).foldlM (WalkState.visit U repr) st :=
  (walksAsVisits j).schema depth via path st

/-! ## What a visit reports -/

def annotationOf (v : Visit φ) : Json φ := v.node.getOrNull (lit "x-mcp-header")

def typeOf (v : Visit φ) : Json φ := annotatedType (v.node.getOrNull (lit "type"))

def headerName? (v : Visit φ) : Option Str := (annotationOf v).asStr?

variable (U) in
/-- The names that visits leave behind, in lower case. -/
def lowerNames (vs : List (Visit φ)) : List Str := (vs.filterMap headerName?).map U.lower

variable (U) in
/-- There is nothing to report of a visit after those before. -/
structure Good (before : List (Visit φ)) (v : Visit φ) : Prop where
  ref : refViolations v.node v.path = []
  annotated : annotationOf v ≠ .null → ∃ name, annotationOf v = .str name ∧
    isToken name = true ∧ U.lower name ∉ lowerNames U before ∧ isHeaderType (typeOf v) = true ∧
    v.viaPropertiesOnly = true

variable (U) in
/-- The annotation is new, and its type has no hash. -/
def Unhashable (before : List (Visit φ)) (v : Visit φ) : Prop :=
  ∃ name, annotationOf v = .str name ∧ isToken name = true ∧
    U.lower name ∉ lowerNames U before ∧ (typeOf v).hashable = false

variable (U) in
/-- Nothing to report of any visit. -/
def AllGood (vs : List (Visit φ)) : Prop :=
  ∀ before v after, vs = before ++ v :: after → Good U before v

variable (U) in
/-- Some visit raises. -/
def Stuck (vs : List (Visit φ)) : Prop :=
  ∃ before v after, vs = before ++ v :: after ∧ Unhashable U before v

theorem isHeaderType_of_not_hashable {typ : Json φ} (h : typ.hashable = false) :
    isHeaderType typ = false := by
  cases typ with
  | str s => cases h
  | _ => rfl

/-- What is wrong with an annotation of a text. -/
theorem annotationProblem_spec (U : UnicodeData) (repr : Json φ → Str) (seen : List Str)
    (name : Str) (typ : Json φ) (via : Bool) :
    (annotationProblem U repr seen (.str name) typ via = .error .typeError ∧
      isToken name = true ∧ U.lower name ∉ seen ∧ typ.hashable = false) ∨
    ∃ problem, annotationProblem U repr seen (.str name) typ via = .ok problem ∧
      ¬ (isToken name = true ∧ U.lower name ∉ seen ∧ typ.hashable = false) ∧
      (problem = none ↔ isToken name = true ∧ U.lower name ∉ seen ∧ isHeaderType typ = true ∧
        via = true) := by
  unfold annotationProblem
  simp only
  by_cases htoken : isToken name = true
  · rw [if_neg (by simp [htoken])]
    by_cases hseen : U.lower name ∈ seen
    · rw [if_pos hseen]
      exact .inr ⟨_, rfl, fun h => h.2.1 hseen, iff_of_false nofun fun h => h.2.1 hseen⟩
    · rw [if_neg hseen]
      by_cases hhash : typ.hashable = false
      · rw [if_pos hhash]
        exact .inl ⟨rfl, htoken, hseen, hhash⟩
      · rw [if_neg hhash]
        refine .inr ?_
        by_cases htype : isHeaderType typ = true
        · rw [if_neg (by simp [htype])]
          cases via with
          | true =>
            exact ⟨_, rfl, fun h => hhash h.2.2, iff_of_true rfl ⟨htoken, hseen, htype, rfl⟩⟩
          | false => exact ⟨_, rfl, fun h => hhash h.2.2, iff_of_false nofun nofun⟩
        · rw [if_pos (by simp [htype])]
          exact ⟨_, rfl, fun h => hhash h.2.2, iff_of_false nofun fun h => htype h.2.2.1⟩
  · rw [if_pos (by simp [htoken])]
    exact .inr ⟨_, rfl, fun h => htoken h.1, iff_of_false nofun fun h => htoken h.1⟩

variable (U) in
/-- The state after some visits within the budget. -/
structure Reached (before : List (Visit φ)) (st : WalkState) : Prop where
  nodes : st.nodes = before.length
  depth : ∀ k, st.maxDepth ≤ k ↔ ∀ v ∈ before, v.depth ≤ k
  names : st.headerNames = (lowerNames U before).reverse
  violations : st.violations = [] ↔ AllGood U before

theorem allGood_concat {before : List (Visit φ)} {v : Visit φ} :
    AllGood U (before ++ [v]) ↔ AllGood U before ∧ Good U before v := by
  constructor
  · intro h
    refine ⟨fun pre w post heq => h pre w (post ++ [v]) ?_, h before v [] rfl⟩
    rw [heq, List.append_assoc, List.cons_append]
  · rintro ⟨hbefore, hv⟩ pre w post heq
    rcases List.eq_nil_or_concat post with rfl | ⟨post, x, rfl⟩
    · obtain ⟨rfl, hw⟩ := List.append_inj' heq rfl
      cases hw
      exact hv
    · rw [List.concat_eq_append, ← List.cons_append, ← List.append_assoc] at heq
      obtain ⟨rfl, -⟩ := List.append_inj' heq rfl
      exact hbefore pre w post rfl

theorem lowerNames_concat (before : List (Visit φ)) (v : Visit φ) :
    lowerNames U (before ++ [v]) = lowerNames U before ++ (headerName? v).toList.map U.lower := by
  unfold lowerNames
  rw [List.filterMap_append, List.map_append]
  cases hname : headerName? v with
  | none => simp [hname]
  | some name => simp [hname]

/-- A state that counts one more visit, and reports as the visit is good. -/
theorem Reached.concat {before : List (Visit φ)} {st st' : WalkState} (h : Reached U before st)
    (v : Visit φ) (hnodes : st'.nodes = st.nodes + 1)
    (hdepth : st'.maxDepth = max st.maxDepth v.depth)
    (hnames : st'.headerNames = (headerName? v).toList.map U.lower ++ st.headerNames)
    (hviolations : st'.violations = [] ↔ st.violations = [] ∧ Good U before v) :
    Reached U (before ++ [v]) st' := by
  refine ⟨?_, fun k => ?_, ?_, ?_⟩
  · rw [hnodes, h.nodes, List.length_append, List.length_singleton]
  · rw [hdepth, Nat.max_le, h.depth k, List.forall_mem_append, List.forall_mem_singleton]
  · rw [hnames, h.names, lowerNames_concat, List.reverse_append]
    cases headerName? v <;> rfl
  · rw [hviolations, h.violations, allGood_concat]

theorem good_of_not_object (U : UnicodeData) (before : List (Visit φ)) {v : Visit φ}
    (hv : isObject v.node = false) :
    Good U before v ∧ annotationOf v = .null := by
  have hget (key : Str) : v.node.get? key = none := by
    cases hnode : v.node with
    | obj ms =>
      rw [hnode] at hv
      cases hv
    | _ => rfl
  have hann : annotationOf v = .null := by
    rw [annotationOf, Json.getOrNull, hget]
    rfl
  refine ⟨⟨?_, fun hne => absurd hann hne⟩, hann⟩
  rw [refViolations, hget]

theorem unhashable_iff_of_str {before : List (Visit φ)} {v : Visit φ} {name : Str}
    (h : annotationOf v = .str name) : Unhashable U before v ↔ isToken name = true ∧
      U.lower name ∉ lowerNames U before ∧ (typeOf v).hashable = false := by
  constructor
  · rintro ⟨name', hname', hrest⟩
    cases h.symm.trans hname'
    exact hrest
  · exact fun hrest => ⟨name, h, hrest⟩

theorem good_iff_of_str {before : List (Visit φ)} {v : Visit φ} {name : Str}
    (h : annotationOf v = .str name) : Good U before v ↔ refViolations v.node v.path = [] ∧
      isToken name = true ∧ U.lower name ∉ lowerNames U before ∧ isHeaderType (typeOf v) = true ∧
        v.viaPropertiesOnly = true := by
  constructor
  · rintro ⟨href, hann⟩
    obtain ⟨name', hname', hrest⟩ := hann (by rw [h]; nofun)
    cases h.symm.trans hname'
    exact ⟨href, hrest⟩
  · exact fun hrest => ⟨hrest.1, fun _ => ⟨name, h, hrest.2⟩⟩

/-- One visit within the budget. -/
theorem Reached.visit (repr : Json φ → Str) {before : List (Visit φ)} {st : WalkState}
    (h : Reached U before st) (hbudget : before.length ≤ maxSchemaNodes) (v : Visit φ) :
    (st.visit U repr v = .error .typeError ∧ Unhashable U before v) ∨
      ∃ st', st.visit U repr v = .ok st' ∧ ¬ Unhashable U before v ∧
        Reached U (before ++ [v]) st' := by
  have hspent : ¬ st.nodes > maxSchemaNodes := by
    rw [h.nodes]
    omega
  have hseen (name : Str) : U.lower name ∈ st.headerNames ↔ U.lower name ∈ lowerNames U before := by
    rw [h.names, List.mem_reverse]
  unfold WalkState.visit
  rw [if_neg hspent]
  by_cases hobject : isObject v.node = true
  · rw [if_pos hobject]
    unfold inspect
    simp only
    cases hann : v.node.getOrNull (lit "x-mcp-header") with
    | null =>
      have hnone : annotationOf v = .null := hann
      have hname : headerName? v = none := by rw [headerName?, hnone]; rfl
      refine .inr ⟨_, rfl, ?_, h.concat v rfl rfl ?_ ?_⟩
      · rintro ⟨name, hname, -⟩
        cases hnone.symm.trans hname
      · rw [hname]
        rfl
      · simp only [WalkState.enter, List.append_eq_nil_iff]
        exact and_congr_right fun _ => ⟨fun href => ⟨href, fun hne => absurd hnone hne⟩, (·.ref)⟩
    | str name =>
      have hsome : annotationOf v = .str name := hann
      have hname : headerName? v = some name := by rw [headerName?, hsome]; rfl
      have hunhashable : Unhashable U before v ↔ isToken name = true ∧
          U.lower name ∉ st.headerNames ∧ (typeOf v).hashable = false := by
        rw [hseen]
        exact unhashable_iff_of_str hsome
      rcases annotationProblem_spec U repr st.headerNames name (typeOf v) v.viaPropertiesOnly with
        ⟨hraises, hstuck⟩ | ⟨problem, hproblem, hfine, hnone⟩
      · refine .inl ⟨?_, hunhashable.mpr hstuck⟩
        have hcall : annotationProblem U repr (st.enter v.depth).headerNames (.str name)
            (annotatedType (v.node.getOrNull (lit "type"))) v.viaPropertiesOnly =
              .error .typeError := hraises
        simp only [hcall]
        rfl
      · have hcall : annotationProblem U repr (st.enter v.depth).headerNames (.str name)
            (annotatedType (v.node.getOrNull (lit "type"))) v.viaPropertiesOnly =
              .ok problem := hproblem
        simp only [hcall]
        refine .inr ⟨_, rfl, fun hstuck => hfine (hunhashable.mp hstuck), h.concat v rfl rfl ?_ ?_⟩
        · rw [hname]
          rfl
        · rw [good_iff_of_str hsome, ← hseen, ← hnone]
          cases problem with
          | none => simp [WalkState.enter]
          | some problem => simp
    | _ =>
      -- an annotation that is no text is always reported
      have hname : headerName? v = none := by rw [headerName?, annotationOf, hann]; rfl
      have hother (name : Str) : annotationOf v ≠ .str name := by
        rw [annotationOf, hann]
        nofun
      refine .inr ⟨_, rfl, fun ⟨name, hstr, _⟩ => hother name hstr, h.concat v rfl rfl ?_ ?_⟩
      · rw [hname]
        rfl
      · refine iff_of_false (by simp) fun hst => ?_
        obtain ⟨name, hstr, -⟩ := hst.2.annotated (by rw [annotationOf, hann]; nofun)
        exact hother name hstr
  · rw [if_neg hobject]
    obtain ⟨hgood, hnone⟩ := good_of_not_object U before (eq_false_of_ne_true hobject)
    have hname : headerName? v = none := by rw [headerName?, hnone]; rfl
    refine .inr ⟨_, rfl, ?_, h.concat v rfl rfl ?_ ?_⟩
    · rintro ⟨name, hname, -⟩
      cases hnone.symm.trans hname
    · rw [hname]
      rfl
    · exact ⟨fun hst => ⟨hst, hgood⟩, fun hst => hst.1⟩

/-! ## What the walk reports -/

/-- A run of visits within the budget. -/
theorem Reached.foldlM (repr : Json φ → Str) {before vs : List (Visit φ)} {st : WalkState}
    (h : Reached U before st) (hbudget : (before ++ vs).length ≤ maxSchemaNodes + 1)
    (hfine : ¬ Stuck U before) :
    (vs.foldlM (WalkState.visit U repr) st = .error .typeError ∧ Stuck U (before ++ vs)) ∨
      ∃ st', vs.foldlM (WalkState.visit U repr) st = .ok st' ∧ ¬ Stuck U (before ++ vs) ∧
        Reached U (before ++ vs) st' := by
  induction vs generalizing before st with
  | nil =>
    rw [List.append_nil]
    exact .inr ⟨st, rfl, hfine, h⟩
  | cons v vs ih =>
    rw [List.length_append, List.length_cons] at hbudget
    rw [List.foldlM_cons]
    rcases h.visit repr (by omega) v with ⟨hraises, hstuck⟩ | ⟨st', hvisit, hunstuck, h'⟩
    · rw [hraises]
      exact .inl ⟨rfl, before, v, vs, rfl, hstuck⟩
    · rw [hvisit]
      have hfine' : ¬ Stuck U (before ++ [v]) := by
        rintro ⟨pre, w, post, heq, hw⟩
        rcases List.eq_nil_or_concat post with rfl | ⟨post, x, rfl⟩
        · obtain ⟨rfl, hw'⟩ := List.append_inj' heq rfl
          cases hw'
          exact hunstuck hw
        · rw [List.concat_eq_append, ← List.cons_append, ← List.append_assoc] at heq
          obtain ⟨rfl, -⟩ := List.append_inj' heq rfl
          exact hfine ⟨pre, w, post, rfl, hw⟩
      have hlength : (before ++ [v] ++ vs).length ≤ maxSchemaNodes + 1 := by
        simp only [List.length_append, List.length_singleton]
        omega
      have hrest := ih h' hlength hfine'
      rw [List.append_assoc, List.singleton_append] at hrest
      exact hrest

theorem reached_nil : Reached U ([] : List (Visit φ)) ⟨0, 0, [], []⟩ := by
  refine ⟨rfl, fun k => ?_, rfl, iff_of_true rfl ?_⟩
  · exact iff_of_true (Nat.zero_le k) fun _ hv => nomatch hv
  · intro before v after h
    cases before <;> cases h

theorem not_stuck_nil : ¬ Stuck U ([] : List (Visit φ)) := by
  rintro ⟨before, v, after, h, -⟩
  cases before <;> cases h

/-- The visits of a schema. -/
def schemaVisits (schema : Json φ) : List (Visit φ) := visits 0 true [] schema

variable (U) in
/-- No schema is too deep, and there is nothing to report of any visit. -/
structure Clean (vs : List (Visit φ)) : Prop where
  shallow : ∀ v ∈ vs, v.depth ≤ maxSchemaDepth
  good : AllGood U vs

/-- `toolSchemaViolations` raises just where one of the visits within the budget does. -/
theorem toolSchemaViolations_eq_ok_iff (U : UnicodeData) (repr : Json φ → Str)
    (ms : List (Str × Json φ)) :
    (∃ violations, toolSchemaViolations U repr (.obj ms) = .ok violations) ↔
      ¬ Stuck U ((schemaVisits (.obj ms)).take (maxSchemaNodes + 1)) := by
  have hlength : ([] ++ (schemaVisits (.obj ms)).take (maxSchemaNodes + 1)).length ≤
      maxSchemaNodes + 1 := List.length_take_le _ _
  have hrun := (reached_nil (U := U)).foldlM repr hlength not_stuck_nil
  rw [List.nil_append] at hrun
  have hwalk : walkSchema U repr 0 true [] ⟨0, 0, [], []⟩ (.obj ms) =
      ((schemaVisits (.obj ms)).take (maxSchemaNodes + 1)).foldlM (WalkState.visit U repr)
        ⟨0, 0, [], []⟩ >>= fun st =>
          ((schemaVisits (.obj ms)).drop (maxSchemaNodes + 1)).foldlM
            (WalkState.visit U repr) st := by
    rw [walkSchema_eq, ← List.foldlM_append, List.take_append_drop]
    rfl
  unfold toolSchemaViolations
  simp only
  rw [hwalk]
  rcases hrun with ⟨hraises, hstuck⟩ | ⟨st, htake, hunstuck, h⟩
  · rw [hraises]
    exact iff_of_false (fun ⟨_, h⟩ => nomatch h) (not_not_intro hstuck)
  · refine iff_of_true ?_ hunstuck
    have hdrop : ((schemaVisits (.obj ms)).drop (maxSchemaNodes + 1)).foldlM
        (WalkState.visit U repr) st = .ok st := by
      rcases Nat.lt_or_ge (maxSchemaNodes + 1) (schemaVisits (.obj ms)).length with hlong | hshort
      · apply foldlM_visit_of_spent
        rw [h.nodes, List.length_take, Nat.min_eq_left (Nat.le_of_lt hlong)]
        exact Nat.lt_succ_self _
      · rw [List.drop_eq_nil_of_le hshort]
        rfl
    rw [htake]
    simp only [Py.ok_bind, hdrop]
    exact ⟨_, rfl⟩

/-- What `toolSchemaViolations` says of an object within the budget. -/
theorem toolSchemaViolations_spec (U : UnicodeData) (repr : Json φ → Str)
    (ms : List (Str × Json φ)) (hbudget : (schemaVisits (.obj ms)).length ≤ maxSchemaNodes) :
    (toolSchemaViolations U repr (.obj ms) = .error .typeError ∧
      Stuck U (schemaVisits (.obj ms))) ∨
    ∃ violations, toolSchemaViolations U repr (.obj ms) = .ok violations ∧
      ¬ Stuck U (schemaVisits (.obj ms)) ∧
      (violations = [] ↔ Clean U (schemaVisits (.obj ms))) := by
  have hlength : ([] ++ schemaVisits (.obj ms)).length ≤ maxSchemaNodes + 1 :=
    Nat.le_succ_of_le hbudget
  have hrun := (reached_nil (U := U)).foldlM repr hlength not_stuck_nil
  rw [List.nil_append] at hrun
  unfold toolSchemaViolations
  simp only
  rw [walkSchema_eq]
  rcases hrun with ⟨hraises, hstuck⟩ | ⟨st, hwalk, hunstuck, h⟩
  · refine .inl ⟨?_, hstuck⟩
    rw [schemaVisits] at hraises
    rw [hraises]
    rfl
  · refine .inr ?_
    rw [schemaVisits] at hwalk
    rw [hwalk]
    refine ⟨_, rfl, hunstuck, ?_⟩
    have hnodes : ¬ st.nodes > maxSchemaNodes := by
      rw [h.nodes]
      omega
    have hdepth : (∀ v ∈ schemaVisits (.obj ms), v.depth ≤ maxSchemaDepth) ↔
        ¬ st.maxDepth > maxSchemaDepth := by
      rw [← h.depth, not_lt]
    rw [if_neg hnodes, List.append_nil, List.append_eq_nil_iff, h.violations]
    constructor
    · rintro ⟨hgood, hshallow⟩
      refine ⟨hdepth.mpr fun hdeep => ?_, hgood⟩
      rw [if_pos hdeep] at hshallow
      cases hshallow
    · rintro ⟨hshallow, hgood⟩
      exact ⟨hgood, if_neg (hdepth.mp hshallow)⟩

end Walk

end CosaiMcp.Protocol
