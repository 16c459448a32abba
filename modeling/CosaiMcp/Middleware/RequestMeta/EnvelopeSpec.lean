import CosaiMcp.Middleware.RequestMeta.Envelope
import CosaiMcp.Py.Except
import Mathlib.Data.List.Dedup

/-!
# When an envelope is accepted

Stripped and lower-cased, the headers of a request are a list of pairs, `headerPairs`; what the
code reads from its multimap is the list of values of a name, `valuesOf` (`get?_multimapOf`). Over
these, each check of `validateRequestMetadata` has one lemma that says when it passes, and
`validateRequestMetadata_eq_ok_iff` puts them together.
-/

namespace CosaiMcp.Middleware.RequestMeta

open Py Protocol

/-! ## Headers as pairs -/

/-- A header with its name stripped and lower-cased. -/
def normalized (U : UnicodeData) : HeaderItem → Option (Str × Str)
  | .malformed => none
  | .pair k v => do
    let name ← (field k).toOption
    let value ← (field v).toOption
    some (U.lower (strip name), value)

def headerPairs (U : UnicodeData) (items : List HeaderItem) : List (Str × Str) :=
  items.filterMap (normalized U)

/-- The values of a header, in the order they came in. -/
def valuesOf (pairs : List (Str × Str)) (name : Str) : List Str :=
  pairs.filterMap fun p => if p.1 = name then some p.2 else none

/-- A header that the multimap takes: texts, and no alias of a routing header. -/
def WellFormed (U : UnicodeData) (item : HeaderItem) : Prop :=
  ∃ p, normalized U item = some p ∧ isRoutingAlias p.1 = false

def multimapOf (pairs : List (Str × Str)) : Multimap :=
  pairs.foldl (fun out p => out.add p.1 p.2) Dict.empty

theorem mem_valuesOf {pairs : List (Str × Str)} {name value : Str} :
    value ∈ valuesOf pairs name ↔ (name, value) ∈ pairs := by
  unfold valuesOf
  rw [List.mem_filterMap]
  constructor
  · rintro ⟨p, hp, h⟩
    split at h
    · rename_i hname
      cases h; cases hname; exact hp
    · cases h
  · intro h
    exact ⟨_, h, by simp⟩

theorem valuesOf_eq_nil_iff {pairs : List (Str × Str)} {name : Str} :
    valuesOf pairs name = [] ↔ ∀ p ∈ pairs, p.1 ≠ name := by
  rw [List.eq_nil_iff_forall_not_mem]
  constructor
  · rintro h ⟨_, value⟩ hp rfl
    exact h value (mem_valuesOf.mpr hp)
  · intro h value hv
    exact h _ (mem_valuesOf.mp hv) rfl

theorem valuesOf_append (ps qs : List (Str × Str)) (name : Str) :
    valuesOf (ps ++ qs) name = valuesOf ps name ++ valuesOf qs name :=
  List.filterMap_append

/-- A header whose name is not repeated has one value. -/
theorem valuesOf_of_nodup {pairs : List (Str × Str)} (h : (pairs.map Prod.fst).Nodup)
    {name value : Str} (hp : (name, value) ∈ pairs) : valuesOf pairs name = [value] := by
  induction pairs with
  | nil => cases hp
  | cons p pairs ih =>
    obtain ⟨hnot, hnodup⟩ := List.nodup_cons.mp h
    rw [← List.singleton_append, valuesOf_append]
    rcases List.mem_cons.mp hp with rfl | hp
    · have hrest : valuesOf pairs name = [] := valuesOf_eq_nil_iff.mpr fun q hq hname =>
        hnot (List.mem_map.mpr ⟨q, hq, hname⟩)
      rw [hrest]
      simp [valuesOf]
    · have hne : p.1 ≠ name := fun hname => hnot (List.mem_map.mpr ⟨_, hp, hname.symm⟩)
      have hfirst : valuesOf [p] name = [] := by simp [valuesOf, hne]
      rw [hfirst, ih hnodup hp]
      rfl

/-- Among pairs computed under distinct names, a name has the value computed for it. -/
theorem valuesOf_filterMap {α : Type} {l : List α} {key : α → Str} {val : α → Option Str}
    (h : (l.map key).Nodup) {a : α} (ha : a ∈ l) :
    valuesOf (l.filterMap fun a => (val a).map (key a, ·)) (key a) = (val a).toList := by
  cases hv : val a with
  | none =>
    refine valuesOf_eq_nil_iff.mpr fun p hp heq => ?_
    obtain ⟨b, hb, hpair⟩ := List.mem_filterMap.mp hp
    obtain ⟨value, hvalue, rfl⟩ := Option.map_eq_some_iff.mp hpair
    rw [List.inj_on_of_nodup_map h hb ha heq, hv] at hvalue
    cases hvalue
  | some value =>
    refine valuesOf_of_nodup (Dict.nodup_keys_filterMap h) ?_
    exact List.mem_filterMap.mpr ⟨a, ha, by rw [hv]; rfl⟩

theorem normalized_pair_eq_some_iff {U : UnicodeData} {k v : HeaderField} {p : Str × Str} :
    normalized U (.pair k v) = some p ↔ ∃ name, field k = .ok name ∧
      ∃ value, field v = .ok value ∧ p = (U.lower (strip name), value) := by
  simp only [normalized]
  cases field k <;> cases field v <;> simp [Except.toOption, eq_comm]

theorem addHeader_eq_ok_iff {U : UnicodeData} {out out' : Multimap} {item : HeaderItem} :
    addHeader U out item = .ok out' ↔
      ∃ p, normalized U item = some p ∧ isRoutingAlias p.1 = false ∧ out' = out.add p.1 p.2 := by
  cases item with
  | malformed => exact ⟨nofun, fun ⟨_, h, _⟩ => by cases h⟩
  | pair k v =>
    simp only [addHeader, bind_eq_ok_iff, ite_error_eq_ok_iff, normalized_pair_eq_some_iff]
    constructor
    · rintro ⟨name, hk, ha, value, hv, h⟩
      cases h
      exact ⟨_, ⟨name, hk, value, hv, rfl⟩, Bool.eq_false_iff.mpr ha, rfl⟩
    · rintro ⟨_, ⟨name, hk, value, hv, rfl⟩, ha, rfl⟩
      exact ⟨name, hk, Bool.eq_false_iff.mp ha, value, hv, rfl⟩

theorem foldlM_addHeader_eq_ok_iff {U : UnicodeData} {items : List HeaderItem}
    {out out' : Multimap} : items.foldlM (addHeader U) out = .ok out' ↔
      (∀ item ∈ items, WellFormed U item) ∧
        out' = (headerPairs U items).foldl (fun out p => out.add p.1 p.2) out := by
  induction items generalizing out with
  | nil =>
    constructor
    · intro h; cases h; exact ⟨fun _ h => (nomatch h), rfl⟩
    · rintro ⟨-, rfl⟩; rfl
  | cons item items ih =>
    rw [List.foldlM_cons, bind_eq_ok_iff, List.forall_mem_cons]
    constructor
    · rintro ⟨out₁, h₁, h⟩
      obtain ⟨p, hp, ha, rfl⟩ := addHeader_eq_ok_iff.mp h₁
      obtain ⟨hitems, rfl⟩ := ih.mp h
      exact ⟨⟨⟨p, hp, ha⟩, hitems⟩, by simp [headerPairs, hp]⟩
    · rintro ⟨⟨⟨p, hp, ha⟩, hitems⟩, rfl⟩
      refine ⟨_, addHeader_eq_ok_iff.mpr ⟨p, hp, ha, rfl⟩, ih.mpr ⟨hitems, ?_⟩⟩
      simp [headerPairs, hp]

/-- A list of pairs becomes a multimap exactly when each of its headers is well formed. -/
theorem headerMultimap_pairs_eq_ok_iff {U : UnicodeData} {items : List HeaderItem}
    {hdrs : Multimap} : headerMultimap U false (.pairs items) = .ok hdrs ↔
      (∀ item ∈ items, WellFormed U item) ∧ hdrs = multimapOf (headerPairs U items) :=
  foldlM_addHeader_eq_ok_iff

theorem get?_foldl_add (pairs : List (Str × Str)) (out : Multimap) (name : Str) :
    (pairs.foldl (fun out p => out.add p.1 p.2) out).get? name =
      if valuesOf pairs name = [] then out.get? name
      else some ((out.get? name).getD [] ++ valuesOf pairs name) := by
  induction pairs generalizing out with
  | nil => rfl
  | cons p pairs ih =>
    rw [List.foldl_cons, ih, Multimap.add, Dict.get?_set]
    by_cases hp : name = p.1
    · have hv : valuesOf (p :: pairs) name = p.2 :: valuesOf pairs name := by
        simp [valuesOf, hp]
      rw [hv]
      simp only [hp, ↓reduceIte, Option.getD_some, List.append_assoc, List.singleton_append,
        List.cons_ne_nil]
      split
      · rename_i h; rw [h]
      · rfl
    · have hv : valuesOf (p :: pairs) name = valuesOf pairs name := by
        simp [valuesOf, Ne.symm hp]
      rw [hv]
      simp only [hp, ↓reduceIte]

theorem get?_multimapOf (pairs : List (Str × Str)) (name : Str) :
    (multimapOf pairs).get? name =
      if valuesOf pairs name = [] then none else some (valuesOf pairs name) := by
  rw [multimapOf, get?_foldl_add]
  rfl

theorem mem_keys_multimapOf {pairs : List (Str × Str)} {name : Str} :
    name ∈ (multimapOf pairs).keys ↔ ∃ p ∈ pairs, p.1 = name := by
  have h := Dict.get?_eq_none_iff (d := multimapOf pairs) (k := name)
  rw [get?_multimapOf] at h
  rw [← not_iff_not, ← h]
  simp only [ite_eq_left_iff, reduceCtorEq, imp_false, not_not, valuesOf_eq_nil_iff, not_exists,
    not_and, ne_eq]

theorem forall_mem_keys_multimapOf {pairs : List (Str × Str)} {P : Str → Prop} :
    (∀ name ∈ (multimapOf pairs).keys, P name) ↔ ∀ p ∈ pairs, P p.1 := by
  simp only [mem_keys_multimapOf]
  constructor
  · intro h p hp
    exact h p.1 ⟨p, hp, rfl⟩
  · rintro h _ ⟨p, hp, rfl⟩
    exact h p hp

theorem single_eq_ok_some_iff {U : UnicodeData} {pairs : List (Str × Str)} {name value : Str} :
    single U (multimapOf pairs) name = .ok (some value) ↔
      valuesOf pairs (U.lower name) = [value] := by
  unfold single
  rw [get?_multimapOf]
  cases hv : valuesOf pairs (U.lower name) with
  | nil => simp
  | cons v vs => cases vs <;> simp

theorem single_eq_ok_none_iff {U : UnicodeData} {pairs : List (Str × Str)} {name : Str} :
    single U (multimapOf pairs) name = .ok none ↔ valuesOf pairs (U.lower name) = [] := by
  unfold single
  rw [get?_multimapOf]
  cases hv : valuesOf pairs (U.lower name) with
  | nil => simp
  | cons v vs => cases vs <;> simp

/-! ## The names of the routing headers -/

theorem lower_headerProtocolVersion (U : UnicodeData) :
    U.lower headerProtocolVersion = lit "mcp-protocol-version" :=
  U.lower_ascii _ (by decide)

theorem lower_headerMethod (U : UnicodeData) : U.lower headerMethod = lit "mcp-method" :=
  U.lower_ascii _ (by decide)

theorem lower_headerName (U : UnicodeData) : U.lower headerName = lit "mcp-name" :=
  U.lower_ascii _ (by decide)

theorem lower_headerParamPrefix (U : UnicodeData) :
    U.lower headerParamPrefix = lit "mcp-param-" :=
  U.lower_ascii _ (by decide)

/-- A lower-cased `Mcp-Param-*` name. -/
def isParamName (name : Str) : Bool := startsWith name (lit "mcp-param-")

/-! ## What each check asks for -/

variable {φ : Type} {U : UnicodeData} {pairs : List (Str × Str)}

/-- `Mcp-Name` carries the name that the method mirrors, and is absent for other methods. -/
def NameAgrees (pairs : List (Str × Str)) (method : Str) (params : Json φ) : Prop :=
  match nameField? method with
  | none => valuesOf pairs (lit "mcp-name") = []
  | some field => ∃ name raw, params.get? field = some (.str name) ∧
      encodeHeaderValue name = some raw ∧ valuesOf pairs (lit "mcp-name") = [raw]

/-- The header of an annotation carries its argument, and is absent where that is null. -/
def ParamAgrees (U : UnicodeData) (pairs : List (Str × Str)) (arguments : Json φ)
    (a : Str × List Str) : Prop :=
  match headerParamValue true (argAt arguments a.2) with
  | some (some want) => valuesOf pairs (paramHeader U a.1) = [want]
  | some none => (argAt arguments a.2).isNull = true ∧ valuesOf pairs (paramHeader U a.1) = []
  | none => False

/-- The `Mcp-Param-*` headers are declared by the schema and carry the arguments. -/
def ToolParamsAgree (U : UnicodeData) (pairs : List (Str × Str)) (schema arguments : Json φ) :
    Prop :=
  (∀ p ∈ pairs, isParamName p.1 = true →
    ∃ a ∈ xMcpHeaderAnnotations U schema, paramHeader U a.1 = p.1) ∧
  ∀ a ∈ xMcpHeaderAnnotations U schema, ParamAgrees U pairs arguments a

/-- The schema of the tool that a request calls, where the server gave one. -/
def calledSchema (toolSchemas : Option (Dict Str (Json φ))) (method : Str) (params : Json φ) :
    Option (Json φ) :=
  if method = lit "tools/call" then
    toolSchemas.bind fun schemas =>
      ((params.get? (lit "name")).bind Json.asStr?).bind schemas.get?
  else none

/-- The `Mcp-Param-*` headers agree with the arguments of a call to a known tool; without one there
are none. -/
def ParamsAgree (U : UnicodeData) (pairs : List (Str × Str))
    (toolSchemas : Option (Dict Str (Json φ))) (method : Str) (params : Json φ) : Prop :=
  match calledSchema toolSchemas method params with
  | some schema => ToolParamsAgree U pairs schema (params.getOrNull (lit "arguments"))
  | none => (method = lit "tools/call" → toolSchemas = none) ∧
      ∀ p ∈ pairs, isParamName p.1 = false

theorem checkName_eq_ok_iff {method : Str} {params : Json φ} :
    checkName U (multimapOf pairs) method params = .ok () ↔ NameAgrees pairs method params := by
  unfold checkName NameAgrees
  rw [bind_eq_ok_iff]
  cases hf : nameField? method with
  | none =>
    simp only [Option.isSome_none, Bool.false_eq_true, ↓reduceIte, ite_error_eq_ok_iff]
    rw [← lower_headerName U, ← single_eq_ok_none_iff]
    constructor
    · rintro ⟨raw, hraw, hnone, -⟩
      rw [hraw, Option.not_isSome_iff_eq_none.mp hnone]
    · intro h
      exact ⟨none, h, by simp, rfl⟩
  | some field =>
    rw [← lower_headerName U]
    simp only [Option.isSome_some, ↓reduceIte, ← single_eq_ok_some_iff]
    constructor
    · rintro ⟨rawName, hraw, h⟩
      split at h
      · cases h
      · rename_i name hname
        split at h
        · cases h
        · rename_i canonical hcanonical
          obtain ⟨rfl, -⟩ := ite_ok_error_eq_ok_iff.mp h
          exact ⟨name, canonical, (mcpNameFor_eq_some_iff hf).mp hname, hcanonical, hraw⟩
    · rintro ⟨name, canonical, hname, hcanonical, hraw⟩
      refine ⟨some canonical, hraw, ?_⟩
      rw [(mcpNameFor_eq_some_iff hf).mpr hname]
      simp only [hcanonical, ↓reduceIte]
      rfl

theorem checkParam_eq_ok_iff {schema arguments : Json φ} {headers : Dict Str Str}
    (hh : xMcpParamHeaders U true schema arguments = some headers) {a : Str × List Str}
    (ha : a ∈ xMcpHeaderAnnotations U schema) :
    checkParam U (multimapOf pairs) (lowerKeys U headers) arguments a = .ok () ↔
      ParamAgrees U pairs arguments a := by
  have hsome := isSome_xMcpParamHeaders_iff.mp (Option.isSome_of_eq_some hh) a ha
  have hlower : U.lower (paramHeader U a.1) = paramHeader U a.1 :=
    lower_paramHeader (mem_xMcpHeaderAnnotations ha).2.1
  have hnone : single U (multimapOf pairs) (paramHeader U a.1) = .ok none ↔
      valuesOf pairs (paramHeader U a.1) = [] := by
    rw [single_eq_ok_none_iff, hlower]
  have hone : ∀ value, single U (multimapOf pairs) (paramHeader U a.1) = .ok (some value) ↔
      valuesOf pairs (paramHeader U a.1) = [value] := by
    intro value
    rw [single_eq_ok_some_iff, hlower]
  unfold checkParam ParamAgrees
  rw [bind_eq_ok_iff, get?_lowerKeys_xMcpParamHeaders hh ha]
  cases hv : headerParamValue true (argAt arguments a.2) with
  | none => rw [hv] at hsome; cases hsome
  | some encoded =>
    cases encoded with
    | none =>
      simp only [Option.join_some, ite_error_eq_ok_iff, ← hnone, not_or, Bool.not_eq_false,
        Option.not_isSome_iff_eq_none]
      constructor
      · rintro ⟨raw, hraw, ⟨harg, rfl⟩, -⟩
        exact ⟨harg, hraw⟩
      · rintro ⟨harg, hraw⟩
        exact ⟨none, hraw, ⟨harg, rfl⟩, rfl⟩
    | some want =>
      simp only [Option.join_some, ite_ok_error_eq_ok_iff, ← hone]
      constructor
      · rintro ⟨raw, hraw, rfl, -⟩
        exact hraw
      · intro hraw
        exact ⟨some want, hraw, rfl, rfl⟩

theorem checkToolParams_eq_ok_iff {schema arguments : Json φ} :
    checkToolParams U (multimapOf pairs) schema arguments = .ok () ↔
      ToolParamsAgree U pairs schema arguments := by
  unfold checkToolParams ToolParamsAgree
  cases hh : xMcpParamHeaders U true schema arguments with
  | none =>
    refine ⟨nofun, fun ⟨_, hagree⟩ => ?_⟩
    have hsome : (xMcpParamHeaders U true schema arguments).isSome = true := by
      refine isSome_xMcpParamHeaders_iff.mpr fun a ha => ?_
      have ha := hagree a ha
      unfold ParamAgrees at ha
      split at ha
      · rename_i h; rw [h]; rfl
      · rename_i h; rw [h]; rfl
      · exact ha.elim
    rw [hh] at hsome; cases hsome
  | some headers =>
    simp only [ite_error_eq_ok_iff, forM_eq_ok_iff]
    refine and_congr ?_ ?_
    · rw [lower_headerParamPrefix, Bool.not_eq_true, List.any_eq_false]
      simp only [List.mem_filter, and_imp, decide_eq_true_eq, not_not, List.mem_map]
      exact forall_mem_keys_multimapOf (P := fun name => isParamName name = true →
        ∃ a ∈ xMcpHeaderAnnotations U schema, paramHeader U a.1 = name)
    · exact forall_congr' fun a => forall_congr' fun ha => checkParam_eq_ok_iff hh ha

theorem checkParams_eq_ok_iff {toolSchemas : Option (Dict Str (Json φ))} {method : Str}
    {params : Json φ} :
    checkParams U (multimapOf pairs) toolSchemas method params = .ok () ↔
      ParamsAgree U pairs toolSchemas method params := by
  have hany : ¬ (multimapOf pairs).keys.any (startsWith · (U.lower headerParamPrefix)) = true ↔
      ∀ p ∈ pairs, isParamName p.1 = false := by
    rw [lower_headerParamPrefix, Bool.not_eq_true, List.any_eq_false]
    simp only [Bool.not_eq_true]
    exact forall_mem_keys_multimapOf (P := fun name => isParamName name = false)
  unfold checkParams ParamsAgree calledSchema
  by_cases hm : method = lit "tools/call"
  · cases toolSchemas with
    | none => simp only [hm, ↓reduceIte, ite_error_eq_ok_iff, hany]; simp
    | some schemas =>
      simp only [hm, ↓reduceIte, Option.bind_some]
      cases ((params.get? (lit "name")).bind Json.asStr?).bind schemas.get? with
      | none => simp
      | some schema => exact checkToolParams_eq_ok_iff
  · simp only [hm, ↓reduceIte, ite_error_eq_ok_iff, hany]; simp

/-! ## When the whole envelope passes -/

/-- The headers agree with the body of a request. -/
structure Agrees (U : UnicodeData) (pairs : List (Str × Str)) (supportedVersions : List Str)
    (toolSchemas : Option (Dict Str (Json φ))) (method : Str) (params : Json φ) (version : Str) :
    Prop where
  bodyVersion : (params.getOrNull (lit "_meta")).get? metaProtocolVersion = some (.str version)
  headerVersion : valuesOf pairs (lit "mcp-protocol-version") = [version]
  supported : version ∈ supportedVersions
  headerMethod : valuesOf pairs (lit "mcp-method") = [method]
  headerName : NameAgrees pairs method params
  headerParams : ParamsAgree U pairs toolSchemas method params

theorem checkRouting_eq_ok_iff {supported : List Str} {toolSchemas : Option (Dict Str (Json φ))}
    {method : Str} {params : Json φ} {headerVersion : Option Str} {version v : Str} :
    checkRouting U (multimapOf pairs) supported toolSchemas method params headerVersion version =
        .ok v ↔
      v = version ∧ headerVersion = some version ∧ version ∈ supported ∧
        valuesOf pairs (lit "mcp-method") = [method] ∧ NameAgrees pairs method params ∧
        ParamsAgree U pairs toolSchemas method params := by
  unfold checkRouting
  simp only [ite_error_eq_ok_iff, bind_eq_ok_iff, not_not, ne_eq]
  rw [← lower_headerMethod U, ← single_eq_ok_some_iff, ← checkName_eq_ok_iff (U := U),
    ← checkParams_eq_ok_iff]
  constructor
  · rintro ⟨hh, hs, _, hm, rfl, ⟨⟩, hn, ⟨⟩, hp, h⟩
    cases h
    exact ⟨rfl, hh, hs, hm, hn, hp⟩
  · rintro ⟨rfl, hh, hs, hm, hn, hp⟩
    exact ⟨hh, hs, _, hm, rfl, ⟨⟩, hn, ⟨⟩, hp, rfl⟩

theorem checkRequest_eq_ok_iff {supported : List Str} {toolSchemas : Option (Dict Str (Json φ))}
    {method : Str} {params : Json φ} {v : Str} :
    checkRequest U (multimapOf pairs) supported toolSchemas method params = .ok v ↔
      Agrees U pairs supported toolSchemas method params v := by
  have hmissing : ∀ {e : EnvelopeError}, (do
      legacyGate U (multimapOf pairs) supported
      .error e : Except EnvelopeError Str) ≠ .ok v := by
    intro e h
    obtain ⟨_, -, h⟩ := bind_eq_ok_iff.mp h
    cases h
  unfold checkRequest
  rw [bind_eq_ok_iff]
  constructor
  · rintro ⟨headerVersion, hh, h⟩
    dsimp only at h
    split at h
    · exact absurd h hmissing
    · rename_i fields hmeta
      split at h
      · exact absurd h hmissing
      · rename_i version hversion
        obtain ⟨rfl, rfl, hs, hm, hn, hp⟩ := checkRouting_eq_ok_iff.mp h
        rw [single_eq_ok_some_iff, lower_headerProtocolVersion] at hh
        exact ⟨by rw [hmeta]; exact hversion, hh, hs, hm, hn, hp⟩
      · cases h
    · cases h
  · rintro ⟨hb, hh, hs, hm, hn, hp⟩
    rw [← lower_headerProtocolVersion U, ← single_eq_ok_some_iff] at hh
    refine ⟨some v, hh, ?_⟩
    cases hmeta : params.getOrNull (lit "_meta") <;> rw [hmeta] at hb <;> try cases hb
    simp only [hb]
    exact checkRouting_eq_ok_iff.mpr ⟨rfl, rfl, hs, hm, hn, hp⟩

/-- A request given as a list of header pairs and a body is accepted exactly when no header is
ill-formed and the headers agree with the body. -/
theorem validateRequestMetadata_eq_ok_iff {items : List HeaderItem} {body : Json φ}
    {supportedVersions : List Str} {toolSchemas : Option (Dict Str (Json φ))} {v : Str} :
    validateRequestMetadata U (.pairs items) body supportedVersions toolSchemas false = .ok v ↔
      (∀ item ∈ items, WellFormed U item) ∧
        ∃ method, body.get? (lit "method") = some (.str method) ∧
          Agrees U (headerPairs U items) supportedVersions toolSchemas method (paramsOf body) v := by
  have hsupported : ∀ pairs method params, Agrees U pairs (sortStrs supportedVersions.dedup)
      toolSchemas method params v ↔ Agrees U pairs supportedVersions toolSchemas method params v := by
    have hmem : v ∈ sortStrs supportedVersions.dedup ↔ v ∈ supportedVersions := by
      rw [mem_sortStrs, List.mem_dedup]
    exact fun _ _ _ => ⟨fun h => { h with supported := hmem.mp h.supported },
      fun h => { h with supported := hmem.mpr h.supported }⟩
  unfold validateRequestMetadata
  rw [bind_eq_ok_iff]
  constructor
  · rintro ⟨hdrs, hhdrs, h⟩
    obtain ⟨hitems, rfl⟩ := headerMultimap_pairs_eq_ok_iff.mp hhdrs
    refine ⟨hitems, ?_⟩
    dsimp only at h
    split at h
    · obtain ⟨_, -, h⟩ := bind_eq_ok_iff.mp h
      cases h
    · split at h
      · cases h
      · rename_i method hmethod
        exact ⟨method, hmethod, (hsupported ..).mp (checkRequest_eq_ok_iff.mp h)⟩
      · cases h
    · cases h
  · rintro ⟨hitems, method, hmethod, h⟩
    refine ⟨_, headerMultimap_pairs_eq_ok_iff.mpr ⟨hitems, rfl⟩, ?_⟩
    cases body <;> try cases hmethod
    simp only [hmethod]
    exact checkRequest_eq_ok_iff.mpr ((hsupported ..).mpr h)

end CosaiMcp.Middleware.RequestMeta
