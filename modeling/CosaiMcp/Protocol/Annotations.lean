import CosaiMcp.Protocol.Wire

/-!
# Mirrored parameters

A tool's schema may annotate a property with `x-mcp-header`: the argument at that place is then
mirrored into an `Mcp-Param-*` header. `xMcpHeaderAnnotations` is the walk that collects the
annotations through chains of `properties` and keeps the valid ones, `xMcpParamHeaders` the headers
that the arguments of a call give.

The names that are kept are ASCII (`mem_xMcpHeaderAnnotations`) and distinct when lower-cased
(`nodup_xMcpHeaderAnnotations`), so a header can be found back by its lower-cased name
(`get?_lowerKeys_xMcpParamHeaders`).
-/

namespace CosaiMcp.Protocol

open Py

variable {φ : Type}

/-! ## Annotations of a schema -/

/-- The walk `_walk` from depth `17 - n` on: the annotations with their path and type. -/
def walkAnnotations : Nat → Json φ → List Str → List (Str × List Str × Json φ)
  | 0, _, _ => []
  | n + 1, schema, path =>
    match schema.get? (lit "properties") with
    | some (.obj props) => props.flatMap fun (key, sub) =>
        match sub with
        | .obj _ =>
          (match sub.get? (lit "x-mcp-header") with
            | some (.str ann) => [(ann, path ++ [key], sub.getOrNull (lit "type"))]
            | _ => []) ++ walkAnnotations n sub (path ++ [key])
        | _ => []
    | _ => []

/-- The characters of an HTTP field name. -/
def isTokenChar (c : CodePoint) : Bool :=
  (48 ≤ c.val && c.val ≤ 57) || (65 ≤ c.val && c.val ≤ 90) || (97 ≤ c.val && c.val ≤ 122) ||
    (lit "!#$%&'*+-.^_`|~").contains c

/-- `_TOKEN_RE.match`: the `$` of the pattern also matches before a final line feed. -/
def isToken (name : Str) : Bool :=
  let body := if endsWith name [10] then name.dropLast else name
  body ≠ [] && body.all isTokenChar

/-- The types of a schema that a header can carry. -/
def isHeaderType (typ : Json φ) : Bool :=
  match typ with
  | .str s => s ∈ [lit "string", lit "integer", lit "boolean"]
  | _ => false

def isNullType (typ : Json φ) : Bool :=
  match typ with
  | .str s => s == lit "null"
  | _ => false

/-- A header type, or a list of one beside any number of `"null"`. -/
def isPrimitiveType (typ : Json φ) : Bool :=
  match typ with
  | .arr types =>
    match types.filter (!isNullType ·) with
    | [t] => isHeaderType t
    | _ => false
  | t => isHeaderType t

/-- The second loop of `x_mcp_header_annotations`, with the lower-cased names seen so far. -/
def validAnnotations (U : UnicodeData) :
    List Str → List (Str × List Str × Json φ) → List (Str × List Str)
  | _, [] => []
  | seen, (name, path, typ) :: rest =>
    if isToken name = false ∨ U.lower name ∈ seen then validAnnotations U seen rest
    else if isPrimitiveType typ then (name, path) :: validAnnotations U (U.lower name :: seen) rest
    else validAnnotations U (U.lower name :: seen) rest

/-- `x_mcp_header_annotations`. -/
def xMcpHeaderAnnotations (U : UnicodeData) (inputSchema : Json φ) : List (Str × List Str) :=
  validAnnotations U [] (walkAnnotations 17 inputSchema [])

/-! ## Headers of a call -/

/-- The value at a path of the arguments, `null` where there is none. -/
def argAt : Json φ → List Str → Json φ
  | node, [] => node
  | node, step :: path =>
    match node.get? step with
    | some sub => argAt sub path
    | none => .null

/-- `_header_param_value`; the outer `none` is the `UnicodeEncodeError` of a strict call. -/
def headerParamValue (strict : Bool) : Json φ → Option (Option Str)
  | .bool b => some (some (if b then lit "true" else lit "false"))
  | .int n => some (if jsSafeInt < n.natAbs then none else some (intText n))
  | .str s =>
    match encodeHeaderValue s with
    | some raw => some (some raw)
    | none => if strict then none else some none
  | _ => some none

/-- `x_mcp_param_headers`; `none` is the `UnicodeEncodeError` of a strict call. -/
def xMcpParamHeaders (U : UnicodeData) (strict : Bool) (inputSchema arguments : Json φ) :
    Option (Dict Str Str) :=
  match arguments with
  | .obj _ =>
    let rendered : Option (List (Option (Str × Str))) :=
      (xMcpHeaderAnnotations U inputSchema).mapM fun (name, path) =>
        (headerParamValue strict (argAt arguments path)).map fun encoded =>
          encoded.map fun raw => (headerParamPrefix ++ name, raw)
    rendered.map fun r => Dict.ofList (r.filterMap id)
  | _ => some Dict.empty

/-! ## The names that are kept -/

theorem val_of_isTokenChar {c : CodePoint} (h : isTokenChar c = true) :
    33 ≤ c.val ∧ c.val ≤ 126 := by
  have hlit : (lit "!#$%&'*+-.^_`|~").all (fun c => 33 ≤ c.val && c.val ≤ 126) = true := by decide
  simp only [isTokenChar, Bool.or_eq_true, Bool.and_eq_true, decide_eq_true_eq,
    List.contains_iff_mem] at h
  rcases h with ((h | h) | h) | h
  · omega
  · omega
  · omega
  · simpa using List.all_eq_true.mp hlit c h

/-- A token consists of token characters, but for a final line feed. -/
theorem exists_of_isToken {name : Str} (h : isToken name = true) :
    ∃ body, (∀ c ∈ body, isTokenChar c = true) ∧ (name = body ∨ name = body ++ [10]) := by
  unfold isToken at h
  by_cases hend : endsWith name [10] = true
  · simp only [hend, ↓reduceIte, Bool.and_eq_true] at h
    obtain ⟨body, rfl⟩ := List.isSuffixOf_iff_suffix.mp hend
    rw [List.dropLast_concat] at h
    exact ⟨body, List.all_eq_true.mp h.2, Or.inr rfl⟩
  · simp only [hend] at h
    exact ⟨name, List.all_eq_true.mp (Bool.and_eq_true_iff.mp h).2, Or.inl rfl⟩

theorem isAscii_of_isToken {name : Str} (h : isToken name = true) : isAscii name = true := by
  obtain ⟨body, hbody, hname⟩ := exists_of_isToken h
  have hascii : isAscii body = true := by
    refine List.all_eq_true.mpr fun c hc => decide_eq_true ?_
    have := val_of_isTokenChar (hbody c hc)
    omega
  rcases hname with rfl | rfl
  · exact hascii
  · rw [isAscii_append, hascii]; rfl

theorem mem_validAnnotations {U : UnicodeData} {a : Str × List Str} :
    ∀ {l : List (Str × List Str × Json φ)} {seen : List Str}, a ∈ validAnnotations U seen l →
      isToken a.1 = true ∧ U.lower a.1 ∉ seen ∧
        ∃ typ, (a.1, a.2, typ) ∈ l ∧ isPrimitiveType typ = true
  | [], _, h => nomatch h
  | (name, path, typ) :: rest, seen, h => by
    have hrest : ∀ {seen'}, (∀ n ∈ seen, n ∈ seen') → a ∈ validAnnotations U seen' rest →
        isToken a.1 = true ∧ U.lower a.1 ∉ seen ∧
          ∃ typ', (a.1, a.2, typ') ∈ (name, path, typ) :: rest ∧ isPrimitiveType typ' = true := by
      intro seen' hsub ha
      obtain ⟨ht, hs, typ', hm, hp⟩ := mem_validAnnotations ha
      exact ⟨ht, fun h => hs (hsub _ h), typ', List.mem_cons_of_mem _ hm, hp⟩
    unfold validAnnotations at h
    split at h
    · exact hrest (fun _ hn => hn) h
    · rename_i hnew
      obtain ⟨ht, hs⟩ := not_or.mp hnew
      split at h
      · rename_i hp
        rcases List.mem_cons.mp h with rfl | h
        · exact ⟨by simpa using ht, hs, typ, List.mem_cons_self, hp⟩
        · exact hrest (fun _ hn => List.mem_cons_of_mem _ hn) h
      · exact hrest (fun _ hn => List.mem_cons_of_mem _ hn) h

theorem nodup_validAnnotations {U : UnicodeData} :
    ∀ {l : List (Str × List Str × Json φ)} {seen : List Str},
      ((validAnnotations U seen l).map fun a => U.lower a.1).Nodup
  | [], _ => List.nodup_nil
  | (name, path, typ) :: rest, seen => by
    unfold validAnnotations
    split
    · exact nodup_validAnnotations
    · split
      · rw [List.map_cons, List.nodup_cons]
        refine ⟨fun hmem => ?_, nodup_validAnnotations⟩
        obtain ⟨a, ha, heq⟩ := List.mem_map.mp hmem
        exact (mem_validAnnotations ha).2.1 (heq ▸ List.mem_cons_self)
      · exact nodup_validAnnotations

theorem path_ne_nil_of_mem_walkAnnotations {a : Str × List Str × Json φ} :
    ∀ {n : Nat} {schema : Json φ} {path : List Str}, a ∈ walkAnnotations n schema path →
      a.2.1 ≠ []
  | 0, _, _, h => nomatch h
  | n + 1, schema, path, h => by
    unfold walkAnnotations at h
    split at h
    · obtain ⟨⟨key, sub⟩, -, h⟩ := List.mem_flatMap.mp h
      dsimp only at h
      split at h
      · rcases List.mem_append.mp h with h | h
        · split at h
          · rw [List.mem_singleton.mp h]; simp
          · cases h
        · exact path_ne_nil_of_mem_walkAnnotations h
      · cases h
    · cases h

/-- A kept annotation has a token for a name, so an ASCII one, and lies below the root. -/
theorem mem_xMcpHeaderAnnotations {U : UnicodeData} {inputSchema : Json φ} {a : Str × List Str}
    (h : a ∈ xMcpHeaderAnnotations U inputSchema) :
    isToken a.1 = true ∧ isAscii a.1 = true ∧ a.2 ≠ [] := by
  obtain ⟨ht, -, typ, hm, -⟩ := mem_validAnnotations h
  exact ⟨ht, isAscii_of_isToken ht, path_ne_nil_of_mem_walkAnnotations hm⟩

/-- Kept names are distinct when lower-cased. -/
theorem nodup_xMcpHeaderAnnotations (U : UnicodeData) (inputSchema : Json φ) :
    ((xMcpHeaderAnnotations U inputSchema).map fun a => U.lower a.1).Nodup :=
  nodup_validAnnotations

/-! ## The headers of a call, by lower-cased name -/

/-- The lower-cased name of the header of an annotation. -/
def paramHeader (U : UnicodeData) (name : Str) : Str := U.lower (headerParamPrefix ++ name)

/-- The header that an annotation gives, if its argument is rendered. -/
def mirrored (strict : Bool) (arguments : Json φ) (a : Str × List Str) : Option (Str × Str) :=
  (headerParamValue strict (argAt arguments a.2)).join.map fun raw => (headerParamPrefix ++ a.1, raw)

theorem paramHeader_eq {U : UnicodeData} {name : Str} (h : isAscii name = true) :
    paramHeader U name = lit "mcp-param-" ++ U.lower name := by
  have hp : U.lower headerParamPrefix = lit "mcp-param-" := U.lower_ascii _ (by decide)
  rw [paramHeader, U.lower_append (by decide) h, hp]

theorem lower_paramHeader {U : UnicodeData} {name : Str} (h : isAscii name = true) :
    U.lower (paramHeader U name) = paramHeader U name :=
  U.lower_lower (by rw [isAscii_append, h]; rfl)

theorem nodup_paramHeader (U : UnicodeData) (inputSchema : Json φ) :
    ((xMcpHeaderAnnotations U inputSchema).map fun a => paramHeader U a.1).Nodup := by
  have heq : (xMcpHeaderAnnotations U inputSchema).map (fun a => paramHeader U a.1) =
      ((xMcpHeaderAnnotations U inputSchema).map fun a => U.lower a.1).map
        (lit "mcp-param-" ++ ·) := by
    rw [List.map_map]
    exact List.map_congr_left fun a ha => paramHeader_eq (mem_xMcpHeaderAnnotations ha).2.1
  rw [heq]
  exact (nodup_xMcpHeaderAnnotations U inputSchema).map (List.append_right_injective _)

theorem argAt_of_not_obj {arguments : Json φ} (h : arguments.asDict? = none) {path : List Str}
    (hp : path ≠ []) : argAt arguments path = .null := by
  cases path with
  | nil => exact absurd rfl hp
  | cons step path => cases arguments <;> first | rfl | cases h

private theorem filterMap_of_mapM {α β : Type} {f : α → Option (Option β)} :
    ∀ {l : List α} {r : List (Option β)}, l.mapM f = some r →
      r.filterMap id = l.filterMap fun a => (f a).join
  | [], r, h => by cases h; rfl
  | a :: l, r, h => by
    rw [List.mapM_cons] at h
    obtain ⟨b, hb, h⟩ := Option.bind_eq_some_iff.mp h
    obtain ⟨r', hr', h⟩ := Option.bind_eq_some_iff.mp h
    cases h
    have ih := filterMap_of_mapM hr'
    cases b <;> simpa [hb] using ih

private theorem isSome_mapM_iff {α β : Type} {f : α → Option β} {l : List α} :
    (l.mapM f).isSome = true ↔ ∀ a ∈ l, (f a).isSome = true := by
  induction l with
  | nil => exact ⟨fun _ _ h => (nomatch h), fun _ => rfl⟩
  | cons a l ih =>
    rw [List.forall_mem_cons, ← ih, List.mapM_cons]
    cases f a <;> cases l.mapM f <;> simp

/-- The headers of a call, one for each kept annotation whose argument is rendered. -/
theorem items_xMcpParamHeaders {U : UnicodeData} {strict : Bool} {inputSchema arguments : Json φ}
    {headers : Dict Str Str} (h : xMcpParamHeaders U strict inputSchema arguments = some headers) :
    headers.items = (xMcpHeaderAnnotations U inputSchema).filterMap (mirrored strict arguments) := by
  have hkeys : ((xMcpHeaderAnnotations U inputSchema).map fun a => headerParamPrefix ++ a.1).Nodup := by
    refine List.Nodup.of_map U.lower ?_
    rw [List.map_map]
    exact nodup_paramHeader U inputSchema
  unfold xMcpParamHeaders at h
  split at h
  · rename_i ms
    obtain ⟨rendered, hr, rfl⟩ := Option.map_eq_some_iff.mp h
    have hrendered : rendered.filterMap id =
        (xMcpHeaderAnnotations U inputSchema).filterMap (mirrored strict (.obj ms)) := by
      rw [filterMap_of_mapM hr]
      refine List.filterMap_congr fun a _ => ?_
      simp only [mirrored]
      cases headerParamValue strict (argAt _ a.2) <;> rfl
    rw [hrendered]
    exact Dict.items_ofList (Dict.nodup_keys_filterMap hkeys)
  · rename_i hobj
    cases h
    refine (List.filterMap_eq_nil_iff.mpr fun a ha => ?_).symm
    have hnone : arguments.asDict? = none := by
      cases arguments <;> first | rfl | exact absurd rfl (hobj _)
    have hnull : argAt arguments a.2 = .null :=
      argAt_of_not_obj hnone (mem_xMcpHeaderAnnotations ha).2.2
    rw [mirrored, hnull]
    rfl

/-- The headers of a call can be computed exactly when each annotated argument can be rendered. -/
theorem isSome_xMcpParamHeaders_iff {U : UnicodeData} {strict : Bool}
    {inputSchema arguments : Json φ} :
    (xMcpParamHeaders U strict inputSchema arguments).isSome = true ↔
      ∀ a ∈ xMcpHeaderAnnotations U inputSchema,
        (headerParamValue strict (argAt arguments a.2)).isSome = true := by
  cases hd : arguments.asDict? with
  | none =>
    have hsome : xMcpParamHeaders U strict inputSchema arguments = some Dict.empty := by
      cases arguments <;> first | rfl | cases hd
    rw [hsome]
    refine ⟨fun _ a ha => ?_, fun _ => rfl⟩
    rw [argAt_of_not_obj hd (mem_xMcpHeaderAnnotations ha).2.2]
    rfl
  | some ms =>
    have hobj : arguments = .obj ms := by cases arguments <;> cases hd; rfl
    subst hobj
    simp only [xMcpParamHeaders, Option.isSome_map, isSome_mapM_iff]

/-- The headers of a call under their lower-cased names. -/
def lowerKeys (U : UnicodeData) (headers : Dict Str Str) : Dict Str Str :=
  Dict.ofList (headers.items.map fun p => (U.lower p.1, p.2))

/-- Under the lower-cased name of a kept annotation stands the value that its argument renders to. -/
theorem get?_lowerKeys_xMcpParamHeaders {U : UnicodeData} {strict : Bool}
    {inputSchema arguments : Json φ} {headers : Dict Str Str}
    (h : xMcpParamHeaders U strict inputSchema arguments = some headers) {a : Str × List Str}
    (ha : a ∈ xMcpHeaderAnnotations U inputSchema) :
    (lowerKeys U headers).get? (paramHeader U a.1) =
      (headerParamValue strict (argAt arguments a.2)).join := by
  have heq : headers.items.map (fun p => (U.lower p.1, p.2)) =
      (xMcpHeaderAnnotations U inputSchema).filterMap fun a =>
        (headerParamValue strict (argAt arguments a.2)).join.map (paramHeader U a.1, ·) := by
    rw [items_xMcpParamHeaders h, List.map_filterMap]
    refine List.filterMap_congr fun a _ => ?_
    rw [mirrored, Option.map_map]
    rfl
  rw [lowerKeys, heq]
  exact Dict.get?_ofList_filterMap (nodup_paramHeader U inputSchema) ha

/-! ## What a header says -/

/-- The text of an argument that a header can carry. -/
def canonicalText : Json φ → Option Str
  | .bool b => some (if b then lit "true" else lit "false")
  | .int n => some (intText n)
  | .str s => some s
  | _ => none

theorem isSentinel_of_not_mem {value : Str} (h : (61 : CodePoint) ∉ value) :
    isSentinel value = false := by
  refine Bool.eq_false_iff.mpr fun hs => h ?_
  have hp : b64Prefix <+: value := List.isPrefixOf_iff_prefix.mp (Bool.and_eq_true_iff.mp hs).1
  exact hp.subset (by decide)

theorem isSentinel_intText (n : Int) : isSentinel (intText n) = false := by
  refine isSentinel_of_not_mem fun h => ?_
  cases n with
  | ofNat n => exact absurd (isDigit_of_mem_natText h) (by decide)
  | negSucc n =>
    rcases List.mem_cons.mp h with h | h
    · exact absurd h (by decide)
    · exact absurd (isDigit_of_mem_natText h) (by decide)

/-- The header of an argument decodes to its text. -/
theorem decodeHeaderValue_headerParamValue {strict : Bool} {value : Json φ} {raw : Str}
    (h : headerParamValue strict value = some (some raw)) :
    decodeHeaderValue raw = canonicalText value := by
  unfold headerParamValue at h
  split at h
  · cases h
    rename_i b
    cases b <;> rfl
  · rename_i n
    split at h
    · cases h
    · cases h
      exact decodeHeaderValue_of_not_isSentinel (isSentinel_intText n)
  · split at h
    · rename_i s raw' hraw
      cases h
      exact decodeHeaderValue_encodeHeaderValue hraw
    · split at h <;> cases h
  · cases h

theorem exists_decodeHeaderValue_headerParamValue {strict : Bool} {value : Json φ} {raw : Str}
    (h : headerParamValue strict value = some (some raw)) :
    ∃ text, decodeHeaderValue raw = some text := by
  rw [decodeHeaderValue_headerParamValue h]
  cases value <;> first | exact ⟨_, rfl⟩ | cases h

end CosaiMcp.Protocol
