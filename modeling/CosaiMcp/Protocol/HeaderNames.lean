import CosaiMcp.Protocol.Annotations

/-!
# The names of mirrored headers

A name that is kept is a token of HTTP, but for a line feed at its end, which the pattern lets
through (`legalNames_iff`). `mem_validAnnotations_iff` says which annotations of the walk are kept.
-/

namespace CosaiMcp.Protocol

open Py

variable {φ : Type} {U : UnicodeData}

theorem isToken_iff {name : Str} : isToken name = true ↔
    ∃ body, body ≠ [] ∧ (∀ c ∈ body, isTokenChar c = true) ∧ (name = body ∨ name = body ++ [10]) := by
  unfold isToken
  simp only [Bool.and_eq_true, decide_eq_true_eq, List.all_eq_true]
  constructor
  · rintro ⟨hne, hall⟩
    refine ⟨_, hne, hall, ?_⟩
    split
    · next hend =>
      obtain ⟨body, rfl⟩ := List.isSuffixOf_iff_suffix.mp hend
      exact .inr (by rw [List.dropLast_concat])
    · exact .inl rfl
  · rintro ⟨body, hne, hall, rfl | rfl⟩
    · have hend : endsWith name [10] = false := by
        refine Bool.eq_false_iff.mpr fun hend => ?_
        have hsuf : [10] <:+ name := List.isSuffixOf_iff_suffix.mp hend
        exact absurd (hall 10 (hsuf.subset List.mem_cons_self)) (by decide)
      rw [hend]
      exact ⟨hne, hall⟩
    · have hend : endsWith (body ++ [10]) [10] = true :=
        List.isSuffixOf_iff_suffix.mpr (List.suffix_append body [10])
      rw [hend, if_pos rfl, List.dropLast_concat]
      exact ⟨hne, hall⟩

variable (U) in
/-- The annotation `a` of the list, the first of its name whatever the case, names a header and has
a type that one carries. -/
def KeptIn (seen : List Str) (l : List (Str × List Str × Json φ)) (a : Str × List Str) : Prop :=
  ∃ before typ after, l = before ++ (a.1, a.2, typ) :: after ∧ isToken a.1 = true ∧
    U.lower a.1 ∉ seen ∧ (∀ b ∈ before, isToken b.1 = true → U.lower b.1 ≠ U.lower a.1) ∧
    isPrimitiveType typ = true

theorem keptIn_cons {seen : List Str} {name : Str} {path : List Str} {typ : Json φ}
    {l : List (Str × List Str × Json φ)} {a : Str × List Str} :
    KeptIn U seen ((name, path, typ) :: l) a ↔
      (a = (name, path) ∧ isToken name = true ∧ U.lower name ∉ seen ∧ isPrimitiveType typ = true) ∨
        (KeptIn U seen l a ∧ (isToken name = true → U.lower name ≠ U.lower a.1)) := by
  constructor
  · rintro ⟨before, typ', after, heq, htoken, hseen, hbefore, hprim⟩
    cases before with
    | nil =>
      cases heq
      exact .inl ⟨rfl, htoken, hseen, hprim⟩
    | cons b before =>
      obtain ⟨rfl, rfl⟩ := List.cons.inj heq
      obtain ⟨hb, hbefore⟩ := List.forall_mem_cons.mp hbefore
      exact .inr ⟨⟨before, typ', after, rfl, htoken, hseen, hbefore, hprim⟩, hb⟩
  · rintro (⟨rfl, htoken, hseen, hprim⟩ |
      ⟨⟨before, typ', after, rfl, htoken, hseen, hbefore, hprim⟩, hne⟩)
    · exact ⟨[], typ, l, rfl, htoken, hseen, nofun, hprim⟩
    · exact ⟨(name, path, typ) :: before, typ', after, rfl, htoken, hseen,
        List.forall_mem_cons.mpr ⟨hne, hbefore⟩, hprim⟩

theorem keptIn_seen {seen : List Str} {name : Str} {l : List (Str × List Str × Json φ)}
    {a : Str × List Str} :
    KeptIn U (name :: seen) l a ↔ KeptIn U seen l a ∧ name ≠ U.lower a.1 := by
  simp only [KeptIn, List.mem_cons, not_or]
  constructor
  · rintro ⟨before, typ, after, heq, htoken, ⟨hne, hseen⟩, hrest⟩
    exact ⟨⟨before, typ, after, heq, htoken, hseen, hrest⟩, Ne.symm hne⟩
  · rintro ⟨⟨before, typ, after, heq, htoken, hseen, hrest⟩, hne⟩
    exact ⟨before, typ, after, heq, htoken, ⟨Ne.symm hne, hseen⟩, hrest⟩

/-- Which annotations of the walk are kept. -/
theorem mem_validAnnotations_iff {a : Str × List Str} {l : List (Str × List Str × Json φ)}
    {seen : List Str} : a ∈ validAnnotations U seen l ↔ KeptIn U seen l a := by
  induction l generalizing seen with
  | nil =>
    refine ⟨nofun, ?_⟩
    rintro ⟨before, typ, after, h, -⟩
    exact absurd h (by simp)
  | cons c l ih =>
    obtain ⟨name, path, typ⟩ := c
    rw [validAnnotations, keptIn_cons]
    split
    · next hskip =>
      rw [ih]
      constructor
      · intro h
        refine .inr ⟨h, fun htoken heq => ?_⟩
        obtain ⟨-, -, -, -, -, hseen, -⟩ := h
        rcases hskip with hskip | hskip
        · rw [hskip] at htoken
          cases htoken
        · exact hseen (heq ▸ hskip)
      · rintro (⟨-, htoken, hseen, -⟩ | ⟨h, -⟩)
        · rcases hskip with hskip | hskip
          · rw [hskip] at htoken
            cases htoken
          · exact absurd hskip hseen
        · exact h
    · next hkeep =>
      obtain ⟨htoken, hseen⟩ := not_or.mp hkeep
      have htoken : isToken name = true := by simpa using htoken
      split
      · next hprim =>
        rw [List.mem_cons, ih, keptIn_seen]
        exact or_congr ⟨fun h => ⟨h, htoken, hseen, hprim⟩, fun h => h.1⟩
          (and_congr_right fun _ => ⟨fun h _ => h, fun h => h htoken⟩)
      · next hprim =>
        rw [ih, keptIn_seen]
        constructor
        · exact fun h => .inr ⟨h.1, fun _ => h.2⟩
        · rintro (⟨-, -, -, h⟩ | ⟨h, hne⟩)
          · exact absurd h hprim
          · exact ⟨h, hne htoken⟩

/-! ## Legal names -/

/-- A field name of HTTP. -/
def IsFieldName (name : Str) : Prop := name ≠ [] ∧ ∀ c ∈ name, isTokenChar c = true

variable (U) in
/-- Every kept name is a field name, no two are the same whatever the case, and so for the headers
that arguments give, which have these names after the prefix. -/
structure LegalNames (inputSchema : Json φ) : Prop where
  legal : ∀ a ∈ xMcpHeaderAnnotations U inputSchema, IsFieldName a.1
  distinct : ((xMcpHeaderAnnotations U inputSchema).map fun a => U.lower a.1).Nodup
  headers : ∀ strict arguments headers,
    xMcpParamHeaders U strict inputSchema arguments = some headers →
      (∀ p ∈ headers.items, ∃ a ∈ xMcpHeaderAnnotations U inputSchema,
        p.1 = headerParamPrefix ++ a.1) ∧
      (headers.items.map fun p => U.lower p.1).Nodup

theorem headers_of_annotations {strict : Bool} {inputSchema arguments : Json φ}
    {headers : Dict Str Str} (h : xMcpParamHeaders U strict inputSchema arguments = some headers) :
    (∀ p ∈ headers.items, ∃ a ∈ xMcpHeaderAnnotations U inputSchema,
        p.1 = headerParamPrefix ++ a.1) ∧ (headers.items.map fun p => U.lower p.1).Nodup := by
  rw [items_xMcpParamHeaders h]
  constructor
  · intro p hp
    obtain ⟨a, ha, hmirrored⟩ := List.mem_filterMap.mp hp
    obtain ⟨raw, -, rfl⟩ := Option.map_eq_some_iff.mp hmirrored
    exact ⟨a, ha, rfl⟩
  · have hkeys : (((xMcpHeaderAnnotations U inputSchema).filterMap fun a =>
        (headerParamValue strict (argAt arguments a.2)).join.map (paramHeader U a.1, ·)).map
          Prod.fst).Nodup := Dict.nodup_keys_filterMap (nodup_paramHeader U inputSchema)
    have heq : ((xMcpHeaderAnnotations U inputSchema).filterMap (mirrored strict arguments)).map
        (fun p => U.lower p.1) = ((xMcpHeaderAnnotations U inputSchema).filterMap fun a =>
          (headerParamValue strict (argAt arguments a.2)).join.map (paramHeader U a.1, ·)).map
            Prod.fst := by
      rw [List.map_filterMap, List.map_filterMap]
      refine List.filterMap_congr fun a _ => ?_
      rw [mirrored, Option.map_map, Option.map_map]
      rfl
    rw [heq]
    exact hkeys

/-- The names are legal unless an annotation that is kept ends in a line feed. -/
theorem legalNames_iff (U : UnicodeData) (inputSchema : Json φ) :
    LegalNames U inputSchema ↔ ∀ before name path typ after,
      walkAnnotations 17 inputSchema [] = before ++ (name ++ [10], path, typ) :: after →
      IsFieldName name → isPrimitiveType typ = true →
        ∃ b ∈ before, isToken b.1 = true ∧ U.lower b.1 = U.lower (name ++ [10]) := by
  constructor
  · rintro ⟨hlegal, -, -⟩ before name path typ after hwalk ⟨hne, hname⟩ hprim
    by_contra hfirst
    have hkept : (name ++ [10], path) ∈ xMcpHeaderAnnotations U inputSchema := by
      refine mem_validAnnotations_iff.mpr
        ⟨before, typ, after, hwalk, ?_, List.not_mem_nil, ?_, hprim⟩
      · exact isToken_iff.mpr ⟨name, hne, hname, .inr rfl⟩
      · exact fun b hb htoken heq => hfirst ⟨b, hb, htoken, heq⟩
    have hfeed := (hlegal _ hkept).2 10 (by simp)
    exact absurd hfeed (by decide)
  · intro h
    refine ⟨fun a ha => ?_, nodup_xMcpHeaderAnnotations U inputSchema,
      fun strict arguments headers => headers_of_annotations⟩
    obtain ⟨before, typ, after, hwalk, htoken, -, hbefore, hprim⟩ := mem_validAnnotations_iff.mp ha
    obtain ⟨body, hne, hbody, hname | hname⟩ := isToken_iff.mp htoken
    · exact hname ▸ ⟨hne, hbody⟩
    · rw [hname] at hwalk hbefore
      obtain ⟨b, hb, htoken, heq⟩ := h before body a.2 typ after hwalk ⟨hne, hbody⟩ hprim
      exact absurd heq (hbefore b hb htoken)

/-- A name with a line feed at its end is kept. -/
theorem line_feed_kept : ¬ LegalNames UnicodeData.ascii (Json.obj (φ := Empty)
    [(lit "properties", .obj [(lit "r", .obj
      [(lit "type", .str (lit "string")), (lit "x-mcp-header", .str (lit "Region\n"))])])]) := by
  intro h
  have hlegal := h.legal (lit "Region\n", [lit "r"]) (by decide)
  exact absurd (hlegal.2 10 (by decide)) (by decide)

end CosaiMcp.Protocol
