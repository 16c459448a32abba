import CosaiMcp.Catalog.OnePass

/-!
# Strings that a substitution accepts

Every `{{` of a string that passes the substitution opens one of its variables
(`tokenized_of_substituteStr`). Such a string does pass it with any values for all of them that make
no braces with the text around, and each value is then where its variable was
(`substituteStr_of_tokenized`). One variable can be replaced before that (`expand_replaceStr`).
-/

namespace CosaiMcp.Catalog

open Py Expand

variable {φ : Type}

/-- Every `{{` of the string opens a variable of `names`. -/
inductive Tokenized (names : List Str) : Str → Prop
  | text {s : Str} (hopen : cut? openBraces s = none) : Tokenized names s
  | token {s p rest name rest' : Str} (hopen : cut? openBraces s = some (p, rest))
      (hclose : cut? closeBraces rest = some (name, rest')) (hname : name ∈ names)
      (h : Tokenized names rest') : Tokenized names s

/-! ## What is refused -/

theorem eq_of_cuts {s p rest name rest' : Str} (hopen : cut? openBraces s = some (p, rest))
    (hclose : cut? closeBraces rest = some (name, rest')) : s = p ++ (token name ++ rest') := by
  rw [cut?_eq_some hopen, cut?_eq_some hclose, token]
  simp

theorem cut?_token (name s : Str) :
    cut? openBraces (token name ++ s) = some ([], name ++ closeBraces ++ s) := by
  have hpre : openBraces <+: 123 :: 123 :: (name ++ closeBraces ++ s) :=
    List.prefix_append openBraces _
  have htoken : token name ++ s = 123 :: 123 :: (name ++ closeBraces ++ s) := by
    simp [token, openBraces]
  rw [htoken, cut?, if_pos hpre]
  rfl

theorem length_of_cuts {s p rest name rest' : Str} (hopen : cut? openBraces s = some (p, rest))
    (hclose : cut? closeBraces rest = some (name, rest')) : rest'.length < s.length := by
  rw [eq_of_cuts hopen hclose, token]
  simp [openBraces]
  omega

/-- Where all tokens are allowed, only a `{{` that nothing closes is left. -/
theorem tokenized_or_open {n : Nat} {s : Str} (hlen : s.length ≤ n)
    (htokens : ∀ t ∈ findTemplates n s, t ∈ allowedVars) :
    Tokenized allowedNames s ∨
      ∃ p rest, s = p ++ 123 :: 123 :: rest ∧ cut? closeBraces rest = none := by
  induction n generalizing s with
  | zero =>
    obtain rfl := List.length_eq_zero_iff.mp (Nat.le_zero.mp hlen)
    exact .inl (.text rfl)
  | succ n ih =>
    rw [findTemplates] at htokens
    cases hopen : cut? openBraces s with
    | none => exact .inl (.text hopen)
    | some q =>
      obtain ⟨p, rest⟩ := q
      cases hclose : cut? closeBraces rest with
      | none => exact .inr ⟨p, rest, cut?_eq_some hopen, hclose⟩
      | some q =>
        obtain ⟨name, rest'⟩ := q
        rw [hopen] at htokens
        simp only [hclose] at htokens
        obtain ⟨htoken, htokens⟩ := List.forall_mem_cons.mp htokens
        have hname : name ∈ allowedNames := by
          obtain ⟨name', hname', heq⟩ := List.mem_map.mp htoken
          exact token_inj heq ▸ hname'
        have hlen' := length_of_cuts hopen hclose
        rcases ih (by omega) htokens with h | ⟨p', rest'', heq, hnone⟩
        · exact .inl (.token hopen hclose hname h)
        · refine .inr ⟨p ++ (token name ++ p'), rest'', ?_, hnone⟩
          rw [eq_of_cuts hopen hclose, heq]
          simp

theorem Tokenized.of_cuts {names : List Str} {s p rest name rest' : Str} (hs : Tokenized names s)
    (hopen : cut? openBraces s = some (p, rest))
    (hclose : cut? closeBraces rest = some (name, rest')) :
    name ∈ names ∧ Tokenized names rest' := by
  cases hs with
  | text hnone =>
    rw [hopen] at hnone
    cases hnone
  | token hopen' hclose' hname hrest =>
    cases hopen.symm.trans hopen'
    cases hclose.symm.trans hclose'
    exact ⟨hname, hrest⟩

theorem Tokenized.mono {names names' : List Str} {s : Str} (hs : Tokenized names s)
    (h : ∀ name ∈ names, Catalog.token name <:+: s → name ∈ names') : Tokenized names' s := by
  induction hs with
  | text hopen => exact .text hopen
  | token hopen hclose hname _ ih =>
    rw [eq_of_cuts hopen hclose] at h
    refine .token hopen hclose (h _ hname ⟨_, _, List.append_assoc _ _ _⟩)
      (ih fun name' hname' hin => h name' hname' (hin.trans ?_))
    exact ((List.suffix_append _ _).trans (List.suffix_append _ _)).isInfix

/-- A string that passes a substitution has open braces before its variables only. -/
theorem tokenized_of_substituteStr {vars : Dict Str Str} {s t : Str}
    (hnames : ∀ m ∈ vars.items, m.1 ∈ allowedNames) (h : substituteStr vars s = .ok t) :
    Tokenized vars.keys s := by
  refine Tokenized.mono ?_ fun name hname => value_of_substituteStr hnames h hname
  obtain ⟨htokens, -, hnot, hfold⟩ := substituteStr_eq_ok h
  refine (tokenized_or_open (Nat.le_refl _) htokens).resolve_right ?_
  rintro ⟨p, rest, rfl, hclose⟩
  -- a token has closed braces at its end
  have hno : ∀ rule ∈ rules vars.items, ¬ rule.1 <:+: 123 :: 123 :: rest := by
    intro rule hrule hin
    obtain ⟨m, -, rfl⟩ := List.mem_map.mp hrule
    have hend : closeBraces <:+: 123 :: 123 :: rest :=
      (List.suffix_append (openBraces ++ m.1) closeBraces).isInfix.trans hin
    have hskip {u : Str} (hu : closeBraces <:+: 123 :: u) : closeBraces <:+: u :=
      (List.infix_cons_iff.mp hu).resolve_left fun hpre =>
        absurd (List.cons_prefix_cons.mp hpre).1 (by decide)
    exact not_infix_of_cut?_eq_none hclose (hskip (hskip hend))
  obtain ⟨q, hq⟩ := foldl_append_open (marked_rules vars.nodup hnames) hno p
  rw [hfold, hq] at hnot
  exact hnot ⟨q, rest, by simp [openBraces]⟩

/-! ## What is accepted -/

section Accepted

variable {items : List (Str × Str)} {s : Str}

/-- All variables have values, and these have no open braces, also with a brace after them. -/
structure PlainValues (items : List (Str × Str)) : Prop where
  nodup : (items.map Prod.fst).Nodup
  names : ∀ m ∈ items, m.1 ∈ allowedNames
  all : ∀ name ∈ allowedNames, ∃ value, (name, value) ∈ items
  plain : ∀ m ∈ items, ¬ openBraces <:+: m.2 ++ [123]

theorem expand_cuts (h : Marked 123 (rules items)) {p rest name rest' value : Str}
    (hopen : cut? openBraces s = some (p, rest))
    (hclose : cut? closeBraces rest = some (name, rest')) (hvalue : (name, value) ∈ items) :
    expand (rules items) s = p ++ (value ++ expand (rules items) rest') := by
  have hp : ¬ openBraces <:+: p ++ (token name ++ rest').take 1 := not_infix_of_cut? hopen
  rw [eq_of_cuts hopen hclose, expand_append h hp]
  exact congrArg (p ++ ·) (expand_word h (List.mem_map_of_mem hvalue) rest')

theorem expand_text (hopen : cut? openBraces s = none) : expand (rules items) s = s := by
  refine expand_of_not_infix fun rule hrule hin => ?_
  obtain ⟨m, -, rfl⟩ := List.mem_map.mp hrule
  exact not_infix_of_cut?_eq_none hopen ((openBraces_infix_token m.1).trans hin)

/-- A text that has no open braces with a brace after it has none with a text after it that has
none. -/
theorem not_infix_append_plain {p u : Str} (hp : ¬ openBraces <:+: p ++ [123])
    (hu : ¬ openBraces <:+: u) : ¬ openBraces <:+: p ++ u := by
  refine not_infix_append (fun hin => hp (hin.trans (List.prefix_append p [123]).isInfix)) hu
    (.inl ?_)
  rintro ⟨q, rfl⟩
  exact hp ⟨q, [], by simp [openBraces]⟩

theorem not_infix_of_not_mem {v : Str} (hv : (123 : CodePoint) ∉ v) : ¬ openBraces <:+: v :=
  fun hin => hv (hin.subset List.mem_cons_self)

theorem plain_of_not_suffix {p : Str} (hp : ¬ openBraces <:+: p) (hlast : ¬ [123] <:+ p) :
    ¬ openBraces <:+: p ++ [123] :=
  not_infix_append hp (by decide) (.inl hlast)

/-- No braces are left, and no values come to make braces with the text around them. -/
theorem PlainValues.not_infix_expand (h : PlainValues items) (hs : Tokenized allowedNames s) :
    ¬ openBraces <:+: expand (rules items) s := by
  induction hs with
  | text hopen =>
    rw [expand_text hopen]
    exact not_infix_of_cut?_eq_none hopen
  | token hopen hclose hname _ ih =>
    obtain ⟨value, hvalue⟩ := h.all _ hname
    rw [expand_cuts (marked_rules h.nodup h.names) hopen hclose hvalue]
    exact not_infix_append_plain (not_infix_of_cut? hopen)
      (not_infix_append_plain (h.plain _ hvalue) ih)

theorem Tokenized.findTemplates (hs : Tokenized allowedNames s) (n : Nat) :
    ∀ t ∈ findTemplates n s, t ∈ allowedVars := by
  induction hs generalizing n with
  | text hopen =>
    cases n with
    | zero => exact List.forall_mem_nil _
    | succ n =>
      rw [Catalog.findTemplates, hopen]
      exact List.forall_mem_nil _
  | token hopen hclose hname _ ih =>
    cases n with
    | zero => exact List.forall_mem_nil _
    | succ n =>
      rw [Catalog.findTemplates, hopen]
      simp only [hclose]
      exact List.forall_mem_cons.mpr ⟨List.mem_map_of_mem hname, ih n⟩

/-- With values without braces for all variables, the string passes, each value in the place of its
variable. -/
theorem substituteStr_of_tokenized {vars : Dict Str Str} (h : PlainValues vars.items)
    (hclosed : ∀ m ∈ vars.items, ¬ closeBraces <:+: m.2) (hs : Tokenized allowedNames s) :
    substituteStr vars s = .ok (expand (rules vars.items) s) := by
  have hopened (m : Str × Str) (hm : m ∈ vars.items) : ¬ openBraces <:+: m.2 :=
    fun hin => h.plain m hm (hin.trans (List.prefix_append m.2 [123]).isInfix)
  have hreplaceable : Replaceable vars.items s :=
    ⟨hs.findTemplates _, fun m hm => ⟨hopened m hm, hclosed m hm⟩⟩
  have hnot := h.not_infix_expand hs
  have hfollows := follows_foldl (marked_rules h.nodup h.names) s
  rw [substituteStr_of_replaceable hreplaceable, foldl_replaceStr, hfollows.eq_of_not_infix hnot]
  exact if_neg hnot

/-- A text before the string that has no open braces with a brace after it brings in none. -/
theorem Tokenized.append_left {names : List Str} {p : Str} (hp : ¬ openBraces <:+: p ++ [123])
    (hs : Tokenized names s) : Tokenized names (p ++ s) := by
  cases hs with
  | text hopen => exact .text (by rw [cut?_append hp, hopen]; rfl)
  | token hopen hclose hname h =>
    exact .token (by rw [cut?_append hp, hopen]; rfl) hclose hname h

theorem cut?_name {name : Str} (hname : name ∈ allowedNames) (s : Str) :
    cut? closeBraces (name ++ closeBraces ++ s) = some (name, s) := by
  simp only [allowedNames, List.mem_cons, List.not_mem_nil, or_false] at hname
  rcases hname with rfl | rfl | rfl | rfl <;> rfl

section ReplaceOne

variable {names : List Str} {m : Str × Str}

theorem replaceStr_text (hopen : cut? openBraces s = none) : replaceStr s (token m.1) m.2 = s :=
  (replaceStr_eq _ _ _).trans (expand_text hopen : expand (rules [m]) s = s)

/-- One variable replaced, up to the first one and from there. -/
theorem replaceStr_cuts (hm : m.1 ∈ allowedNames) {p rest name rest' : Str}
    (hopen : cut? openBraces s = some (p, rest))
    (hclose : cut? closeBraces rest = some (name, rest')) (hname : name ∈ allowedNames) :
    replaceStr s (token m.1) m.2 =
      p ++ ((if name = m.1 then m.2 else token name) ++ replaceStr rest' (token m.1) m.2) := by
  have hone : Marked 123 (rules [m]) :=
    marked_rules (List.nodup_singleton _) (List.forall_mem_singleton.mpr hm)
  simp only [replaceStr_eq]
  by_cases heq : name = m.1
  · rw [if_pos heq]
    subst heq
    exact expand_cuts hone hopen hclose (List.mem_singleton_self m)
  · rw [if_neg heq]
    have hboth : Marked 123 (rules [(name, []), m]) :=
      marked_rules (by simpa using heq) (List.forall_mem_cons.mpr
        ⟨hname, List.forall_mem_singleton.mpr hm⟩)
    have hp : ¬ openBraces <:+: p ++ (token name ++ rest').take 1 := not_infix_of_cut? hopen
    have hmem : (token name, ([] : Str)) ∈ rules [(name, []), m] := List.mem_cons_self
    rw [eq_of_cuts hopen hclose]
    refine (expand_append hone hp).trans (congrArg (p ++ ·) (expand_other hboth
      (fun r hr => List.mem_cons_of_mem _ hr) hmem ?_ _))
    exact fun hin => heq (token_inj (congrArg Prod.fst (List.mem_singleton.mp hin)))

theorem Tokenized.replaceStr (hs : Tokenized names s) (hnames : ∀ name ∈ names, name ∈ allowedNames)
    (hm : m.1 ∈ allowedNames) (hplain : ¬ openBraces <:+: m.2 ++ [123]) :
    Tokenized (names.filter (· ≠ m.1)) (Catalog.replaceStr s (Catalog.token m.1) m.2) := by
  induction hs with
  | @text s hopen =>
    rw [replaceStr_text hopen]
    exact .text hopen
  | @token s p rest name rest' hopen hclose hname _ ih =>
    have hp := not_infix_of_cut? hopen
    rw [replaceStr_cuts hm hopen hclose (hnames _ hname)]
    by_cases heq : name = m.1
    · rw [if_pos heq]
      exact (ih.append_left hplain).append_left hp
    · rw [if_neg heq]
      refine Tokenized.append_left hp (.token (cut?_token _ _) (cut?_name (hnames _ hname) _) ?_ ih)
      exact List.mem_filter.mpr ⟨hname, by simpa using heq⟩

theorem expand_append_plain (h : Marked 123 (rules items)) {p : Str}
    (hp : ¬ openBraces <:+: p ++ [123]) (u : Str) :
    expand (rules items) (p ++ u) = p ++ expand (rules items) u := by
  refine expand_append h (not_infix_append_plain hp fun hin => ?_)
  have hlen := hin.length_le
  rw [List.length_take] at hlen
  exact absurd (hlen.trans (Nat.min_le_left 1 _)) (by decide)

/-- One variable can be replaced before the others. -/
theorem expand_replaceStr (hnodup : (items.map Prod.fst).Nodup)
    (hallowed : ∀ m ∈ items, m.1 ∈ allowedNames) (hm : m ∈ items)
    (hplain : ¬ openBraces <:+: m.2 ++ [123]) (hs : Tokenized (items.map Prod.fst) s) :
    expand (rules items) (replaceStr s (token m.1) m.2) = expand (rules items) s := by
  have hmarked := marked_rules hnodup hallowed
  induction hs with
  | @text s hopen => rw [replaceStr_text hopen]
  | @token s p rest name rest' hopen hclose hname _ ih =>
    obtain ⟨m', hm', rfl⟩ := List.mem_map.mp hname
    have hp := not_infix_of_cut? hopen
    rw [expand_cuts hmarked hopen hclose hm', replaceStr_cuts (hallowed m hm) hopen hclose
      (hallowed m' hm'), expand_append_plain hmarked hp]
    by_cases heq : m'.1 = m.1
    · obtain rfl : m' = m := List.inj_on_of_nodup_map hnodup hm' hm heq
      rw [if_pos rfl, expand_append_plain hmarked hplain, ih]
    · rw [if_neg heq]
      have hword := expand_word hmarked (List.mem_map_of_mem hm') (replaceStr rest' (token m.1) m.2)
      exact congrArg (p ++ ·) (hword.trans (congrArg (m'.2 ++ ·) ih))

/-- Only the values of the variables that a string has matter. -/
theorem expand_congr_of_tokenized {items' : List (Str × Str)} (h : Marked 123 (rules items))
    (h' : Marked 123 (rules items')) (hs : Tokenized names s)
    (hsame : ∀ name ∈ names, ∃ value, (name, value) ∈ items ∧ (name, value) ∈ items') :
    expand (rules items) s = expand (rules items') s := by
  induction hs with
  | text hopen => rw [expand_text hopen, expand_text hopen]
  | token hopen hclose hname _ ih =>
    obtain ⟨value, hvalue, hvalue'⟩ := hsame _ hname
    rw [expand_cuts h hopen hclose hvalue, expand_cuts h' hopen hclose hvalue', ih]

end ReplaceOne

end Accepted

/-! ## Payloads -/

section Payloads

variable {vars : Dict Str Str}

theorem substituteValue_of_strings {j : Json φ}
    (h : ∀ s, Nested (.str s) j → ∃ t, substituteStr vars s = .ok t) :
    ∃ r, substituteValue vars j = .ok r := by
  induction j using Json.induct with
  | str s =>
    obtain ⟨t, ht⟩ := h s .self
    exact ⟨.str t, by rw [substituteValue, ht]; rfl⟩
  | arr js ih =>
    exact ⟨_, substituteValue_arr.mpr ⟨fun j hj => ih j hj fun s hs => h s (.item hj hs), rfl⟩⟩
  | obj ms ih =>
    exact ⟨_, substituteValue_obj.mpr ⟨fun m hm => ih m hm fun s hs => h s (.member hm hs), rfl⟩⟩
  | _ => exact ⟨_, rfl⟩

/-- What is within a payload is within the result of the substitution, substituted. -/
theorem Nested.substituted {u j r : Json φ} (hu : Nested u j) (h : substituteValue vars j = .ok r) :
    ∃ w, Nested w r ∧ substituteValue vars u = .ok w := by
  induction hu generalizing r with
  | self => exact ⟨r, .self, h⟩
  | item hmem _ ih =>
    obtain ⟨hjs, rfl⟩ := substituteValue_arr.mp h
    obtain ⟨w, hw, hval⟩ := ih (substituteValue_of_exists (hjs _ hmem))
    exact ⟨w, .item (List.mem_map_of_mem hmem) hw, hval⟩
  | member hmem _ ih =>
    obtain ⟨hms, rfl⟩ := substituteValue_obj.mp h
    obtain ⟨w, hw, hval⟩ := ih (substituteValue_of_exists (hms _ hmem))
    have hmem' := List.mem_map_of_mem (f := fun m => (m.1, Catalog.substituted vars m.2)) hmem
    exact ⟨w, .member hmem' hw, hval⟩

end Payloads

end CosaiMcp.Catalog
