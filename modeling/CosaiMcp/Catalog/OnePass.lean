import CosaiMcp.Catalog.TemplateExpansion

/-!
# Substitution as one pass

The variables of a payload are replaced one after the other, each in what the others have left. That
is one pass over the strings as they are written exactly if in those that come to be replaced no
token of a variable arises from the values of others and the text around them (`onePass_iff`): the
check of the values excludes double braces, but not a single brace that meets one of the text.
-/

namespace CosaiMcp.Catalog

open Py Expand

variable {φ : Type}

/-! ## One pass -/

/-- The variables by their names without braces. -/
def bareNames (vars : Dict Str Str) : Dict Str Str :=
  Dict.ofList (vars.items.map fun m => (stripBraces m.1, m.2))

/-- The variables that a string may have. -/
def allowedItems (items : List (Str × Str)) : List (Str × Str) :=
  items.filter fun m => m.1 ∈ allowedNames

/-- The tokens of a string replaced by the values of their variables in one pass. -/
def onePassStr (items : List (Str × Str)) (s : Str) : Str := expand (rules (allowedItems items)) s

section

variable (items : List (Str × Str))

mutual

def onePassValue : Json φ → Json φ
  | .str s => .str (onePassStr items s)
  | .obj ms => .obj (onePassMembers ms)
  | .arr js => .arr (onePassItems js)
  | .null => .null
  | .bool b => .bool b
  | .int n => .int n
  | .float x => .float x
  | .nan => .nan

def onePassItems : List (Json φ) → List (Json φ)
  | [] => []
  | j :: js => onePassValue j :: onePassItems js

def onePassMembers : List (Str × Json φ) → List (Str × Json φ)
  | [] => []
  | (k, v) :: ms => (k, onePassValue v) :: onePassMembers ms

end

/-- The variables of the string and all values are accepted, so that the replacing begins. -/
structure Replaceable (s : Str) : Prop where
  tokens : ∀ t ∈ findTemplates s.length s, t ∈ allowedVars
  values : ∀ m ∈ items, ¬ openBraces <:+: m.2 ∧ ¬ closeBraces <:+: m.2

/-- After any of the other variables have been expanded in one pass, the token of a variable is
where the string has it and nowhere else. -/
def NoNewToken (s : Str) : Prop :=
  ∀ done m rest, (done ++ m :: rest).Perm items →
    (m.1 ∈ allowedNames → ¬ Stray (rules (allowedItems done)) (token m.1) s) ∧
      (m.1 ∉ allowedNames → ¬ token m.1 <:+: onePassStr done s)

end

mutual

/-- The strings of a payload, in the order in which they are replaced. -/
def stringsOf : Json φ → List Str
  | .str s => [s]
  | .obj ms => stringsOfMembers ms
  | .arr js => stringsOfItems js
  | .null | .bool _ | .int _ | .float _ | .nan => []

def stringsOfItems : List (Json φ) → List Str
  | [] => []
  | j :: js => stringsOf j ++ stringsOfItems js

def stringsOfMembers : List (Str × Json φ) → List Str
  | [] => []
  | (_, v) :: ms => stringsOf v ++ stringsOfMembers ms

end

/-- The string comes to be replaced, where `Through` says which strings go through. -/
def ComesUp (Through : Str → Prop) (items : List (Str × Str)) (payload : Json φ) (s : Str) : Prop :=
  ∃ before after, stringsOf payload = before ++ s :: after ∧ (∀ t ∈ before, Through t) ∧
    Replaceable items s

/-- The string goes through. -/
def GoesThrough (names : Dict Str Str) (s : Str) : Prop := ∃ t, substituteStr names s = .ok t

/-- One pass over the string leaves no double braces. -/
def Expands (items : List (Str × Str)) (s : Str) : Prop :=
  Replaceable items s ∧ ¬ openBraces <:+: onePassStr items s

/-- The result is that of one pass and the same in every order of the variables, and in whatever
order they are replaced, no text of a value becomes part of a token: what has been replaced at any
time, in a string that comes to be replaced, are tokens of the string itself. -/
structure OnePass (vars : Dict Str Str) (payload : Json φ) : Prop where
  result : ∀ r, substituteProbePayload vars payload = .ok r →
    r = onePassValue (bareNames vars).items payload
  order : ∀ vars', (∀ name, (bareNames vars').get? name = (bareNames vars).get? name) →
    substituteProbePayload vars' payload = substituteProbePayload vars payload
  apart : ∀ s, ComesUp (GoesThrough (bareNames vars)) (bareNames vars).items payload s →
    ∀ done rest, (done ++ rest).Perm (bareNames vars).items →
      done.foldl (fun result m => replaceStr result (token m.1) m.2) s = onePassStr done s

/-! ## One step -/

section Step

variable {items : List (Str × Str)}

theorem allowedItems_append (items items' : List (Str × Str)) :
    allowedItems (items ++ items') = allowedItems items ++ allowedItems items' :=
  List.filter_append ..

theorem marked_allowed (hnodup : (items.map Prod.fst).Nodup) :
    Marked 123 (rules (allowedItems items)) :=
  marked_rules (hnodup.sublist (List.filter_sublist.map Prod.fst)) fun m hm => by
    simpa using (List.mem_filter.mp hm).2

theorem onePassStr_perm {items' : List (Str × Str)} (hnodup : (items.map Prod.fst).Nodup)
    (h : items.Perm items') (s : Str) : onePassStr items s = onePassStr items' s := by
  have hperm : (rules (allowedItems items)).Perm (rules (allowedItems items')) :=
    (h.filter _).map _
  exact expand_congr (marked_allowed hnodup) (fun r => hperm.mem_iff) s

theorem token_ne_nil (name : Str) : token name ≠ [] := by simp [token, openBraces]

theorem openBraces_infix_token (name : Str) : openBraces <:+: token name :=
  ⟨[], name ++ closeBraces, by simp [token]⟩

theorem token_inj {name name' : Str} (h : token name = token name') : name = name' :=
  List.append_cancel_left (List.append_cancel_right h)

/-- Replacing one more variable is one pass over it and the earlier ones, unless its token has
arisen from their values. -/
theorem replaceStr_onePassStr_iff {done : List (Str × Str)} {m : Str × Str}
    (hnodup : ((done ++ [m]).map Prod.fst).Nodup) (hvalue : ¬ openBraces <:+: m.2) (s : Str) :
    replaceStr (onePassStr done s) (token m.1) m.2 = onePassStr (done ++ [m]) s ↔
      (m.1 ∈ allowedNames → ¬ Stray (rules (allowedItems done)) (token m.1) s) ∧
        (m.1 ∉ allowedNames → ¬ token m.1 <:+: onePassStr done s) := by
  have hne : m.2 ≠ token m.1 := fun heq => hvalue (heq ▸ openBraces_infix_token m.1)
  rw [replaceStr_eq]
  by_cases hname : m.1 ∈ allowedNames
  · have hallowed : allowedItems [m] = [m] := List.filter_eq_self.mpr (by simpa using hname)
    have hperm : (m :: done).Perm (done ++ [m]) := (List.perm_append_singleton m done).symm
    have hmarked : Marked 123 ((token m.1, m.2) :: rules (allowedItems done)) := by
      have := marked_allowed ((hperm.map Prod.fst).nodup_iff.mpr hnodup)
      rwa [show m :: done = [m] ++ done from rfl, allowedItems_append, hallowed] at this
    have hnot : (token m.1, m.2) ∉ rules (allowedItems done) := by
      intro hmem
      obtain ⟨n, hn, heq⟩ := List.mem_map.mp hmem
      have hkey : n.1 = m.1 := token_inj (congrArg Prod.fst heq)
      rw [List.map_append, List.nodup_append] at hnodup
      exact hnodup.2.2 n.1 (List.mem_map_of_mem (List.mem_of_mem_filter hn)) m.1
        List.mem_cons_self hkey
    have hpass : onePassStr (done ++ [m]) s =
        expand ((token m.1, m.2) :: rules (allowedItems done)) s := by
      rw [← onePassStr_perm ((hperm.map Prod.fst).nodup_iff.mpr hnodup) hperm, onePassStr,
        show m :: done = [m] ++ done from rfl, allowedItems_append, hallowed]
      rfl
    rw [hpass, onePassStr, expand_two_eq_iff hmarked hnot hne]
    exact ⟨fun h => ⟨fun _ => h, fun hnotin => absurd hname hnotin⟩, fun h => h.1 hname⟩
  · have hallowed : allowedItems [m] = [] := List.filter_eq_nil_iff.mpr (by simpa using hname)
    rw [onePassStr, onePassStr, allowedItems_append, hallowed, List.append_nil,
      expand_single_eq_iff (token_ne_nil _) hne]
    exact ⟨fun h => ⟨fun hin => absurd hin hname, fun _ => h⟩, fun h => h.2 hname⟩

/-- Where no new token arises, the variables replaced so far are expanded as in one pass. -/
theorem foldl_eq_onePassStr {s : Str} (hnodup : (items.map Prod.fst).Nodup)
    (hvalues : ∀ m ∈ items, ¬ openBraces <:+: m.2) (h : NoNewToken items s)
    (done rest : List (Str × Str)) (hperm : (done ++ rest).Perm items) :
    done.foldl (fun result m => replaceStr result (token m.1) m.2) s = onePassStr done s := by
  induction done using List.reverseRecOn generalizing rest with
  | nil => exact (expand_nil s).symm
  | append_singleton done m ih =>
    rw [List.append_assoc] at hperm
    have hkeys : ((done ++ [m]).map Prod.fst).Nodup := by
      have hall := (hperm.map Prod.fst).nodup_iff.mpr hnodup
      rw [← List.append_assoc, List.map_append] at hall
      exact (List.nodup_append.mp hall).1
    have hvalue := hvalues m (hperm.mem_iff.mp (by simp))
    rw [List.foldl_append, ih ([m] ++ rest) hperm]
    exact (replaceStr_onePassStr_iff hkeys hvalue s).mpr (h done m rest hperm)

/-- Conversely, the variables before one whose token arises show it. -/
theorem noNewToken_of_foldl {s : Str} (hnodup : (items.map Prod.fst).Nodup)
    (hvalues : ∀ m ∈ items, ¬ openBraces <:+: m.2)
    (h : ∀ done rest, (done ++ rest).Perm items →
      done.foldl (fun result m => replaceStr result (token m.1) m.2) s = onePassStr done s) :
    NoNewToken items s := by
  intro done m rest hperm
  have hperm' : ((done ++ [m]) ++ rest).Perm items := by rwa [List.append_assoc]
  have hkeys : ((done ++ [m]).map Prod.fst).Nodup := by
    have hall := (hperm'.map Prod.fst).nodup_iff.mpr hnodup
    rw [List.map_append] at hall
    exact (List.nodup_append.mp hall).1
  have hvalue := hvalues m (hperm.mem_iff.mp (by simp))
  have hstep := h (done ++ [m]) rest hperm'
  rw [List.foldl_append, h done (m :: rest) hperm] at hstep
  exact (replaceStr_onePassStr_iff hkeys hvalue s).mp hstep

end Step

/-! ## Strings -/

section Strings

variable {names names' : Dict Str Str} {s t : Str}

theorem replaceable_of_ok (h : substituteStr names s = .ok t) : Replaceable names.items s := by
  unfold substituteStr at h
  split at h
  · cases h
  next htokens =>
  split at h
  · cases h
  next hvalues =>
  refine ⟨by simpa using htokens, fun m hm => ?_⟩
  have hval := List.any_eq_false.mp (Bool.eq_false_of_not_eq_true hvalues) m.2
    (Dict.mem_values_iff.mpr ⟨m.1, hm⟩)
  simpa using hval

theorem substituteStr_of_replaceable (h : Replaceable names.items s) :
    substituteStr names s =
      let result := names.items.foldl (fun result m => replaceStr result (token m.1) m.2) s
      if openBraces <:+: result then .error .templateInjection else .ok result := by
  unfold substituteStr
  split
  next hbad => exact absurd h.tokens (by simpa using hbad)
  split
  next hbad =>
    obtain ⟨val, hval, hbad⟩ := List.any_eq_true.mp hbad
    obtain ⟨k, hmem⟩ := Dict.mem_values_iff.mp hval
    exact absurd (h.values _ hmem) (by simpa [not_and_or, or_iff_not_imp_left] using hbad)
  dsimp only
  split
  next hopen => exact (if_pos hopen).symm
  next hopen => exact (if_neg hopen).symm

theorem substituteStr_of_not_replaceable (h : ¬ Replaceable names.items s) :
    substituteStr names s = .error (if ∀ t ∈ findTemplates s.length s, t ∈ allowedVars
      then .templateInjection else .unknownVariable) := by
  unfold substituteStr
  split
  next hbad => rw [if_neg (by simpa using hbad)]
  next htokens =>
  have htokens : ∀ t ∈ findTemplates s.length s, t ∈ allowedVars := by simpa using htokens
  rw [if_pos htokens]
  split
  · rfl
  next hvalues =>
  refine absurd ⟨htokens, fun m hm => ?_⟩ h
  have hval := List.any_eq_false.mp (Bool.eq_false_of_not_eq_true hvalues) m.2
    (Dict.mem_values_iff.mpr ⟨m.1, hm⟩)
  simpa using hval

theorem substituteStr_eq_onePassStr (hnew : Replaceable names.items s → NoNewToken names.items s)
    (h : substituteStr names s = .ok t) : t = onePassStr names.items s := by
  have hreplaceable := replaceable_of_ok h
  have hfold := (substituteStr_eq_ok h).2.2.2
  rw [← foldl_replaceStr] at hfold
  rw [hfold]
  exact foldl_eq_onePassStr names.nodup (fun m hm => (hreplaceable.values m hm).1) (hnew hreplaceable)
    names.items [] (by rw [List.append_nil])

/-- In another order of the variables the outcome is the same. -/
theorem substituteStr_congr (hperm : names'.items.Perm names.items)
    (hnew : Replaceable names.items s → NoNewToken names.items s) :
    substituteStr names' s = substituteStr names s := by
  have hiff : Replaceable names'.items s ↔ Replaceable names.items s :=
    ⟨fun h => ⟨h.tokens, fun m hm => h.values m (hperm.mem_iff.mpr hm)⟩,
      fun h => ⟨h.tokens, fun m hm => h.values m (hperm.mem_iff.mp hm)⟩⟩
  by_cases hreplaceable : Replaceable names.items s
  · have hvalues : ∀ m ∈ names.items, ¬ openBraces <:+: m.2 := fun m hm =>
      (hreplaceable.values m hm).1
    have hfold (items : List (Str × Str)) (h : items.Perm names.items) :
        items.foldl (fun result m => replaceStr result (token m.1) m.2) s =
          onePassStr names.items s := by
      have hnodup := (h.map Prod.fst).nodup_iff.mpr names.nodup
      rw [foldl_eq_onePassStr names.nodup hvalues (hnew hreplaceable) items []
        (by rwa [List.append_nil])]
      exact onePassStr_perm hnodup h s
    rw [substituteStr_of_replaceable hreplaceable,
      substituteStr_of_replaceable (hiff.mpr hreplaceable), hfold _ hperm, hfold _ (List.Perm.refl _)]
  · rw [substituteStr_of_not_replaceable hreplaceable, substituteStr_of_not_replaceable fun h =>
      hreplaceable (hiff.mp h)]

end Strings

/-! ## Payloads -/

section Payloads

variable {names names' : Dict Str Str}

theorem onePassItems_eq (items : List (Str × Str)) (js : List (Json φ)) :
    onePassItems items js = js.map (onePassValue items) := by
  induction js with
  | nil => rfl
  | cons j js ih => rw [onePassItems, ih, List.map_cons]

theorem onePassMembers_eq (items : List (Str × Str)) (ms : List (Str × Json φ)) :
    onePassMembers items ms = ms.map fun m => (m.1, onePassValue items m.2) := by
  induction ms with
  | nil => rfl
  | cons m ms ih => rw [onePassMembers, ih, List.map_cons]

theorem mem_stringsOfItems {js : List (Json φ)} {s : Str} :
    s ∈ stringsOfItems js ↔ ∃ j ∈ js, s ∈ stringsOf j := by
  induction js with
  | nil => simp [stringsOfItems]
  | cons j js ih => simp [stringsOfItems, ih]

theorem mem_stringsOfMembers {ms : List (Str × Json φ)} {s : Str} :
    s ∈ stringsOfMembers ms ↔ ∃ m ∈ ms, s ∈ stringsOf m.2 := by
  induction ms with
  | nil => simp [stringsOfMembers]
  | cons m ms ih => simp [stringsOfMembers, ih]

/-- Where the substitution returns, every string went through. -/
theorem goesThrough_of_ok {j r : Json φ} (h : substituteValue names j = .ok r) :
    ∀ s ∈ stringsOf j, GoesThrough names s := by
  induction j using Json.induct generalizing r with
  | str s =>
    obtain ⟨t, ht, -⟩ := bind_eq_ok_iff.mp h
    exact List.forall_mem_singleton.mpr ⟨t, ht⟩
  | arr js ih =>
    intro s hs
    obtain ⟨j, hj, hs⟩ := mem_stringsOfItems.mp hs
    obtain ⟨t, ht⟩ := (substituteValue_arr.mp h).1 j hj
    exact ih j hj ht s hs
  | obj ms ih =>
    intro s hs
    obtain ⟨m, hm, hs⟩ := mem_stringsOfMembers.mp hs
    obtain ⟨t, ht⟩ := (substituteValue_obj.mp h).1 m hm
    exact ih m hm ht s hs
  | _ => exact List.forall_mem_nil _

theorem substituteValue_eq_onePassValue {j r : Json φ}
    (hstr : ∀ s ∈ stringsOf j, ∀ t, substituteStr names s = .ok t →
      t = onePassStr names.items s)
    (h : substituteValue names j = .ok r) : r = onePassValue names.items j := by
  induction j using Json.induct generalizing r with
  | str s =>
    obtain ⟨t, ht, h⟩ := bind_eq_ok_iff.mp h
    cases h
    rw [onePassValue, hstr s (List.mem_singleton_self s) t ht]
  | arr js ih =>
    obtain ⟨hjs, rfl⟩ := substituteValue_arr.mp h
    rw [onePassValue, onePassItems_eq]
    refine congrArg Json.arr (List.map_congr_left fun j hj => ?_)
    exact ih j hj (fun s hs => hstr s (mem_stringsOfItems.mpr ⟨j, hj, hs⟩))
      (substituteValue_of_exists (hjs j hj))
  | obj ms ih =>
    obtain ⟨hms, rfl⟩ := substituteValue_obj.mp h
    rw [onePassValue, onePassMembers_eq]
    refine congrArg Json.obj (List.map_congr_left fun m hm => congrArg (Prod.mk m.1) ?_)
    exact ih m hm (fun s hs => hstr s (mem_stringsOfMembers.mpr ⟨m, hm, hs⟩))
      (substituteValue_of_exists (hms m hm))
  | _ =>
    cases h
    rfl

/-- The two maps of variables treat every string alike that has only strings before it that go
through. -/
def Agree (names names' : Dict Str Str) (ss : List Str) : Prop :=
  ∀ before s after, ss = before ++ s :: after → (∀ t ∈ before, GoesThrough names t) →
    substituteStr names' s = substituteStr names s

theorem Agree.left {ss ss' : List Str} (h : Agree names names' (ss ++ ss')) :
    Agree names names' ss := by
  rintro before s after rfl hbefore
  exact h before s (after ++ ss') (by simp) hbefore

theorem Agree.right {ss ss' : List Str} (h : Agree names names' (ss ++ ss'))
    (hss : ∀ s ∈ ss, GoesThrough names s) : Agree names names' ss' := by
  rintro before s after rfl hbefore
  exact h (ss ++ before) s after (by simp) (List.forall_mem_append.mpr ⟨hss, hbefore⟩)

theorem substituteValue_congr {j : Json φ} (h : Agree names names' (stringsOf j)) :
    substituteValue names' j = substituteValue names j := by
  induction j using Json.induct with
  | str s =>
    rw [substituteValue, substituteValue, h [] s [] rfl (List.forall_mem_nil _)]
  | arr js ih =>
    have hitems : substituteItems names' js = substituteItems names js := by
      rw [stringsOf] at h
      induction js with
      | nil => rfl
      | cons j js ihs =>
        rw [stringsOfItems] at h
        rw [substituteItems, substituteItems, ih j List.mem_cons_self h.left]
        cases hj : substituteValue names j with
        | error e => rfl
        | ok r =>
          rw [ihs (fun j hj => ih j (List.mem_cons_of_mem _ hj)) (h.right (goesThrough_of_ok hj))]
    rw [substituteValue, substituteValue, hitems]
  | obj ms ih =>
    have hmembers : substituteMembers names' ms = substituteMembers names ms := by
      rw [stringsOf] at h
      induction ms with
      | nil => rfl
      | cons m ms ihs =>
        rw [stringsOfMembers] at h
        rw [substituteMembers, substituteMembers, ih m List.mem_cons_self h.left]
        cases hm : substituteValue names m.2 with
        | error e => rfl
        | ok r =>
          rw [ihs (fun m hm => ih m (List.mem_cons_of_mem _ hm)) (h.right (goesThrough_of_ok hm))]
    rw [substituteValue, substituteValue, hmembers]
  | _ => rfl

theorem perm_of_get?_eq (h : ∀ name, names'.get? name = names.get? name) :
    names'.items.Perm names.items := by
  refine (List.perm_ext_iff_of_nodup (names'.nodup.of_map _) (names.nodup.of_map _)).mpr fun m => ?_
  rw [← Dict.get?_eq_some_iff (k := m.1) (v := m.2), ← Dict.get?_eq_some_iff (k := m.1) (v := m.2),
    h]

theorem ComesUp.replaceable {Through : Str → Prop} {items : List (Str × Str)} {payload : Json φ}
    {s : Str} (h : ComesUp Through items payload s) : Replaceable items s := by
  obtain ⟨-, -, -, -, hreplaceable⟩ := h
  exact hreplaceable

/-- A string in which no token arises goes through exactly if one pass leaves no double braces. -/
theorem goesThrough_iff {s : Str} (hnew : Replaceable names.items s → NoNewToken names.items s) :
    GoesThrough names s ↔ Expands names.items s := by
  constructor
  · rintro ⟨t, ht⟩
    refine ⟨replaceable_of_ok ht, ?_⟩
    rw [← substituteStr_eq_onePassStr hnew ht]
    exact (substituteStr_eq_ok ht).2.2.1
  · rintro ⟨hreplaceable, hopen⟩
    have hvalues : ∀ m ∈ names.items, ¬ openBraces <:+: m.2 := fun m hm =>
      (hreplaceable.values m hm).1
    have hfold := foldl_eq_onePassStr names.nodup hvalues (hnew hreplaceable) names.items []
      (by rw [List.append_nil])
    rw [← hfold] at hopen
    exact ⟨_, (substituteStr_of_replaceable hreplaceable).trans (if_neg hopen)⟩

section Before

variable {payload : Json φ} {before after : List Str}

/-- As long as no token arises in those that come up, the strings that go through are those that one
pass leaves without double braces. -/
theorem through_before_iff (hss : stringsOf payload = before ++ after)
    (hnew : (∀ s, ComesUp (GoesThrough names) names.items payload s → NoNewToken names.items s) ∨
      ∀ s, ComesUp (Expands names.items) names.items payload s → NoNewToken names.items s) :
    (∀ t ∈ before, GoesThrough names t) ↔ ∀ t ∈ before, Expands names.items t := by
  induction before using List.reverseRecOn generalizing after with
  | nil => simp
  | append_singleton before t ih =>
    rw [List.append_assoc] at hss
    have hcongr := ih hss
    rw [List.forall_mem_append, List.forall_mem_append, List.forall_mem_singleton,
      List.forall_mem_singleton, hcongr]
    refine and_congr_right fun hexpands => goesThrough_iff fun ht => ?_
    obtain hnew | hnew := hnew
    · exact hnew t ⟨before, after, hss, hcongr.mpr hexpands, ht⟩
    · exact hnew t ⟨before, after, hss, hexpands, ht⟩

/-- So the strings that come up are the same by either account. -/
theorem comesUp_iff
    (hnew : (∀ s, ComesUp (GoesThrough names) names.items payload s → NoNewToken names.items s) ∨
      ∀ s, ComesUp (Expands names.items) names.items payload s → NoNewToken names.items s) {s : Str} :
    ComesUp (GoesThrough names) names.items payload s ↔
      ComesUp (Expands names.items) names.items payload s := by
  constructor
  · rintro ⟨before, after, hss, hthrough, hs⟩
    exact ⟨before, after, hss, (through_before_iff hss hnew).mp hthrough, hs⟩
  · rintro ⟨before, after, hss, hexpands, hs⟩
    exact ⟨before, after, hss, (through_before_iff hss hnew).mpr hexpands, hs⟩

end Before

/-- The substitution is one pass over the strings of the payload exactly if no token arises from the
values of other variables in a string that comes up, where one pass over each string before it
leaves no double braces. -/
theorem onePass_iff (vars : Dict Str Str) (payload : Json φ) :
    OnePass vars payload ↔
      ∀ s, ComesUp (Expands (bareNames vars).items) (bareNames vars).items payload s →
        NoNewToken (bareNames vars).items s := by
  constructor
  · intro h
    have hnew : ∀ s, ComesUp (GoesThrough (bareNames vars)) (bareNames vars).items payload s →
        NoNewToken (bareNames vars).items s := by
      intro s hs
      exact noNewToken_of_foldl (bareNames vars).nodup (fun m hm => (hs.replaceable.values m hm).1)
        (h.apart s hs)
    exact fun s hs => hnew s ((comesUp_iff (.inl hnew)).mpr hs)
  · intro h
    have hnew : ∀ s, ComesUp (GoesThrough (bareNames vars)) (bareNames vars).items payload s →
        NoNewToken (bareNames vars).items s := fun s hs => h s ((comesUp_iff (.inr h)).mp hs)
    refine ⟨fun r hr => ?_, fun vars' hsame => ?_, fun s hs => ?_⟩
    · have hthrough := goesThrough_of_ok hr
      refine substituteValue_eq_onePassValue (fun s hs t ht => ?_) hr
      obtain ⟨before, after, hss⟩ := List.append_of_mem hs
      refine substituteStr_eq_onePassStr (fun hreplaceable => hnew s ?_) ht
      refine ⟨before, after, hss, fun u hu => hthrough u ?_, hreplaceable⟩
      rw [hss]
      exact List.mem_append_left _ hu
    · refine substituteValue_congr fun before s after hss hthrough => ?_
      exact substituteStr_congr (perm_of_get?_eq hsame) fun hreplaceable =>
        hnew s ⟨before, after, hss, hthrough, hreplaceable⟩
    · exact foldl_eq_onePassStr (bareNames vars).nodup
        (fun m hm => (hs.replaceable.values m hm).1) (hnew s hs)

/-- A value that ends in a brace makes a token with the text after it. -/
theorem value_joins_token :
    ¬ OnePass (Dict.ofList [(lit "session_id", [123]), (lit "tool_name", lit "x")])
      (Json.obj (φ := Empty)
        [(lit "a", .str (token (lit "session_id") ++ 123 :: lit "tool_name" ++ closeBraces))]) := by
  have hstr : substituteStr (Dict.ofList [(lit "session_id", [123]), (lit "tool_name", lit "x")])
      (token (lit "session_id") ++ 123 :: lit "tool_name" ++ closeBraces) = .ok (lit "x") :=
    eq_ok_of_toOption (by decide +kernel)
  have hvars : bareNames (Dict.ofList [(lit "session_id", [123]), (lit "tool_name", lit "x")]) =
      Dict.ofList [(lit "session_id", [123]), (lit "tool_name", lit "x")] :=
    Dict.ext (by decide +kernel)
  intro h
  have hresult := h.result (.obj [(lit "a", .str (lit "x"))]) (by
    rw [substituteProbePayload, ← bareNames, hvars, substituteValue, substituteMembers,
      substituteMembers, substituteValue, hstr]
    rfl)
  rw [hvars, onePassValue, onePassMembers, onePassMembers, onePassValue] at hresult
  have htext := Json.str.inj (congrArg Prod.snd (List.cons.inj (Json.obj.inj hresult)).1)
  exact absurd htext (by decide +kernel)

end Payloads

end CosaiMcp.Catalog
