import CosaiMcp.Catalog.TemplateSpec
import CosaiMcp.Expand

/-!
# Variables expanded in one pass

`substituteStr` replaces one variable after the other, so that a value is read again with the text
around it. Up to the first `{{` of the text expanded in one pass that makes no difference
(`follows_of_substituteStr`): what stands before the first variable of a string is found at the head
of the result, and so is what a variable alone brings in after it.
-/

namespace CosaiMcp.Catalog

open Py Expand

/-! ## Tokens -/

def allowedNames : List Str :=
  [lit "target_url", lit "session_id", lit "tool_name", lit "canary"]

def token (name : Str) : Str := openBraces ++ name ++ closeBraces

/-- The variables as rules. -/
def rules (items : List (Str × Str)) : List (Str × Str) := items.map fun m => (token m.1, m.2)

theorem token_unique {k k' s : Str} (hk : k ∈ allowedNames) (hk' : k' ∈ allowedNames)
    (h : token k <+: s) (h' : token k' <+: s) : k = k' := by
  have hcompare : ∀ k ∈ allowedNames, ∀ k' ∈ allowedNames,
      token k <+: token k' ∨ token k' <+: token k → k = k' := by
    decide
  exact hcompare k hk k' hk' (List.prefix_or_prefix_of_prefix h h')

theorem token_eq {k : Str} (hk : k ∈ allowedNames) :
    ∃ a t, token k = 123 :: 123 :: a :: t ∧ (123 : CodePoint) ∉ a :: t := by
  have hhead : ∀ k ∈ allowedNames, k ≠ [] ∧ (123 : CodePoint) ∉ k ++ closeBraces := by
    decide
  obtain ⟨hne, hnot⟩ := hhead k hk
  obtain ⟨a, t, rfl⟩ := List.exists_cons_of_ne_nil hne
  exact ⟨a, t ++ closeBraces, rfl, hnot⟩

theorem marked_rules {items : List (Str × Str)} (hnodup : (items.map Prod.fst).Nodup)
    (hnames : ∀ m ∈ items, m.1 ∈ allowedNames) : Marked 123 (rules items) := by
  constructor
  · exact List.forall_mem_map.mpr fun m hm => token_eq (hnames m hm)
  · refine List.forall_mem_map.mpr fun m hm => List.forall_mem_map.mpr fun n hn s h h' => ?_
    have hkey := token_unique (hnames m hm) (hnames n hn) h h'
    rw [List.inj_on_of_nodup_map hnodup hm hn hkey]

/-! ## Searching -/

theorem cut?_eq_some {sep s a b : Str} (h : cut? sep s = some (a, b)) : s = a ++ (sep ++ b) := by
  induction s generalizing a with
  | nil =>
    rw [cut?, Option.ite_none_right_eq_some] at h
    obtain ⟨rfl, h⟩ := h
    cases h
    rfl
  | cons c s ih =>
    rw [cut?] at h
    split at h
    · next hpre =>
      cases h
      rw [List.nil_append, ← List.prefix_append_drop]
      exact hpre
    · obtain ⟨p, hp, h⟩ := Option.map_eq_some_iff.mp h
      cases h
      rw [ih hp, List.cons_append]

theorem not_infix_of_cut? {s a b : Str} (h : cut? openBraces s = some (a, b)) :
    ¬ openBraces <:+: a ++ [123] := by
  induction s generalizing a with
  | nil => cases h
  | cons c s ih =>
    rw [cut?] at h
    split at h
    · cases h
      decide
    · next hno =>
      obtain ⟨p, hp, h⟩ := Option.map_eq_some_iff.mp h
      cases h
      rw [List.cons_append, List.infix_cons_iff]
      rintro (hpre | hin)
      · refine hno (hpre.trans ?_)
        rw [cut?_eq_some hp]
        exact List.cons_prefix_cons.mpr ⟨rfl, by simp [openBraces]⟩
      · exact ih hp hin

theorem not_infix_of_cut?_eq_none {sep s : Str} (h : cut? sep s = none) : ¬ sep <:+: s := by
  induction s with
  | nil =>
    intro hin
    rw [cut?, if_pos (List.infix_nil.mp hin)] at h
    cases h
  | cons c s ih =>
    rw [cut?] at h
    split at h
    · cases h
    · next hno =>
      rw [List.infix_cons_iff]
      exact fun hor => hor.elim hno (ih (Option.map_eq_none_iff.mp h))

/-- A text without open braces, also with another brace after it, comes before the first ones. -/
theorem cut?_append {p : Str} (hp : ¬ openBraces <:+: p ++ [123]) (s : Str) :
    cut? openBraces (p ++ s) = (cut? openBraces s).map fun q => (p ++ q.1, q.2) := by
  induction p with
  | nil => simp
  | cons c p ih =>
    have hno : ¬ openBraces <+: c :: (p ++ s) := by
      intro hpre
      obtain ⟨rfl, hnext⟩ := List.cons_prefix_cons.mp hpre
      cases p with
      | nil => exact hp (List.infix_refl _)
      | cons d p =>
        obtain ⟨rfl, -⟩ := List.cons_prefix_cons.mp hnext
        exact hp (List.prefix_append openBraces (p ++ [123])).isInfix
    rw [List.cons_append, cut?, if_neg hno, ih fun hin => hp (List.infix_cons hin), Option.map_map]
    rfl

/-! ## Replacing -/

theorem replaceFrom_eq (old new : Str) (skip : Nat) (s : Str) :
    replaceFrom old new skip s = expandFrom [(old, new)] skip s := by
  induction s generalizing skip with
  | nil => rfl
  | cons c s ih =>
    cases skip with
    | succ skip => exact ih skip
    | zero =>
      rw [replaceFrom, expandFrom, List.find?_singleton]
      by_cases h : old <+: c :: s
      · rw [if_pos h, if_pos (decide_eq_true h), ih]
      · rw [if_neg h, if_neg (by simpa using h), ih]

theorem replaceStr_eq (s old new : Str) : replaceStr s old new = expand [(old, new)] s :=
  replaceFrom_eq old new 0 s

theorem foldl_replaceStr (items : List (Str × Str)) (s : Str) :
    items.foldl (fun result m => replaceStr result (token m.1) m.2) s =
      (rules items).foldl (fun s rule => expand [rule] s) s := by
  rw [rules, List.foldl_map]
  exact congrArg (fun f => items.foldl f s) (funext fun _ => funext fun _ => replaceStr_eq _ _ _)

section Substituted

variable {vars : Dict Str Str} {s t : Str}

/-- What a substitution of a string has checked, and its result. -/
theorem substituteStr_eq_ok (h : substituteStr vars s = .ok t) :
    (∀ token ∈ findTemplates s.length s, token ∈ allowedVars) ∧
      (∀ m ∈ vars.items, ¬ openBraces <:+: m.2) ∧ ¬ openBraces <:+: t ∧
      t = (rules vars.items).foldl (fun s rule => expand [rule] s) s := by
  unfold substituteStr at h
  split at h
  · cases h
  next htokens =>
  split at h
  · cases h
  next hvalues =>
  dsimp only at h
  split at h
  · cases h
  next hopen =>
  cases h
  refine ⟨by simpa using htokens, fun m hm hin => hvalues ?_, hopen, foldl_replaceStr _ _⟩
  exact List.any_eq_true.mpr ⟨m.2, Dict.mem_values_iff.mpr ⟨m.1, hm⟩, by simp [hin]⟩

/-- The result is the string expanded in one pass, up to the first open braces of that. -/
theorem follows_of_substituteStr (hnames : ∀ m ∈ vars.items, m.1 ∈ allowedNames)
    (h : substituteStr vars s = .ok t) : Follows 123 (expand (rules vars.items) s) t := by
  obtain ⟨-, -, -, rfl⟩ := substituteStr_eq_ok h
  exact follows_foldl (marked_rules vars.nodup hnames) s

/-- The same for a string in which one variable only has been expanded. -/
theorem follows_replaceStr (hnames : ∀ m ∈ vars.items, m.1 ∈ allowedNames)
    (h : substituteStr vars s = .ok t) {m : Str × Str} (hm : m ∈ vars.items) :
    Follows 123 (replaceStr s (token m.1) m.2) t := by
  refine Follows.trans ?_ (follows_of_substituteStr hnames h)
  rw [replaceStr_eq]
  refine follows_of_subset (marked_rules vars.nodup hnames) ?_ s
  exact List.forall_mem_singleton.mpr (List.mem_map_of_mem hm)

/-- The variables of a string have values: one that is not set is still there in the end. -/
theorem value_of_substituteStr (hnames : ∀ m ∈ vars.items, m.1 ∈ allowedNames)
    (h : substituteStr vars s = .ok t) {name : Str} (hname : name ∈ allowedNames)
    (hin : token name <:+: s) : name ∈ vars.keys := by
  by_contra hmem
  obtain ⟨-, -, hnot, hfold⟩ := substituteStr_eq_ok h
  have hall : Marked 123 (rules ((name, []) :: vars.items)) := by
    refine marked_rules ?_ (List.forall_mem_cons.mpr ⟨hname, hnames⟩)
    exact List.nodup_cons.mpr ⟨hmem, vars.nodup⟩
  have hunset : (token name, []) ∉ rules vars.items := by
    intro hin
    obtain ⟨m, hm, heq⟩ := List.mem_map.mp hin
    have hkey : m.1 = name :=
      List.append_cancel_left (List.append_cancel_right (congrArg Prod.fst heq))
    exact hmem (hkey ▸ List.mem_map_of_mem hm)
  obtain ⟨p, rest, rfl⟩ := hin
  obtain ⟨q, u, hu⟩ := foldl_other hall (fun r hr => List.mem_cons_of_mem _ hr) List.mem_cons_self
    hunset p rest
  refine hnot ⟨q, name ++ (closeBraces ++ u), ?_⟩
  rw [hfold, List.append_assoc p]
  refine Eq.trans ?_ hu.symm
  simp [token]

end Substituted

theorem eq_ok_of_toOption {ε α : Type} {x : Except ε α} {a : α} (h : x.toOption = some a) :
    x = .ok a := by
  cases x with
  | error e => cases h
  | ok b => exact congrArg Except.ok (Option.some.inj h)

/-! ## Values within a payload -/

/-- A value within another: its items and the values of its members, at any depth, and itself. -/
inductive Nested {φ : Type} (u : Json φ) : Json φ → Prop
  | self : Nested u u
  | item {js : List (Json φ)} {j : Json φ} (h : j ∈ js) (hu : Nested u j) : Nested u (.arr js)
  | member {ms : List (Str × Json φ)} {m : Str × Json φ} (h : m ∈ ms) (hu : Nested u m.2) :
      Nested u (.obj ms)

section Nested

variable {φ : Type} {vars : Dict Str Str}

theorem Nested.trans {u v w : Json φ} (h : Nested u v) (h' : Nested v w) : Nested u w := by
  induction h' with
  | self => exact h
  | item hmem _ ih => exact .item hmem ih
  | member hmem _ ih => exact .member hmem ih

/-- A string comes from one string, a list from a list, and an object from one with the same
keys. -/
theorem of_substituteValue {j r : Json φ} (h : substituteValue vars j = .ok r) :
    (∀ t, r = .str t → ∃ s, j = .str s ∧ substituteStr vars s = .ok t) ∧
      (∀ rs, r = .arr rs → ∃ js, j = .arr js ∧ ∀ r ∈ rs, ∃ j ∈ js, substituteValue vars j = .ok r) ∧
      ∀ ns, r = .obj ns → ∃ ms, j = .obj ms ∧
        ∀ n ∈ ns, ∃ m ∈ ms, m.1 = n.1 ∧ substituteValue vars m.2 = .ok n.2 := by
  cases j with
  | str s =>
    obtain ⟨t, ht, h⟩ := bind_eq_ok_iff.mp h
    cases h
    refine ⟨fun t' heq => ?_, nofun, nofun⟩
    cases heq
    exact ⟨s, rfl, ht⟩
  | arr js =>
    obtain ⟨hjs, rfl⟩ := substituteValue_arr.mp h
    refine ⟨nofun, fun rs heq => ?_, nofun⟩
    cases heq
    exact ⟨js, rfl, List.forall_mem_map.mpr fun j hj =>
      ⟨j, hj, substituteValue_of_exists (hjs j hj)⟩⟩
  | obj ms =>
    obtain ⟨hms, rfl⟩ := substituteValue_obj.mp h
    refine ⟨nofun, nofun, fun ns heq => ?_⟩
    cases heq
    exact ⟨ms, rfl, List.forall_mem_map.mpr fun m hm =>
      ⟨m, hm, rfl, substituteValue_of_exists (hms m hm)⟩⟩
  | _ =>
    cases h
    exact ⟨nofun, nofun, nofun⟩

/-- What is within the result of a substitution comes from something within the payload. -/
theorem Nested.of_substituteValue {u r j : Json φ} (hu : Nested u r)
    (h : substituteValue vars j = .ok r) : ∃ v, Nested v j ∧ substituteValue vars v = .ok u := by
  induction hu generalizing j with
  | self => exact ⟨j, .self, h⟩
  | item hmem _ ih =>
    obtain ⟨js, rfl, hjs⟩ := (Catalog.of_substituteValue h).2.1 _ rfl
    obtain ⟨j, hj, h⟩ := hjs _ hmem
    obtain ⟨v, hv, hval⟩ := ih h
    exact ⟨v, .item hj hv, hval⟩
  | member hmem _ ih =>
    obtain ⟨ms, rfl, hms⟩ := (Catalog.of_substituteValue h).2.2 _ rfl
    obtain ⟨m, hm, -, h⟩ := hms _ hmem
    obtain ⟨v, hv, hval⟩ := ih h
    exact ⟨v, .member hm hv, hval⟩

end Nested

end CosaiMcp.Catalog
