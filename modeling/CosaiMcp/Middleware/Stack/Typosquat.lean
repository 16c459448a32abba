import CosaiMcp.Edits
import CosaiMcp.Middleware.Stack.Enforcers

/-!
# Typosquats

`levenshtein` is the edit distance: its rows are rows of the table of distances between the
prefixes, each read from its end (`isDistance_levenshtein`). So the allowlist reports as typosquats
the names that are one edit away from an allowed one, and no others (`typosquats_classified`).
-/

namespace CosaiMcp.Middleware.Stack

open Py
open Edits (IsDistance Row)

/-! ## The table -/

section Table

variable {a b rest : Str} {prev : List Nat}

theorem row_levenshteinRow {c : CodePoint} {left : Nat} (h : Row a b prev rest)
    (hleft : IsDistance (c :: a) b left) :
    Row (c :: a) b (left :: levenshteinRow c left prev rest) rest := by
  induction h generalizing left with
  | last h => exact .last hleft
  | more h hs ih =>
    cases hs with
    | last habove => exact .more hleft (ih (.cons habove hleft h))
    | more habove _ => exact .more hleft (ih (.cons habove hleft h))

/-- The rows for the characters of `b` below the one for the part of the text before them. -/
theorem row_levenshteinRows (b : Str) (h : Row a [] prev rest) :
    Row (b.reverse ++ a) [] (levenshteinRows rest (a.length + 1) prev b) rest := by
  induction b generalizing a prev with
  | nil => exact h
  | cons c b ih =>
    rw [List.reverse_cons, List.append_assoc]
    exact ih (row_levenshteinRow h (Edits.isDistance_nil_right (c :: a)))

theorem isDistance_levenshtein (a b : Str) : IsDistance a b (levenshtein a b) := by
  unfold levenshtein
  split
  · next heq => exact Edits.isDistance_zero_iff.mpr heq
  split
  · next hnil =>
    subst hnil
    exact Edits.isDistance_nil_left b
  split
  · next hnil =>
    subst hnil
    exact Edits.isDistance_nil_right a
  · have hrow := row_levenshteinRows a (Row.nil [] b)
    have hlast := hrow.getLastD 0
    rw [List.append_nil, List.append_nil] at hlast
    rw [List.range_eq_range']
    exact Edits.isDistance_reverse_iff.mp hlast

theorem levenshtein_eq_iff {n : Nat} : levenshtein a b = n ↔ IsDistance a b n :=
  ⟨fun h => h ▸ isDistance_levenshtein a b, (isDistance_levenshtein a b).unique⟩

end Table

/-! ## The closest match -/

section Closest

variable {name : Str} {allowlist : List Str}

/-- The loop keeps what it starts with where no name is closer, or it ends with one that is. -/
theorem foldl_closest (name : Str) (allowlist : List Str) (best : Nat × Str) :
    let found := allowlist.foldl (fun best allowed =>
      if levenshtein name allowed < best.1 then (levenshtein name allowed, allowed) else best) best
    found = best ∧ (∀ allowed ∈ allowlist, best.1 ≤ levenshtein name allowed) ∨
      ∃ allowed ∈ allowlist, levenshtein name allowed < best.1 ∧
        found = (levenshtein name allowed, allowed) := by
  induction allowlist generalizing best with
  | nil => exact .inl ⟨rfl, nofun⟩
  | cons allowed rest ih =>
    rw [List.foldl_cons]
    split
    · next hlt =>
      rcases ih (levenshtein name allowed, allowed) with ⟨hfound, -⟩ | ⟨m, hm, hcloser, hfound⟩
      · exact .inr ⟨allowed, List.mem_cons_self, hlt, hfound⟩
      · exact .inr ⟨m, List.mem_cons_of_mem allowed hm, hcloser.trans hlt, hfound⟩
    · next hge =>
      rcases ih best with ⟨hfound, hrest⟩ | ⟨m, hm, hcloser, hfound⟩
      · exact .inl ⟨hfound, List.forall_mem_cons.mpr ⟨not_lt.mp hge, hrest⟩⟩
      · exact .inr ⟨m, List.mem_cons_of_mem allowed hm, hcloser, hfound⟩

/-- A name other than the allowed ones is at a distance of at least 1 from each. -/
theorem one_le_levenshtein (hname : name ∉ allowlist) {allowed : Str} (h : allowed ∈ allowlist) :
    1 ≤ levenshtein name allowed := by
  refine Nat.one_le_iff_ne_zero.mpr fun hzero => hname ?_
  rw [Edits.isDistance_zero_iff.mp (levenshtein_eq_iff.mp hzero)]
  exact h

/-- What is reported of a name that is not allowed. -/
structure Reports (allowlist : List Str) (name : Str) (v : AllowlistViolation) : Prop where
  toolName : v.toolName = name
  typosquat : v.reason = lit "typosquat" ↔ ∃ allowed ∈ allowlist, IsDistance name allowed 1
  notInAllowlist : v.reason = lit "not_in_allowlist" ↔
    ¬ ∃ allowed ∈ allowlist, IsDistance name allowed 1
  closest : v.reason = lit "typosquat" →
    v.closestMatch ∈ allowlist ∧ IsDistance name v.closestMatch v.distance

theorem reports_violation (hname : name ∉ allowlist)
    (hnames : ∀ allowed ∈ allowlist, allowed ≠ []) :
    Reports allowlist name (violation name allowlist) := by
  have hne : lit "typosquat" ≠ lit "not_in_allowlist" := by decide
  rcases foldl_closest name allowlist (2, []) with ⟨hfound, hfar⟩ | ⟨m, hm, hcloser, hfound⟩
  · have hviolation : violation name allowlist = ⟨name, lit "not_in_allowlist", [], 0⟩ := by
      rw [violation, closestMatch, hfound]
      rfl
    have hnone : ¬ ∃ allowed ∈ allowlist, IsDistance name allowed 1 := by
      rintro ⟨allowed, hmem, hone⟩
      have htwo := hfar allowed hmem
      rw [levenshtein_eq_iff.mpr hone] at htwo
      exact absurd htwo (by decide)
    rw [hviolation]
    exact ⟨rfl, iff_of_false hne.symm hnone, iff_of_true rfl hnone, fun h => absurd h hne.symm⟩
  · have hdistance : levenshtein name m = 1 :=
      le_antisymm (Nat.le_of_lt_succ hcloser) (one_le_levenshtein hname hm)
    have hviolation : violation name allowlist = ⟨name, lit "typosquat", m, 1⟩ := by
      rw [violation, closestMatch, hfound, hdistance]
      exact if_neg (hnames m hm)
    have hsome : ∃ allowed ∈ allowlist, IsDistance name allowed 1 :=
      ⟨m, hm, levenshtein_eq_iff.mp hdistance⟩
    rw [hviolation]
    exact ⟨rfl, iff_of_true rfl hsome, iff_of_false hne (not_not.mpr hsome),
      fun _ => ⟨hm, levenshtein_eq_iff.mp hdistance⟩⟩

end Closest

variable {φ : Type}

/-- `levenshtein` is the edit distance, and the allowlist reports each tool that is not on it, in
their order, as a typosquat or not by that distance. -/
theorem typosquats_classified (strOf : Json φ → Str) :
    (∀ a b : Str, IsDistance a b (levenshtein a b)) ∧
      ∀ (allowlist : List Str) (tools : List (List (Str × Json φ))), allowlist ≠ [] →
        (∀ allowed ∈ allowlist, allowed ≠ []) →
          List.Forall₂ (fun tool => Reports allowlist (toolName strOf tool))
            (tools.filter fun tool => toolName strOf tool ∉ allowlist)
            (allowlistViolations strOf allowlist tools) := by
  refine ⟨isDistance_levenshtein, fun allowlist tools hallowlist hnames => ?_⟩
  rw [allowlistViolations, if_neg hallowlist, List.filter_map, List.map_map]
  refine List.forall₂_map_right_iff.mpr (List.forall₂_same.mpr fun tool htool => ?_)
  have hname : toolName strOf tool ∉ allowlist := by simpa using (List.mem_filter.mp htool).2
  exact reports_violation hname hnames

/-- A tool with a name only. -/
def named (name : String) : List (Str × Json Unit) := [(lit "name", .str (lit name))]

theorem typosquats_classified_fetch :
    List.Forall₂ (fun tool => Reports [lit "fetch"] (toolName (fun j => j.asStr?.getD []) tool))
      [named "fetc"]
      (allowlistViolations (fun j => j.asStr?.getD []) [lit "fetch"]
        [named "fetch", named "fetc"]) :=
  (typosquats_classified fun j => j.asStr?.getD []).2 [lit "fetch"] [named "fetch", named "fetc"]
    (by decide) (by decide)

end CosaiMcp.Middleware.Stack
