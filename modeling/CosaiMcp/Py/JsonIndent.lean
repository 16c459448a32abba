import CosaiMcp.Py.JsonGrammar

/-!
# Texts with an indent

`Json.indented` is `json.dumps` with an indent: an item or a member a line, further in than the
brackets around it. It is a text of the value like the one without white space
(`valueText_indented`), so that the two are read alike (`loads_indented`).
-/

namespace Py

variable {φ : Type} [FloatText φ]

/-- A line feed and the indent of a line. -/
def newline (n : Nat) : Str := 10 :: List.replicate n 32

mutual

/-- `json.dumps(j, indent=step)` of a value that stands `n` places in. -/
def Json.indented (step : Nat) : Nat → Json φ → Str
  | n, .arr (j :: js) =>
    91 :: (newline (n + step) ++ (Json.indented step (n + step) j ++ Json.indentedItems step n js))
  | n, .obj ((k, v) :: ms) =>
    123 :: (newline (n + step) ++ (quote k ++ 58 :: 32 :: (Json.indented step (n + step) v ++
      Json.indentedMembers step n ms)))
  | _, .null => lit "null"
  | _, .bool b => (Json.bool b : Json φ).text
  | _, .int i => intText i
  | _, .float x => FloatText.repr x
  | _, .nan => lit "NaN"
  | _, .str s => quote s
  | _, .arr [] => lit "[]"
  | _, .obj [] => lit "\x7b\x7d"

def Json.indentedItems (step : Nat) : Nat → List (Json φ) → Str
  | n, [] => newline n ++ [93]
  | n, j :: js =>
    44 :: (newline (n + step) ++ (Json.indented step (n + step) j ++ Json.indentedItems step n js))

def Json.indentedMembers (step : Nat) : Nat → List (Str × Json φ) → Str
  | n, [] => newline n ++ [125]
  | n, (k, v) :: ms =>
    44 :: (newline (n + step) ++ (quote k ++ 58 :: 32 :: (Json.indented step (n + step) v ++
      Json.indentedMembers step n ms)))

end

/-! ## They are texts of the value -/

theorem isBlank_nil : IsBlank [] := List.forall_mem_nil _

theorem isBlank_space : IsBlank [32] := by decide

theorem isBlank_newline (n : Nat) : IsBlank (newline n) := by
  intro c hc
  rcases List.mem_cons.mp hc with rfl | hc
  · rfl
  · rw [List.eq_of_mem_replicate hc]
    rfl

/-- What is written without white space is a text of what is read back. -/
theorem valueText_text (j : Json φ) : ValueText j.text j.reload := by
  have hread := readsBack j (2 * j.text.length) [] (Nat.le_refl _) fun _ h => by cases h
  rw [List.append_nil] at hread
  obtain ⟨t, ht, htext⟩ := valueText_of_scanValue _ _ (fun _ h => by cases h) hread
  rw [List.append_nil] at ht
  rwa [ht]

omit [FloatText φ] in
theorem exists_stringText_quote (s : Str) :
    ∃ t, quote s = 34 :: t ∧ StringText t (mergePairs s) := by
  obtain ⟨t, ht, htext⟩ := stringText_of_scanString (scanString_quoted s [])
  rw [List.append_nil] at ht
  exact ⟨t, congrArg (List.cons 34) ht, htext⟩

/-- A line of its own for an item, before those that follow it. -/
theorem itemsText_indented {step n : Nat} {j : Json φ} {js : List (Json φ)}
    (hj : ∀ n, ValueText (j.indented step n) j.reload)
    (hjs : ∀ i ∈ js, ∀ n, ValueText (i.indented step n) i.reload) :
    ItemsText (j.indented step (n + step) ++ Json.indentedItems step n js)
      (j.reload :: Json.reloadItems js) := by
  induction js generalizing j with
  | nil => exact .last (hj _) (isBlank_newline n)
  | cons i js ih =>
    refine .more (hj _) isBlank_nil (isBlank_newline _) ?_
    exact ih (hjs i List.mem_cons_self) fun i' hi' => hjs i' (List.mem_cons_of_mem i hi')

theorem membersText_indented {step n : Nat} {k : Str} {v : Json φ} {ms : List (Str × Json φ)}
    (hv : ∀ n, ValueText (v.indented step n) v.reload)
    (hms : ∀ m ∈ ms, ∀ n, ValueText (m.2.indented step n) m.2.reload) :
    MembersText (quote k ++ 58 :: 32 :: (v.indented step (n + step) ++
      Json.indentedMembers step n ms)) ((mergePairs k, v.reload) :: Json.reloadMembers ms) := by
  induction ms generalizing k v with
  | nil =>
    obtain ⟨t, ht, htext⟩ := exists_stringText_quote k
    rw [ht]
    exact .last htext isBlank_nil isBlank_space (hv _) (isBlank_newline n)
  | cons m ms ih =>
    obtain ⟨t, ht, htext⟩ := exists_stringText_quote k
    rw [ht]
    refine .more htext isBlank_nil isBlank_space (hv _) isBlank_nil (isBlank_newline _) ?_
    exact ih (hms m List.mem_cons_self) fun m' hm' => hms m' (List.mem_cons_of_mem m hm')

/-- A value with an indent is a text of what is read back. -/
theorem valueText_indented (step : Nat) (j : Json φ) :
    ∀ n, ValueText (j.indented step n) j.reload := by
  induction j using Json.induct with
  | arr js ih =>
    cases js with
    | nil => exact fun _ => .arrNil isBlank_nil
    | cons j js =>
      intro n
      refine .arr (isBlank_newline _) (itemsText_indented (ih j List.mem_cons_self) ?_)
      exact fun i hi => ih i (List.mem_cons_of_mem j hi)
  | obj ms ih =>
    cases ms with
    | nil => exact fun _ => .objNil isBlank_nil
    | cons m ms =>
      intro n
      refine .obj (isBlank_newline _) (membersText_indented (ih m List.mem_cons_self) ?_)
      exact fun m' hm' => ih m' (List.mem_cons_of_mem m hm')
  | null => exact fun _ => valueText_text .null
  | bool b => exact fun _ => valueText_text (.bool b)
  | int i => exact fun _ => valueText_text (.int i)
  | float x => exact fun _ => valueText_text (.float x)
  | nan => exact fun _ => valueText_text .nan
  | str s => exact fun _ => valueText_text (.str s)

/-- Reading back what was written with an indent. -/
theorem loads_indented (step : Nat) (j : Json φ) : loads (j.indented step 0) = some j.reload :=
  loads_eq_some_iff.mpr ⟨[], j.indented step 0, [], (List.append_nil _).symm, isBlank_nil,
    valueText_indented step j 0, isBlank_nil⟩

/-- A text that was written holds no surrogates, so that none are read. -/
theorem stable_reload (j : Json φ) : j.reload.Stable := by
  refine stable_of_loads (List.all_eq_true.mpr fun c hc => ?_) (loads_text j)
  have hgraphic := isGraphic_of_mem_text hc
  simp only [isGraphic, Bool.and_eq_true, decide_eq_true_eq] at hgraphic
  simp only [isSurrogate, Bool.not_eq_true', Bool.and_eq_false_iff, decide_eq_false_iff_not]
  omega

end Py
