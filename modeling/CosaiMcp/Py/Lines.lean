import CosaiMcp.Py.Str

/-!
# The lines of a file

`lines` is what iterating over a file opened in binary mode yields: every line with its line feed,
and a last line without one where the file does not end with a line feed. Appending to a file
whose last line is terminated appends its lines (`lines_append`); otherwise what is appended
continues the last line (`lines_append_torn`).
-/

namespace Py

/-- The lines of a file, each with its line feed. -/
def lines : Bytes → List Bytes
  | [] => []
  | b :: bs =>
    if b = 10 then [10] :: lines bs
    else
      match lines bs with
      | [] => [[b]]
      | l :: ls => (b :: l) :: ls

/-- The last line is terminated, or there is none. -/
def EndsLine (bs : Bytes) : Prop := ∀ b ∈ bs.getLast?, b = 10

theorem endsLine_nil : EndsLine [] := fun _ h => nomatch h

theorem endsLine_concat (bs : Bytes) : EndsLine (bs ++ [10]) := by
  intro b hb
  rw [List.getLast?_concat] at hb
  exact (Option.some.inj hb).symm

theorem EndsLine.append {as bs : Bytes} (ha : EndsLine as) (hb : EndsLine bs) :
    EndsLine (as ++ bs) := by
  cases bs with
  | nil => rwa [List.append_nil]
  | cons b bs =>
    intro c hc
    rw [List.getLast?_append_of_ne_nil _ (List.cons_ne_nil b bs)] at hc
    exact hb c hc

theorem EndsLine.of_cons {b : Byte} {bs : Bytes} (h : EndsLine (b :: bs)) : EndsLine bs := by
  cases bs with
  | nil => exact endsLine_nil
  | cons c bs => exact fun d hd => h d (by rwa [List.getLast?_cons_cons])

theorem lines_cons_eq_nil {b : Byte} {bs : Bytes} : lines (b :: bs) ≠ [] := by
  rw [lines]
  split
  · exact List.cons_ne_nil _ _
  · split
    · exact List.cons_ne_nil _ _
    · exact List.cons_ne_nil _ _

theorem lines_eq_nil_iff {bs : Bytes} : lines bs = [] ↔ bs = [] := by
  cases bs with
  | nil => exact ⟨fun _ => rfl, fun _ => rfl⟩
  | cons b bs => exact ⟨fun h => absurd h lines_cons_eq_nil, nofun⟩

/-- What is appended after a terminated line starts a line of its own. -/
theorem lines_append {as : Bytes} (h : EndsLine as) (bs : Bytes) :
    lines (as ++ bs) = lines as ++ lines bs := by
  induction as with
  | nil => rfl
  | cons a as ih =>
    rw [List.cons_append, lines, lines, ih h.of_cons]
    by_cases ha : a = 10
    · rw [if_pos ha, if_pos ha, List.cons_append]
    · rw [if_neg ha, if_neg ha]
      cases hl : lines as with
      | nil =>
        rw [lines_eq_nil_iff.mp hl] at h
        exact absurd (h a rfl) ha
      | cons l ls => rfl

theorem lines_of_not_mem {bs : Bytes} (h : 10 ∉ bs) (hne : bs ≠ []) : lines bs = [bs] := by
  induction bs with
  | nil => exact absurd rfl hne
  | cons b bs ih =>
    have hb : ¬ b = 10 := fun hb => h (hb ▸ List.mem_cons_self)
    rw [lines, if_neg hb]
    cases bs with
    | nil => rfl
    | cons c bs => rw [ih (fun hm => h (List.mem_cons_of_mem b hm)) (List.cons_ne_nil c bs)]

/-- One terminated line. -/
theorem lines_line {bs : Bytes} (h : 10 ∉ bs) : lines (bs ++ [10]) = [bs ++ [10]] := by
  induction bs with
  | nil => rfl
  | cons b bs ih =>
    have hb : ¬ b = 10 := fun hb => h (hb ▸ List.mem_cons_self)
    rw [List.cons_append, lines, if_neg hb, ih fun hm => h (List.mem_cons_of_mem b hm)]

/-- A line that is appended after an unterminated one continues it. -/
theorem lines_append_torn {as torn bs : Bytes} (has : EndsLine as) (htorn : 10 ∉ torn)
    (hbs : 10 ∉ bs) (rest : Bytes) :
    lines (as ++ torn ++ (bs ++ 10 :: rest)) = lines as ++ (torn ++ bs ++ [10]) :: lines rest := by
  have hline : 10 ∉ torn ++ bs := by
    intro h
    exact (List.mem_append.mp h).elim htorn hbs
  have hbytes : as ++ torn ++ (bs ++ 10 :: rest) = as ++ (torn ++ bs ++ [10] ++ rest) := by
    simp only [List.append_assoc, List.cons_append, List.nil_append]
  rw [hbytes, lines_append has, lines_append (endsLine_concat _), lines_line hline]
  rfl

end Py
