import CosaiMcp.Py.Str

/-!
# The lines of a text

`splitlines` is `str.splitlines`, which ends lines at more characters than the line feed. What is put
before the first of them belongs to the first line (`splitlines_append`). Of a text that was joined
from others, the lines that satisfy a test which no empty line does are those of the others
(`filter_splitlines_joinLines`). A line of a format that knows carriage returns and line feeds only
comes apart at the other characters, into its `pieces`.
-/

namespace Py

/-- The characters that end a line. -/
def isLineBreak (c : CodePoint) : Bool :=
  (10 ≤ c.val && c.val ≤ 13) || (28 ≤ c.val && c.val ≤ 30) || c.val == 0x85 ||
    c.val == 0x2028 || c.val == 0x2029

/-- A line with this character before its text. -/
def consLine (c : CodePoint) : List Str → List Str
  | [] => [[c]]
  | l :: ls => (c :: l) :: ls

/-- `s.splitlines()`: a carriage return and a line feed end one line. -/
def splitlines : Str → List Str
  | [] => []
  | 13 :: 10 :: s => [] :: splitlines s
  | c :: s => if isLineBreak c then [] :: splitlines s else consLine c (splitlines s)

/-- `"\n".join(ls)`. -/
def joinLines (ls : List Str) : Str := List.intercalate [10] ls

/-- The text has one line. -/
def IsLine (s : Str) : Prop := ∀ c ∈ s, isLineBreak c = false

theorem isLine_of_all {s : Str} (h : (s.all fun c => !isLineBreak c) = true) : IsLine s := by
  intro c hc
  simpa using List.all_eq_true.mp h c hc

theorem isLine_append {s t : Str} (hs : IsLine s) (ht : IsLine t) : IsLine (s ++ t) := by
  intro c hc
  rcases List.mem_append.mp hc with hc | hc
  · exact hs c hc
  · exact ht c hc

/-- The lines after the first. -/
def further (s : Str) : List Str := (splitlines s).drop 1

theorem splitlines_cons {c : CodePoint} {s : Str} (h : c = 13 → ∀ t, s ≠ 10 :: t) :
    splitlines (c :: s) = if isLineBreak c then [] :: splitlines s else consLine c (splitlines s) := by
  rw [splitlines]
  rintro t rfl rfl
  exact h rfl t rfl

theorem splitlines_cons_of_not_break {c : CodePoint} (hc : isLineBreak c = false) (s : Str) :
    splitlines (c :: s) = consLine c (splitlines s) := by
  rw [splitlines_cons, if_neg (by rw [hc]; exact Bool.false_ne_true)]
  rintro rfl
  cases hc

/-- What is put before the first line break belongs to the first line. -/
theorem splitlines_append {p : Str} (hp : IsLine p) (hne : p ≠ []) (s : Str) :
    splitlines (p ++ s) = (p ++ (splitlines s).headD []) :: further s := by
  induction p with
  | nil => exact absurd rfl hne
  | cons c p ih =>
    rw [List.cons_append, splitlines_cons_of_not_break (hp c List.mem_cons_self)]
    cases p with
    | nil =>
      rw [List.nil_append, further]
      cases splitlines s <;> rfl
    | cons d p =>
      rw [ih (fun e he => hp e (List.mem_cons_of_mem c he)) (List.cons_ne_nil d p)]
      rfl

theorem splitlines_of_isLine {s : Str} (h : IsLine s) (hne : s ≠ []) : splitlines s = [s] := by
  have happend := splitlines_append h hne []
  rwa [List.append_nil, splitlines, List.headD_nil, List.append_nil] at happend

theorem consLine_append {c : CodePoint} {ls : List Str} (h : ls ≠ []) (ms : List Str) :
    consLine c (ls ++ ms) = consLine c ls ++ ms := by
  cases ls with
  | nil => exact absurd rfl h
  | cons l ls => rfl

theorem splitlines_ne_nil {s : Str} (h : s ≠ []) : splitlines s ≠ [] := by
  cases s with
  | nil => exact absurd rfl h
  | cons c s =>
    rw [splitlines.eq_def]
    split
    · next heq => cases heq
    · exact List.cons_ne_nil _ _
    · split
      · exact List.cons_ne_nil _ _
      · unfold consLine
        split <;> exact List.cons_ne_nil _ _

theorem further_of_isLine {s : Str} (h : IsLine s) : further s = [] := by
  cases s with
  | nil => rfl
  | cons c s =>
    rw [further, splitlines_of_isLine h (List.cons_ne_nil c s), List.drop_one, List.tail_cons]

/-- A line with its line feed stands before the lines that follow. -/
theorem splitlines_line {p : Str} (hp : IsLine p) (hne : p ≠ []) (s : Str) :
    splitlines (p ++ 10 :: s) = p :: splitlines s := by
  rw [splitlines_append hp hne]
  exact congrArg (· :: splitlines s) (List.append_nil p)

/-! ## Lines of a text that was joined -/

/-- A line feed in between joins no lines, and leaves an empty one at most. -/
theorem exists_splitlines_append (s t : Str) : ∃ blank : List Str, (∀ l ∈ blank, l = []) ∧
    splitlines (s ++ 10 :: t) = splitlines s ++ (blank ++ splitlines t) := by
  induction s using splitlines.induct with
  | case1 => exact ⟨[[]], List.forall_mem_singleton.mpr rfl, rfl⟩
  | case2 s ih =>
    obtain ⟨blank, hblank, heq⟩ := ih
    exact ⟨blank, hblank, congrArg (List.cons []) heq⟩
  | case3 c s hcrlf hc ih =>
    obtain ⟨blank, hblank, heq⟩ := ih
    have hnot : c = 13 → ∀ u, s ≠ 10 :: u := fun hcr u hu => hcrlf u hcr hu
    rw [splitlines_cons hnot, if_pos hc]
    by_cases hlast : c = 13 ∧ s = []
    · -- the line feed belongs to the carriage return
      obtain ⟨rfl, rfl⟩ := hlast
      exact ⟨[], List.forall_mem_nil _, rfl⟩
    · have hnot' : c = 13 → ∀ u, s ++ 10 :: t ≠ 10 :: u := by
        intro hcr u hu
        cases s with
        | nil => exact hlast ⟨hcr, rfl⟩
        | cons d s =>
          obtain ⟨hd, -⟩ := List.cons.inj hu
          exact hnot hcr s (by rw [hd])
      rw [List.cons_append, splitlines_cons hnot', if_pos hc, heq]
      exact ⟨blank, hblank, rfl⟩
  | case4 c s hcrlf hc ih =>
    obtain ⟨blank, hblank, heq⟩ := ih
    have hc : isLineBreak c = false := Bool.eq_false_iff.mpr hc
    rw [List.cons_append, splitlines_cons_of_not_break hc, splitlines_cons_of_not_break hc]
    cases s with
    | nil =>
      -- the line feed ends this line
      exact ⟨[], List.forall_mem_nil _, rfl⟩
    | cons d s =>
      rw [heq, consLine_append (splitlines_ne_nil (List.cons_ne_nil d s))]
      exact ⟨blank, hblank, rfl⟩

section Joined

variable {p : Str → Bool} (hp : p [] = false)

include hp

theorem filter_splitlines_append (s t : Str) :
    (splitlines (s ++ 10 :: t)).filter p = (splitlines s).filter p ++ (splitlines t).filter p := by
  obtain ⟨blank, hblank, heq⟩ := exists_splitlines_append s t
  have hnone : blank.filter p = [] := by
    refine List.filter_eq_nil_iff.mpr fun l hl => ?_
    rw [hblank l hl, hp]
    exact Bool.false_ne_true
  rw [heq, List.filter_append, List.filter_append, hnone, List.nil_append]

theorem filter_splitlines_joinLines (ls : List Str) :
    (splitlines (joinLines ls)).filter p = ls.flatMap fun l => (splitlines l).filter p := by
  induction ls with
  | nil => rfl
  | cons l ls ih =>
    cases ls with
    | nil => simp [joinLines, List.intercalate]
    | cons m ls =>
      have hjoin : joinLines (l :: m :: ls) = l ++ 10 :: joinLines (m :: ls) := by
        simp [joinLines, List.intercalate]
      rw [hjoin, filter_splitlines_append hp, ih]
      rfl

end Joined

/-! ## Lines that come apart -/

/-- A character that ends a line, and is neither a carriage return nor a line feed. -/
def isStrayBreak (c : CodePoint) : Bool := isLineBreak c && c != 10 && c != 13

/-- The lines that are made of one, with its line feed. -/
def pieces (l : Str) : List Str := splitlines (l ++ [10])

/-- What comes behind the stray breaks of a line. -/
def strays (l : Str) : List Str := (pieces l).tail

/-- The part of a line before its stray breaks. -/
def firstPiece (l : Str) : Str := l.takeWhile fun c => !isLineBreak c

theorem isLine_firstPiece (l : Str) : IsLine (firstPiece l) := by
  intro c hc
  simpa using List.mem_takeWhile_imp hc

theorem firstPiece_append {p : Str} (hp : IsLine p) (s : Str) :
    firstPiece (p ++ s) = p ++ firstPiece s :=
  List.takeWhile_append_of_pos fun c hc => by rw [hp c hc]; rfl

theorem firstPiece_eq_self {l : Str} (h : IsLine l) : firstPiece l = l :=
  List.takeWhile_eq_self_iff.mpr fun c hc => by rw [h c hc]; rfl

/-- A line that comes apart does so behind its first piece. -/
theorem exists_strayBreak {l : Str} (hl : ∀ c ∈ l, c ≠ 10 ∧ c ≠ 13) (h : ¬ IsLine l) :
    ∃ c s, l = firstPiece l ++ c :: s ∧ isStrayBreak c = true := by
  induction l with
  | nil => exact absurd (List.forall_mem_nil _) h
  | cons c l ih =>
    obtain ⟨hc, hrest⟩ := List.forall_mem_cons.mp hl
    by_cases hbreak : isLineBreak c = true
    · refine ⟨c, l, ?_, by simp [isStrayBreak, hbreak, hc]⟩
      rw [firstPiece, List.takeWhile_cons_of_neg (by simp [hbreak]), List.nil_append]
    · have hnot : ¬ IsLine l := fun hline =>
        h (List.forall_mem_cons.mpr ⟨Bool.eq_false_iff.mpr hbreak, hline⟩)
      obtain ⟨d, s, heq, hd⟩ := ih hrest hnot
      refine ⟨d, s, ?_, hd⟩
      rw [firstPiece, List.takeWhile_cons_of_pos (by simp [hbreak]), List.cons_append,
        ← firstPiece, ← heq]

theorem pieces_cons {c : CodePoint} (hc : c ≠ 13) (l : Str) :
    pieces (c :: l) = if isLineBreak c then [] :: pieces l else consLine c (pieces l) :=
  splitlines_cons fun h => absurd h hc

theorem pieces_ne_nil (l : Str) : pieces l ≠ [] :=
  splitlines_ne_nil (List.append_ne_nil_of_right_ne_nil l (List.cons_ne_nil 10 []))

theorem pieces_eq_cons {l : Str} (hl : ∀ c ∈ l, c ≠ 10 ∧ c ≠ 13) :
    pieces l = firstPiece l :: strays l := by
  induction l with
  | nil => rfl
  | cons c l ih =>
    obtain ⟨hc, hrest⟩ := List.forall_mem_cons.mp hl
    rw [strays, pieces_cons hc.2, firstPiece]
    by_cases hbreak : isLineBreak c = true
    · rw [if_pos hbreak, List.takeWhile_cons_of_neg (by simp [hbreak]), List.tail_cons]
    · rw [if_neg hbreak, List.takeWhile_cons_of_pos (by simp [hbreak]), ih hrest]
      rfl

theorem strays_of_isLine {l : Str} (h : IsLine l) : strays l = [] := by
  cases l with
  | nil => rfl
  | cons c l =>
    rw [strays, pieces, splitlines_line h (List.cons_ne_nil c l)]
    rfl

/-- A line stands before the lines that follow its end. -/
theorem splitlines_append_end {l e s : Str} (hl : ∀ c ∈ l, c ≠ 10 ∧ c ≠ 13)
    (he : splitlines (e ++ s) = [] :: splitlines s) :
    splitlines (l ++ (e ++ s)) = pieces l ++ splitlines s := by
  induction l with
  | nil => exact he
  | cons c l ih =>
    obtain ⟨hc, hrest⟩ := List.forall_mem_cons.mp hl
    rw [List.cons_append, splitlines_cons fun h => absurd h hc.2, ih hrest, pieces_cons hc.2]
    split
    · rfl
    · exact consLine_append (pieces_ne_nil l) _

end Py
