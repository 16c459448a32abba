import CosaiMcp.Py.Url

/-!
# The beginning of a URL

`urlsplit` drops characters at the beginning of a URL and others anywhere in it, and white space
around a URL is taken off before that. What is put after a text leaves alone the beginning that the
text has as a URL (`stem_append`, `front_append`), unless all of it is dropped
(`stem_append_of_nil`).
-/

namespace Py.Url

/-- A text as `urlsplit` reads it without white space around it. -/
def front (s : Str) : Str := clean (strip s)

/-- The beginning that a text has as a URL if more text follows. -/
def stem (s : Str) : Str := clean (s.dropWhile isSpace)

theorem clean_append {s : Str} (h : clean s ≠ []) (u : Str) :
    clean (s ++ u) = clean s ++ u.filter (!isUnsafeByte ·) := by
  have hne : (s.dropWhile isC0ControlOrSpace).isEmpty = false := by
    rw [Bool.eq_false_iff]
    intro hempty
    rw [clean, List.isEmpty_iff.mp hempty] at h
    exact h rfl
  rw [clean, clean, List.dropWhile_append, hne, if_neg Bool.false_ne_true, List.filter_append]

theorem stem_append {s : Str} (h : stem s ≠ []) (u : Str) :
    stem (s ++ u) = stem s ++ u.filter (!isUnsafeByte ·) := by
  have hne : (s.dropWhile isSpace).isEmpty = false := by
    rw [Bool.eq_false_iff]
    intro hempty
    rw [stem, List.isEmpty_iff.mp hempty] at h
    exact h rfl
  rw [stem, stem, List.dropWhile_append, hne, if_neg Bool.false_ne_true, clean_append h]

theorem front_isPrefix (s : Str) : front s <+: stem s := by
  obtain ⟨t, ht⟩ := rstrip_isPrefix (s.dropWhile isSpace)
  rw [front, stem, ← ht]
  change clean (rstrip (s.dropWhile isSpace)) <+: _
  by_cases h : clean (rstrip (s.dropWhile isSpace)) = []
  · rw [h]
    exact List.nil_prefix
  · rw [clean_append h]
    exact List.prefix_append _ _

/-- A character of the stem is in the text, and not among what is dropped at its beginning. -/
theorem exists_of_stem {s a b : Str} {c : CodePoint} (h : stem s = a ++ c :: b) :
    ∃ q y, s.dropWhile isSpace = q ++ c :: y ∧ clean (q ++ [c]) = a ++ [c] := by
  rw [stem] at h
  generalize s.dropWhile isSpace = t at h
  obtain ⟨x, y, hxy, hx, hy⟩ := List.filter_eq_append_iff.mp h
  obtain ⟨y, y', rfl, hno, hkeep, -⟩ := List.filter_eq_cons_iff.mp hy
  rw [← List.append_assoc] at hxy
  have hstop : (x ++ y ++ [c]).dropWhile isC0ControlOrSpace = x ++ y ++ [c] := by
    cases hl : x ++ y with
    | nil =>
      rw [hl] at hxy
      exact List.dropWhile_cons_of_neg (by simp [not_of_dropWhile hxy])
    | cons d l =>
      rw [hl] at hxy
      exact List.dropWhile_cons_of_neg (by simp [not_of_dropWhile hxy])
  refine ⟨t.takeWhile isC0ControlOrSpace ++ (x ++ y), y', ?_, ?_⟩
  · rw [List.append_assoc, ← hxy, List.takeWhile_append_dropWhile]
  · have hc : [c].filter (!isUnsafeByte ·) = [c] :=
      List.filter_eq_self.mpr (List.forall_mem_singleton.mpr hkeep)
    rw [clean, List.append_assoc, List.dropWhile_append_of_pos fun d hd => List.mem_takeWhile_imp hd,
      hstop, List.filter_append, List.filter_append, hx, List.filter_eq_nil_iff.mpr hno, hc,
      List.append_nil]

/-- White space at the end of a text does not matter as long as something else comes after it. -/
theorem front_append {s a b : Str} {c : CodePoint} (h : stem s = a ++ c :: b)
    (hc : isSpace c = false) (u : Str) : ∃ z, front (s ++ u) = a ++ c :: z := by
  obtain ⟨q, y, htext, hclean⟩ := exists_of_stem h
  refine ⟨(rstrip (y ++ u)).filter (!isUnsafeByte ·), ?_⟩
  have hdrop : (s ++ u).dropWhile isSpace = q ++ c :: (y ++ u) := by
    rw [List.dropWhile_append, if_neg (by simp [htext]), htext, List.append_assoc, List.cons_append]
  have hstrip : strip (s ++ u) = q ++ [c] ++ rstrip (y ++ u) := by
    change rstrip ((s ++ u).dropWhile isSpace) = _
    rw [hdrop, rstrip_append hc]
    simp
  rw [front, hstrip, clean_append (by simp [hclean]), hclean]
  simp

/-- White space at the end aside, a text that does not end with it is read as if more followed. -/
theorem front_append_concat {q y : Str} {c : CodePoint} (hc : isSpace c = false)
    (hy : ∀ d ∈ y, isSpace d = true) (s : Str) :
    front (s ++ (q ++ c :: y)) = stem (s ++ (q ++ [c])) := by
  have htext : s ++ (q ++ c :: y) = [] ++ ((s ++ q ++ [c]) ++ y) := by simp
  have hstop : ((s ++ q) ++ [c]).dropWhile isSpace = (s ++ q).dropWhile isSpace ++ [c] := by
    rw [List.dropWhile_append]
    split
    · next hempty =>
      rw [List.isEmpty_iff.mp hempty, List.dropWhile_cons_of_neg (by simp [hc]), List.nil_append]
    · rfl
  have hstrip : strip (s ++ q ++ [c]) = rstrip ((s ++ q ++ [c]).dropWhile isSpace) := rfl
  rw [front, htext, strip_append (List.forall_mem_nil _) hy, hstrip, hstop, rstrip_append hc]
  rw [stem, ← List.append_assoc, hstop]
  rfl

theorem isC0_of_isUnsafeByte {c : CodePoint} (h : isUnsafeByte c = true) :
    isC0ControlOrSpace c = true := by
  simp only [isUnsafeByte, Bool.or_eq_true, decide_eq_true_eq] at h
  rcases h with (rfl | rfl) | rfl <;> rfl

theorem clean_cons_of_pos {c : CodePoint} (h : isC0ControlOrSpace c = true) (s : Str) :
    clean (c :: s) = clean s := by
  rw [clean, List.dropWhile_cons_of_pos h, clean]

theorem clean_cons_of_neg {c : CodePoint} (h : isC0ControlOrSpace c = false) (s : Str) :
    clean (c :: s) = c :: s.filter (!isUnsafeByte ·) := by
  have hkeep : (!isUnsafeByte c) = true := by
    rw [Bool.not_eq_true', Bool.eq_false_iff]
    intro hunsafe
    rw [isC0_of_isUnsafeByte hunsafe] at h
    cases h
  rw [clean, List.dropWhile_cons_of_neg (by simp [h]),
    List.filter_cons_of_pos (p := fun c => !isUnsafeByte c) hkeep]

theorem mem_dropWhile {p : CodePoint → Bool} {s : Str} {c : CodePoint} (hc : p c = false)
    (h : c ∈ s) : c ∈ s.dropWhile p := by
  rw [← List.takeWhile_append_dropWhile (p := p) (l := s)] at h
  refine (List.mem_append.mp h).resolve_left fun hin => ?_
  rw [List.mem_takeWhile_imp hin] at hc
  cases hc

theorem mem_stem {s : Str} {c : CodePoint} (hspace : isSpace c = false)
    (hc : isC0ControlOrSpace c = false) (h : c ∈ s) : c ∈ stem s := by
  refine List.mem_filter.mpr ⟨mem_dropWhile hc (mem_dropWhile hspace h), ?_⟩
  rw [Bool.not_eq_true', Bool.eq_false_iff]
  intro hunsafe
  rw [isC0_of_isUnsafeByte hunsafe] at hc
  cases hc

/-- A text that is dropped altogether. -/
theorem clean_append_of_nil {s : Str} (h : clean s = []) (u : Str) : clean (s ++ u) = clean u := by
  induction s with
  | nil => rfl
  | cons c s ih =>
    cases hc : isC0ControlOrSpace c with
    | true =>
      rw [clean_cons_of_pos hc] at h
      rw [List.cons_append, clean_cons_of_pos hc, ih h]
    | false =>
      rw [clean_cons_of_neg hc] at h
      exact absurd h (List.cons_ne_nil _ _)

/-- Nothing of a text, or its white space only, is taken off with what is dropped before it. -/
theorem stem_append_of_nil {s : Str} (h : stem s = []) :
    (∀ u, stem (s ++ u) = stem u) ∨ ∀ u, stem (s ++ u) = clean u := by
  rw [stem] at h
  cases hempty : (s.dropWhile isSpace).isEmpty with
  | true => exact .inl fun u => by rw [stem, List.dropWhile_append, if_pos hempty, stem]
  | false =>
    refine .inr fun u => ?_
    rw [stem, List.dropWhile_append, if_neg (Bool.eq_false_iff.mp hempty)]
    exact clean_append_of_nil h u

/-- A text that starts with something else than white space once it is cleaned. -/
theorem stem_of_clean {s z : Str} {c : CodePoint} (h : clean s = c :: z) (hc : isSpace c = false) :
    stem s = clean s := by
  induction s with
  | nil => rfl
  | cons d s ih =>
    by_cases hspace : isSpace d = true
    · have hstem : stem (d :: s) = stem s := by rw [stem, List.dropWhile_cons_of_pos hspace, stem]
      cases hd : isC0ControlOrSpace d with
      | true =>
        rw [clean_cons_of_pos hd] at h ⊢
        rw [hstem, ih h]
      | false =>
        rw [clean_cons_of_neg hd] at h
        obtain ⟨rfl, -⟩ := List.cons.inj h
        rw [hspace] at hc
        cases hc
    · rw [stem, List.dropWhile_cons_of_neg hspace]

theorem clean_of_filter {s z : Str} {c : CodePoint} (h : s.filter (!isUnsafeByte ·) = c :: z)
    (hc : isC0ControlOrSpace c = false) : clean s = c :: z := by
  induction s with
  | nil => cases h
  | cons d s ih =>
    cases hd : isUnsafeByte d with
    | true =>
      rw [List.filter_cons_of_neg (by simp [hd])] at h
      rw [clean_cons_of_pos (isC0_of_isUnsafeByte hd), ih h]
    | false =>
      rw [List.filter_cons_of_pos (by simp [hd])] at h
      obtain ⟨rfl, rfl⟩ := List.cons.inj h
      exact clean_cons_of_neg hc s

end Py.Url
