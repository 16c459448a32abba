import CosaiMcp.Py.JsonRead
import CosaiMcp.Py.Splitlines

/-!
# The texts of a value

`ValueText` is the grammar of what the reader takes for a value: it reads a text as a value exactly
if the text is one of its texts between white space (`loads_eq_some_iff`). The brackets of such a
text are paired (`ValueText.after`), it has no line feed in a string and no other line separator
outside of strings (`not_within_of_loads`); where lines make up the text of an object and the last
one reads as a value by itself, those before it are blank (`blank_of_loads`).
-/

namespace Py

/-! ## Places in a text -/

/-- A place of a text in an object or an array: how many more of them it is in, and whether it is in
a string. -/
inductive Place where
  | within (depth : Nat)
  | inString (depth : Nat)
  | escaped (depth : Nat)
  | closed
  | failed

namespace Place

/-- The place behind the bracket that closes. -/
def close : Nat → Place
  | 0 => .closed
  | d + 1 => .within d

def next : Place → CodePoint → Place
  | .within d, c =>
    if c = 34 then .inString d
    else if c = 123 ∨ c = 91 then .within (d + 1)
    else if c = 125 ∨ c = 93 then close d
    else if isStrayBreak c then .failed
    else .within d
  | .inString d, c =>
    if c = 34 then .within d
    else if c = 92 then .escaped d
    else if c.val < 32 then .failed
    else .inString d
  | .escaped d, c => if c.val < 32 then .failed else .inString d
  | .closed, _ => .failed
  | .failed, _ => .failed

def after (p : Place) (t : Str) : Place := t.foldl next p

theorem after_cons (p : Place) (c : CodePoint) (t : Str) :
    p.after (c :: t) = (p.next c).after t := rfl

theorem after_append (p : Place) (s t : Str) : p.after (s ++ t) = (p.after s).after t :=
  List.foldl_append

theorem after_failed (t : Str) : Place.failed.after t = .failed := by
  induction t with
  | nil => rfl
  | cons c t ih => exact ih

/-- Neither a quote nor a bracket nor a stray line break. -/
def isNeutral (c : CodePoint) : Bool :=
  c != 34 && c != 123 && c != 125 && c != 91 && c != 93 && !isStrayBreak c

theorem after_neutral {t : Str} (h : ∀ c ∈ t, isNeutral c = true) (d : Nat) :
    (within d).after t = within d := by
  induction t with
  | nil => rfl
  | cons c t ih =>
    have hc := h c List.mem_cons_self
    simp only [isNeutral, Bool.and_eq_true, bne_iff_ne, Bool.not_eq_true'] at hc
    obtain ⟨⟨⟨⟨⟨h34, h123⟩, h125⟩, h91⟩, h93⟩, hstray⟩ := hc
    rw [after_cons, next, if_neg h34, if_neg (not_or.mpr ⟨h123, h91⟩),
      if_neg (not_or.mpr ⟨h125, h93⟩), if_neg (by rw [hstray]; exact Bool.false_ne_true)]
    exact ih fun c' hc' => h c' (List.mem_cons_of_mem c hc')

end Place

/-! ## Strings -/

/-- The rest of a string after its opening quote. -/
structure StringText (t r : Str) : Prop where
  scans : ∀ rest, scanString (t ++ rest) = some (r, rest)
  after : ∀ d, (Place.inString d).after t = .within d

theorem hexValue?_place {c : CodePoint} {n : Nat} (h : hexValue? c = some n) :
    c ≠ 34 ∧ c ≠ 92 ∧ ¬ c.val < 32 := by
  refine ⟨?_, ?_, fun hlt => ?_⟩
  · rintro rfl
    cases h
  · rintro rfl
    cases h
  · unfold hexValue? at h
    rw [if_neg (by omega), if_neg (by omega), if_neg (by omega)] at h
    cases h

theorem hexValue?_of_hex4? {a b c d : CodePoint} {n : Nat} (h : hex4? a b c d = some n) :
    ∀ x ∈ [a, b, c, d], ∃ m, hexValue? x = some m := by
  obtain ⟨i, hi, h⟩ := Option.bind_eq_some_iff.mp h
  obtain ⟨j, hj, h⟩ := Option.bind_eq_some_iff.mp h
  obtain ⟨k, hk, h⟩ := Option.bind_eq_some_iff.mp h
  obtain ⟨l, hl, -⟩ := Option.bind_eq_some_iff.mp h
  simp only [List.mem_cons, List.not_mem_nil, or_false]
  rintro x (rfl | rfl | rfl | rfl)
  · exact ⟨i, hi⟩
  · exact ⟨j, hj⟩
  · exact ⟨k, hk⟩
  · exact ⟨l, hl⟩

/-- Characters of a string that end nothing. -/
theorem after_inString {t : Str} (h : ∀ c ∈ t, c ≠ 34 ∧ c ≠ 92 ∧ ¬ c.val < 32) (d : Nat) :
    (Place.inString d).after t = .inString d := by
  induction t with
  | nil => rfl
  | cons c t ih =>
    obtain ⟨h34, h92, h32⟩ := h c List.mem_cons_self
    rw [Place.after_cons, Place.next, if_neg h34, if_neg h92, if_neg h32]
    exact ih fun c' hc' => h c' (List.mem_cons_of_mem c hc')

theorem after_unicode {h₃ h₂ h₁ h₀ : CodePoint} {n : Nat} (hn : hex4? h₃ h₂ h₁ h₀ = some n)
    (d : Nat) (t : Str) :
    (Place.inString d).after (92 :: 117 :: h₃ :: h₂ :: h₁ :: h₀ :: t) =
      (Place.inString d).after t := by
  have hdigits : ∀ c ∈ [h₃, h₂, h₁, h₀], c ≠ 34 ∧ c ≠ 92 ∧ ¬ c.val < 32 := fun c hc => by
    obtain ⟨m, hm⟩ := hexValue?_of_hex4? hn c hc
    exact hexValue?_place hm
  have hskip := after_inString hdigits d
  exact (Place.after_append _ [h₃, h₂, h₁, h₀] t).trans (congrArg (Place.after · t) hskip)

theorem LowEscape.append {t : Str} (h : LowEscape t) (rest : Str) : LowEscape (t ++ rest) := by
  obtain ⟨a, b, c, d, t', m, rfl, hm, hlow⟩ := h
  exact ⟨a, b, c, d, t' ++ rest, m, rfl, hm, hlow⟩

/-- What is read of an escape that is not joined with one after it. -/
theorem scanString_unicode {h₃ h₂ h₁ h₀ : CodePoint} {n : Nat} {s r rest : Str}
    (hn : hex4? h₃ h₂ h₁ h₀ = some n) (hlow : isHighSurrogate n = true → ¬ LowEscape s)
    (hs : scanString s = some (r, rest)) :
    scanString (92 :: 117 :: h₃ :: h₂ :: h₁ :: h₀ :: s) = some (Fin.ofNat _ n :: r, rest) := by
  rw [scanString]
  simp only [show ¬ (92 : CodePoint) = 34 by decide, ↓reduceIte, hn]
  split
  · rename_i b u l₃ l₂ l₁ l₀ s'
    split
    · rename_i hcond
      obtain ⟨hhigh, rfl, rfl⟩ := hcond
      cases hm : hex4? l₃ l₂ l₁ l₀ with
      | none =>
        rw [scanString.eq_def] at hs
        simp only [show ¬ (92 : CodePoint) = 34 by decide, ↓reduceIte, hm] at hs
        cases hs
      | some m =>
        by_cases hm' : isLowSurrogate m = true
        · exact absurd ⟨l₃, l₂, l₁, l₀, s', m, rfl, hm, hm'⟩ (hlow hhigh)
        · simp only [hm', Bool.false_eq_true, ↓reduceIte, hs, Option.map_some]
    · rw [hs, Option.map_some]
  · rw [hs, Option.map_some]

namespace StringText

variable {t r : Str}

theorem quote : StringText [34] [] := ⟨fun rest => scanString_quoteMark rest, fun _ => rfl⟩

theorem plain {c : CodePoint} (h : StringText t r) (h34 : c ≠ 34) (h92 : c ≠ 92)
    (h32 : ¬ c.val < 32) : StringText (c :: t) (c :: r) where
  scans rest := by
    rw [List.cons_append, scanString.eq_def]
    simp only [h34, h92, h32, ↓reduceIte, h.scans rest, Option.map_some]
  after d := by
    rw [Place.after_cons, Place.next, if_neg h34, if_neg h92, if_neg h32]
    exact h.after d

theorem simple {e x : CodePoint} (h : StringText t r) (h117 : e ≠ 117)
    (hx : simpleEscape? e = some x) : StringText (92 :: e :: t) (x :: r) where
  scans rest := by
    rw [List.cons_append, List.cons_append, scanString.eq_def]
    simp only [show ¬ (92 : CodePoint) = 34 by decide, ↓reduceIte, h117, hx, h.scans rest,
      Option.map_some]
  after d := by
    have h32 : ¬ e.val < 32 := fun hlt => by
      have hne : ∀ k : CodePoint, 32 ≤ k.val → e ≠ k := fun k hk he => by
        rw [he] at hlt
        omega
      simp [simpleEscape?, hne 34 (by decide), hne 92 (by decide), hne 47 (by decide),
        hne 98 (by decide), hne 102 (by decide), hne 110 (by decide), hne 114 (by decide),
        hne 116 (by decide)] at hx
    rw [Place.after_cons, Place.after_cons, Place.next, if_neg (by decide), if_pos rfl, Place.next,
      if_neg h32]
    exact h.after d

/-- The escape of a low surrogate after it, if there is one, is part of the text. -/
theorem lowEscape_of_append (h : StringText t r) {rest : Str} (hlow : LowEscape (t ++ rest)) :
    LowEscape t := by
  obtain ⟨a, b, c, d, t', m, heq, hm, hm'⟩ := hlow
  have hescape : [92, 117, a, b, c, d] <+: t ++ rest := ⟨t', heq.symm⟩
  rcases List.prefix_or_prefix_of_prefix (List.prefix_append t rest) hescape with hshort | hlong
  · -- within the escape the string does not end
    have hplace := h.after 0
    rcases List.prefix_cons_iff.mp hshort with rfl | ⟨t₁, rfl, hshort₁⟩
    · cases hplace
    rcases List.prefix_cons_iff.mp hshort₁ with rfl | ⟨t₂, rfl, hshort₂⟩
    · cases hplace
    have hdigits : ∀ x ∈ t₂, x ≠ 34 ∧ x ≠ 92 ∧ ¬ x.val < 32 := fun x hx => by
      obtain ⟨k, hk⟩ := hexValue?_of_hex4? hm x (hshort₂.subset hx)
      exact hexValue?_place hk
    cases (after_inString hdigits 0).symm.trans hplace
  · obtain ⟨t'', rfl⟩ := hlong
    exact ⟨a, b, c, d, t'', m, rfl, hm, hm'⟩

theorem unicode {h₃ h₂ h₁ h₀ : CodePoint} {n : Nat} (h : StringText t r)
    (hn : hex4? h₃ h₂ h₁ h₀ = some n) (hlow : isHighSurrogate n = true → ¬ LowEscape t) :
    StringText (92 :: 117 :: h₃ :: h₂ :: h₁ :: h₀ :: t) (Fin.ofNat _ n :: r) where
  scans rest := scanString_unicode hn (fun hhigh hl => hlow hhigh (h.lowEscape_of_append hl))
    (h.scans rest)
  after d := by
    rw [after_unicode hn]
    exact h.after d

theorem pair {h₃ h₂ h₁ h₀ l₃ l₂ l₁ l₀ : CodePoint} {n m : Nat} (h : StringText t r)
    (hn : hex4? h₃ h₂ h₁ h₀ = some n) (hm : hex4? l₃ l₂ l₁ l₀ = some m)
    (hhigh : isHighSurrogate n = true) (hlow : isLowSurrogate m = true) :
    StringText (92 :: 117 :: h₃ :: h₂ :: h₁ :: h₀ :: 92 :: 117 :: l₃ :: l₂ :: l₁ :: l₀ :: t)
      (joinSurrogates n m :: r) where
  scans rest := by
    simp only [List.cons_append]
    rw [scanString]
    simp only [show ¬ (92 : CodePoint) = 34 by decide, ↓reduceIte, hn, hm, hhigh, hlow, and_self,
      h.scans rest, Option.map_some]
  after d := by
    rw [after_unicode hn, after_unicode hm]
    exact h.after d

end StringText

/-- What is read of a string is one of its texts. -/
theorem stringText_of_scanString {s r rest : Str} (h : scanString s = some (r, rest)) :
    ∃ t, s = t ++ rest ∧ StringText t r := by
  refine scanString_induction (motive := fun s r rest => ∃ t, s = t ++ rest ∧ StringText t r)
    ?quote ?plain ?simple ?unicode ?pair h
  case quote => exact fun s => ⟨[34], rfl, .quote⟩
  case plain =>
    rintro c _ r rest h34 h92 h32 ⟨t, rfl, ht⟩
    exact ⟨c :: t, rfl, ht.plain h34 h92 h32⟩
  case simple =>
    rintro e x _ r rest h117 hx ⟨t, rfl, ht⟩
    exact ⟨92 :: e :: t, rfl, ht.simple h117 hx⟩
  case unicode =>
    rintro h₃ h₂ h₁ h₀ n _ r rest hn hlow ⟨t, rfl, ht⟩
    exact ⟨92 :: 117 :: h₃ :: h₂ :: h₁ :: h₀ :: t, rfl,
      ht.unicode hn fun hhigh hescape => hlow hhigh (hescape.append rest)⟩
  case pair =>
    rintro h₃ h₂ h₁ h₀ l₃ l₂ l₁ l₀ n m _ r rest hn hm hhigh hlow ⟨t, rfl, ht⟩
    exact ⟨_, rfl, ht.pair hn hm hhigh hlow⟩

/-! ## Scalars -/

variable {φ : Type} [FloatText φ]

/-- The text of a constant or a number. -/
structure ScalarText (t : Str) (j : Json φ) : Prop where
  scans : ∀ rest, EndsNumber rest → scanScalar (t ++ rest) = some (j, rest)
  nonempty : t ≠ []
  plain : ∀ c ∈ t, Place.isNeutral c = true ∧ isJsonSpace c = false
  graphic : ∀ c ∈ t, 32 < c.val ∧ c.val < 127

theorem scanMinus_append_eq (s : Str) : (scanMinus s).1 ++ (scanMinus s).2 = s := by
  unfold scanMinus
  split
  · rfl
  · split <;> rfl

theorem scanInteger_append_eq {s t rest : Str} (h : scanInteger s = some (t, rest)) :
    t ++ rest = s := by
  unfold scanInteger at h
  split at h
  · cases h
  · split at h
    · cases h
      rfl
    · split at h
      · cases h
        rw [List.cons_append, List.takeWhile_append_dropWhile]
      · cases h

theorem scanFraction_append_eq (s : Str) : (scanFraction s).1 ++ (scanFraction s).2 = s := by
  unfold scanFraction
  split
  · rfl
  · dsimp only
    split
    · rw [List.cons_append, List.takeWhile_append_dropWhile]
    · rfl

theorem scanSign_append_eq (s : Str) : (scanSign s).1 ++ (scanSign s).2 = s := by
  unfold scanSign
  split
  · rfl
  · split <;> rfl

theorem scanExponent_append_eq (s : Str) : (scanExponent s).1 ++ (scanExponent s).2 = s := by
  unfold scanExponent
  split
  · rfl
  · next c rest =>
    dsimp only
    split
    · rw [List.cons_append, List.append_assoc, List.takeWhile_append_dropWhile,
        scanSign_append_eq]
    · rfl

theorem scanNumber_append_eq {s t rest : Str} {float : Bool}
    (h : scanNumber s = some (t, float, rest)) : t ++ rest = s := by
  obtain ⟨⟨integer, s₁⟩, hint, heq⟩ := Option.map_eq_some_iff.mp h
  cases heq
  dsimp only
  rw [List.append_assoc, scanExponent_append_eq, List.append_assoc, scanFraction_append_eq,
    List.append_assoc, scanInteger_append_eq hint, scanMinus_append_eq]

theorem scanNumber_append_rest {r : Str} (hr : EndsNumber r) {s t rest : Str} {float : Bool}
    (h : scanNumber s = some (t, float, rest)) :
    scanNumber (s ++ r) = some (t, float, rest ++ r) := by
  obtain ⟨⟨integer, s₁⟩, hint, h⟩ := Option.map_eq_some_iff.mp h
  have hint' := scanInteger_append hr.endsDigits hint
  simp only [Prod.mk.injEq] at h
  obtain ⟨ht, hfloat, hrest⟩ := h
  simp only [scanNumber, scanMinus_append hr, hint', Option.map_some, scanFraction_append hr,
    scanExponent_append hr, hrest, ht, hfloat]

/-- Where a number goes on, it has begun. -/
theorem exists_scanNumber {s r : Str} (hr : EndsNumber r) (h : scanNumber (s ++ r) ≠ none) :
    ∃ p, scanNumber s = some p := by
  have hinteger : scanInteger (scanMinus s).2 ≠ none := by
    have hint : scanInteger ((scanMinus s).2 ++ r) ≠ none := fun hnone => h (by
      simp only [scanNumber, scanMinus_append hr, hnone, Option.map_none])
    obtain ⟨c, u, heq, hc⟩ := scanInteger_head hint
    cases hminus : (scanMinus s).2 with
    | nil =>
      rw [hminus, List.nil_append] at heq
      rw [heq] at hr
      rw [(isNumberChar_eq_false (hr c rfl)).1] at hc
      cases hc
    | cons c' u' =>
      rw [hminus] at heq
      cases heq
      unfold scanInteger
      dsimp only
      split
      · exact Option.some_ne_none _
      · exact Option.some_ne_none _
  obtain ⟨integer, hint⟩ := Option.ne_none_iff_exists'.mp hinteger
  exact ⟨_, by simp only [scanNumber, hint, Option.map_some]; rfl⟩

/-- What a number is does not depend on what comes after it. -/
theorem scanNumber_text {s t rest : Str} {float : Bool} (hrest : EndsNumber rest)
    (h : scanNumber s = some (t, float, rest)) : scanNumber t = some (t, float, []) := by
  have hs := scanNumber_append_eq h
  subst hs
  obtain ⟨⟨t', float', rest'⟩, ht⟩ := exists_scanNumber hrest (by rw [h]; exact nofun)
  have heq := (scanNumber_append_rest hrest ht).symm.trans h
  simp only [Option.some.injEq, Prod.mk.injEq] at heq
  obtain ⟨rfl, rfl, hnil⟩ := heq
  rw [ht, List.append_left_eq_self.mp hnil]

theorem isStrayBreak_of_isNumberChar {c : CodePoint} (h : isNumberChar c = true) :
    isStrayBreak c = false := by
  by_cases hd : isDigit c = true
  · simp only [isDigit, Bool.and_eq_true, decide_eq_true_eq] at hd
    simp only [isStrayBreak, isLineBreak, Bool.and_eq_false_iff, Bool.or_eq_false_iff,
      decide_eq_false_iff_not, beq_eq_false_iff_ne]
    omega
  · simp only [isNumberChar, hd, Bool.false_or, Bool.or_eq_true, beq_iff_eq] at h
    rcases h with (((rfl | rfl) | rfl) | rfl) | rfl <;> rfl

theorem graphic_of_isNumberChar {c : CodePoint} (h : isNumberChar c = true) :
    32 < c.val ∧ c.val < 127 := by
  by_cases hd : isDigit c = true
  · simp only [isDigit, Bool.and_eq_true, decide_eq_true_eq] at hd
    omega
  · simp only [isNumberChar, hd, Bool.false_or, Bool.or_eq_true, beq_iff_eq] at h
    rcases h with (((rfl | rfl) | rfl) | rfl) | rfl <;> decide

theorem scalarText_of_scanScalar {s rest : Str} {j : Json φ} (hrest : EndsNumber rest)
    (h : scanScalar s = some (j, rest)) : ∃ t, s = t ++ rest ∧ ScalarText t j := by
  unfold scanScalar at h
  split at h
  · next t' j' hfind =>
    cases h
    have hmem := List.mem_of_find?_eq_some hfind
    have hstarts : t'.isPrefixOf s = true := by simpa using List.find?_some hfind
    have hpre : t' <+: s := List.isPrefixOf_iff_prefix.mp hstarts
    refine ⟨t', (List.prefix_iff_eq_append.mp hpre).symm, ?_⟩
    simp only [constants, List.mem_cons, List.not_mem_nil, or_false] at hmem
    have hplain : ∀ k ∈ constants (φ := φ), k.1 ≠ [] ∧ (k.1.all fun c =>
        Place.isNeutral c && !isJsonSpace c && decide (32 < c.val) && decide (c.val < 127)) =
          true := by
      simp only [constants, List.forall_mem_cons]
      exact ⟨by decide, by decide, by decide, by decide, by decide, by decide,
        List.forall_mem_nil _⟩
    obtain ⟨hnonempty, hall⟩ := hplain _ (List.mem_of_find?_eq_some hfind)
    have hchars : ∀ c ∈ t', ((Place.isNeutral c = true ∧ isJsonSpace c = false) ∧
        32 < c.val) ∧ c.val < 127 := by
      simpa using List.all_eq_true.mp hall
    refine ⟨?_, hnonempty, fun c hc => (hchars c hc).1.1,
      fun c hc => ⟨(hchars c hc).1.2, (hchars c hc).2⟩⟩
    rcases hmem with h | h | h | h | h | h <;> cases h <;> exact fun _ _ => rfl
  · obtain ⟨⟨t, float, r⟩, hnumber, heq⟩ := Option.map_eq_some_iff.mp h
    cases heq
    have htext := scanNumber_text hrest hnumber
    refine ⟨t, (scanNumber_append_eq hnumber).symm, fun rest' hrest' => ?_, ?_, fun c hc => ?_,
      fun c hc => graphic_of_isNumberChar (isNumberChar_of_mem_scanNumber hnumber hc)⟩
    · exact scanScalar_number (scanNumber_append hrest' htext)
    · rintro rfl
      cases htext
    · have hnum := isNumberChar_of_mem_scanNumber hnumber hc
      have hne : ∀ k : CodePoint, isNumberChar k = false → c ≠ k := fun k hk he => by
        rw [he, hk] at hnum
        cases hnum
      simp [Place.isNeutral, isJsonSpace, hne 34 rfl, hne 123 rfl, hne 125 rfl, hne 91 rfl,
        hne 93 rfl, hne 32 rfl, hne 9 rfl, hne 10 rfl, hne 13 rfl,
        isStrayBreak_of_isNumberChar hnum]

/-! ## Values -/

/-- White space of a document. -/
def IsBlank (w : Str) : Prop := ∀ c ∈ w, isJsonSpace c = true

instance (w : Str) : Decidable (IsBlank w) := List.decidableBAll _ w

mutual

inductive ValueText : Str → Json φ → Prop
  | str {t r : Str} (h : StringText t r) : ValueText (34 :: t) (.str r)
  | objNil {w : Str} (hw : IsBlank w) : ValueText (123 :: (w ++ [125])) (.obj [])
  | obj {w t : Str} {ms : List (Str × Json φ)} (hw : IsBlank w) (h : MembersText t ms) :
      ValueText (123 :: (w ++ t)) (.obj (dictOf ms))
  | arrNil {w : Str} (hw : IsBlank w) : ValueText (91 :: (w ++ [93])) (.arr [])
  | arr {w t : Str} {js : List (Json φ)} (hw : IsBlank w) (h : ItemsText t js) :
      ValueText (91 :: (w ++ t)) (.arr js)
  | scalar {t : Str} {j : Json φ} (h : ScalarText t j) : ValueText t j

/-- The items of an array, with the bracket that closes it. -/
inductive ItemsText : Str → List (Json φ) → Prop
  | last {t w : Str} {j : Json φ} (h : ValueText t j) (hw : IsBlank w) :
      ItemsText (t ++ (w ++ [93])) [j]
  | more {t w x u : Str} {j : Json φ} {js : List (Json φ)} (h : ValueText t j)
      (hw : IsBlank w) (hx : IsBlank x) (hrest : ItemsText u js) :
      ItemsText (t ++ (w ++ 44 :: (x ++ u))) (j :: js)

/-- The members of an object, with the bracket that closes it. -/
inductive MembersText : Str → List (Str × Json φ) → Prop
  | last {k r w x t y : Str} {v : Json φ} (hk : StringText k r) (hw : IsBlank w)
      (hx : IsBlank x) (h : ValueText t v) (hy : IsBlank y) :
      MembersText (34 :: (k ++ (w ++ 58 :: (x ++ (t ++ (y ++ [125])))))) [(r, v)]
  | more {k r w x t y z u : Str} {v : Json φ} {ms : List (Str × Json φ)}
      (hk : StringText k r) (hw : IsBlank w) (hx : IsBlank x) (h : ValueText t v)
      (hy : IsBlank y) (hz : IsBlank z) (hrest : MembersText u ms) :
      MembersText (34 :: (k ++ (w ++ 58 :: (x ++ (t ++ (y ++ 44 :: (z ++ u)))))))
        ((r, v) :: ms)

end

section Blank

variable {w s : Str}

theorem exists_skipSpace (s : Str) : ∃ w, s = w ++ skipSpace s ∧ IsBlank w :=
  ⟨s.takeWhile isJsonSpace, List.takeWhile_append_dropWhile.symm,
    fun _ hc => List.mem_takeWhile_imp hc⟩

theorem exists_blank_of_skipSpace {rest : Str} {c : CodePoint} (h : skipSpace s = c :: rest) :
    ∃ w, s = w ++ c :: rest ∧ IsBlank w := by
  obtain ⟨w, hs, hw⟩ := exists_skipSpace s
  exact ⟨w, h ▸ hs, hw⟩

theorem skipSpace_append (hw : IsBlank w) (s : Str) : skipSpace (w ++ s) = skipSpace s := by
  induction w with
  | nil => rfl
  | cons c w ih =>
    rw [List.cons_append, skipSpace, List.dropWhile_cons_of_pos (hw c List.mem_cons_self)]
    exact ih fun c' hc' => hw c' (List.mem_cons_of_mem c hc')

theorem skipSpace_of_head {c : CodePoint} (hc : isJsonSpace c = false) (s : Str) :
    skipSpace (c :: s) = c :: s :=
  List.dropWhile_cons_of_neg (by rw [hc]; exact nofun)

theorem isNeutral_of_isJsonSpace {c : CodePoint} (h : isJsonSpace c = true) :
    Place.isNeutral c = true := by
  simp only [isJsonSpace, Bool.or_eq_true, beq_iff_eq] at h
  rcases h with ((rfl | rfl) | rfl) | rfl <;> rfl

theorem IsBlank.after (hw : IsBlank w) (d : Nat) : (Place.within d).after w = .within d :=
  Place.after_neutral (fun c hc => isNeutral_of_isJsonSpace (hw c hc)) d

/-- White space, or a bracket or a comma after it, is no part of a number. -/
theorem endsNumber_blank {c : CodePoint} (hw : IsBlank w) (hc : isNumberChar c = false) (s : Str) :
    EndsNumber (w ++ c :: s) := by
  cases w with
  | nil => exact endsNumber_cons hc s
  | cons b w =>
    refine endsNumber_cons ?_ _
    have hb := hw b List.mem_cons_self
    simp only [isJsonSpace, Bool.or_eq_true, beq_iff_eq] at hb
    rcases hb with ((rfl | rfl) | rfl) | rfl <;> rfl

theorem endsNumber_of_skipSpace {c : CodePoint} {t : Str} (h : skipSpace s = c :: t)
    (hc : isNumberChar c = false) : EndsNumber s := by
  obtain ⟨w, hs, hw⟩ := exists_skipSpace s
  rw [hs, h]
  exact endsNumber_blank hw hc t

theorem endsNumber_of_blank (hw : IsBlank w) : EndsNumber w := by
  intro c hc
  have hb := hw c (List.mem_of_mem_head? hc)
  simp only [isJsonSpace, Bool.or_eq_true, beq_iff_eq] at hb
  rcases hb with ((rfl | rfl) | rfl) | rfl <;> rfl

end Blank

/-! ## Reading yields texts -/

/-- What is read of a value is one of its texts, unless it ends in a number that goes on. -/
theorem valueText_of_scanValue (n : Nat) (s : Str) : ∀ {j : Json φ} {rest : Str},
    EndsNumber rest → scanValue n s = some (j, rest) →
      ∃ t, s = t ++ rest ∧ ValueText t j := by
  refine scanValue.induct
    (fun n s => ∀ {j : Json φ} {rest}, EndsNumber rest → scanValue n s = some (j, rest) →
      ∃ t, s = t ++ rest ∧ ValueText t j)
    (fun n s => ∀ {js : List (Json φ)} {rest}, scanItems n s = some (js, rest) →
      ∃ t, s = t ++ rest ∧ ItemsText t js)
    (fun n s => ∀ {ms : List (Str × Json φ)} {rest}, scanMembers n s = some (ms, rest) →
      ∃ t, s = t ++ rest ∧ MembersText t ms)
    ?zero ?nil ?str ?objEnd ?objNil ?obj ?arrEnd ?arrNil ?arr ?scalar ?itemsZero ?items
    ?membersZero ?membersNil ?members ?membersNoQuote n s
  case zero =>
    intro s j rest _ h
    cases h
  case nil =>
    intro n j rest _ h
    cases h
  case str =>
    intro n s j rest _ h
    rw [scanValue] at h
    obtain ⟨p, hp, heq⟩ := Option.map_eq_some_iff.mp h
    cases heq
    obtain ⟨t, rfl, ht⟩ := stringText_of_scanString hp
    exact ⟨34 :: t, rfl, .str ht⟩
  case objEnd =>
    intro n s hskip hne j rest _ h
    rw [scanValue] at h
    simp only [hskip] at h
    cases h
  case objNil =>
    intro n s t hne hskip j rest _ h
    rw [scanValue] at h
    simp only [hskip] at h
    cases h
    obtain ⟨w, hs, hw⟩ := exists_skipSpace s
    refine ⟨123 :: (w ++ [125]), ?_, .objNil hw⟩
    rw [hs, hskip]
    simp
  case obj =>
    intro n s c t hskip hc hne ih j rest _ h
    rw [scanValue] at h
    simp only [hskip, hc] at h
    obtain ⟨p, hp, heq⟩ := Option.map_eq_some_iff.mp h
    cases heq
    obtain ⟨w, hs, hw⟩ := exists_skipSpace s
    obtain ⟨u, hu, hmembers⟩ := ih hp
    refine ⟨123 :: (w ++ u), ?_, .obj hw hmembers⟩
    rw [hs, hskip, hu, List.cons_append, List.append_assoc]
  case arrEnd =>
    intro n s hskip _ hne j rest _ h
    rw [scanValue] at h
    simp only [hskip] at h
    cases h
  case arrNil =>
    intro n s t _ hne hskip j rest _ h
    rw [scanValue] at h
    simp only [hskip] at h
    cases h
    obtain ⟨w, hs, hw⟩ := exists_skipSpace s
    refine ⟨91 :: (w ++ [93]), ?_, .arrNil hw⟩
    rw [hs, hskip]
    simp
  case arr =>
    intro n s c t hskip hc _ hne ih j rest _ h
    rw [scanValue] at h
    simp only [hskip, hc] at h
    obtain ⟨p, hp, heq⟩ := Option.map_eq_some_iff.mp h
    cases heq
    obtain ⟨w, hs, hw⟩ := exists_skipSpace s
    obtain ⟨u, hu, hitems⟩ := ih hp
    refine ⟨91 :: (w ++ u), ?_, .arr hw hitems⟩
    rw [hs, hskip, hu, List.cons_append, List.append_assoc]
  case scalar =>
    intro n c s h34 h123 h91 j rest hrest h
    rw [scanValue] at h
    simp only [h34, h123, h91, ↓reduceIte] at h
    obtain ⟨t, ht, htext⟩ := scalarText_of_scanScalar hrest h
    exact ⟨t, ht, .scalar htext⟩
  case itemsZero =>
    intro s js rest h
    cases h
  case items =>
    intro n s ihv ihs js rest h
    obtain ⟨j, u, hj, ⟨hskip, rfl⟩ | ⟨u', js', hskip, hjs, rfl⟩⟩ := scanItems_cases h
    · obtain ⟨t, rfl, ht⟩ := ihv (endsNumber_of_skipSpace hskip rfl) hj
      obtain ⟨w, hu, hw⟩ := exists_blank_of_skipSpace hskip
      refine ⟨t ++ (w ++ [93]), ?_, .last ht hw⟩
      rw [hu]
      simp
    · obtain ⟨t, rfl, ht⟩ := ihv (endsNumber_of_skipSpace hskip rfl) hj
      obtain ⟨w, hu, hw⟩ := exists_blank_of_skipSpace hskip
      obtain ⟨w', hu', hw'⟩ := exists_skipSpace u'
      obtain ⟨t', ht', hitems⟩ := ihs u' hjs
      refine ⟨t ++ (w ++ 44 :: (w' ++ t')), ?_, .more ht hw hw' hitems⟩
      rw [hu, hu', ht']
      simp
  case membersZero =>
    intro s ms rest h
    cases h
  case membersNil =>
    intro n ms rest h
    cases h
  case members =>
    intro n s ihv ihs ms rest h
    obtain ⟨r, u, u', v, x, hk, hcolon, hv, hend⟩ := scanMembers_cases h
    obtain ⟨k, hs, hkey⟩ := stringText_of_scanString hk
    obtain ⟨w, hu, hw⟩ := exists_blank_of_skipSpace hcolon
    obtain ⟨w', hu', hw'⟩ := exists_skipSpace u'
    rcases hend with ⟨hskip, rfl⟩ | ⟨x', ms', hskip, hms, rfl⟩
    · obtain ⟨t, ht, htext⟩ := ihv u' (endsNumber_of_skipSpace hskip rfl) hv
      obtain ⟨w'', hx, hw''⟩ := exists_blank_of_skipSpace hskip
      refine ⟨34 :: (k ++ (w ++ 58 :: (w' ++ (t ++ (w'' ++ [125]))))), ?_,
        .last hkey hw hw' htext hw''⟩
      rw [hs, hu, hu', ht, hx]
      simp
    · obtain ⟨t, ht, htext⟩ := ihv u' (endsNumber_of_skipSpace hskip rfl) hv
      obtain ⟨w'', hx, hw''⟩ := exists_blank_of_skipSpace hskip
      obtain ⟨y, hx', hy⟩ := exists_skipSpace x'
      obtain ⟨t', ht', hmembers⟩ := ihs x' hms
      refine ⟨34 :: (k ++ (w ++ 58 :: (w' ++ (t ++ (w'' ++ 44 :: (y ++ t')))))), ?_,
        .more hkey hw hw' htext hw'' hy hmembers⟩
      rw [hs, hu, hu', ht, hx, hx', ht']
      simp
  case membersNoQuote =>
    intro n c s hc ms rest h
    rw [scanMembers] at h
    simp only [hc, ↓reduceIte] at h
    cases h

/-! ## Texts are read -/

theorem MembersText.head {t : Str} {ms : List (Str × Json φ)} (h : MembersText t ms) :
    ∃ t', t = 34 :: t' := by
  cases h with
  | last => exact ⟨_, rfl⟩
  | more => exact ⟨_, rfl⟩

theorem ValueText.head {t : Str} {j : Json φ} (h : ValueText t j) :
    ∃ c t', t = c :: t' ∧ isJsonSpace c = false ∧ c ≠ 93 := by
  cases h with
  | str => exact ⟨34, _, rfl, rfl, by decide⟩
  | objNil => exact ⟨123, _, rfl, rfl, by decide⟩
  | obj => exact ⟨123, _, rfl, rfl, by decide⟩
  | arrNil => exact ⟨91, _, rfl, rfl, by decide⟩
  | arr => exact ⟨91, _, rfl, rfl, by decide⟩
  | scalar h =>
    obtain ⟨c, t', rfl⟩ := List.exists_cons_of_ne_nil h.nonempty
    obtain ⟨hneutral, hspace⟩ := h.plain c List.mem_cons_self
    refine ⟨c, t', rfl, hspace, ?_⟩
    rintro rfl
    cases hneutral

theorem ItemsText.head {t : Str} {js : List (Json φ)} (h : ItemsText t js) :
    ∃ c t', t = c :: t' ∧ isJsonSpace c = false ∧ c ≠ 93 := by
  cases h with
  | last h =>
    obtain ⟨c, t', rfl, hc⟩ := h.head
    exact ⟨c, _, rfl, hc⟩
  | more h =>
    obtain ⟨c, t', rfl, hc⟩ := h.head
    exact ⟨c, _, rfl, hc⟩

mutual

/-- The brackets of a value are paired. -/
theorem ValueText.after : ∀ {t : Str} {j : Json φ}, ValueText t j →
    ∀ d, (Place.within d).after t = .within d
  | _, _, .str h, d => h.after d
  | _, _, .objNil hw, d => by
    rw [Place.after_cons, Place.after_append]
    exact congrArg (Place.after · [125]) (hw.after (d + 1))
  | _, _, .obj hw h, d => by
    rw [Place.after_cons, Place.after_append]
    exact (congrArg (Place.after · _) (hw.after (d + 1))).trans (h.after (d + 1))
  | _, _, .arrNil hw, d => by
    rw [Place.after_cons, Place.after_append]
    exact congrArg (Place.after · [93]) (hw.after (d + 1))
  | _, _, .arr hw h, d => by
    rw [Place.after_cons, Place.after_append]
    exact (congrArg (Place.after · _) (hw.after (d + 1))).trans (h.after (d + 1))
  | _, _, .scalar h, d => Place.after_neutral (fun c hc => (h.plain c hc).1) d

theorem ItemsText.after : ∀ {t : Str} {js : List (Json φ)}, ItemsText t js →
    ∀ d, (Place.within d).after t = .close d
  | _, _, .last h hw, d => by
    rw [Place.after_append, h.after, Place.after_append, hw.after]
    rfl
  | _, _, .more h hw hx hrest, d => by
    rw [Place.after_append, h.after, Place.after_append, hw.after, Place.after_cons,
      Place.after_append]
    exact (congrArg (Place.after · _) (hx.after d)).trans (hrest.after d)

theorem MembersText.after : ∀ {t : Str} {ms : List (Str × Json φ)}, MembersText t ms →
    ∀ d, (Place.within d).after t = .close d
  | _, _, .last hk hw hx h hy, d => by
    rw [Place.after_cons, Place.after_append]
    refine (congrArg (Place.after · _) (hk.after d)).trans ?_
    rw [Place.after_append, hw.after, Place.after_cons, Place.after_append]
    refine (congrArg (Place.after · _) (hx.after d)).trans ?_
    rw [Place.after_append, h.after, Place.after_append, hy.after]
    rfl
  | _, _, .more hk hw hx h hy hz hrest, d => by
    rw [Place.after_cons, Place.after_append]
    refine (congrArg (Place.after · _) (hk.after d)).trans ?_
    rw [Place.after_append, hw.after, Place.after_cons, Place.after_append]
    refine (congrArg (Place.after · _) (hx.after d)).trans ?_
    rw [Place.after_append, h.after, Place.after_append, hy.after, Place.after_cons,
      Place.after_append]
    exact (congrArg (Place.after · _) (hz.after d)).trans (hrest.after d)

end

theorem scanItems_of_scanValue {n : Nat} {s u u' : Str} {j : Json φ} {c : CodePoint}
    (hv : scanValue n s = some (j, u)) (hu : skipSpace u = c :: u') :
    scanItems (n + 1) s =
      if c = 93 then some ([j], u')
      else if c = 44 then (scanItems n (skipSpace u')).map fun p => (j :: p.1, p.2)
      else none := by
  rw [scanItems, hv]
  simp only [Option.bind_eq_bind, Option.bind_some, hu]

theorem scanMembers_of_scanValue {n : Nat} {s r u u' x x' : Str} {v : Json φ} {c : CodePoint}
    (hk : scanString s = some (r, u)) (hu : skipSpace u = 58 :: u')
    (hv : scanValue n (skipSpace u') = some (v, x)) (hx : skipSpace x = c :: x') :
    scanMembers (n + 1) (34 :: s) =
      if c = 125 then some ([(r, v)], x')
      else if c = 44 then (scanMembers n (skipSpace x')).map fun p => ((r, v) :: p.1, p.2)
      else none := by
  rw [scanMembers, if_pos rfl, hk]
  simp only [Option.bind_eq_bind, Option.bind_some, hu, ↓reduceIte, hv, hx]

theorem ValueText.skipSpace_eq {t : Str} {j : Json φ} (h : ValueText t j) {w : Str}
    (hw : IsBlank w) (rest : Str) : skipSpace (w ++ (t ++ rest)) = t ++ rest := by
  obtain ⟨c, t', rfl, hc, -⟩ := h.head
  rw [skipSpace_append hw]
  exact skipSpace_of_head hc _

theorem skipSpace_blank_cons {w : Str} (hw : IsBlank w) {c : CodePoint}
    (hc : isJsonSpace c = false) (rest : Str) : skipSpace (w ++ c :: rest) = c :: rest := by
  rw [skipSpace_append hw]
  exact skipSpace_of_head hc rest

mutual

/-- A text of a value is read as the value, whatever comes after it but the rest of a number. -/
theorem ValueText.scans : ∀ {t : Str} {j : Json φ}, ValueText t j →
    ∀ n rest, 2 * t.length + 1 ≤ n → EndsNumber rest → scanValue n (t ++ rest) = some (j, rest)
  | _, _, .str h, n, rest, hn, _ => by
    obtain ⟨n, rfl⟩ := Nat.exists_eq_add_of_le' (show 1 ≤ n by omega)
    rw [List.cons_append, scanValue, if_pos rfl, h.scans rest]
    rfl
  | _, _, .objNil (w := w) hw, n, rest, hn, _ => by
    obtain ⟨n, rfl⟩ := Nat.exists_eq_add_of_le' (show 1 ≤ n by omega)
    have hskip : skipSpace (w ++ [125] ++ rest) = 125 :: rest := by
      rw [List.append_assoc, skipSpace_append hw]
      exact skipSpace_of_head rfl rest
    rw [List.cons_append, scanValue, hskip]
    rfl
  | _, _, .obj (w := w) (t := t) hw h, n, rest, hn, _ => by
    obtain ⟨n, rfl⟩ := Nat.exists_eq_add_of_le' (show 1 ≤ n by omega)
    rw [List.length_cons, List.length_append] at hn
    have hread := h.scans n rest (by omega)
    obtain ⟨t', rfl⟩ := h.head
    have hskip : skipSpace (w ++ 34 :: t' ++ rest) = 34 :: t' ++ rest := by
      rw [List.append_assoc, skipSpace_append hw]
      exact skipSpace_of_head rfl _
    rw [List.cons_append, scanValue, hskip]
    simp only [List.cons_append] at hread ⊢
    rw [hread]
    rfl
  | _, _, .arrNil (w := w) hw, n, rest, hn, _ => by
    obtain ⟨n, rfl⟩ := Nat.exists_eq_add_of_le' (show 1 ≤ n by omega)
    have hskip : skipSpace (w ++ [93] ++ rest) = 93 :: rest := by
      rw [List.append_assoc, skipSpace_append hw]
      exact skipSpace_of_head rfl rest
    rw [List.cons_append, scanValue, hskip]
    rfl
  | _, _, .arr (w := w) (t := t) hw h, n, rest, hn, _ => by
    obtain ⟨n, rfl⟩ := Nat.exists_eq_add_of_le' (show 1 ≤ n by omega)
    rw [List.length_cons, List.length_append] at hn
    have hread := h.scans n rest (by omega)
    obtain ⟨c, t', rfl, hc, hc'⟩ := h.head
    have hskip : skipSpace (w ++ c :: t' ++ rest) = c :: t' ++ rest := by
      rw [List.append_assoc, skipSpace_append hw]
      exact skipSpace_of_head hc _
    rw [List.cons_append, scanValue, hskip]
    simp only [List.cons_append] at hread ⊢
    rw [if_neg hc', hread]
    rfl
  | _, _, .scalar h, n, rest, hn, hrest => by
    obtain ⟨n, rfl⟩ := Nat.exists_eq_add_of_le' (show 1 ≤ n by omega)
    have hread := h.scans rest hrest
    obtain ⟨c, t', rfl⟩ := List.exists_cons_of_ne_nil h.nonempty
    obtain ⟨hneutral, -⟩ := h.plain c List.mem_cons_self
    simp only [Place.isNeutral, Bool.and_eq_true, bne_iff_ne] at hneutral
    obtain ⟨⟨⟨⟨⟨h34, h123⟩, -⟩, h91⟩, -⟩, -⟩ := hneutral
    rw [List.cons_append] at hread ⊢
    rw [scanValue, if_neg h34, if_neg h123, if_neg h91, hread]

theorem ItemsText.scans : ∀ {t : Str} {js : List (Json φ)}, ItemsText t js →
    ∀ n rest, 2 * t.length + 1 ≤ n → scanItems n (t ++ rest) = some (js, rest)
  | _, _, .last (t := t) (w := w) h hw, n, rest, hn => by
    obtain ⟨n, rfl⟩ := Nat.exists_eq_add_of_le' (show 1 ≤ n by omega)
    simp only [List.length_append, List.length_cons] at hn
    have hread := h.scans n (w ++ 93 :: rest) (by omega) (endsNumber_blank hw rfl rest)
    simp only [List.append_assoc, List.cons_append, List.nil_append]
    rw [scanItems_of_scanValue hread (skipSpace_blank_cons hw rfl rest), if_pos rfl]
  | _, _, .more (t := t) (w := w) (x := x) (u := u) h hw hx hrest, n, rest, hn => by
    obtain ⟨n, rfl⟩ := Nat.exists_eq_add_of_le' (show 1 ≤ n by omega)
    simp only [List.length_append, List.length_cons] at hn
    have hread := h.scans n (w ++ 44 :: (x ++ (u ++ rest))) (by omega)
      (endsNumber_blank hw rfl _)
    have htail := hrest.scans n rest (by omega)
    obtain ⟨c, u', rfl, hc, -⟩ := hrest.head
    simp only [List.append_assoc, List.cons_append] at hread htail ⊢
    rw [scanItems_of_scanValue hread (skipSpace_blank_cons hw rfl _), if_neg (by decide),
      if_pos rfl, skipSpace_blank_cons hx hc, htail]
    rfl

theorem MembersText.scans : ∀ {t : Str} {ms : List (Str × Json φ)}, MembersText t ms →
    ∀ n rest, 2 * t.length + 1 ≤ n → scanMembers n (t ++ rest) = some (ms, rest)
  | _, _, .last (k := k) (w := w) (x := x) (t := t) (y := y) hk hw hx h hy, n, rest, hn => by
    obtain ⟨n, rfl⟩ := Nat.exists_eq_add_of_le' (show 1 ≤ n by omega)
    simp only [List.length_append, List.length_cons] at hn
    have hread := h.scans n (y ++ 125 :: rest) (by omega) (endsNumber_blank hy rfl rest)
    rw [← h.skipSpace_eq hx] at hread
    simp only [List.append_assoc, List.cons_append, List.nil_append]
    rw [scanMembers_of_scanValue (hk.scans _) (skipSpace_blank_cons hw rfl _) hread
      (skipSpace_blank_cons hy rfl rest), if_pos rfl]
  | _, _, .more (k := k) (w := w) (x := x) (t := t) (y := y) (z := z) (u := u) hk hw hx h hy hz
      hrest, n, rest, hn => by
    obtain ⟨n, rfl⟩ := Nat.exists_eq_add_of_le' (show 1 ≤ n by omega)
    simp only [List.length_append, List.length_cons] at hn
    have hread := h.scans n (y ++ 44 :: (z ++ (u ++ rest))) (by omega)
      (endsNumber_blank hy rfl _)
    rw [← h.skipSpace_eq hx] at hread
    have htail := hrest.scans n rest (by omega)
    obtain ⟨u', rfl⟩ := hrest.head
    simp only [List.append_assoc, List.cons_append] at hread htail ⊢
    rw [scanMembers_of_scanValue (hk.scans _) (skipSpace_blank_cons hw rfl _) hread
      (skipSpace_blank_cons hy rfl _), if_neg (by decide), if_pos rfl,
      skipSpace_blank_cons hz rfl, htail]
    rfl

end

/-! ## Documents -/

/-- A document is a text of its value between white space. -/
theorem loads_eq_some_iff {s : Str} {j : Json φ} : loads s = some j ↔
    ∃ w t w', s = w ++ (t ++ w') ∧ IsBlank w ∧ ValueText t j ∧ IsBlank w' := by
  constructor
  · intro h
    unfold loads at h
    split at h
    · next j' rest hscan =>
      split at h
      · next hrest =>
        cases h
        obtain ⟨w, hs, hw⟩ := exists_skipSpace s
        obtain ⟨w', hrest', hw'⟩ := exists_skipSpace rest
        rw [hrest, List.append_nil] at hrest'
        subst hrest'
        obtain ⟨t, ht, htext⟩ := valueText_of_scanValue _ _ (endsNumber_of_blank hw') hscan
        exact ⟨w, t, rest, by rw [← ht, ← hs], hw, htext, hw'⟩
      · cases h
    · cases h
  · rintro ⟨w, t, w', rfl, hw, htext, hw'⟩
    have hread := htext.scans (2 * (w ++ (t ++ w')).length + 1) w'
      (by simp only [List.length_append]; omega) (endsNumber_of_blank hw')
    have hend : skipSpace w' = [] := List.dropWhile_eq_nil_iff.mpr hw'
    unfold loads
    rw [htext.skipSpace_eq hw, hread]
    exact if_pos hend

theorem not_scalarText_obj {t : Str} {ms : List (Str × Json φ)} : ¬ ScalarText t (.obj ms) := by
  intro h
  have hscan := h.scans [] (fun _ hc => nomatch hc)
  unfold scanScalar at hscan
  split at hscan
  · next hfind =>
    simp only [Option.some.injEq, Prod.mk.injEq] at hscan
    obtain ⟨rfl, -⟩ := hscan
    have hmem := List.mem_of_find?_eq_some hfind
    simp [constants] at hmem
  · obtain ⟨⟨t', float, rest⟩, -, heq⟩ := Option.map_eq_some_iff.mp hscan
    cases float <;> cases heq

/-- The text of an object closes at its end and nowhere before. -/
theorem ValueText.closes {t : Str} {ms : List (Str × Json φ)} (h : ValueText t (.obj ms)) :
    ∃ body, t = 123 :: body ∧ (Place.within 0).after body = .closed := by
  cases h with
  | objNil hw =>
    refine ⟨_, rfl, ?_⟩
    rw [Place.after_append, hw.after]
    rfl
  | obj hw h =>
    refine ⟨_, rfl, ?_⟩
    rw [Place.after_append, hw.after]
    exact h.after 0
  | scalar h => exact absurd h not_scalarText_obj

theorem MembersText.ends : ∀ {t : Str} {ms : List (Str × Json φ)}, MembersText t ms →
    [125] <:+ t
  | _, _, .last (k := k) (w := w) (x := x) (t := t) (y := y) .. =>
    ⟨34 :: (k ++ (w ++ 58 :: (x ++ (t ++ y)))), by simp only [List.cons_append, List.append_assoc]⟩
  | _, _, .more (k := k) (w := w) (x := x) (t := t) (y := y) (z := z) _ _ _ _ _ _ hrest => by
    obtain ⟨u, rfl⟩ := hrest.ends
    exact ⟨34 :: (k ++ (w ++ 58 :: (x ++ (t ++ (y ++ 44 :: (z ++ u)))))),
      by simp only [List.cons_append, List.append_assoc]⟩

theorem ValueText.ends {t : Str} {ms : List (Str × Json φ)} (h : ValueText t (.obj ms)) :
    [125] <:+ t := by
  cases h with
  | objNil hw => exact (List.suffix_append _ _).trans (List.suffix_cons _ _)
  | obj hw h => exact h.ends.trans ((List.suffix_append _ _).trans (List.suffix_cons _ _))
  | scalar h => exact absurd h not_scalarText_obj

/-- A line feed is in no string. -/
theorem Place.next_lineFeed (p : Place) :
    p.next 10 = .failed ∨ ∃ d, p = .within d ∧ p.next 10 = .within d := by
  cases p with
  | within d => exact .inr ⟨d, rfl, rfl⟩
  | inString => exact .inl rfl
  | escaped => exact .inl rfl
  | closed => exact .inl rfl
  | failed => exact .inl rfl

theorem after_loads {s : Str} {j : Json φ} (h : loads s = some j) (d : Nat) :
    (Place.within d).after s = .within d := by
  obtain ⟨w, t, w', rfl, hw, ht, hw'⟩ := loads_eq_some_iff.mp h
  rw [Place.after_append, hw.after, Place.after_append, ht.after, hw'.after]

/-- A stray line break of a document is in a string. -/
theorem not_within_of_loads {p s : Str} {c : CodePoint} {j : Json φ}
    (h : loads (p ++ c :: s) = some j) (hc : isStrayBreak c = true) (d : Nat) :
    (Place.within 0).after p ≠ .within d := by
  intro hp
  have hafter := after_loads h 0
  have hne : ∀ k : CodePoint, isStrayBreak k = false → c ≠ k := fun k hk he => by
    rw [he, hk] at hc
    cases hc
  rw [Place.after_append, hp, Place.after_cons, Place.next, if_neg (hne 34 rfl),
    if_neg (not_or.mpr ⟨hne 123 rfl, hne 91 rfl⟩), if_neg (not_or.mpr ⟨hne 125 rfl, hne 93 rfl⟩),
    if_pos hc, Place.after_failed] at hafter
  cases hafter

/-- Before a line that leads from each place back to it, in the document of an object, there is
nothing. -/
theorem blank_of_loads {p s : Str} {ms : List (Str × Json φ)}
    (h : loads (p ++ 10 :: s) = some (.obj ms))
    (hplace : ∀ d, (Place.within d).after s = .within d) (hs : ¬ IsBlank s) : IsBlank p := by
  obtain ⟨w, u, w', heq, hw, hu, hw'⟩ := loads_eq_some_iff.mp h
  obtain ⟨body, rfl, hbody⟩ := hu.closes
  by_contra hblank
  -- the object begins before the line feed
  have hbegins : ∃ p', p = w ++ 123 :: p' := by
    rcases List.append_eq_append_iff.mp heq with ⟨v, rfl, hv⟩ | ⟨v, rfl, hv⟩
    · exact absurd (fun c hc => hw c (List.mem_append_left _ hc)) hblank
    · cases v with
      | nil =>
        rw [List.append_nil] at hblank
        exact absurd hw hblank
      | cons c v =>
        rw [List.cons_append, List.cons_append] at hv
        obtain rfl := (List.cons.inj hv).1
        exact ⟨v, rfl⟩
  obtain ⟨p', rfl⟩ := hbegins
  have hrest : (p' ++ [10]) ++ s = body ++ w' := by
    rw [List.append_assoc, List.append_cancel_left_eq, List.cons_append] at heq
    rw [List.append_assoc]
    exact (List.cons.inj heq).2
  rcases List.append_eq_append_iff.mp hrest with ⟨v, rfl, hv⟩ | ⟨v, -, hv⟩
  · rw [Place.after_append, Place.after_append] at hbody
    change (((Place.within 0).after p').next 10).after v = .closed at hbody
    rcases Place.next_lineFeed ((Place.within 0).after p') with hnext | ⟨d, -, hnext⟩
    · rw [hnext, Place.after_failed] at hbody
      cases hbody
    · -- what follows leads back to the place of the line feed, and the object ends in it
      rw [hnext] at hbody
      have hafter := hplace d
      rw [hv, Place.after_append, hbody] at hafter
      cases w' with
      | nil => cases hafter
      | cons b w' =>
        rw [Place.after_cons, Place.next, Place.after_failed] at hafter
        cases hafter
  · refine hs fun c hc => hw' c ?_
    rw [hv]
    exact List.mem_append_right v hc

end Py
