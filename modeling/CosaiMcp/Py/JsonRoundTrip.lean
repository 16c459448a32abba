import CosaiMcp.Py.Json

/-!
# Reading back what was written

`loads (text j) = some (reload j)` for every value `j` (`loads_text`). What comes back is not always
`j`: a high surrogate and a low one next to each other come back as one code point, and two keys
that become one are merged. A value without such pairs and without double keys comes back as it was
(`Json.reload_eq_self`).
-/

namespace Py

/-! ## Strings -/

section Strings

theorem hexValue?_hexDigit {n : Nat} (h : n < 16) : hexValue? (hexDigit n) = some n := by
  have hall : ∀ n : Fin 16, hexValue? (hexDigit n.val) = some n.val := by decide
  exact hall ⟨n, h⟩

theorem hex4?_hexDigits {n : Nat} (h : n < 0x10000) :
    hex4? (hexDigit (n / 4096 % 16)) (hexDigit (n / 256 % 16)) (hexDigit (n / 16 % 16))
      (hexDigit (n % 16)) = some n := by
  have hlt : ∀ m, m % 16 < 16 := fun m => Nat.mod_lt _ (by decide)
  simp only [hex4?, hexValue?_hexDigit (hlt _), Option.bind_eq_bind, Option.bind_some,
    Option.some.injEq]
  omega

/-- A text that does not start with the escape of a low surrogate. -/
def NotLowEscape (t : Str) : Prop :=
  (∀ t', t ≠ 92 :: 117 :: t') ∨
    ∃ m t', m < 0x10000 ∧ isLowSurrogate m = false ∧ t = unicodeEscape m ++ t'

theorem scanString_unicodeEscape {n : Nat} (hn : n < 0x10000) {t : Str}
    (h : isHighSurrogate n = true → NotLowEscape t) :
    scanString (unicodeEscape n ++ t) =
      (scanString t).map fun p => (Fin.ofNat _ n :: p.1, p.2) := by
  show scanString (92 :: 117 :: hexDigit _ :: hexDigit _ :: hexDigit _ :: hexDigit _ :: t) = _
  rw [scanString]
  simp only [show ¬ (92 : CodePoint) = 34 by decide, ↓reduceIte, hex4?_hexDigits hn]
  split
  · rename_i b u l₃ l₂ l₁ l₀ s'
    split
    · rename_i hcond
      obtain ⟨hhigh, rfl, rfl⟩ := hcond
      rcases h hhigh with h | ⟨m, t', hm, hlow, ht⟩
      · exact absurd rfl (h _)
      · injection ht with _ ht
        injection ht with _ ht
        injection ht with h₃ ht
        injection ht with h₂ ht
        injection ht with h₁ ht
        injection ht with h₀ ht
        rw [h₃, h₂, h₁, h₀, hex4?_hexDigits hm]
        simp only [hlow, Bool.false_eq_true, ↓reduceIte]
    · rfl
  · rfl

theorem scanString_pair {n m : Nat} (hn : isHighSurrogate n = true) (hm : isLowSurrogate m = true)
    (t : Str) :
    scanString (unicodeEscape n ++ (unicodeEscape m ++ t)) =
      (scanString t).map fun p => (joinSurrogates n m :: p.1, p.2) := by
  have hn' : n < 0x10000 := by simp [isHighSurrogate] at hn; omega
  have hm' : m < 0x10000 := by simp [isLowSurrogate] at hm; omega
  show scanString (92 :: 117 :: hexDigit _ :: hexDigit _ :: hexDigit _ :: hexDigit _ ::
    92 :: 117 :: hexDigit _ :: hexDigit _ :: hexDigit _ :: hexDigit _ :: t) = _
  rw [scanString]
  simp only [show ¬ (92 : CodePoint) = 34 by decide, ↓reduceIte, hex4?_hexDigits hn',
    hex4?_hexDigits hm', hn, hm, and_self]

/-- The shapes of an escaped code point. -/
theorem escapeChar_cases (c : CodePoint) :
    (∃ e, escapeChar c = [92, e] ∧ e ≠ 117 ∧ simpleEscape? e = some c ∧ c.val ≤ 92) ∨
    (escapeChar c = [c] ∧ c ≠ 34 ∧ c ≠ 92 ∧ 32 ≤ c.val ∧ c.val ≤ 126) ∨
    (escapeChar c = unicodeEscape c.val ∧ c.val < 0x10000) ∨
    (escapeChar c = unicodeEscape (0xD800 + (c.val - 0x10000) / 0x400) ++
      unicodeEscape (0xDC00 + (c.val - 0x10000) % 0x400) ∧ 0x10000 ≤ c.val) := by
  unfold escapeChar
  by_cases h1 : c = 34 ∨ c = 92
  · refine Or.inl ⟨c, by simp [h1], ?_, ?_, ?_⟩ <;> rcases h1 with rfl | rfl <;> decide
  by_cases h2 : c = 8
  · subst h2
    exact Or.inl ⟨98, by decide, by decide, by decide, by decide⟩
  by_cases h3 : c = 9
  · subst h3
    exact Or.inl ⟨116, by decide, by decide, by decide, by decide⟩
  by_cases h4 : c = 10
  · subst h4
    exact Or.inl ⟨110, by decide, by decide, by decide, by decide⟩
  by_cases h5 : c = 12
  · subst h5
    exact Or.inl ⟨102, by decide, by decide, by decide, by decide⟩
  by_cases h6 : c = 13
  · subst h6
    exact Or.inl ⟨114, by decide, by decide, by decide, by decide⟩
  simp only [h1, h2, h3, h4, h5, h6, ↓reduceIte]
  right
  rw [not_or] at h1
  by_cases h7 : 32 ≤ c.val ∧ c.val ≤ 126
  · exact Or.inl ⟨by simp [h7], h1.1, h1.2, h7⟩
  right
  by_cases h8 : c.val < 0x10000
  · exact Or.inl ⟨by simp [h7, h8], h8⟩
  · exact Or.inr ⟨by simp [h7, h8], by omega⟩

/-- Only the escape of a low surrogate starts like one. -/
theorem notLowEscape_escapeChar {c : CodePoint} (h : isLowSurrogate c.val = false) (t : Str) :
    NotLowEscape (escapeChar c ++ t) := by
  rcases escapeChar_cases c with ⟨e, he, hne, -⟩ | ⟨he, -, hc, -⟩ | ⟨he, hlt⟩ | ⟨he, hle⟩
  · rw [he]
    exact Or.inl fun t' ht => hne (by injection ht with _ ht; injection ht)
  · rw [he]
    exact Or.inl fun t' ht => hc (by injection ht)
  · rw [he]
    exact Or.inr ⟨c.val, t, hlt, h, rfl⟩
  · rw [he, List.append_assoc]
    have := c.isLt
    refine Or.inr ⟨_, _, by omega, ?_, rfl⟩
    simp only [isLowSurrogate, Bool.and_eq_false_iff, decide_eq_false_iff_not]
    omega

theorem scanString_escapeChar {c : CodePoint} {t : Str}
    (h : isHighSurrogate c.val = true → NotLowEscape t) :
    scanString (escapeChar c ++ t) = (scanString t).map fun p => (c :: p.1, p.2) := by
  have hc := c.isLt
  rcases escapeChar_cases c with ⟨e, he, hne, hx, -⟩ | ⟨he, h34, h92, h32, -⟩ | ⟨he, hlt⟩ |
    ⟨he, hle⟩
  · rw [he]
    show scanString (92 :: e :: t) = _
    rw [scanString.eq_def]
    simp only [show ¬ (92 : CodePoint) = 34 by decide, ↓reduceIte, hne, hx]
  · rw [he]
    show scanString (c :: t) = _
    rw [scanString.eq_def]
    simp only [h34, h92, ↓reduceIte, show ¬ c.val < 32 by omega]
  · rw [he, scanString_unicodeEscape hlt h]
    rw [show (Fin.ofNat 0x110000 c.val : CodePoint) = c from Fin.ext (Nat.mod_eq_of_lt hc)]
  · rw [he, List.append_assoc, scanString_pair]
    · have hjoin : joinSurrogates (0xD800 + (c.val - 0x10000) / 0x400)
          (0xDC00 + (c.val - 0x10000) % 0x400) = c := by
        refine Fin.ext ?_
        simp only [joinSurrogates, Fin.ofNat]
        rw [Nat.mod_eq_of_lt (by omega)]
        omega
      rw [hjoin]
    · simp [isHighSurrogate]; omega
    · simp [isLowSurrogate]; omega

theorem escapeChar_of_surrogate {c : CodePoint} (hc : isSurrogate c = true) :
    escapeChar c = unicodeEscape c.val := by
  simp only [isSurrogate, Bool.and_eq_true, decide_eq_true_eq] at hc
  rcases escapeChar_cases c with ⟨e, -, -, -, h⟩ | ⟨-, -, -, -, h⟩ | ⟨he, -⟩ | ⟨-, h⟩
  · omega
  · omega
  · exact he
  · omega

theorem scanString_quoteMark (r : Str) : scanString (34 :: r) = some ([], r) := by
  rw [scanString.eq_def]
  rfl

/-- A quoted string is read back with its surrogate pairs joined. -/
theorem scanString_quoted (s r : Str) :
    scanString (s.flatMap escapeChar ++ 34 :: r) = some (mergePairs s, r) := by
  induction s using mergePairs.induct with
  | case1 => exact scanString_quoteMark r
  | case2 c =>
    simp only [List.flatMap_cons, List.flatMap_nil, List.append_nil, mergePairs]
    rw [scanString_escapeChar fun _ => Or.inl fun t' ht => by injection ht with h; cases h]
    rw [scanString_quoteMark]
    rfl
  | case3 a b s hpair ih =>
    obtain ⟨ha, hb⟩ := hpair
    have hsa : isSurrogate a = true := by
      simp only [isHighSurrogate, isSurrogate, Bool.and_eq_true, decide_eq_true_eq] at ha ⊢
      omega
    have hsb : isSurrogate b = true := by
      simp only [isLowSurrogate, isSurrogate, Bool.and_eq_true, decide_eq_true_eq] at hb ⊢
      omega
    rw [List.flatMap_cons, List.flatMap_cons, escapeChar_of_surrogate hsa,
      escapeChar_of_surrogate hsb, List.append_assoc, List.append_assoc, scanString_pair ha hb, ih]
    simp [mergePairs, ha, hb]
  | case4 a b s hpair ih =>
    rw [List.flatMap_cons, List.append_assoc, scanString_escapeChar, ih]
    · simp [mergePairs, hpair]
    · intro ha
      have hb : isLowSurrogate b.val = false := by
        rw [not_and] at hpair; simpa using hpair ha
      rw [List.flatMap_cons, List.append_assoc]
      exact notLowEscape_escapeChar hb _

end Strings

/-! ## Scalars -/

section Scalars

variable {φ : Type} [FloatText φ]

theorem scanInteger_head {s : Str} (h : scanInteger s ≠ none) :
    ∃ c t, s = c :: t ∧ isDigit c = true := by
  cases s with
  | nil => exact absurd rfl h
  | cons c t =>
    refine ⟨c, t, rfl, ?_⟩
    by_contra hc
    have h48 : c ≠ 48 := by rintro rfl; exact hc (by decide)
    simp [scanInteger, h48, hc] at h

/-- A number starts with a digit, or with a minus sign and a digit. -/
theorem scanNumber_head {s : Str} (h : scanNumber s ≠ none) :
    (∃ c t, s = c :: t ∧ isDigit c = true) ∨ ∃ c t, s = 45 :: c :: t ∧ isDigit c = true := by
  have hint : scanInteger (scanMinus s).2 ≠ none := by
    intro hnone
    simp [scanNumber, hnone] at h
  obtain ⟨c, t, hs, hc⟩ := scanInteger_head hint
  cases s with
  | nil => cases hs
  | cons d s =>
    simp only [scanMinus] at hs
    split at hs
    · rename_i hd
      simp only at hs
      exact Or.inr ⟨c, t, by rw [hd, hs], hc⟩
    · exact Or.inl ⟨c, t, hs, hc⟩

theorem not_constant_of_scanNumber {s : Str} (h : scanNumber s ≠ none) :
    (constants (φ := φ)).find? (fun k => k.1.isPrefixOf s) = none := by
  have hdigit : ∀ c : CodePoint, isDigit c = true →
      c ≠ 110 ∧ c ≠ 116 ∧ c ≠ 102 ∧ c ≠ 78 ∧ c ≠ 73 ∧ c ≠ 45 := by
    intro c hc
    refine ⟨?_, ?_, ?_, ?_, ?_, ?_⟩ <;> rintro rfl <;> exact absurd hc (by decide)
  rw [List.find?_eq_none]
  intro k hk
  simp only [constants, List.mem_cons, List.not_mem_nil, or_false] at hk
  rcases scanNumber_head h with ⟨c, t, rfl, hc⟩ | ⟨c, t, rfl, hc⟩ <;>
  · obtain ⟨h1, h2, h3, h4, h5, h6⟩ := hdigit c hc
    rcases hk with rfl | rfl | rfl | rfl | rfl | rfl <;>
      simp [lit, CodePoint.ofChar, List.isPrefixOf, h1.symm, h2.symm, h3.symm, h4.symm, h5.symm,
        h6.symm]

theorem scanScalar_number {s t rest : Str} {float : Bool}
    (h : scanNumber s = some (t, float, rest)) : scanScalar s =
      some ((if float then .float (FloatText.ofText t) else .int (intOf t) : Json φ), rest) := by
  rw [scanScalar, not_constant_of_scanNumber (by simp [h]), h]
  rfl

theorem scanScalar_repr {r : Str} (hr : EndsNumber r) (x : φ) :
    scanScalar (FloatText.repr x ++ r) = some (.float x, r) := by
  rcases FloatText.repr_cases x with ⟨hx, he⟩ | ⟨hx, he⟩ | ⟨hscan, hx⟩
  · rw [he, hx]; rfl
  · rw [he, hx]; rfl
  · rw [scanScalar_number (scanNumber_append hr hscan), ite_cond_eq_true _ _ (eq_true rfl), hx]

/-- The text of a value starts with a character that is no space and closes nothing. -/
theorem text_head (j : Json φ) : ∃ c t, j.text = c :: t ∧ isJsonSpace c = false ∧ c ≠ 93 := by
  have hdigit : ∀ c : CodePoint, isDigit c = true ∨ c = 45 → isJsonSpace c = false ∧ c ≠ 93 := by
    intro c hc
    have hval : 45 ≤ c.val ∧ c.val ≤ 57 := by
      rcases hc with hc | rfl
      · simp only [isDigit, Bool.and_eq_true, decide_eq_true_eq] at hc; omega
      · decide
    refine ⟨?_, by rintro rfl; exact absurd hval (by decide)⟩
    simp only [isJsonSpace, Bool.or_eq_false_iff, beq_eq_false_iff_ne]
    refine ⟨⟨⟨?_, ?_⟩, ?_⟩, ?_⟩ <;> rintro rfl <;> exact absurd hval (by decide)
  have hnumber : ∀ s : Str, scanNumber s ≠ none →
      ∃ c t, s = c :: t ∧ isJsonSpace c = false ∧ c ≠ 93 := by
    intro s hs
    rcases scanNumber_head hs with ⟨c, t, rfl, hc⟩ | ⟨c, t, rfl, -⟩
    · exact ⟨c, t, rfl, hdigit c (Or.inl hc)⟩
    · exact ⟨45, _, rfl, hdigit 45 (Or.inr rfl)⟩
  cases j using Json.text.fun_cases with
  | case4 n =>
    simp only [Json.text]
    have := scanNumber_intText (r := []) (fun _ h => by cases h) n
    rw [List.append_nil] at this
    exact hnumber _ (by simp [this])
  | case5 x =>
    simp only [Json.text]
    rcases FloatText.repr_cases x with ⟨-, he⟩ | ⟨-, he⟩ | ⟨hscan, -⟩
    · rw [he]; exact ⟨73, _, rfl, by decide, by decide⟩
    · rw [he]; exact ⟨45, _, rfl, by decide, by decide⟩
    · exact hnumber _ (by simp [hscan])
  | _ => exact ⟨_, _, rfl, by decide, by decide⟩

end Scalars

/-! ## Values -/

section Values

variable {φ : Type}

mutual

/-- What a value is after a round trip. -/
def Json.reload : Json φ → Json φ
  | .str s => .str (mergePairs s)
  | .arr js => .arr (Json.reloadItems js)
  | .obj ms => .obj (dictOf (Json.reloadMembers ms))
  | .null => .null
  | .bool b => .bool b
  | .int n => .int n
  | .float x => .float x
  | .nan => .nan

def Json.reloadItems : List (Json φ) → List (Json φ)
  | [] => []
  | j :: js => Json.reload j :: Json.reloadItems js

def Json.reloadMembers : List (Str × Json φ) → List (Str × Json φ)
  | [] => []
  | (k, v) :: ms => (mergePairs k, Json.reload v) :: Json.reloadMembers ms

end

variable [FloatText φ]

theorem skipSpace_text (j : Json φ) (r : Str) : skipSpace (j.text ++ r) = j.text ++ r := by
  obtain ⟨c, t, h, hc, -⟩ := text_head j
  rw [h]
  simp [skipSpace, hc]

theorem skipSpace_quote (s r : Str) : skipSpace (quote s ++ r) = quote s ++ r := by
  simp [skipSpace, quote, isJsonSpace]

theorem endsNumber_cons {c : CodePoint} (h : isNumberChar c = false) (r : Str) :
    EndsNumber (c :: r) := by
  rintro d hd
  cases hd
  exact h

/-- `j` is read back with any fuel that twice its length allows, whatever follows. -/
def ReadsBack (j : Json φ) : Prop :=
  ∀ n r, 2 * j.text.length ≤ n → EndsNumber r → scanValue n (j.text ++ r) = some (j.reload, r)

/-- After an item that is read back, so are the items that follow it. -/
def ItemsReadBack (js : List (Json φ)) : Prop :=
  ∀ j n r, ReadsBack j → 2 * (j.text.length + (Json.moreItems js).length) + 1 ≤ n →
    scanItems n (j.text ++ (Json.moreItems js ++ r)) = some (j.reload :: Json.reloadItems js, r)

def MembersReadBack (ms : List (Str × Json φ)) : Prop :=
  ∀ k j n r, ReadsBack j →
    2 * ((quote k).length + 1 + j.text.length + (Json.moreMembers ms).length) + 1 ≤ n →
    scanMembers n (quote k ++ 58 :: (j.text ++ (Json.moreMembers ms ++ r))) =
      some ((mergePairs k, j.reload) :: Json.reloadMembers ms, r)

theorem itemsReadBack_nil : ItemsReadBack ([] : List (Json φ)) := by
  intro j n r hj hn
  obtain ⟨n, rfl⟩ := Nat.exists_eq_add_of_le' (show 1 ≤ n by omega)
  have hv := hj n (93 :: r) (by omega) (endsNumber_cons (by decide) r)
  simp only [Json.moreItems, List.singleton_append, scanItems, hv, Option.bind_eq_bind,
    Option.bind_some]
  rfl

theorem itemsReadBack_cons {j' : Json φ} {js : List (Json φ)} (hj' : ReadsBack j')
    (hjs : ItemsReadBack js) : ItemsReadBack (j' :: js) := by
  intro j n r hj hn
  simp only [Json.moreItems, List.length_cons, List.length_append] at hn
  obtain ⟨n, rfl⟩ := Nat.exists_eq_add_of_le' (show 1 ≤ n by omega)
  have hv := hj n (44 :: (j'.text ++ (Json.moreItems js ++ r))) (by omega)
    (endsNumber_cons (by decide) _)
  have hmore := hjs j' n r hj' (by omega)
  simp only [Json.moreItems, List.cons_append, List.append_assoc, scanItems, hv,
    Option.bind_eq_bind, Option.bind_some]
  show (scanItems n (skipSpace (j'.text ++ _))).map (fun p => (j.reload :: p.1, p.2)) = _
  rw [skipSpace_text, hmore]
  rfl

theorem scanString_quote (s r : Str) :
    quote s ++ r = 34 :: (s.flatMap escapeChar ++ 34 :: r) := by
  simp [quote]

theorem membersReadBack_nil : MembersReadBack ([] : List (Str × Json φ)) := by
  intro k j n r hj hn
  obtain ⟨n, rfl⟩ := Nat.exists_eq_add_of_le' (show 1 ≤ n by omega)
  have hv := hj n (125 :: r) (by omega) (endsNumber_cons (by decide) r)
  rw [scanString_quote]
  simp only [Json.moreMembers, List.singleton_append, scanMembers, ↓reduceIte, scanString_quoted,
    Option.bind_eq_bind, Option.bind_some]
  show (if (58 : CodePoint) = 58 then
    (scanValue n (skipSpace (j.text ++ 125 :: r))).bind _ else none) = _
  rw [skipSpace_text, hv]
  rfl

theorem membersReadBack_cons {k' : Str} {j' : Json φ} {ms : List (Str × Json φ)}
    (hj' : ReadsBack j') (hms : MembersReadBack ms) : MembersReadBack ((k', j') :: ms) := by
  intro k j n r hj hn
  simp only [Json.moreMembers, List.length_cons, List.length_append] at hn
  obtain ⟨n, rfl⟩ := Nat.exists_eq_add_of_le' (show 1 ≤ n by omega)
  have hv := hj n (44 :: (quote k' ++ 58 :: (j'.text ++ (Json.moreMembers ms ++ r)))) (by omega)
    (endsNumber_cons (by decide) _)
  have hmore := hms k' j' n r hj' (by omega)
  rw [scanString_quote]
  simp only [Json.moreMembers, List.cons_append, List.append_assoc, scanMembers, ↓reduceIte,
    scanString_quoted, Option.bind_eq_bind, Option.bind_some]
  show (if (58 : CodePoint) = 58 then (scanValue n (skipSpace (j.text ++ _))).bind _ else none) = _
  rw [skipSpace_text, hv]
  show (scanMembers n (skipSpace (quote k' ++ _))).map
    (fun p => ((mergePairs k, j.reload) :: p.1, p.2)) = _
  rw [skipSpace_quote, hmore]
  rfl

theorem readsBack_scalar {j : Json φ} {t : Str} (ht : j.text = t)
    (hhead : ∃ c t', t = c :: t' ∧ c ≠ 34 ∧ c ≠ 123 ∧ c ≠ 91)
    (h : ∀ r, EndsNumber r → scanScalar (t ++ r) = some (j.reload, r)) : ReadsBack j := by
  intro n r hn hr
  obtain ⟨c, t, rfl, h1, h2, h3⟩ := hhead
  rw [ht] at hn ⊢
  obtain ⟨n, rfl⟩ := Nat.exists_eq_add_of_le' (show 1 ≤ n by
    rw [List.length_cons] at hn; omega)
  have := h r hr
  simp only [List.cons_append, scanValue, h1, h2, h3, ↓reduceIte] at this ⊢
  exact this

theorem number_head {s : Str} (h : scanNumber s ≠ none) :
    ∃ c t, s = c :: t ∧ c ≠ 34 ∧ c ≠ 123 ∧ c ≠ 91 := by
  rcases scanNumber_head h with ⟨c, t, rfl, hc⟩ | ⟨c, t, rfl, -⟩
  · refine ⟨c, t, rfl, ?_, ?_, ?_⟩ <;> rintro rfl <;> exact absurd hc (by decide)
  · exact ⟨45, _, rfl, by decide, by decide, by decide⟩

theorem readsBack_constant {j : Json φ} (t : Str) (ht : j.text = t)
    (hhead : ∃ c t', t = c :: t' ∧ c ≠ 34 ∧ c ≠ 123 ∧ c ≠ 91)
    (h : ∀ r, scanScalar (t ++ r) = some (j.reload, r)) : ReadsBack j :=
  readsBack_scalar ht hhead fun r _ => h r

/-- Every value is read back, whatever follows its text. -/
theorem readsBack (j : Json φ) : ReadsBack j := by
  refine Json.text.induct ReadsBack MembersReadBack ItemsReadBack ?null ?true ?false ?int ?float
    ?nan ?str ?arrNil ?arrCons ?objNil ?objCons itemsReadBack_nil
    (fun _ _ => itemsReadBack_cons) membersReadBack_nil (fun _ _ _ => membersReadBack_cons) j
  case null =>
    exact readsBack_constant (lit "null") rfl
      ⟨_, _, rfl, by decide, by decide, by decide⟩ fun _ => rfl
  case «true» =>
    exact readsBack_constant (lit "true") rfl
      ⟨_, _, rfl, by decide, by decide, by decide⟩ fun _ => rfl
  case «false» =>
    exact readsBack_constant (lit "false") rfl
      ⟨_, _, rfl, by decide, by decide, by decide⟩ fun _ => rfl
  case nan =>
    exact readsBack_constant (lit "NaN") rfl
      ⟨_, _, rfl, by decide, by decide, by decide⟩ fun _ => rfl
  case int =>
    intro n
    have hscan := scanNumber_intText (r := []) (fun _ h => by cases h) n
    rw [List.append_nil] at hscan
    have hhead := number_head (s := intText n) (by simp [hscan])
    refine readsBack_scalar (t := intText n) rfl hhead fun r hr => ?_
    rw [scanScalar_number (scanNumber_intText hr n), intOf_intText]
    rfl
  case float =>
    intro x
    have hhead : ∃ c t, FloatText.repr x = c :: t ∧ c ≠ 34 ∧ c ≠ 123 ∧ c ≠ 91 := by
      rcases FloatText.repr_cases x with ⟨-, he⟩ | ⟨-, he⟩ | ⟨hscan, -⟩
      · exact ⟨73, _, he, by decide, by decide, by decide⟩
      · exact ⟨45, _, he, by decide, by decide, by decide⟩
      · exact number_head (by simp [hscan])
    exact readsBack_scalar rfl hhead fun r hr => scanScalar_repr hr x
  case str =>
    intro s n r hn hr
    obtain ⟨n, rfl⟩ := Nat.exists_eq_add_of_le' (show 1 ≤ n by
      simp only [Json.text, quote, List.length_cons] at hn; omega)
    simp only [Json.text, scanString_quote, scanValue, ↓reduceIte, scanString_quoted,
      Option.map_some, Json.reload]
  case arrNil =>
    intro n r hn hr
    obtain ⟨n, rfl⟩ := Nat.exists_eq_add_of_le' (show 1 ≤ n by simp [Json.text, lit] at hn; omega)
    rfl
  case arrCons =>
    intro j js hj hjs n r hn hr
    simp only [Json.text, List.length_cons, List.length_append] at hn
    obtain ⟨n, rfl⟩ := Nat.exists_eq_add_of_le' (show 1 ≤ n by omega)
    have hitems := hjs j n r hj (by omega)
    have hskip := skipSpace_text j (Json.moreItems js ++ r)
    obtain ⟨c, t, ht, -, hc⟩ := text_head j
    simp only [Json.text, List.cons_append, List.append_assoc, scanValue,
      show ¬ (91 : CodePoint) = 34 by decide, show ¬ (91 : CodePoint) = 123 by decide, ↓reduceIte]
    rw [hskip]
    rw [ht] at hitems ⊢
    simp only [List.cons_append, hc, ↓reduceIte] at hitems ⊢
    rw [hitems]
    rfl
  case objNil =>
    intro n r hn hr
    obtain ⟨n, rfl⟩ := Nat.exists_eq_add_of_le' (show 1 ≤ n by simp [Json.text, lit] at hn; omega)
    rfl
  case objCons =>
    intro k j ms hj hms n r hn hr
    simp only [Json.text, List.length_cons, List.length_append] at hn
    obtain ⟨n, rfl⟩ := Nat.exists_eq_add_of_le' (show 1 ≤ n by omega)
    have hmembers := hms k j n r hj (by omega)
    have hskip := skipSpace_quote k (58 :: (j.text ++ (Json.moreMembers ms ++ r)))
    simp only [Json.text, List.cons_append, List.append_assoc, scanValue,
      show ¬ (123 : CodePoint) = 34 by decide, ↓reduceIte]
    rw [hskip]
    rw [scanString_quote] at hmembers ⊢
    show (if (34 : CodePoint) = 125 then _ else (scanMembers n (34 :: _)).map _) = _
    rw [hmembers]
    rfl

/-- Reading back what was written. -/
theorem loads_text (j : Json φ) : loads j.text = some j.reload := by
  have hskip := skipSpace_text j []
  have hread := readsBack j (2 * j.text.length + 1) [] (by omega) fun _ h => by cases h
  rw [List.append_nil] at hskip hread
  rw [loads, hskip, hread]
  rfl

end Values

/-! ## Stable values -/

section Stable

/-- No high surrogate right before a low one. -/
def NoPair (s : Str) : Prop :=
  ∀ a b, [a, b] <:+: s → ¬(isHighSurrogate a.val = true ∧ isLowSurrogate b.val = true)

theorem mergePairs_eq_self {s : Str} (h : NoPair s) : mergePairs s = s := by
  induction s using mergePairs.induct with
  | case1 => rfl
  | case2 c => rfl
  | case3 a b s hpair ih => exact absurd hpair (h a b ⟨[], s, rfl⟩)
  | case4 a b s hpair ih =>
    have htail : NoPair (b :: s) := fun x y hxy => h x y (hxy.trans (List.suffix_cons a _).isInfix)
    rw [mergePairs, ite_cond_eq_false _ _ (eq_false hpair), ih htail]

theorem noPair_of_isScalar {s : Str} (h : isScalar s = true) : NoPair s := by
  rintro a b hab ⟨ha, -⟩
  have hmem : a ∈ s := hab.subset List.mem_cons_self
  have := List.all_eq_true.mp h a hmem
  simp only [isHighSurrogate, isSurrogate, Bool.and_eq_true, decide_eq_true_eq,
    Bool.not_eq_true', Bool.and_eq_false_iff, decide_eq_false_iff_not] at ha this
  omega

theorem dictOf_of_nodup {ν : Type} {ms : List (Str × ν)} (h : (ms.map Prod.fst).Nodup) :
    dictOf ms = ms := Dict.items_ofList h

variable {φ : Type}

mutual

/-- No object has a key twice, and no string, keys included, has a surrogate pair. -/
def Json.Stable : Json φ → Prop
  | .str s => NoPair s
  | .arr js => Json.StableItems js
  | .obj ms => (ms.map Prod.fst).Nodup ∧ Json.StableMembers ms
  | .null | .bool _ | .int _ | .float _ | .nan => True

def Json.StableItems : List (Json φ) → Prop
  | [] => True
  | j :: js => Json.Stable j ∧ Json.StableItems js

def Json.StableMembers : List (Str × Json φ) → Prop
  | [] => True
  | (k, v) :: ms => NoPair k ∧ Json.Stable v ∧ Json.StableMembers ms

end

/-- A stable value comes back as it was. -/
theorem Json.reload_eq_self (j : Json φ) : j.Stable → j.reload = j := by
  refine Json.reload.induct (fun j => j.Stable → j.reload = j)
    (fun ms => Json.StableMembers ms → Json.reloadMembers ms = ms)
    (fun js => Json.StableItems js → Json.reloadItems js = js)
    ?str ?arr ?obj ?null ?bool ?int ?float ?nan ?itemsNil ?itemsCons ?membersNil ?membersCons j
  case str => exact fun s h => by rw [Json.reload, mergePairs_eq_self h]
  case arr => exact fun js ih h => by rw [Json.reload, ih h]
  case obj => exact fun ms ih h => by rw [Json.reload, ih h.2, dictOf_of_nodup h.1]
  case null => exact fun _ => rfl
  case bool => exact fun _ _ => rfl
  case int => exact fun _ _ => rfl
  case float => exact fun _ _ => rfl
  case nan => exact fun _ => rfl
  case itemsNil => exact fun _ => rfl
  case itemsCons => exact fun j js hj hjs h => by rw [Json.reloadItems, hj h.1, hjs h.2]
  case membersNil => exact fun _ => rfl
  case membersCons =>
    exact fun k v ms hv hms h => by
      rw [Json.reloadMembers, mergePairs_eq_self h.1, hv h.2.1, hms h.2.2]

end Stable

end Py
