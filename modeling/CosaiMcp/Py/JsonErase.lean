import CosaiMcp.Py.JsonGrammar
import Mathlib.Algebra.Order.BigOperators.Group.List
import Mathlib.Algebra.Order.Group.Nat

/-!
# Documents without DEL

A string of a document may hold a raw DEL. Taken out of a document, it is missing in the value: what
remains is a document again (`ValueText.erase`), of a value with that many fewer of them in its
names and strings. So the value stays the same only if there was none (`not_mem_of_loads_eraseDel`),
or if an object gives a name twice, of which the reader forgets the first.
-/

namespace Py

variable {φ : Type}

/-! ## Characters -/

def eraseDel (t : Str) : Str := t.filter (· ≠ 127)

/-- What may stand in a document. -/
def Printable (t : Str) : Prop := ∀ c ∈ t, isJsonSpace c = true ∨ 32 ≤ c.val

section Text

variable {c : CodePoint} {s t : Str}

theorem eraseDel_append (s t : Str) : eraseDel (s ++ t) = eraseDel s ++ eraseDel t :=
  List.filter_append ..

theorem eraseDel_cons (hc : c ≠ 127) (t : Str) : eraseDel (c :: t) = c :: eraseDel t :=
  List.filter_cons_of_pos (decide_eq_true hc)

theorem eraseDel_del (t : Str) : eraseDel (127 :: t) = eraseDel t :=
  List.filter_cons_of_neg (by decide)

theorem eraseDel_eq_self (h : 127 ∉ t) : eraseDel t = t := by
  refine List.filter_eq_self.mpr fun c hc => decide_eq_true ?_
  rintro rfl
  exact h hc

theorem Printable.append (hs : Printable s) (ht : Printable t) : Printable (s ++ t) :=
  List.forall_mem_append.mpr ⟨hs, ht⟩

theorem Printable.cons (hc : isJsonSpace c = true ∨ 32 ≤ c.val) (ht : Printable t) :
    Printable (c :: t) :=
  List.forall_mem_cons.mpr ⟨hc, ht⟩

theorem printable_nil : Printable [] := fun _ hc => absurd hc List.not_mem_nil

theorem IsBlank.printable (h : IsBlank t) : Printable t := fun c hc => .inl (h c hc)

theorem IsBlank.not_mem (h : IsBlank t) : 127 ∉ t := fun hc => absurd (h 127 hc) (by decide)

theorem eraseDel_blank (h : IsBlank t) : eraseDel t = t := eraseDel_eq_self h.not_mem

theorem count_blank (h : IsBlank t) : t.count 127 = 0 := List.count_eq_zero.mpr h.not_mem

theorem count_cons (hc : c ≠ 127) (t : Str) : (c :: t).count 127 = t.count 127 :=
  List.count_cons_of_ne hc

end Text

/-! ## Strings -/

/-- A string without its DEL characters is a string with that many fewer of them. -/
structure ErasedString (t r : Str) : Prop where
  printable : ∀ c ∈ t, 32 ≤ c.val
  reads : ∃ r', StringText (eraseDel t) r' ∧ r'.count 127 + t.count 127 = r.count 127

/-- After an escape of a low surrogate the string goes on. -/
theorem StringText.exists_low {l₃ l₂ l₁ l₀ : CodePoint} {m : Nat} {t r : Str}
    (h : StringText (92 :: 117 :: l₃ :: l₂ :: l₁ :: l₀ :: t) r)
    (hm : hex4? l₃ l₂ l₁ l₀ = some m) (hlow : isLowSurrogate m = true) :
    ∃ r', r = Fin.ofNat _ m :: r' ∧ StringText t r' := by
  have hhigh : ¬ isHighSurrogate m = true := by
    simp only [isLowSurrogate, isHighSurrogate, Bool.and_eq_true, decide_eq_true_eq] at hlow ⊢
    omega
  have hscans : ∀ rest, ∃ r', scanString (t ++ rest) = some (r', rest) ∧
      Fin.ofNat _ m :: r' = r := by
    intro rest
    have hscan := h.scans rest
    obtain ⟨r', hr', hrest⟩ : ∃ p, scanString (t ++ rest) = some p ∧
        (Fin.ofNat _ m :: p.1, p.2) = (r, rest) := by
      simp only [List.cons_append] at hscan
      generalize t ++ rest = s at hscan ⊢
      rw [scanString] at hscan
      simp only [show ¬ (92 : CodePoint) = 34 by decide, ↓reduceIte, hm] at hscan
      split at hscan
      · rw [if_neg fun hcond => hhigh hcond.1] at hscan
        exact Option.map_eq_some_iff.mp hscan
      · exact Option.map_eq_some_iff.mp hscan
    cases hrest
    exact ⟨r'.1, hr', rfl⟩
  obtain ⟨r', -, rfl⟩ := hscans []
  refine ⟨r', rfl, fun rest => ?_, fun d => ?_⟩
  · obtain ⟨r'', hr'', heq⟩ := hscans rest
    rw [hr'', (List.cons.inj heq).2]
  · rw [← after_unicode hm, h.after]

/-- The characters of an escape. -/
theorem unicode_plain {h₃ h₂ h₁ h₀ : CodePoint} {n : Nat} (hn : hex4? h₃ h₂ h₁ h₀ = some n) :
    ∀ c ∈ [92, 117, h₃, h₂, h₁, h₀], c ≠ 127 ∧ 32 ≤ c.val := by
  refine List.forall_mem_cons.mpr ⟨by decide, List.forall_mem_cons.mpr ⟨by decide, ?_⟩⟩
  intro c hc
  obtain ⟨m, hm⟩ := hexValue?_of_hex4? hn c hc
  refine ⟨?_, Nat.le_of_not_lt (hexValue?_place hm).2.2⟩
  rintro rfl
  cases hm

theorem simpleEscape?_plain {e x : CodePoint} (h : simpleEscape? e = some x) :
    e ≠ 127 ∧ 32 ≤ e.val ∧ x ≠ 127 := by
  unfold simpleEscape? at h
  split at h
  · next he =>
    cases h
    rcases he with rfl | rfl | rfl <;> decide
  · repeat' split at h
    all_goals cases h
    all_goals subst_vars
    all_goals decide

theorem joinSurrogates_ne_del {n m : Nat} (hn : isHighSurrogate n = true)
    (hm : isLowSurrogate m = true) : joinSurrogates n m ≠ 127 := by
  intro h
  have hval := congrArg Fin.val h
  simp only [isHighSurrogate, isLowSurrogate, Bool.and_eq_true, decide_eq_true_eq] at hn hm
  rw [joinSurrogates, Fin.val_ofNat, Nat.mod_eq_of_lt (by omega)] at hval
  change _ = 127 at hval
  omega

theorem ofNat_surrogate_ne_del {n : Nat} (h : isHighSurrogate n = true ∨ isLowSurrogate n = true) :
    (Fin.ofNat 0x110000 n : CodePoint) ≠ 127 := by
  intro heq
  have hval := congrArg Fin.val heq
  simp only [isHighSurrogate, isLowSurrogate, Bool.and_eq_true, decide_eq_true_eq] at h
  rw [Fin.val_ofNat, Nat.mod_eq_of_lt (by omega)] at hval
  change _ = 127 at hval
  omega

namespace ErasedString

variable {t r u : Str}

/-- Characters other than DEL before a string. -/
theorem eraseDel_plain (hu : ∀ c ∈ u, c ≠ 127 ∧ 32 ≤ c.val) (t : Str) :
    eraseDel (u ++ t) = u ++ eraseDel t ∧ (u ++ t).count 127 = t.count 127 := by
  have hmem : 127 ∉ u := fun h => (hu 127 h).1 rfl
  rw [eraseDel_append, eraseDel_eq_self hmem, List.count_append, List.count_eq_zero.mpr hmem,
    Nat.zero_add]
  exact ⟨rfl, rfl⟩

theorem quote : ErasedString [34] [] :=
  ⟨List.forall_mem_singleton.mpr (by decide), [], .quote, rfl⟩

theorem plain {c : CodePoint} (h : ErasedString t r) (h34 : c ≠ 34) (h92 : c ≠ 92)
    (h32 : ¬ c.val < 32) : ErasedString (c :: t) (c :: r) := by
  obtain ⟨hprintable, r', hr', hcount⟩ := h
  refine ⟨List.forall_mem_cons.mpr ⟨Nat.le_of_not_lt h32, hprintable⟩, ?_⟩
  by_cases hc : c = 127
  · subst hc
    refine ⟨r', by rwa [eraseDel_del], ?_⟩
    rw [List.count_cons_self, List.count_cons_self]
    omega
  · refine ⟨c :: r', ?_, ?_⟩
    · rw [eraseDel_cons hc]
      exact hr'.plain h34 h92 h32
    · rwa [count_cons hc, count_cons hc, count_cons hc]

theorem simple {e x : CodePoint} (h : ErasedString t r) (h117 : e ≠ 117)
    (hx : simpleEscape? e = some x) : ErasedString (92 :: e :: t) (x :: r) := by
  obtain ⟨hprintable, r', hr', hcount⟩ := h
  obtain ⟨he, he32, hx'⟩ := simpleEscape?_plain hx
  have hchars : ∀ c ∈ [92, e], c ≠ 127 ∧ 32 ≤ c.val :=
    List.forall_mem_cons.mpr ⟨by decide, List.forall_mem_singleton.mpr ⟨he, he32⟩⟩
  obtain ⟨herase, hcount'⟩ := eraseDel_plain hchars t
  refine ⟨List.forall_mem_append.mpr ⟨fun c hc => (hchars c hc).2, hprintable⟩, x :: r', ?_, ?_⟩
  · exact herase ▸ hr'.simple h117 hx
  · have hall : (92 :: e :: t).count 127 = t.count 127 := hcount'
    rw [hall, count_cons hx', count_cons hx', hcount]

variable {h₃ h₂ h₁ h₀ : CodePoint} {n : Nat}

/-- Without a DEL between them, the escapes of two surrogates may become a pair. -/
theorem unicode (h : ErasedString t r) (hn : hex4? h₃ h₂ h₁ h₀ = some n) :
    ErasedString (92 :: 117 :: h₃ :: h₂ :: h₁ :: h₀ :: t) (Fin.ofNat _ n :: r) := by
  obtain ⟨hprintable, r', hr', hcount⟩ := h
  have hchars := unicode_plain hn
  obtain ⟨herase, hcount'⟩ := eraseDel_plain hchars t
  have hall : (92 :: 117 :: h₃ :: h₂ :: h₁ :: h₀ :: t).count 127 = t.count 127 := hcount'
  refine ⟨List.forall_mem_append.mpr ⟨fun c hc => (hchars c hc).2, hprintable⟩, ?_⟩
  rw [hall]
  by_cases hpair : isHighSurrogate n = true ∧ LowEscape (eraseDel t)
  · obtain ⟨hhigh, l₃, l₂, l₁, l₀, t', m, ht', hm, hlow⟩ := hpair
    rw [ht'] at hr'
    obtain ⟨r'', rfl, hr''⟩ := hr'.exists_low hm hlow
    refine ⟨joinSurrogates n m :: r'', ?_, ?_⟩
    · have hjoined := hr''.pair hn hm hhigh hlow
      rw [← ht'] at hjoined
      exact herase ▸ hjoined
    · rw [count_cons (ofNat_surrogate_ne_del (.inr hlow))] at hcount
      rw [count_cons (joinSurrogates_ne_del hhigh hlow),
        count_cons (ofNat_surrogate_ne_del (.inl hhigh)), hcount]
  · refine ⟨Fin.ofNat _ n :: r', ?_, ?_⟩
    · exact herase ▸ hr'.unicode hn fun hhigh hlow => hpair ⟨hhigh, hlow⟩
    · rw [List.count_cons, List.count_cons]
      omega

theorem pair {l₃ l₂ l₁ l₀ : CodePoint} {m : Nat} (h : ErasedString t r)
    (hn : hex4? h₃ h₂ h₁ h₀ = some n) (hm : hex4? l₃ l₂ l₁ l₀ = some m)
    (hhigh : isHighSurrogate n = true) (hlow : isLowSurrogate m = true) :
    ErasedString (92 :: 117 :: h₃ :: h₂ :: h₁ :: h₀ :: 92 :: 117 :: l₃ :: l₂ :: l₁ :: l₀ :: t)
      (joinSurrogates n m :: r) := by
  obtain ⟨hprintable, r', hr', hcount⟩ := h
  have hchars := List.forall_mem_append.mpr ⟨unicode_plain hn, unicode_plain hm⟩
  obtain ⟨herase, hcount'⟩ := eraseDel_plain hchars t
  refine ⟨List.forall_mem_append.mpr ⟨fun c hc => (hchars c hc).2, hprintable⟩,
    joinSurrogates n m :: r', herase ▸ hr'.pair hn hm hhigh hlow, ?_⟩
  have hne := joinSurrogates_ne_del hhigh hlow
  rw [count_cons hne, count_cons hne, ← hcount]
  exact congrArg _ hcount'

end ErasedString

theorem StringText.erased {t r : Str} (h : StringText t r) : ErasedString t r := by
  suffices hsuffices : ∃ t', t ++ [] = t' ++ [] ∧ ErasedString t' r by
    obtain ⟨t', ht', herased⟩ := hsuffices
    rwa [List.append_left_injective [] ht']
  refine scanString_induction
    (motive := fun s r rest => ∃ t, s = t ++ rest ∧ ErasedString t r)
    ?quote ?plain ?simple ?unicode ?pair (h.scans [])
  case quote => exact fun s => ⟨[34], rfl, .quote⟩
  case plain =>
    rintro c _ r rest h34 h92 h32 ⟨t, rfl, ht⟩
    exact ⟨c :: t, rfl, ht.plain h34 h92 h32⟩
  case simple =>
    rintro e x _ r rest h117 hx ⟨t, rfl, ht⟩
    exact ⟨92 :: e :: t, rfl, ht.simple h117 hx⟩
  case unicode =>
    rintro h₃ h₂ h₁ h₀ n _ r rest hn - ⟨t, rfl, ht⟩
    exact ⟨_, rfl, ht.unicode hn⟩
  case pair =>
    rintro h₃ h₂ h₁ h₀ l₃ l₂ l₁ l₀ n m _ r rest hn hm hhigh hlow ⟨t, rfl, ht⟩
    exact ⟨_, rfl, ht.pair hn hm hhigh hlow⟩

/-- A string without DEL has none in its text. -/
theorem StringText.eq_of_eraseDel {t r r' : Str} (h : StringText t r)
    (hr' : StringText (eraseDel t) r') (hcount : r'.count 127 + t.count 127 = r.count 127)
    (hr : 127 ∉ r) : r' = r := by
  have hmem : 127 ∉ t := by
    refine List.count_eq_zero.mp ?_
    rw [List.count_eq_zero.mpr hr] at hcount
    omega
  rw [eraseDel_eq_self hmem] at hr'
  exact congrArg Prod.fst (Option.some.inj ((hr'.scans []).symm.trans (h.scans [])))

/-! ## Values -/

mutual

/-- The number of DEL characters in the names and strings of a value. -/
def Json.dels : Json φ → Nat
  | .str r => r.count 127
  | .arr js => Json.delsItems js
  | .obj ms => Json.delsMembers ms
  | _ => 0

def Json.delsItems : List (Json φ) → Nat
  | [] => 0
  | j :: js => Json.dels j + Json.delsItems js

def Json.delsMembers : List (Str × Json φ) → Nat
  | [] => 0
  | (r, v) :: ms => r.count 127 + Json.dels v + Json.delsMembers ms

end

theorem delsMembers_eq_sum (ms : List (Str × Json φ)) :
    Json.delsMembers ms = (ms.map fun m => m.1.count 127 + m.2.dels).sum := by
  induction ms with
  | nil => rfl
  | cons m ms ih => rw [List.map_cons, List.sum_cons, ← ih, Json.delsMembers]

theorem delsMembers_dictOf (ms : List (Str × Json φ)) :
    Json.delsMembers (dictOf ms) ≤ Json.delsMembers ms := by
  have hnodup : (dictOf ms).Nodup := .of_map Prod.fst (Dict.ofList ms).nodup
  obtain ⟨l, hperm, hsub⟩ := List.subperm_of_subset hnodup fun m hm => mem_dictOf hm
  rw [delsMembers_eq_sum, delsMembers_eq_sum, ← (hperm.map _).sum_nat]
  exact (hsub.map _).sum_le_sum fun _ _ => Nat.zero_le _

theorem mem_names_dictOf {ms : List (Str × Json φ)} {r : Str} :
    r ∈ (dictOf ms).map Prod.fst ↔ r ∈ ms.map Prod.fst := by
  have hfold : ∀ (ms : List (Str × Json φ)) (d : Dict Str (Json φ)),
      r ∈ (ms.foldl (fun d p => d.set p.1 p.2) d).keys ↔ r ∈ d.keys ∨ r ∈ ms.map Prod.fst := by
    intro ms
    induction ms with
    | nil => simp
    | cons m ms ih =>
      intro d
      rw [List.foldl_cons, ih, Dict.mem_keys_set, List.map_cons, List.mem_cons]
      tauto
  exact (hfold ms Dict.empty).trans (or_iff_right List.not_mem_nil)

variable [FloatText φ]

/-- Behind the place `d` of a text, outside of its strings, an object gives a name twice. -/
def RepeatsAt (φ : Type) [FloatText φ] (d : Nat) (t : Str) : Prop :=
  ∃ pre u post d', ∃ ms : List (Str × Json φ), t = pre ++ (u ++ post) ∧
    (Place.within d).after pre = .within d' ∧ MembersText u ms ∧ ¬ (ms.map Prod.fst).Nodup

/-- An object of a document gives a name twice. -/
def RepeatsName (φ : Type) [FloatText φ] (t : Str) : Prop := RepeatsAt φ 0 t

theorem RepeatsAt.within {d d' : Nat} {pre t : Str} (h : RepeatsAt φ d' t)
    (hpre : (Place.within d).after pre = .within d') (post : Str) :
    RepeatsAt φ d (pre ++ (t ++ post)) := by
  obtain ⟨pre', u, post', e, ms, rfl, hpre', hms, hdup⟩ := h
  refine ⟨pre ++ pre', u, post' ++ post, e, ms, ?_, ?_, hms, hdup⟩
  · simp only [List.append_assoc]
  · rw [Place.after_append, hpre, hpre']

/-- Without DEL, a text of a value is one of a value with that many fewer of them, unless a name is
given twice. -/
structure ErasedValue (t : Str) (j : Json φ) : Prop where
  printable : Printable t
  reads : ∃ j' : Json φ, ValueText (eraseDel t) j' ∧
    ∀ d, RepeatsAt φ d t ∨ j'.dels + t.count 127 ≤ j.dels

structure ErasedItems (t : Str) (js : List (Json φ)) : Prop where
  printable : Printable t
  reads : ∃ js' : List (Json φ), ItemsText (eraseDel t) js' ∧
    ∀ d, RepeatsAt φ d t ∨ Json.delsItems js' + t.count 127 ≤ Json.delsItems js

structure ErasedMembers (t : Str) (ms : List (Str × Json φ)) : Prop where
  printable : Printable t
  reads : ∃ ms' : List (Str × Json φ), MembersText (eraseDel t) ms' ∧
    (∀ r ∈ ms.map Prod.fst, 127 ∉ r → r ∈ ms'.map Prod.fst) ∧
    ∀ d, RepeatsAt φ d t ∨ Json.delsMembers ms' + t.count 127 ≤ Json.delsMembers ms

section Parts

variable {d : Nat} {k r w x t : Str} {j : Json φ}

theorem erase_blank (hw : IsBlank w) (t : Str) :
    eraseDel (w ++ t) = w ++ eraseDel t ∧ (w ++ t).count 127 = t.count 127 := by
  rw [eraseDel_append, eraseDel_blank hw, List.count_append, count_blank hw, Nat.zero_add]
  exact ⟨rfl, rfl⟩

/-- White space and a sign that closes or separates. -/
theorem erase_sign (hw : IsBlank w) {c : CodePoint} (hc : c ≠ 127) (t : Str) :
    eraseDel (w ++ c :: t) = w ++ c :: eraseDel t ∧
      (w ++ c :: t).count 127 = t.count 127 := by
  obtain ⟨herase, hcount⟩ := erase_blank hw (c :: t)
  rw [herase, hcount, eraseDel_cons hc, count_cons hc]
  exact ⟨rfl, rfl⟩

theorem printable_sign (hw : IsBlank w) {c : CodePoint} (hc : 32 ≤ c.val) (ht : Printable t) :
    Printable (w ++ c :: t) :=
  hw.printable.append (ht.cons (.inr hc))

theorem after_sign (hw : IsBlank w) {c : CodePoint} (hc : Place.isNeutral c = true)
    (hx : IsBlank x) : (Place.within d).after (w ++ c :: x) = .within d := by
  refine Place.after_neutral (List.forall_mem_append.mpr ⟨?_, List.forall_mem_cons.mpr ⟨hc, ?_⟩⟩) d
  · exact fun c hc => isNeutral_of_isJsonSpace (hw c hc)
  · exact fun c hc => isNeutral_of_isJsonSpace (hx c hc)

/-- A name and its colon are passed. -/
theorem after_name (hk : StringText k r) (hw : IsBlank w) (hx : IsBlank x) :
    (Place.within d).after (34 :: (k ++ (w ++ 58 :: x))) = .within d := by
  rw [Place.after_cons, Place.after_append]
  exact (congrArg (Place.after · _) (hk.after d)).trans (after_sign hw rfl hx)

/-- A value and its comma are passed. -/
theorem after_value (h : ValueText t j) (hw : IsBlank w) (hx : IsBlank x) :
    (Place.within d).after (t ++ (w ++ 44 :: x)) = .within d := by
  rw [Place.after_append, h.after]
  exact after_sign hw rfl hx

end Parts

/-! ## One lemma for each rule of the grammar -/

section Rules

variable {k r t u w x y z : Str} {j v : Json φ} {js : List (Json φ)} {ms : List (Str × Json φ)}

theorem erased_str (h : StringText t r) : ErasedValue (34 :: t) (.str r : Json φ) := by
  obtain ⟨hprintable, r', hr', hcount⟩ := h.erased
  refine ⟨.cons (.inr (by decide)) fun c hc => .inr (hprintable c hc), .str r', ?_, fun d => ?_⟩
  · rw [eraseDel_cons (by decide)]
    exact .str hr'
  · rw [count_cons (by decide)]
    exact .inr (Nat.le_of_eq hcount)

/-- Brackets with white space between them. -/
theorem erased_empty (hw : IsBlank w) {c c' : CodePoint} (hc : 32 ≤ c.val ∧ c ≠ 127)
    (hc' : 32 ≤ c'.val ∧ c' ≠ 127) (h : ValueText (c :: (w ++ [c'])) j) :
    ErasedValue (c :: (w ++ [c'])) j := by
  obtain ⟨herase, hcount⟩ := erase_sign hw hc'.2 []
  refine ⟨.cons (.inr hc.1) (printable_sign hw hc'.1 printable_nil), j, ?_, fun d => .inr ?_⟩
  · rw [eraseDel_cons hc.2, herase]
    exact h
  · rw [count_cons hc.2, hcount]
    exact Nat.le_refl _

theorem erased_obj (hw : IsBlank w) (h : MembersText t ms) (herased : ErasedMembers t ms) :
    ErasedValue (123 :: (w ++ t)) (.obj (dictOf ms)) := by
  obtain ⟨hprintable, ms', hms', -, hcount⟩ := herased
  obtain ⟨herase, hblank⟩ := erase_blank hw t
  refine ⟨.cons (.inr (by decide)) (hw.printable.append hprintable), .obj (dictOf ms'), ?_,
    fun d => ?_⟩
  · rw [eraseDel_cons (by decide), herase]
    exact .obj hw hms'
  have hopen : (Place.within d).after (123 :: w) = .within (d + 1) := hw.after (d + 1)
  by_cases hdup : (ms.map Prod.fst).Nodup
  · rcases hcount (d + 1) with hrepeats | hle
    · exact .inl (List.append_nil t ▸ hrepeats.within hopen [])
    · have hdict := delsMembers_dictOf ms'
      rw [count_cons (by decide), hblank, dictOf_of_nodup hdup]
      exact .inr (Nat.le_trans (Nat.add_le_add_right hdict _) hle)
  · refine .inl ⟨123 :: w, t, [], d + 1, ms, ?_, hopen, h, hdup⟩
    rw [List.append_nil]
    rfl

theorem erased_arr (hw : IsBlank w) (herased : ErasedItems t js) :
    ErasedValue (91 :: (w ++ t)) (.arr js) := by
  obtain ⟨hprintable, js', hjs', hcount⟩ := herased
  obtain ⟨herase, hblank⟩ := erase_blank hw t
  refine ⟨.cons (.inr (by decide)) (hw.printable.append hprintable), .arr js', ?_, fun d => ?_⟩
  · rw [eraseDel_cons (by decide), herase]
    exact .arr hw hjs'
  have hopen : (Place.within d).after (91 :: w) = .within (d + 1) := hw.after (d + 1)
  rcases hcount (d + 1) with hrepeats | hle
  · exact .inl (List.append_nil t ▸ hrepeats.within hopen [])
  · rw [count_cons (by decide), hblank]
    exact .inr hle

theorem erased_scalar (h : ScalarText t j) : ErasedValue t j := by
  have hmem : 127 ∉ t := fun hc => absurd (h.graphic 127 hc).2 (by decide)
  refine ⟨fun c hc => .inr (Nat.le_of_lt (h.graphic c hc).1), j, ?_, fun d => .inr ?_⟩
  · rw [eraseDel_eq_self hmem]
    exact .scalar h
  · rw [List.count_eq_zero.mpr hmem]
    exact Nat.le_refl _

/-- What a value in front repeats is repeated. -/
theorem RepeatsAt.head {d : Nat} (h : RepeatsAt φ d t) (u : Str) : RepeatsAt φ d (t ++ u) :=
  @RepeatsAt.within φ _ d d [] _ h rfl u

theorem erasedItems_last (herased : ErasedValue t j) (hw : IsBlank w) :
    ErasedItems (t ++ (w ++ [93])) [j] := by
  obtain ⟨hprintable, j', hj', hcount⟩ := herased
  obtain ⟨herase, hclose⟩ := erase_sign hw (c := 93) (by decide) []
  refine ⟨hprintable.append (printable_sign hw (by decide) printable_nil), [j'], ?_, fun d => ?_⟩
  · rw [eraseDel_append, herase]
    exact .last hj' hw
  · refine (hcount d).imp (·.head _) fun hle => ?_
    rw [List.count_append, hclose, Json.delsItems, Json.delsItems]
    exact hle

theorem erasedItems_more (h : ValueText t j) (herased : ErasedValue t j) (hw : IsBlank w)
    (hx : IsBlank x) (hrest : ErasedItems u js) :
    ErasedItems (t ++ (w ++ 44 :: (x ++ u))) (j :: js) := by
  obtain ⟨hprintable, j', hj', hcount⟩ := herased
  obtain ⟨hprintable', js', hjs', hcount'⟩ := hrest
  obtain ⟨herase, hcomma⟩ := erase_sign hw (c := 44) (by decide) (x ++ u)
  obtain ⟨herase', hblank⟩ := erase_blank hx u
  refine ⟨hprintable.append (printable_sign hw (by decide) (hx.printable.append hprintable')),
    j' :: js', ?_, fun d => ?_⟩
  · rw [eraseDel_append, herase, herase']
    exact .more hj' hw hx hjs'
  rcases hcount d with hrepeats | hle
  · exact .inl (hrepeats.head _)
  rcases hcount' d with hrepeats | hle'
  · have hwithin := hrepeats.within (after_value h hw hx) []
    simp only [List.append_assoc, List.cons_append, List.append_nil] at hwithin
    exact .inl hwithin
  · rw [List.count_append, hcomma, hblank, Json.delsItems, Json.delsItems]
    exact .inr (by omega)

/-- A name, its colon and a value, before `rest`. -/
theorem erased_member (hk : StringText k r) (hw : IsBlank w) (hx : IsBlank x)
    (herased : ErasedValue t v) (rest : Str) : ∃ (r' : Str) (v' : Json φ),
    StringText (eraseDel k) r' ∧ ValueText (eraseDel t) v' ∧ (127 ∉ r → r' = r) ∧
      eraseDel (34 :: (k ++ (w ++ 58 :: (x ++ (t ++ rest))))) =
        34 :: (eraseDel k ++ (w ++ 58 :: (x ++ (eraseDel t ++ eraseDel rest)))) ∧
      (Printable rest → Printable (34 :: (k ++ (w ++ 58 :: (x ++ (t ++ rest)))))) ∧
      ∀ d, RepeatsAt φ d (34 :: (k ++ (w ++ 58 :: (x ++ (t ++ rest))))) ∨
        r'.count 127 + v'.dels + (34 :: (k ++ (w ++ 58 :: (x ++ (t ++ rest))))).count 127 ≤
          r.count 127 + v.dels + rest.count 127 := by
  obtain ⟨hname, r', hr', hcountName⟩ := hk.erased
  obtain ⟨hprintable, v', hv', hcount⟩ := herased
  obtain ⟨hcolonErase, hcolon⟩ := erase_sign hw (c := 58) (by decide) (x ++ (t ++ rest))
  obtain ⟨hblankErase, hblank⟩ := erase_blank hx (t ++ rest)
  refine ⟨r', v', hr', hv', fun hr => (hk.eq_of_eraseDel hr' hcountName hr), ?_, fun hrest => ?_,
    fun d => ?_⟩
  · rw [eraseDel_cons (by decide), eraseDel_append, hcolonErase, hblankErase, eraseDel_append]
  · exact .cons (.inr (by decide)) (.append (fun c hc => .inr (hname c hc)) (printable_sign hw
      (by decide) (hx.printable.append (hprintable.append hrest))))
  · rcases hcount d with hrepeats | hle
    · have hwithin := hrepeats.within (after_name hk hw hx) rest
      simp only [List.append_assoc, List.cons_append] at hwithin
      exact .inl hwithin
    · rw [count_cons (by decide), List.count_append, hcolon, hblank, List.count_append]
      exact .inr (by omega)

theorem erasedMembers_last (hk : StringText k r) (hw : IsBlank w) (hx : IsBlank x)
    (herased : ErasedValue t v) (hy : IsBlank y) :
    ErasedMembers (34 :: (k ++ (w ++ 58 :: (x ++ (t ++ (y ++ [125])))))) [(r, v)] := by
  obtain ⟨r', v', hr', hv', hname, herase, hprintable, hcount⟩ :=
    erased_member hk hw hx herased (y ++ [125])
  obtain ⟨hcloseErase, hclose⟩ := erase_sign hy (c := 125) (by decide) []
  refine ⟨hprintable (printable_sign hy (by decide) printable_nil), [(r', v')], ?_, ?_,
    fun d => (hcount d).imp_right fun hle => ?_⟩
  · rw [herase, hcloseErase]
    exact .last hr' hw hx hv' hy
  · refine List.forall_mem_singleton.mpr fun hr => ?_
    rw [hname hr]
    exact List.mem_cons_self
  · rw [hclose, List.count_nil] at hle
    simpa only [Json.delsMembers, Nat.add_zero] using hle

theorem erasedMembers_more (hk : StringText k r) (hw : IsBlank w) (hx : IsBlank x)
    (h : ValueText t v) (herased : ErasedValue t v) (hy : IsBlank y) (hz : IsBlank z)
    (hrest : ErasedMembers u ms) :
    ErasedMembers (34 :: (k ++ (w ++ 58 :: (x ++ (t ++ (y ++ 44 :: (z ++ u)))))))
      ((r, v) :: ms) := by
  obtain ⟨r', v', hr', hv', hname, herase, hprintable, hcount⟩ :=
    erased_member hk hw hx herased (y ++ 44 :: (z ++ u))
  obtain ⟨hprintable', ms', hms', hnames, hcount'⟩ := hrest
  obtain ⟨hcommaErase, hcomma⟩ := erase_sign hy (c := 44) (by decide) (z ++ u)
  obtain ⟨hblankErase, hblank⟩ := erase_blank hz u
  refine ⟨hprintable (printable_sign hy (by decide) (hz.printable.append hprintable')),
    (r', v') :: ms', ?_, ?_, fun d => ?_⟩
  · rw [herase, hcommaErase, hblankErase]
    exact .more hr' hw hx hv' hy hz hms'
  · refine List.forall_mem_cons.mpr ⟨fun hr => ?_, fun n hn hdel => ?_⟩
    · rw [hname hr]
      exact List.mem_cons_self
    · exact List.mem_cons_of_mem _ (hnames n hn hdel)
  rcases hcount d with hrepeats | hle
  · exact .inl hrepeats
  rcases hcount' d with hrepeats | hle'
  · have hpass : (Place.within d).after
        (34 :: (k ++ (w ++ 58 :: x)) ++ (t ++ (y ++ 44 :: z))) = .within d := by
      rw [Place.after_append, after_name hk hw hx, after_value h hy hz]
    have hwithin := hrepeats.within hpass []
    simp only [List.append_assoc, List.cons_append, List.append_nil] at hwithin
    exact .inl hwithin
  · rw [hcomma, hblank] at hle
    simp only [Json.delsMembers]
    exact .inr (by omega)

end Rules

mutual

theorem ValueText.erased : ∀ {t : Str} {j : Json φ}, ValueText t j → ErasedValue t j
  | _, _, .str h => erased_str h
  | _, _, .objNil hw => erased_empty hw (by decide) (by decide) (.objNil hw)
  | _, _, .obj hw h => erased_obj hw h h.erased
  | _, _, .arrNil hw => erased_empty hw (by decide) (by decide) (.arrNil hw)
  | _, _, .arr hw h => erased_arr hw h.erased
  | _, _, .scalar h => erased_scalar h

theorem ItemsText.erased : ∀ {t : Str} {js : List (Json φ)}, ItemsText t js → ErasedItems t js
  | _, _, .last h hw => erasedItems_last h.erased hw
  | _, _, .more h hw hx hrest => erasedItems_more h h.erased hw hx hrest.erased

theorem MembersText.erased : ∀ {t : Str} {ms : List (Str × Json φ)}, MembersText t ms →
    ErasedMembers t ms
  | _, _, .last hk hw hx h hy => erasedMembers_last hk hw hx h.erased hy
  | _, _, .more hk hw hx h hy hz hrest =>
    erasedMembers_more hk hw hx h h.erased hy hz hrest.erased

end

/-! ## Documents -/

section Document

variable {s : Str} {j : Json φ}

theorem printable_of_loads (h : loads s = some j) : Printable s := by
  obtain ⟨w, t, w', rfl, hw, ht, hw'⟩ := loads_eq_some_iff.mp h
  exact hw.printable.append (ht.erased.printable.append hw'.printable)

omit [FloatText φ] in
theorem get?_ne_none_iff {r : Str} :
    j.get? r ≠ none ↔ ∃ ms, j = .obj ms ∧ r ∈ ms.map Prod.fst := by
  cases j with
  | obj ms => simp [Json.get?]
  | _ =>
    constructor
    · intro h
      exact absurd rfl h
    · rintro ⟨_, h, -⟩
      cases h

/-- An object keeps its names, those without DEL. -/
theorem get?_of_loads_eraseDel {i : Json φ} {r : Str} (h : loads s = some i)
    (hr : i.get? r ≠ none) (hdel : 127 ∉ r) (herase : loads (eraseDel s) = some j) :
    j.get? r ≠ none := by
  obtain ⟨ms, rfl, hmem⟩ := get?_ne_none_iff.mp hr
  obtain ⟨w, t, w', rfl, hw, ht, hw'⟩ := loads_eq_some_iff.mp h
  have hobject : ∃ ms' : List (Str × Json φ), ValueText (eraseDel t) (.obj ms') ∧
      r ∈ ms'.map Prod.fst := by
    cases ht with
    | objNil => cases hmem
    | obj hw hmembers =>
      obtain ⟨-, ms', hms', hnames, -⟩ := hmembers.erased
      refine ⟨dictOf ms', ?_, mem_names_dictOf.mpr (hnames r (mem_names_dictOf.mp hmem) hdel)⟩
      rw [eraseDel_cons (by decide), (erase_blank hw _).1]
      exact .obj hw hms'
    | scalar hscalar => exact absurd hscalar not_scalarText_obj
  obtain ⟨ms', hms', hmem'⟩ := hobject
  have hread : loads (eraseDel (w ++ (t ++ w'))) = some (.obj ms') := by
    rw [(erase_blank hw _).1, eraseDel_append, eraseDel_blank hw']
    exact loads_eq_some_iff.mpr ⟨w, eraseDel t, w', rfl, hw, hms', hw'⟩
  exact get?_ne_none_iff.mpr ⟨ms', Option.some.inj (herase.symm.trans hread), hmem'⟩

/-- A document that reads as the same without its DEL characters has none, unless a name is given
twice. -/
theorem not_mem_of_loads_eraseDel (h : loads s = some j) (herase : loads (eraseDel s) = some j) :
    127 ∉ s ∨ RepeatsName φ s := by
  obtain ⟨w, t, w', rfl, hw, ht, hw'⟩ := loads_eq_some_iff.mp h
  obtain ⟨j', hj', hdels⟩ := ht.erased.reads
  have hread : loads (eraseDel (w ++ (t ++ w'))) = some j' := by
    rw [(erase_blank hw _).1, eraseDel_append, eraseDel_blank hw']
    exact loads_eq_some_iff.mpr ⟨w, eraseDel t, w', rfl, hw, hj', hw'⟩
  obtain rfl : j = j' := Option.some.inj (herase.symm.trans hread)
  refine (hdels 0).symm.imp (fun hle => ?_) fun hrepeats => hrepeats.within (hw.after 0) w'
  refine List.count_eq_zero.mp ?_
  rw [(erase_blank hw _).2, List.count_append, count_blank hw']
  omega

end Document

end Py
