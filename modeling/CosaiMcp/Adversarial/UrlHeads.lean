import CosaiMcp.Adversarial.Enforcer
import CosaiMcp.Py.UrlFront

/-!
# Texts that a URL begins with

What more text can do to a URL that begins with a given one: nothing to the host of a text that says
where its host ends (`namesHost_append`), nothing to a text that begins no URL
(`not_namesHost_of_neverUrl`). From a text that ends within the host, or within the end of the
scheme, a few characters lead to another host (`namesHost_completed`). Behind a text with less of a
scheme a value that has none brings in some of its letters (`exists_spelled`).
-/

namespace CosaiMcp.Adversarial

open Py

section

variable (D : UrlData)

/-- `s` is an `http` or `https` URL of `host`, white space around it aside. -/
def NamesHost (s host : Str) : Prop :=
  Url.schemeOf (strip s) ∈ [lit "http", lit "https"] ∧
    ∃ h, Url.hostOf D (strip s) = some h ∧ D.lower h = host ∧ host ≠ []

/-- A URL that says where its host ends. -/
def hostEnds (s : Str) : Bool := (Url.afterScheme (Url.stem s)).any (·.any Url.endsNetloc)

/-- Neither text starts the other. -/
def apart (s t : Str) : Bool := !decide (s <+: t) && !decide (t <+: s)

/-- No text after `s` makes it an `http` or `https` URL. -/
def neverUrl (s : Str) : Bool :=
  Url.httpSchemes.all fun scheme => apart scheme ((Url.stem s).map asciiLower)

/-- Text that may still come to begin an `http` or `https` URL, and has at most `htt` of it. -/
def isShort (s : Str) : Bool := decide ((Url.stem s).map asciiLower <+: lit "htt")

/-- What there is of the letters of a scheme, at any place in it. -/
def spellings : List Str := (lit "https").inits.flatMap List.tails

/-- A string without a scheme, surrounding white space aside. -/
def hasNoScheme (s : Str) : Prop := Url.schemeOf (strip s) = []

instance (s : Str) : Decidable (hasNoScheme s) := inferInstanceAs (Decidable (_ = _))

end

/-! ## A host that is settled -/

section Hosts

variable {D : UrlData} {host : Str}

theorem namesHost_iff {s : Str} :
    NamesHost D s host ↔ ∃ rest, Url.afterScheme (Url.front s) = some rest ∧
      ∃ h, Url.hostIn D rest = some h ∧ D.lower h = host ∧ host ≠ [] := by
  have hiff {h : Str} (hlower : D.lower h = host) (hne : host ≠ []) :
      (Url.schemeOf (strip s) ∈ [lit "http", lit "https"] ∧ Url.hostOf D (strip s) = some h) ↔
        ∃ rest, Url.afterScheme (Url.front s) = some rest ∧ Url.hostIn D rest = some h := by
    refine Url.hostOf_iff D fun hnil => hne ?_
    rw [← hlower, hnil]
    exact D.lower_ascii [] rfl
  constructor
  · rintro ⟨hscheme, h, hhost, hlower, hne⟩
    obtain ⟨rest, hrest, hin⟩ := (hiff hlower hne).mp ⟨hscheme, hhost⟩
    exact ⟨rest, hrest, h, hin, hlower, hne⟩
  · rintro ⟨rest, hrest, h, hin, hlower, hne⟩
    obtain ⟨hscheme, hhost⟩ := (hiff hlower hne).mpr ⟨rest, hrest, hin⟩
    exact ⟨hscheme, h, hhost, hlower, hne⟩

theorem takeWhile_of_ends {r z : Str} {d : CodePoint} (hd : Url.endsNetloc d = true) :
    (r ++ d :: z).takeWhile (!Url.endsNetloc ·) = r.takeWhile (!Url.endsNetloc ·) := by
  rw [List.takeWhile_append]
  split
  · next hlen =>
    rw [List.takeWhile_cons_of_neg (by simp [hd]), List.append_nil]
    exact ((List.takeWhile_prefix _).eq_of_length hlen).symm
  · rfl

theorem namesHost_of_front {s w r z : Str} {d : CodePoint} (hd : Url.endsNetloc d = true)
    (hw : w.map asciiLower ∈ Url.httpSchemes) (hfront : Url.front s = w ++ (r ++ d :: z)) :
    NamesHost D s host ↔ ∃ h, Url.hostIn D r = some h ∧ D.lower h = host ∧ host ≠ [] := by
  have hrest : Url.afterScheme (Url.front s) = some (r ++ d :: z) :=
    Url.afterScheme_eq_some_iff.mpr ⟨w, hfront, hw⟩
  rw [namesHost_iff, hrest]
  simp only [Option.some.injEq, exists_eq_left', Url.hostIn, takeWhile_of_ends hd]

theorem not_isSpace_of_ends {d : CodePoint} (hd : Url.endsNetloc d = true) :
    isSpace d = false := by
  simp only [Url.endsNetloc, Bool.or_eq_true, decide_eq_true_eq] at hd
  rcases hd with (rfl | rfl) | rfl <;> rfl

/-- What comes after the end of the host leaves it alone. -/
theorem namesHost_append {p : Str} (h : hostEnds p = true) (u : Str) :
    NamesHost D (p ++ u) host ↔ NamesHost D p host := by
  obtain ⟨rest, hrest, hends⟩ := (Option.any_eq_true _ _).mp h
  obtain ⟨w, hstem, hw⟩ := Url.afterScheme_eq_some_iff.mp hrest
  obtain ⟨d, hmem, hd⟩ := List.any_eq_true.mp hends
  obtain ⟨r, r', rfl⟩ := List.append_of_mem hmem
  rw [← List.append_assoc] at hstem
  have hfront (u : Str) : ∃ z, Url.front (p ++ u) = w ++ (r ++ d :: z) := by
    obtain ⟨z, hz⟩ := Url.front_append hstem (not_isSpace_of_ends hd) u
    exact ⟨z, by rw [hz, List.append_assoc]⟩
  obtain ⟨z, hz⟩ := hfront u
  obtain ⟨z', hz'⟩ := hfront []
  rw [List.append_nil] at hz'
  rw [namesHost_of_front hd hw hz, namesHost_of_front hd hw hz']

theorem exists_scheme {s : Str} (h : NamesHost D s host) :
    ∃ scheme ∈ Url.httpSchemes, scheme <+: (Url.stem s).map asciiLower := by
  obtain ⟨rest, hrest, -⟩ := namesHost_iff.mp h
  obtain ⟨scheme, hscheme, hpre⟩ := (Url.afterScheme_isSome_iff _).mp (by rw [hrest]; rfl)
  exact ⟨scheme, hscheme, hpre.trans ((Url.front_isPrefix s).map asciiLower)⟩

theorem not_namesHost_of_neverUrl {p : Str} (h : neverUrl p = true) (u : Str) :
    ¬ NamesHost D (p ++ u) host := by
  intro hnames
  obtain ⟨scheme, hscheme, hpre⟩ := exists_scheme hnames
  have hapart := List.all_eq_true.mp h _ hscheme
  simp only [apart, Bool.and_eq_true, Bool.not_eq_true', decide_eq_false_iff_not] at hapart
  have hne : Url.stem p ≠ [] := by
    intro hnil
    rw [hnil] at hapart
    exact hapart.2 List.nil_prefix
  rw [Url.stem_append hne, List.map_append] at hpre
  rcases List.prefix_or_prefix_of_prefix hpre (List.prefix_append _ _) with hin | hin
  · exact hapart.1 hin
  · exact hapart.2 hin

/-! ## A host that is not -/

theorem lower_letter {c : CodePoint} (hc : c = 97 ∨ c = 98) : D.lower [c] = [c] := by
  rw [D.lower_ascii [c] (by rcases hc with rfl | rfl <;> rfl)]
  rcases hc with rfl | rfl <;> rfl

theorem hostname_at {c : CodePoint} (hc : c = 97 ∨ c = 98) (x : Str) :
    Url.hostname D.toUnicodeData (x ++ [64, c]) = [c] := by
  have hrev : (x ++ [64, c]).reverse = c :: 64 :: x.reverse := by simp
  rw [Url.hostname, hrev]
  rcases hc with rfl | rfl
  · exact (List.append_nil _).trans (lower_letter (.inl rfl))
  · exact (List.append_nil _).trans (lower_letter (.inr rfl))

/-- The rest of the scheme, if any, an `@` and a letter lead to the host of that letter. -/
theorem namesHost_completed {p w x tail : Str} {c : CodePoint} (hc : c = 97 ∨ c = 98)
    (hstem : Url.stem p ++ tail = w ++ x) (hw : w.map asciiLower ∈ Url.httpSchemes)
    (htail : tail <:+ lit "://") (hx : x.any Url.endsNetloc = false)
    (hvalid : D.netlocValid (x ++ [64, c]) = true) (u : Str) :
    NamesHost D (p ++ (tail ++ [64, c, 47] ++ u)) [c] := by
  have hne : Url.stem p ≠ [] := by
    intro hnil
    have hlen := congrArg List.length hstem
    have hlong : ∀ scheme ∈ Url.httpSchemes, 7 ≤ scheme.length := by decide
    have hw' := hlong _ hw
    have htail' : tail.length ≤ 3 := htail.length_le
    rw [hnil, List.nil_append, List.length_append] at hlen
    rw [List.length_map] at hw'
    omega
  have hkeep : (tail ++ [64, c, 47]).filter (!Url.isUnsafeByte ·) = tail ++ [64, c, 47] := by
    have hplain : (lit "://").all (!Url.isUnsafeByte ·) = true := rfl
    refine List.filter_eq_self.mpr (List.forall_mem_append.mpr ⟨fun d hd => ?_, ?_⟩)
    · exact List.all_eq_true.mp hplain d (htail.subset hd)
    · exact List.all_eq_true.mp (by rcases hc with rfl | rfl <;> rfl)
  have hstem' : Url.stem (p ++ (tail ++ [64, c, 47])) = (w ++ (x ++ [64, c])) ++ 47 :: [] := by
    rw [Url.stem_append hne, hkeep, ← List.append_assoc, hstem]
    simp
  obtain ⟨z, hz⟩ := Url.front_append hstem' rfl u
  rw [← List.append_assoc]
  refine (namesHost_of_front (d := 47) rfl hw (hz.trans (List.append_assoc _ _ _))).mpr ?_
  have hall : (x ++ [64, c]).takeWhile (!Url.endsNetloc ·) = x ++ [64, c] := by
    refine List.takeWhile_eq_self_iff.mpr (List.forall_mem_append.mpr ⟨fun d hd => ?_, ?_⟩)
    · simpa using List.any_eq_false.mp hx d hd
    · exact List.all_eq_true.mp (by rcases hc with rfl | rfl <;> rfl)
  refine ⟨[c], ?_, lower_letter hc, List.cons_ne_nil _ _⟩
  rw [Url.hostIn, hall, Url.checkNetloc, if_neg (by simp [hvalid]), hostname_at hc]

/-- A text begins no URL, is short of one, says where its host ends, or is completed by the end of a
scheme or by nothing. -/
theorem completed_or (p : Str) : neverUrl p = true ∨ isShort p = true ∨ hostEnds p = true ∨
    ∃ tail w, tail <:+ lit "://" ∧ w.map asciiLower ∈ Url.httpSchemes ∧
      Url.stem p ++ tail = w ++ (Url.afterScheme (Url.stem p)).getD [] ∧
      ((Url.afterScheme (Url.stem p)).getD []).any Url.endsNetloc = false := by
  cases hrest : Url.afterScheme (Url.stem p) with
  | some rest =>
    obtain ⟨w, hstem, hw⟩ := Url.afterScheme_eq_some_iff.mp hrest
    cases hends : rest.any Url.endsNetloc with
    | true => exact .inr (.inr (.inl (by rw [hostEnds, hrest]; exact hends)))
    | false =>
      exact .inr (.inr (.inr ⟨[], w, List.nil_suffix, hw, by simpa using hstem, hends⟩))
  | none =>
    by_cases hnever : neverUrl p = true
    · exact .inl hnever
    obtain ⟨scheme, hscheme, hnot⟩ : ∃ scheme ∈ Url.httpSchemes,
        apart scheme ((Url.stem p).map asciiLower) = false := by
      simpa [neverUrl] using hnever
    have hpre : (Url.stem p).map asciiLower <+: scheme := by
      have hno : ¬ scheme <+: (Url.stem p).map asciiLower := fun hpre => by
        have hsome := (Url.afterScheme_isSome_iff _).mpr ⟨scheme, hscheme, hpre⟩
        rw [hrest] at hsome
        cases hsome
      simpa [apart, hno] using hnot
    have hfinish : ∀ scheme ∈ Url.httpSchemes, ∀ l ∈ scheme.inits,
        l <+: lit "htt" ∨ ∃ tail ∈ (lit "://").tails, l ++ tail ∈ Url.httpSchemes ∧
          tail.map asciiLower = tail := by
      decide +kernel
    rcases hfinish scheme hscheme _ ((List.mem_inits _ _).mpr hpre) with h | ⟨tail, htail, hw, hlow⟩
    · exact .inr (.inl (decide_eq_true h))
    · refine .inr (.inr (.inr ⟨tail, Url.stem p ++ tail, (List.mem_tails _ _).mp htail, ?_, ?_, rfl⟩))
      · rw [List.map_append, hlow]
        exact hw
      · exact (List.append_nil _).symm

/-! ## A scheme that no text finishes -/

theorem hasNoScheme.stem_ne {x l z : Str} (hx : hasNoScheme x) (hne : l ≠ [])
    (hl : ∀ c ∈ l, Url.isLetter c = true) : Url.stem x ≠ l ++ 58 :: z := by
  intro hstem
  obtain ⟨z', hfront⟩ := Url.front_append hstem rfl []
  rw [List.append_nil, Url.front] at hfront
  rw [hasNoScheme, Url.schemeOf, hfront, Url.splitScheme_letters hne hl] at hx
  exact hne (List.map_eq_nil_iff.mp hx)

theorem stem_of_filter {s z : Str} {c : CodePoint} (h : s.filter (!Url.isUnsafeByte ·) = c :: z)
    (hc : c = 58 ∨ Url.isLetter c = true) : Url.stem s = c :: z := by
  have hprops : Url.isC0ControlOrSpace c = false ∧ isSpace c = false := by
    rcases hc with rfl | hc
    · exact ⟨rfl, rfl⟩
    · exact ⟨(Url.isLetter_props hc).2.1, (Url.isLetter_props hc).2.2.2⟩
  have hclean := Url.clean_of_filter h hprops.1
  rw [Url.stem_of_clean hclean hprops.2, hclean]

/-- What a value without a scheme has of a scheme that begins with it is some of the letters. -/
theorem hasNoScheme.exists_letters {v y f l z : Str} (hv : hasNoScheme v)
    (hy : ∀ c y', y = c :: y' → Url.isLetter c = true → Url.stem v = y) (hne : l ≠ [])
    (hl : ∀ c ∈ l, Url.isLetter c = true) (heq : y ++ f = l ++ ([58, 47, 47] ++ z)) :
    ∃ l', l = y ++ l' ∧ f = l' ++ ([58, 47, 47] ++ z) := by
  rcases List.append_eq_append_iff.mp heq with ⟨l', hsplit, hf⟩ | ⟨colon, hvalue, hafter⟩
  · exact ⟨l', hsplit, hf⟩
  · cases colon with
    | nil =>
      rw [List.append_nil] at hvalue
      exact ⟨[], by rw [hvalue, List.append_nil], hafter.symm⟩
    | cons d colon =>
      -- the value has a scheme of its own
      obtain rfl : 58 = d := (List.cons.inj hafter).1
      obtain ⟨c, l, rfl⟩ := List.exists_cons_of_ne_nil hne
      refine absurd ?_ (hv.stem_ne hne hl (z := colon))
      rw [← hvalue]
      exact hy c (l ++ 58 :: colon) hvalue (hl c List.mem_cons_self)

/-- The letters of a scheme, in any case. -/
theorem infix_of_scheme {a b c : Str}
    (h : (a ++ (b ++ c) ++ [58, 47, 47]).map asciiLower ∈ Url.httpSchemes) :
    b.map asciiLower <:+: lit "https" := by
  have hletters : (a ++ (b ++ c)).map asciiLower <+: lit "https" := by
    rw [List.map_append] at h
    simp only [Url.httpSchemes, List.mem_cons, List.not_mem_nil, or_false] at h
    rcases h with h | h
    · rw [List.append_cancel_right (h.trans (by decide : lit "http://" = lit "http" ++ _))]
      exact ⟨lit "s", rfl⟩
    · rw [List.append_cancel_right (h.trans (by decide : lit "https://" = lit "https" ++ _))]
  refine List.IsInfix.trans ?_ hletters.isInfix
  rw [List.map_append, List.map_append]
  exact ⟨_, _, List.append_assoc _ _ _⟩

theorem lower_lower (s : Str) : (s.map asciiLower).map asciiLower = s.map asciiLower := by
  simp [asciiLower_asciiLower]

theorem mem_spellings {x : Str} (hx : x <:+: lit "https") : x ∈ spellings := by
  obtain ⟨a, b, hab⟩ := hx
  exact List.mem_flatMap.mpr
    ⟨a ++ x, (List.mem_inits _ _).mpr ⟨b, hab⟩, (List.mem_tails _ _).mpr ⟨a, rfl⟩⟩

/-- Nothing of them is dropped. -/
theorem clean_spelled {x : Str} (hx : x <:+: lit "https") :
    x.filter (!Url.isUnsafeByte ·) = x ∧ Url.clean x = x ∧ Url.stem x = x := by
  have hall : ∀ x ∈ spellings, x.filter (!Url.isUnsafeByte ·) = x ∧ Url.clean x = x ∧ Url.stem x = x := by
    decide +kernel
  exact hall x (mem_spellings hx)

/-- Text before a URL of which nothing is left, as `urlsplit` then reads the text after it. -/
structure ReadsOn (g : Str → Str) : Prop where
  append : ∀ s u, g s ≠ [] → g (s ++ u) = g s ++ u.filter (!Url.isUnsafeByte ·)
  blank : ∀ s u c z, g s = [] → g (s ++ u) = c :: z → Url.isLetter c = true → g u = c :: z
  letter : ∀ s c z, g s = c :: z → Url.isLetter c = true → Url.stem s = c :: z
  spelled : ∀ x, x <:+: lit "https" → g x = x

theorem stem_of_letter {s z : Str} {c : CodePoint} (h : Url.clean s = c :: z)
    (hc : Url.isLetter c = true) : Url.stem s = c :: z := by
  rw [Url.stem_of_clean h (Url.isLetter_props hc).2.2.2, h]

theorem readsOn_stem : ReadsOn Url.stem where
  append _ u hne := Url.stem_append hne u
  blank s u c z hnil hstem hc := by
    rcases Url.stem_append_of_nil hnil with h | h
    · rwa [h] at hstem
    · rw [h] at hstem
      exact stem_of_letter hstem hc
  letter _ _ _ h _ := h
  spelled _ hx := (clean_spelled hx).2.2

theorem readsOn_clean : ReadsOn Url.clean where
  append _ u hne := Url.clean_append hne u
  blank _ u _ _ hnil hclean _ := by rwa [Url.clean_append_of_nil hnil] at hclean
  letter _ _ _ h hc := stem_of_letter h hc
  spelled _ hx := (clean_spelled hx).2.1

section Spelled

variable {p v u l z : Str}

/-- A value in front of a scheme, or of the end of one, can as well be the letters of it that it
brings in. -/
theorem ReadsOn.exists_spelled {g : Str → Str} (hg : ReadsOn g)
    (hread : ∀ t, Url.stem (p ++ t) = g t) (hv : hasNoScheme v) (hne : l ≠ [])
    (hl : ∀ c ∈ l, Url.isLetter c = true)
    (hscheme : (l ++ [58, 47, 47]).map asciiLower ∈ Url.httpSchemes)
    (hstem : Url.stem (p ++ (v ++ u)) = l ++ ([58, 47, 47] ++ z)) :
    ∃ x w, x <:+: lit "https" ∧ w.map asciiLower ∈ Url.httpSchemes ∧
      Url.stem (p ++ (x ++ u)) = w ++ z := by
  rw [hread] at hstem
  by_cases hnil : g v = []
  · refine ⟨[], l ++ [58, 47, 47], List.nil_infix, hscheme, ?_⟩
    obtain ⟨c, l, rfl⟩ := List.exists_cons_of_ne_nil hne
    rw [hread, List.nil_append, hg.blank v u c _ hnil hstem (hl c List.mem_cons_self)]
    simp
  · rw [hg.append v u hnil] at hstem
    obtain ⟨l', rfl, hu⟩ := hv.exists_letters
      (fun c y' hy hc => hy ▸ hg.letter v c y' hy hc) hne hl hstem
    have hx : (g v).map asciiLower <:+: lit "https" := infix_of_scheme (a := []) hscheme
    refine ⟨_, (g v).map asciiLower ++ (l' ++ [58, 47, 47]), hx, ?_, ?_⟩
    · simpa [-List.map_map, lower_lower] using hscheme
    · have hgx := hg.spelled _ hx
      rw [hread, hg.append _ u (by rw [hgx]; simpa using hnil), hgx, hu]
      simp

/-- So it is behind a few letters of the scheme. -/
theorem exists_spelled_of_stem_ne_nil (hp : isShort p = true) (hnil : Url.stem p ≠ [])
    (hv : hasNoScheme v) (hl : ∀ c ∈ l, Url.isLetter c = true)
    (hscheme : (l ++ [58, 47, 47]).map asciiLower ∈ Url.httpSchemes)
    (hstem : Url.stem (p ++ (v ++ u)) = l ++ ([58, 47, 47] ++ z)) :
    ∃ x w, x <:+: lit "https" ∧ w.map asciiLower ∈ Url.httpSchemes ∧
      Url.stem (p ++ (x ++ u)) = w ++ z := by
  have hlen : (Url.stem p).length < l.length := by
    have hshort : (Url.stem p).length ≤ 3 := by
      have hlow := (of_decide_eq_true hp).length_le
      rwa [List.length_map] at hlow
    have hall : ∀ scheme ∈ Url.httpSchemes, 7 ≤ scheme.length := by decide
    have hlong := hall _ hscheme
    simp at hlong
    omega
  rw [Url.stem_append hnil, List.filter_append] at hstem
  obtain ⟨l, rfl⟩ : Url.stem p <+: l :=
    List.prefix_of_prefix_length_le (hstem ▸ List.prefix_append _ _) (List.prefix_append _ _)
      (Nat.le_of_lt hlen)
  rw [List.append_assoc] at hstem
  obtain ⟨l', rfl, hu⟩ := hv.exists_letters
    (fun c y' hy hc => by rw [hy, stem_of_filter hy (.inr hc)]) (by rintro rfl; simp at hlen) (fun c hc => hl c (List.mem_append_right _ hc))
    (List.append_cancel_left hstem)
  have hx := infix_of_scheme hscheme
  refine ⟨_, Url.stem p ++ (((v.filter (!Url.isUnsafeByte ·)).map asciiLower) ++
    (l' ++ [58, 47, 47])), hx, ?_, ?_⟩
  · simpa [-List.map_map, lower_lower] using hscheme
  · rw [Url.stem_append hnil, List.filter_append, (clean_spelled hx).1, hu]
    simp

/-- Braces and colons are no part of a short text. -/
theorem not_mem_of_isShort {c : CodePoint} (hc : c = 58 ∨ c = 123) (hp : isShort p = true) :
    c ∉ p := by
  intro hmem
  have hprops : isSpace c = false ∧ Url.isC0ControlOrSpace c = false ∧
      asciiLower c ∉ lit "htt" := by
    rcases hc with rfl | rfl <;> decide
  have hkeep := Url.mem_stem hprops.1 hprops.2.1 hmem
  exact hprops.2.2 ((of_decide_eq_true hp).subset (List.mem_map_of_mem hkeep))

/-- Nor do a few letters finish a scheme with one. -/
theorem not_scheme_of_spelled {x w : Str} (hp : isShort p = true) (hx : x <:+: lit "https")
    (hw : w.map asciiLower ∈ Url.httpSchemes) : Url.stem (p ++ x) ≠ w ++ z := by
  intro hstem
  obtain ⟨l, rfl, -, -⟩ := Url.exists_letters hw
  have hmem : (58 : CodePoint) ∈ Url.stem (p ++ x) := by
    rw [hstem]
    simp
  have hmem := List.dropWhile_subset _ (List.dropWhile_subset _ (List.mem_of_mem_filter hmem))
  rcases List.mem_append.mp hmem with hin | hin
  · exact not_mem_of_isShort (.inl rfl) hp hin
  · exact absurd (hx.subset hin) (by decide)

theorem exists_spelled_of_scheme {w : Str} (hp : isShort p = true) (hv : hasNoScheme v)
    (hw : w.map asciiLower ∈ Url.httpSchemes) (hstem : Url.stem (p ++ (v ++ u)) = w ++ z) :
    ∃ x w', x <:+: lit "https" ∧ w'.map asciiLower ∈ Url.httpSchemes ∧
      Url.stem (p ++ (x ++ u)) = w' ++ z := by
  obtain ⟨l, rfl, hne, hl⟩ := Url.exists_letters hw
  rw [List.append_assoc] at hstem
  by_cases hnil : Url.stem p = []
  · rcases Url.stem_append_of_nil hnil with hread | hread
    · exact readsOn_stem.exists_spelled hread hv hne hl hw hstem
    · exact readsOn_clean.exists_spelled hread hv hne hl hw hstem
  · exact exists_spelled_of_stem_ne_nil hp hnil hv hl hw hstem

/-- A value behind a short text makes a URL only as some letters of the scheme do. -/
theorem exists_spelled {host : Str} (hp : isShort p = true) (hv : hasNoScheme v)
    (hnames : NamesHost D (p ++ (v ++ u)) host) :
    ∃ x, x <:+: lit "https" ∧ NamesHost D (p ++ (x ++ u)) host := by
  obtain ⟨z, hz, hin⟩ := namesHost_iff.mp hnames
  obtain ⟨w, hfront, hw⟩ := Url.afterScheme_eq_some_iff.mp hz
  obtain ⟨y₁, y₂, hu, hy₁, hy₂⟩ := exists_strip u
  rcases List.eq_nil_or_concat' (strip u) with hnil | ⟨q, c, hconcat⟩
  · -- the value is the end of the text
    rw [hnil, List.nil_append] at hu
    have hspace : ∀ c ∈ u, isSpace c = true := hu ▸ List.forall_mem_append.mpr ⟨hy₁, hy₂⟩
    have hstrip : strip (p ++ (v ++ u)) = strip (p ++ (v ++ [])) := by
      rw [List.append_nil, ← List.append_assoc]
      exact strip_append (List.forall_mem_nil _) hspace (p ++ v)
    obtain ⟨t, ht⟩ := Url.front_isPrefix (p ++ (v ++ []))
    rw [Url.front, ← hstrip] at ht
    rw [Url.front] at hfront
    rw [hfront, List.append_assoc] at ht
    obtain ⟨x, w', hx, hw', hstem⟩ := exists_spelled_of_scheme hp hv hw ht.symm
    rw [List.append_nil] at hstem
    exact absurd hstem (not_scheme_of_spelled hp hx hw')
  · have hc := isSpace_of_strip_eq hconcat
    have hread (x : Str) : Url.front (p ++ (x ++ u)) = Url.stem (p ++ (x ++ (y₁ ++ q ++ [c]))) := by
      have htext : p ++ (x ++ u) = (p ++ x) ++ ((y₁ ++ q) ++ c :: y₂) := by
        rw [hu, hconcat]
        simp
      rw [htext, Url.front_append_concat hc hy₂, List.append_assoc]
    rw [hread] at hfront
    obtain ⟨x, w', hx, hw', hstem⟩ := exists_spelled_of_scheme hp hv hw hfront
    rw [← hread] at hstem
    exact ⟨x, hx, namesHost_iff.mpr ⟨z, Url.afterScheme_eq_some_iff.mpr ⟨w', hstem, hw'⟩, hin⟩⟩

end Spelled

end Hosts

end CosaiMcp.Adversarial
