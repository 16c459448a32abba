import CosaiMcp.Py.Number

/-!
# URLs

`urllib.parse.urlsplit` as far as the host of a URL depends on it. An `http` or `https` URL has the
host that its text up to the first `/`, `?` or `#` says (`hostOf_iff`). The check of a network
location (its brackets, its Unicode normal form) is a parameter.
-/

namespace Py

/-- What `urlsplit` takes from the Unicode database. -/
structure UrlData extends UnicodeData where
  /-- Nonempty network locations that do not raise a `ValueError`. -/
  netlocValid : Str → Bool

/-- The behaviour on URLs of ASCII text without brackets. -/
def asciiUrls : UrlData := { UnicodeData.ascii with netlocValid := fun _ => true }

namespace Url

def isLetter (c : CodePoint) : Bool := (65 ≤ c.val && c.val ≤ 90) || (97 ≤ c.val && c.val ≤ 122)

/-- `scheme_chars`. -/
def isSchemeChar (c : CodePoint) : Bool :=
  isLetter c || isDigit c || c = 43 || c = 45 || c = 46

/-- `_WHATWG_C0_CONTROL_OR_SPACE`. -/
def isC0ControlOrSpace (c : CodePoint) : Bool := c.val ≤ 32

/-- `_UNSAFE_URL_BYTES_TO_REMOVE`. -/
def isUnsafeByte (c : CodePoint) : Bool := c = 9 || c = 10 || c = 13

def endsNetloc (c : CodePoint) : Bool := c = 47 || c = 63 || c = 35

def clean (url : Str) : Str := (url.dropWhile isC0ControlOrSpace).filter (!isUnsafeByte ·)

/-- The scheme of a cleaned URL, empty where it has none, and the text after it. -/
def splitScheme (url : Str) : Str × Str :=
  let scheme := url.takeWhile (· ≠ 58)
  if scheme.length < url.length ∧ scheme.head?.any isLetter ∧ scheme.all isSchemeChar then
    (scheme.map asciiLower, url.drop (scheme.length + 1))
  else ([], url)

def splitNetloc : Str → Str
  | 47 :: 47 :: url => url.takeWhile (!endsNetloc ·)
  | _ => []

/-- The host of a network location in lower case, but for the zone of an address; empty where there
is none. -/
def hostname (U : UnicodeData) (netloc : Str) : Str :=
  let hostinfo := (netloc.reverse.takeWhile (· ≠ 64)).reverse
  let host :=
    if 91 ∈ hostinfo then ((hostinfo.dropWhile (· ≠ 91)).drop 1).takeWhile (· ≠ 93)
    else hostinfo.takeWhile (· ≠ 58)
  U.lower (host.takeWhile (· ≠ 37)) ++ host.dropWhile (· ≠ 37)

variable (D : UrlData)

def checkNetloc (netloc : Str) : Option Str :=
  if netloc ≠ [] ∧ D.netlocValid netloc = false then none
  else some (hostname D.toUnicodeData netloc)

def schemeOf (url : Str) : Str := (splitScheme (clean url)).1

/-- `urlparse(url).hostname or ""`; `none` is a `ValueError`. -/
def hostOf (url : Str) : Option Str := checkNetloc D (splitNetloc (splitScheme (clean url)).2)

/-- The host that the text after `http://` says. -/
def hostIn (rest : Str) : Option Str := checkNetloc D (rest.takeWhile (!endsNetloc ·))

/-! ## Text after `http://` -/

def httpSchemes : List Str := [lit "http://", lit "https://"]

/-- The text after `http://` or `https://`, in any case. -/
def afterScheme (url : Str) : Option Str :=
  httpSchemes.findSome? fun scheme =>
    if scheme <+: url.map asciiLower then some (url.drop scheme.length) else none

theorem isLetter_of_lower {c : CodePoint} (h : isLetter (asciiLower c) = true) :
    isLetter c = true := by
  unfold asciiLower at h
  split at h
  · next hc => simp [isLetter, hc]
  · exact h

theorem eq_of_lower {c d : CodePoint} (h : asciiLower c = d) (hd : isLetter d = false) : c = d := by
  by_cases hc : 65 ≤ c.val ∧ c.val ≤ 90
  · have hv : d.val = c.val + 32 := by
      rw [← h, asciiLower, if_pos hc, Fin.val_ofNat, Nat.mod_eq_of_lt (by omega)]
    simp only [isLetter, Bool.or_eq_false_iff, Bool.and_eq_false_iff, decide_eq_false_iff_not] at hd
    omega
  · rw [← h, asciiLower, if_neg hc]

theorem isLetter_props {c : CodePoint} (h : isLetter c = true) :
    c ≠ 58 ∧ isC0ControlOrSpace c = false ∧ isUnsafeByte c = false ∧ isSpace c = false := by
  have hv : 65 ≤ c.val ∧ c.val ≤ 122 := by
    simp only [isLetter, Bool.or_eq_true, Bool.and_eq_true, decide_eq_true_eq] at h
    omega
  have hne (d : CodePoint) (hd : d.val < 65) : c ≠ d := fun h => by subst h; omega
  refine ⟨hne 58 (by decide), ?_, ?_, ?_⟩
  · exact decide_eq_false (by omega)
  · simp [isUnsafeByte, hne 9 (by decide), hne 10 (by decide), hne 13 (by decide)]
  · simp only [isSpace, Bool.or_eq_false_iff, Bool.and_eq_false_iff, decide_eq_false_iff_not,
      beq_eq_false_iff_ne]
    omega

/-- A scheme written in any case is letters, then a colon and two slashes. -/
theorem exists_letters {w : Str} (h : w.map asciiLower ∈ httpSchemes) :
    ∃ p, w = p ++ [58, 47, 47] ∧ p ≠ [] ∧ ∀ c ∈ p, isLetter c = true := by
  have hsplit : ∃ name, (∀ c ∈ name, isLetter c = true) ∧ name ≠ [] ∧
      w.map asciiLower = name ++ [58, 47, 47] := by
    simp only [httpSchemes, List.mem_cons, List.not_mem_nil, or_false] at h
    rcases h with h | h
    · exact ⟨lit "http", List.all_eq_true.mp rfl, by decide, h.trans (by decide)⟩
    · exact ⟨lit "https", List.all_eq_true.mp rfl, by decide, h.trans (by decide)⟩
  obtain ⟨name, hletters, hne, hmap⟩ := hsplit
  obtain ⟨p, q, rfl, hp, hq⟩ := List.map_eq_append_iff.mp hmap
  refine ⟨p, ?_, fun hnil => hne (by rw [← hp, hnil]; rfl), fun c hc => ?_⟩
  · obtain ⟨a, q, rfl, ha, hq⟩ := List.map_eq_cons_iff.mp hq
    obtain ⟨b, q, rfl, hb, hq⟩ := List.map_eq_cons_iff.mp hq
    obtain ⟨c, q, rfl, hc, hq⟩ := List.map_eq_cons_iff.mp hq
    rw [List.map_eq_nil_iff.mp hq, eq_of_lower ha (by decide), eq_of_lower hb (by decide),
      eq_of_lower hc (by decide)]
  · exact isLetter_of_lower (hletters _ (hp ▸ List.mem_map_of_mem hc))

theorem afterScheme_eq_some_iff {url rest : Str} :
    afterScheme url = some rest ↔ ∃ w, url = w ++ rest ∧ w.map asciiLower ∈ httpSchemes := by
  constructor
  · intro h
    obtain ⟨scheme, hmem, h⟩ := List.exists_of_findSome?_eq_some h
    rw [Option.ite_none_right_eq_some, Option.some.injEq] at h
    obtain ⟨hpre, rfl⟩ := h
    refine ⟨url.take scheme.length, (List.take_append_drop _ _).symm, ?_⟩
    rw [List.map_take, ← List.prefix_iff_eq_take.mp hpre]
    exact hmem
  · rintro ⟨w, rfl, hw⟩
    have hrest : (w ++ rest).drop (w.map asciiLower).length = rest := by
      rw [List.length_map, List.drop_left]
    rw [afterScheme, List.map_append]
    simp only [httpSchemes, List.mem_cons, List.not_mem_nil, or_false] at hw
    rcases hw with hw | hw
    · rw [hw] at hrest ⊢
      rw [httpSchemes, List.findSome?_cons, if_pos (List.prefix_append _ _), hrest]
    · -- `https://` does not start with `http://`
      have hno : ¬ lit "http://" <+: lit "https://" ++ rest.map asciiLower := fun h =>
        absurd (List.prefix_of_prefix_length_le h (List.prefix_append _ _) (by decide)) (by decide)
      rw [hw] at hrest ⊢
      rw [httpSchemes, List.findSome?_cons, if_neg hno]
      simp only [List.findSome?_cons, if_pos (List.prefix_append _ _), hrest]

theorem clean_letters {p : Str} (hne : p ≠ []) (hp : ∀ c ∈ p, isLetter c = true) (rest : Str) :
    clean (p ++ 58 :: rest) = p ++ 58 :: rest.filter (!isUnsafeByte ·) := by
  obtain ⟨c, p, rfl⟩ := List.exists_cons_of_ne_nil hne
  have hkeep : (c :: p).filter (!isUnsafeByte ·) = c :: p :=
    List.filter_eq_self.mpr fun d hd => by simp [(isLetter_props (hp d hd)).2]
  rw [clean, List.cons_append, List.dropWhile_cons_of_neg (by
    simp [(isLetter_props (hp c List.mem_cons_self)).2]), ← List.cons_append, List.filter_append,
    hkeep]
  rfl

theorem splitScheme_letters {p : Str} (hne : p ≠ []) (hp : ∀ c ∈ p, isLetter c = true)
    (rest : Str) : splitScheme (p ++ 58 :: rest) = (p.map asciiLower, rest) := by
  have htake : (p ++ 58 :: rest).takeWhile (· ≠ 58) = p := by
    rw [List.takeWhile_append_of_pos fun c hc => decide_eq_true (isLetter_props (hp c hc)).1]
    simp
  have hall : p.all isSchemeChar = true :=
    List.all_eq_true.mpr fun d hd => by simp [isSchemeChar, hp d hd]
  have hhead : p.head?.any isLetter = true := by
    obtain ⟨c, p, rfl⟩ := List.exists_cons_of_ne_nil hne
    simpa using hp c List.mem_cons_self
  rw [splitScheme, htake, if_pos ⟨by simp, hhead, hall⟩, List.drop_append,
    List.drop_of_length_le (Nat.le_succ _)]
  simp

theorem hostname_nil (U : UnicodeData) : hostname U [] = [] :=
  (List.append_nil _).trans (U.lower_ascii [] rfl)

theorem not_of_dropWhile {p : CodePoint → Bool} {s t : Str} {c : CodePoint}
    (h : s.dropWhile p = c :: t) : p c = false := by
  have hne : s.dropWhile p ≠ [] := by simp [h]
  simpa [h] using List.head_dropWhile_not p hne

/-- A name before a colon is a scheme. -/
theorem splitScheme_fst_ne_nil {url : Str} (h : (splitScheme url).1 ≠ []) :
    ∃ name, url = name ++ 58 :: (splitScheme url).2 ∧ (splitScheme url).1 = name.map asciiLower := by
  rw [splitScheme] at h ⊢
  split at h
  · next hcolon =>
    rw [if_pos hcolon]
    obtain ⟨hlen, -, -⟩ := hcolon
    refine ⟨url.takeWhile (· ≠ 58), ?_, rfl⟩
    have hsplit := List.takeWhile_append_dropWhile (p := (· ≠ 58)) (l := url)
    have hdrop : url.dropWhile (· ≠ 58) ≠ [] := by
      intro hnil
      rw [hnil, List.append_nil] at hsplit
      rw [hsplit] at hlen
      exact Nat.lt_irrefl _ hlen
    obtain ⟨c, rest, hrest⟩ := List.exists_cons_of_ne_nil hdrop
    obtain rfl : c = 58 := by simpa using not_of_dropWhile hrest
    rw [hrest] at hsplit
    have htail : url.drop ((url.takeWhile (· ≠ 58)).length + 1) = rest := by
      generalize url.takeWhile (· ≠ 58) = name at hsplit
      rw [← hsplit, List.drop_append, List.drop_of_length_le (Nat.le_succ _)]
      simp
    rw [htail]
    exact hsplit.symm
  · exact absurd rfl h

theorem splitScheme_of_afterScheme {url rest : Str} (h : afterScheme url = some rest) :
    (splitScheme url).1 ∈ [lit "http", lit "https"] ∧ (splitScheme url).2 = 47 :: 47 :: rest := by
  obtain ⟨w, rfl, hw⟩ := afterScheme_eq_some_iff.mp h
  obtain ⟨p, rfl, hne, hp⟩ := exists_letters hw
  have hsplit : splitScheme (p ++ [58, 47, 47] ++ rest) = (p.map asciiLower, 47 :: 47 :: rest) := by
    rw [← splitScheme_letters hne hp]
    simp
  have hschemes : httpSchemes = [lit "http", lit "https"].map (· ++ [58, 47, 47].map asciiLower) :=
    rfl
  rw [List.map_append, hschemes] at hw
  obtain ⟨scheme, hscheme, heq⟩ := List.mem_map.mp hw
  rw [hsplit]
  exact ⟨List.append_cancel_right heq ▸ hscheme, rfl⟩

/-- `http` and `https` URLs with a host are those with text after `http://` or `https://`. -/
theorem hostOf_iff {url host : Str} (hne : host ≠ []) :
    (schemeOf url ∈ [lit "http", lit "https"] ∧ hostOf D url = some host) ↔
      ∃ rest, afterScheme (clean url) = some rest ∧ hostIn D rest = some host := by
  rw [schemeOf, hostOf]
  constructor
  · rintro ⟨hscheme, hhost⟩
    have hname : (splitScheme (clean url)).1 ≠ [] := by
      intro hnil
      rw [hnil] at hscheme
      exact absurd hscheme (by decide)
    obtain ⟨name, hurl, hlower⟩ := splitScheme_fst_ne_nil hname
    generalize (splitScheme (clean url)).2 = rest at hurl hhost
    rw [hlower] at hscheme
    have hslashes : ∃ rest', rest = 47 :: 47 :: rest' := by
      by_contra hno
      have hnetloc : splitNetloc rest = [] := by
        unfold splitNetloc
        split
        · exact absurd ⟨_, rfl⟩ hno
        · rfl
      rw [hnetloc, checkNetloc, if_neg (by simp), hostname_nil] at hhost
      exact hne (Option.some.inj hhost).symm
    obtain ⟨rest, rfl⟩ := hslashes
    refine ⟨rest, afterScheme_eq_some_iff.mpr ⟨name ++ [58, 47, 47], ?_, ?_⟩, hhost⟩
    · simpa using hurl
    · rw [List.map_append]
      simp only [List.mem_cons, List.not_mem_nil, or_false] at hscheme
      rcases hscheme with hscheme | hscheme
      · rw [hscheme]
        decide
      · rw [hscheme]
        decide
  · rintro ⟨rest, hrest, hhost⟩
    obtain ⟨hscheme, htail⟩ := splitScheme_of_afterScheme hrest
    rw [htail]
    exact ⟨hscheme, hhost⟩

/-! ## White space around a URL -/

def rstrip (s : Str) : Str := (s.reverse.dropWhile isSpace).reverse

theorem rstrip_append {c : CodePoint} (hc : isSpace c = false) (s t : Str) :
    rstrip (s ++ c :: t) = s ++ c :: rstrip t := by
  have hrev : (s ++ c :: t).reverse = t.reverse ++ c :: s.reverse := by simp
  have hstop : (c :: s.reverse).dropWhile isSpace = c :: s.reverse :=
    List.dropWhile_cons_of_neg (by simp [hc])
  rw [rstrip, rstrip, hrev, List.dropWhile_append, hstop]
  split
  · next h =>
    rw [List.isEmpty_iff.mp h]
    simp
  · simp

theorem rstrip_isPrefix (s : Str) : rstrip s <+: s := by
  have := List.reverse_prefix.mpr (List.dropWhile_suffix isSpace (l := s.reverse))
  rwa [List.reverse_reverse] at this

theorem isSpace_asciiLower (c : CodePoint) : isSpace (asciiLower c) = isSpace c := by
  by_cases hc : 65 ≤ c.val ∧ c.val ≤ 90
  · have hv : (asciiLower c).val = c.val + 32 := by
      rw [asciiLower, if_pos hc, Fin.val_ofNat, Nat.mod_eq_of_lt (by omega)]
    have hlower : isLetter (asciiLower c) = true := by simp [isLetter, hv]; omega
    have hletter : isLetter c = true := isLetter_of_lower hlower
    rw [(isLetter_props hlower).2.2.2, (isLetter_props hletter).2.2.2]
  · rw [asciiLower, if_neg hc]

theorem strip_lower (s : Str) : strip (s.map asciiLower) = (strip s).map asciiLower := by
  have hcomp : isSpace ∘ asciiLower = isSpace := funext isSpace_asciiLower
  rw [strip, strip, List.dropWhile_map, hcomp, ← List.map_reverse, List.dropWhile_map, hcomp,
    List.map_reverse]

theorem afterScheme_isSome_iff (url : Str) :
    (afterScheme url).isSome = true ↔ ∃ scheme ∈ httpSchemes, scheme <+: url.map asciiLower := by
  rw [afterScheme, List.findSome?_isSome_iff]
  exact exists_congr fun scheme => and_congr_right fun _ => by rw [Option.isSome_ite]

theorem afterScheme_clean {url : Str} (h : (afterScheme url).isSome = true) :
    (afterScheme (clean url)).isSome = true := by
  obtain ⟨rest, hrest⟩ := Option.isSome_iff_exists.mp h
  obtain ⟨w, rfl, hw⟩ := afterScheme_eq_some_iff.mp hrest
  obtain ⟨p, rfl, hne, hp⟩ := exists_letters hw
  have hclean : clean (p ++ [58, 47, 47] ++ rest) =
      p ++ [58, 47, 47] ++ rest.filter (!isUnsafeByte ·) := by
    have := clean_letters hne hp (47 :: 47 :: rest)
    simpa [isUnsafeByte] using this
  rw [hclean]
  exact Option.isSome_iff_exists.mpr ⟨_, afterScheme_eq_some_iff.mpr ⟨_, rfl, hw⟩⟩

end Url

end Py
