import Mathlib.Algebra.Order.Ring.Int
import Mathlib.Data.List.Basic
import Mathlib.Data.List.Infix
import Mathlib.Data.List.TakeWhile
import Mathlib.Data.Fin.Basic
import Mathlib.Logic.Function.Basic
import Mathlib.Tactic.Common

/-!
# Python strings and UTF-8

A `str` is a sequence of code points, lone surrogates included; `str.encode` is partial exactly
because of them (`encodeUtf8_isSome_iff`). Encoding is injective where it is defined
(`encodeUtf8_inj`), by the decoder: `decodeUtf8` accepts well-formed UTF-8 only, surrogates apart
if asked, and undoes it (`decodeUtf8_encodeUtf8`).

`str.lower` needs the Unicode database. It is a parameter (`UnicodeData`), of which only the
behaviour on ASCII text is assumed.
-/

namespace Py

/-- A code point as a `str` holds it: surrogates are code points too. -/
abbrev CodePoint := Fin 0x110000

abbrev Str := List CodePoint

abbrev Byte := Fin 256

abbrev Bytes := List Byte

-- tried first, so that literals and membership tests elaborate alike under any imports
instance (priority := 1100) CodePoint.neZero : NeZero 0x110000 := ⟨by decide⟩

instance (priority := 1100) Byte.neZero : NeZero 256 := ⟨by decide⟩

instance (priority := 1100) CodePoint.lawfulBEq : LawfulBEq CodePoint := inferInstance

instance (priority := 1100) Str.lawfulBEq : LawfulBEq Str := inferInstance

theorem char_toNat_lt (c : Char) : c.toNat < 0x110000 := by
  rcases c.valid with h | h
  · exact Nat.lt_trans h (by decide)
  · exact h.2

def CodePoint.ofChar (c : Char) : CodePoint := ⟨c.toNat, char_toNat_lt c⟩

/-- A string constant of the source. -/
def lit (s : String) : Str := s.toList.map CodePoint.ofChar

theorem lit_inj {s t : String} : lit s = lit t ↔ s = t := by
  have hinj : Function.Injective CodePoint.ofChar := fun c d h =>
    Char.ext (UInt32.toNat_inj.mp (Fin.mk.inj h))
  rw [lit, lit, (List.map_injective_iff.mpr hinj).eq_iff, String.toList_inj]

/-! ## ASCII -/

def isAscii (s : Str) : Bool := s.all (·.val < 0x80)

def asciiLower (c : CodePoint) : CodePoint :=
  if 65 ≤ c.val ∧ c.val ≤ 90 then Fin.ofNat _ (c.val + 32) else c

/-- The white space that `str.strip` removes. -/
def isSpace (c : CodePoint) : Bool :=
  let n := c.val
  (9 ≤ n && n ≤ 13) || (28 ≤ n && n ≤ 32) || n == 0x85 || n == 0xA0 || n == 0x1680 ||
    (0x2000 ≤ n && n ≤ 0x200A) || n == 0x2028 || n == 0x2029 || n == 0x202F || n == 0x205F ||
    n == 0x3000

def strip (s : Str) : Str := ((s.dropWhile isSpace).reverse.dropWhile isSpace).reverse

/-- `s.replace(a, b)` for one-character strings. -/
def replaceChar (s : Str) (a b : CodePoint) : Str := s.map fun c => if c = a then b else c

def startsWith (s p : Str) : Bool := p.isPrefixOf s

def endsWith (s p : Str) : Bool := p.isSuffixOf s

theorem strip_of_forall {s : Str} (h : ∀ c ∈ s, isSpace c = false) : strip s = s := by
  have hdrop : ∀ t : Str, (∀ c ∈ t, isSpace c = false) → t.dropWhile isSpace = t := by
    intro t ht
    cases t with
    | nil => rfl
    | cons c t => rw [List.dropWhile_cons, ht c List.mem_cons_self]; rfl
  rw [strip, hdrop s h, hdrop s.reverse fun c hc => h c (List.mem_reverse.mp hc),
    List.reverse_reverse]

theorem mem_of_mem_strip {s : Str} {c : CodePoint} (h : c ∈ strip s) : c ∈ s := by
  have h := List.dropWhile_subset _ (List.mem_reverse.mp h)
  exact List.dropWhile_subset _ (List.mem_reverse.mp h)

theorem isAscii_strip {s : Str} (h : isAscii s = true) : isAscii (strip s) = true :=
  List.all_eq_true.mpr fun c hc => List.all_eq_true.mp h c (mem_of_mem_strip hc)

/-- White space around a text is stripped with it. -/
theorem strip_append {x y : Str} (hx : ∀ c ∈ x, isSpace c = true)
    (hy : ∀ c ∈ y, isSpace c = true) (s : Str) : strip (x ++ (s ++ y)) = strip s := by
  have hrev : ∀ c ∈ y.reverse, isSpace c = true := fun c hc => hy c (List.mem_reverse.mp hc)
  rw [strip, strip, List.dropWhile_append_of_pos hx, List.dropWhile_append]
  split
  · next hempty => rw [List.isEmpty_iff.mp hempty, List.dropWhile_eq_nil_iff.mpr hy]
  · rw [List.reverse_append, List.dropWhile_append_of_pos hrev]

/-- A text that begins and ends with something else is stripped of nothing. -/
theorem strip_eq_self {s t t' : Str} {c d : CodePoint} (h : s = c :: t) (h' : s = t' ++ [d])
    (hc : isSpace c = false) (hd : isSpace d = false) : strip s = s := by
  have hleft : s.dropWhile isSpace = s := by
    rw [h]
    exact List.dropWhile_cons_of_neg (by rw [hc]; exact nofun)
  have hright : s.reverse.dropWhile isSpace = s.reverse := by
    rw [h', List.reverse_append]
    exact List.dropWhile_cons_of_neg (by rw [hd]; exact nofun)
  rw [strip, hleft, hright, List.reverse_reverse]

/-- What is stripped is white space at both ends. -/
theorem exists_strip (s : Str) : ∃ x y, s = x ++ (strip s ++ y) ∧ (∀ c ∈ x, isSpace c = true) ∧
    ∀ c ∈ y, isSpace c = true := by
  refine ⟨s.takeWhile isSpace, ((s.dropWhile isSpace).reverse.takeWhile isSpace).reverse, ?_,
    fun c hc => List.mem_takeWhile_imp hc,
    fun c hc => List.mem_takeWhile_imp (List.mem_reverse.mp hc)⟩
  rw [strip, ← List.reverse_append, List.takeWhile_append_dropWhile, List.reverse_reverse,
    List.takeWhile_append_dropWhile]

/-- A text that does not begin with white space keeps its head. -/
theorem strip_cons {c : CodePoint} {s : Str} (hc : isSpace c = false) :
    ∃ s', strip (c :: s) = c :: s' := by
  obtain ⟨x, y, heq, hx, hy⟩ := exists_strip (c :: s)
  cases x with
  | cons b x =>
    obtain rfl := (List.cons.inj heq).1
    cases hc.symm.trans (hx c List.mem_cons_self)
  | nil =>
    rw [List.nil_append] at heq
    cases hstrip : strip (c :: s) with
    | nil =>
      rw [hstrip, List.nil_append] at heq
      cases hc.symm.trans (hy c (heq ▸ List.mem_cons_self))
    | cons b s' =>
      rw [hstrip, List.cons_append] at heq
      rw [← (List.cons.inj heq).1]
      exact ⟨s', rfl⟩

/-- The line feed of a line is stripped. -/
theorem strip_line {s t : Str} {c d : CodePoint} (h : s = c :: (t ++ [d]))
    (hc : isSpace c = false) (hd : isSpace d = false) : strip (s ++ [10]) = s := by
  have hline : strip (s ++ [10]) = strip s :=
    strip_append (x := []) nofun (fun b hb => List.mem_singleton.mp hb ▸ rfl) s
  exact hline.trans (strip_eq_self h (h.trans List.cons_append.symm) hc hd)

/-- A stripped text does not end with white space. -/
theorem isSpace_of_strip_eq {s t : Str} {c : CodePoint} (h : strip s = t ++ [c]) :
    isSpace c = false := by
  have hrev : (s.dropWhile isSpace).reverse.dropWhile isSpace = c :: t.reverse := by
    rw [← List.reverse_reverse ((s.dropWhile isSpace).reverse.dropWhile isSpace)]
    rw [strip] at h
    rw [h, List.reverse_append]
    rfl
  have hhead := List.head?_dropWhile_not isSpace (s.dropWhile isSpace).reverse
  rw [hrev] at hhead
  simpa using hhead

/-- `a <= b`: by code points. -/
def strLe : Str → Str → Bool
  | [], _ => true
  | _ :: _, [] => false
  | a :: s, b :: t => if a = b then strLe s t else decide (a.val < b.val)

theorem strLe_total (s t : Str) : (strLe s t || strLe t s) = true := by
  induction s generalizing t with
  | nil => rfl
  | cons a s ih =>
    cases t with
    | nil => rfl
    | cons b t =>
      by_cases hab : a = b
      · simp only [strLe, hab, ↓reduceIte]
        exact ih t
      · have hval : a.val ≠ b.val := fun h => hab (Fin.ext h)
        simp only [strLe, hab, Ne.symm hab, ↓reduceIte, Bool.or_eq_true, decide_eq_true_eq]
        omega

theorem strLe_trans {s t u : Str} (hst : strLe s t = true) (htu : strLe t u = true) :
    strLe s u = true := by
  induction s generalizing t u with
  | nil => rfl
  | cons a s ih =>
    cases t with
    | nil => cases hst
    | cons b t =>
      cases u with
      | nil => cases htu
      | cons c u =>
        by_cases hab : a = b
        · subst hab
          simp only [strLe, ↓reduceIte] at hst htu ⊢
          split
          · rename_i hac
            rw [if_pos hac] at htu
            exact ih hst htu
          · rename_i hac
            rwa [if_neg hac] at htu
        · have hlt : a.val < b.val := by simpa [strLe, hab] using hst
          by_cases hbc : b = c
          · subst hbc
            simp [strLe, hab, hlt]
          · have hlt' : b.val < c.val := by simpa [strLe, hbc] using htu
            have hac : a ≠ c := fun h => by subst h; omega
            simp only [strLe, hac, ↓reduceIte, decide_eq_true_eq]
            omega

theorem strLe_antisymm {s t : Str} (hst : strLe s t = true) (hts : strLe t s = true) : s = t := by
  induction s generalizing t with
  | nil =>
    cases t with
    | nil => rfl
    | cons b t => cases hts
  | cons a s ih =>
    cases t with
    | nil => cases hst
    | cons b t =>
      by_cases hab : a = b
      · subst hab
        simp only [strLe, ↓reduceIte] at hst hts
        rw [ih hst hts]
      · simp only [strLe, hab, Ne.symm hab, ↓reduceIte, decide_eq_true_eq] at hst hts
        omega

/-- `sorted(xs)` of strings. -/
def sortStrs (xs : List Str) : List Str := xs.mergeSort strLe

theorem mem_sortStrs {xs : List Str} {s : Str} : s ∈ sortStrs xs ↔ s ∈ xs := List.mem_mergeSort

/-- `b.decode("latin-1")`. -/
def decodeLatin1 (b : Bytes) : Str := b.map fun x => Fin.ofNat _ x.val

/-- What `str.lower` takes from the Unicode database. -/
structure UnicodeData where
  lower : Str → Str
  lower_ascii : ∀ s, isAscii s = true → lower s = s.map asciiLower

/-- Lower-casing ASCII letters only: the behaviour of `str.lower` on ASCII text. -/
def UnicodeData.ascii : UnicodeData := ⟨fun s => s.map asciiLower, fun _ _ => rfl⟩

theorem isAscii_append (s t : Str) : isAscii (s ++ t) = (isAscii s && isAscii t) :=
  List.all_append

theorem UnicodeData.lower_append (U : UnicodeData) {s t : Str} (hs : isAscii s = true)
    (ht : isAscii t = true) : U.lower (s ++ t) = U.lower s ++ U.lower t := by
  rw [U.lower_ascii _ hs, U.lower_ascii _ ht, U.lower_ascii _ (by simp [isAscii_append, hs, ht]),
    List.map_append]

theorem asciiLower_val_lt {c : CodePoint} (h : c.val < 0x80) : (asciiLower c).val < 0x80 := by
  unfold asciiLower
  split
  · rw [Fin.val_ofNat, Nat.mod_eq_of_lt (by omega)]; omega
  · exact h

theorem isAscii_lower (U : UnicodeData) {s : Str} (h : isAscii s = true) :
    isAscii (U.lower s) = true := by
  rw [U.lower_ascii s h]
  refine List.all_eq_true.mpr fun c hc => ?_
  obtain ⟨d, hd, rfl⟩ := List.mem_map.mp hc
  exact decide_eq_true (asciiLower_val_lt (by simpa using List.all_eq_true.mp h d hd))

theorem asciiLower_asciiLower (c : CodePoint) : asciiLower (asciiLower c) = asciiLower c := by
  by_cases h : 65 ≤ c.val ∧ c.val ≤ 90
  · have hv : (asciiLower c).val = c.val + 32 := by
      rw [asciiLower, if_pos h, Fin.val_ofNat, Nat.mod_eq_of_lt (by omega)]
    conv_lhs => rw [asciiLower, if_neg (by omega)]
  · have hc : asciiLower c = c := if_neg h
    rw [hc, hc]

theorem UnicodeData.lower_lower (U : UnicodeData) {s : Str} (h : isAscii s = true) :
    U.lower (U.lower s) = U.lower s := by
  rw [U.lower_ascii _ (isAscii_lower U h), U.lower_ascii s h, List.map_map]
  exact List.map_congr_left fun c _ => asciiLower_asciiLower c

/-! ## UTF-8 -/

def isSurrogate (c : CodePoint) : Bool := 0xD800 ≤ c.val && c.val ≤ 0xDFFF

/-- No lone surrogate: the strings that `str.encode` accepts. -/
def isScalar (s : Str) : Bool := s.all (!isSurrogate ·)

theorem isScalar_append {s t : Str} :
    isScalar (s ++ t) = true ↔ isScalar s = true ∧ isScalar t = true := by
  rw [isScalar, List.all_append, Bool.and_eq_true, isScalar, isScalar]

private def byte (n : Nat) : Byte := Fin.ofNat _ n

def encodeCodePoint (c : CodePoint) : Option Bytes :=
  let n := c.val
  if n < 0x80 then some [byte n]
  else if n < 0x800 then some [byte (0xC0 + n / 64), byte (0x80 + n % 64)]
  else if isSurrogate c then none
  else if n < 0x10000 then
    some [byte (0xE0 + n / 4096), byte (0x80 + n / 64 % 64), byte (0x80 + n % 64)]
  else
    some [byte (0xF0 + n / 262144), byte (0x80 + n / 4096 % 64), byte (0x80 + n / 64 % 64),
      byte (0x80 + n % 64)]

/-- `s.encode("utf-8")`; `none` is `UnicodeEncodeError`. -/
def encodeUtf8 : Str → Option Bytes
  | [] => some []
  | c :: s => do
    let b ← encodeCodePoint c
    let bs ← encodeUtf8 s
    some (b ++ bs)

private def isCont (b : Byte) : Bool := 0x80 ≤ b.val && b.val < 0xC0

/-- The code point `n` of a sequence that may not denote one below `least`, nor a surrogate unless
they `pass`. -/
private def codePoint? (pass : Bool) (least n : Nat) : Option CodePoint :=
  if h : n < 0x110000 then
    if least ≤ n ∧ (pass ∨ isSurrogate ⟨n, h⟩ = false) then some ⟨n, h⟩ else none
  else none

/-- `b.decode("utf-8")`, with `pass` the error handler `surrogatepass`; `none` is
`UnicodeDecodeError`. -/
def decodeUtf8 (pass : Bool) : Bytes → Option Str
  | [] => some []
  | b₀ :: rest =>
    if b₀.val < 0x80 then do
      let s ← decodeUtf8 pass rest
      some (Fin.ofNat _ b₀.val :: s)
    else if b₀.val < 0xE0 then
      match rest with
      | b₁ :: rest =>
        if 0xC0 ≤ b₀.val ∧ isCont b₁ then do
          let c ← codePoint? pass 0x80 ((b₀.val - 0xC0) * 64 + (b₁.val - 0x80))
          let s ← decodeUtf8 pass rest
          some (c :: s)
        else none
      | [] => none
    else if b₀.val < 0xF0 then
      match rest with
      | b₁ :: b₂ :: rest =>
        if isCont b₁ ∧ isCont b₂ then do
          let c ← codePoint? pass 0x800
            ((b₀.val - 0xE0) * 4096 + (b₁.val - 0x80) * 64 + (b₂.val - 0x80))
          let s ← decodeUtf8 pass rest
          some (c :: s)
        else none
      | _ => none
    else
      match rest with
      | b₁ :: b₂ :: b₃ :: rest =>
        if isCont b₁ ∧ isCont b₂ ∧ isCont b₃ then do
          let c ← codePoint? pass 0x10000 ((b₀.val - 0xF0) * 262144 + (b₁.val - 0x80) * 4096 +
            (b₂.val - 0x80) * 64 + (b₃.val - 0x80))
          let s ← decodeUtf8 pass rest
          some (c :: s)
        else none
      | _ => none

theorem encodeCodePoint_isSome_iff (c : CodePoint) :
    (encodeCodePoint c).isSome = !isSurrogate c := by
  unfold encodeCodePoint
  by_cases h1 : c.val < 0x80
  · have : isSurrogate c = false := by simp [isSurrogate]; omega
    simp [h1, this]
  · by_cases h2 : c.val < 0x800
    · have : isSurrogate c = false := by simp [isSurrogate]; omega
      simp [h1, h2, this]
    · cases hs : isSurrogate c
      · by_cases h3 : c.val < 0x10000 <;> simp [h1, h2, h3]
      · simp [h1, h2]

/-- `str.encode` succeeds exactly on the strings without lone surrogates. -/
theorem encodeUtf8_isSome_iff (s : Str) : (encodeUtf8 s).isSome = isScalar s := by
  induction s with
  | nil => rfl
  | cons c s ih =>
    have hc := encodeCodePoint_isSome_iff c
    simp only [isScalar, List.all_cons] at ih ⊢
    rw [← ih, ← hc, encodeUtf8]
    cases encodeCodePoint c <;> cases encodeUtf8 s <;> rfl

private theorem byte_val {n : Nat} (h : n < 256) : (byte n).val = n := Nat.mod_eq_of_lt h

private theorem codePoint?_of (pass : Bool) {least : Nat} {c : CodePoint} (hl : least ≤ c.val)
    (hs : isSurrogate c = false) : codePoint? pass least c.val = some c := by
  simp [codePoint?, c.isLt, hl, hs]

/-- The decoder reads back one encoded code point. -/
theorem decodeUtf8_encodeCodePoint (pass : Bool) {c : CodePoint} {b rest : Bytes}
    (h : encodeCodePoint c = some b) :
    decodeUtf8 pass (b ++ rest) = (decodeUtf8 pass rest).map (c :: ·) := by
  have hlt := c.isLt
  have hs : isSurrogate c = false := by
    have := encodeCodePoint_isSome_iff c
    rw [h] at this; simpa using this.symm
  unfold encodeCodePoint at h
  simp only [hs, Bool.false_eq_true, ↓reduceIte] at h
  split at h
  · rename_i h1
    cases h
    have hb : (byte c.val).val = c.val := byte_val (by omega)
    have hc : (Fin.ofNat 0x110000 (byte c.val).val : CodePoint) = c := by
      rw [hb]; exact Fin.ext (Nat.mod_eq_of_lt hlt)
    rw [List.cons_append, List.nil_append, decodeUtf8.eq_def]
    simp only [hb, h1, ↓reduceIte] at hc ⊢
    rw [hc]
    cases decodeUtf8 pass rest <;> rfl
  · split at h
    · rename_i h1 h2
      cases h
      have hb0 : (byte (0xC0 + c.val / 64)).val = 0xC0 + c.val / 64 := byte_val (by omega)
      have hb1 : (byte (0x80 + c.val % 64)).val = 0x80 + c.val % 64 := byte_val (by omega)
      have hn : (0xC0 + c.val / 64 - 0xC0) * 64 + (0x80 + c.val % 64 - 0x80) = c.val := by omega
      have hcond : 0xC0 ≤ 0xC0 + c.val / 64 ∧ isCont (byte (0x80 + c.val % 64)) = true := by
        simp only [isCont, hb1]; simp; omega
      simp only [List.cons_append, List.nil_append]
      rw [decodeUtf8]
      simp only [hb0, hb1, hn, hcond, codePoint?_of pass (show 0x80 ≤ c.val by omega) hs,
        show ¬ 0xC0 + c.val / 64 < 0x80 by omega, show 0xC0 + c.val / 64 < 0xE0 by omega,
        and_self, ↓reduceIte, Option.bind_eq_bind, Option.bind_some]
      cases decodeUtf8 pass rest <;> rfl
    · split at h
      · rename_i h1 h2 h3
        cases h
        have hb0 : (byte (0xE0 + c.val / 4096)).val = 0xE0 + c.val / 4096 := byte_val (by omega)
        have hb1 : (byte (0x80 + c.val / 64 % 64)).val = 0x80 + c.val / 64 % 64 :=
          byte_val (by omega)
        have hb2 : (byte (0x80 + c.val % 64)).val = 0x80 + c.val % 64 := byte_val (by omega)
        have hn : (0xE0 + c.val / 4096 - 0xE0) * 4096 + (0x80 + c.val / 64 % 64 - 0x80) * 64 +
            (0x80 + c.val % 64 - 0x80) = c.val := by omega
        have hcond : isCont (byte (0x80 + c.val / 64 % 64)) = true ∧
            isCont (byte (0x80 + c.val % 64)) = true := by
          simp only [isCont, hb1, hb2]; simp; omega
        simp only [List.cons_append, List.nil_append]
        rw [decodeUtf8]
        simp only [hb0, hb1, hb2, hn, hcond, codePoint?_of pass (show 0x800 ≤ c.val by omega) hs,
          show ¬ 0xE0 + c.val / 4096 < 0x80 by omega, show ¬ 0xE0 + c.val / 4096 < 0xE0 by omega,
          show 0xE0 + c.val / 4096 < 0xF0 by omega,
          and_self, ↓reduceIte, Option.bind_eq_bind, Option.bind_some]
        cases decodeUtf8 pass rest <;> rfl
      · rename_i h1 h2 h3
        cases h
        have hb0 : (byte (0xF0 + c.val / 262144)).val = 0xF0 + c.val / 262144 :=
          byte_val (by omega)
        have hb1 : (byte (0x80 + c.val / 4096 % 64)).val = 0x80 + c.val / 4096 % 64 :=
          byte_val (by omega)
        have hb2 : (byte (0x80 + c.val / 64 % 64)).val = 0x80 + c.val / 64 % 64 :=
          byte_val (by omega)
        have hb3 : (byte (0x80 + c.val % 64)).val = 0x80 + c.val % 64 := byte_val (by omega)
        have hn : (0xF0 + c.val / 262144 - 0xF0) * 262144 +
            (0x80 + c.val / 4096 % 64 - 0x80) * 4096 + (0x80 + c.val / 64 % 64 - 0x80) * 64 +
            (0x80 + c.val % 64 - 0x80) = c.val := by omega
        have hcond : isCont (byte (0x80 + c.val / 4096 % 64)) = true ∧
            isCont (byte (0x80 + c.val / 64 % 64)) = true ∧
            isCont (byte (0x80 + c.val % 64)) = true := by
          simp only [isCont, hb1, hb2, hb3]; simp; omega
        simp only [List.cons_append, List.nil_append]
        rw [decodeUtf8]
        simp only [hb0, hb1, hb2, hb3, hn, hcond,
          codePoint?_of pass (show 0x10000 ≤ c.val by omega) hs,
          show ¬ 0xF0 + c.val / 262144 < 0x80 by omega,
          show ¬ 0xF0 + c.val / 262144 < 0xE0 by omega,
          show ¬ 0xF0 + c.val / 262144 < 0xF0 by omega,
          and_self, ↓reduceIte, Option.bind_eq_bind, Option.bind_some]
        cases decodeUtf8 pass rest <;> rfl

/-- Decoding undoes encoding. -/
theorem decodeUtf8_encodeUtf8 (pass : Bool) : ∀ {s : Str} {b : Bytes}, encodeUtf8 s = some b →
    decodeUtf8 pass b = some s
  | [], b, h => by cases h; rfl
  | c :: s, b, h => by
    rw [encodeUtf8] at h
    obtain ⟨b₀, hb₀, h⟩ := Option.bind_eq_some_iff.mp h
    obtain ⟨bs, hbs, h⟩ := Option.bind_eq_some_iff.mp h
    cases h
    rw [decodeUtf8_encodeCodePoint pass hb₀, decodeUtf8_encodeUtf8 pass hbs]
    rfl

/-- Two strings with one encoding are equal. -/
theorem encodeUtf8_inj {s t : Str} {b : Bytes} (hs : encodeUtf8 s = some b)
    (ht : encodeUtf8 t = some b) : s = t :=
  Option.some.inj ((decodeUtf8_encodeUtf8 false hs).symm.trans (decodeUtf8_encodeUtf8 false ht))

private theorem isSurrogate_of_codePoint? {least n : Nat} {c : CodePoint}
    (h : codePoint? false least n = some c) : isSurrogate c = false := by
  unfold codePoint? at h
  split at h
  · split at h
    · rename_i hcond
      cases h
      exact hcond.2.resolve_left Bool.false_ne_true
    · cases h
  · cases h

/-- Decoding does not yield surrogates unless they pass. -/
theorem isScalar_of_decodeUtf8 {b : Bytes} {s : Str} (h : decodeUtf8 false b = some s) :
    isScalar s = true := by
  have hcons : ∀ {c : CodePoint} {s : Str}, isSurrogate c = false → isScalar s = true →
      isScalar (c :: s) = true := by
    intro c s hc hs
    simpa [isScalar, hc] using hs
  induction b using decodeUtf8.induct generalizing s with
  | case1 => cases h; rfl
  | case2 b₀ rest hlt ih =>
    rw [decodeUtf8.eq_def] at h
    simp only [hlt, ↓reduceIte] at h
    obtain ⟨t, ht, h⟩ := Option.bind_eq_some_iff.mp h
    cases h
    refine hcons ?_ (ih ht)
    have hval : (Fin.ofNat 0x110000 b₀.val).val = b₀.val := Nat.mod_eq_of_lt (by omega)
    simp only [isSurrogate, hval, Bool.and_eq_false_iff, decide_eq_false_iff_not]
    omega
  | case3 b₀ h1 h2 b₁ rest hcond ih =>
    rw [decodeUtf8.eq_def] at h
    simp only [h1, h2, hcond, and_self, ↓reduceIte] at h
    obtain ⟨c, hc, h⟩ := Option.bind_eq_some_iff.mp h
    obtain ⟨t, ht, h⟩ := Option.bind_eq_some_iff.mp h
    cases h
    exact hcons (isSurrogate_of_codePoint? hc) (ih ht)
  | case4 b₀ h1 h2 b₁ rest hcond =>
    rw [decodeUtf8.eq_def] at h
    simp only [h1, h2, hcond, ↓reduceIte] at h
    cases h
  | case5 b₀ h1 h2 =>
    rw [decodeUtf8.eq_def] at h
    simp only [h1, h2, ↓reduceIte] at h
    cases h
  | case6 b₀ h1 h2 h3 b₁ b₂ rest hcond ih =>
    rw [decodeUtf8.eq_def] at h
    simp only [h1, h2, h3, hcond, and_self, ↓reduceIte] at h
    obtain ⟨c, hc, h⟩ := Option.bind_eq_some_iff.mp h
    obtain ⟨t, ht, h⟩ := Option.bind_eq_some_iff.mp h
    cases h
    exact hcons (isSurrogate_of_codePoint? hc) (ih ht)
  | case7 b₀ h1 h2 h3 b₁ b₂ rest hcond =>
    rw [decodeUtf8.eq_def] at h
    simp only [h1, h2, h3, hcond, ↓reduceIte] at h
    cases h
  | case8 b₀ rest h1 h2 h3 hshort =>
    rw [decodeUtf8.eq_def] at h
    simp only [h1, h2, h3, ↓reduceIte] at h
    cases h
  | case9 b₀ h1 h2 h3 b₁ b₂ b₃ rest hcond ih =>
    rw [decodeUtf8.eq_def] at h
    simp only [h1, h2, h3, hcond, and_self, ↓reduceIte] at h
    obtain ⟨c, hc, h⟩ := Option.bind_eq_some_iff.mp h
    obtain ⟨t, ht, h⟩ := Option.bind_eq_some_iff.mp h
    cases h
    exact hcons (isSurrogate_of_codePoint? hc) (ih ht)
  | case10 b₀ h1 h2 h3 b₁ b₂ b₃ rest hcond =>
    rw [decodeUtf8.eq_def] at h
    simp only [h1, h2, h3, hcond, ↓reduceIte] at h
    cases h
  | case11 b₀ rest h1 h2 h3 hshort =>
    rw [decodeUtf8.eq_def] at h
    simp only [h1, h2, h3, ↓reduceIte] at h
    cases h

theorem exists_encodeUtf8 {s : Str} (h : isScalar s = true) : ∃ b, encodeUtf8 s = some b :=
  Option.isSome_iff_exists.mp ((encodeUtf8_isSome_iff s).trans h)

/-- The bytes of an ASCII text. -/
def asciiBytes (s : Str) : Bytes := s.map fun c => byte c.val

/-- ASCII text is encoded character by character. -/
theorem encodeUtf8_of_isAscii {s : Str} (h : isAscii s = true) :
    encodeUtf8 s = some (asciiBytes s) := by
  induction s with
  | nil => rfl
  | cons c s ih =>
    simp only [isAscii, List.all_cons, Bool.and_eq_true, decide_eq_true_eq] at h
    rw [encodeUtf8, ih h.2, encodeCodePoint]
    simp [h.1, asciiBytes]

theorem asciiBytes_append (s t : Str) : asciiBytes (s ++ t) = asciiBytes s ++ asciiBytes t :=
  List.map_append

theorem decodeUtf8_asciiBytes (pass : Bool) {s : Str} (h : isAscii s = true) :
    decodeUtf8 pass (asciiBytes s) = some s :=
  decodeUtf8_encodeUtf8 pass (encodeUtf8_of_isAscii h)

theorem mem_asciiBytes {s : Str} (h : isAscii s = true) {b : Byte} (hb : b ∈ asciiBytes s) :
    ∃ c ∈ s, c.val = b.val := by
  obtain ⟨c, hc, rfl⟩ := List.mem_map.mp hb
  have hlt : c.val < 0x80 := by simpa using List.all_eq_true.mp h c hc
  exact ⟨c, hc, (byte_val (by omega)).symm⟩

theorem isScalar_of_isAscii {s : Str} (h : isAscii s = true) : isScalar s = true := by
  rw [← encodeUtf8_isSome_iff, encodeUtf8_of_isAscii h]; rfl

theorem isScalar_of_encodeUtf8 {s : Str} {b : Bytes} (h : encodeUtf8 s = some b) :
    isScalar s = true := by
  rw [← encodeUtf8_isSome_iff, h]; rfl

end Py
