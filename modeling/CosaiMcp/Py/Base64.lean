import CosaiMcp.Py.Str
import Mathlib.Data.List.DropRight

/-!
# Base64

`b64encode` and the reader `a2bBase64` of `binascii`, strict and not: without `strict`, characters
outside the alphabet are skipped and what follows the padding is ignored. Decoding undoes encoding
in both modes (`a2bBase64_b64encode`), and in the URL-safe alphabet with the padding stripped and
put back (`urlsafeB64decode_rstripPad`).
-/

namespace Py

private def byteOf (n : Nat) : Byte := Fin.ofNat _ n

/-- The character of a six-bit value. -/
def b64Char (n : Nat) : CodePoint :=
  Fin.ofNat _ (if n < 26 then 65 + n else if n < 52 then 71 + n else if n < 62 then n - 4
    else if n = 62 then 43 else 47)

def b64Value? (c : CodePoint) : Option Nat :=
  if 65 ≤ c.val ∧ c.val ≤ 90 then some (c.val - 65)
  else if 97 ≤ c.val ∧ c.val ≤ 122 then some (c.val - 71)
  else if 48 ≤ c.val ∧ c.val ≤ 57 then some (c.val + 4)
  else if c = 43 then some 62
  else if c = 47 then some 63
  else none

/-- The data characters of an encoding. -/
def b64Chars : Bytes → Str
  | [] => []
  | [a] => [b64Char (a.val / 4), b64Char (a.val % 4 * 16)]
  | [a, b] => [b64Char (a.val / 4), b64Char (a.val % 4 * 16 + b.val / 16), b64Char (b.val % 16 * 4)]
  | a :: b :: c :: data =>
    b64Char (a.val / 4) :: b64Char (a.val % 4 * 16 + b.val / 16) ::
      b64Char (b.val % 16 * 4 + c.val / 64) :: b64Char (c.val % 64) :: b64Chars data

/-- `base64.b64encode`. -/
def b64encode (data : Bytes) : Str :=
  b64Chars data ++ List.replicate ((3 - data.length % 3) % 3) 61

/-- The loop of `binascii.a2b_base64`: the position in the current group of four, the bits left
over, the padding seen since the last data character and whether there was any. -/
def a2bLoop (strict : Bool) : Nat → Nat → Nat → Bool → Str → Option Bytes
  | quad, _, _, _, [] => if quad = 0 then some [] else none
  | quad, left, pads, started, c :: s =>
    if c = 61 then
      if 2 ≤ quad ∧ 4 ≤ quad + (pads + 1) then
        if strict ∧ s ≠ [] then none else some []
      else a2bLoop strict quad left (if 2 ≤ quad then pads + 1 else pads) true s
    else
      match b64Value? c with
      | none => if strict then none else a2bLoop strict quad left pads started s
      | some v =>
        if strict ∧ started then none
        else if quad = 0 then a2bLoop strict 1 v 0 started s
        else if quad = 1 then
          (a2bLoop strict 2 (v % 16) 0 started s).map (byteOf (left * 4 + v / 16) :: ·)
        else if quad = 2 then
          (a2bLoop strict 3 (v % 4) 0 started s).map (byteOf (left * 16 + v / 4) :: ·)
        else (a2bLoop strict 0 0 0 started s).map (byteOf (left * 64 + v) :: ·)

/-- `binascii.a2b_base64`; `none` is `binascii.Error`. -/
def a2bBase64 (strict : Bool) (s : Str) : Option Bytes :=
  if strict ∧ s.head? = some 61 then none else a2bLoop strict 0 0 0 false s

/-- `base64.b64decode(s, validate=True)` of a `str`. -/
def b64decodeValidate (s : Str) : Option Bytes := if isAscii s then a2bBase64 true s else none

theorem b64Value?_b64Char {n : Nat} (h : n < 64) :
    b64Value? (b64Char n) = some n ∧ b64Char n ≠ 61 ∧ (b64Char n).val < 0x80 := by
  have hall : ∀ n : Fin 64, b64Value? (b64Char n.val) = some n.val ∧ b64Char n.val ≠ 61 ∧
      (b64Char n.val).val < 0x80 := by decide
  exact hall ⟨n, h⟩

private theorem byteOf_val (a : Byte) {n : Nat} (h : n = a.val) : byteOf n = a := by
  rw [h]; exact Fin.ext (Nat.mod_eq_of_lt a.isLt)

theorem a2bLoop_b64Char (strict : Bool) {n : Nat} (h : n < 64) (quad left pads : Nat) (s : Str) :
    a2bLoop strict quad left pads false (b64Char n :: s) =
      if quad = 0 then a2bLoop strict 1 n 0 false s
      else if quad = 1 then
        (a2bLoop strict 2 (n % 16) 0 false s).map (byteOf (left * 4 + n / 16) :: ·)
      else if quad = 2 then
        (a2bLoop strict 3 (n % 4) 0 false s).map (byteOf (left * 16 + n / 4) :: ·)
      else (a2bLoop strict 0 0 0 false s).map (byteOf (left * 64 + n) :: ·) := by
  obtain ⟨hv, hne, -⟩ := b64Value?_b64Char h
  rw [a2bLoop]
  simp only [hne, ↓reduceIte, hv, Bool.false_eq_true, and_false]

/-- One padding character after two or three data characters. -/
theorem a2bLoop_pad (strict : Bool) (left : Nat) :
    a2bLoop strict 2 left 0 false [61, 61] = some [] ∧
      a2bLoop strict 3 left 0 false [61] = some [] := by
  simp [a2bLoop]

theorem a2bLoop_b64encode (strict : Bool) (data : Bytes) :
    a2bLoop strict 0 0 0 false (b64encode data) = some data := by
  unfold b64encode
  induction data using b64Chars.induct with
  | case1 => cases strict <;> rfl
  | case2 a =>
    have ha := a.isLt
    have hbyte : byteOf (a.val / 4 * 4 + a.val % 4 * 16 / 16) = a := byteOf_val a (by omega)
    simp only [b64Chars, List.cons_append, List.nil_append, List.length_singleton,
      Nat.reduceMod, Nat.reduceSub, List.replicate_succ, List.replicate_zero]
    simp (disch := omega) only [a2bLoop_b64Char, ↓reduceIte, Nat.reduceEqDiff, hbyte,
      a2bLoop_pad, Option.map_some]
  | case3 a b =>
    have ha := a.isLt
    have hb := b.isLt
    have hbyte₁ : byteOf (a.val / 4 * 4 + (a.val % 4 * 16 + b.val / 16) / 16) = a :=
      byteOf_val a (by omega)
    have hbyte₂ : byteOf ((a.val % 4 * 16 + b.val / 16) % 16 * 16 + b.val % 16 * 4 / 4) = b :=
      byteOf_val b (by omega)
    simp only [b64Chars, List.cons_append, List.nil_append, List.length_cons, List.length_nil,
      Nat.reduceAdd, Nat.reduceMod, Nat.reduceSub, List.replicate_succ, List.replicate_zero]
    simp (disch := omega) only [a2bLoop_b64Char, ↓reduceIte, Nat.reduceEqDiff, hbyte₁, hbyte₂,
      a2bLoop_pad, Option.map_some]
  | case4 a b c data ih =>
    have ha := a.isLt
    have hb := b.isLt
    have hc := c.isLt
    have hbyte₁ : byteOf (a.val / 4 * 4 + (a.val % 4 * 16 + b.val / 16) / 16) = a :=
      byteOf_val a (by omega)
    have hbyte₂ : byteOf ((a.val % 4 * 16 + b.val / 16) % 16 * 16 +
        (b.val % 16 * 4 + c.val / 64) / 4) = b := byteOf_val b (by omega)
    have hbyte₃ : byteOf ((b.val % 16 * 4 + c.val / 64) % 4 * 64 + c.val % 64) = c :=
      byteOf_val c (by omega)
    have hpad : (a :: b :: c :: data).length % 3 = data.length % 3 := by
      simp only [List.length_cons]; omega
    simp only [b64Chars, List.cons_append, hpad]
    simp (disch := omega) only [a2bLoop_b64Char, ↓reduceIte, Nat.reduceEqDiff, hbyte₁, hbyte₂,
      hbyte₃, ih, Option.map_some]

theorem b64Chars_mem {data : Bytes} {c : CodePoint} (h : c ∈ b64Chars data) :
    ∃ n < 64, c = b64Char n := by
  induction data using b64Chars.induct with
  | case1 => cases h
  | case2 a =>
    have ha := a.isLt
    simp only [b64Chars, List.mem_cons, List.not_mem_nil, or_false] at h
    rcases h with rfl | rfl
    · exact ⟨_, by omega, rfl⟩
    · exact ⟨_, by omega, rfl⟩
  | case3 a b =>
    have ha := a.isLt
    have hb := b.isLt
    simp only [b64Chars, List.mem_cons, List.not_mem_nil, or_false] at h
    rcases h with rfl | rfl | rfl
    · exact ⟨_, by omega, rfl⟩
    · exact ⟨_, by omega, rfl⟩
    · exact ⟨_, by omega, rfl⟩
  | case4 a b c data ih =>
    have ha := a.isLt
    have hb := b.isLt
    have hc := c.isLt
    simp only [b64Chars, List.mem_cons] at h
    rcases h with rfl | rfl | rfl | rfl | h
    · exact ⟨_, by omega, rfl⟩
    · exact ⟨_, by omega, rfl⟩
    · exact ⟨_, by omega, rfl⟩
    · exact ⟨_, by omega, rfl⟩
    · exact ih h

/-- An encoding does not start with padding. -/
theorem head?_b64encode (data : Bytes) : (b64encode data).head? ≠ some 61 := by
  have hchar : ∀ {n : Nat}, n < 64 → some (b64Char n) ≠ some 61 := fun hn h =>
    (b64Value?_b64Char hn).2.1 (Option.some.inj h)
  unfold b64encode
  fun_cases b64Chars data with
  | case1 => exact nofun
  | case2 a => exact hchar (by have := a.isLt; omega)
  | case3 a b => exact hchar (by have := a.isLt; omega)
  | case4 a b c data => exact hchar (by have := a.isLt; omega)

/-- Decoding undoes encoding. -/
theorem a2bBase64_b64encode (strict : Bool) (data : Bytes) :
    a2bBase64 strict (b64encode data) = some data := by
  rw [a2bBase64, if_neg fun h => head?_b64encode data h.2, a2bLoop_b64encode]

theorem isAscii_b64encode (data : Bytes) : isAscii (b64encode data) = true := by
  refine List.all_eq_true.mpr fun c hc => ?_
  rcases List.mem_append.mp hc with hc | hc
  · obtain ⟨n, hn, rfl⟩ := b64Chars_mem hc
    simpa using (b64Value?_b64Char hn).2.2
  · obtain rfl := List.eq_of_mem_replicate hc
    decide

/-- Strict decoding undoes encoding. -/
theorem b64decodeValidate_b64encode (data : Bytes) :
    b64decodeValidate (b64encode data) = some data := by
  rw [b64decodeValidate, if_pos (isAscii_b64encode data), a2bBase64_b64encode]

/-! ## The URL-safe alphabet -/

def toUrlsafe (c : CodePoint) : CodePoint := if c = 43 then 45 else if c = 47 then 95 else c

def fromUrlsafe (c : CodePoint) : CodePoint := if c = 45 then 43 else if c = 95 then 47 else c

/-- `base64.urlsafe_b64encode`. -/
def urlsafeB64encode (data : Bytes) : Str := (b64encode data).map toUrlsafe

/-- `base64.urlsafe_b64decode` of a `str`. -/
def urlsafeB64decode (s : Str) : Option Bytes :=
  if isAscii s then a2bBase64 false (s.map fromUrlsafe) else none

/-- `s.rstrip("=")`. -/
def rstripPad (s : Str) : Str := s.rdropWhile (· = 61)

theorem b64Chars_length (data : Bytes) :
    (b64Chars data).length = data.length / 3 * 4 + (data.length % 3 * 4 + 2) / 3 := by
  induction data using b64Chars.induct with
  | case1 => rfl
  | case2 a => simp [b64Chars]
  | case3 a b => simp [b64Chars]
  | case4 a b c data ih =>
    simp only [b64Chars, List.length_cons, ih]
    omega

theorem toUrlsafe_b64Char {n : Nat} (h : n < 64) :
    fromUrlsafe (toUrlsafe (b64Char n)) = b64Char n ∧ toUrlsafe (b64Char n) ≠ 61 ∧
      (toUrlsafe (b64Char n)).val < 0x80 ∧ toUrlsafe (b64Char n) ≠ 46 := by
  have hall : ∀ n : Fin 64, fromUrlsafe (toUrlsafe (b64Char n.val)) = b64Char n.val ∧
      toUrlsafe (b64Char n.val) ≠ 61 ∧ (toUrlsafe (b64Char n.val)).val < 0x80 ∧
      toUrlsafe (b64Char n.val) ≠ 46 := by
    decide
  exact hall ⟨n, h⟩

theorem rstripPad_append_pad (s : Str) (n : Nat) :
    rstripPad (s ++ List.replicate n 61) = rstripPad s := by
  induction n with
  | zero => rw [List.replicate_zero, List.append_nil]
  | succ n ih =>
    rw [List.replicate_succ', ← List.append_assoc, rstripPad, List.rdropWhile_concat_pos _ _ _
      (by decide)]
    exact ih

/-- Stripping the padding leaves the data characters. -/
theorem rstripPad_urlsafeB64encode (data : Bytes) :
    rstripPad (urlsafeB64encode data) = (b64Chars data).map toUrlsafe := by
  rw [urlsafeB64encode, b64encode, List.map_append, List.map_replicate]
  show rstripPad (_ ++ List.replicate _ 61) = _
  rw [rstripPad_append_pad, rstripPad, List.rdropWhile_eq_self_iff]
  intro hne hlast
  obtain ⟨c, hc, heq⟩ := List.mem_map.mp (List.getLast_mem hne)
  obtain ⟨n, hn, rfl⟩ := b64Chars_mem hc
  exact (toUrlsafe_b64Char hn).2.1 (heq.trans (by simpa using hlast))

theorem mem_rstripPad_urlsafeB64encode {data : Bytes} {c : CodePoint}
    (h : c ∈ rstripPad (urlsafeB64encode data)) : ∃ n < 64, c = toUrlsafe (b64Char n) := by
  rw [rstripPad_urlsafeB64encode] at h
  obtain ⟨c, hc, rfl⟩ := List.mem_map.mp h
  obtain ⟨n, hn, rfl⟩ := b64Chars_mem hc
  exact ⟨n, hn, rfl⟩

/-- Decoding with the padding put back undoes encoding with the padding stripped. -/
theorem urlsafeB64decode_rstripPad (data : Bytes) :
    urlsafeB64decode (rstripPad (urlsafeB64encode data) ++
      List.replicate ((4 - (rstripPad (urlsafeB64encode data)).length % 4) % 4) 61) =
        some data := by
  have hpad : (4 - (rstripPad (urlsafeB64encode data)).length % 4) % 4 =
      (3 - data.length % 3) % 3 := by
    rw [rstripPad_urlsafeB64encode, List.length_map, b64Chars_length]
    have hmod : data.length % 3 = 0 ∨ data.length % 3 = 1 ∨ data.length % 3 = 2 := by omega
    rcases hmod with h | h | h <;> rw [h] <;> omega
  rw [hpad, urlsafeB64decode, if_pos, List.map_append, rstripPad_urlsafeB64encode]
  · have hchars : ((b64Chars data).map toUrlsafe).map fromUrlsafe = b64Chars data := by
      rw [List.map_map]
      refine (List.map_congr_left fun c hc => ?_).trans (List.map_id _)
      obtain ⟨n, hn, rfl⟩ := b64Chars_mem hc
      exact (toUrlsafe_b64Char hn).1
    rw [hchars, List.map_replicate]
    exact a2bBase64_b64encode false data
  · refine List.all_eq_true.mpr fun c hc => ?_
    rcases List.mem_append.mp hc with hc | hc
    · obtain ⟨n, hn, rfl⟩ := mem_rstripPad_urlsafeB64encode hc
      simpa using (toUrlsafe_b64Char hn).2.2.1
    · obtain rfl := List.eq_of_mem_replicate hc
      decide

end Py
