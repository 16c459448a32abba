import CosaiMcp.Py.Str

/-!
# The encodings of JSON text

`json.loads` takes bytes in UTF-8, UTF-16 or UTF-32, and tells which by a byte order mark or by where
the null bytes stand (`detectEncoding`). It decodes with the error handler `surrogatepass`, so that
a lone surrogate is read as one. Bytes that are neither marks nor null are taken for UTF-8
(`detectEncoding_of_plain`).
-/

namespace Py

/-! ## Surrogate pairs -/

def isHighSurrogate (n : Nat) : Bool := 0xD800 ≤ n && n ≤ 0xDBFF

def isLowSurrogate (n : Nat) : Bool := 0xDC00 ≤ n && n ≤ 0xDFFF

/-- The code point of a surrogate pair. -/
def joinSurrogates (high low : Nat) : CodePoint :=
  Fin.ofNat _ (0x10000 + (high - 0xD800) * 0x400 + (low - 0xDC00))

/-- A text with its surrogate pairs joined, from the left. -/
def mergePairs : Str → Str
  | [] => []
  | [c] => [c]
  | a :: b :: s =>
    if isHighSurrogate a.val ∧ isLowSurrogate b.val then
      joinSurrogates a.val b.val :: mergePairs s
    else a :: mergePairs (b :: s)

/-! ## Decoding -/

inductive ByteOrder where
  | big
  | little

/-- The number that two bytes stand for. -/
def ByteOrder.unit : ByteOrder → Byte → Byte → Nat
  | .big, a, b => a.val * 256 + b.val
  | .little, a, b => b.val * 256 + a.val

/-- `b.decode("utf-16-be", "surrogatepass")` or the other, before surrogates are paired; `none` is
`UnicodeDecodeError`, for half a unit. -/
def units16 (order : ByteOrder) : Bytes → Option Str
  | [] => some []
  | [_] => none
  | a :: b :: rest => (units16 order rest).map (Fin.ofNat _ (order.unit a b) :: ·)

def decodeUtf16 (order : ByteOrder) (b : Bytes) : Option Str := (units16 order b).map mergePairs

/-- `b.decode("utf-32-be", "surrogatepass")` or the other. -/
def decodeUtf32 (order : ByteOrder) : Bytes → Option Str
  | [] => some []
  | a :: b :: c :: d :: rest =>
    let n := match order with
      | .big => order.unit a b * 65536 + order.unit c d
      | .little => order.unit c d * 65536 + order.unit a b
    if h : n < 0x110000 then (decodeUtf32 order rest).map (⟨n, h⟩ :: ·) else none
  | _ => none

/-! ## Detection -/

/-- What `json.detect_encoding` names; `marked` is for an encoding with a byte order mark. -/
inductive Encoding where
  | utf8 (marked : Bool)
  | utf16 (marked : Bool) (order : ByteOrder)
  | utf32 (marked : Bool) (order : ByteOrder)

/-- `json.detect_encoding`. -/
def detectEncoding (b : Bytes) : Encoding :=
  if [0, 0, 0xFE, 0xFF].isPrefixOf b then .utf32 true .big
  else if [0xFF, 0xFE, 0, 0].isPrefixOf b then .utf32 true .little
  else if [0xFE, 0xFF].isPrefixOf b then .utf16 true .big
  else if [0xFF, 0xFE].isPrefixOf b then .utf16 true .little
  else if [0xEF, 0xBB, 0xBF].isPrefixOf b then .utf8 true
  else
    match b with
    | b₀ :: b₁ :: b₂ :: b₃ :: _ =>
      if b₀ = 0 then if b₁ = 0 then .utf32 false .big else .utf16 false .big
      else if b₁ = 0 then if b₂ = 0 ∧ b₃ = 0 then .utf32 false .little else .utf16 false .little
      else .utf8 false
    | [b₀, b₁] =>
      if b₀ = 0 then .utf16 false .big
      else if b₁ = 0 then .utf16 false .little
      else .utf8 false
    | _ => .utf8 false

/-- `b.decode(encoding, "surrogatepass")`. -/
def Encoding.decode (b : Bytes) : Encoding → Option Str
  | .utf8 marked => decodeUtf8 true (if marked then b.drop 3 else b)
  | .utf16 marked order => decodeUtf16 order (if marked then b.drop 2 else b)
  | .utf32 marked order => decodeUtf32 order (if marked then b.drop 4 else b)

/-- ASCII bytes other than null are taken for UTF-8. -/
theorem detectEncoding_of_plain {b : Bytes} (h : ∀ x ∈ b, 0 < x.val ∧ x.val < 0x80) :
    detectEncoding b = .utf8 false := by
  have hfirst : ∀ x s, b = x :: s → x ≠ 0 ∧ x ≠ 0xFF ∧ x ≠ 0xFE ∧ x ≠ 0xEF := by
    rintro x s rfl
    have hx := h x List.mem_cons_self
    refine ⟨?_, ?_, ?_, ?_⟩ <;> rintro rfl <;> exact absurd hx (by decide)
  have hmark : ∀ x s, x = 0 ∨ x = 0xFF ∨ x = 0xFE ∨ x = 0xEF →
      (x :: s).isPrefixOf b = false := by
    intro x s hx
    refine Bool.eq_false_iff.mpr fun hprefix => ?_
    obtain ⟨t, ht⟩ := List.isPrefixOf_iff_prefix.mp hprefix
    obtain ⟨h0, hff, hfe, hef⟩ := hfirst x (s ++ t) ht.symm
    tauto
  have hsecond : ∀ x y s, b = x :: y :: s → y ≠ 0 := by
    rintro x y s rfl rfl
    have hy := h 0 (List.mem_cons_of_mem x List.mem_cons_self)
    exact absurd hy.1 (by decide)
  have hnone : [0, 0, 0xFE, 0xFF].isPrefixOf b = false ∧ [0xFF, 0xFE, 0, 0].isPrefixOf b = false ∧
      [0xFE, 0xFF].isPrefixOf b = false ∧ [0xFF, 0xFE].isPrefixOf b = false ∧
      [0xEF, 0xBB, 0xBF].isPrefixOf b = false :=
    ⟨hmark 0 _ (by decide), hmark 0xFF _ (by decide), hmark 0xFE _ (by decide),
      hmark 0xFF _ (by decide), hmark 0xEF _ (by decide)⟩
  obtain ⟨h32b, h32l, h16b, h16l, h8⟩ := hnone
  unfold detectEncoding
  simp only [h32b, h32l, h16b, h16l, h8, Bool.false_eq_true, ↓reduceIte]
  rcases b with _ | ⟨x, _ | ⟨y, _ | ⟨z, _ | ⟨w, t⟩⟩⟩⟩
  · rfl
  · rfl
  · simp only [(hfirst _ _ rfl).1, hsecond _ _ _ rfl, ↓reduceIte]
  · rfl
  · simp only [(hfirst _ _ rfl).1, hsecond _ _ _ rfl, ↓reduceIte]

end Py
