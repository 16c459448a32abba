import CosaiMcp.Py.Json

/-!
# Percent encoding

`quote` with no character to keep but the unreserved ones, and `unquote`, which reads back what was
quoted (`unquote_quote`). Bytes that are no UTF-8 are read as U+FFFD, one for every sequence that
breaks off.
-/

namespace Py.Percent

/-! ## UTF-8 with replacements -/

/-- A sequence that goes on: its value so far, the bytes to come, and the bounds of the next one. -/
structure Pending where
  value : Nat
  more : Nat
  low : Nat
  high : Nat

inductive Lead where
  | char (c : CodePoint)
  | sequence (p : Pending)
  | invalid

def lead (b : Byte) : Lead :=
  if b.val < 0x80 then .char (Fin.ofNat _ b.val)
  else if b.val < 0xC2 then .invalid
  else if b.val < 0xE0 then .sequence ⟨b.val - 0xC0, 1, 0x80, 0xBF⟩
  else if b.val < 0xF0 then
    .sequence ⟨b.val - 0xE0, 2, if b.val = 0xE0 then 0xA0 else 0x80,
      if b.val = 0xED then 0x9F else 0xBF⟩
  else if b.val < 0xF5 then
    .sequence ⟨b.val - 0xF0, 3, if b.val = 0xF0 then 0x90 else 0x80,
      if b.val = 0xF4 then 0x8F else 0xBF⟩
  else .invalid

def replacement : CodePoint := 0xFFFD

/-- The rest of a text, from inside of a sequence or between two. -/
def decodeFrom : Option Pending → Bytes → Str
  | none, [] => []
  | some _, [] => [replacement]
  | pending, b :: bs =>
    let start : Str :=
      match lead b with
      | .char c => c :: decodeFrom none bs
      | .sequence p => decodeFrom (some p) bs
      | .invalid => replacement :: decodeFrom none bs
    match pending with
    | none => start
    | some p =>
      if p.low ≤ b.val ∧ b.val ≤ p.high then
        let value := p.value * 64 + (b.val - 0x80)
        if p.more = 1 then Fin.ofNat _ value :: decodeFrom none bs
        else decodeFrom (some ⟨value, p.more - 1, 0x80, 0xBF⟩) bs
      else replacement :: start

/-- `b.decode("utf-8", "replace")`. -/
def decodeReplace (b : Bytes) : Str := decodeFrom none b

/-! ## Quoting -/

/-- Letters, digits and `_.-~`. -/
def isUnreserved (n : Nat) : Bool :=
  (65 ≤ n && n ≤ 90) || (97 ≤ n && n ≤ 122) || (48 ≤ n && n ≤ 57) || n == 95 || n == 46 ||
    n == 45 || n == 126

def hexUpper (n : Nat) : CodePoint := Fin.ofNat _ (if n < 10 then 48 + n else 55 + n)

def quoteByte (b : Byte) : Str :=
  if isUnreserved b.val then [Fin.ofNat _ b.val] else [37, hexUpper (b.val / 16), hexUpper (b.val % 16)]

/-- `quote(s, safe="")`; `none` is `UnicodeEncodeError`. -/
def quote (s : Str) : Option Str := (encodeUtf8 s).map (·.flatMap quoteByte)

/-! ## Unquoting -/

/-- `unquote_to_bytes` of ASCII text. -/
def unquoteToBytes : Str → Bytes
  | [] => []
  | 37 :: h :: l :: s =>
    match hexValue? h, hexValue? l with
    | some a, some b => Fin.ofNat _ (16 * a + b) :: unquoteToBytes s
    | _, _ => 37 :: unquoteToBytes (h :: l :: s)
  | c :: s => Fin.ofNat _ c.val :: unquoteToBytes s

/-- The runs of ASCII characters are decoded each by itself; `run` is the one so far. -/
def unquoteRuns : Str → Str → Str
  | run, [] => decodeReplace (unquoteToBytes run)
  | run, c :: s =>
    if c.val < 0x80 then unquoteRuns (run ++ [c]) s
    else decodeReplace (unquoteToBytes run) ++ c :: unquoteRuns [] s

def unquote (s : Str) : Str := if 37 ∈ s then unquoteRuns [] s else s

def unquotePlus (s : Str) : Str := unquote (replaceChar s 43 32)

/-! ## Reading back -/

section Decode

/-- The bytes of a code point, by their values. -/
theorem encodeCodePoint_bytes {c : CodePoint} {b : Bytes} (h : encodeCodePoint c = some b) :
    (∃ b₀, b = [b₀] ∧ c.val < 0x80 ∧ b₀.val = c.val) ∨
    (∃ b₀ b₁, b = [b₀, b₁] ∧ 0x80 ≤ c.val ∧ c.val < 0x800 ∧ b₀.val = 0xC0 + c.val / 64 ∧
      b₁.val = 0x80 + c.val % 64) ∨
    (∃ b₀ b₁ b₂, b = [b₀, b₁, b₂] ∧ 0x800 ≤ c.val ∧ c.val < 0x10000 ∧
      ¬ (0xD800 ≤ c.val ∧ c.val ≤ 0xDFFF) ∧ b₀.val = 0xE0 + c.val / 4096 ∧
        b₁.val = 0x80 + c.val / 64 % 64 ∧ b₂.val = 0x80 + c.val % 64) ∨
    (∃ b₀ b₁ b₂ b₃, b = [b₀, b₁, b₂, b₃] ∧ 0x10000 ≤ c.val ∧ b₀.val = 0xF0 + c.val / 262144 ∧
      b₁.val = 0x80 + c.val / 4096 % 64 ∧ b₂.val = 0x80 + c.val / 64 % 64 ∧
        b₃.val = 0x80 + c.val % 64) := by
  have hlt := c.isLt
  have hval : ∀ n, n < 256 → (Fin.ofNat 256 n).val = n := fun n hn => Nat.mod_eq_of_lt hn
  unfold encodeCodePoint at h
  dsimp only at h
  split at h
  · next h1 =>
    cases h
    exact .inl ⟨_, rfl, h1, hval _ (by omega)⟩
  split at h
  · next h1 h2 =>
    cases h
    exact .inr (.inl ⟨_, _, rfl, by omega, h2, hval _ (by omega), hval _ (by omega)⟩)
  split at h
  · cases h
  next h1 h2 hsurrogate =>
  have hs : ¬ (0xD800 ≤ c.val ∧ c.val ≤ 0xDFFF) := by
    simpa [isSurrogate] using hsurrogate
  split at h
  · next h3 =>
    cases h
    exact .inr (.inr (.inl ⟨_, _, _, rfl, by omega, h3, hs, hval _ (by omega), hval _ (by omega),
      hval _ (by omega)⟩))
  · next h3 =>
    cases h
    exact .inr (.inr (.inr ⟨_, _, _, _, rfl, by omega, hval _ (by omega), hval _ (by omega),
      hval _ (by omega), hval _ (by omega)⟩))

variable {b : Byte} {bs : Bytes} {p : Pending}

theorem decodeFrom_char {c : CodePoint} (h : lead b = .char c) :
    decodeFrom none (b :: bs) = c :: decodeFrom none bs := by
  rw [decodeFrom, h]

theorem decodeFrom_sequence (h : lead b = .sequence p) :
    decodeFrom none (b :: bs) = decodeFrom (some p) bs := by
  rw [decodeFrom, h]

theorem decodeFrom_more (hlow : p.low ≤ b.val) (hhigh : b.val ≤ p.high) (h : p.more ≠ 1) :
    decodeFrom (some p) (b :: bs) =
      decodeFrom (some ⟨p.value * 64 + (b.val - 0x80), p.more - 1, 0x80, 0xBF⟩) bs := by
  rw [decodeFrom]
  simp only [if_pos (And.intro hlow hhigh), if_neg h]

theorem decodeFrom_last {c : CodePoint} (hlow : p.low ≤ b.val) (hhigh : b.val ≤ p.high)
    (h : p.more = 1) (hc : p.value * 64 + (b.val - 0x80) = c.val) :
    decodeFrom (some p) (b :: bs) = c :: decodeFrom none bs := by
  rw [decodeFrom]
  simp only [if_pos (And.intro hlow hhigh), if_pos h, hc, List.cons.injEq, and_true]
  exact Fin.ext (Nat.mod_eq_of_lt c.isLt)

theorem lead_one (h : b.val < 0x80) : lead b = .char (Fin.ofNat _ b.val) := if_pos h

theorem lead_two (h : 0xC2 ≤ b.val) (h' : b.val < 0xE0) :
    lead b = .sequence ⟨b.val - 0xC0, 1, 0x80, 0xBF⟩ := by
  rw [lead, if_neg (by omega), if_neg (by omega), if_pos h']

theorem lead_three (h : 0xE0 ≤ b.val) (h' : b.val < 0xF0) :
    lead b = .sequence ⟨b.val - 0xE0, 2, if b.val = 0xE0 then 0xA0 else 0x80,
      if b.val = 0xED then 0x9F else 0xBF⟩ := by
  rw [lead, if_neg (by omega), if_neg (by omega), if_neg (by omega), if_pos h']

theorem lead_four (h : 0xF0 ≤ b.val) (h' : b.val < 0xF5) :
    lead b = .sequence ⟨b.val - 0xF0, 3, if b.val = 0xF0 then 0x90 else 0x80,
      if b.val = 0xF4 then 0x8F else 0xBF⟩ := by
  rw [lead, if_neg (by omega), if_neg (by omega), if_neg (by omega), if_neg (by omega), if_pos h']

theorem decodeFrom_encodeCodePoint {c : CodePoint} {b : Bytes} (h : encodeCodePoint c = some b)
    (rest : Bytes) : decodeFrom none (b ++ rest) = c :: decodeFrom none rest := by
  have hlt := c.isLt
  rcases encodeCodePoint_bytes h with ⟨b₀, rfl, h0, hb₀⟩ | ⟨b₀, b₁, rfl, h0, h1, hb₀, hb₁⟩ |
    ⟨b₀, b₁, b₂, rfl, h0, h1, hs, hb₀, hb₁, hb₂⟩ | ⟨b₀, b₁, b₂, b₃, rfl, h0, hb₀, hb₁, hb₂, hb₃⟩
  · have hc : (Fin.ofNat 0x110000 b₀.val : CodePoint) = c := by
      rw [hb₀]
      exact Fin.ext (Nat.mod_eq_of_lt hlt)
    exact (decodeFrom_char (lead_one (hb₀ ▸ h0))).trans (by rw [hc]; rfl)
  · refine (decodeFrom_sequence (lead_two (by omega) (by omega))).trans ?_
    exact decodeFrom_last (by dsimp only; omega) (by dsimp only; omega) rfl (by dsimp only; omega)
  · refine (decodeFrom_sequence (lead_three (by omega) (by omega))).trans ?_
    refine (decodeFrom_more ?_ ?_ (show 2 ≠ 1 by decide)).trans ?_
    · dsimp only
      split <;> omega
    · dsimp only
      split <;> omega
    · exact decodeFrom_last (by dsimp only; omega) (by dsimp only; omega) rfl
        (by dsimp only; omega)
  · refine (decodeFrom_sequence (lead_four (by omega) (by omega))).trans ?_
    refine (decodeFrom_more ?_ ?_ (show 3 ≠ 1 by decide)).trans ?_
    · dsimp only
      split <;> omega
    · dsimp only
      split <;> omega
    · refine (decodeFrom_more (by dsimp only; omega) (by dsimp only; omega)
        (show 2 ≠ 1 by decide)).trans ?_
      exact decodeFrom_last (by dsimp only; omega) (by dsimp only; omega) rfl
        (by dsimp only; omega)

/-- Text that was encoded is read back. -/
theorem decodeReplace_encodeUtf8 {s : Str} {b : Bytes} (h : encodeUtf8 s = some b) :
    decodeReplace b = s := by
  induction s generalizing b with
  | nil =>
    cases h
    rfl
  | cons c s ih =>
    rw [encodeUtf8] at h
    obtain ⟨b₀, hb₀, h⟩ := Option.bind_eq_some_iff.mp h
    obtain ⟨bs, hbs, h⟩ := Option.bind_eq_some_iff.mp h
    cases h
    rw [decodeReplace, decodeFrom_encodeCodePoint hb₀]
    exact congrArg (c :: ·) (ih hbs)

end Decode

/-! ## Percent-encoded text -/

/-- The texts that `quote` makes: unreserved characters, and bytes in upper-case digits. -/
inductive QuotedText : Str → Prop
  | nil : QuotedText []
  | plain {c : CodePoint} {s : Str} (hc : isUnreserved c.val = true) (h : QuotedText s) :
      QuotedText (c :: s)
  | escaped {n m : Nat} {s : Str} (hn : n < 16) (hm : m < 16) (h : QuotedText s) :
      QuotedText (37 :: hexUpper n :: hexUpper m :: s)

section Quoted

variable {s q : Str}

theorem quotedText_append {b : Byte} (h : QuotedText q) : QuotedText (quoteByte b ++ q) := by
  have hlt := b.isLt
  have hval : (Fin.ofNat 0x110000 b.val : CodePoint).val = b.val := Nat.mod_eq_of_lt (by omega)
  rw [quoteByte]
  split
  · next hsafe => exact .plain (hval.symm ▸ hsafe) h
  · exact .escaped (by omega) (by omega) h

theorem quotedText_flatMap (bs : Bytes) : QuotedText (bs.flatMap quoteByte) := by
  induction bs with
  | nil => exact .nil
  | cons b bs ih => exact quotedText_append ih

theorem quotedText_quote (h : quote s = some q) : QuotedText q := by
  obtain ⟨bs, -, rfl⟩ := Option.map_eq_some_iff.mp h
  exact quotedText_flatMap bs

theorem isUnreserved_char {c : CodePoint} (h : isUnreserved c.val = true) :
    c.val < 0x80 ∧ isSpace c = false ∧ c ≠ 37 ∧ c ≠ 44 ∧ c ≠ 59 ∧ c ≠ 61 := by
  have hne : ∀ k : CodePoint, isUnreserved k.val = false → c ≠ k := fun k hk he => by
    rw [he, hk] at h
    cases h
  have hbounds : 45 ≤ c.val ∧ c.val < 0x80 := by
    simp only [isUnreserved, Bool.or_eq_true, Bool.and_eq_true, decide_eq_true_eq,
      beq_iff_eq] at h
    omega
  refine ⟨hbounds.2, ?_, hne 37 rfl, hne 44 rfl, hne 59 rfl, hne 61 rfl⟩
  simp only [isSpace, Bool.or_eq_false_iff, Bool.and_eq_false_iff, decide_eq_false_iff_not,
    beq_eq_false_iff_ne]
  omega

theorem hexUpper_char {n : Nat} (h : n < 16) : isUnreserved (hexUpper n).val = true := by
  have hall : ∀ n : Fin 16, isUnreserved (hexUpper n.val).val = true := by decide
  exact hall ⟨n, h⟩

theorem hexValue?_hexUpper {n : Nat} (h : n < 16) : hexValue? (hexUpper n) = some n := by
  have hall : ∀ n : Fin 16, hexValue? (hexUpper n.val) = some n.val := by decide
  exact hall ⟨n, h⟩

/-- A quoted text is ASCII without white space and without separators. -/
theorem QuotedText.char (h : QuotedText q) :
    ∀ c ∈ q, c.val < 0x80 ∧ isSpace c = false ∧ c ≠ 44 ∧ c ≠ 59 ∧ c ≠ 61 := by
  have hplain : ∀ c : CodePoint, isUnreserved c.val = true →
      c.val < 0x80 ∧ isSpace c = false ∧ c ≠ 44 ∧ c ≠ 59 ∧ c ≠ 61 := fun c hc => by
    obtain ⟨hascii, hspace, -, hrest⟩ := isUnreserved_char hc
    exact ⟨hascii, hspace, hrest⟩
  induction h with
  | nil => exact nofun
  | plain hc h ih => exact List.forall_mem_cons.mpr ⟨hplain _ hc, ih⟩
  | escaped hn hm h ih =>
    refine List.forall_mem_cons.mpr ⟨by decide, List.forall_mem_cons.mpr ⟨?_,
      List.forall_mem_cons.mpr ⟨?_, ih⟩⟩⟩
    · exact hplain _ (hexUpper_char hn)
    · exact hplain _ (hexUpper_char hm)

theorem QuotedText.isAscii (h : QuotedText q) : isAscii q = true :=
  List.all_eq_true.mpr fun c hc => decide_eq_true (h.char c hc).1

theorem unquoteToBytes_cons {c : CodePoint} (hc : c ≠ 37) (s : Str) :
    unquoteToBytes (c :: s) = Fin.ofNat _ c.val :: unquoteToBytes s := by
  rw [unquoteToBytes]
  rintro h l s' rfl -
  exact hc rfl

theorem unquoteToBytes_quoteByte (b : Byte) (q : Str) :
    unquoteToBytes (quoteByte b ++ q) = b :: unquoteToBytes q := by
  have hlt := b.isLt
  have hval : (Fin.ofNat 0x110000 b.val : CodePoint).val = b.val := Nat.mod_eq_of_lt (by omega)
  rw [quoteByte]
  split
  · next hsafe =>
    have hne := (isUnreserved_char (hval.symm ▸ hsafe)).2.2.1
    rw [List.singleton_append, unquoteToBytes_cons hne, hval]
    exact congrArg (· :: _) (Fin.ext (Nat.mod_eq_of_lt hlt))
  · have hbyte : 16 * (b.val / 16) + b.val % 16 = b.val := Nat.div_add_mod b.val 16
    rw [List.cons_append, List.cons_append, List.singleton_append, unquoteToBytes,
      hexValue?_hexUpper (by omega), hexValue?_hexUpper (by omega)]
    simp only [hbyte]
    exact congrArg (· :: _) (Fin.ext (Nat.mod_eq_of_lt hlt))

theorem unquoteToBytes_flatMap (bs : Bytes) : unquoteToBytes (bs.flatMap quoteByte) = bs := by
  induction bs with
  | nil => rfl
  | cons b bs ih => rw [List.flatMap_cons, unquoteToBytes_quoteByte, ih]

theorem unquoteToBytes_of_not_mem (h : 37 ∉ s) : unquoteToBytes s = asciiBytes s := by
  induction s with
  | nil => rfl
  | cons c s ih =>
    rw [unquoteToBytes_cons (fun hc => h (hc ▸ List.mem_cons_self)),
      ih fun hs => h (List.mem_cons_of_mem c hs)]
    rfl

theorem unquoteRuns_of_isAscii (h : isAscii s = true) (run : Str) :
    unquoteRuns run s = decodeReplace (unquoteToBytes (run ++ s)) := by
  induction s generalizing run with
  | nil => rw [unquoteRuns, List.append_nil]
  | cons c s ih =>
    obtain ⟨hc, hs⟩ := List.forall_mem_cons.mp (List.all_eq_true.mp h)
    rw [unquoteRuns, if_pos (of_decide_eq_true hc), ih (List.all_eq_true.mpr hs),
      List.append_assoc]
    rfl

/-- What was quoted is read back. -/
theorem unquote_quote (h : quote s = some q) : unquote q = s := by
  have hascii := (quotedText_quote h).isAscii
  obtain ⟨bs, hbs, rfl⟩ := Option.map_eq_some_iff.mp h
  rw [unquote]
  split
  · rw [unquoteRuns_of_isAscii hascii, List.nil_append, unquoteToBytes_flatMap,
      decodeReplace_encodeUtf8 hbs]
  · next hmem =>
    have hbytes := unquoteToBytes_of_not_mem hmem
    rw [unquoteToBytes_flatMap] at hbytes
    rw [hbytes] at hbs
    exact (encodeUtf8_inj hbs (encodeUtf8_of_isAscii hascii)).symm

end Quoted

end Py.Percent
