import CosaiMcp.Py.Str
import Mathlib.Data.List.TakeWhile

/-!
# Numbers as text

The decimal text of an integer and the number token of the JSON grammar. `scanNumber` takes the
longest number at the front of a text; what it takes does not depend on what follows, as long as
that cannot be part of a number (`scanNumber_append`), and it takes the text of an integer whole
(`scanNumber_intText`).

Floating-point numbers are a parameter: `FloatText φ` is what a reader and a writer of floats
promise about each other. The type `φ` stands for the floats other than NaN.
-/

namespace Py

def isDigit (c : CodePoint) : Bool := 48 ≤ c.val && c.val ≤ 57

/-! ## Integers -/

def natText (n : Nat) : Str := (Nat.toDigits 10 n).map CodePoint.ofChar

/-- `str(n)`. -/
def intText : Int → Str
  | .ofNat n => natText n
  | .negSucc n => 45 :: natText (n + 1)

def natOf (s : Str) : Nat := s.foldl (fun n c => 10 * n + (c.val - 48)) 0

/-- The value of an optional minus sign and digits. -/
def intOf (s : Str) : Int :=
  match s with
  | [] => 0
  | c :: ds => if c = 45 then -natOf ds else natOf (c :: ds)

theorem isDigit_ofChar {c : Char} (h : c.isDigit = true) : isDigit (CodePoint.ofChar c) = true := by
  have h : 48 ≤ c.val ∧ c.val ≤ 57 := by simpa [Char.isDigit] using h
  have h₁ : 48 ≤ c.toNat := h.1
  have h₂ : c.toNat ≤ 57 := h.2
  simp [isDigit, CodePoint.ofChar, h₁, h₂]

theorem isDigit_of_mem_natText {n : Nat} {c : CodePoint} (h : c ∈ natText n) :
    isDigit c = true := by
  obtain ⟨d, hd, rfl⟩ := List.mem_map.mp h
  exact isDigit_ofChar (Nat.isDigit_of_mem_toDigits (by decide) (by decide) hd)

theorem isAscii_of_isDigit {s : Str} (h : ∀ c ∈ s, isDigit c = true) : isAscii s = true := by
  refine List.all_eq_true.mpr fun c hc => decide_eq_true ?_
  have hdigit := h c hc
  simp only [isDigit, Bool.and_eq_true, decide_eq_true_eq] at hdigit
  omega

theorem natOf_natText (n : Nat) : natOf (natText n) = n := by
  have h : ∀ (cs : List Char) (init : Nat),
      (cs.map CodePoint.ofChar).foldl (fun n c => 10 * n + (c.val - 48)) init =
        Nat.ofDigitChars 10 cs init := by
    intro cs
    induction cs with
    | nil => intro init; rfl
    | cons c cs ih => intro init; exact ih _
  exact (h _ 0).trans Nat.ofDigitChars_ten_toDigits

/-- The text of a positive number does not start with a zero. -/
theorem natText_head {n : Nat} (hn : n ≠ 0) : ∃ c ds, natText n = c :: ds ∧ c ≠ 48 := by
  induction n using Nat.strong_induction_on with
  | _ n ih =>
    by_cases hlt : n < 10
    · refine ⟨CodePoint.ofChar n.digitChar, [], by
        rw [natText, Nat.toDigits_of_lt_base hlt]; rfl, fun h => ?_⟩
      have hval : n.digitChar.toNat = 48 := congrArg Fin.val h
      rw [Nat.toNat_digitChar_of_lt_ten hlt] at hval
      omega
    · obtain ⟨c, ds, h, hc⟩ := ih (n / 10) (by omega) (by omega)
      refine ⟨c, ds ++ [CodePoint.ofChar (n % 10).digitChar], ?_, hc⟩
      rw [natText, Nat.toDigits_of_base_le (by decide) (by omega), List.map_append]
      show natText (n / 10) ++ _ = _
      rw [h]
      rfl

theorem intOf_intText (n : Int) : intOf (intText n) = n := by
  cases n with
  | negSucc n =>
    show -(natOf (natText (n + 1)) : Int) = _
    rw [natOf_natText]; rfl
  | ofNat n =>
    have hne : natText n ≠ [] := by simp [natText, Nat.toDigits_ne_nil]
    show intOf (natText n) = n
    cases h : natText n with
    | nil => exact absurd h hne
    | cons c ds =>
      have hc : isDigit c = true := isDigit_of_mem_natText (h ▸ List.mem_cons_self)
      have hc' : c ≠ 45 := by rintro rfl; exact absurd hc (by decide)
      simp only [intOf, hc', ↓reduceIte]
      rw [← h, natOf_natText]

/-! ## Number tokens -/

/-- The characters that a number can go on with. -/
def isNumberChar (c : CodePoint) : Bool :=
  isDigit c || c == 43 || c == 45 || c == 46 || c == 69 || c == 101

/-- `s` does not go on with a number. -/
def EndsNumber (s : Str) : Prop := ∀ c ∈ s.head?, isNumberChar c = false

/-- `s` does not go on with a digit. -/
def EndsDigits (s : Str) : Prop := ∀ c ∈ s.head?, isDigit c = false

/-- `0`, or digits without a leading zero. -/
def scanInteger (s : Str) : Option (Str × Str) :=
  match s with
  | [] => none
  | c :: rest =>
    if c = 48 then some ([c], rest)
    else if isDigit c then some (c :: rest.takeWhile isDigit, rest.dropWhile isDigit)
    else none

/-- A point and digits, if there are digits. -/
def scanFraction (s : Str) : Str × Str :=
  match s with
  | [] => ([], [])
  | c :: rest =>
    let ds := rest.takeWhile isDigit
    if c = 46 ∧ ds ≠ [] then (c :: ds, rest.dropWhile isDigit) else ([], c :: rest)

def scanSign (s : Str) : Str × Str :=
  match s with
  | [] => ([], [])
  | c :: rest => if c = 43 ∨ c = 45 then ([c], rest) else ([], c :: rest)

/-- An exponent, if there are digits. -/
def scanExponent (s : Str) : Str × Str :=
  match s with
  | [] => ([], [])
  | c :: rest =>
    let (sign, rest') := scanSign rest
    let ds := rest'.takeWhile isDigit
    if (c = 101 ∨ c = 69) ∧ ds ≠ [] then (c :: (sign ++ ds), rest'.dropWhile isDigit)
    else ([], c :: rest)

def scanMinus (s : Str) : Str × Str :=
  match s with
  | [] => ([], [])
  | c :: rest => if c = 45 then ([c], rest) else ([], c :: rest)

/-- The number at the front of `s`: its text, whether it is a float, and what follows. -/
def scanNumber (s : Str) : Option (Str × Bool × Str) :=
  let minus := scanMinus s
  (scanInteger minus.2).map fun integer =>
    let fraction := scanFraction integer.2
    let exponent := scanExponent fraction.2
    (minus.1 ++ integer.1 ++ fraction.1 ++ exponent.1, fraction.1 ≠ [] ∨ exponent.1 ≠ [],
      exponent.2)

/-- What a writer and a reader of floats promise each other. `repr` is the text that `json.dumps`
writes, `ofText` reads a number token with a fraction or an exponent. -/
class FloatText (φ : Type) where
  repr : φ → Str
  ofText : Str → φ
  inf : φ
  negInf : φ
  repr_cases : ∀ x, (x = inf ∧ repr x = lit "Infinity") ∨ (x = negInf ∧ repr x = lit "-Infinity") ∨
    (scanNumber (repr x) = some (repr x, true, []) ∧ ofText (repr x) = x)

section Append

variable {r : Str}

/-- A number character is a digit, a sign, a point or an exponent mark. -/
theorem isNumberChar_eq_false {c : CodePoint} (h : isNumberChar c = false) :
    isDigit c = false ∧ c ≠ 43 ∧ c ≠ 45 ∧ c ≠ 46 ∧ c ≠ 69 ∧ c ≠ 101 := by
  simpa [isNumberChar, and_assoc] using h

theorem EndsNumber.endsDigits (hr : EndsNumber r) : EndsDigits r := fun c hc =>
  (isNumberChar_eq_false (hr c hc)).1

theorem takeWhile_isDigit_append (hr : EndsDigits r) (s : Str) :
    (s ++ r).takeWhile isDigit = s.takeWhile isDigit ∧
      (s ++ r).dropWhile isDigit = s.dropWhile isDigit ++ r := by
  induction s with
  | nil =>
    cases r with
    | nil => exact ⟨rfl, rfl⟩
    | cons c r => simp [hr c rfl]
  | cons c s ih =>
    by_cases hc : isDigit c = true <;> simp [hc, ih]

theorem scanMinus_append (hr : EndsNumber r) (s : Str) :
    scanMinus (s ++ r) = ((scanMinus s).1, (scanMinus s).2 ++ r) := by
  cases s with
  | nil =>
    cases r with
    | nil => rfl
    | cons c r =>
      obtain ⟨-, -, hc, -⟩ := isNumberChar_eq_false (hr c rfl)
      simp [scanMinus, hc]
  | cons c s =>
    simp only [scanMinus, List.cons_append]
    split <;> rfl

theorem scanSign_append (hr : EndsNumber r) (s : Str) :
    scanSign (s ++ r) = ((scanSign s).1, (scanSign s).2 ++ r) := by
  cases s with
  | nil =>
    cases r with
    | nil => rfl
    | cons c r =>
      obtain ⟨-, hp, hm, -⟩ := isNumberChar_eq_false (hr c rfl)
      simp [scanSign, hp, hm]
  | cons c s =>
    simp only [scanSign, List.cons_append]
    split <;> rfl

theorem scanInteger_append (hr : EndsDigits r) {s t rest : Str}
    (h : scanInteger s = some (t, rest)) : scanInteger (s ++ r) = some (t, rest ++ r) := by
  cases s with
  | nil => cases h
  | cons c s =>
    obtain ⟨htake, hdrop⟩ := takeWhile_isDigit_append hr s
    simp only [scanInteger, List.cons_append, htake, hdrop] at h ⊢
    split at h
    · rename_i hc; cases h; simp [hc]
    · rename_i hc
      split at h
      · rename_i hd; cases h; simp [hc, hd]
      · cases h

theorem scanFraction_append (hr : EndsNumber r) (s : Str) :
    scanFraction (s ++ r) = ((scanFraction s).1, (scanFraction s).2 ++ r) := by
  cases s with
  | nil =>
    cases r with
    | nil => rfl
    | cons c r =>
      obtain ⟨-, -, -, hc, -⟩ := isNumberChar_eq_false (hr c rfl)
      simp [scanFraction, hc]
  | cons c s =>
    obtain ⟨htake, hdrop⟩ := takeWhile_isDigit_append hr.endsDigits s
    simp only [scanFraction, List.cons_append, htake, hdrop]
    split <;> rfl

theorem scanExponent_append (hr : EndsNumber r) (s : Str) :
    scanExponent (s ++ r) = ((scanExponent s).1, (scanExponent s).2 ++ r) := by
  cases s with
  | nil =>
    cases r with
    | nil => rfl
    | cons c r =>
      obtain ⟨-, -, -, -, hE, he⟩ := isNumberChar_eq_false (hr c rfl)
      simp [scanExponent, hE, he]
  | cons c s =>
    obtain ⟨htake, hdrop⟩ := takeWhile_isDigit_append hr.endsDigits (scanSign s).2
    simp only [scanExponent, List.cons_append, scanSign_append hr, htake, hdrop]
    split <;> rfl

/-- What the number at the front of a text is does not depend on what follows it. -/
theorem scanNumber_append (hr : EndsNumber r) {s t : Str} {float : Bool}
    (h : scanNumber s = some (t, float, [])) : scanNumber (s ++ r) = some (t, float, r) := by
  obtain ⟨⟨integer, s₁⟩, hint, h⟩ := Option.map_eq_some_iff.mp h
  have hint' := scanInteger_append hr.endsDigits hint
  simp only [Prod.mk.injEq] at h
  obtain ⟨ht, hfloat, hrest⟩ := h
  simp only [scanNumber, scanMinus_append hr, hint', Option.map_some, scanFraction_append hr,
    scanExponent_append hr, hrest, List.nil_append, ht, hfloat]

end Append

/-! ## The token of an integer -/

theorem scanInteger_natText (n : Nat) : scanInteger (natText n) = some (natText n, []) := by
  by_cases hn : n = 0
  · subst hn; rfl
  · obtain ⟨c, ds, h, hc⟩ := natText_head hn
    have hdigits : ∀ d ∈ c :: ds, isDigit d = true := fun d hd =>
      isDigit_of_mem_natText (n := n) (h ▸ hd)
    have htail : ∀ d ∈ ds, isDigit d = true := fun d hd => hdigits d (List.mem_cons_of_mem _ hd)
    rw [h, scanInteger]
    simp only [hc, ↓reduceIte, hdigits c List.mem_cons_self,
      List.takeWhile_eq_self_iff.mpr htail, List.dropWhile_eq_nil_iff.mpr htail]

theorem scanMinus_natText (n : Nat) (r : Str) :
    scanMinus (natText n ++ r) = ([], natText n ++ r) := by
  cases h : natText n with
  | nil => simp [natText, Nat.toDigits_ne_nil] at h
  | cons c ds =>
    have hc : isDigit c = true := isDigit_of_mem_natText (h ▸ List.mem_cons_self)
    have hc' : c ≠ 45 := by rintro rfl; exact absurd hc (by decide)
    simp [scanMinus, hc']

/-- The text of an integer is the integer part of a number. -/
theorem scanNumber_intText_append {r : Str} (hr : EndsDigits r) (n : Int) :
    scanNumber (intText n ++ r) =
      some (intText n ++ ((scanFraction r).1 ++ (scanExponent (scanFraction r).2).1),
        decide ((scanFraction r).1 ≠ [] ∨ (scanExponent (scanFraction r).2).1 ≠ []),
        (scanExponent (scanFraction r).2).2) := by
  have hint : ∀ n, scanInteger (natText n ++ r) = some (natText n, r) := fun n =>
    scanInteger_append hr (scanInteger_natText n)
  cases n with
  | ofNat n => simp [intText, scanNumber, scanMinus_natText, hint]
  | negSucc n => simp [intText, scanNumber, scanMinus, hint]

/-- The text of an integer is one number token, and not a float. -/
theorem scanNumber_intText {r : Str} (hr : EndsNumber r) (n : Int) :
    scanNumber (intText n ++ r) = some (intText n, false, r) := by
  refine scanNumber_append hr ?_
  have h := scanNumber_intText_append (r := []) (fun _ h => by cases h) n
  simpa [scanFraction, scanExponent] using h

end Py
