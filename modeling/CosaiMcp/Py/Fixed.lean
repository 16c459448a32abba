import CosaiMcp.Py.Number

/-!
# Floats to two decimal places

`twoPlaces` is `f"{x:.2f}"`: the exact value of the float, rounded to the nearest hundredth and to
the even one of two. The sign is written wherever the sign bit is set, be it of a zero
(`head?_twoPlaces`).
-/

namespace Py

/-- A float with its sign bit. The value of a finite one is `mantissa * 2 ^ exponent`. -/
inductive BinaryFloat where
  | nan
  | infinite (negative : Bool)
  | finite (negative : Bool) (mantissa : Nat) (exponent : Int)

namespace BinaryFloat

/-- The sign bit, which does not show in the text of a NaN. -/
def isNegative : BinaryFloat → Bool
  | .nan => false
  | .infinite negative => negative
  | .finite negative _ _ => negative

def roundHalfEven (n d : Nat) : Nat :=
  if 2 * (n % d) < d ∨ 2 * (n % d) = d ∧ n / d % 2 = 0 then n / d else n / d + 1

def hundredths (mantissa : Nat) : Int → Nat
  | .ofNat e => 100 * mantissa * 2 ^ e
  | .negSucc e => roundHalfEven (100 * mantissa) (2 ^ (e + 1))

def signText (negative : Bool) : Str := if negative then [45] else []

/-- A number of hundredths as a decimal fraction. -/
def fractionText (n : Nat) : Str :=
  natText (n / 100) ++ [46, Fin.ofNat _ (48 + n / 10 % 10), Fin.ofNat _ (48 + n % 10)]

/-- `f"{x:.2f}"`. -/
def twoPlaces : BinaryFloat → Str
  | .nan => lit "nan"
  | .infinite negative => signText negative ++ lit "inf"
  | .finite negative mantissa exponent =>
    signText negative ++ fractionText (hundredths mantissa exponent)

/-! ## The text -/

theorem isAscii_signText (negative : Bool) : isAscii (signText negative) = true := by
  cases negative <;> rfl

theorem isAscii_fractionText (n : Nat) : isAscii (fractionText n) = true := by
  have hplace : ∀ k : Nat, k < 10 → (Fin.ofNat 0x110000 (48 + k)).val < 0x80 := fun k hk => by
    rw [Fin.val_ofNat, Nat.mod_eq_of_lt (by omega)]
    omega
  have htenths := hplace (n / 10 % 10) (Nat.mod_lt _ (by decide))
  have hunits := hplace (n % 10) (Nat.mod_lt _ (by decide))
  rw [fractionText, isAscii_append, isAscii_of_isDigit fun _ => isDigit_of_mem_natText,
    Bool.true_and]
  simp only [isAscii, List.all_cons, List.all_nil, htenths, hunits, decide_true, Bool.and_true]
  decide

theorem isAscii_twoPlaces (x : BinaryFloat) : isAscii x.twoPlaces = true := by
  cases x with
  | nan => rfl
  | infinite negative =>
    rw [twoPlaces, isAscii_append, isAscii_signText]
    rfl
  | finite negative mantissa exponent =>
    rw [twoPlaces, isAscii_append, isAscii_signText, isAscii_fractionText]
    rfl

/-- A fraction starts with a digit, or with its point. -/
theorem head?_fractionText (n : Nat) :
    ∃ c, (fractionText n).head? = some c ∧ (isDigit c = true ∨ c = 46) := by
  unfold fractionText
  have hdigits := @isDigit_of_mem_natText (n / 100)
  cases htext : natText (n / 100) with
  | nil => exact ⟨46, rfl, .inr rfl⟩
  | cons c s => exact ⟨c, rfl, .inl (hdigits (htext ▸ List.mem_cons_self))⟩

/-- The text starts with a minus sign if the sign bit is set, and with a letter, a digit or a point
if not. -/
theorem head?_twoPlaces (x : BinaryFloat) : ∃ c, x.twoPlaces.head? = some c ∧
    if x.isNegative then c = 45 else c = 110 ∨ c = 105 ∨ isDigit c = true ∨ c = 46 := by
  cases x with
  | nan => exact ⟨110, rfl, .inl rfl⟩
  | infinite negative =>
    cases negative with
    | true => exact ⟨45, rfl, rfl⟩
    | false => exact ⟨105, rfl, .inr (.inl rfl)⟩
  | finite negative mantissa exponent =>
    cases negative with
    | true => exact ⟨45, rfl, rfl⟩
    | false =>
      obtain ⟨c, hhead, hc⟩ := head?_fractionText (hundredths mantissa exponent)
      exact ⟨c, hhead, .inr (.inr hc)⟩

end BinaryFloat

end Py
