import CosaiMcp.Py.Dict
import CosaiMcp.Py.Encodings
import CosaiMcp.Py.Number

/-!
# JSON values and their text

`Json φ` is what `json.loads` yields, with `φ` for the floats other than NaN. An object is its list
of members, and stands for a `dict` when no key comes twice.

`Json.text` is `json.dumps` with the separators `,` and `:` and ASCII output: a code point above the
basic plane is written as two escapes, and so is a lone surrogate as one. `loads` is `json.loads` of
a `str`. Its recursion is bounded by the length of the text, and neither function models the
interpreter's limits on recursion and on the digits of an integer.
-/

namespace Py

inductive Json (φ : Type) where
  | null
  | bool (b : Bool)
  | int (n : Int)
  | float (x : φ)
  | nan
  | str (s : Str)
  | arr (items : List (Json φ))
  | obj (members : List (Str × Json φ))

namespace Json

variable {φ : Type}

/-- Induction over a value through the items of its arrays and the members of its objects. -/
theorem induct {motive : Json φ → Prop} (null : motive .null) (bool : ∀ b, motive (.bool b))
    (int : ∀ n, motive (.int n)) (float : ∀ x, motive (.float x)) (nan : motive .nan)
    (str : ∀ s, motive (.str s)) (arr : ∀ js, (∀ j ∈ js, motive j) → motive (.arr js))
    (obj : ∀ ms, (∀ m ∈ ms, motive m.2) → motive (.obj ms)) (j : Json φ) : motive j :=
  Json.rec (motive_1 := motive) (motive_2 := fun js => ∀ j ∈ js, motive j)
    (motive_3 := fun ms => ∀ m ∈ ms, motive m.2) (motive_4 := fun m => motive m.2)
    null bool int float nan str arr obj (fun _ h => by cases h)
    (fun _ _ hj hjs _ h => by
      rcases List.mem_cons.mp h with rfl | h
      · exact hj
      · exact hjs _ h)
    (fun _ h => by cases h)
    (fun _ _ hm hms _ h => by
      rcases List.mem_cons.mp h with rfl | h
      · exact hm
      · exact hms _ h)
    (fun _ _ h => h) j

/-- `d.get(key)` of an object; `none` where the key is absent or the value is no object. -/
def get? (j : Json φ) (key : Str) : Option (Json φ) :=
  match j with
  | .obj members => (members.find? (·.1 = key)).map Prod.snd
  | _ => none

theorem get?_cons {key k : Str} {v : Json φ} {ms : List (Str × Json φ)} :
    (Json.obj ((key, v) :: ms)).get? k = if key = k then some v else (Json.obj ms).get? k := by
  by_cases hk : key = k
  · rw [if_pos hk]
    exact congrArg (Option.map Prod.snd) (List.find?_cons_of_pos (decide_eq_true hk))
  · rw [if_neg hk]
    exact congrArg (Option.map Prod.snd) (List.find?_cons_of_neg (by simpa using hk))

/-- `d.get(key)` where an absent value and `None` are one. -/
def getOrNull (j : Json φ) (key : Str) : Json φ := (j.get? key).getD .null

/-- `isinstance(v, str)`. -/
def asStr? : Json φ → Option Str
  | .str s => some s
  | _ => none

theorem getD_asStr?_str (s : Str) : (str s : Json φ).asStr?.getD [] = s := rfl

theorem strOrNil_str (s : Str) :
    (match (str s : Json φ) with
      | .str s => s
      | _ => []) = s := rfl

theorem asStr?_eq_some_iff {j : Json φ} {s : Str} : j.asStr? = some s ↔ j = .str s := by
  cases j with
  | str t => rw [asStr?, Option.some.injEq, Json.str.injEq]
  | null => exact ⟨nofun, nofun⟩
  | bool b => exact ⟨nofun, nofun⟩
  | int n => exact ⟨nofun, nofun⟩
  | float x => exact ⟨nofun, nofun⟩
  | nan => exact ⟨nofun, nofun⟩
  | arr js => exact ⟨nofun, nofun⟩
  | obj ms => exact ⟨nofun, nofun⟩

/-- `isinstance(v, dict)`. -/
def asDict? : Json φ → Option (List (Str × Json φ))
  | .obj members => some members
  | _ => none

def isNull : Json φ → Bool
  | .null => true
  | _ => false

end Json

/-! ## Writing -/

section Write

def hexDigit (n : Nat) : CodePoint := Fin.ofNat _ (if n < 10 then 48 + n else 87 + n)

/-- `\uXXXX`. -/
def unicodeEscape (n : Nat) : Str :=
  [92, 117, hexDigit (n / 4096 % 16), hexDigit (n / 256 % 16), hexDigit (n / 16 % 16),
    hexDigit (n % 16)]

def escapeChar (c : CodePoint) : Str :=
  if c = 34 ∨ c = 92 then [92, c]
  else if c = 8 then [92, 98]
  else if c = 9 then [92, 116]
  else if c = 10 then [92, 110]
  else if c = 12 then [92, 102]
  else if c = 13 then [92, 114]
  else if 32 ≤ c.val ∧ c.val ≤ 126 then [c]
  else if c.val < 0x10000 then unicodeEscape c.val
  else unicodeEscape (0xD800 + (c.val - 0x10000) / 0x400) ++
    unicodeEscape (0xDC00 + (c.val - 0x10000) % 0x400)

def quote (s : Str) : Str := 34 :: (s.flatMap escapeChar ++ [34])

variable {φ : Type} [FloatText φ]

mutual

/-- `json.dumps(j, separators=(",", ":"))`. -/
def Json.text : Json φ → Str
  | .null => lit "null"
  | .bool true => lit "true"
  | .bool false => lit "false"
  | .int n => intText n
  | .float x => FloatText.repr x
  | .nan => lit "NaN"
  | .str s => quote s
  | .arr [] => lit "[]"
  | .arr (j :: js) => 91 :: (Json.text j ++ Json.moreItems js)
  | .obj [] => lit "\x7b\x7d"
  | .obj ((k, v) :: ms) => 123 :: (quote k ++ 58 :: (Json.text v ++ Json.moreMembers ms))

def Json.moreItems : List (Json φ) → Str
  | [] => [93]
  | j :: js => 44 :: (Json.text j ++ Json.moreItems js)

def Json.moreMembers : List (Str × Json φ) → Str
  | [] => [125]
  | (k, v) :: ms => 44 :: (quote k ++ 58 :: (Json.text v ++ Json.moreMembers ms))

end

end Write

/-! ## Reading -/

section Read

def hexValue? (c : CodePoint) : Option Nat :=
  if 48 ≤ c.val ∧ c.val ≤ 57 then some (c.val - 48)
  else if 97 ≤ c.val ∧ c.val ≤ 102 then some (c.val - 87)
  else if 65 ≤ c.val ∧ c.val ≤ 70 then some (c.val - 55)
  else none

def hex4? (a b c d : CodePoint) : Option Nat := do
  let a ← hexValue? a
  let b ← hexValue? b
  let c ← hexValue? c
  let d ← hexValue? d
  some (a * 4096 + b * 256 + c * 16 + d)

/-- The character of a one-letter escape. -/
def simpleEscape? (c : CodePoint) : Option CodePoint :=
  if c = 34 ∨ c = 92 ∨ c = 47 then some c
  else if c = 98 then some 8
  else if c = 102 then some 12
  else if c = 110 then some 10
  else if c = 114 then some 13
  else if c = 116 then some 9
  else none

/-- The rest of a string after its opening quote, and what follows it. A high surrogate escape is
joined with a low one right after it. -/
def scanString : Str → Option (Str × Str)
  | [] => none
  | c :: s =>
    if c = 34 then some ([], s)
    else if c = 92 then
      match s with
      | [] => none
      | e :: s =>
        if e = 117 then
          match s with
          | h₃ :: h₂ :: h₁ :: h₀ :: s =>
            match hex4? h₃ h₂ h₁ h₀ with
            | none => none
            | some n =>
              match s with
              | b :: u :: l₃ :: l₂ :: l₁ :: l₀ :: s' =>
                if isHighSurrogate n ∧ b = 92 ∧ u = 117 then
                  match hex4? l₃ l₂ l₁ l₀ with
                  | none => none
                  | some m =>
                    if isLowSurrogate m then
                      (scanString s').map fun p => (joinSurrogates n m :: p.1, p.2)
                    else
                      (scanString (b :: u :: l₃ :: l₂ :: l₁ :: l₀ :: s')).map
                        fun p => (Fin.ofNat _ n :: p.1, p.2)
                else
                  (scanString (b :: u :: l₃ :: l₂ :: l₁ :: l₀ :: s')).map
                    fun p => (Fin.ofNat _ n :: p.1, p.2)
              | s => (scanString s).map fun p => (Fin.ofNat _ n :: p.1, p.2)
          | _ => none
        else
          match simpleEscape? e with
          | none => none
          | some x => (scanString s).map fun p => (x :: p.1, p.2)
    else if c.val < 32 then none
    else (scanString s).map fun p => (c :: p.1, p.2)

def isJsonSpace (c : CodePoint) : Bool := c == 32 || c == 9 || c == 10 || c == 13

def skipSpace (s : Str) : Str := s.dropWhile isJsonSpace

/-- The `dict` of a list of pairs: a later value replaces an earlier one of the same key. -/
def dictOf {ν : Type} (ms : List (Str × ν)) : List (Str × ν) := (Dict.ofList ms).items

variable {φ : Type} [FloatText φ]

def constants : List (Str × Json φ) :=
  [(lit "null", .null), (lit "true", .bool true), (lit "false", .bool false), (lit "NaN", .nan),
    (lit "Infinity", .float FloatText.inf), (lit "-Infinity", .float FloatText.negInf)]

/-- A constant or a number. -/
def scanScalar (s : Str) : Option (Json φ × Str) :=
  match constants.find? fun k => k.1.isPrefixOf s with
  | some (t, j) => some (j, s.drop t.length)
  | none => (scanNumber s).map fun (t, float, rest) =>
      (if float then .float (FloatText.ofText t) else .int (intOf t), rest)

mutual

/-- The value at the front of a text. The first argument bounds the recursion. -/
def scanValue : Nat → Str → Option (Json φ × Str)
  | 0, _ => none
  | _ + 1, [] => none
  | n + 1, c :: s =>
    if c = 34 then (scanString s).map fun p => (.str p.1, p.2)
    else if c = 123 then
      match skipSpace s with
      | [] => none
      | d :: s =>
        if d = 125 then some (.obj [], s)
        else (scanMembers n (d :: s)).map fun p => (.obj (dictOf p.1), p.2)
    else if c = 91 then
      match skipSpace s with
      | [] => none
      | d :: s =>
        if d = 93 then some (.arr [], s)
        else (scanItems n (d :: s)).map fun p => (.arr p.1, p.2)
    else scanScalar (c :: s)

def scanItems : Nat → Str → Option (List (Json φ) × Str)
  | 0, _ => none
  | n + 1, s => do
    let (j, s) ← scanValue n s
    match skipSpace s with
    | [] => none
    | c :: s =>
      if c = 93 then some ([j], s)
      else if c = 44 then (scanItems n (skipSpace s)).map fun p => (j :: p.1, p.2)
      else none

def scanMembers : Nat → Str → Option (List (Str × Json φ) × Str)
  | 0, _ => none
  | _ + 1, [] => none
  | n + 1, q :: s =>
    if q = 34 then do
      let (k, s) ← scanString s
      match skipSpace s with
      | [] => none
      | c :: s =>
        if c = 58 then do
          let (v, s) ← scanValue n (skipSpace s)
          match skipSpace s with
          | [] => none
          | c :: s =>
            if c = 125 then some ([(k, v)], s)
            else if c = 44 then (scanMembers n (skipSpace s)).map fun p => ((k, v) :: p.1, p.2)
            else none
        else none
    else none

end

/-- `json.loads` of a `str`; `none` is `JSONDecodeError`. -/
def loads (s : Str) : Option (Json φ) :=
  match scanValue (2 * s.length + 1) (skipSpace s) with
  | some (j, rest) => if skipSpace rest = [] then some j else none
  | none => none

/-- `json.loads` of `bytes`; `none` is `JSONDecodeError` or `UnicodeDecodeError`. -/
def loadsBytes (b : Bytes) : Option (Json φ) := ((detectEncoding b).decode b).bind loads

end Read

end Py
