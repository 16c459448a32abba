import CosaiMcp.Middleware.Boundary.Coverage
import CosaiMcp.Py.Number

/-!
# The trust boundary

`LLMOutputSanitizer.sanitize` cuts a text off, takes characters out of it in three steps, scans what
is left for injection patterns and escapes it. The steps leave the control characters of the second
block (C1) in, and a negative limit cuts off the end of the text, so that it takes a text without
the former and a limit of at least 0 for the outcome to be what it should be
(`sanitizer_complete_iff`).

The categories of Unicode are a parameter, of which the control characters are known.
-/

namespace CosaiMcp.Middleware.Trust

open Py
open Middleware.Boundary (Engine InjectionFinding injectionPatterns)

variable {φ : Type}

/-! ## The sanitizer -/

structure TrustRuntime (φ : Type) where
  engine : Engine φ
  /-- `unicodedata.category`. -/
  category : CodePoint → Str
  category_control : ∀ c : CodePoint, c.val < 0x20 ∨ 0x7F ≤ c.val ∧ c.val < 0xA0 →
    category c = lit "Cc"

/-- `text[:n]`. -/
def sliceTo (text : Str) (n : Int) : Str :=
  if 0 ≤ n then text.take n.toNat else text.take (text.length + n).toNat

/-- `_CONTROL_CHAR_RE`. -/
def isControlChar (c : CodePoint) : Bool :=
  c.val ≤ 0x08 || c.val = 0x0B || c.val = 0x0C || (0x0E ≤ c.val && c.val ≤ 0x1F) || c.val = 0x7F

/-- `_DANGEROUS_UNICODE_CATEGORIES`. -/
def dangerousUnicodeCategories : List Str := [lit "Cf", lit "Cs", lit "Co", lit "Cn"]

structure SanitizedOutput where
  text : Str
  flagged : Bool
  truncated : Bool
  findings : List Str

/-- The characters that are not `bad`, and the finding if there are any that are. -/
def remove (bad : CodePoint → Bool) (finding : Str) (text : Str) : Str × List Str :=
  if text.any bad then (text.filter (!bad ·), [finding]) else (text, [])

/-- The first step. -/
def cap (maxLength : Int) (text : Str) : Str × List Str :=
  if maxLength < text.length then
    (sliceTo text maxLength,
      [lit "Content truncated from original length to " ++ intText maxLength ++ lit " chars"])
  else (text, [])

/-- `ResponseBoundaryGuard.check`. -/
def guardCheck (E : Engine φ) (body : Str) : List InjectionFinding :=
  (Boundary.check E body (lit "response_body") injectionPatterns).map fun f =>
    { f with severity := lit "high" }

section Sanitize

variable (rt : TrustRuntime φ)

def isDangerous (c : CodePoint) : Bool := rt.category c ∈ dangerousUnicodeCategories

/-- The second step: null bytes. -/
def removeNull (text : Str) : Str × List Str := remove (· = 0) (lit "Null bytes removed") text

/-- The third step. -/
def removeControls (text : Str) : Str × List Str :=
  remove isControlChar (lit "Control characters stripped") text

/-- The fourth step. -/
def removeDangerous (text : Str) : Str × List Str :=
  remove (isDangerous rt)
    (lit "Dangerous Unicode codepoints (format/private-use/unassigned) removed") text

/-- The text that is scanned and escaped, and the findings on the way to it. -/
def cleanText (maxLength : Int) (text : Str) : Str × List Str :=
  let capped := cap maxLength text
  let noNull := removeNull capped.1
  let noControls := removeControls noNull.1
  let clean := removeDangerous rt noControls.1
  (clean.1, capped.2 ++ noNull.2 ++ noControls.2 ++ clean.2)

def injectionFinding (f : InjectionFinding) : Str :=
  lit "Injection pattern detected at '" ++ f.location ++ lit "': " ++ f.excerpt.take 80

def sanitize (maxLength : Int) (text : Str) : SanitizedOutput :=
  let clean := cleanText rt maxLength text
  let scan := guardCheck rt.engine clean.1
  let findings := clean.2 ++ scan.map injectionFinding
  { text := rt.engine.escape clean.1
    flagged := !scan.isEmpty || !findings.isEmpty
    truncated := maxLength < text.length
    findings := findings }

/-- The message of a `TrustBoundaryViolation`. -/
structure TrustBoundaryViolation where
  message : Str

/-- `TrustBoundaryChecker.require_safe`. -/
def requireSafe (maxLength : Int) (text context : Str) : Except TrustBoundaryViolation Str :=
  let result := sanitize rt maxLength text
  if result.flagged then
    .error ⟨lit "LLM output rejected at trust boundary" ++
      (if context = [] then [] else lit " [" ++ context ++ lit "]") ++ lit ": " ++
      (lit "; ").intercalate (result.findings.take 3)⟩
  else .ok result.text

end Sanitize

/-! ## What the steps take out -/

theorem mem_remove_iff {bad : CodePoint → Bool} {finding text : Str} {c : CodePoint} :
    c ∈ (remove bad finding text).1 ↔ c ∈ text ∧ bad c = false := by
  unfold remove
  split
  · rw [List.mem_filter, Bool.not_eq_true']
  · next hnone =>
    refine ⟨fun hc => ⟨hc, Bool.eq_false_iff.mpr fun hbad => ?_⟩, And.left⟩
    exact hnone (List.any_eq_true.mpr ⟨c, hc, hbad⟩)

theorem remove_sublist (bad : CodePoint → Bool) (finding text : Str) :
    (remove bad finding text).1.Sublist text := by
  unfold remove
  split
  · exact List.filter_sublist
  · exact List.Sublist.refl text

/-- Without a finding nothing is taken out. -/
theorem remove_of_nil {bad : CodePoint → Bool} {finding text : Str}
    (h : (remove bad finding text).2 = []) : (remove bad finding text).1 = text := by
  unfold remove at h ⊢
  split at h
  · cases h
  · next hnone => rw [if_neg hnone]

theorem cap_sublist (maxLength : Int) (text : Str) : (cap maxLength text).1.Sublist text := by
  unfold cap sliceTo
  split
  · dsimp only
    split <;> exact List.take_sublist _ _
  · exact List.Sublist.refl text

theorem cap_of_nil {maxLength : Int} {text : Str} (h : (cap maxLength text).2 = []) :
    (cap maxLength text).1 = text := by
  unfold cap at h ⊢
  split at h
  · cases h
  · next hshort => rw [if_neg hshort]

/-- A limit of at least 0 cuts the text off there. -/
theorem cap_of_nonneg {maxLength : Int} (h : 0 ≤ maxLength) (text : Str) :
    (cap maxLength text).1 = text.take maxLength.toNat := by
  unfold cap
  split
  · rw [sliceTo, if_pos h]
  · next hshort => rw [List.take_of_length_le (by omega)]

section Clean

variable {rt : TrustRuntime φ}

variable (rt) in
theorem cleanText_sublist (maxLength : Int) (text : Str) :
    (cleanText rt maxLength text).1.Sublist (cap maxLength text).1 := by
  have hnull := remove_sublist (· = 0) (lit "Null bytes removed") (cap maxLength text).1
  exact ((remove_sublist _ _ _).trans (remove_sublist _ _ _)).trans hnull

/-- What is left of the text that was cut off. -/
theorem mem_cleanText_iff {maxLength : Int} {text : Str} {c : CodePoint} :
    c ∈ (cleanText rt maxLength text).1 ↔
      c ∈ (cap maxLength text).1 ∧ c ≠ 0 ∧ isControlChar c = false ∧ isDangerous rt c = false := by
  unfold cleanText removeDangerous removeControls removeNull
  rw [mem_remove_iff, mem_remove_iff, mem_remove_iff, decide_eq_false_iff_not, and_assoc, and_assoc]

/-- Without a finding the text is as it was. -/
theorem cleanText_of_nil {maxLength : Int} {text : Str} (h : (cleanText rt maxLength text).2 = []) :
    (cleanText rt maxLength text).1 = text := by
  unfold cleanText at h ⊢
  obtain ⟨h, hdangerous⟩ := List.append_eq_nil_iff.mp h
  obtain ⟨h, hcontrols⟩ := List.append_eq_nil_iff.mp h
  obtain ⟨hcap, hnull⟩ := List.append_eq_nil_iff.mp h
  dsimp only
  rw [removeDangerous, remove_of_nil hdangerous, removeControls, remove_of_nil hcontrols, removeNull,
    remove_of_nil hnull, cap_of_nil hcap]

end Clean

/-! ## Completeness -/

/-- A control character of the first block, but for tab, line feed and carriage return. -/
def IsC0 (c : CodePoint) : Prop := c.val < 0x20 ∧ c ∉ [9, 10, 13]

/-- A control character of the second block. -/
def IsC1 (c : CodePoint) : Prop := 0x80 ≤ c.val ∧ c.val < 0xA0

/-- What the sanitizer and the checker promise for a text. -/
structure Complete (rt : TrustRuntime φ) (maxLength : Int) (text : Str) : Prop where
  noControl : ∀ c ∈ (cleanText rt maxLength text).1, ¬ IsC0 c ∧ ¬ IsC1 c
  noDangerous : ∀ c ∈ (cleanText rt maxLength text).1,
    rt.category c ∉ dangerousUnicodeCategories
  length_le : (cleanText rt maxLength text).1.length ≤ maxLength
  sublist : (cleanText rt maxLength text).1.Sublist text
  escaped : (sanitize rt maxLength text).text = rt.engine.escape (cleanText rt maxLength text).1
  flagged : (cleanText rt maxLength text).1 ≠ text ∨
      guardCheck rt.engine (cleanText rt maxLength text).1 ≠ [] →
    (sanitize rt maxLength text).flagged = true
  truncated : (sanitize rt maxLength text).truncated = true →
    (sanitize rt maxLength text).flagged = true
  safe : ∀ context s, requireSafe rt maxLength text context = .ok s → s = rt.engine.escape text

section Complete

variable {rt : TrustRuntime φ} {maxLength : Int} {text : Str}

theorem isControlChar_of_isC0 {c : CodePoint} (h : IsC0 c) : isControlChar c = true := by
  obtain ⟨hlt, hkept⟩ := h
  have h9 : c.val ≠ 9 := fun h => hkept (by rw [show c = 9 from Fin.ext h]; decide)
  have h10 : c.val ≠ 10 := fun h => hkept (by rw [show c = 10 from Fin.ext h]; decide)
  have h13 : c.val ≠ 13 := fun h => hkept (by rw [show c = 13 from Fin.ext h]; decide)
  have hcases : c.val ≤ 8 ∨ c.val = 11 ∨ c.val = 12 ∨ 14 ≤ c.val ∧ c.val ≤ 31 := by omega
  unfold isControlChar
  rcases hcases with h | h | h | h
  · simp [h]
  · simp [h]
  · simp [h]
  · simp [h.1, h.2]

theorem kept_of_isC1 {c : CodePoint} (h : IsC1 c) :
    c ≠ 0 ∧ isControlChar c = false ∧ isDangerous rt c = false := by
  obtain ⟨hlow, hhigh⟩ := h
  refine ⟨fun hzero => by rw [hzero] at hlow; exact absurd hlow (by decide), ?_, ?_⟩
  · unfold isControlChar
    simp
    omega
  · have hcategory := rt.category_control c (.inr ⟨by omega, hhigh⟩)
    rw [isDangerous, hcategory]
    decide

theorem flagged_of_found (h : (cleanText rt maxLength text).2 ≠ []) :
    (sanitize rt maxLength text).flagged = true := by
  unfold sanitize
  dsimp only
  rw [Bool.or_eq_true]
  right
  rw [List.isEmpty_eq_false_iff.mpr (List.append_ne_nil_of_left_ne_nil h _)]
  rfl

/-- A text that was changed or that a pattern matches is flagged. -/
theorem flagged_of_changed
    (h : (cleanText rt maxLength text).1 ≠ text ∨
      guardCheck rt.engine (cleanText rt maxLength text).1 ≠ []) :
    (sanitize rt maxLength text).flagged = true := by
  rcases h with h | h
  · exact flagged_of_found fun hnil => h (cleanText_of_nil hnil)
  · unfold sanitize
    dsimp only
    rw [Bool.or_eq_true, List.isEmpty_eq_false_iff.mpr h]
    exact .inl rfl

theorem flagged_of_truncated (h : (sanitize rt maxLength text).truncated = true) :
    (sanitize rt maxLength text).flagged = true := by
  have hlong : maxLength < text.length := of_decide_eq_true h
  apply flagged_of_found
  unfold cleanText cap
  rw [if_pos hlong]
  exact List.cons_ne_nil _ _

/-- What passes is the text itself, escaped. -/
theorem eq_of_requireSafe {context s : Str} (h : requireSafe rt maxLength text context = .ok s) :
    s = rt.engine.escape text := by
  unfold requireSafe at h
  dsimp only at h
  split at h
  · cases h
  · next hflagged =>
    cases h
    have hsame : (cleanText rt maxLength text).1 = text := by
      by_contra hne
      exact hflagged (flagged_of_changed (.inl hne))
    show rt.engine.escape (cleanText rt maxLength text).1 = _
    rw [hsame]

end Complete

/-- The sanitizer keeps its promise exactly for a limit of at least 0 and a text that has no control
character of the second block within it. -/
theorem sanitizer_complete_iff (rt : TrustRuntime φ) (maxLength : Int) (text : Str) :
    Complete rt maxLength text ↔
      0 ≤ maxLength ∧ ∀ c ∈ text.take maxLength.toNat, ¬ IsC1 c := by
  constructor
  · intro h
    have hnonneg : 0 ≤ maxLength := (Int.natCast_nonneg _).trans h.length_le
    refine ⟨hnonneg, fun c hc hC1 => ?_⟩
    rw [← cap_of_nonneg hnonneg] at hc
    exact (h.noControl c (mem_cleanText_iff.mpr ⟨hc, kept_of_isC1 hC1⟩)).2 hC1
  · rintro ⟨hnonneg, hC1⟩
    have hsub := cleanText_sublist rt maxLength text
    refine
      { noControl := fun c hc => ?_
        noDangerous := fun c hc => ?_
        length_le := ?_
        sublist := hsub.trans (cap_sublist maxLength text)
        escaped := rfl
        flagged := flagged_of_changed
        truncated := flagged_of_truncated
        safe := fun _ _ => eq_of_requireSafe }
    · obtain ⟨hcap, -, hcontrol, -⟩ := mem_cleanText_iff.mp hc
      rw [cap_of_nonneg hnonneg] at hcap
      refine ⟨fun hC0 => ?_, hC1 c hcap⟩
      rw [isControlChar_of_isC0 hC0] at hcontrol
      cases hcontrol
    · exact of_decide_eq_false (mem_cleanText_iff.mp hc).2.2.2
    · have hlength := hsub.length_le
      rw [cap_of_nonneg hnonneg, List.length_take] at hlength
      omega

/-- A control sequence introducer. -/
def csi : CodePoint := 0x9B

def plainRuntime : TrustRuntime Unit where
  engine := Boundary.plainEngine
  category c := if c.val < 0x20 ∨ 0x7F ≤ c.val ∧ c.val < 0xA0 then lit "Cc" else lit "Ll"
  category_control _ h := if_pos h

/-- The introducer is left in, and not flagged. -/
theorem csi_passes :
    ¬ Complete plainRuntime 10 [csi] ∧ (sanitize plainRuntime 10 [csi]).flagged = false := by
  constructor
  · intro h
    have hkept : csi ∈ (cleanText plainRuntime 10 [csi]).1 := by decide
    exact (h.noControl csi hkept).2 ⟨by decide, by decide⟩
  · decide +kernel

end CosaiMcp.Middleware.Trust
