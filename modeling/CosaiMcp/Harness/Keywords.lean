import CosaiMcp.Harness.Runner
import CosaiMcp.Session.Failures

/-!
# Where a keyword comes from

`isAuthRejection` looks for its keywords in the whole message of a failed handshake. The words of
the messages bring in none, and none arises where they meet what they quote: the message has a
keyword exactly if something that it quotes has one (`isAuthRejection_message_iff`).
-/

namespace CosaiMcp.Harness

open Py Catalog Protocol Session

variable {φ : Type}

/-! ## Keywords -/

/-- The keywords that are words. -/
def rejectWords : List Str :=
  [lit "invalid_token", lit "authentication required", lit "unauthorized"]

/-- The keywords that are codes. -/
def rejectCodes : List Str := [lit "401", lit "403"]

def NamesRejection (U : UnicodeData) (text : Str) : Prop :=
  ∃ kw ∈ rejectWords ++ rejectCodes, kw <:+: U.lower text

instance (U : UnicodeData) (text : Str) : Decidable (NamesRejection U text) := by
  unfold NamesRejection
  infer_instance

/-- The case of a character does not depend on what stands behind a character without case. -/
def CaseSeparates (U : UnicodeData) : Prop :=
  ∀ c ∈ lit " ;]", ∀ s t, U.lower (s ++ c :: t) = U.lower s ++ c :: U.lower t

theorem caseSeparates_ascii : CaseSeparates .ascii := by
  intro c hc s t
  have hlower : (lit " ;]").all (fun c => asciiLower c == c) = true := by decide
  have hc' : asciiLower c = c := by simpa using List.all_eq_true.mp hlower c hc
  show (s ++ c :: t).map asciiLower = s.map asciiLower ++ c :: t.map asciiLower
  rw [List.map_append, List.map_cons, hc']

theorem isAuthRejection_iff {U : UnicodeData} {text : Str} :
    isAuthRejection U text = true ↔ NamesRejection U text := by
  unfold isAuthRejection NamesRejection
  rw [List.any_eq_true]
  have hperm : authRejectKeywords.Perm (rejectWords ++ rejectCodes) := by decide +kernel
  refine exists_congr fun kw => ?_
  rw [decide_eq_true_eq, hperm.mem_iff]

/-! ## Texts that keep keywords apart -/

/-- No keyword occurs in the text, or begins at the end of it. -/
def Silent (text : Str) : Prop :=
  ∀ kw ∈ rejectWords ++ rejectCodes, ¬ kw <:+: text ∧
    ∀ n < kw.length, ¬ (kw.take (n + 1)).reverse <+: text.reverse

instance (text : Str) : Decidable (Silent text) := by
  unfold Silent
  infer_instance

/-- No keyword ends with a beginning of the text, or goes on through it. -/
def Stops (text : Str) : Prop :=
  ∀ kw ∈ rejectWords ++ rejectCodes, ∀ n < kw.length,
    ¬ kw.drop n <+: text ∧ ¬ text <+: kw.drop n

instance (text : Str) : Decidable (Stops text) := by
  unfold Stops
  infer_instance

section Infix

variable {kw p s t : Str}

theorem infix_append_of_silent (hkw : kw ∈ rejectWords ++ rejectCodes) (h : Silent p) :
    kw <:+: p ++ t ↔ kw <:+: t := by
  obtain ⟨hnot, hstart⟩ := h kw hkw
  rw [List.infix_append_iff]
  refine ⟨?_, fun h => .inr (.inl h)⟩
  rintro (h | h | ⟨a, b, rfl, ha, hb⟩)
  · exact absurd h hnot
  · exact h
  · cases a with
    | nil => exact hb.isInfix
    | cons c a =>
      have hlt : a.length < (c :: a ++ b).length := by
        rw [List.length_append, List.length_cons]
        omega
      have htake : (c :: a ++ b).take (a.length + 1) = c :: a := List.take_left' List.length_cons
      have hnot := hstart a.length hlt
      rw [htake, List.reverse_prefix] at hnot
      exact absurd ha hnot

theorem infix_append_of_stops (hkw : kw ∈ rejectWords ++ rejectCodes) (h : Stops s) :
    kw <:+: p ++ (s ++ t) ↔ kw <:+: p ∨ kw <:+: s ++ t := by
  rw [List.infix_append_iff, ← or_assoc, or_iff_left_iff_imp]
  rintro ⟨a, b, rfl, ha, hb⟩
  by_cases hlt : a.length < (a ++ b).length
  · have hdrop : (a ++ b).drop a.length = b := List.drop_left
    obtain ⟨hshort, hlong⟩ := h _ hkw a.length hlt
    rw [hdrop] at hshort hlong
    rcases List.prefix_or_prefix_of_prefix hb (List.prefix_append s t) with h | h
    · exact absurd h hshort
    · exact absurd h hlong
  · have hnil : b = [] := by
      rw [List.length_append] at hlt
      exact List.eq_nil_of_length_eq_zero (by omega)
    rw [hnil, List.append_nil]
    exact .inl ha.isInfix

end Infix

section Names

variable {U : UnicodeData} (hsep : CaseSeparates U)

theorem not_namesRejection_nil : ¬ NamesRejection U [] := by
  rintro ⟨kw, hkw, h⟩
  rw [U.lower_ascii [] rfl] at h
  have hne : [] ∉ rejectWords ++ rejectCodes := by decide
  rw [List.eq_nil_of_infix_nil h] at hkw
  exact hne hkw

theorem not_namesRejection_of_silent {p : Str} (hascii : isAscii p = true)
    (h : Silent (p.map asciiLower)) : ¬ NamesRejection U p := by
  rintro ⟨kw, hkw, hin⟩
  rw [U.lower_ascii p hascii] at hin
  exact (h kw hkw).1 hin

include hsep

/-- Words that end with a space, before what they quote. -/
theorem namesRejection_append {p t : Str}
    (h : isAscii p = true ∧ p.getLast? = some 32 ∧ Silent (p.map asciiLower)) :
    NamesRejection U (p ++ t) ↔ NamesRejection U t := by
  obtain ⟨hascii, hspace, h⟩ := h
  obtain ⟨q, rfl⟩ := List.getLast?_eq_some_iff.mp hspace
  have hq : isAscii q = true := by
    rw [isAscii_append, Bool.and_eq_true] at hascii
    exact hascii.1
  have hlower : U.lower (q ++ [32] ++ t) = (q ++ [32]).map asciiLower ++ U.lower t := by
    rw [List.append_assoc, List.singleton_append, hsep 32 (by decide), U.lower_ascii q hq,
      List.map_append, List.append_assoc]
    rfl
  unfold NamesRejection
  rw [hlower]
  exact exists_congr fun kw => and_congr_right fun hkw => infix_append_of_silent hkw h

theorem namesRejection_closed {t : Str} :
    NamesRejection U (t ++ lit "]") ↔ NamesRejection U t := by
  have hstops : Stops (lit "]") := by decide
  have hsilent : ∀ kw ∈ rejectWords ++ rejectCodes, ¬ kw <:+: lit "]" ++ [] := by decide
  have hlower : U.lower (t ++ lit "]") = U.lower t ++ (lit "]" ++ []) := by
    have hlast := hsep 93 (by decide) t []
    rw [U.lower_ascii [] rfl] at hlast
    exact hlast
  unfold NamesRejection
  rw [hlower]
  refine exists_congr fun kw => and_congr_right fun hkw => ?_
  rw [infix_append_of_stops hkw hstops]
  exact or_iff_left (hsilent kw hkw)

omit hsep in
theorem names_or {s t u : Str} (h : ∀ kw ∈ rejectWords ++ rejectCodes,
    kw <:+: U.lower s ↔ kw <:+: U.lower t ∨ kw <:+: U.lower u) :
    NamesRejection U s ↔ NamesRejection U t ∨ NamesRejection U u := by
  constructor
  · rintro ⟨kw, hkw, hin⟩
    exact ((h kw hkw).mp hin).imp (fun hin => ⟨kw, hkw, hin⟩) fun hin => ⟨kw, hkw, hin⟩
  · rintro (⟨kw, hkw, hin⟩ | ⟨kw, hkw, hin⟩)
    · exact ⟨kw, hkw, (h kw hkw).mpr (.inl hin)⟩
    · exact ⟨kw, hkw, (h kw hkw).mpr (.inr hin)⟩

/-- A text, and after it a summary in brackets. -/
theorem namesRejection_bracketed {t u : Str} :
    NamesRejection U (t ++ lit " [server/discover: " ++ u ++ lit "]") ↔
      NamesRejection U t ∨ NamesRejection U u := by
  have hstops : Stops (lit " [") := by decide +kernel
  have hsilent : Silent (lit " [server/discover: ") := by decide +kernel
  have hlower : U.lower (t ++ lit " [server/discover: " ++ u ++ lit "]") =
      U.lower t ++ (lit " [" ++ (lit "server/discover: " ++ U.lower (u ++ lit "]"))) := by
    have hopen := hsep 32 (by decide) t (lit "[server/discover:" ++ 32 :: (u ++ lit "]"))
    rw [hsep 32 (by decide) (lit "[server/discover:"),
      U.lower_ascii (lit "[server/discover:") (by decide)] at hopen
    rw [List.append_assoc, List.append_assoc]
    exact hopen
  have hkeyword : ∀ kw ∈ rejectWords ++ rejectCodes,
      kw <:+: U.lower (t ++ lit " [server/discover: " ++ u ++ lit "]") ↔
        kw <:+: U.lower t ∨ kw <:+: U.lower (u ++ lit "]") := by
    intro kw hkw
    rw [hlower, infix_append_of_stops hkw hstops]
    exact or_congr Iff.rfl (infix_append_of_silent hkw hsilent)
  rw [← namesRejection_closed hsep (t := u)]
  exact names_or hkeyword

/-- Parts of a summary. -/
theorem namesRejection_intercalate {parts : List Str} :
    NamesRejection U ((lit "; ").intercalate parts) ↔ ∃ p ∈ parts, NamesRejection U p := by
  have hstops : Stops (lit "; ") := by decide +kernel
  have hsilent : Silent (lit "; ") := by decide +kernel
  induction parts with
  | nil => exact iff_of_false not_namesRejection_nil fun ⟨_, h, _⟩ => List.not_mem_nil h
  | cons p parts ih =>
    cases parts with
    | nil => simp
    | cons q parts =>
      have hlower : U.lower ((lit "; ").intercalate (p :: q :: parts)) =
          U.lower p ++ (lit "; " ++ U.lower ((lit "; ").intercalate (q :: parts))) := by
        have hjoin := hsep 59 (by decide) p (32 :: (lit "; ").intercalate (q :: parts))
        have hspace := hsep 32 (by decide) [] ((lit "; ").intercalate (q :: parts))
        rw [List.nil_append] at hspace
        rw [hspace, U.lower_ascii [] rfl] at hjoin
        rw [List.intercalate_cons_cons, List.append_assoc]
        exact hjoin
      have hfirst : NamesRejection U ((lit "; ").intercalate (p :: q :: parts)) ↔
          NamesRejection U p ∨ NamesRejection U ((lit "; ").intercalate (q :: parts)) := by
        refine names_or fun kw hkw => ?_
        rw [hlower, infix_append_of_stops hkw hstops]
        exact or_congr Iff.rfl (infix_append_of_silent hkw hsilent)
      have hparts := List.exists_mem_cons_iff (NamesRejection U) p (q :: parts)
      exact (hfirst.trans (or_congr Iff.rfl ih)).trans hparts.symm

end Names

/-! ## Messages -/

section Messages

variable {U : UnicodeData} (hsep : CaseSeparates U) {str repr : Json φ → Str}

/-- The parts of a summary. -/
theorem summarize_eq (str : Json φ → Str) (response : Json φ) : summarize str response =
    let error := if (response.get? (lit "error")).isSome then [lit "JSON-RPC error"] else []
    let parts := (statusText str response).map (lit "HTTP " ++ ·) ++ error ++
      exceptionText str response
    let result := if (response.get? (lit "result")).isSome ∧ parts = [] then [lit "DiscoverResult"]
      else []
    let summary := (lit "; ").intercalate (parts ++ result)
    if summary = [] then lit "empty response" else summary := by
  unfold summarize statusText
  cases response.getOrNull (lit "_status_code") <;> rfl

include hsep

theorem namesRejection_summarize {response : Json φ} :
    NamesRejection U (summarize str response) ↔
      ∃ t ∈ summaryTexts str response, NamesRejection U t := by
  have hword : ∀ (p : Prop) [Decidable p] {word : Str}, isAscii word = true →
      Silent (word.map asciiLower) → ¬ ∃ t ∈ (if p then [word] else []), NamesRejection U t := by
    rintro p _ word hascii hsilent ⟨t, ht, h⟩
    split at ht
    · rw [List.mem_singleton.mp ht] at h
      exact not_namesRejection_of_silent hascii hsilent h
    · cases ht
  have hempty : ¬ NamesRejection U (lit "empty response") :=
    not_namesRejection_of_silent rfl (by decide +kernel)
  have hjoined : ∀ parts : List Str,
      NamesRejection U (if (lit "; ").intercalate parts = [] then lit "empty response"
        else (lit "; ").intercalate parts) ↔ ∃ p ∈ parts, NamesRejection U p := by
    intro parts
    refine Iff.trans ?_ (namesRejection_intercalate hsep)
    split
    · next h =>
      rw [h]
      exact iff_of_false hempty not_namesRejection_nil
    · exact Iff.rfl
  have hstatus : (∃ p ∈ (statusText str response).map (lit "HTTP " ++ ·), NamesRejection U p) ↔
      ∃ t ∈ statusText str response, NamesRejection U t := by
    have hquote : ∀ t, NamesRejection U (lit "HTTP " ++ t) ↔ NamesRejection U t := fun t =>
      namesRejection_append hsep (by decide +kernel)
    constructor
    · rintro ⟨_, hp, h⟩
      obtain ⟨t, ht, rfl⟩ := List.mem_map.mp hp
      exact ⟨t, ht, (hquote t).mp h⟩
    · rintro ⟨t, ht, h⟩
      exact ⟨_, List.mem_map_of_mem ht, (hquote t).mpr h⟩
  rw [summarize_eq]
  refine (hjoined _).trans ?_
  simp only [summaryTexts, List.mem_append, or_and_right, exists_or]
  rw [hstatus, or_iff_left (hword _ rfl (by decide +kernel)),
    or_iff_left (hword _ rfl (by decide +kernel))]

theorem namesRejection_failure {failure : Failure φ} :
    NamesRejection U (failure.message str repr) ↔ NamesRejection U (failure.quoted str repr) := by
  have hnone : ¬ NamesRejection U (lit "initialize response missing 'result' field") :=
    not_namesRejection_of_silent rfl (by decide +kernel)
  cases failure with
  | toolsListFailed e => exact namesRejection_append hsep (by decide +kernel)
  | toolsListError error => exact namesRejection_append hsep (by decide +kernel)
  | toolsListNotComplete resultType => exact namesRejection_append hsep (by decide +kernel)
  | initializeFailed e => exact namesRejection_append hsep (by decide +kernel)
  | initializeRejected error => exact namesRejection_append hsep (by decide +kernel)
  | initializeNoResult => exact iff_of_false hnone not_namesRejection_nil
  | legacySseFailed e => exact namesRejection_append hsep (by decide +kernel)
  | legacySseRejected error => exact namesRejection_append hsep (by decide +kernel)

theorem namesRejection_discover {detection : EraDetection} {t : Str} :
    NamesRejection U (lit "server/discover did not establish a " ++ modernProtocolVersion ++
      lit " session (" ++ detection.value ++ lit "): " ++ t) ↔ NamesRejection U t := by
  cases detection with
  | modern => exact namesRejection_append hsep (by decide +kernel)
  | legacy => exact namesRejection_append hsep (by decide +kernel)
  | modernIncompatible => exact namesRejection_append hsep (by decide +kernel)
  | modernError => exact namesRejection_append hsep (by decide +kernel)
  | undetermined => exact namesRejection_append hsep (by decide +kernel)

/-- The words of a message bring in no keyword: it has one exactly if what it quotes has. -/
theorem isAuthRejection_message_iff {e : Incomplete φ} :
    isAuthRejection U (e.message str repr) = true ↔
      ∃ t ∈ e.quotes str repr, NamesRejection U t := by
  rw [isAuthRejection_iff]
  cases e with
  | discover detection response =>
    exact (namesRejection_discover hsep).trans (namesRejection_summarize hsep)
  | failed failure =>
    refine (namesRejection_failure hsep).trans ?_
    simp [Incomplete.quotes]
  | failedAfter failure response =>
    refine (namesRejection_bracketed hsep).trans ?_
    refine Iff.trans ?_ (List.exists_mem_cons_iff (NamesRejection U) _ _).symm
    exact or_congr (namesRejection_failure hsep) (namesRejection_summarize hsep)

end Messages

end CosaiMcp.Harness
