import CosaiMcp.Greedy
import CosaiMcp.Scan.ManifestTotality

/-!
# What the scrubber leaves of a text

`PIIScrubber.scrub` takes matches from the left, so that a match that crosses the end of an earlier
one is dropped, however long it is, and what it has beyond that end stays in the text. It scrubs all
that is matched, the longer of any two overlapping matches as one, exactly if the runs of matched
positions are rows of matches that adjoin, and no other match overlaps a shorter one
(`scrub_complete_iff`).
-/

namespace CosaiMcp.Scan

open Py

variable {φ δ : Type}

/-! ## The output by positions -/

namespace RedactedMatch

abbrev Covers (m : RedactedMatch) (i : Nat) : Prop := Greedy.Covers start stop m i

abbrev Overlap (m m' : RedactedMatch) : Prop := Greedy.Overlap start stop m m'

abbrev Shorter (m m' : RedactedMatch) : Prop := Greedy.Shorter start stop m m'

abbrev SameSpan (m m' : RedactedMatch) : Prop := Greedy.SameSpan start stop m m'

instance (m : RedactedMatch) (i : Nat) : Decidable (m.Covers i) :=
  inferInstanceAs (Decidable (_ ∧ _))

end RedactedMatch

/-- A part of the output: a character of the text, or a token. -/
inductive Piece where
  | kept (i : Nat)
  | token (piiType : Str)

namespace Piece

def text (original : Str) : Piece → Str
  | .kept i => original[i]?.toList
  | .token piiType => lit "[REDACTED:" ++ piiType ++ lit "]"

/-- The position of a character that is kept. -/
def position? : Piece → Option Nat
  | .kept i => some i
  | .token _ => none

end Piece

/-- The parts of the output, from `prev` on. -/
def pieces (length : Nat) : (prev : Nat) → List RedactedMatch → List Piece
  | prev, [] => (List.range' prev (length - prev)).map .kept
  | prev, m :: ms =>
    (List.range' prev (m.start - prev)).map .kept ++ .token m.piiType :: pieces length m.stop ms

/-- The positions of a text of this length that none of the matches covers. -/
def uncovered (length : Nat) (ms : List RedactedMatch) : List Nat :=
  (List.range length).filter fun i => ∀ m ∈ ms, ¬ m.Covers i

/-- The matches are spans of a text of this length. -/
def Within (length : Nat) (ms : List RedactedMatch) : Prop :=
  ∀ m ∈ ms, m.start ≤ m.stop ∧ m.stop ≤ length

section Pieces

theorem text_kept_range' (original : Str) (prev n : Nat) :
    ((List.range' prev n).map .kept).flatMap (Piece.text original) =
      (original.drop prev).take n := by
  induction n generalizing prev with
  | zero => rfl
  | succ n ih =>
    rw [List.range'_succ, List.map_cons, List.flatMap_cons, ih]
    by_cases hlt : prev < original.length
    · rw [List.drop_eq_getElem_cons hlt, List.take_succ_cons, Piece.text,
        List.getElem?_eq_getElem hlt]
      rfl
    · have hle := Nat.le_of_not_lt hlt
      rw [Piece.text, List.getElem?_eq_none hle, List.drop_eq_nil_of_le hle,
        List.drop_eq_nil_of_le (Nat.le_succ_of_le hle)]
      simp

/-- The output is the text of its parts. -/
theorem redact_eq (original : Str) (prev : Nat) (ms : List RedactedMatch) :
    redact original prev ms =
      (pieces original.length prev ms).flatMap (Piece.text original) := by
  induction ms generalizing prev with
  | nil =>
    unfold redact pieces
    rw [text_kept_range', List.take_of_length_le (by rw [List.length_drop])]
  | cons m ms ih =>
    unfold redact pieces
    rw [List.flatMap_append, List.flatMap_cons, text_kept_range', ih, List.drop_take, Piece.text]
    simp only [List.append_assoc]

theorem filterMap_kept (l : List Nat) : (l.map Piece.kept).filterMap Piece.position? = l := by
  rw [List.filterMap_map]
  exact List.filterMap_some

/-- What is kept, from `prev` on, is what none of the redacted spans covers. -/
theorem position_pieces (length prev : Nat) {ms : List RedactedMatch} (hwithin : Within length ms)
    (hapart : ms.Pairwise (·.stop ≤ ·.start)) (hprev : ∀ m ∈ ms, prev ≤ m.start)
    (hle : prev ≤ length) :
    (pieces length prev ms).filterMap Piece.position? =
      (List.range' prev (length - prev)).filter fun i => ∀ m ∈ ms, ¬ m.Covers i := by
  induction ms generalizing prev with
  | nil =>
    unfold pieces
    rw [filterMap_kept, List.filter_eq_self.mpr fun i _ => decide_eq_true nofun]
  | cons m ms ih =>
    obtain ⟨hfirst, hrest⟩ := List.pairwise_cons.mp hapart
    obtain ⟨hvalid, hstop⟩ := hwithin m List.mem_cons_self
    have hstart := hprev m List.mem_cons_self
    have hrange : List.range' prev (length - prev) =
        List.range' prev (m.start - prev) ++ (List.range' m.start (m.stop - m.start) ++
          List.range' m.stop (length - m.stop)) := by
      have hmid := List.range'_append_1 (s := m.start) (m := m.stop - m.start)
        (n := length - m.stop)
      have hall := List.range'_append_1 (s := prev) (m := m.start - prev)
        (n := length - m.start)
      rw [show m.start + (m.stop - m.start) = m.stop by omega,
        show m.stop - m.start + (length - m.stop) = length - m.start by omega] at hmid
      rw [show prev + (m.start - prev) = m.start by omega,
        show m.start - prev + (length - m.start) = length - prev by omega] at hall
      rw [hmid, hall]
    -- up to the match nothing is covered, in it all is, and beyond it only what others cover
    have hbefore : (List.range' prev (m.start - prev)).filter
        (fun i => ∀ m' ∈ m :: ms, ¬ m'.Covers i) = List.range' prev (m.start - prev) := by
      refine List.filter_eq_self.mpr fun i hi => decide_eq_true fun m' hm' hcovers => ?_
      have hi := List.mem_range'_1.mp hi
      rcases List.mem_cons.mp hm' with rfl | hm'
      · exact absurd hcovers.1 (by omega)
      · have hlater := hfirst m' hm'
        exact absurd hcovers.1 (by omega)
    have hwithin_m : (List.range' m.start (m.stop - m.start)).filter
        (fun i => ∀ m' ∈ m :: ms, ¬ m'.Covers i) = [] := by
      refine List.filter_eq_nil_iff.mpr fun i hi hnone => ?_
      have hi := List.mem_range'_1.mp hi
      exact of_decide_eq_true hnone m List.mem_cons_self ⟨hi.1, by omega⟩
    have hbeyond : (List.range' m.stop (length - m.stop)).filter
        (fun i => ∀ m' ∈ m :: ms, ¬ m'.Covers i) =
          (List.range' m.stop (length - m.stop)).filter fun i => ∀ m' ∈ ms, ¬ m'.Covers i := by
      refine List.filter_congr fun i hi => decide_eq_decide.mpr ?_
      have hi := List.mem_range'_1.mp hi
      refine ⟨fun h m' hm' => h m' (List.mem_cons_of_mem m hm'), fun h m' hm' => ?_⟩
      rcases List.mem_cons.mp hm' with rfl | hm'
      · exact fun hcovers => absurd hcovers.2 (by omega)
      · exact h m' hm'
    unfold pieces
    rw [hrange, List.filter_append, List.filter_append, hbefore, hwithin_m, hbeyond,
      List.filterMap_append, filterMap_kept, List.nil_append]
    exact congrArg _ (ih m.stop (fun m' hm' => hwithin m' (List.mem_cons_of_mem m hm')) hrest
      hfirst hstop)

end Pieces

/-! ## Scrubbing -/

/-- The output has every character that no match covers, and no other: the redacted spans are apart,
and of two matches that overlap the longer one is redacted, and the shorter one not. -/
structure Scrubbed (original : Str) (found : List RedactedMatch) (output : Str)
    (findings : List RedactedMatch) : Prop where
  output_eq : output = (pieces original.length 0 findings).flatMap (Piece.text original)
  kept_eq : (pieces original.length 0 findings).filterMap Piece.position? =
    uncovered original.length found
  apart : findings.Pairwise (·.stop ≤ ·.start)
  longer : ∀ m ∈ found, ∀ m' ∈ found, m.Overlap m' → m'.Shorter m →
    (∃ f ∈ findings, f.SameSpan m) ∧ ∀ f ∈ findings, ¬ f.SameSpan m'

section Scrub

variable (R : ManifestRuntime φ δ)

/-- The matches of all types in the text. -/
def foundMatches (piiStrict : Bool) (text : Str) : Except PyError (List RedactedMatch) := do
  let patterns := defaultPatterns ++ if piiStrict then strictPatterns else []
  let found ← patterns.mapM (patternMatches R text)
  return found.flatten

/-- The patterns match nowhere outside the text, and no pattern matches the empty text. -/
def FindsSpans : Prop :=
  ∀ pattern ∈ defaultPatterns ++ strictPatterns, ∀ text spans,
    R.finditer pattern.2 text = .ok spans →
      ∀ span ∈ spans, span.1 < span.2 ∧ span.2 ≤ text.length

/-- Matches that are apart, such that any other match lies in one of them or in two that adjoin, and
overlaps no shorter match. -/
structure InRows (found rows : List RedactedMatch) : Prop where
  subset : ∀ r ∈ rows, r ∈ found
  apart : rows.Pairwise (·.stop ≤ ·.start)
  other : ∀ m ∈ found, (∃ r ∈ rows, r.SameSpan m) ∨
    (∃ r ∈ rows, ∃ r' ∈ rows, (r = r' ∨ r.stop = r'.start) ∧
      r.start ≤ m.start ∧ m.stop ≤ r'.stop) ∧
    ∀ m' ∈ found, m.Overlap m' → ¬ m'.Shorter m

variable {R} {piiStrict : Bool} {text : Str} {found rows : List RedactedMatch}

theorem within_of_foundMatches (hspans : FindsSpans R)
    (hfound : foundMatches R piiStrict text = .ok found) :
    ∀ m ∈ found, m.start < m.stop ∧ m.stop ≤ text.length := by
  unfold foundMatches at hfound
  obtain ⟨lists, hlists, hfound⟩ := bind_eq_ok_iff.mp hfound
  cases hfound
  intro m hm
  obtain ⟨l, hl, hml⟩ := List.mem_flatten.mp hm
  rw [mapM_eq_ok_iff] at hlists
  have hmem : Except.ok l ∈ List.map _ _ := hlists ▸ List.mem_map_of_mem hl
  obtain ⟨pattern, hpattern, hl⟩ := List.mem_map.mp hmem
  unfold patternMatches at hl
  obtain ⟨spans, hfind, hl⟩ := bind_eq_ok_iff.mp hl
  cases hl
  obtain ⟨span, hspan, rfl⟩ := List.mem_map.mp (List.mem_of_mem_filter hml)
  refine hspans pattern ?_ text spans hfind span hspan
  cases piiStrict with
  | true => exact hpattern
  | false => exact List.mem_append_left _ (List.append_nil defaultPatterns ▸ hpattern)

theorem selectMatches_eq (cursor : Nat) (ms : List RedactedMatch) :
    selectMatches cursor ms = Greedy.select RedactedMatch.start RedactedMatch.stop cursor ms := by
  induction ms generalizing cursor with
  | nil => rfl
  | cons m ms ih =>
    unfold selectMatches Greedy.select
    rw [ih, ih]

theorem sorted_mergeSort_matchLe (h : ∀ m ∈ found, m.start < m.stop) :
    (found.mergeSort matchLe).Pairwise
      (Greedy.Before RedactedMatch.start RedactedMatch.stop) := by
  have hsorted : (found.mergeSort matchLe).Pairwise (matchLe · · = true) := by
    refine List.pairwise_mergeSort (fun a b c hab hbc => ?_) (fun a b => ?_) found
    · simp only [matchLe, Bool.or_eq_true, Bool.and_eq_true, decide_eq_true_eq] at hab hbc ⊢
      omega
    · simp only [matchLe, Bool.or_eq_true, Bool.and_eq_true, decide_eq_true_eq]
      omega
  refine hsorted.imp_of_mem fun {a b} ha hb hle => ?_
  have ha := h a (List.mem_mergeSort.mp ha)
  have hb := h b (List.mem_mergeSort.mp hb)
  simp only [matchLe, Bool.or_eq_true, Bool.and_eq_true, decide_eq_true_eq] at hle
  unfold Greedy.Before
  omega

theorem settles_of_inRows (h : InRows found rows) :
    Greedy.Settles RedactedMatch.start RedactedMatch.stop found rows where
  subset := h.subset
  apart := h.apart
  whole m hm i hi := by
    rcases h.other m hm with ⟨r, hr, hspan⟩ | ⟨⟨r, hr, r', hr', hadjoin, hstart, hstop⟩, -⟩
    · exact ⟨r, hr, hspan.1.trans_le hi.1, hi.2.trans_eq hspan.2.symm⟩
    · by_cases hlt : i < r.stop
      · exact ⟨r, hr, hstart.trans hi.1, hlt⟩
      · refine ⟨r', hr', ?_, hi.2.trans_le hstop⟩
        rcases hadjoin with rfl | hadjoin
        · exact hstart.trans hi.1
        · rw [← hadjoin]
          exact Nat.le_of_not_lt hlt
  longer m hm m' hm' hoverlap hshorter := by
    rcases h.other m hm with hrow | ⟨-, hnone⟩
    · exact hrow
    · exact absurd hshorter (hnone m' hm' hoverlap)

/-- A third row across a match would be shorter than the match. -/
theorem inRows_of_settles (hvalid : ∀ m ∈ found, m.start < m.stop)
    (h : Greedy.Settles RedactedMatch.start RedactedMatch.stop found rows) :
    InRows found rows where
  subset := h.subset
  apart := h.apart
  other m hm := by
    by_cases hshort : ∃ m' ∈ found, m.Overlap m' ∧ m'.Shorter m
    · obtain ⟨m', hm', hoverlap, hshorter⟩ := hshort
      exact .inl (h.longer m hm m' hm' hoverlap hshorter)
    refine .inr ⟨?_, fun m' hm' hoverlap hshorter => hshort ⟨m', hm', hoverlap, hshorter⟩⟩
    have hm_lt := hvalid m hm
    obtain ⟨r, hr, hrcovers⟩ := h.whole m hm m.start ⟨Nat.le_refl _, hm_lt⟩
    by_cases hinside : m.stop ≤ r.stop
    · exact ⟨r, hr, r, hr, .inl rfl, hrcovers.1, hinside⟩
    obtain ⟨hrstart, hrstop⟩ := hrcovers
    obtain ⟨u, hu, hucovers⟩ := h.whole m hm r.stop ⟨hrstop.le, by omega⟩
    have hu_lt := hvalid u (h.subset u hu)
    have hadjoin : r.stop = u.start := by
      refine Nat.le_antisymm (Nat.le_of_not_lt fun hlt => ?_) hucovers.1
      have hspan := Greedy.sameSpan_of_covers h.apart hr hu (i := r.stop - 1)
        ⟨by omega, by omega⟩ ⟨by omega, by have := hucovers.2; omega⟩
      exact absurd hucovers.2 (hspan.2 ▸ Nat.lt_irrefl _)
    refine ⟨r, hr, u, hu, .inr hadjoin, hrstart, Nat.le_of_not_lt fun hlt => hshort ?_⟩
    have hoverlap : m.Overlap u :=
      ⟨u.start, ⟨by omega, by omega⟩, Nat.le_refl _, hu_lt⟩
    refine ⟨u, h.subset u hu, hoverlap, ?_⟩
    change u.stop - u.start < m.stop - m.start
    omega

/-- Scrubbing is right exactly if the spans it redacts settle the matches. -/
theorem scrubbed_iff_settles (hwithin : ∀ m ∈ found, m.start < m.stop ∧ m.stop ≤ text.length)
    (hsubset : ∀ r ∈ rows, r ∈ found) (hapart : rows.Pairwise (·.stop ≤ ·.start)) :
    Scrubbed text found (redact text 0 rows) rows ↔
      Greedy.Settles RedactedMatch.start RedactedMatch.stop found rows := by
  have hkept := position_pieces text.length 0
    (fun r hr => ⟨(hwithin r (hsubset r hr)).1.le, (hwithin r (hsubset r hr)).2⟩) hapart
    (fun _ _ => Nat.zero_le _) (Nat.zero_le _)
  rw [Nat.sub_zero, ← List.range_eq_range'] at hkept
  constructor
  · intro h
    refine ⟨hsubset, hapart, fun m hm i hi => ?_, fun m hm m' hm' hoverlap hshorter =>
      (h.longer m hm m' hm' hoverlap hshorter).1⟩
    by_contra hnone
    have hi_lt : i < text.length := hi.2.trans_le (hwithin m hm).2
    have hmem : i ∈ (List.range text.length).filter fun i => ∀ r ∈ rows, ¬ r.Covers i :=
      List.mem_filter.mpr ⟨List.mem_range.mpr hi_lt,
        decide_eq_true fun r hr hcovers => hnone ⟨r, hr, hcovers⟩⟩
    rw [← hkept, h.kept_eq] at hmem
    exact of_decide_eq_true (List.mem_filter.mp hmem).2 m hm hi
  · intro h
    refine ⟨redact_eq text 0 rows, ?_, hapart, fun m hm m' hm' hoverlap hshorter => ?_⟩
    · rw [hkept]
      refine List.filter_congr fun i _ => decide_eq_decide.mpr ?_
      refine ⟨fun hnone m hm hcovers => ?_, fun hnone r hr => hnone r (hsubset r hr)⟩
      obtain ⟨r, hr, hr_covers⟩ := h.whole m hm i hcovers
      exact hnone r hr hr_covers
    · obtain ⟨f, hf, hspan⟩ := h.longer m hm m' hm' hoverlap hshorter
      refine ⟨⟨f, hf, hspan⟩, fun f' hf' hspan' => ?_⟩
      -- two redacted spans that overlap would be the same
      obtain ⟨i, hi, hi'⟩ := hoverlap
      have hsame := Greedy.sameSpan_of_covers hapart hf hf' (i := i)
        ⟨hspan.1.trans_le hi.1, hi.2.trans_eq hspan.2.symm⟩
        ⟨hspan'.1.trans_le hi'.1, hi'.2.trans_eq hspan'.2.symm⟩
      have hstart : m.start = m'.start := hspan.1.symm.trans (hsame.1.trans hspan'.1)
      have hstop : m.stop = m'.stop := hspan.2.symm.trans (hsame.2.trans hspan'.2)
      change m'.stop - m'.start < m.stop - m.start at hshorter
      omega

theorem scrub_eq_ok (hfound : foundMatches R piiStrict text = .ok found) :
    scrub R piiStrict text =
      let selected := selectMatches 0 (found.mergeSort matchLe)
      .ok (redact text 0 selected, selected) := by
  unfold foundMatches at hfound
  obtain ⟨lists, hlists, hfound⟩ := bind_eq_ok_iff.mp hfound
  cases hfound
  unfold scrub
  dsimp only
  rw [hlists]
  rfl

/-- Scrubbing is right exactly if some of the matches are rows for the others. -/
theorem scrub_complete_iff (R : ManifestRuntime φ δ) (hspans : FindsSpans R) {piiStrict : Bool}
    {text : Str} {found : List RedactedMatch}
    (hfound : foundMatches R piiStrict text = .ok found) :
    (∃ output findings, scrub R piiStrict text = .ok (output, findings) ∧
        Scrubbed text found output findings) ↔
      ∃ rows, InRows found rows := by
  have hwithin := within_of_foundMatches hspans hfound
  have hvalid : ∀ m ∈ found, m.start < m.stop := fun m hm => (hwithin m hm).1
  have hsettles : Greedy.Settles RedactedMatch.start RedactedMatch.stop found
      (selectMatches 0 (found.mergeSort matchLe)) ↔ ∃ rows, InRows found rows := by
    have hmem : ∀ m, m ∈ found.mergeSort matchLe ↔ m ∈ found := fun m => List.mem_mergeSort
    rw [selectMatches_eq, ← Greedy.settles_congr hmem, Greedy.settles_select_iff
      (sorted_mergeSort_matchLe hvalid) fun m hm => (hvalid m ((hmem m).mp hm)).le]
    exact exists_congr fun rows => (Greedy.settles_congr hmem).trans
      ⟨inRows_of_settles hvalid, settles_of_inRows⟩
  have hsubset : ∀ r ∈ selectMatches 0 (found.mergeSort matchLe), r ∈ found := fun r hr => by
    rw [selectMatches_eq] at hr
    exact List.mem_mergeSort.mp (Greedy.select_sublist.subset hr)
  have hapart : (selectMatches 0 (found.mergeSort matchLe)).Pairwise (·.stop ≤ ·.start) := by
    rw [selectMatches_eq]
    exact Greedy.select_apart fun m hm => (hvalid m (List.mem_mergeSort.mp hm)).le
  rw [← hsettles, ← scrubbed_iff_settles hwithin hsubset hapart, scrub_eq_ok hfound]
  constructor
  · rintro ⟨_, _, heq, h⟩
    cases heq
    exact h
  · exact fun h => ⟨_, _, rfl, h⟩

end Scrub

/-! ## Overlapping matches -/

section Example

/-- One text, with the matches of two patterns in it. -/
private def findsIn (original : Str) (email other : Str × Nat × Nat) :
    ManifestRuntime WholeFloat Unit :=
  { quietRuntime with
    finditer := fun pattern text =>
      if text ≠ original then .ok []
      else .ok ([email, other].filterMap fun m => if m.1 = pattern then some m.2 else none) }

private def emailPattern : Str :=
  lit "\\b[A-Za-z0-9._%+\\-]+@[A-Za-z0-9.\\-]+\\.[A-Za-z]\x7b2,\x7d\\b"

/-- An address at an internal host: one match is in the other. -/
private def hostRuntime : ManifestRuntime WholeFloat Unit :=
  findsIn (lit "user@db.internal") (emailPattern, 0, 16)
    (lit "\\b[a-z0-9][a-z0-9\\-]*\\.(?:internal|local|corp|intranet|svc\\.cluster\\.local)\\b",
      5, 16)

/-- A signature that goes on as an address. -/
private def sasText : Str := lit "?sig=AAAAAAAAAAAAAAAAAAAA@example.com"

private def sasRuntime : ManifestRuntime WholeFloat Unit :=
  findsIn sasText (emailPattern, 5, 37) (lit "[?&]sig=[A-Za-z0-9%/+]\x7b20,\x7d", 0, 25)

private theorem findsSpans_findsIn {original : Str} {email other : Str × Nat × Nat}
    (hemail : email.2.1 < email.2.2 ∧ email.2.2 ≤ original.length)
    (hother : other.2.1 < other.2.2 ∧ other.2.2 ≤ original.length) :
    FindsSpans (findsIn original email other) := by
  intro pattern _ text spans hfind span hspan
  unfold findsIn at hfind
  dsimp only at hfind
  split at hfind
  · cases hfind
    cases hspan
  · next htext =>
    cases hfind
    obtain rfl : text = original := not_not.mp htext
    obtain ⟨m, hm, hspan⟩ := List.mem_filterMap.mp hspan
    have hbounds : m.2.1 < m.2.2 ∧ m.2.2 ≤ text.length := by
      rcases List.mem_cons.mp hm with rfl | hm
      · exact hemail
      · rw [List.mem_singleton.mp hm]
        exact hother
    split at hspan
    · cases hspan
      exact hbounds
    · cases hspan

private def hostMatches : List RedactedMatch :=
  [⟨lit "email", 0, 16⟩, ⟨lit "internal_hostname", 5, 16⟩]

private theorem hostMatches_found :
    foundMatches hostRuntime false (lit "user@db.internal") = .ok hostMatches := rfl

theorem scrub_complete_host : ∃ output findings,
    scrub hostRuntime false (lit "user@db.internal") = .ok (output, findings) ∧
      Scrubbed (lit "user@db.internal") hostMatches output findings := by
  refine (scrub_complete_iff hostRuntime
    (findsSpans_findsIn (by decide) (by decide)) hostMatches_found).mpr
    ⟨[⟨lit "email", 0, 16⟩], ?_, List.pairwise_singleton _ _, ?_⟩
  · exact fun r hr => List.mem_cons.mpr (.inl (List.mem_singleton.mp hr))
  · intro m hm
    rcases List.mem_cons.mp hm with rfl | hm
    · exact .inl ⟨_, List.mem_singleton_self _, rfl, rfl⟩
    · rw [List.mem_singleton.mp hm]
      refine .inr ⟨⟨_, List.mem_singleton_self _, _, List.mem_singleton_self _, .inl rfl,
        by decide, by decide⟩, fun m' hm' _ => ?_⟩
      rcases List.mem_cons.mp hm' with rfl | hm'
      · exact (by decide : ¬ 16 - 0 < 16 - 5)
      · rw [List.mem_singleton.mp hm']
        exact Nat.lt_irrefl _

private def sasMatches : List RedactedMatch :=
  [⟨lit "email", 5, 37⟩, ⟨lit "azure_sas", 0, 25⟩]

private theorem mergeSort_sasMatches : sasMatches.mergeSort matchLe =
    [⟨lit "azure_sas", 0, 25⟩, ⟨lit "email", 5, 37⟩] := by
  simp [sasMatches, List.mergeSort, List.MergeSort.Internal.splitInTwo, matchLe]

/-- The address is longer than the signature, and yet stays in part. -/
theorem sasText_leaks : ∃ findings, foundMatches sasRuntime false sasText = .ok sasMatches ∧
    scrub sasRuntime false sasText = .ok (lit "[REDACTED:azure_sas]@example.com", findings) ∧
      ¬ Scrubbed sasText sasMatches (lit "[REDACTED:azure_sas]@example.com") findings := by
  have hfound : foundMatches sasRuntime false sasText = .ok sasMatches := rfl
  refine ⟨[⟨lit "azure_sas", 0, 25⟩], hfound, ?_, fun h => ?_⟩
  · rw [scrub_eq_ok hfound, mergeSort_sasMatches]
    rfl
  obtain ⟨⟨f, hf, hspan⟩, -⟩ := h.longer ⟨lit "email", 5, 37⟩ List.mem_cons_self
    ⟨lit "azure_sas", 0, 25⟩ (List.mem_cons_of_mem _ (List.mem_singleton_self _))
    ⟨5, ⟨by decide, by decide⟩, by decide, by decide⟩ (by decide : 25 - 0 < 37 - 5)
  rw [List.mem_singleton.mp hf] at hspan
  cases hspan.1

end Example

end CosaiMcp.Scan
