import CosaiMcp.Py.JsonGrammar
import CosaiMcp.Transport.LegacySse

/-!
# The framing of server-sent events

An event carries the text of a message in its data lines, joined by line feeds. Both readers of the
harness keep the last of these lines and forget the others. The lines come from `aiter_lines`, which
ends them wherever `str.splitlines` does, also at characters that JSON and the format allow within a
line. So a message gets through if its data line does not come apart and the others are blank, and
only then, as long as nothing behind such a character is taken for a line (`framing_decoded`).
-/

namespace CosaiMcp.Transport

open Py

variable {φ : Type} [FloatText φ]

/-! ## Streams -/

inductive LineEnd where
  | crlf
  | cr
  | lf

def LineEnd.text : LineEnd → Str
  | .crlf => [13, 10]
  | .cr => [13]
  | .lf => [10]

/-- No empty line with a line feed stands behind a carriage return, which would be one line end. -/
def EndsApart : List (Str × LineEnd) → Prop
  | [] => True
  | [_] => True
  | l :: m :: ls => ¬ (l.2 = .cr ∧ m = ([], .lf)) ∧ EndsApart (m :: ls)

/-- The body of a response is these lines, each with a line end. -/
structure Sends (lines : List Str) (body : Bytes) : Prop where
  sent : ∃ ls : List (Str × LineEnd), ls.map Prod.fst = lines ∧
    (∀ l ∈ ls, ∀ c ∈ l.1, c ≠ 10 ∧ c ≠ 13) ∧ EndsApart ls ∧
      encodeUtf8 (ls.flatMap fun l => l.1 ++ l.2.text) = some body

/-- `aiter_lines` splits the text of a body like `str.splitlines`. -/
def SplitsLines (aiterLines : Bytes → List Str) : Prop :=
  ∀ text body, encodeUtf8 text = some body → aiterLines body = splitlines text

theorem splitlines_end {e : LineEnd} {s : Str} (h : e = .cr → ∀ t, s ≠ 10 :: t) :
    splitlines (e.text ++ s) = [] :: splitlines s := by
  cases e with
  | crlf => rfl
  | cr => exact splitlines_cons fun _ => h rfl
  | lf => exact splitlines_cons fun h => absurd h (by decide)

theorem splitlines_lines {ls : List (Str × LineEnd)} (hends : EndsApart ls)
    (hls : ∀ l ∈ ls, ∀ c ∈ l.1, c ≠ 10 ∧ c ≠ 13) :
    splitlines (ls.flatMap fun l => l.1 ++ l.2.text) = (ls.map Prod.fst).flatMap pieces := by
  induction ls with
  | nil => rfl
  | cons l ls ih =>
    obtain ⟨hl, hrest⟩ := List.forall_mem_cons.mp hls
    have hapart : EndsApart ls := by
      cases ls with
      | nil => trivial
      | cons m ls => exact hends.2
    have hnext : l.2 = .cr → ∀ t, ls.flatMap (fun l => l.1 ++ l.2.text) ≠ 10 :: t := by
      intro hcr t ht
      cases ls with
      | nil => cases ht
      | cons m ls =>
        obtain ⟨x, e⟩ := m
        cases x with
        | nil =>
          cases e with
          | crlf => cases ht
          | cr => cases ht
          | lf => exact hends.1 ⟨hcr, rfl⟩
        | cons c x =>
          have hc := (hrest _ List.mem_cons_self c List.mem_cons_self).1
          exact hc (List.cons.inj ht).1
    rw [List.flatMap_cons, List.append_assoc, splitlines_append_end hl (splitlines_end hnext),
      ih hapart hrest, List.map_cons, List.flatMap_cons]

/-- What `aiter_lines` makes of the lines that are sent. -/
theorem SplitsLines.sends {aiterLines : Bytes → List Str} (h : SplitsLines aiterLines)
    {lines : List Str} {body : Bytes} (hsends : Sends lines body) :
    aiterLines body = lines.flatMap pieces := by
  obtain ⟨ls, rfl, hls, hends, hbody⟩ := hsends
  rw [h _ _ hbody, splitlines_lines hends hls]

/-! ## Encodings -/

def fieldNames : List Str := [lit "event", lit "id", lit "retry"]

/-- A comment, or a field other than the data. -/
def IsSilent (l : Str) : Prop :=
  startsWith l (lit ":") = true ∨
    ∃ name ∈ fieldNames, l = name ∨ startsWith l (name ++ lit ":") = true

def IsData (l : Str) : Prop := l = lit "data" ∨ startsWith l (lit "data:") = true

instance (l : Str) : Decidable (IsSilent l) :=
  inferInstanceAs (Decidable (_ ∨ ∃ name ∈ fieldNames, _ ∨ _))

instance (l : Str) : Decidable (IsData l) := inferInstanceAs (Decidable (_ ∨ _))

/-- An event that carries the text of a message, after comments, fields and empty lines. -/
structure Encoding (φ : Type) [FloatText φ] where
  message : List (Str × Json φ)
  silence : List Str
  silent : ∀ l ∈ silence, l = [] ∨ IsSilent l
  lines : List Str
  fields : ∀ l ∈ lines, IsSilent l ∨ IsData l
  ends : ∀ l ∈ silence ++ lines, ∀ c ∈ l, c ≠ 10 ∧ c ≠ 13
  reads : loads ((lit "\n").intercalate (lines.filterMap fieldData?)) = some (.obj message)

namespace Encoding

def wire (e : Encoding φ) : List Str := e.silence ++ (e.lines ++ [[]])

/-- The lines of the event that a reader takes to carry data. -/
def dataLines (e : Encoding φ) : List Str := e.lines.filter (startsWith · (lit "data:"))

/-- The message is on one line: what the others carry is blank. -/
def OnOneLine (e : Encoding φ) : Prop := ∀ l ∈ e.dataLines.dropLast, IsBlank (l.drop 5)

/-- No data line has a line separator other than carriage returns and line feeds. -/
def Unsplit (e : Encoding φ) : Prop := ∀ l ∈ e.dataLines, IsLine l

/-- Behind such a separator of some line there is text that a reader takes for a data line or for a
blank one. -/
def Injects (e : Encoding φ) : Prop :=
  ∃ l ∈ e.silence ++ e.lines, ∃ s ∈ strays l,
    startsWith (strip s) (lit "data:") = true ∨ strip s = []

/-- The readers take the message, and nothing else, from the event. -/
def Decodable (e : Encoding φ) : Prop := e.OnOneLine ∧ e.Unsplit ∧ ¬ e.Injects

instance (e : Encoding φ) : Decidable e.OnOneLine :=
  inferInstanceAs (Decidable (∀ l ∈ e.dataLines.dropLast, IsBlank (l.drop 5)))

instance (e : Encoding φ) : Decidable e.Unsplit :=
  inferInstanceAs (Decidable (∀ l ∈ e.dataLines, ∀ c ∈ l, isLineBreak c = false))

section IsLine

variable {e : Encoding φ} (h : ∀ l ∈ e.silence ++ e.lines, IsLine l)

include h

theorem not_injects_of_isLine : ¬ e.Injects := by
  rintro ⟨l, hl, s, hs, -⟩
  rw [strays_of_isLine (h l hl)] at hs
  cases hs

/-- Without such separators, the message must be on one line. -/
theorem decodable_iff_of_isLine : e.Decodable ↔ e.OnOneLine := by
  refine and_iff_left ⟨fun l hl => ?_, not_injects_of_isLine h⟩
  exact h l (List.mem_append_right _ (List.mem_filter.mp hl).1)

end IsLine

end Encoding

/-! ## White space -/

theorem isSpace_of_isBlank {w : Str} (hw : IsBlank w) : ∀ c ∈ w, isSpace c = true := by
  intro c hc
  have h := hw c hc
  simp only [isJsonSpace, Bool.or_eq_true, beq_iff_eq] at h
  rcases h with ((rfl | rfl) | rfl) | rfl <;> rfl

theorem isNeutral_of_isSpace {c : CodePoint} (h : isSpace c = true)
    (hc : isLineBreak c = false) : Place.isNeutral c = true := by
  have hne : ∀ k : CodePoint, isSpace k = false → c ≠ k := fun k hk he => by
    rw [he, hk] at h
    cases h
  simp [Place.isNeutral, isStrayBreak, hc, hne 34 rfl, hne 123 rfl, hne 125 rfl, hne 91 rfl,
    hne 93 rfl]

theorem isLine_of_isBlank {w : Str} (hw : IsBlank w) (hends : ∀ c ∈ w, c ≠ 10 ∧ c ≠ 13) :
    IsLine w := by
  intro c hc
  have h := hw c hc
  have hend := hends c hc
  simp only [isJsonSpace, Bool.or_eq_true, beq_iff_eq, hend.1, hend.2, or_false] at h
  rcases h with rfl | rfl <;> rfl

/-! ## The lines of an event -/

section Lines

variable {l : Str} {ls pre post : List Str}

theorem head_of_isSilent (h : IsSilent l) :
    ∃ c s, l = c :: s ∧ isSpace c = false ∧ c ≠ 100 := by
  have hhead : ∀ {name : Str} {c : CodePoint} {s : Str}, name = c :: s →
      startsWith l name = true → ∃ s', l = c :: s' := by
    rintro name c s rfl hstarts
    obtain ⟨t, rfl⟩ := List.isPrefixOf_iff_prefix.mp hstarts
    exact ⟨s ++ t, rfl⟩
  rcases h with h | ⟨name, hname, h⟩
  · obtain ⟨s, rfl⟩ := hhead rfl h
    exact ⟨_, s, rfl, by decide, by decide⟩
  · have hnames : ∃ c s, name = c :: s ∧ isSpace c = false ∧ c ≠ 100 := by
      simp only [fieldNames, List.mem_cons, List.not_mem_nil, or_false] at hname
      rcases hname with rfl | rfl | rfl <;> exact ⟨_, _, rfl, by decide, by decide⟩
    obtain ⟨c, s, rfl, hc⟩ := hnames
    rcases h with rfl | h
    · exact ⟨c, s, rfl, hc⟩
    · obtain ⟨s', rfl⟩ := hhead (List.cons_append ..) h
      exact ⟨c, s', rfl, hc⟩

theorem not_startsWith_data {c : CodePoint} (hc : c ≠ 100) (s : Str) :
    startsWith (c :: s) (lit "data:") = false := by
  refine Bool.eq_false_iff.mpr fun h => ?_
  obtain ⟨t, ht⟩ := List.isPrefixOf_iff_prefix.mp h
  exact hc (List.cons.inj ht).1.symm

/-- A silent line carries nothing, by the format and to the readers. -/
theorem of_isSilent (h : IsSilent l) : lineData? l = none ∧ fieldData? l = none ∧ strip l ≠ [] ∧
    startsWith l (lit "data:") = false := by
  obtain ⟨c, s, rfl, hspace, hc⟩ := head_of_isSilent h
  obtain ⟨s', hstrip⟩ := strip_cons (s := s) hspace
  have hdata := not_startsWith_data hc s
  refine ⟨?_, ?_, ?_, hdata⟩
  · rw [lineData?, hstrip, not_startsWith_data hc s']
    rfl
  · have hne : c :: s ≠ lit "data" := fun heq => hc (List.cons.inj heq).1
    rw [fieldData?, if_neg hne, hdata]
    rfl
  · rw [hstrip]
    exact List.cons_ne_nil _ _

/-- The value of a data line is what follows the colon, without one space. -/
theorem fieldData?_data (v : Str) : ∃ value, fieldData? (lit "data:" ++ v) = some value ∧
    (v = value ∨ v = 32 :: value) := by
  have hne : lit "data:" ++ v ≠ lit "data" := fun h => by
    have hlength : 5 + v.length = 4 := List.length_append.symm.trans (congrArg List.length h)
    omega
  have hstarts : startsWith (lit "data:" ++ v) (lit "data:") = true :=
    List.isPrefixOf_iff_prefix.mpr (List.prefix_append _ _)
  have hdrop : (lit "data:" ++ v).drop 5 = v := rfl
  rw [fieldData?, if_neg hne, if_pos hstarts, hdrop]
  split
  · exact ⟨_, rfl, .inr rfl⟩
  · exact ⟨_, rfl, .inl rfl⟩

theorem strip_ne_nil_of_isData (h : IsData l) : strip l ≠ [] := by
  rcases h with rfl | h
  · decide
  · obtain ⟨v, rfl⟩ := List.isPrefixOf_iff_prefix.mp h
    obtain ⟨s', hstrip⟩ := strip_cons (c := 100) (s := lit "ata:" ++ v) rfl
    exact fun hnil => List.cons_ne_nil _ _ (hstrip.symm.trans hnil)

theorem strip_ne_nil_of_field (h : IsSilent l ∨ IsData l) : strip l ≠ [] :=
  h.elim (fun h => (of_isSilent h).2.2.1) strip_ne_nil_of_isData

/-- A line that is no data line with a colon carries nothing, or the empty text. -/
theorem of_not_startsWith (h : IsSilent l ∨ IsData l)
    (hstarts : startsWith l (lit "data:") = false) :
    lineData? l = none ∧ ∀ v ∈ fieldData? l, v = [] := by
  rcases h with h | rfl | h
  · obtain ⟨hline, hfield, -⟩ := of_isSilent h
    rw [hfield]
    exact ⟨hline, nofun⟩
  · exact ⟨by decide, fun v hv => (Option.some.inj hv).symm⟩
  · rw [hstarts] at h
    cases h

theorem lastData_append (hne : ∀ l ∈ ls, strip l ≠ []) (data : Option Str) (ms : List Str) :
    lastData data (ls ++ ms) = lastData (lastData data ls) ms := by
  induction ls generalizing data with
  | nil => rfl
  | cons l ls ih =>
    have hrest := ih fun m hm => hne m (List.mem_cons_of_mem l hm)
    rw [List.cons_append, lastData, lastData]
    cases lineData? l with
    | some d => exact hrest (some d)
    | none =>
      simp only [if_neg fun hc : data.isSome = true ∧ strip l = [] =>
        hne l List.mem_cons_self hc.2]
      exact hrest data

theorem lastData_eq_self (hne : ∀ l ∈ ls, strip l ≠ [] ∧ lineData? l = none)
    (data : Option Str) : lastData data ls = data := by
  induction ls with
  | nil => rfl
  | cons l ls ih =>
    obtain ⟨hstrip, hline⟩ := hne l List.mem_cons_self
    rw [lastData, hline]
    simp only [if_neg fun hc : data.isSome = true ∧ strip l = [] => hstrip hc.2]
    exact ih fun m hm => hne m (List.mem_cons_of_mem l hm)

theorem exists_lastLine (h : ∃ l ∈ ls, startsWith l (lit "data:") = true) :
    ∃ pre v post, ls = pre ++ (lit "data:" ++ v) :: post ∧
      ∀ l ∈ post, startsWith l (lit "data:") = false := by
  induction ls with
  | nil =>
    obtain ⟨l, hl, -⟩ := h
    cases hl
  | cons l ls ih =>
    by_cases hrest : ∃ m ∈ ls, startsWith m (lit "data:") = true
    · obtain ⟨pre, v, post, rfl, hpost⟩ := ih hrest
      exact ⟨l :: pre, v, post, rfl, hpost⟩
    · have hnone : ∀ m ∈ ls, startsWith m (lit "data:") = false := fun m hm =>
        Bool.eq_false_iff.mpr fun hdata => hrest ⟨m, hm, hdata⟩
      obtain ⟨m, hm, hdata⟩ := h
      rcases List.mem_cons.mp hm with rfl | hm
      · obtain ⟨v, rfl⟩ := List.isPrefixOf_iff_prefix.mp hdata
        exact ⟨[], v, ls, rfl, hnone⟩
      · exact absurd ⟨m, hm, hdata⟩ hrest

end Lines

/-! ## The text of an event -/

section Text

variable {x y value : Str} {xs ys : List Str} {ms : List (Str × Json φ)}

/-- Lines, each with a line feed. -/
def fed (xs : List Str) : Str := xs.flatMap (· ++ [10])

theorem isBlank_append : IsBlank (x ++ y) ↔ IsBlank x ∧ IsBlank y :=
  List.forall_mem_append

theorem isBlank_lineFeed : IsBlank [10] := by
  intro c hc
  obtain rfl := List.mem_singleton.mp hc
  rfl

theorem isBlank_fed : IsBlank (fed xs) ↔ ∀ x ∈ xs, IsBlank x := by
  induction xs with
  | nil => exact ⟨nofun, nofun⟩
  | cons x xs ih =>
    rw [fed, List.flatMap_cons, isBlank_append, isBlank_append, List.forall_mem_cons]
    exact and_congr (and_iff_left isBlank_lineFeed) ih

theorem intercalate_cons (x : Str) (ys : List Str) :
    (lit "\n").intercalate (x :: ys) = x ++ ys.flatMap (10 :: ·) := by
  induction ys generalizing x with
  | nil => simp
  | cons y ys ih =>
    rw [List.intercalate_cons_cons, ih, List.append_assoc]
    rfl

theorem intercalate_append (xs : List Str) (value : Str) (ys : List Str) :
    (lit "\n").intercalate (xs ++ value :: ys) =
      fed xs ++ (value ++ ys.flatMap (10 :: ·)) := by
  induction xs with
  | nil => exact intercalate_cons value ys
  | cons x xs ih =>
    obtain ⟨z, zs, hz⟩ : ∃ z zs, xs ++ value :: ys = z :: zs := by
      cases xs with
      | nil => exact ⟨_, _, rfl⟩
      | cons z zs => exact ⟨_, _, rfl⟩
    rw [List.cons_append, hz, List.intercalate_cons_cons, ← hz, ih, fed, fed, List.flatMap_cons,
      List.append_assoc, List.append_assoc, List.append_assoc]
    rfl

theorem not_loads_of_isBlank {j : Json φ} (hx : IsBlank x) : loads x ≠ some j := by
  intro h
  obtain ⟨w, t, w', rfl, -, ht, -⟩ := loads_eq_some_iff.mp h
  obtain ⟨c, t', rfl, hc, -⟩ := ht.head
  have hspace := hx c (List.mem_append_right _ List.mem_cons_self)
  rw [hc] at hspace
  cases hspace

theorem loads_object {t : Str} {fields : List (Str × Json φ)} (h : ValueText t (.obj fields)) :
    strip t = t ∧ loads t = some (.obj fields) := by
  obtain ⟨body, hbody, -⟩ := h.closes
  obtain ⟨t', ht'⟩ := h.ends
  refine ⟨strip_eq_self hbody ht'.symm rfl rfl, ?_⟩
  exact loads_eq_some_iff.mpr ⟨[], t, [], (List.append_nil t).symm, nofun, h, nofun⟩

/-- Between blank lines, the text of an object is on its line. -/
theorem loads_strip {fields : List (Str × Json φ)} (hx : IsBlank x) (hy : IsBlank y)
    (h : loads (x ++ (value ++ y)) = some (.obj fields)) :
    loads (strip value) = some (.obj fields) := by
  obtain ⟨w, t, w', heq, hw, ht, hw'⟩ := loads_eq_some_iff.mp h
  obtain ⟨hstrip, hloads⟩ := loads_object ht
  have hvalue : strip value = strip t := by
    rw [← strip_append (isSpace_of_isBlank hx) (isSpace_of_isBlank hy), heq,
      strip_append (isSpace_of_isBlank hw) (isSpace_of_isBlank hw')]
  rw [hvalue, hstrip, hloads]

/-- A line that reads as a value leads from each place back to it. -/
theorem after_of_loads_strip {j : Json φ} (hline : IsLine value) (h : loads (strip value) = some j)
    (d : Nat) : (Place.within d).after value = .within d := by
  obtain ⟨u, v, hvalue, hu, hv⟩ := exists_strip value
  have hneutral : ∀ c ∈ value, isSpace c = true → Place.isNeutral c = true := fun c hc hspace =>
    isNeutral_of_isSpace hspace (hline c hc)
  have hleft : ∀ c ∈ u, Place.isNeutral c = true := fun c hc =>
    hneutral c (hvalue ▸ List.mem_append_left _ hc) (hu c hc)
  have hright : ∀ c ∈ v, Place.isNeutral c = true := fun c hc =>
    hneutral c (hvalue ▸ List.mem_append_right _ (List.mem_append_right _ hc)) (hv c hc)
  rw [hvalue, Place.after_append, Place.after_neutral hleft, Place.after_append, after_loads h,
    Place.after_neutral hright]

theorem not_isBlank_of_loads_strip {j : Json φ} (h : loads (strip value) = some j) :
    ¬ IsBlank value := by
  intro hblank
  obtain ⟨u, v, hvalue, -, -⟩ := exists_strip value
  rw [hvalue] at hblank
  exact not_loads_of_isBlank (isBlank_append.mp (isBlank_append.mp hblank).2).1 h

/-- Behind a line that is not blank, what is left of the text of an object is no document. -/
theorem loads_strip_eq_none {fields : List (Str × Json φ)} (hline : IsLine value)
    (hxs : ¬ ∀ x ∈ xs, IsBlank x) (hy : IsBlank y)
    (h : loads (fed xs ++ (value ++ y)) = some (.obj fields)) :
    loads (φ := φ) (strip value) = none := by
  cases hread : loads (φ := φ) (strip value) with
  | none => rfl
  | some j =>
    refine absurd (isBlank_fed.mp ?_) hxs
    rcases List.eq_nil_or_concat xs with rfl | ⟨init, last, rfl⟩
    · exact nofun
    · have hfed : fed (init.concat last) = (fed init ++ last) ++ [10] := by
        simp [fed]
      rw [hfed, List.append_assoc] at h
      have hplace : ∀ d, (Place.within d).after (value ++ y) = .within d := fun d => by
        rw [Place.after_append, after_of_loads_strip hline hread, hy.after]
      have hblank : IsBlank (fed init ++ last) := blank_of_loads h hplace fun hblank =>
        not_isBlank_of_loads_strip hread ((isBlank_append (x := value)).mp hblank).1
      rw [hfed]
      exact isBlank_append.mpr ⟨hblank, isBlank_lineFeed⟩

/-- Behind line feeds a document is in no string. -/
theorem after_fed {s : Str} {j : Json φ} (h : loads (fed xs ++ s) = some j) :
    ∃ d, (Place.within 0).after (fed xs) = .within d := by
  rcases List.eq_nil_or_concat xs with rfl | ⟨init, last, rfl⟩
  · exact ⟨0, rfl⟩
  · have hfed : fed (init.concat last) = (fed init ++ last) ++ [10] := by
      simp [fed]
    have hafter := after_loads h 0
    rw [Place.after_append] at hafter
    rw [hfed, Place.after_append] at hafter ⊢
    change (((Place.within 0).after (fed init ++ last)).next 10).after s = _ at hafter
    rcases Place.next_lineFeed ((Place.within 0).after (fed init ++ last)) with hnext | ⟨d, -, hnext⟩
    · rw [hnext, Place.after_failed] at hafter
      cases hafter
    · exact ⟨d, hnext⟩

/-- The first piece of a line that comes apart within the text of an object is no document. -/
theorem loads_firstPiece_eq_none {j : Json φ} (hends : ∀ c ∈ value, c ≠ 10 ∧ c ≠ 13)
    (hline : ¬ IsLine value) (h : loads (fed xs ++ (value ++ y)) = some j) :
    loads (φ := φ) (strip (firstPiece value)) = none := by
  cases hread : loads (φ := φ) (strip (firstPiece value)) with
  | none => rfl
  | some i =>
    obtain ⟨c, s, hvalue, hc⟩ := exists_strayBreak hends hline
    obtain ⟨d, hd⟩ := after_fed h
    have htext : fed xs ++ (value ++ y) = (fed xs ++ firstPiece value) ++ c :: (s ++ y) := by
      conv_lhs => rw [hvalue]
      simp only [List.append_assoc, List.cons_append]
    rw [htext] at h
    refine absurd ?_ (not_within_of_loads h hc d)
    rw [Place.after_append, hd, after_of_loads_strip (isLine_firstPiece value) hread]

end Text

/-! ## Decoding -/

section Pieces

variable {l p : Str}

/-- The pieces of a line behind the first carry nothing and end nothing. -/
def Inert (l : Str) : Prop := ∀ s ∈ strays l, lineData? s = none ∧ strip s ≠ []

theorem startsWith_firstPiece (hp : IsLine p) : startsWith (firstPiece l) p = startsWith l p := by
  rw [Bool.eq_iff_iff, startsWith, startsWith, List.isPrefixOf_iff_prefix,
    List.isPrefixOf_iff_prefix]
  constructor
  · intro h
    exact h.trans (List.takeWhile_prefix _)
  · rintro ⟨s, rfl⟩
    rw [firstPiece_append hp]
    exact List.prefix_append p _

theorem isLine_fieldNames {name : Str} (h : name ∈ fieldNames) : IsLine name := by
  simp only [fieldNames, List.mem_cons, List.not_mem_nil, or_false] at h
  rcases h with rfl | rfl | rfl <;> exact isLine_of_all rfl

theorem isSilent_firstPiece (h : IsSilent l) : IsSilent (firstPiece l) := by
  rcases h with h | ⟨name, hname, h⟩
  · left
    rwa [startsWith_firstPiece (isLine_of_all rfl)]
  · have hline := isLine_fieldNames hname
    refine .inr ⟨name, hname, ?_⟩
    rcases h with rfl | h
    · exact .inl (firstPiece_eq_self hline)
    · right
      rwa [startsWith_firstPiece (isLine_append hline (isLine_of_all rfl))]

theorem isData_firstPiece (h : IsData l) : IsData (firstPiece l) := by
  rcases h with rfl | h
  · exact .inl rfl
  · right
    rwa [startsWith_firstPiece (isLine_of_all rfl)]

theorem field_firstPiece (h : IsSilent l ∨ IsData l) :
    IsSilent (firstPiece l) ∨ IsData (firstPiece l) :=
  h.imp isSilent_firstPiece isData_firstPiece

/-- No piece of a field is blank. -/
theorem strip_ne_nil_of_mem_pieces (h : IsSilent l ∨ IsData l) (hends : ∀ c ∈ l, c ≠ 10 ∧ c ≠ 13)
    (hinert : Inert l) : ∀ s ∈ pieces l, strip s ≠ [] := by
  rw [pieces_eq_cons hends]
  refine List.forall_mem_cons.mpr ⟨strip_ne_nil_of_field (field_firstPiece h), ?_⟩
  exact fun s hs => (hinert s hs).2

/-- No piece of a line without data carries data. -/
theorem lineData?_of_mem_pieces (h : IsSilent l ∨ IsData l)
    (hstarts : startsWith l (lit "data:") = false) (hends : ∀ c ∈ l, c ≠ 10 ∧ c ≠ 13)
    (hinert : Inert l) : ∀ s ∈ pieces l, lineData? s = none := by
  rw [pieces_eq_cons hends]
  refine List.forall_mem_cons.mpr ⟨?_, fun s hs => (hinert s hs).1⟩
  have hfirst : startsWith (firstPiece l) (lit "data:") = false := by
    rwa [startsWith_firstPiece (isLine_of_all rfl)]
  exact (of_not_startsWith (field_firstPiece h) hfirst).1

end Pieces

section Decode

variable {pre post : List Str} {v : Str}

theorem isBlank_fieldData {value : Str} (h : v = value ∨ v = 32 :: value) :
    IsBlank v ↔ IsBlank value := by
  rcases h with rfl | rfl
  · exact Iff.rfl
  · exact List.forall_mem_cons.trans (and_iff_right rfl)

theorem isLine_fieldData {value : Str} (h : v = value ∨ v = 32 :: value) :
    IsLine v ↔ IsLine value := by
  rcases h with rfl | rfl
  · exact Iff.rfl
  · exact List.forall_mem_cons.trans (and_iff_right rfl)

theorem strip_fieldData {value : Str} (h : v = value ∨ v = 32 :: value) :
    strip (firstPiece v) = strip (firstPiece value) := by
  rcases h with rfl | rfl
  · rfl
  · exact congrArg (fun s => (s.reverse.dropWhile isSpace).reverse)
      (List.dropWhile_cons_of_pos (p := isSpace) (a := 32) rfl)

theorem dataLines_eq (hpost : ∀ l ∈ post, startsWith l (lit "data:") = false) :
    (pre ++ (lit "data:" ++ v) :: post).filter (startsWith · (lit "data:")) =
      pre.filter (startsWith · (lit "data:")) ++ [lit "data:" ++ v] := by
  have hnone : post.filter (startsWith · (lit "data:")) = [] :=
    List.filter_eq_nil_iff.mpr fun l hl hstarts => by
      rw [hpost l hl] at hstarts
      cases hstarts
  have hstarts : startsWith (lit "data:" ++ v) (lit "data:") = true :=
    List.isPrefixOf_iff_prefix.mpr (List.prefix_append _ _)
  rw [List.filter_append, List.filter_cons, if_pos hstarts, hnone]

/-- The readers keep the last data line. -/
theorem lastData_data (hpre : ∀ l ∈ pre, strip l ≠ [])
    (hpost : ∀ l ∈ post, strip l ≠ [] ∧ lineData? l = none) :
    lastData none (pre ++ (lit "data:" ++ v) :: post) = some (strip v) := by
  rw [lastData_append hpre, lastData, lineData?_data]
  exact lastData_eq_self hpost _

/-- Blank values are those of blank data lines. -/
theorem isBlank_values (h : ∀ l ∈ pre, IsSilent l ∨ IsData l) :
    (∀ x ∈ pre.filterMap fieldData?, IsBlank x) ↔
      ∀ l ∈ pre.filter (startsWith · (lit "data:")), IsBlank (l.drop 5) := by
  simp only [List.mem_filterMap, List.mem_filter, forall_exists_index, and_imp]
  constructor
  · intro hvalues l hl hstarts
    obtain ⟨v, rfl⟩ := List.isPrefixOf_iff_prefix.mp hstarts
    obtain ⟨value, hvalue, hv⟩ := fieldData?_data v
    exact (isBlank_fieldData hv).mpr (hvalues value _ hl hvalue)
  · intro hlines x l hl hx
    by_cases hstarts : startsWith l (lit "data:") = true
    · obtain ⟨v, rfl⟩ := List.isPrefixOf_iff_prefix.mp hstarts
      obtain ⟨value, hvalue, hv⟩ := fieldData?_data v
      obtain rfl := Option.some.inj (hvalue.symm.trans hx)
      exact (isBlank_fieldData hv).mp (hlines _ hl hstarts)
    · have hnil := (of_not_startsWith (h l hl) (Bool.eq_false_iff.mpr hstarts)).2 x hx
      rw [hnil]
      exact nofun

/-- Blank data lines do not come apart. -/
theorem isLine_dataLine {l : Str} (hstarts : startsWith l (lit "data:") = true)
    (hblank : IsBlank (l.drop 5)) (hends : ∀ c ∈ l, c ≠ 10 ∧ c ≠ 13) : IsLine l := by
  obtain ⟨v, rfl⟩ := List.isPrefixOf_iff_prefix.mp hstarts
  refine isLine_append (isLine_of_all rfl) (isLine_of_isBlank hblank fun c hc => ?_)
  exact hends c (List.mem_append_right _ hc)

/-- Lines without data give no more than line feeds. -/
theorem isBlank_silent (h : ∀ l ∈ post, IsSilent l ∨ IsData l)
    (hpost : ∀ l ∈ post, startsWith l (lit "data:") = false) :
    IsBlank ((post.filterMap fieldData?).flatMap (10 :: ·)) := by
  intro c hc
  obtain ⟨x, hx, hc⟩ := List.mem_flatMap.mp hc
  obtain ⟨l, hl, hvalue⟩ := List.mem_filterMap.mp hx
  rw [(of_not_startsWith (h l hl) (hpost l hl)).2 x hvalue] at hc
  exact isBlank_lineFeed c hc

namespace Encoding

variable (e : Encoding φ)

theorem exists_data : ∃ l ∈ e.lines, startsWith l (lit "data:") = true := by
  by_contra hnone
  have hlines : ∀ l ∈ e.lines, startsWith l (lit "data:") = false := fun l hl =>
    Bool.eq_false_iff.mpr fun hdata => hnone ⟨l, hl, hdata⟩
  refine not_loads_of_isBlank ?_ e.reads
  have hsilent := isBlank_silent e.fields hlines
  cases hvalues : e.lines.filterMap fieldData? with
  | nil => exact nofun
  | cons x xs =>
    rw [hvalues, List.flatMap_cons] at hsilent
    rw [intercalate_cons]
    exact fun c hc => hsilent c (List.mem_cons_of_mem 10 hc)

/-- The lines that `aiter_lines` makes of those of the event. -/
def seenLines : List Str := e.lines.flatMap pieces

def seenSilence : List Str := e.silence.flatMap pieces

theorem ends_silence {l : Str} (hl : l ∈ e.silence) : ∀ c ∈ l, c ≠ 10 ∧ c ≠ 13 :=
  e.ends l (List.mem_append_left _ hl)

theorem ends_lines {l : Str} (hl : l ∈ e.lines) : ∀ c ∈ l, c ≠ 10 ∧ c ≠ 13 :=
  e.ends l (List.mem_append_right _ hl)

variable {e}

theorem inert (h : ¬ e.Injects) : ∀ l ∈ e.silence ++ e.lines, Inert l := by
  intro l hl s hs
  have hnot : ∀ hs' : startsWith (strip s) (lit "data:") = true ∨ strip s = [], False :=
    fun hs' => h ⟨l, hl, s, hs, hs'⟩
  rw [lineData?, if_neg fun hdata => hnot (.inl hdata)]
  exact ⟨rfl, fun hblank => hnot (.inr hblank)⟩

theorem inert_lines (h : ¬ e.Injects) {l : Str} (hl : l ∈ e.lines) : Inert l :=
  inert h l (List.mem_append_right _ hl)

theorem mem_seenLines {s : Str} (h : ¬ e.Injects) (hs : s ∈ e.seenLines) : strip s ≠ [] := by
  obtain ⟨l, hl, hs⟩ := List.mem_flatMap.mp hs
  exact strip_ne_nil_of_mem_pieces (e.fields l hl) (e.ends_lines hl) (inert_lines h hl) s hs

section LastLine

variable {pre post : List Str} {v value : Str}

/-- The readers keep the last data line, as far as its first separator. -/
theorem lastData_of_lines (hlines : e.lines = pre ++ (lit "data:" ++ v) :: post)
    (hpost : ∀ l ∈ post, startsWith l (lit "data:") = false) (h : ¬ e.Injects) :
    lastData none e.seenLines = some (strip (firstPiece v)) := by
  have hmem {l : Str} (hl : l ∈ pre ++ (lit "data:" ++ v) :: post) : l ∈ e.lines := hlines ▸ hl
  have hpre {l : Str} (hl : l ∈ pre) : l ∈ e.lines := hmem (List.mem_append_left _ hl)
  have hlast : lit "data:" ++ v ∈ e.lines := hmem (List.mem_append_right _ List.mem_cons_self)
  have hlater {l : Str} (hl : l ∈ post) : l ∈ e.lines :=
    hmem (List.mem_append_right _ (List.mem_cons_of_mem _ hl))
  have hpieces : pieces (lit "data:" ++ v) =
      (lit "data:" ++ firstPiece v) :: strays (lit "data:" ++ v) := by
    rw [pieces_eq_cons (e.ends_lines hlast), firstPiece_append (isLine_of_all rfl)]
  have hseen : e.seenLines = pre.flatMap pieces ++
      (lit "data:" ++ firstPiece v) :: (strays (lit "data:" ++ v) ++ post.flatMap pieces) := by
    rw [seenLines, hlines, List.flatMap_append, List.flatMap_cons, hpieces, List.cons_append]
  rw [hseen]
  refine lastData_data (fun s hs => ?_) fun s hs => ?_
  · obtain ⟨l, hl, hs⟩ := List.mem_flatMap.mp hs
    exact mem_seenLines h (List.mem_flatMap.mpr ⟨l, hpre hl, hs⟩)
  · rcases List.mem_append.mp hs with hs | hs
    · exact (inert_lines h hlast s hs).symm
    · obtain ⟨l, hl, hs⟩ := List.mem_flatMap.mp hs
      exact ⟨mem_seenLines h (List.mem_flatMap.mpr ⟨l, hlater hl, hs⟩),
        lineData?_of_mem_pieces (e.fields l (hlater hl)) (hpost l hl) (e.ends_lines (hlater hl))
          (inert_lines h (hlater hl)) s hs⟩

theorem dataLines_of_lines (hlines : e.lines = pre ++ (lit "data:" ++ v) :: post)
    (hpost : ∀ l ∈ post, startsWith l (lit "data:") = false) :
    e.dataLines = pre.filter (startsWith · (lit "data:")) ++ [lit "data:" ++ v] := by
  rw [dataLines, hlines, dataLines_eq hpost]

theorem onOneLine_iff (hlines : e.lines = pre ++ (lit "data:" ++ v) :: post)
    (hpost : ∀ l ∈ post, startsWith l (lit "data:") = false) :
    e.OnOneLine ↔ ∀ x ∈ pre.filterMap fieldData?, IsBlank x := by
  have hfields := hlines ▸ e.fields
  rw [OnOneLine, dataLines_of_lines hlines hpost, List.dropLast_concat,
    isBlank_values (List.forall_mem_append.mp hfields).1]

/-- Of an event on one line it is the last data line that may come apart. -/
theorem unsplit_iff (hlines : e.lines = pre ++ (lit "data:" ++ v) :: post)
    (hpost : ∀ l ∈ post, startsWith l (lit "data:") = false) (hv : v = value ∨ v = 32 :: value)
    (hone : e.OnOneLine) : e.Unsplit ↔ IsLine value := by
  have hdataLines := dataLines_of_lines hlines hpost
  rw [Unsplit, hdataLines]
  constructor
  · intro hunsplit
    have hline := hunsplit _ (List.mem_append_right _ (List.mem_singleton_self _))
    exact (isLine_fieldData hv).mp fun c hc => hline c (List.mem_append_right _ hc)
  · intro hline l hl
    rcases List.mem_append.mp hl with hl | hl
    · obtain ⟨hmem, hstarts⟩ := List.mem_filter.mp hl
      refine isLine_dataLine hstarts (hone l ?_) (e.ends_lines ?_)
      · rwa [hdataLines, List.dropLast_concat]
      · exact hlines ▸ List.mem_append_left _ hmem
    · rw [List.mem_singleton.mp hl]
      exact isLine_append (isLine_of_all rfl) ((isLine_fieldData hv).mpr hline)

end LastLine

/-- The line that the readers keep reads as the message if it has all of it, and as nothing else. -/
theorem lastData_seenLines (h : ¬ e.Injects) : ∃ d, lastData none e.seenLines = some d ∧
    loads d = if e.OnOneLine ∧ e.Unsplit then some (.obj e.message) else none := by
  obtain ⟨pre, v, post, hlines, hpost⟩ := exists_lastLine e.exists_data
  obtain ⟨value, hvalue, hv⟩ := fieldData?_data v
  have hends : ∀ c ∈ value, c ≠ 10 ∧ c ≠ 13 := fun c hc => by
    have hmem : lit "data:" ++ v ∈ e.lines :=
      hlines ▸ List.mem_append_right _ List.mem_cons_self
    refine e.ends_lines hmem c (List.mem_append_right _ ?_)
    rcases hv with rfl | rfl
    · exact hc
    · exact List.mem_cons_of_mem 32 hc
  refine ⟨strip (firstPiece value), ?_, ?_⟩
  · rw [lastData_of_lines hlines hpost h, strip_fieldData hv]
  have hone := onOneLine_iff hlines hpost
  have hreads := e.reads
  rw [hlines, List.filterMap_append, List.filterMap_cons_some hvalue, intercalate_append] at hreads
  have hblank := isBlank_silent (fun l hl => e.fields l (hlines ▸ List.mem_append_right _
    (List.mem_cons_of_mem _ hl))) hpost
  by_cases hline : IsLine value
  · rw [firstPiece_eq_self hline]
    by_cases honeLine : e.OnOneLine
    · rw [if_pos ⟨honeLine, (unsplit_iff hlines hpost hv honeLine).mpr hline⟩]
      exact loads_strip (isBlank_fed.mpr (hone.mp honeLine)) hblank hreads
    · rw [if_neg fun hboth => honeLine hboth.1]
      exact loads_strip_eq_none hline (mt hone.mpr honeLine) hblank hreads
  · rw [if_neg fun hboth => hline ((unsplit_iff hlines hpost hv hboth.1).mp hboth.2)]
    exact loads_firstPiece_eq_none hends hline hreads

theorem ne_nil_of_mem_seenLines (h : ¬ e.Injects) : ∀ s ∈ e.seenLines, s ≠ [] := by
  rintro s hs rfl
  exact mem_seenLines h hs rfl

theorem lineData?_seenSilence (h : ¬ e.Injects) : ∀ s ∈ e.seenSilence, lineData? s = none := by
  intro s hs
  obtain ⟨l, hl, hs⟩ := List.mem_flatMap.mp hs
  have hinert := inert h l (List.mem_append_left _ hl)
  rcases e.silent l hl with rfl | hsilent
  · rw [List.mem_singleton.mp hs]
    rfl
  · exact lineData?_of_mem_pieces (.inl hsilent) (of_isSilent hsilent).2.2.2 (e.ends_silence hl)
      hinert s hs

variable (e)

theorem exists_seenData : ∃ l ∈ e.seenLines, startsWith l (lit "data:") = true := by
  obtain ⟨l, hl, hdata⟩ := e.exists_data
  refine ⟨firstPiece l, List.mem_flatMap.mpr ⟨l, hl, ?_⟩, ?_⟩
  · rw [pieces_eq_cons (e.ends_lines hl)]
    exact List.mem_cons_self
  · rwa [startsWith_firstPiece (isLine_of_all rfl)]

/-- The event as the reader of a reply takes it. -/
def event (h : ¬ e.Injects) : SseEvent where
  silence := e.seenSilence
  silent := lineData?_seenSilence h
  lines := e.seenLines
  unbroken := ne_nil_of_mem_seenLines h
  carries := e.exists_seenData

theorem wire_event (h : ¬ e.Injects) : (e.event h).wire = e.wire.flatMap pieces := by
  rw [wire, List.flatMap_append, List.flatMap_append]
  rfl

theorem heard_event (h : ¬ e.Injects) : (e.event h).heard =
    if e.OnOneLine ∧ e.Unsplit then .ok (.obj e.message) else .error .decodeError := by
  obtain ⟨d, hlast, hd⟩ := lastData_seenLines h
  rw [SseEvent.heard, event, hlast]
  simp only [parseJson, hd]
  by_cases hread : e.OnOneLine ∧ e.Unsplit
  · rw [if_pos hread, if_pos hread]
  · rw [if_neg hread, if_neg hread]

/-- What a reply is read as that begins with the event. -/
theorem readFirst_seen (h : ¬ e.Injects) {rest : List Str}
    (hlength : (e.wire.flatMap pieces).length ≤ sseMaxLines) :
    readFirst 0 none ((e.wire ++ rest).flatMap pieces) =
      if e.OnOneLine ∧ e.Unsplit then .ok (.obj e.message) else .error .decodeError := by
  rw [List.flatMap_append, ← e.wire_event h] at *
  rw [readFirst_wire (e.event h) hlength, e.heard_event h]

theorem listen_seen (h : ¬ e.Injects) {n : Nat} {rest : List Str}
    (hn : n + (e.wire.flatMap pieces).length ≤ legacySseMaxLines) :
    listen n none (e.wire.flatMap pieces ++ rest) =
      if e.OnOneLine ∧ e.Unsplit then
        e.message :: listen (n + (e.wire.flatMap pieces).length) none rest
      else listen (n + (e.wire.flatMap pieces).length) none rest := by
  obtain ⟨d, hlast, hd⟩ := lastData_seenLines h
  have hwire : e.wire.flatMap pieces = e.seenSilence ++ (e.seenLines ++ [[]]) :=
    (e.wire_event h).symm
  have hlength : (e.wire.flatMap pieces).length =
      e.seenSilence.length + e.seenLines.length + 1 := by
    rw [hwire, List.length_append, List.length_append, List.length_singleton, Nat.add_assoc]
  have hrest : e.wire.flatMap pieces ++ rest = e.seenSilence ++ (e.seenLines ++ [] :: rest) := by
    rw [hwire, List.append_assoc, List.append_assoc, List.singleton_append]
  rw [hlength] at hn ⊢
  rw [hrest, listen_silence (lineData?_seenSilence h) (by omega),
    listen_lines (fun l hl => mem_seenLines h hl) hlast (by omega), dispatched, hd, Nat.add_assoc,
    Nat.add_assoc]
  by_cases hread : e.OnOneLine ∧ e.Unsplit
  · rw [if_pos hread, if_pos hread, Nat.add_assoc]
  · rw [if_neg hread, if_neg hread, Nat.add_assoc]

/-- The listener dispatches the messages that are on one line, if that does not come apart. -/
theorem listen_seens (es : List (Encoding φ)) (h : ∀ e ∈ es, ¬ e.Injects) {n : Nat}
    (hn : n + ((es.flatMap wire).flatMap pieces).length ≤ legacySseMaxLines) :
    listen n none ((es.flatMap wire).flatMap pieces) =
      (es.filter fun e => e.OnOneLine ∧ e.Unsplit).map message := by
  induction es generalizing n with
  | nil => rfl
  | cons e es ih =>
    obtain ⟨he, hes⟩ := List.forall_mem_cons.mp h
    rw [List.flatMap_cons, List.flatMap_append] at hn ⊢
    rw [List.length_append] at hn
    have hrest := ih hes (n := n + (e.wire.flatMap pieces).length) (by omega)
    rw [e.listen_seen he (by omega), hrest, List.filter_cons]
    by_cases hread : e.OnOneLine ∧ e.Unsplit
    · rw [if_pos hread, if_pos (decide_eq_true hread), List.map_cons]
    · rw [if_neg hread, if_neg (mt of_decide_eq_true hread)]

end Encoding

variable {aiterLines : Bytes → List Str}

theorem consumeSseResponse_eq_iff (hlines : SplitsLines aiterLines) {e : Encoding φ}
    (h : ¬ e.Injects) {rest : List Str} {response : HttpResponse}
    (hsends : Sends (e.wire ++ rest) response.body)
    (hlength : (e.wire.flatMap pieces).length ≤ sseMaxLines) :
    consumeSseResponse aiterLines response = .ok (.obj e.message) ↔ e.OnOneLine ∧ e.Unsplit := by
  rw [consumeSseResponse, hlines.sends hsends, e.readFirst_seen h hlength]
  split
  · next hread => exact iff_of_true rfl hread
  · next hread => exact iff_of_false nofun hread

theorem listen_eq_iff (hlines : SplitsLines aiterLines) {es : List (Encoding φ)}
    (h : ∀ e ∈ es, ¬ e.Injects) {body : Bytes} (hsends : Sends (es.flatMap Encoding.wire) body)
    (hlength : ((es.flatMap Encoding.wire).flatMap pieces).length ≤ legacySseMaxLines) :
    listen 0 none (aiterLines body) = es.map Encoding.message ↔
      ∀ e ∈ es, e.OnOneLine ∧ e.Unsplit := by
  rw [hlines.sends hsends, Encoding.listen_seens es h (by omega)]
  constructor
  · intro heq
    have hfilter := congrArg List.length heq
    rw [List.length_map, List.length_map, List.length_filter_eq_length_iff] at hfilter
    exact fun e he => of_decide_eq_true (hfilter e he)
  · intro hall
    rw [List.filter_eq_self.mpr fun e he => decide_eq_true (hall e he)]

/-- An event is decoded to its message if one of its data lines has all of it and no line comes
apart into one that a reader heeds; and only if, unless a line does that. -/
theorem framing_decoded (aiterLines : Bytes → List Str) (hlines : SplitsLines aiterLines) :
    (∀ (e : Encoding φ) (rest : List Str) (response : HttpResponse),
      Sends (e.wire ++ rest) response.body → (e.wire.flatMap pieces).length ≤ sseMaxLines →
        (e.Decodable → consumeSseResponse aiterLines response = .ok (.obj e.message)) ∧
        (consumeSseResponse aiterLines response = .ok (.obj e.message) →
          e.Decodable ∨ e.Injects)) ∧
    ∀ (es : List (Encoding φ)) (body : Bytes), Sends (es.flatMap Encoding.wire) body →
      ((es.flatMap Encoding.wire).flatMap pieces).length ≤ legacySseMaxLines →
        ((∀ e ∈ es, e.Decodable) → listen 0 none (aiterLines body) = es.map Encoding.message) ∧
        (listen 0 none (aiterLines body) = es.map Encoding.message →
          (∀ e ∈ es, e.Decodable) ∨ ∃ e ∈ es, e.Injects) := by
  constructor
  · intro e rest response hsends hlength
    constructor
    · rintro ⟨hone, hunsplit, hinjects⟩
      exact (consumeSseResponse_eq_iff hlines hinjects hsends hlength).mpr ⟨hone, hunsplit⟩
    · intro hread
      by_cases hinjects : e.Injects
      · exact .inr hinjects
      · obtain ⟨hone, hunsplit⟩ :=
          (consumeSseResponse_eq_iff hlines hinjects hsends hlength).mp hread
        exact .inl ⟨hone, hunsplit, hinjects⟩
  · intro es body hsends hlength
    constructor
    · intro hall
      refine (listen_eq_iff hlines (fun e he => (hall e he).2.2) hsends hlength).mpr fun e he => ?_
      exact ⟨(hall e he).1, (hall e he).2.1⟩
    · intro hread
      by_cases hinjects : ∃ e ∈ es, e.Injects
      · exact .inr hinjects
      · have hnone : ∀ e ∈ es, ¬ e.Injects := fun e he hin => hinjects ⟨e, he, hin⟩
        have hall := (listen_eq_iff hlines hnone hsends hlength).mp hread
        exact .inl fun e he => ⟨(hall e he).1, (hall e he).2, hnone e he⟩

end Decode

/-! ## Lines of a body -/

/-- The lines of a body of UTF-8. -/
def bodyLines (body : Bytes) : List Str :=
  match decodeUtf8 false body with
  | none => []
  | some text => splitlines text

theorem splitsLines_bodyLines : SplitsLines bodyLines := by
  intro text body hbody
  rw [bodyLines, decodeUtf8_encodeUtf8 false hbody]

theorem ends_of_all {lines : List Str}
    (h : (lines.all (·.all fun c => c != 10 && c != 13)) = true) :
    ∀ l ∈ lines, ∀ c ∈ l, c ≠ 10 ∧ c ≠ 13 := by
  simpa using h

theorem isLine_of_lines {lines : List Str}
    (h : (lines.all (·.all fun c => !isLineBreak c)) = true) : ∀ l ∈ lines, IsLine l := by
  intro l hl
  exact isLine_of_all (List.all_eq_true.mp h l hl)

/-- The body of lines of ASCII text that end in line feeds. -/
def feedBody (lines : List Str) : Bytes := asciiBytes (fed lines)

theorem sends_feedBody {lines : List Str} (hascii : isAscii (fed lines) = true)
    (hline : lines.all (·.all fun c => c != 10 && c != 13) = true) :
    Sends lines (feedBody lines) := by
  have hends : ∀ ls : List Str, EndsApart (ls.map fun l => (l, .lf)) := by
    intro ls
    induction ls with
    | nil => trivial
    | cons l ls ih =>
      cases ls with
      | nil => trivial
      | cons m ls => exact ⟨nofun, ih⟩
  refine ⟨lines.map fun l => (l, .lf), ?_, ?_, hends lines, ?_⟩
  · rw [List.map_map]
    exact List.map_id _
  · rw [List.forall_mem_map]
    exact ends_of_all hline
  · rw [List.flatMap_map]
    exact encodeUtf8_of_isAscii hascii

section Example

/-- A response over two data lines, after a comment. -/
private def prettyLines : List Str :=
  [lit "data: \x7b\"jsonrpc\": \"2.0\",", lit "data:  \"id\": 1, \"result\": \x7b\x7d\x7d",
    lit "event: message"]

private theorem exists_pretty : ∃ e : Encoding WholeFloat, e.silence = [lit ": ping"] ∧
    e.lines = prettyLines := by
  have hobject : ((loads (φ := WholeFloat)
      ((lit "\n").intercalate (prettyLines.filterMap fieldData?))).bind
        Json.asDict?).isSome = true := by
    decide +kernel
  obtain ⟨ms, hms⟩ := Option.isSome_iff_exists.mp hobject
  obtain ⟨v, hreads, hv⟩ := Option.bind_eq_some_iff.mp hms
  cases v with
  | obj ms' =>
    exact ⟨⟨ms', [lit ": ping"], by decide, prettyLines, by decide,
      ends_of_all (by decide +kernel), hreads⟩, rfl, rfl⟩
  | _ => cases hv

/-- Neither reader decodes the response. -/
theorem pretty_lost : ¬ ∀ (aiterLines : Bytes → List Str), SplitsLines aiterLines →
    ∀ (e : Encoding WholeFloat) (response : HttpResponse), Sends e.wire response.body →
      (e.wire.flatMap pieces).length ≤ sseMaxLines →
        consumeSseResponse aiterLines response = .ok (.obj e.message) ∧
          listen 0 none (aiterLines response.body) = [e.message] := by
  intro h
  obtain ⟨e, hsilence, hlines⟩ := exists_pretty
  have hwire : e.wire = lit ": ping" :: (prettyLines ++ [[]]) := by
    rw [Encoding.wire, hsilence, hlines]
    rfl
  have hsends : Sends e.wire (feedBody e.wire) := by
    rw [hwire]
    exact sends_feedBody (by decide +kernel) (by decide +kernel)
  have hlength : (e.wire.flatMap pieces).length ≤ sseMaxLines := by
    rw [hwire]
    decide +kernel
  have hline : ∀ l ∈ e.silence ++ e.lines, IsLine l := by
    rw [hsilence, hlines]
    exact isLine_of_lines (by decide +kernel)
  have hone : ¬ e.OnOneLine := by
    rw [Encoding.OnOneLine, Encoding.dataLines, hlines]
    decide
  have hinjects := Encoding.not_injects_of_isLine hline
  have hboth := h bodyLines splitsLines_bodyLines e ⟨200, .empty, feedBody e.wire⟩
    hsends hlength
  have hrest : Sends (e.wire ++ []) (feedBody e.wire) := by
    rwa [List.append_nil]
  exact hone ((consumeSseResponse_eq_iff splitsLines_bodyLines hinjects hrest hlength).mp hboth.1).1

private def emptyResult : List (Str × Json WholeFloat) :=
  [(lit "id", .int 1), (lit "result", .obj [])]

/-- A response on one data line. -/
private def compact : Encoding WholeFloat where
  message := emptyResult
  silence := [lit ": ping", []]
  silent := by decide
  lines := [lit "event: message", lit "data: " ++ (Json.obj emptyResult).text]
  fields := by decide
  ends := ends_of_all (by decide +kernel)
  reads := by
    have hvalues : [lit "event: message", lit "data: " ++ (Json.obj emptyResult).text].filterMap
        fieldData? = [(Json.obj emptyResult).text] := by
      decide +kernel
    rw [hvalues, List.intercalate_singleton]
    exact loads_text (.obj emptyResult)

/-- The response is decoded, and so are two of them. -/
theorem framing_decoded_compact :
    consumeSseResponse bodyLines ⟨200, .empty, feedBody compact.wire⟩ =
        .ok (.obj emptyResult) ∧
      listen 0 none (bodyLines (feedBody (compact.wire ++ compact.wire))) =
        [emptyResult, emptyResult] := by
  have hdecoded := framing_decoded (φ := WholeFloat) bodyLines splitsLines_bodyLines
  have hdecodable : compact.Decodable :=
    (Encoding.decodable_iff_of_isLine (isLine_of_lines (by decide +kernel))).mpr (by decide)
  have hsends : Sends (compact.wire ++ []) (feedBody compact.wire) :=
    sends_feedBody (by decide +kernel) (by decide +kernel)
  have hboth : Sends ([compact, compact].flatMap Encoding.wire)
      (feedBody (compact.wire ++ compact.wire)) :=
    sends_feedBody (by decide +kernel) (by decide +kernel)
  refine ⟨(hdecoded.1 compact [] _ hsends (by decide +kernel)).1 hdecodable,
    (hdecoded.2 [compact, compact] _ hboth (by decide +kernel)).1 ?_⟩
  exact List.forall_mem_cons.mpr ⟨hdecodable, List.forall_mem_singleton.mpr hdecodable⟩

end Example

end CosaiMcp.Transport
