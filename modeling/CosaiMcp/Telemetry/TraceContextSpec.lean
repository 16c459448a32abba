import CosaiMcp.Telemetry.TraceContext

/-!
# What is forwarded of a baggage

The sanitizer does what it is for exactly if the members up to where the size ends have values that
can be encoded and keys that name no identity as they are written, and if the result is no longer
than an input may be (`baggage_sanitized_iff`).
-/

namespace CosaiMcp.Telemetry

open Py
open Percent (unquote QuotedText)
open Middleware.Boundary (isAlphanumeric)
open Middleware.RequestMeta (NameData)

variable {φ : Type}

/-! ## Members -/

section Members

variable (N : NameData)

def membersOf (value : Json φ) : List Str :=
  match value with
  | .str s => if maxBaggageInputChars < s.length then [] else (s.splitOn 44).take 64
  | _ => []

/-- The members that are let through, before their size is looked at. -/
def accepted (value : Json φ) (allowedKeys : List Str) (maxBytes : Int) : List (Str × Str) :=
  (membersOf value).filterMap (acceptMember N (allowedOf N allowedKeys) maxBytes)

def entry (m : Str × Str) : Str := m.1 ++ 61 :: (Percent.quote m.2).getD []

def joined (ms : List (Str × Str)) : Str := [44].intercalate (ms.map entry)

def Fits (maxBytes : Int) (ms : List (Str × Str)) : Prop :=
  ms = [] ∨ ((joined ms).length : Int) ≤ maxBytes

/-- Each member whose predecessors fit has a value that can be encoded; if it fits as well, its key
is no identity as it is written, and with it the result is not too long for an input. -/
def Clean (value : Json φ) (allowedKeys : List Str) (maxBytes : Int) : Prop :=
  ∀ before m after, accepted N value allowedKeys maxBytes = before ++ m :: after →
    Fits maxBytes before → isScalar m.2 = true ∧
      (Fits maxBytes (before ++ [m]) → N.isIdentityKey false m.1 = false ∧
        (joined (before ++ [m])).length ≤ maxBaggageInputChars)

/-- A baggage that may be forwarded. -/
structure Sanitized (φ : Type) (allowedKeys : List Str) (maxBytes : Int) (out : Str) : Prop where
  short : (out.length : Int) ≤ maxBytes
  members : ∀ member ∈ out.splitOn 44, ∃ key val, member = key ++ 61 :: val ∧ 61 ∉ key ∧
    (∃ k ∈ allowedKeys, N.lower k = N.lower key) ∧ normKey N key ∉ sensitiveBaggageKeys ∧
      N.isIdentityKey false key = false ∧ QuotedText val ∧ 44 ∉ val ∧ 59 ∉ val
  fixed : sanitizeBaggage N (.str out : Json φ) allowedKeys maxBytes = .ok (some out)

end Members

/-! ## Sizes -/

section Size

variable {maxBytes : Int} {ms ns : List (Str × Str)} {m : Str × Str}

theorem intercalate_concat {ls : List Str} (h : ls ≠ []) (l : Str) :
    [44].intercalate (ls ++ [l]) = [44].intercalate ls ++ 44 :: l := by
  induction ls with
  | nil => exact absurd rfl h
  | cons a ls ih =>
    cases ls with
    | nil => simp [List.intercalate]
    | cons b ls =>
      rw [List.cons_append, List.cons_append, List.intercalate_cons_cons,
        List.intercalate_cons_cons, ← List.cons_append, ih (List.cons_ne_nil b ls)]
      simp only [List.append_assoc]

theorem length_joined_concat (ms : List (Str × Str)) (m : Str × Str) :
    (joined (ms ++ [m])).length =
      (joined ms).length + (entry m).length + if ms = [] then 0 else 1 := by
  by_cases h : ms = []
  · subst h
    simp [joined]
  · have hmap : ms.map entry ≠ [] := mt List.map_eq_nil_iff.mp h
    rw [joined, List.map_append, List.map_singleton, intercalate_concat hmap, List.length_append,
      List.length_cons, if_neg h]
    rfl

theorem length_joined_append (ms ns : List (Str × Str)) :
    (joined ms).length ≤ (joined (ms ++ ns)).length := by
  induction ns using List.reverseRecOn with
  | nil => rw [List.append_nil]
  | append_singleton ns n ih =>
    rw [← List.append_assoc, length_joined_concat]
    omega

theorem joined_ne_nil (h : ms ≠ []) : joined ms ≠ [] := by
  obtain ⟨m, ns, rfl⟩ := List.exists_cons_of_ne_nil h
  have hle := length_joined_append [m] ns
  have hentry : (joined [m]).length = (m.1 ++ 61 :: (Percent.quote m.2).getD []).length := by
    rw [joined, List.map_singleton, List.intercalate_singleton, entry]
  rw [List.length_append, List.length_cons] at hentry
  intro hnil
  rw [List.singleton_append, hnil, List.length_nil] at hle
  omega

theorem Fits.of_append (h : Fits maxBytes (ms ++ ns)) : Fits maxBytes ms := by
  rcases h with h | h
  · exact .inl (List.append_eq_nil_iff.mp h).1
  · have hle := length_joined_append ms ns
    exact .inr (by omega)

end Size

/-! ## The run -/

section Run

variable {N : NameData} {allowed : List Str} {maxBytes : Int}

theorem quote_of_isScalar {s : Str} (h : isScalar s = true) : ∃ val, Percent.quote s = some val := by
  obtain ⟨b, hb⟩ := Option.isSome_iff_exists.mp ((encodeUtf8_isSome_iff s).trans h)
  exact ⟨_, by rw [Percent.quote, hb]; rfl⟩

theorem quote_of_not_isScalar {s : Str} (h : isScalar s = false) : Percent.quote s = none := by
  have hnone : encodeUtf8 s = none :=
    Option.not_isSome_iff_eq_none.mp (by rw [encodeUtf8_isSome_iff, h]; exact nofun)
  rw [Percent.quote, hnone]
  rfl

theorem fits_concat {before : List (Str × Str)} {m : Str × Str} :
    Fits maxBytes (before ++ [m]) ↔ ((joined (before ++ [m])).length : Int) ≤ maxBytes :=
  or_iff_right (List.concat_ne_nil m before)

theorem size_concat (before : List (Str × Str)) (m : Str × Str) :
    ((joined before).length + (entry m).length + (if before.map entry = [] then 0 else 1) : Int) =
      (joined (before ++ [m])).length := by
  rw [length_joined_concat]
  by_cases h : before = []
  · subst h
    rfl
  · rw [if_neg h, if_neg (mt List.map_eq_nil_iff.mp h)]
    push_cast
    rfl

theorem next_size (before : List (Str × Str)) (m : Str × Str) :
    ((joined before).length + (entry m).length +
      if 1 < (before.map entry ++ [entry m]).length then 1 else 0) =
        (joined (before ++ [m])).length := by
  rw [length_joined_concat]
  cases before with
  | nil => rfl
  | cons => rw [if_neg (List.cons_ne_nil _ _), if_pos (by simp)]

/-- The run raises at a member that cannot be encoded behind others that fit, or it keeps the
members up to one that does not fit. -/
theorem keepMembers_cases (members : List Str) {before : List (Str × Str)}
    (hbefore : ∀ m ∈ before, isScalar m.2 = true) (hfits : Fits maxBytes before) :
    (∃ a m b, members.filterMap (acceptMember N allowed maxBytes) = a ++ m :: b ∧
      Fits maxBytes (before ++ a) ∧ isScalar m.2 = false ∧
        keepMembers N allowed maxBytes (before.map entry) (joined before).length members =
          .error .unicodeEncodeError) ∨
    (∃ a b, members.filterMap (acceptMember N allowed maxBytes) = a ++ b ∧
      (∀ m ∈ before ++ a, isScalar m.2 = true) ∧ Fits maxBytes (before ++ a) ∧
        (∀ m b', b = m :: b' → isScalar m.2 = true ∧ ¬ Fits maxBytes (before ++ a ++ [m])) ∧
          keepMembers N allowed maxBytes (before.map entry) (joined before).length members =
            .ok ((before ++ a).map entry)) := by
  induction members generalizing before with
  | nil =>
    refine .inr ⟨[], [], rfl, ?_, ?_, nofun, ?_⟩
    · rwa [List.append_nil]
    · rwa [List.append_nil]
    · rw [List.append_nil, keepMembers]
  | cons member members ih =>
    rw [keepMembers]
    cases haccept : acceptMember N allowed maxBytes member with
    | none =>
      rw [List.filterMap_cons_none haccept]
      exact ih hbefore hfits
    | some m =>
      rw [List.filterMap_cons_some haccept]
      cases hscalar : isScalar m.2 with
      | false =>
        refine .inl ⟨[], m, _, rfl, by rwa [List.append_nil], hscalar, ?_⟩
        simp only [quote_of_not_isScalar hscalar]
      | true =>
        obtain ⟨val, hval⟩ := quote_of_isScalar hscalar
        have hentry : m.1 ++ 61 :: val = entry m := by rw [entry, hval]; rfl
        simp only [hval, hentry]
        by_cases hfit : Fits maxBytes (before ++ [m])
        · rw [if_neg (by rw [size_concat]; exact not_lt.mpr (fits_concat.mp hfit)), next_size,
            ← List.map_singleton, ← List.map_append]
          have hall : ∀ m' ∈ before ++ [m], isScalar m'.2 = true :=
            List.forall_mem_append.mpr ⟨hbefore, List.forall_mem_singleton.mpr hscalar⟩
          rcases ih hall hfit with ⟨a, m', b, hms, hrest⟩ | ⟨a, b, hms, hrest⟩
          · refine .inl ⟨m :: a, m', b, by rw [hms]; rfl, ?_⟩
            rwa [List.append_assoc, List.singleton_append] at hrest
          · refine .inr ⟨m :: a, b, by rw [hms]; rfl, ?_⟩
            rwa [List.append_assoc, List.singleton_append] at hrest
        · rw [if_pos (by rw [size_concat]; exact lt_of_not_ge (mt fits_concat.mpr hfit))]
          refine .inr ⟨[], m :: members.filterMap (acceptMember N allowed maxBytes), rfl, ?_⟩
          rw [List.append_nil]
          refine ⟨hbefore, hfits, fun m' b' heq => ?_, rfl⟩
          obtain rfl := (List.cons.inj heq).1
          exact ⟨hscalar, hfit⟩

end Run

/-! ## Keys -/

section Keys

variable {N : NameData} {allowed allowedKeys : List Str} {maxBytes : Int} {key val : Str}

theorem isBaggageKeyChar_props {c : CodePoint} (h : isBaggageKeyChar c = true) :
    isSpace c = false ∧ c ≠ 61 ∧ c ≠ 44 := by
  have hne : ∀ k : CodePoint, isBaggageKeyChar k = false → c ≠ k := fun k hk he => by
    rw [he, hk] at h
    cases h
  have hbounds : 33 ≤ c.val ∧ c.val < 0x80 := by
    have hlits : (lit "!#$%&*+.^_|~-").all (fun c => 33 ≤ c.val && c.val < 0x80) = true := by
      decide
    simp only [isBaggageKeyChar, Bool.or_eq_true, decide_eq_true_eq] at h
    rcases h with ((halnum | hlit) | rfl) | rfl
    · simp only [isAlphanumeric, isDigit, Bool.or_eq_true, Bool.and_eq_true,
        decide_eq_true_eq] at halnum
      omega
    · simpa using List.all_eq_true.mp hlits c hlit
    · decide
    · decide
  refine ⟨?_, hne 61 (by decide), hne 44 (by decide)⟩
  simp only [isSpace, Bool.or_eq_false_iff, Bool.and_eq_false_iff, decide_eq_false_iff_not,
    beq_eq_false_iff_ne]
  omega

/-- What `acceptMember` has checked of a key. -/
structure AcceptedKey (N : NameData) (allowed : List Str) (key : Str) : Prop where
  chars : ∀ c ∈ key, isBaggageKeyChar c = true
  valid : isBaggageKey key = true
  allowed : N.lower key ∈ allowed
  plain : 37 ∉ key ∧ 43 ∉ key

theorem of_acceptMember {member : Str} {m : Str × Str}
    (h : acceptMember N allowed maxBytes member = some m) : AcceptedKey N allowed m.1 := by
  unfold acceptMember at h
  obtain ⟨-, h⟩ := Option.ite_none_left_eq_some.mp h
  obtain ⟨hchecks, h⟩ := Option.ite_none_left_eq_some.mp h
  cases h
  simp only [not_or, not_not, Bool.not_eq_false] at hchecks
  obtain ⟨-, hvalid, hallowed, hplain⟩ := hchecks
  refine ⟨?_, hvalid, hallowed, hplain⟩
  have hend : endsWith (strip ((strip member).takeWhile (· ≠ 61))) [10] = false :=
    Bool.eq_false_iff.mpr fun hend => by
      obtain ⟨t, ht⟩ := List.isSuffixOf_iff_suffix.mp hend
      cases isSpace_of_strip_eq ht.symm
  simp only [isBaggageKey, hend, Bool.and_eq_true] at hvalid
  exact List.all_eq_true.mp hvalid.1.1

theorem AcceptedKey.not_mem (h : AcceptedKey N allowed key) : 61 ∉ key ∧ 44 ∉ key :=
  ⟨fun hmem => (isBaggageKeyChar_props (h.chars _ hmem)).2.1 rfl,
    fun hmem => (isBaggageKeyChar_props (h.chars _ hmem)).2.2 rfl⟩

theorem AcceptedKey.isSpace (h : AcceptedKey N allowed key) : ∀ c ∈ key, isSpace c = false :=
  fun c hc => (isBaggageKeyChar_props (h.chars c hc)).1

/-- An entry is let through again, for what it was. -/
theorem acceptMember_entry (h : AcceptedKey N allowed key) {value : Str}
    (hval : Percent.quote value = some val)
    (hlength : ((key ++ 61 :: val).length : Int) ≤ maxBytes) :
    acceptMember N allowed maxBytes (key ++ 61 :: val) = some (key, value) := by
  have hchar := (Percent.quotedText_quote hval).char
  have hspace : ∀ c ∈ key ++ 61 :: val, Py.isSpace c = false :=
    List.forall_mem_append.mpr ⟨h.isSpace, List.forall_mem_cons.mpr
      ⟨by decide, fun c hc => (hchar c hc).2.1⟩⟩
  have hne : ∀ c ∈ key, decide (c ≠ 61) = true := fun c hc =>
    decide_eq_true fun heq => h.not_mem.1 (heq ▸ hc)
  have hkey : (key ++ 61 :: val).takeWhile (· ≠ 61) = key := by
    rw [List.takeWhile_append_of_pos hne, List.takeWhile_cons_of_neg (by decide), List.append_nil]
  have hrest : ((key ++ 61 :: val).dropWhile (· ≠ 61)).drop 1 = val := by
    rw [List.dropWhile_append_of_pos hne, List.dropWhile_cons_of_neg (by decide)]
    rfl
  have hvalue : val.takeWhile (· ≠ 59) = val :=
    List.takeWhile_eq_self_iff.mpr fun c hc => decide_eq_true (hchar c hc).2.2.2.1
  rw [acceptMember, if_neg (not_lt.mpr hlength)]
  simp only [strip_of_forall hspace, hkey, hrest, hvalue, strip_of_forall h.isSpace,
    strip_of_forall fun c hc => (hchar c hc).2.1, Percent.unquote_quote hval]
  refine if_neg ?_
  rintro (hsep | hvalid | hallowed | hplain)
  · exact hsep (List.mem_append_right _ List.mem_cons_self)
  · rw [h.valid] at hvalid
    cases hvalid
  · exact hallowed h.allowed
  · exact hplain.elim h.plain.1 h.plain.2

theorem mem_allowedOf (h : AcceptedKey N (allowedOf N allowedKeys) key) :
    (∃ k ∈ allowedKeys, N.lower k = N.lower key) ∧ normKey N key ∉ sensitiveBaggageKeys := by
  obtain ⟨k, hk, hlower⟩ := List.mem_map.mp h.allowed
  obtain ⟨hmem, hcheck⟩ := List.mem_filter.mp hk
  have hnorm : normKey N k = normKey N key := by rw [normKey, normKey, hlower]
  rw [hnorm, Bool.and_eq_true] at hcheck
  exact ⟨⟨k, hmem, hlower⟩, of_decide_eq_true hcheck.1⟩

end Keys

/-! ## Results -/

section Results

variable (N : NameData) {value : Json φ} {allowedKeys : List Str} {maxBytes : Int}
  {ms : List (Str × Str)}

/-- Members that were kept. -/
structure Kept (N : NameData) (allowedKeys : List Str) (maxBytes : Int) (ms : List (Str × Str)) :
    Prop where
  nonempty : ms ≠ []
  keys : ∀ m ∈ ms, AcceptedKey N (allowedOf N allowedKeys) m.1
  scalar : ∀ m ∈ ms, isScalar m.2 = true
  fits : Fits maxBytes ms
  few : ms.length ≤ 64

theorem orNone_joined (ms : List (Str × Str)) :
    orNone (joined ms) = if ms = [] then none else some (joined ms) := by
  split
  · next h =>
    subst h
    rfl
  · next h => exact if_neg (joined_ne_nil h)

theorem sanitizeBaggage_eq (value : Json φ) (allowedKeys : List Str) (maxBytes : Int) :
    sanitizeBaggage N value allowedKeys maxBytes =
      (keepMembers N (allowedOf N allowedKeys) maxBytes [] 0 (membersOf value)).map
        fun kept => orNone ([44].intercalate kept) := by
  cases value with
  | str s =>
    rw [sanitizeBaggage, membersOf]
    split
    · rfl
    · cases keepMembers N (allowedOf N allowedKeys) maxBytes [] 0 ((s.splitOn 44).take 64) <;> rfl
  | _ => rfl

/-- The run over a value raises, or it keeps the members up to one that does not fit. -/
theorem sanitizeBaggage_cases (value : Json φ) (allowedKeys : List Str) (maxBytes : Int) :
    (∃ a m b, accepted N value allowedKeys maxBytes = a ++ m :: b ∧ Fits maxBytes a ∧
      isScalar m.2 = false ∧
        sanitizeBaggage N value allowedKeys maxBytes = .error .unicodeEncodeError) ∨
    (∃ a b, accepted N value allowedKeys maxBytes = a ++ b ∧ (∀ m ∈ a, isScalar m.2 = true) ∧
      Fits maxBytes a ∧
        (∀ m b', b = m :: b' → isScalar m.2 = true ∧ ¬ Fits maxBytes (a ++ [m])) ∧
          sanitizeBaggage N value allowedKeys maxBytes =
            .ok (if a = [] then none else some (joined a))) := by
  rw [sanitizeBaggage_eq]
  rcases @keepMembers_cases N _ maxBytes (membersOf value) [] nofun (Or.inl rfl) with
    ⟨a, m, b, hms, hfits, hm, hrun⟩ | ⟨a, b, hms, hscalar, hfits, hstop, hrun⟩
  · refine .inl ⟨a, m, b, hms, hfits, hm, ?_⟩
    rw [show keepMembers N (allowedOf N allowedKeys) maxBytes [] 0 (membersOf value) = _ from hrun]
    rfl
  · refine .inr ⟨a, b, hms, hscalar, hfits, hstop, ?_⟩
    rw [show keepMembers N (allowedOf N allowedKeys) maxBytes [] 0 (membersOf value) = _ from hrun]
    exact congrArg Except.ok (orNone_joined a)

theorem length_entry_le {m : Str × Str} (hm : m ∈ ms) :
    (entry m).length ≤ (joined ms).length := by
  obtain ⟨a, b, rfl⟩ := List.append_of_mem hm
  have hconcat := length_joined_concat a m
  have hle := length_joined_append (a ++ [m]) b
  rw [List.append_assoc, List.singleton_append] at hle
  omega

namespace Kept

variable {N}

theorem entries (h : Kept N allowedKeys maxBytes ms) {m : Str × Str} (hm : m ∈ ms) :
    ∃ val, Percent.quote m.2 = some val ∧ entry m = m.1 ++ 61 :: val := by
  obtain ⟨val, hval⟩ := quote_of_isScalar (h.scalar m hm)
  exact ⟨val, hval, by rw [entry, hval]; rfl⟩

theorem splitOn_joined (h : Kept N allowedKeys maxBytes ms) :
    (joined ms).splitOn 44 = ms.map entry := by
  refine List.splitOn_intercalate 44 (List.forall_mem_map.mpr fun m hm hcomma => ?_)
    (mt List.map_eq_nil_iff.mp h.nonempty)
  obtain ⟨val, hval, hentry⟩ := h.entries hm
  rw [hentry, List.mem_append, List.mem_cons] at hcomma
  rcases hcomma with hkey | hsep | hvalue
  · exact (h.keys m hm).not_mem.2 hkey
  · cases hsep
  · exact ((Percent.quotedText_quote hval).char 44 hvalue).2.2.1 rfl

/-- The result of a run is let through as it is, if it is not too long. -/
theorem accepted_joined (h : Kept N allowedKeys maxBytes ms)
    (hlength : (joined ms).length ≤ maxBaggageInputChars) :
    accepted N (.str (joined ms) : Json φ) allowedKeys maxBytes = ms := by
  have hfew : (ms.map entry).take 64 = ms.map entry :=
    List.take_of_length_le (by rw [List.length_map]; exact h.few)
  have hfits := h.fits.resolve_left h.nonempty
  have haccept : ∀ m ∈ ms, acceptMember N (allowedOf N allowedKeys) maxBytes (entry m) = some m := by
    intro m hm
    obtain ⟨val, hval, hentry⟩ := h.entries hm
    have hle := length_entry_le hm
    rw [hentry] at hle ⊢
    exact acceptMember_entry (h.keys m hm) hval (by omega)
  rw [accepted, membersOf, if_neg (not_lt.mpr hlength), h.splitOn_joined, hfew, List.filterMap_map]
  exact (List.filterMap_congr haccept).trans List.filterMap_some

theorem fixed (h : Kept N allowedKeys maxBytes ms)
    (hlength : (joined ms).length ≤ maxBaggageInputChars) :
    sanitizeBaggage N (.str (joined ms) : Json φ) allowedKeys maxBytes =
      .ok (some (joined ms)) := by
  have haccepted := h.accepted_joined (φ := φ) hlength
  rcases sanitizeBaggage_cases N (.str (joined ms) : Json φ) allowedKeys maxBytes with
    ⟨a, m, b, hms, -, hm, -⟩ | ⟨a, b, hms, -, -, hstop, hresult⟩
  · rw [haccepted] at hms
    have hscalar := h.scalar m (hms ▸ List.mem_append_right a List.mem_cons_self)
    rw [hm] at hscalar
    cases hscalar
  · rw [haccepted] at hms
    cases b with
    | nil =>
      rw [List.append_nil] at hms
      rw [hresult, ← hms, if_neg h.nonempty]
    | cons m b =>
      refine absurd ?_ (hstop m b rfl).2
      have hfits := h.fits
      rw [hms, ← List.singleton_append, ← List.append_assoc] at hfits
      exact hfits.of_append

theorem sanitized (h : Kept N allowedKeys maxBytes ms)
    (hkeys : ∀ m ∈ ms, N.isIdentityKey false m.1 = false)
    (hlength : (joined ms).length ≤ maxBaggageInputChars) :
    Sanitized N φ allowedKeys maxBytes (joined ms) where
  short := h.fits.resolve_left h.nonempty
  members := by
    rw [h.splitOn_joined]
    refine List.forall_mem_map.mpr fun m hm => ?_
    obtain ⟨val, hval, hentry⟩ := h.entries hm
    have hquoted := Percent.quotedText_quote hval
    obtain ⟨hmem, hsensitive⟩ := mem_allowedOf (h.keys m hm)
    exact ⟨m.1, val, hentry, (h.keys m hm).not_mem.1, hmem, hsensitive, hkeys m hm, hquoted,
      fun hc => (hquoted.char 44 hc).2.2.1 rfl, fun hc => (hquoted.char 59 hc).2.2.2.1 rfl⟩
  fixed := h.fixed hlength

end Kept

theorem kept_of_accepted {a b : List (Str × Str)}
    (hms : accepted N value allowedKeys maxBytes = a ++ b) (hscalar : ∀ m ∈ a, isScalar m.2 = true)
    (hfits : Fits maxBytes a) (hne : a ≠ []) : Kept N allowedKeys maxBytes a := by
  refine ⟨hne, fun m hm => ?_, hscalar, hfits, ?_⟩
  · have hmem : m ∈ accepted N value allowedKeys maxBytes := hms ▸ List.mem_append_left b hm
    obtain ⟨member, -, haccept⟩ := List.mem_filterMap.mp hmem
    exact of_acceptMember haccept
  · have hlength : (accepted N value allowedKeys maxBytes).length ≤ 64 := by
      refine (List.length_filterMap_le _ _).trans ?_
      cases value with
      | str s =>
        rw [membersOf]
        split
        · exact Nat.zero_le _
        · exact List.length_take_le _ _
      | _ => exact Nat.zero_le _
    rw [hms, List.length_append] at hlength
    omega

/-- The key of a member in the result is the one of the entry. -/
theorem Sanitized.key {out : Str} (h : Sanitized N φ allowedKeys maxBytes out) {m : Str × Str}
    (hm : entry m ∈ out.splitOn 44) : N.isIdentityKey false m.1 = false := by
  obtain ⟨key, val, hentry, hkey, -, -, hidentity, hquoted, -⟩ := h.members _ hm
  have hval : 61 ∉ val := fun hmem => (hquoted.char 61 hmem).2.2.2.2 rfl
  rw [← ((List.append_cons_inj_of_notMem hkey hval).mp hentry.symm).1, hidentity]

/-- A result that is passed on as it is was not too long. -/
theorem Sanitized.length_le {out : Str} (h : Sanitized N φ allowedKeys maxBytes out) :
    out.length ≤ maxBaggageInputChars := by
  by_contra hlong
  have hfixed := h.fixed
  rw [sanitizeBaggage, if_pos (not_le.mp hlong)] at hfixed
  cases hfixed

/-- Each member comes before the one where the run stops, is that one, or comes behind it. -/
theorem clean_of_sanitized {a b : List (Str × Str)}
    (hms : accepted N value allowedKeys maxBytes = a ++ b) (hscalar : ∀ m ∈ a, isScalar m.2 = true)
    (hfits : Fits maxBytes a)
    (hstop : ∀ m b', b = m :: b' → isScalar m.2 = true ∧ ¬ Fits maxBytes (a ++ [m]))
    (hsanitized : a ≠ [] → Sanitized N φ allowedKeys maxBytes (joined a)) :
    Clean N value allowedKeys maxBytes := by
  intro before m after heq hbefore
  rw [hms] at heq
  rcases List.append_eq_append_iff.mp heq with ⟨c, rfl, hb⟩ | ⟨c, ha, hc⟩
  · -- the run stops before the member, or at it
    cases c with
    | nil =>
      rw [List.append_nil] at hbefore ⊢
      obtain ⟨hm, hlong⟩ := hstop m after hb
      exact ⟨hm, fun hfit => absurd hfit hlong⟩
    | cons n c =>
      rw [← List.singleton_append, ← List.append_assoc] at hbefore
      exact absurd hbefore.of_append (hstop n _ hb).2
  · cases c with
    | nil =>
      rw [List.append_nil] at ha
      subst ha
      obtain ⟨hm, hlong⟩ := hstop m after hc.symm
      exact ⟨hm, fun hfit => absurd hfit hlong⟩
    | cons n c =>
      obtain rfl := (List.cons.inj hc).1
      have hmem : m ∈ a := ha ▸ List.mem_append_right before List.mem_cons_self
      have hne := List.ne_nil_of_mem hmem
      have hkept := kept_of_accepted N hms hscalar hfits hne
      have hout := hsanitized hne
      have hsplit : entry m ∈ (joined a).splitOn 44 := by
        rw [hkept.splitOn_joined]
        exact List.mem_map_of_mem hmem
      have hlength := hout.length_le
      rw [ha, ← List.singleton_append, ← List.append_assoc] at hlength
      exact ⟨hscalar m hmem, fun _ => ⟨hout.key N hsplit,
        (length_joined_append _ c).trans hlength⟩⟩

theorem sanitized_of_clean {a b : List (Str × Str)} (hclean : Clean N value allowedKeys maxBytes)
    (hms : accepted N value allowedKeys maxBytes = a ++ b) (hscalar : ∀ m ∈ a, isScalar m.2 = true)
    (hfits : Fits maxBytes a) (hne : a ≠ []) : Sanitized N φ allowedKeys maxBytes (joined a) := by
  refine (kept_of_accepted N hms hscalar hfits hne).sanitized (fun m hm => ?_) ?_
  · obtain ⟨init, rest, rfl⟩ := List.append_of_mem hm
    rw [List.append_assoc, List.cons_append] at hms
    have hinit := hfits.of_append
    rw [← List.singleton_append, ← List.append_assoc] at hfits
    exact ((hclean init m _ hms hinit).2 hfits.of_append).1
  · obtain ⟨init, m, rfl⟩ := (List.eq_nil_or_concat' a).resolve_left hne
    have hlast := hms
    rw [List.append_assoc, List.singleton_append] at hlast
    exact ((hclean init m _ hlast hfits.of_append).2 hfits).2

/-- A baggage is sanitized exactly if the members that fit have values that can be encoded and keys
that name no identity as they are written, and make no result that is too long. -/
theorem baggage_sanitized_iff (value : Json φ) (allowedKeys : List Str) (maxBytes : Int) :
    (∃ result, sanitizeBaggage N value allowedKeys maxBytes = .ok result ∧
      ∀ out ∈ result, Sanitized N φ allowedKeys maxBytes out) ↔
        Clean N value allowedKeys maxBytes := by
  rcases sanitizeBaggage_cases N value allowedKeys maxBytes with
    ⟨a, m, b, hms, hfits, hm, hresult⟩ | ⟨a, b, hms, hscalar, hfits, hstop, hresult⟩
  · refine iff_of_false ?_ fun hclean => ?_
    · rintro ⟨result, hok, -⟩
      rw [hresult] at hok
      cases hok
    · have hscalar := (hclean a m b hms hfits).1
      rw [hm] at hscalar
      cases hscalar
  · rw [hresult]
    constructor
    · rintro ⟨result, hok, hsanitized⟩
      cases hok
      exact clean_of_sanitized N hms hscalar hfits hstop fun hne =>
        hsanitized (joined a) (if_neg hne)
    · intro hclean
      refine ⟨_, rfl, fun out hout => ?_⟩
      split at hout
      · cases hout
      next hne =>
      obtain rfl := Option.some.inj hout
      exact sanitized_of_clean N hclean hms hscalar hfits hne

end Results

theorem xUser_forwarded :
    ¬ ∃ result, sanitizeBaggage .ascii (.str (lit "xUser=1") : Json Unit) [lit "xuser"] 1024 =
        .ok result ∧
      ∀ out ∈ result, Sanitized .ascii Unit [lit "xuser"] 1024 out := by
  have hrun : sanitizeBaggage .ascii (.str (lit "xUser=1") : Json Unit) [lit "xuser"] 1024 =
      .ok (some (lit "xUser=1")) :=
    rfl
  rintro ⟨result, hok, hsanitized⟩
  rw [hrun] at hok
  cases hok
  have hmem : entry (lit "xUser", lit "1") ∈ (lit "xUser=1").splitOn 44 := by decide
  have hkey := (hsanitized _ rfl).key NameData.ascii hmem
  have hidentity : NameData.ascii.isIdentityKey false (lit "xUser") = true := by decide
  rw [hidentity] at hkey
  cases hkey

end CosaiMcp.Telemetry
