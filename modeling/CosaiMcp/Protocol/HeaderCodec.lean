import CosaiMcp.Protocol.Wire

/-!
# Header values survive the way

What `encodeHeaderValue` makes of a text is a value that no HTTP library changes (`FieldValue`), and
the text can be read back from it, so that no two texts share a value (`header_codec`). A text that
looks like an encoded one is itself encoded.
-/

namespace CosaiMcp.Protocol

open Py

/-- A header value without control characters, and without white space at its ends. -/
structure FieldValue (raw : Str) : Prop where
  chars : ∀ c ∈ raw, c = 9 ∨ (0x20 ≤ c.val ∧ c.val ≤ 0x7E)
  head : ∀ c, raw.head? = some c → isSpace c = false
  last : ∀ c, raw.getLast? = some c → isSpace c = false

/-! ## The ends of a text -/

theorem head_of_strip_eq {s : Str} (h : strip s = s) {c : CodePoint} (hc : s.head? = some c) :
    isSpace c = false := by
  obtain ⟨t, rfl⟩ := List.head?_eq_some_iff.mp hc
  by_contra hspace
  have hspace' : isSpace c = true := Bool.not_eq_false _ ▸ hspace
  have hlen : (strip (c :: t)).length ≤ t.length := by
    rw [strip, List.length_reverse, List.dropWhile_cons_of_pos hspace']
    calc ((t.dropWhile isSpace).reverse.dropWhile isSpace).length
        ≤ (t.dropWhile isSpace).reverse.length := (List.dropWhile_suffix _).length_le
      _ = (t.dropWhile isSpace).length := List.length_reverse
      _ ≤ t.length := (List.dropWhile_suffix _).length_le
  rw [h, List.length_cons] at hlen
  omega

theorem last_of_strip_eq {s : Str} (h : strip s = s) {c : CodePoint} (hc : s.getLast? = some c) :
    isSpace c = false := by
  obtain ⟨t, rfl⟩ := List.getLast?_eq_some_iff.mp hc
  exact isSpace_of_strip_eq h

/-! ## The two forms -/

theorem b64Char_graphic {n : Nat} (h : n < 64) :
    0x20 ≤ (b64Char n).val ∧ (b64Char n).val ≤ 0x7E := by
  have hall : ∀ n : Fin 64, 0x20 ≤ (b64Char n.val).val ∧ (b64Char n.val).val ≤ 0x7E := by decide
  exact hall ⟨n, h⟩

theorem b64encode_graphic {data : Bytes} {c : CodePoint} (h : c ∈ b64encode data) :
    0x20 ≤ c.val ∧ c.val ≤ 0x7E := by
  rcases List.mem_append.mp h with h | h
  · obtain ⟨n, hn, rfl⟩ := b64Chars_mem h
    exact b64Char_graphic hn
  · cases List.eq_of_mem_replicate h
    exact ⟨by decide, by decide⟩

theorem fieldValue_of_isSafe {value : Str} (h : isSafeHeaderValue value = true) :
    FieldValue value := by
  simp only [isSafeHeaderValue, Bool.and_eq_true, beq_iff_eq, List.all_eq_true] at h
  obtain ⟨⟨hstrip, hchars⟩, -⟩ := h
  refine ⟨fun c hc => ?_, fun c hc => head_of_strip_eq hstrip.symm hc,
    fun c hc => last_of_strip_eq hstrip.symm hc⟩
  have hgraphic := hchars c hc
  rw [Bool.or_eq_true, beq_iff_eq, Bool.and_eq_true, decide_eq_true_eq, decide_eq_true_eq] at hgraphic
  exact hgraphic

theorem fieldValue_sentinel (data : Bytes) :
    FieldValue (b64Prefix ++ b64encode data ++ b64Suffix) := by
  refine ⟨fun c hc => Or.inr ?_, fun c hc => ?_, fun c hc => ?_⟩
  · have hpre : (b64Prefix.all fun c => 0x20 ≤ c.val && c.val ≤ 0x7E) = true := rfl
    have hsuf : (b64Suffix.all fun c => 0x20 ≤ c.val && c.val ≤ 0x7E) = true := rfl
    simp only [List.all_eq_true, Bool.and_eq_true, decide_eq_true_eq] at hpre hsuf
    rcases List.mem_append.mp hc with hc | hc
    · rcases List.mem_append.mp hc with hc | hc
      · exact hpre c hc
      · exact b64encode_graphic hc
    · exact hsuf c hc
  · cases hc
    rfl
  · rw [List.getLast?_append_of_ne_nil _ (by decide)] at hc
    cases hc
    rfl

theorem fieldValue_encodeHeaderValue {value raw : Str} (h : encodeHeaderValue value = some raw) :
    FieldValue raw := by
  unfold encodeHeaderValue at h
  split at h
  · next hsafe =>
    cases h
    exact fieldValue_of_isSafe hsafe
  · obtain ⟨data, -, rfl⟩ := Option.map_eq_some_iff.mp h
    exact fieldValue_sentinel data

/-- Every text of scalar values has a header value that arrives as it was sent, decodes to the text
and encodes no other. -/
theorem header_codec (s : Str) (h : isScalar s = true) :
    ∃ raw, encodeHeaderValue s = some raw ∧ decodeHeaderValue raw = some s ∧ FieldValue raw ∧
      ∀ t, isScalar t = true → encodeHeaderValue t = some raw → t = s := by
  obtain ⟨raw, hraw⟩ := exists_encodeHeaderValue h
  have hdecode := decodeHeaderValue_encodeHeaderValue hraw
  refine ⟨raw, hraw, hdecode, fieldValue_encodeHeaderValue hraw, fun t _ ht => ?_⟩
  rw [decodeHeaderValue_encodeHeaderValue ht] at hdecode
  exact Option.some.inj hdecode

/-- The prefix and the suffix in one. -/
theorem header_codec_sentinel :
    ∃ raw, encodeHeaderValue (lit "=?base64?=") = some raw ∧
      decodeHeaderValue raw = some (lit "=?base64?=") ∧ FieldValue raw ∧
      ∀ t, isScalar t = true → encodeHeaderValue t = some raw → t = lit "=?base64?=" :=
  header_codec (lit "=?base64?=") (by decide)

end CosaiMcp.Protocol
