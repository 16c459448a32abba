import CosaiMcp.Catalog.Loader

/-!
# What a loaded probe is like

The facts about a loaded probe that its readers rely on: a compiled pattern is that of the value of a
`matches_regex` assertion (`LoadedAssertion`), and headers, payload and era are as the loader leaves
them (`LoadedProbe`).
-/

namespace CosaiMcp.Catalog

open Py

variable {φ ρ : Type} {rt : Runtime φ ρ} {isCustom allowRegexInCustom : Bool} {raw : Json φ}

/-- The pattern is compiled for `matches_regex`, and only then. -/
def LoadedAssertion (rt : Runtime φ ρ) (a : Assertion φ ρ) : Prop :=
  if a.operator = .matchesRegex then
    ∃ pattern, rt.compile (rt.str a.value.toJson) = some pattern ∧ a.compiledPattern = some pattern
  else a.compiledPattern = none

structure LoadedProbe (rt : Runtime φ ρ) (raw : Json φ) (p : Probe φ ρ) : Prop where
  assertions : ∀ a ∈ p.assertions, LoadedAssertion rt a
  corroboration : ∀ a ∈ p.corroboration, LoadedAssertion rt a
  payload : ∃ j, (raw.get? (lit "payload") = some j ∨ j = .obj []) ∧
    Value.proxy p.payload = makeMappingProxy j
  headers : p.probeHeaders ≠ some []
  era : p.requiresProtocolEra = none ∨ p.requiresProtocolEra = some (lit "modern") ∨
    p.requiresProtocolEra = some (lit "legacy")

theorem field_eq_ok_iff {key : Str} {v : Json φ} : field raw key = .ok v ↔ raw.get? key = some v := by
  unfold field
  cases raw.get? key with
  | none => exact ⟨nofun, nofun⟩
  | some w => simp

theorem compilePattern_eq_ok {operator : Operator} {value : Json φ} {pattern? : Option ρ}
    (h : compilePattern rt isCustom allowRegexInCustom operator value = .ok pattern?) :
    if operator = .matchesRegex then
      ∃ pattern, rt.compile (rt.str value) = some pattern ∧ pattern? = some pattern
    else pattern? = none := by
  unfold compilePattern at h
  split at h
  · rename_i hop
    cases h
    rw [if_neg hop]
  · rename_i hop
    rw [if_pos (not_not.mp hop)]
    obtain ⟨-, h⟩ := ite_error_eq_ok_iff.mp h
    cases hcompile : rt.compile (rt.str value) with
    | none =>
      rw [hcompile] at h
      cases h
    | some pattern =>
      rw [hcompile] at h
      cases h
      exact ⟨pattern, rfl, rfl⟩

theorem loadedAssertion {a : Assertion φ ρ}
    (h : parseAssertion rt isCustom allowRegexInCustom raw = .ok a) : LoadedAssertion rt a := by
  unfold parseAssertion at h
  obtain ⟨opText, -, h⟩ := bind_eq_ok_iff.mp h
  cases hop : Operator.ofValue? opText with
  | none =>
    rw [hop] at h
    cases h
  | some operator =>
    rw [hop] at h
    obtain ⟨value, -, h⟩ := bind_eq_ok_iff.mp h
    obtain ⟨pattern, hpattern, h⟩ := bind_eq_ok_iff.mp h
    cases hvalue : AssertionValue.ofJson? value with
    | none =>
      rw [hvalue] at h
      cases h
    | some v =>
      rw [hvalue] at h
      obtain ⟨target, -, h⟩ := bind_eq_ok_iff.mp h
      cases h
      unfold LoadedAssertion
      rw [AssertionValue.toJson_of_ofJson? hvalue]
      exact compilePattern_eq_ok hpattern

theorem loaded_of_mapM {raws : List (Json φ)} {l : List (Assertion φ ρ)}
    (h : raws.mapM (parseAssertion rt isCustom allowRegexInCustom) = .ok l) :
    ∀ a ∈ l, LoadedAssertion rt a := by
  intro a ha
  obtain ⟨raw, -, hraw⟩ := mem_of_mapM_eq_ok h ha
  exact loadedAssertion hraw

theorem parseHeaders_ne_nil {headers : Option (List (Str × Str))}
    (h : parseHeaders raw = .ok headers) : headers ≠ some [] := by
  unfold parseHeaders at h
  split at h
  · cases h
    nofun
  · cases h
    nofun
  · rename_i ms hne _
    obtain ⟨hs, hhs, h⟩ := bind_eq_ok_iff.mp h
    cases h
    rintro ⟨⟩
    cases ms with
    | nil => exact hne rfl
    | cons m ms =>
      rw [List.mapM_cons] at hhs
      obtain ⟨_, -, hhs⟩ := bind_eq_ok_iff.mp hhs
      obtain ⟨_, -, hhs⟩ := bind_eq_ok_iff.mp hhs
      cases hhs
  · cases h

theorem loadedProbe [PyFloat φ] {p : Probe φ ρ}
    (h : parseProbe rt isCustom allowRegexInCustom raw = .ok p) : LoadedProbe rt raw p := by
  unfold parseProbe at h
  obtain ⟨raws, -, h⟩ := bind_eq_ok_iff.mp h
  obtain ⟨assertions, hassertions, h⟩ := bind_eq_ok_iff.mp h
  obtain ⟨payload, hpayload, h⟩ := bind_eq_ok_iff.mp h
  obtain ⟨headers, hheaders, h⟩ := bind_eq_ok_iff.mp h
  obtain ⟨corroboration, hcorroboration, h⟩ := bind_eq_ok_iff.mp h
  obtain ⟨id, -, h⟩ := bind_eq_ok_iff.mp h
  obtain ⟨transport, -, h⟩ := bind_eq_ok_iff.mp h
  obtain ⟨method, -, h⟩ := bind_eq_ok_iff.mp h
  obtain ⟨token, -, h⟩ := bind_eq_ok_iff.mp h
  obtain ⟨count, -, h⟩ := bind_eq_ok_iff.mp h
  obtain ⟨era, hera, h⟩ := bind_eq_ok_iff.mp h
  cases h
  refine ⟨loaded_of_mapM hassertions, ?_, ?_, parseHeaders_ne_nil hheaders, ?_⟩
  · unfold parseCorroboration at hcorroboration
    split at hcorroboration
    · cases hcorroboration
      exact fun a ha => absurd ha List.not_mem_nil
    · obtain ⟨raws', -, hcorroboration⟩ := bind_eq_ok_iff.mp hcorroboration
      exact loaded_of_mapM hcorroboration
  · cases payload with
    | obj ms => exact ⟨.obj ms, .inl (field_eq_ok_iff.mp hpayload), rfl⟩
    | _ => exact ⟨.obj [], .inr rfl, rfl⟩
  · unfold parseEra at hera
    obtain ⟨era', -, hera⟩ := bind_eq_ok_iff.mp hera
    obtain ⟨hcases, hera⟩ := ite_ok_error_eq_ok_iff.mp hera
    cases hera
    exact hcases

end CosaiMcp.Catalog
