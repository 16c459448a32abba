import CosaiMcp.Catalog.LoaderSpec
import CosaiMcp.Harness.Assertions
import CosaiMcp.Harness.ProbeIpc
import CosaiMcp.Py.FloatArith

/-!
# What process isolation does to a probe

The subprocess runs the probe that it reads from the dictionary. All fields of a loaded probe arrive
but for the compiled patterns, and without one a `matches_regex` assertion never holds. So the
verdicts are the same exactly on the responses in which no pattern of the probe is found
(`isolation_preserves_meaning_iff`).
-/

namespace CosaiMcp.Harness

open Py Catalog

variable {φ ρ : Type} [PyFloat φ] (rt : Runtime φ ρ)

/-! ## One assertion -/

/-- The pattern of the assertion is not found in its target. -/
def PatternNotFound (response : Json φ) (a : Assertion φ ρ) : Prop :=
  a.operator = .matchesRegex → ∀ pattern, a.compiledPattern = some pattern →
    ∀ actual, extractTarget rt response a.target = .ok actual →
      rt.search pattern (actualText rt actual) = false

theorem evaluateAssertion_withoutPattern_iff (response : Json φ) (a : Assertion φ ρ) :
    evaluateAssertion rt (withoutPattern a) response = evaluateAssertion rt a response ↔
      PatternNotFound rt response a := by
  obtain ⟨target, operator, value, compiled⟩ := a
  unfold evaluateAssertion PatternNotFound withoutPattern
  cases hactual : extractTarget rt response target with
  | error e => exact iff_of_true rfl fun _ _ _ _ h => nomatch h
  | ok actual =>
    cases operator with
    | matchesRegex =>
      cases compiled with
      | none => exact iff_of_true rfl fun _ _ h => nomatch h
      | some pattern =>
        constructor
        · intro h _ _ hp _ hv
          cases hp
          cases hv
          exact (congrArg AssertionResult.passed (Except.ok.inj h)).symm
        · intro h
          have hnot := h rfl pattern rfl actual rfl
          show Except.ok (AssertionResult.mk _ _ false) = Except.ok (AssertionResult.mk _ _ _)
          rw [← hnot]
          rfl
    | _ => exact iff_of_true rfl fun h => nomatch h

/-! ## A probe -/

/-- `q` has the fields of `p`, mappings and sequences by their content. -/
structure SameFields (p q : Probe φ ρ) : Prop where
  id : q.id = p.id
  transport : q.transport = p.transport
  method : q.method = p.method
  payload : toJsonSafe (.proxy q.payload) = toJsonSafe (.proxy p.payload)
  assertions : List.Forall₂ (fun a b => withoutPattern b = withoutPattern a) p.assertions q.assertions
  probeToken : q.probeToken = p.probeToken
  probeCount : q.probeCount = p.probeCount ∨
    q.probeCount = .int 1 ∧ p.probeCount.pyEq (.int 1) = true
  probeHeaders : q.probeHeaders = p.probeHeaders
  corroboration :
    List.Forall₂ (fun a b => withoutPattern b = withoutPattern a) p.corroboration q.corroboration
  protocolErrorIsExpected : q.protocolErrorIsExpected = p.protocolErrorIsExpected
  requiresProtocolEra : q.requiresProtocolEra = p.requiresProtocolEra

/-- Every assertion and corroboration of `q` evaluates as that of `p` does. -/
def SameVerdicts (response : Json φ) (p q : Probe φ ρ) : Prop :=
  List.Forall₂ (fun a b => evaluateAssertion rt b response = evaluateAssertion rt a response)
      p.assertions q.assertions ∧
    List.Forall₂ (fun a b => evaluateAssertion rt b response = evaluateAssertion rt a response)
      p.corroboration q.corroboration

omit [PyFloat φ] in
theorem toJsonSafeMembers_json (ms : List (Str × Json φ)) :
    toJsonSafeMembers (ms.map fun m => (m.1, .json m.2)) = ms := by
  induction ms with
  | nil => rfl
  | cons m ms ih => rw [List.map_cons, toJsonSafeMembers, toJsonSafe, ih]

omit [PyFloat φ] in
theorem forall₂_withoutPattern (l : List (Assertion φ ρ)) :
    List.Forall₂ (fun a b => withoutPattern b = withoutPattern a) l (l.map withoutPattern) := by
  rw [List.forall₂_map_right_iff, List.forall₂_same]
  exact fun _ _ => rfl

theorem sameFields_rebuilt (p : Probe φ ρ) : SameFields p (rebuilt p) where
  id := rfl
  transport := rfl
  method := rfl
  payload := by
    rw [toJsonSafe, toJsonSafe]
    exact congrArg Json.obj (toJsonSafeMembers_json _)
  assertions := forall₂_withoutPattern _
  probeToken := rfl
  probeCount := by
    by_cases h : p.probeCount.pyEq (.int 1) = true
    · exact .inr ⟨if_pos h, h⟩
    · exact .inl (if_neg h)
  probeHeaders := rfl
  corroboration := forall₂_withoutPattern _
  protocolErrorIsExpected := rfl
  requiresProtocolEra := rfl

theorem sameVerdicts_rebuilt_iff (response : Json φ) (p : Probe φ ρ) :
    SameVerdicts rt response p (rebuilt p) ↔
      ∀ a ∈ p.assertions ++ p.corroboration, PatternNotFound rt response a := by
  have hlist (l : List (Assertion φ ρ)) :
      List.Forall₂ (fun a b => evaluateAssertion rt b response = evaluateAssertion rt a response) l
        (l.map withoutPattern) ↔ ∀ a ∈ l, PatternNotFound rt response a := by
    rw [List.forall₂_map_right_iff, List.forall₂_same]
    exact forall₂_congr fun a _ => evaluateAssertion_withoutPattern_iff rt response a
  rw [List.forall_mem_append, ← hlist, ← hlist]
  rfl

/-- **The subprocess has the fields of the probe, and its verdicts exactly where no pattern of the
probe is found in the response.** -/
theorem isolation_preserves_meaning_iff {isCustom allowRegexInCustom : Bool} {raw : Json φ}
    {p : Probe φ ρ} (h : parseProbe rt isCustom allowRegexInCustom raw = .ok p) :
    ∃ q, probeFromDict (probeToDict p) = some q ∧ SameFields p q ∧ ∀ response,
      SameVerdicts rt response p q ↔
        ∀ a ∈ p.assertions ++ p.corroboration, PatternNotFound rt response a :=
  ⟨rebuilt p, probeFromDict_probeToDict p (loadedProbe h).headers, sameFields_rebuilt p,
    fun response => sameVerdicts_rebuilt_iff rt response p⟩

/-! ## A probe that looks for a pattern -/

/-- Patterns without special characters. -/
def literalRuntime : Runtime WholeFloat Str where
  str
    | .str s => s
    | _ => []
  strTuple _ := []
  dumps _ := []
  compile pattern := some pattern
  search pattern text := decide (pattern <:+: text)
  unicode := .ascii
  str_str := @Json.strOrNil_str WholeFloat

/-- An official probe that asserts the pattern on the body. -/
def bodyProbe (pattern : Str) : Json WholeFloat :=
  .obj [(lit "id", .str (lit "T08-001-P1")), (lit "transport", .str (lit "http")),
    (lit "method", .str (lit "tools/list")), (lit "payload", .obj []),
    (lit "assertions", .arr [.obj [(lit "target", .str (lit "response.body")),
      (lit "operator", .str (lit "matches_regex")), (lit "value", .str pattern)]])]

def bodyResponse : Json WholeFloat := .obj [(lit "_body", .str (lit "root:x:0:0"))]

/-- A pattern that does not occur in the body. -/
theorem isolation_preserves_meaning_iff_absent : ∃ p q,
    parseProbe literalRuntime false false (bodyProbe (lit "admin:")) = .ok p ∧
      probeFromDict (probeToDict p) = some q ∧ SameVerdicts literalRuntime bodyResponse p q := by
  obtain ⟨q, hq, -, hverdicts⟩ := @isolation_preserves_meaning_iff _ _ _ literalRuntime false false
    (bodyProbe (lit "admin:")) _ rfl
  refine ⟨_, q, rfl, hq, (hverdicts bodyResponse).mpr ?_⟩
  intro a ha _ pattern hpattern actual hactual
  cases List.mem_singleton.mp ha
  cases hpattern
  cases hactual
  decide +kernel

/-- A pattern that occurs in the body: the assertion holds, and in the subprocess it does not. -/
theorem pattern_lost : ∃ p q,
    parseProbe literalRuntime false false (bodyProbe (lit "root:")) = .ok p ∧
      probeFromDict (probeToDict p) = some q ∧
      p.assertions.map (evaluateAssertion literalRuntime · bodyResponse) =
        [.ok ⟨lit "response.body", lit "matches_regex", true⟩] ∧
      q.assertions.map (evaluateAssertion literalRuntime · bodyResponse) =
        [.ok ⟨lit "response.body", lit "matches_regex", false⟩] :=
  ⟨_, _, rfl, probeFromDict_probeToDict _ nofun, rfl, rfl⟩

end CosaiMcp.Harness
