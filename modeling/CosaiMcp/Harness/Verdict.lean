import CosaiMcp.Harness.Context
import CosaiMcp.Py.Except

/-!
# Every probe has one verdict

`Execution.outcome` is `execute_probe` once the transport has answered with an object or an
exception. A result is read as one of four verdicts (`HasVerdict`). `execute_probe` returns a result
with exactly one of them just where nothing in the reply stops it (`outcome_classified_iff`): the
code of an error is looked up in a set, and a header in whatever `_headers` is.
-/

namespace CosaiMcp.Harness

open Py Catalog Protocol

variable {φ ρ : Type}

/-! ## Verdicts -/

/-- What comes of an execution if the transport yields this reply. -/
def Execution.outcome (reply : Except Str (List (Str × Json φ))) :
    Execution φ → Except Raised (ProbeResult φ)
  | .done result => .ok result
  | .sends _ judge => judge (reply.map .obj)

inductive Verdict where
  | error
  | inconclusive
  | pass
  | finding

section Verdicts

variable [PyFloat φ] (rt : Runtime φ ρ)

/-- The assertion holds of the response. -/
def Holds (response : Json φ) (a : Assertion φ ρ) : Prop :=
  ∃ result, evaluateAssertion rt a response = .ok result ∧ result.passed = true

/-- A pass and a finding are results without an error and without a reason for being inconclusive,
and are about the response. -/
def HasVerdict (probe : Probe φ ρ) (reply : Except Str (List (Str × Json φ))) (r : ProbeResult φ) :
    Verdict → Prop
  | .error => r.error.isSome = true
  | .inconclusive => r.inconclusiveReason.isSome = true ∧ r.passed = false
  | .pass => r.error = none ∧ r.inconclusiveReason = none ∧ r.passed = true ∧
    ∃ ms, reply = .ok ms ∧ ∀ a ∈ probe.assertions, Holds rt (withBody rt (.obj ms)) a
  | .finding => r.error = none ∧ r.inconclusiveReason = none ∧ r.passed = false ∧
    ∃ ms, reply = .ok ms ∧ (∃ a ∈ probe.assertions, ¬ Holds rt (withBody rt (.obj ms)) a) ∧
      ∀ a ∈ probe.corroboration, Holds rt (withBody rt (.obj ms)) a

/-! ## What stops the judging of a reply -/

def readsHeader (a : Assertion φ ρ) : Prop := startsWith a.target headerPrefix = true

/-- `_headers`, if it is there, is a mapping. -/
def HeadersReadable (response : Json φ) : Prop :=
  ∀ headers, response.get? (lit "_headers") = some headers → ∃ ms, headers = .obj ms

/-- The code of an error can be looked up in a set. -/
def CodeHashable (response : Json φ) : Prop := (errorCode response).hashable = true

/-- Nothing in the reply keeps the probe from being judged by it. -/
structure Judgeable (probe : Probe φ ρ) (ms : List (Str × Json φ)) : Prop where
  assertions : (∃ a ∈ probe.assertions, readsHeader a) → HeadersReadable (.obj ms)
  code : detectSchemaMismatch rt.unicode (.obj ms) = none → probeInspectsErrorCode probe = false →
    CodeHashable (.obj ms)
  /-- The corroboration is consulted only where the assertions fail and nothing else is wrong. -/
  corroboration : (∃ a ∈ probe.assertions, ¬ Holds rt (withBody rt (.obj ms)) a) →
    detectSchemaMismatch rt.unicode (.obj ms) = none →
    detectProtocolError rt (.obj ms) probe = .ok none →
    (∃ a ∈ probe.corroboration, readsHeader a) → HeadersReadable (.obj ms)

end Verdicts

/-! ## Assertions on a response -/

section Assertions

variable [PyFloat φ] {rt : Runtime φ ρ} {response : Json φ}

theorem evaluateAssertion_eq_ok_iff {a : Assertion φ ρ} :
    (∃ result, evaluateAssertion rt a response = .ok result) ↔
      (readsHeader a → HeadersReadable response) := by
  have hbind : (∃ result, evaluateAssertion rt a response = .ok result) ↔
      ∃ actual, extractTarget rt response a.target = .ok actual := by
    constructor
    · rintro ⟨result, h⟩
      obtain ⟨actual, hactual, -⟩ := bind_eq_ok_iff.mp h
      exact ⟨actual, hactual⟩
    · rintro ⟨actual, h⟩
      exact ⟨_, bind_eq_ok_iff.mpr ⟨actual, h, rfl⟩⟩
  rw [hbind, extractTarget, readsHeader]
  have hother : ∀ target value, a.target = target → startsWith target headerPrefix = false →
      ((∃ actual, (.ok value : Except Raised (Json φ)) = .ok actual) ↔
        (startsWith a.target headerPrefix = true → HeadersReadable response)) := by
    intro target value htarget hnot
    refine iff_of_true ⟨value, rfl⟩ fun h => ?_
    rw [htarget, hnot] at h
    exact absurd h Bool.false_ne_true
  split
  · next h => exact hother _ _ h (by decide)
  split
  · next h => exact hother _ _ h (by decide)
  split
  · next h => exact hother _ _ h (by decide)
  split
  · next h => exact hother _ _ h (by decide)
  split
  · next hreads =>
    rw [forall_prop_of_true hreads, headerValue]
    cases hheaders : response.get? (lit "_headers") with
    | none => exact iff_of_true ⟨_, rfl⟩ fun headers h => nomatch hheaders.symm.trans h
    | some headers =>
      have hread : HeadersReadable response ↔ ∃ ms, headers = .obj ms := by
        constructor
        · intro h
          exact h headers hheaders
        · intro h headers' hheaders'
          rw [← Option.some.inj (hheaders.symm.trans hheaders')]
          exact h
      rw [hread, Option.getD_some]
      cases headers with
      | obj ms => exact iff_of_true ⟨_, rfl⟩ ⟨ms, rfl⟩
      | _ => exact iff_of_false (fun ⟨_, h⟩ => nomatch h) (fun ⟨_, h⟩ => nomatch h)
  · next hreads => exact iff_of_true ⟨_, rfl⟩ fun h => absurd h hreads

theorem mapM_evaluateAssertion_eq_ok_iff {l : List (Assertion φ ρ)} :
    (∃ results, l.mapM (evaluateAssertion rt · response) = .ok results) ↔
      ((∃ a ∈ l, readsHeader a) → HeadersReadable response) := by
  rw [exists_mapM_eq_ok_iff]
  simp only [evaluateAssertion_eq_ok_iff, forall_exists_index, and_imp]

theorem all_passed_iff {l : List (Assertion φ ρ)} {results : List AssertionResult}
    (h : l.mapM (evaluateAssertion rt · response) = .ok results) :
    results.all (·.passed) = true ↔ ∀ a ∈ l, Holds rt response a := by
  induction l generalizing results with
  | nil =>
    cases h
    exact iff_of_true rfl (List.forall_mem_nil _)
  | cons a l ih =>
    rw [List.mapM_cons] at h
    obtain ⟨result, hresult, h⟩ := bind_eq_ok_iff.mp h
    obtain ⟨rest, hrest, h⟩ := bind_eq_ok_iff.mp h
    cases h
    rw [List.all_cons, Bool.and_eq_true, ih hrest, List.forall_mem_cons]
    refine and_congr_left' ⟨fun hp => ⟨result, hresult, hp⟩, fun ⟨result', hresult', hp⟩ => ?_⟩
    rw [hresult] at hresult'
    cases hresult'
    exact hp

theorem detectProtocolError_eq_ok_iff {probe : Probe φ ρ} :
    (∃ reason, detectProtocolError rt response probe = .ok reason) ↔
      (probeInspectsErrorCode probe = false → CodeHashable response) := by
  unfold detectProtocolError CodeHashable errorCode
  cases probeInspectsErrorCode probe with
  | true => exact iff_of_true ⟨none, rfl⟩ nofun
  | false =>
    rw [forall_prop_of_true rfl, if_neg Bool.false_ne_true]
    cases response.getOrNull (lit "error") with
    | obj ms =>
      simp only
      cases ((Json.obj ms).getOrNull (lit "code")).hashable with
      | false => exact iff_of_false (fun ⟨_, h⟩ => nomatch h) Bool.false_ne_true
      | true =>
        refine iff_of_true ?_ rfl
        rw [Bool.not_true, if_neg Bool.false_ne_true]
        split
        · exact ⟨none, rfl⟩
        · split
          · exact ⟨none, rfl⟩
          · exact ⟨_, rfl⟩
    | _ => exact iff_of_true ⟨none, rfl⟩ rfl

theorem corroborate_eq_ok_iff {probe : Probe φ ρ} :
    (∃ reason, corroborate rt probe response = .ok reason) ↔
      ((∃ a ∈ probe.corroboration, readsHeader a) → HeadersReadable response) := by
  rw [← mapM_evaluateAssertion_eq_ok_iff]
  constructor
  · rintro ⟨reason, h⟩
    obtain ⟨results, hresults, -⟩ := bind_eq_ok_iff.mp h
    exact ⟨results, hresults⟩
  · rintro ⟨results, h⟩
    rw [corroborate, h, ok_bind]
    split
    · exact ⟨none, rfl⟩
    · exact ⟨_, rfl⟩

theorem corroborate_eq_ok_none_iff {probe : Probe φ ρ} :
    corroborate rt probe response = .ok none → ∀ a ∈ probe.corroboration, Holds rt response a := by
  intro h
  obtain ⟨results, hresults, h⟩ := bind_eq_ok_iff.mp h
  refine (all_passed_iff hresults).mp ?_
  by_contra hall
  rw [if_neg hall] at h
  cases h

end Assertions

/-! ## The canonical body changes nothing else -/

section Body

variable [PyFloat φ] {rt : Runtime φ ρ} {d : Json φ}

omit [PyFloat φ] in
theorem get?_withBody {k : Str} (h : lit "_body" ≠ k) : (withBody rt d).get? k = d.get? k :=
  get?_setMember_of_ne h

omit [PyFloat φ] in
theorem getOrNull_withBody {k : Str} (h : lit "_body" ≠ k) :
    (withBody rt d).getOrNull k = d.getOrNull k := by
  rw [Json.getOrNull, get?_withBody h, Json.getOrNull]

theorem detectSchemaMismatch_withBody :
    detectSchemaMismatch rt.unicode (withBody rt d) = detectSchemaMismatch rt.unicode d := by
  rw [detectSchemaMismatch, get?_withBody (by decide), detectSchemaMismatch]

theorem detectProtocolError_withBody {probe : Probe φ ρ} :
    detectProtocolError rt (withBody rt d) probe = detectProtocolError rt d probe := by
  rw [detectProtocolError, getOrNull_withBody (by decide), detectProtocolError]

omit [PyFloat φ] in
theorem headersReadable_withBody : HeadersReadable (withBody rt d) ↔ HeadersReadable d := by
  rw [HeadersReadable, get?_withBody (by decide), HeadersReadable]

end Body

/-! ## Judging a reply -/

section Judge

variable [PyFloat φ] {rt : Runtime φ ρ} {probe : Probe φ ρ} {threatId : Str}
  {ms : List (Str × Json φ)}

/-- The reason that is looked for before the corroboration. -/
def firstReason (rt : Runtime φ ρ) (probe : Probe φ ρ) (response : Json φ) :
    Except Raised (Option (Reason φ)) :=
  match detectSchemaMismatch rt.unicode response with
  | some reason => pure (some reason)
  | none => detectProtocolError rt response probe

/-- Whether the corroboration is consulted. -/
def consulted (probe : Probe φ ρ) (results : List AssertionResult) (reason : Option (Reason φ)) :
    Bool :=
  !results.all (·.passed) && !probe.corroboration.isEmpty && reason.isNone

/-- The result of a probe that was judged by the response. -/
def judged (probe : Probe φ ρ) (threatId : Str) (response : Json φ) (results : List AssertionResult)
    (reason : Option (Reason φ)) : ProbeResult φ :=
  ⟨probe.id, threatId, results.all (·.passed) && reason.isNone, results,
    response.getOrNull (lit "_status_code"), none, reason⟩

theorem judge_obj : judge rt probe threatId (.ok (.obj ms)) =
    probe.assertions.mapM (evaluateAssertion rt · (withBody rt (.obj ms))) >>= fun results =>
      firstReason rt probe (.obj ms) >>= fun first =>
        (if consulted probe results first then corroborate rt probe (withBody rt (.obj ms))
          else .ok first) >>= fun reason =>
            .ok (judged probe threatId (withBody rt (.obj ms)) results reason) := by
  have hfirst : firstReason rt probe (.obj ms) = firstReason rt probe (withBody rt (.obj ms)) := by
    rw [firstReason, firstReason, detectSchemaMismatch_withBody, detectProtocolError_withBody]
  rw [hfirst, judge, asDict, ok_bind]
  refine bind_congr fun results => ?_
  have hsecond : ∀ first : Option (Reason φ),
      (if consulted probe results first then
        corroborate rt probe (withBody rt (.obj ms)) >>= fun reason =>
          pure (judged probe threatId (withBody rt (.obj ms)) results reason)
        else pure first >>= fun reason =>
          pure (judged probe threatId (withBody rt (.obj ms)) results reason)) =
      (if consulted probe results first then corroborate rt probe (withBody rt (.obj ms))
          else .ok first) >>= fun reason =>
            .ok (judged probe threatId (withBody rt (.obj ms)) results reason) := by
    intro first
    cases consulted probe results first <;> rfl
  dsimp only
  rw [firstReason]
  cases detectSchemaMismatch rt.unicode (withBody rt (.obj ms)) with
  | some reason => exact hsecond (some reason)
  | none => exact bind_congr hsecond

theorem firstReason_eq_ok_iff : (∃ first, firstReason rt probe (.obj ms) = .ok first) ↔
    (detectSchemaMismatch rt.unicode (.obj ms) = none → probeInspectsErrorCode probe = false →
      CodeHashable (.obj ms)) := by
  unfold firstReason
  cases detectSchemaMismatch rt.unicode (.obj ms) with
  | some reason => exact iff_of_true ⟨_, rfl⟩ nofun
  | none => rw [forall_prop_of_true rfl, ← detectProtocolError_eq_ok_iff]

theorem firstReason_eq_ok_none_iff : firstReason rt probe (.obj ms) = .ok none ↔
    detectSchemaMismatch rt.unicode (.obj ms) = none ∧
      detectProtocolError rt (.obj ms) probe = .ok none := by
  unfold firstReason
  cases detectSchemaMismatch rt.unicode (.obj ms) with
  | some reason => exact iff_of_false (fun h => nomatch h) (fun h => nomatch h.1)
  | none => exact (and_iff_right rfl).symm

/-- The assertions fail if the corroboration is consulted. -/
theorem consulted_iff {results : List AssertionResult} {first : Option (Reason φ)}
    (h : probe.assertions.mapM (evaluateAssertion rt · (withBody rt (.obj ms))) = .ok results) :
    consulted probe results first = true ↔
      (∃ a ∈ probe.assertions, ¬ Holds rt (withBody rt (.obj ms)) a) ∧
        probe.corroboration ≠ [] ∧ first = none := by
  have hall := all_passed_iff h
  rw [consulted, Bool.and_eq_true, Bool.and_eq_true, Bool.not_eq_true', ← Bool.not_eq_true, hall,
    Bool.not_eq_true', ← Bool.not_eq_true, List.isEmpty_iff, Option.isNone_iff_eq_none, and_assoc]
  simp only [not_forall, exists_prop, ne_eq]

/-- A reply is judged just where nothing in it stops that. -/
theorem exists_judge_eq_ok_iff :
    (∃ r, judge rt probe threatId (.ok (.obj ms)) = .ok r) ↔ Judgeable rt probe ms := by
  constructor
  · rintro ⟨r, h⟩
    rw [judge_obj] at h
    obtain ⟨results, hresults, h⟩ := bind_eq_ok_iff.mp h
    obtain ⟨first, hfirst, h⟩ := bind_eq_ok_iff.mp h
    obtain ⟨reason, hreason, -⟩ := bind_eq_ok_iff.mp h
    refine ⟨?_, firstReason_eq_ok_iff.mp ⟨first, hfirst⟩, fun hfails hschema hprotocol => ?_⟩
    · rw [← headersReadable_withBody]
      exact mapM_evaluateAssertion_eq_ok_iff.mp ⟨results, hresults⟩
    · intro hreads
      obtain rfl : first = none :=
        Except.ok.inj (hfirst.symm.trans (firstReason_eq_ok_none_iff.mpr ⟨hschema, hprotocol⟩))
      have hne : probe.corroboration ≠ [] := by
        obtain ⟨a, ha, -⟩ := hreads
        exact List.ne_nil_of_mem ha
      rw [if_pos ((consulted_iff hresults).mpr ⟨hfails, hne, rfl⟩)] at hreason
      rw [← headersReadable_withBody]
      exact corroborate_eq_ok_iff.mp ⟨reason, hreason⟩ hreads
  · intro h
    have hassertions := h.assertions
    rw [← headersReadable_withBody] at hassertions
    obtain ⟨results, hresults⟩ := mapM_evaluateAssertion_eq_ok_iff.mpr hassertions
    obtain ⟨first, hfirst⟩ := firstReason_eq_ok_iff.mpr h.code
    have hreason : ∃ reason, (if consulted probe results first then
        corroborate rt probe (withBody rt (.obj ms)) else .ok first) = .ok reason := by
      by_cases hconsulted : consulted probe results first = true
      · rw [if_pos hconsulted, corroborate_eq_ok_iff, headersReadable_withBody]
        obtain ⟨hfails, -, rfl⟩ := (consulted_iff hresults).mp hconsulted
        obtain ⟨hschema, hprotocol⟩ := firstReason_eq_ok_none_iff.mp hfirst
        exact h.corroboration hfails hschema hprotocol
      · rw [if_neg hconsulted]
        exact ⟨first, rfl⟩
    obtain ⟨reason, hreason⟩ := hreason
    rw [judge_obj, hresults, ok_bind, hfirst, ok_bind, hreason, ok_bind]
    exact ⟨_, rfl⟩

/-- What was judged has one verdict. -/
theorem hasVerdict_judge {r : ProbeResult φ} (h : judge rt probe threatId (.ok (.obj ms)) = .ok r) :
    ∃! v, HasVerdict rt probe (.ok ms) r v := by
  rw [judge_obj] at h
  obtain ⟨results, hresults, h⟩ := bind_eq_ok_iff.mp h
  obtain ⟨first, hfirst, h⟩ := bind_eq_ok_iff.mp h
  obtain ⟨reason, hreason, h⟩ := bind_eq_ok_iff.mp h
  cases h
  have hall := all_passed_iff hresults
  cases reason with
  | some reason =>
    have hpassed : (judged probe threatId (withBody rt (.obj ms)) results (some reason)).passed =
        false := Bool.and_false _
    refine ⟨.inconclusive, ⟨rfl, hpassed⟩, fun v hv => ?_⟩
    cases v with
    | inconclusive => rfl
    | error => exact absurd hv Bool.false_ne_true
    | pass => exact nomatch hv.2.1
    | finding => exact nomatch hv.2.1
  | none =>
    have hpassed : (judged probe threatId (withBody rt (.obj ms)) results none).passed =
        results.all (·.passed) := Bool.and_true _
    have hnone : ¬ (none : Option (Reason φ)).isSome = true := Bool.false_ne_true
    by_cases hpass : results.all (·.passed) = true
    · refine ⟨.pass, ⟨rfl, rfl, hpassed.trans hpass, ms, rfl, hall.mp hpass⟩, fun v hv => ?_⟩
      cases v with
      | pass => rfl
      | error => exact absurd hv Bool.false_ne_true
      | inconclusive => exact absurd hv.1 hnone
      | finding => exact absurd ((hpassed.trans hpass).symm.trans hv.2.2.1) Bool.true_eq_false.mp
    · have hfails : ∃ a ∈ probe.assertions, ¬ Holds rt (withBody rt (.obj ms)) a := by
        rw [hall] at hpass
        push Not at hpass
        exact hpass
      have hcorroborated : ∀ a ∈ probe.corroboration, Holds rt (withBody rt (.obj ms)) a := by
        by_cases hconsulted : consulted probe results first = true
        · rw [if_pos hconsulted] at hreason
          exact corroborate_eq_ok_none_iff hreason
        · rw [if_neg hconsulted] at hreason
          have hempty : probe.corroboration = [] := by
            by_contra hne
            exact hconsulted ((consulted_iff hresults).mpr ⟨hfails, hne, Except.ok.inj hreason⟩)
          rw [hempty]
          exact List.forall_mem_nil _
      have hfailed := hpassed.trans (Bool.not_eq_true _ ▸ hpass)
      refine ⟨.finding, ⟨rfl, rfl, hfailed, ms, rfl, hfails, hcorroborated⟩, fun v hv => ?_⟩
      cases v with
      | finding => rfl
      | error => exact absurd hv Bool.false_ne_true
      | inconclusive => exact absurd hv.1 hnone
      | pass => exact absurd (hpassed.symm.trans hv.2.2.1) hpass

end Judge

/-! ## Executing a probe -/

section Execute

variable [PyFloat φ] (rt : Runtime φ ρ) (era : ProtocolEra) (targetUrl : Str) (vars : Dict Str Str)
  (probe : Probe φ ρ)

/-- The probe is for the era of the session, and its payload can be filled in. -/
def SendsRequest : Prop :=
  (∀ required, probe.requiresProtocolEra = some required → era.value = required) ∧
    ∃ payload, substituteProbePayload (probeVariables targetUrl vars)
      (toJsonSafe (.proxy probe.payload)) = .ok payload

theorem executeProbe_cases (threatId : Str) :
    (¬ SendsRequest era targetUrl vars probe ∧ ∃ error reason,
      error.isSome = !reason.isSome ∧ executeProbe rt era targetUrl vars probe threatId =
        .done (makeProbeResult probe threatId error reason)) ∨
    SendsRequest era targetUrl vars probe ∧ ∃ request,
      executeProbe rt era targetUrl vars probe threatId =
        .sends request (judge rt probe threatId) := by
  have hexecute : (∀ required, probe.requiresProtocolEra = some required → era.value = required) →
      (¬ SendsRequest era targetUrl vars probe ∧ ∃ error reason, error.isSome = !reason.isSome ∧
        executeProbe.execute rt targetUrl vars probe threatId =
          .done (makeProbeResult probe threatId error reason)) ∨
      SendsRequest era targetUrl vars probe ∧ ∃ request,
        executeProbe.execute rt targetUrl vars probe threatId =
          .sends request (judge rt probe threatId) := by
    intro hera
    rw [SendsRequest, executeProbe.execute]
    cases substituteProbePayload (probeVariables targetUrl vars)
      (toJsonSafe (.proxy probe.payload)) with
    | error e =>
      left
      refine ⟨?_, some (.template e), none, rfl, rfl⟩
      rintro ⟨-, payload, ⟨⟩⟩
    | ok payload => exact .inr ⟨⟨hera, payload, rfl⟩, _, rfl⟩
  unfold executeProbe
  split
  · next required hrequired =>
    by_cases hera : era.value = required
    · rw [if_neg (not_not_intro hera)]
      apply hexecute
      intro required' hrequired'
      rw [← Option.some.inj (hrequired.symm.trans hrequired')]
      exact hera
    · rw [if_pos hera]
      exact .inl ⟨fun h => hera (h.1 required hrequired), none, _, rfl, rfl⟩
  · next hnone => exact hexecute fun required h => nomatch hnone.symm.trans h

variable {reply : Except Str (List (Str × Json φ))}

/-- A result without a response has one verdict: it has an error, or a reason for being
inconclusive. -/
theorem hasVerdict_makeProbeResult {threatId : Str} {error : Option Fault}
    {reason : Option (Reason φ)} (h : error.isSome = !reason.isSome) :
    ∃! v, HasVerdict rt probe reply (makeProbeResult probe threatId error reason) v := by
  cases error with
  | some e =>
    cases reason with
    | some reason => cases h
    | none =>
      refine ⟨.error, rfl, fun v hv => ?_⟩
      cases v with
      | error => rfl
      | inconclusive => exact absurd hv.1 Bool.false_ne_true
      | pass => exact nomatch hv.1
      | finding => exact nomatch hv.1
  | none =>
    cases reason with
    | none => cases h
    | some reason =>
      refine ⟨.inconclusive, ⟨rfl, rfl⟩, fun v hv => ?_⟩
      cases v with
      | inconclusive => rfl
      | error => exact absurd hv Bool.false_ne_true
      | pass => exact nomatch hv.2.1
      | finding => exact nomatch hv.2.1

/-- Executing a probe returns a result with exactly one verdict just where nothing in the reply to
its request keeps it from being judged. -/
theorem outcome_classified_iff {threatId : Str} :
    (∃ r, (executeProbe rt era targetUrl vars probe threatId).outcome reply = .ok r ∧
      ∃! v, HasVerdict rt probe reply r v) ↔
    (SendsRequest era targetUrl vars probe → ∀ ms, reply = .ok ms → Judgeable rt probe ms) := by
  rcases executeProbe_cases rt era targetUrl vars probe threatId with
    ⟨hsends, error, reason, hone, heq⟩ | ⟨hsends, request, heq⟩
  · rw [heq]
    exact iff_of_true ⟨_, rfl, hasVerdict_makeProbeResult rt probe hone⟩
      fun h => absurd h hsends
  · rw [heq, forall_prop_of_true hsends]
    cases reply with
    | error text =>
      refine iff_of_true ⟨_, rfl, hasVerdict_makeProbeResult rt probe rfl⟩ fun ms h => nomatch h
    | ok ms =>
      constructor
      · rintro ⟨r, h, -⟩ _ ⟨⟩
        exact exists_judge_eq_ok_iff.mp ⟨r, h⟩
      · intro h
        have hjudge : ∃ r, judge rt probe threatId (.ok (.obj ms)) = .ok r :=
          exists_judge_eq_ok_iff.mpr (h ms rfl)
        obtain ⟨r, hr⟩ := hjudge
        exact ⟨r, hr, hasVerdict_judge hr⟩

end Execute

/-! ## A code that is no number -/

/-- A probe that asks for the tools, and expects an error. -/
def errorProbe : Probe WholeFloat Unit :=
  ⟨lit "T01-001-P1", lit "http", lit "tools/list", [],
    [⟨lit "response.error", .eq, .scalar (.bool true) (Json.hashable_bool true), none⟩], none,
    .int 1, none, [], false, none⟩

def blankRuntime : Runtime WholeFloat Unit where
  str
    | .str s => s
    | _ => []
  strTuple _ := []
  dumps _ := []
  compile _ := none
  search _ _ := false
  unicode := .ascii
  str_str := @Json.strOrNil_str WholeFloat

/-- The server answers with an error whose code is a list, and there is no result. -/
theorem listCode_raises : ¬ ∃ r,
    (executeProbe blankRuntime .legacy (lit "http://127.0.0.1/mcp") .empty errorProbe
      (lit "T01-001")).outcome
        (.ok [(lit "error", .obj [(lit "code", .arr []), (lit "message", .str [])])]) = .ok r ∧
      ∃! v, HasVerdict blankRuntime errorProbe
        (.ok [(lit "error", .obj [(lit "code", .arr []), (lit "message", .str [])])]) r v := by
  rintro ⟨r, h, -⟩
  cases h

end CosaiMcp.Harness
