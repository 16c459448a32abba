import CosaiMcp.Stateful.Exchanges

/-!
# Does a run end, and is a pass clean?

A run that ends without a fault says `passed` exactly if the handshake went through, the server has
the tools, and the exchanges are clean (`Clean`). It is raised through where a value of the server
has a type that nothing asks for (`Sound`).
-/

namespace CosaiMcp.Stateful

open Py Protocol Session

variable {φ : Type} [PyFloat φ] (str repr : Json φ → Str)

/-! ## The checks, on exchanges -/

namespace Exchange

/-- The code of the error that a step of a non-standard method got. -/
def code? (x : Exchange φ) : Option (Json φ) :=
  if x.step.action.method ∈ standardMcpMethods then none else errorCode? x.response

/-- A non-standard method got an error of protocol validation. -/
def unsupported (x : Exchange φ) : Bool :=
  match x.code? with
  | some code => isElement code unsupportedMethodCodes
  | none => false

def HashableCode (x : Exchange φ) : Prop := ∀ code, x.code? = some code → code.hashable = true

/-- The names of the tools that a step lists. -/
def toolNames (x : Exchange φ) : Option (List Str) :=
  if x.step.action.method = lit "tools/list" then manifestToolNames str x.response else none

def isCall (x : Exchange φ) : Bool := x.step.action.method = lit "tools/call"

/-- An error of JSON-RPC, or a result that says it is an error. -/
def Rejected (x : Exchange φ) : Prop :=
  x.response.getOrNull (lit "error") ≠ .null ∨
    ∃ ms, x.response.getOrNull (lit "result") = .obj ms ∧
      ((Json.obj ms).getOrNull (lit "isError")).truthy = true

end Exchange

/-- What a pass says of the exchanges. -/
structure Clean (loopBudgetCheck : Bool) (xs : List (Exchange φ)) : Prop where
  satisfied : ∀ x ∈ xs, x.Satisfied
  supported : ∀ x ∈ xs, x.unsupported = false
  oneManifest : ∀ x ∈ xs, ∀ y ∈ xs, ∀ a b, x.toolNames str = some a → y.toolNames str = some b →
    ∀ s, s ∈ a ↔ s ∈ b
  bounded : loopBudgetCheck = true → 2 ≤ (xs.filter Exchange.isCall).length →
    ∀ x, (xs.filter Exchange.isCall).getLast? = some x → x.Rejected

/-! ## Unsupported methods -/

theorem isElement_of_not_hashable {code : Json φ} (h : code.hashable = false) :
    isElement code unsupportedMethodCodes = false := by
  cases code with
  | arr js => rfl
  | obj ms => rfl
  | _ => cases h

theorem scenarioMethodNotFound_cons {x : Exchange φ} {r : StepResult φ} (h : Reports r x)
    (pairs : List (ScenarioStep φ × StepResult φ)) :
    (∃ label, scenarioMethodNotFound ((x.step, r) :: pairs) =
      match x.code? with
      | none => scenarioMethodNotFound pairs
      | some code => do
        if ← isUnsupported code then return some label else scenarioMethodNotFound pairs) := by
  unfold Exchange.code?
  rw [scenarioMethodNotFound, h.response]
  by_cases hm : x.step.action.method ∈ standardMcpMethods
  · rw [if_pos hm, if_pos hm]
    exact ⟨[], rfl⟩
  · rw [if_neg hm, if_neg hm, Option.bind_some]
    cases errorCode? x.response with
    | none => exact ⟨[], rfl⟩
    | some code => exact ⟨_, rfl⟩

theorem scenarioMethodNotFound_total_iff {rs : List (StepResult φ)} {xs : List (Exchange φ)}
    (h : List.Forall₂ Reports rs xs) :
    (∃ o, scenarioMethodNotFound ((xs.map Exchange.step).zip rs) = .ok o) ↔
      ∀ x ∈ xs.takeWhile fun x => !x.unsupported, x.HashableCode := by
  induction h with
  | nil => exact ⟨fun _ => nofun, fun _ => ⟨none, rfl⟩⟩
  | @cons r x rs xs hr _ ih =>
    obtain ⟨label, hlabel⟩ := scenarioMethodNotFound_cons hr ((xs.map Exchange.step).zip rs)
    rw [List.map_cons, List.zip_cons_cons, hlabel, List.takeWhile_cons]
    cases hcode : x.code? with
    | none =>
      have hu : x.unsupported = false := by rw [Exchange.unsupported, hcode]
      rw [hu, Bool.not_false, if_pos rfl, List.forall_mem_cons, ← ih]
      refine (and_iff_right fun code hc => ?_).symm
      rw [hcode] at hc
      cases hc
    | some code =>
      have hu : x.unsupported = isElement code unsupportedMethodCodes := by
        rw [Exchange.unsupported, hcode]
      rw [hu]
      dsimp only
      unfold isUnsupported
      by_cases hhash : code.hashable = true
      · have hok : x.HashableCode := fun c hc => by
          rw [hcode] at hc
          cases hc
          exact hhash
        rw [if_pos hhash, ok_bind]
        cases isElement code unsupportedMethodCodes with
        | true => exact ⟨fun _ => nofun, fun _ => ⟨_, rfl⟩⟩
        | false =>
          rw [if_neg Bool.false_ne_true, Bool.not_false, if_pos rfl, List.forall_mem_cons, ← ih]
          exact (and_iff_right hok).symm
      · have hfalse : code.hashable = false := Bool.eq_false_iff.mpr hhash
        rw [if_neg hhash, isElement_of_not_hashable hfalse]
        constructor
        · exact fun ⟨o, ho⟩ => nomatch ho
        · intro hall
          exact absurd (hall x List.mem_cons_self code hcode) hhash

theorem scenarioMethodNotFound_eq_none_iff {rs : List (StepResult φ)} {xs : List (Exchange φ)}
    (h : List.Forall₂ Reports rs xs) {o : Option Str}
    (ho : scenarioMethodNotFound ((xs.map Exchange.step).zip rs) = .ok o) :
    o = none ↔ ∀ x ∈ xs, x.unsupported = false := by
  induction h with
  | nil =>
    cases ho
    exact ⟨fun _ => nofun, fun _ => rfl⟩
  | @cons r x rs xs hr _ ih =>
    obtain ⟨label, hlabel⟩ := scenarioMethodNotFound_cons hr ((xs.map Exchange.step).zip rs)
    rw [List.map_cons, List.zip_cons_cons, hlabel] at ho
    rw [List.forall_mem_cons]
    cases hcode : x.code? with
    | none =>
      have hu : x.unsupported = false := by rw [Exchange.unsupported, hcode]
      rw [hcode] at ho
      rw [ih ho, and_iff_right hu]
    | some code =>
      have hu : x.unsupported = isElement code unsupportedMethodCodes := by
        rw [Exchange.unsupported, hcode]
      rw [hcode] at ho
      rw [hu]
      obtain ⟨b, hb, ho⟩ := bind_eq_ok_iff.mp ho
      unfold isUnsupported at hb
      by_cases hhash : code.hashable = true
      · rw [if_pos hhash] at hb
        cases hb
        by_cases he : isElement code unsupportedMethodCodes = true
        · rw [if_pos he] at ho
          cases ho
          exact ⟨nofun, fun h => absurd (he.symm.trans h.1) (by simp)⟩
        · rw [if_neg he] at ho
          rw [ih ho, and_iff_right (Bool.eq_false_iff.mpr he)]
      · rw [if_neg hhash] at hb
        cases hb

/-! ## Drift -/

theorem sameTexts_iff {a b : List Str} : sameTexts a b = true ↔ ∀ s, s ∈ a ↔ s ∈ b := by
  simp only [sameTexts, Bool.and_eq_true, List.all_eq_true, decide_eq_true_eq]
  exact ⟨fun h s => ⟨h.1 s, h.2 s⟩, fun h => ⟨fun s => (h s).mp, fun s => (h s).mpr⟩⟩

theorem map_manifestOf {rs : List (StepResult φ)} {xs : List (Exchange φ)}
    (h : List.Forall₂ Reports rs xs) :
    (((xs.map Exchange.step).zip rs).filterMap (manifestOf str)).map Prod.snd =
      xs.filterMap (Exchange.toolNames str) := by
  induction h with
  | nil => rfl
  | @cons r x rs xs hr _ ih =>
    have hone : (manifestOf str (x.step, r)).map Prod.snd = x.toolNames str := by
      unfold manifestOf Exchange.toolNames
      by_cases hm : x.step.action.method = lit "tools/list"
      · rw [if_pos hm, if_pos hm, hr.response, Option.bind_some, Option.map_map]
        exact Option.map_id' (x := manifestToolNames str x.response)
      · rw [if_neg hm, if_neg hm]
        rfl
    rw [List.map_cons, List.zip_cons_cons, List.filterMap_cons, List.filterMap_cons, ← hone]
    cases manifestOf str (x.step, r) with
    | none => exact ih
    | some m => rw [Option.map_some, List.map_cons, ih]

theorem detectManifestDrift_eq_none_iff {rs : List (StepResult φ)} {xs : List (Exchange φ)}
    (h : List.Forall₂ Reports rs xs) (n : Nat) :
    detectManifestDrift str repr ((xs.map Exchange.step).zip rs) n = none ↔
      ∀ x ∈ xs, ∀ y ∈ xs, ∀ a b, x.toolNames str = some a → y.toolNames str = some b →
        ∀ s, s ∈ a ↔ s ∈ b := by
  have hnames := map_manifestOf str h
  have hmem : ∀ a, a ∈ xs.filterMap (Exchange.toolNames str) ↔
      ∃ x ∈ xs, x.toolNames str = some a := fun a => List.mem_filterMap
  have hpairs : (∀ x ∈ xs, ∀ y ∈ xs, ∀ a b, x.toolNames str = some a → y.toolNames str = some b →
        ∀ s, s ∈ a ↔ s ∈ b) ↔
      ∀ a ∈ xs.filterMap (Exchange.toolNames str), ∀ b ∈ xs.filterMap (Exchange.toolNames str),
        ∀ s, s ∈ a ↔ s ∈ b := by
    simp only [hmem]
    exact ⟨fun h a ⟨x, hx, ha⟩ b ⟨y, hy, hb⟩ => h x hx y hy a b ha hb,
      fun h x hx y hy a b ha hb => h a ⟨x, hx, ha⟩ b ⟨y, hy, hb⟩⟩
  rw [hpairs, ← hnames, detectManifestDrift]
  cases ((xs.map Exchange.step).zip rs).filterMap (manifestOf str) with
  | nil => exact ⟨fun _ => nofun, fun _ => rfl⟩
  | cons baseline manifests =>
    dsimp only
    rw [Option.map_eq_none_iff, List.find?_eq_none, List.map_cons]
    simp only [Bool.not_eq_true', Bool.not_eq_false, sameTexts_iff]
    constructor
    · intro hall
      -- every list is that of the baseline
      have hbase : ∀ a ∈ baseline.2 :: manifests.map Prod.snd, ∀ s, s ∈ a ↔ s ∈ baseline.2 := by
        intro a ha s
        rcases List.mem_cons.mp ha with rfl | ha
        · exact Iff.rfl
        · obtain ⟨m, hm, rfl⟩ := List.mem_map.mp ha
          exact hall m hm s
      exact fun a ha b hb s => (hbase a ha s).trans (hbase b hb s).symm
    · exact fun hall m hm => hall m.2 (List.mem_cons_of_mem _ (List.mem_map_of_mem hm))
        baseline.2 List.mem_cons_self

/-! ## Loops -/

theorem resolvePath_error {response : Json φ} :
    (resolvePath response (lit "error")).isNull = false ↔
      response.getOrNull (lit "error") ≠ .null ∨
        ∃ ms, response.getOrNull (lit "result") = .obj ms ∧
          ((Json.obj ms).getOrNull (lit "isError")).truthy = true := by
  unfold resolvePath
  rw [if_pos rfl]
  cases response.getOrNull (lit "error") with
  | null =>
    cases response.getOrNull (lit "result") with
    | obj ms =>
      dsimp only
      by_cases ht : ((Json.obj ms).getOrNull (lit "isError")).truthy = true
      · rw [if_pos ht]
        exact ⟨fun _ => Or.inr ⟨ms, rfl, ht⟩, fun _ => rfl⟩
      · rw [if_neg ht]
        refine ⟨nofun, ?_⟩
        rintro (h | ⟨_, h, ht'⟩)
        · exact absurd rfl h
        · cases h
          exact absurd ht' ht
    | _ =>
      refine ⟨nofun, ?_⟩
      rintro (h | ⟨_, h, _⟩)
      · exact absurd rfl h
      · cases h
  | _ => exact ⟨fun _ => Or.inl nofun, fun _ => rfl⟩

theorem isRejected_iff {r : StepResult φ} {x : Exchange φ} (h : Reports r x) :
    isRejected r = true ↔ x.Rejected := by
  unfold isRejected Exchange.Rejected
  rw [h.response, ← resolvePath_error, Bool.not_eq_true']

/-- The calls of the results are those of the exchanges. -/
theorem forall₂_calls {rs : List (StepResult φ)} {xs : List (Exchange φ)}
    (h : List.Forall₂ Reports rs xs) :
    List.Forall₂ Reports
      ((((xs.map Exchange.step).zip rs).filter (·.1.action.method = lit "tools/call")).map Prod.snd)
      (xs.filter Exchange.isCall) := by
  induction h with
  | nil => exact .nil
  | @cons r x rs xs hr _ ih =>
    rw [List.map_cons, List.zip_cons_cons, List.filter_cons, List.filter_cons, Exchange.isCall]
    by_cases hm : decide (x.step.action.method = lit "tools/call") = true
    · rw [if_pos hm, if_pos hm]
      exact .cons hr ih
    · rw [if_neg hm, if_neg hm]
      exact ih

theorem forall₂_getLast? {α β : Type} {R : α → β → Prop} {as : List α} {bs : List β}
    (h : List.Forall₂ R as bs) : Option.Rel R as.getLast? bs.getLast? := by
  rw [List.getLast?_eq_head?_reverse, List.getLast?_eq_head?_reverse]
  have hrev := List.rel_reverse h
  generalize as.reverse = as' at hrev
  generalize bs.reverse = bs' at hrev
  cases hrev with
  | nil => exact .none
  | cons hab _ => exact .some hab

theorem detectUnboundedToolLoop_eq_none_iff {rs : List (StepResult φ)} {xs : List (Exchange φ)}
    (h : List.Forall₂ Reports rs xs) (n : Nat) :
    detectUnboundedToolLoop ((xs.map Exchange.step).zip rs) n = none ↔
      (2 ≤ (xs.filter Exchange.isCall).length →
        ∀ x, (xs.filter Exchange.isCall).getLast? = some x → x.Rejected) := by
  have hcalls := forall₂_calls h
  unfold detectUnboundedToolLoop
  dsimp only
  generalize (((xs.map Exchange.step).zip rs).filter
    (·.1.action.method = lit "tools/call")).map Prod.snd = calls at hcalls
  have hlast := forall₂_getLast? hcalls
  rw [hcalls.length_eq]
  generalize (xs.filter Exchange.isCall).getLast? = lastCall at hlast
  by_cases hlen : (xs.filter Exchange.isCall).length < 2
  · rw [if_pos hlen]
    exact ⟨fun _ h2 => absurd h2 (Nat.not_le.mpr hlen), fun _ => rfl⟩
  · rw [if_neg hlen]
    generalize calls.getLast? = last at hlast
    cases hlast with
    | none => exact ⟨fun _ _ => nofun, fun _ => rfl⟩
    | @some r x hr =>
      dsimp only
      constructor
      · intro hnone _ x' hx'
        cases hx'
        refine (isRejected_iff hr).mp ?_
        by_contra hrejected
        rw [if_neg hrejected] at hnone
        cases hnone
      · intro hall
        exact if_pos ((isRejected_iff hr).mpr (hall (Nat.not_lt.mp hlen) x rfl))

/-! ## The conclusion -/

omit [PyFloat φ] in
theorem not_passed_of_drift {pairs : List (ScenarioStep φ × StepResult φ)} {n : Nat}
    {r : StepResult φ} (h : detectManifestDrift str repr pairs n = some r) : r.passed = false := by
  unfold detectManifestDrift at h
  split at h
  · cases h
  · obtain ⟨m, -, rfl⟩ := Option.map_eq_some_iff.mp h
    rfl

theorem not_passed_of_loop {pairs : List (ScenarioStep φ × StepResult φ)} {n : Nat}
    {r : StepResult φ} (h : detectUnboundedToolLoop pairs n = some r) : r.passed = false := by
  unfold detectUnboundedToolLoop at h
  dsimp only at h
  split at h
  · cases h
  · split at h
    · cases h
    · split at h
      · cases h
      · cases h
        rfl

omit [PyFloat φ] in
/-- A result that is added never passes. -/
theorem all_passed_toList_iff {o : Option (StepResult φ)}
    (h : ∀ r, o = some r → r.passed = false) : o.toList.all StepResult.passed = true ↔ o = none := by
  cases o with
  | none => exact ⟨fun _ => rfl, fun _ => rfl⟩
  | some r => simp [h r rfl]

theorem all_passed_iff {rs : List (StepResult φ)} {xs : List (Exchange φ)}
    (h : List.Forall₂ Reports rs xs) :
    rs.all StepResult.passed = true ↔ ∀ x ∈ xs, x.Satisfied := by
  induction h with
  | nil => exact ⟨fun _ => nofun, fun _ => rfl⟩
  | cons hr _ ih => rw [List.all_cons, Bool.and_eq_true, ih, hr.passed, List.forall_mem_cons]

section Conclude

variable {scenario : Scenario φ} {rs : List (StepResult φ)} {xs : List (Exchange φ)}

theorem conclude_total_iff (h : List.Forall₂ Reports rs xs)
    (hsteps : xs.map Exchange.step = scenario.steps) :
    (∃ r, conclude str repr scenario rs = .ok r) ↔
      ∀ x ∈ xs.takeWhile fun x => !x.unsupported, x.HashableCode := by
  rw [← scenarioMethodNotFound_total_iff h, hsteps, conclude]
  constructor
  · rintro ⟨r, hr⟩
    obtain ⟨o, ho, -⟩ := bind_eq_ok_iff.mp hr
    exact ⟨o, ho⟩
  · rintro ⟨o, ho⟩
    rw [ho, ok_bind]
    cases o <;> exact ⟨_, rfl⟩

/-- A conclusion that passes is one of a clean run, and is complete. -/
theorem conclude_passed_iff (h : List.Forall₂ Reports rs xs)
    (hsteps : xs.map Exchange.step = scenario.steps) {r : ScenarioResult φ}
    (hr : conclude str repr scenario rs = .ok r) :
    (r.passed = true ↔ Clean str scenario.loopBudgetCheck xs) ∧
      (r.passed = true → r.status = .complete) := by
  rw [conclude, ← hsteps] at hr
  obtain ⟨o, ho, hr⟩ := bind_eq_ok_iff.mp hr
  have hunsupported := scenarioMethodNotFound_eq_none_iff h ho
  cases o with
  | some step =>
    cases hr
    refine ⟨⟨nofun, fun hc => ?_⟩, nofun⟩
    cases hunsupported.mpr hc.supported
  | none =>
    have hzip : ∀ l : List (StepResult φ),
        (xs.map Exchange.step).zip (rs ++ l) = (xs.map Exchange.step).zip rs := by
      intro l
      have hlen : (xs.map Exchange.step).length = rs.length := by
        rw [List.length_map, h.length_eq]
      have happend := @List.zip_append _ _ _ [] _ l hlen
      rwa [List.append_nil, List.zip_nil_left, List.append_nil] at happend
    dsimp only at hr
    rw [hzip] at hr
    cases hr
    refine ⟨?_, fun _ => rfl⟩
    have hloop : ∀ n, (if scenario.loopBudgetCheck then
        (detectUnboundedToolLoop ((xs.map Exchange.step).zip rs) n).toList else []).all
          StepResult.passed = true ↔ (scenario.loopBudgetCheck = true →
        2 ≤ (xs.filter Exchange.isCall).length →
          ∀ x, (xs.filter Exchange.isCall).getLast? = some x → x.Rejected) := by
      intro n
      by_cases hcheck : scenario.loopBudgetCheck = true
      · rw [if_pos hcheck, all_passed_toList_iff fun r hr => not_passed_of_loop hr,
          detectUnboundedToolLoop_eq_none_iff h]
        exact ⟨fun hl _ => hl, fun hl => hl hcheck⟩
      · rw [if_neg hcheck]
        exact ⟨fun _ hc => absurd hc hcheck, fun _ => rfl⟩
    have hpassed : ∀ l : List (StepResult φ), (resultOf scenario .complete
        (l.all StepResult.passed) l none).passed = l.all StepResult.passed := fun _ => rfl
    rw [hpassed, List.all_append, List.all_append, Bool.and_eq_true, Bool.and_eq_true,
      all_passed_iff h, all_passed_toList_iff fun r hr => not_passed_of_drift str repr hr,
      detectManifestDrift_eq_none_iff str repr h, hloop]
    constructor
    · rintro ⟨⟨h1, h2⟩, h3⟩
      exact ⟨h1, hunsupported.mp rfl, h2, h3⟩
    · exact fun hc => ⟨⟨hc.satisfied, hc.oneManifest⟩, hc.bounded⟩

end Conclude

/-! ## The tools -/

/-- Each of the tools is an object, and its name is no list and no object. -/
def NamedTools (manifest : Json φ) : Prop :=
  ∃ tools, iterate manifest = .ok tools ∧ ∀ tool ∈ tools, (∃ ms, tool = .obj ms) ∧
    ((tool.get? (lit "name")).getD (.str [])).hashable = true

/-- The names of the tools. -/
def namesOf (manifest : Json φ) : List (Json φ) :=
  match iterate manifest with
  | .ok tools => tools.map fun tool => (tool.get? (lit "name")).getD (.str [])
  | .error _ => []

/-- The server has the tools that the steps call, or none at all. -/
def HasTools (scenario : Scenario φ) (manifest : Json φ) : Prop :=
  namesOf manifest = [] ∨ ∀ step ∈ scenario.steps, ∀ name, calledTool step = some name →
    isElement name (namesOf manifest) = true

/-- The name of a call is no list and no object, and is a text if the server has no such tool. -/
def NamedCalls (scenario : Scenario φ) (manifest : Json φ) : Prop :=
  namesOf manifest ≠ [] → ∀ step ∈ scenario.steps, ∀ name, calledTool step = some name →
    name.hashable = true ∧ (isElement name (namesOf manifest) = false → ∃ s, name = .str s)

omit [PyFloat φ] in
theorem toolName_eq_ok_iff {tool name : Json φ} :
    toolName tool = .ok name ↔ (∃ ms, tool = .obj ms) ∧
      ((tool.get? (lit "name")).getD (.str [])).hashable = true ∧
        name = (tool.get? (lit "name")).getD (.str []) := by
  unfold toolName
  cases tool with
  | obj ms =>
    rw [getDefault, ok_bind]
    by_cases hh : (((Json.obj ms).get? (lit "name")).getD (.str [])).hashable = true
    · rw [if_pos hh]
      exact ⟨fun h => ⟨⟨ms, rfl⟩, hh, (Except.ok.inj h).symm⟩, fun h => congrArg _ h.2.2.symm⟩
    · rw [if_neg hh]
      exact ⟨by rintro ⟨⟩, fun h => absurd h.2.1 hh⟩
  | _ => exact ⟨by rintro ⟨⟩, by rintro ⟨⟨_, ⟨⟩⟩, _⟩⟩

omit [PyFloat φ] in
theorem availableTools_eq_ok_iff {manifest : Json φ} {names : List (Json φ)} :
    availableTools manifest = .ok names ↔ NamedTools manifest ∧ names = namesOf manifest := by
  unfold availableTools NamedTools namesOf
  cases iterate manifest with
  | error e => exact ⟨nofun, fun ⟨⟨_, h, _⟩, _⟩ => nomatch h⟩
  | ok tools =>
    rw [ok_bind]
    have hread : (∀ tool ∈ tools, (∃ ms, tool = .obj ms) ∧
        ((tool.get? (lit "name")).getD (.str [])).hashable = true) →
          tools.mapM toolName =
            .ok (tools.map fun tool => (tool.get? (lit "name")).getD (.str [])) := by
      intro hall
      have h := mapM_map_eq_ok (l := tools) (g := id) (f := toolName)
        (c := fun tool => (tool.get? (lit "name")).getD (.str [])) fun tool ht =>
          toolName_eq_ok_iff.mpr ⟨(hall tool ht).1, (hall tool ht).2, rfl⟩
      rwa [List.map_id] at h
    constructor
    · intro h
      have hall : ∀ tool ∈ tools, (∃ ms, tool = .obj ms) ∧
          ((tool.get? (lit "name")).getD (.str [])).hashable = true := by
        intro tool ht
        obtain ⟨name, hname⟩ := exists_mapM_eq_ok_iff.mp ⟨names, h⟩ tool ht
        have hname := toolName_eq_ok_iff.mp hname
        exact ⟨hname.1, hname.2.1⟩
      exact ⟨⟨tools, rfl, hall⟩, Except.ok.inj (h.symm.trans (hread hall))⟩
    · rintro ⟨⟨tools', heq, hall⟩, rfl⟩
      cases heq
      exact hread hall

theorem mapM_check_eq_ok_iff {α ε : Type} {p : α → Bool} {e : ε} {l m : List α} :
    (l.mapM fun a => if p a then Except.ok a else .error e) = .ok m ↔
      (∀ a ∈ l, p a = true) ∧ m = l := by
  rw [mapM_eq_ok_iff]
  induction l generalizing m with
  | nil =>
    cases m with
    | nil => exact ⟨fun _ => ⟨nofun, rfl⟩, fun _ => rfl⟩
    | cons b m => exact ⟨nofun, fun h => nomatch h.2⟩
  | cons a l ih =>
    cases m with
    | nil => exact ⟨nofun, fun h => nomatch h.2⟩
    | cons b m =>
      rw [List.map_cons, List.map_cons, List.cons.injEq, ih, List.forall_mem_cons, List.cons.injEq]
      by_cases ha : p a = true
      · rw [if_pos ha, Except.ok.injEq]
        exact ⟨fun h => ⟨⟨ha, h.2.1⟩, h.1.symm, h.2.2⟩, fun h => ⟨h.2.1.symm, h.1.2, h.2.2⟩⟩
      · rw [if_neg ha]
        exact ⟨fun h => (nomatch h.1), fun h => absurd h.1.1 ha⟩

section Tools

variable {scenario : Scenario φ} {manifest : Json φ} {missing : List (Json φ)}

theorem missingTools_eq_ok_iff :
    missingTools scenario manifest = .ok missing ↔ NamedTools manifest ∧
      (namesOf manifest ≠ [] →
        ∀ name ∈ scenario.steps.filterMap calledTool, name.hashable = true) ∧
      missing = if namesOf manifest = [] then [] else
        (scenario.steps.filterMap calledTool).filter fun name =>
          !isElement name (namesOf manifest) := by
  unfold missingTools
  rw [bind_eq_ok_iff]
  simp only [availableTools_eq_ok_iff]
  by_cases hnames : namesOf manifest = []
  · rw [if_pos hnames]
    constructor
    · rintro ⟨_, ⟨hnamed, rfl⟩, h⟩
      rw [if_pos hnames] at h
      cases h
      exact ⟨hnamed, fun h => absurd hnames h, rfl⟩
    · rintro ⟨hnamed, -, rfl⟩
      exact ⟨_, ⟨hnamed, rfl⟩, by rw [if_pos hnames]; rfl⟩
  · rw [if_neg hnames]
    constructor
    · rintro ⟨_, ⟨hnamed, rfl⟩, h⟩
      rw [if_neg hnames] at h
      obtain ⟨required, hrequired, h⟩ := bind_eq_ok_iff.mp h
      obtain ⟨hall, rfl⟩ := mapM_check_eq_ok_iff.mp hrequired
      cases h
      exact ⟨hnamed, fun _ => hall, rfl⟩
    · rintro ⟨hnamed, hall, rfl⟩
      refine ⟨_, ⟨hnamed, rfl⟩, ?_⟩
      rw [if_neg hnames]
      exact bind_eq_ok_iff.mpr ⟨_, mapM_check_eq_ok_iff.mpr ⟨hall hnames, rfl⟩, rfl⟩

theorem missingTools_nil_iff (h : missingTools scenario manifest = .ok missing) :
    missing = [] ↔ HasTools scenario manifest := by
  obtain ⟨-, -, rfl⟩ := missingTools_eq_ok_iff.mp h
  unfold HasTools
  by_cases hnames : namesOf manifest = []
  · rw [if_pos hnames]
    exact ⟨fun _ => Or.inl hnames, fun _ => rfl⟩
  · rw [if_neg hnames, List.filter_eq_nil_iff]
    simp only [List.mem_filterMap, Bool.not_eq_true', Bool.not_eq_false]
    constructor
    · exact fun h => Or.inr fun step hstep name hname => h name ⟨step, hstep, hname⟩
    · rintro (h | h) name ⟨step, hstep, hname⟩
      · exact absurd h hnames
      · exact h step hstep name hname

omit [PyFloat φ] in
theorem asText_total_iff {name : Json φ} : (∃ s, asText name = .ok s) ↔ ∃ s, name = .str s := by
  cases name with
  | str s => exact ⟨fun _ => ⟨s, rfl⟩, fun _ => ⟨s, rfl⟩⟩
  | _ => exact ⟨fun ⟨_, h⟩ => (nomatch h), fun ⟨_, h⟩ => (nomatch h)⟩

omit [PyFloat φ] in
theorem joinSorted_total_iff :
    (∃ text, joinSorted missing = .ok text) ↔ ∀ name ∈ missing, ∃ s, name = .str s := by
  have hmapM := exists_mapM_eq_ok_iff (f := asText) (l := missing)
  simp only [asText_total_iff] at hmapM
  rw [← hmapM, joinSorted]
  constructor
  · rintro ⟨text, h⟩
    obtain ⟨texts, htexts, -⟩ := bind_eq_ok_iff.mp h
    exact ⟨texts, htexts⟩
  · rintro ⟨texts, htexts⟩
    exact ⟨_, bind_eq_ok_iff.mpr ⟨texts, htexts, rfl⟩⟩

/-- The gate before the steps ends well. -/
theorem gate_iff :
    (∃ missing, missingTools scenario manifest = .ok missing ∧
      (missing ≠ [] → ∃ text, joinSorted missing = .ok text)) ↔
        NamedTools manifest ∧ NamedCalls scenario manifest := by
  simp only [joinSorted_total_iff, missingTools_eq_ok_iff, NamedCalls, List.mem_filterMap]
  by_cases hnames : namesOf manifest = []
  · constructor
    · rintro ⟨_, ⟨hnamed, -, -⟩, -⟩
      exact ⟨hnamed, fun h => absurd hnames h⟩
    · rintro ⟨hnamed, -⟩
      exact ⟨[], ⟨hnamed, fun h => absurd hnames h, (if_pos hnames).symm⟩, fun h => absurd rfl h⟩
  · simp only [if_neg hnames]
    constructor
    · rintro ⟨_, ⟨hnamed, hall, rfl⟩, htexts⟩
      refine ⟨hnamed, fun _ step hstep name hname => ⟨hall hnames name ⟨step, hstep, hname⟩, ?_⟩⟩
      intro hmissing
      have hmem : name ∈ (scenario.steps.filterMap calledTool).filter fun name =>
          !isElement name (namesOf manifest) :=
        List.mem_filter.mpr ⟨List.mem_filterMap.mpr ⟨step, hstep, hname⟩, by rw [hmissing]; rfl⟩
      exact htexts (List.ne_nil_of_mem hmem) name hmem
    · rintro ⟨hnamed, hcalls⟩
      refine ⟨_, ⟨hnamed, fun _ name ⟨step, hstep, hname⟩ => (hcalls hnames step hstep name hname).1,
        rfl⟩, fun _ name hmem => ?_⟩
      obtain ⟨hmem, hmissing⟩ := List.mem_filter.mp hmem
      obtain ⟨step, hstep, hname⟩ := List.mem_filterMap.mp hmem
      exact (hcalls hnames step hstep name hname).2 (by simpa using hmissing)

end Tools

/-! ## The session -/

/-- Nothing that is looked at in a session has a type that raises. -/
structure Sound (scenario : Scenario φ) (manifest : Json φ)
    (answer : Nat → Except Exn (Dict Str (Json φ))) : Prop where
  tools : NamedTools manifest
  calls : NamedCalls scenario manifest
  compared : HasTools scenario manifest → ∀ x ∈ exchanges answer 0 scenario.steps, x.Compared
  codes : HasTools scenario manifest → Answered answer 0 scenario.steps →
    ∀ x ∈ (exchanges answer 0 scenario.steps).takeWhile fun x => !x.unsupported, x.HashableCode

section Session

variable {scenario : Scenario φ} {manifest : Json φ}
  {answer : Nat → Except Exn (Dict Str (Json φ))}

theorem runSession_total_iff :
    (∃ r, runSession str repr scenario manifest answer = .ok r) ↔
      Sound scenario manifest answer := by
  have hsound : Sound scenario manifest answer ↔ (NamedTools manifest ∧ NamedCalls scenario manifest) ∧
      (HasTools scenario manifest → (∀ x ∈ exchanges answer 0 scenario.steps, x.Compared) ∧
        (Answered answer 0 scenario.steps → ∀ x ∈ (exchanges answer 0 scenario.steps).takeWhile
          fun x => !x.unsupported, x.HashableCode)) :=
    ⟨fun h => ⟨⟨h.tools, h.calls⟩, fun ht => ⟨h.compared ht, h.codes ht⟩⟩,
      fun h => ⟨h.1.1, h.1.2, fun ht => (h.2 ht).1, fun ht => (h.2 ht).2⟩⟩
  rw [hsound, ← gate_iff, runSession]
  constructor
  · rintro ⟨r, h⟩
    obtain ⟨missing, hmissing, h⟩ := bind_eq_ok_iff.mp h
    have hnil := missingTools_nil_iff hmissing
    by_cases hm : missing = []
    · rw [if_neg (not_not_intro hm)] at h
      obtain ⟨⟨results, done⟩, hresults, h⟩ := bind_eq_ok_iff.mp h
      refine ⟨⟨missing, hmissing, fun h => absurd hm h⟩, fun _ =>
        ⟨(runSteps_total_iff repr).mp ⟨_, hresults⟩, fun hanswered => ?_⟩⟩
      obtain ⟨hdone, hreports⟩ := runSteps_spec repr hresults
      have hd := hdone.mpr hanswered
      rw [hd] at h
      exact (conclude_total_iff str repr (hreports hd) (map_step_exchanges hanswered)).mp ⟨r, h⟩
    · rw [if_pos hm] at h
      obtain ⟨text, htext, -⟩ := bind_eq_ok_iff.mp h
      exact ⟨⟨missing, hmissing, fun _ => ⟨text, htext⟩⟩, fun ht => absurd (hnil.mpr ht) hm⟩
  · rintro ⟨⟨missing, hmissing, htext⟩, hrest⟩
    have hnil := missingTools_nil_iff hmissing
    rw [hmissing, ok_bind]
    by_cases hm : missing = []
    · rw [if_neg (not_not_intro hm)]
      obtain ⟨hcompared, hcodes⟩ := hrest (hnil.mp hm)
      obtain ⟨⟨results, done⟩, hresults⟩ := (runSteps_total_iff repr).mpr hcompared
      obtain ⟨hdone, hreports⟩ := runSteps_spec repr hresults
      rw [hresults, ok_bind]
      cases done with
      | false => exact ⟨_, rfl⟩
      | true =>
        have hanswered := hdone.mp rfl
        exact (conclude_total_iff str repr (hreports rfl) (map_step_exchanges hanswered)).mpr
          (hcodes hanswered)
    · obtain ⟨text, htext⟩ := htext hm
      rw [if_pos hm, htext]
      exact ⟨_, rfl⟩

/-- A session passes exactly if the server has the tools, and every step got a response in a clean
run. -/
theorem runSession_passed_iff {r : ScenarioResult φ}
    (h : runSession str repr scenario manifest answer = .ok r) :
    (r.passed = true ↔ HasTools scenario manifest ∧ Answered answer 0 scenario.steps ∧
      Clean str scenario.loopBudgetCheck (exchanges answer 0 scenario.steps)) ∧
        (r.passed = true → r.status = .complete) := by
  obtain ⟨missing, hmissing, h⟩ := bind_eq_ok_iff.mp h
  have hnil := missingTools_nil_iff hmissing
  by_cases hm : missing = []
  · rw [if_neg (not_not_intro hm)] at h
    obtain ⟨⟨results, done⟩, hresults, h⟩ := bind_eq_ok_iff.mp h
    obtain ⟨hdone, hreports⟩ := runSteps_spec repr hresults
    rw [and_iff_right (hnil.mp hm), ← hdone]
    cases done with
    | false =>
      cases h
      exact ⟨⟨nofun, nofun⟩, nofun⟩
    | true =>
      rw [and_iff_right rfl]
      exact conclude_passed_iff str repr (hreports rfl) (map_step_exchanges (hdone.mp rfl)) h
  · rw [if_pos hm] at h
    obtain ⟨text, -, h⟩ := bind_eq_ok_iff.mp h
    cases h
    exact ⟨⟨nofun, fun h => absurd (hnil.mpr h.1) hm⟩, nofun⟩

end Session

/-! ## The run -/

section Run

variable (requested : ProtocolEra) (targetUrl : Str) (overrides : Dict Str Str)
  (scenario : Scenario φ) (server : Server φ)

/-- The tools of the session, if the connection and the handshake succeed. -/
def handshakeTools : Option (Json φ) :=
  match server.connect with
  | .error _ => none
  | .ok () =>
    match startSession requested targetUrl server.handshake
        (SessionState.new (lit "StreamableHTTPTransport")) with
    | (.error _, _) => none
    | (.ok info, _) => some info.toolManifest

/-- The exchanges of the run. -/
def exchangesOf : List (Exchange φ) :=
  exchanges server.answer 0 (applyMethodOverrides scenario overrides).steps

/-- Every step of the scenario gets a response. -/
def AllAnswered : Prop := Answered server.answer 0 (applyMethodOverrides scenario overrides).steps

/-- If the handshake succeeds, nothing in the session has a type that raises. -/
def RunsThrough : Prop :=
  scenario.steps ≠ [] → ∀ manifest, handshakeTools requested targetUrl server = some manifest →
    Sound (applyMethodOverrides scenario overrides) manifest server.answer

/-- What a pass says. -/
structure PassedClean (r : ScenarioResult φ) : Prop where
  complete : r.status = .complete
  steps : scenario.steps ≠ []
  answered : AllAnswered overrides scenario server
  clean : Clean str scenario.loopBudgetCheck (exchangesOf overrides scenario server)

/-- The handshake succeeds, the server has the tools, and the exchanges are clean. -/
def CleanRun : Prop :=
  scenario.steps ≠ [] ∧ ∃ manifest, handshakeTools requested targetUrl server = some manifest ∧
    HasTools (applyMethodOverrides scenario overrides) manifest ∧
    AllAnswered overrides scenario server ∧
    Clean str scenario.loopBudgetCheck (exchangesOf overrides scenario server)

/-- The steps list the tools of the handshake. -/
def SameAsHandshake : Prop :=
  ∀ response a, server.handshake.toolsList = .ok response →
    manifestToolNames str response = some a → ∀ x ∈ exchangesOf overrides scenario server,
      ∀ b, x.toolNames str = some b → ∀ s, s ∈ a ↔ s ∈ b

/-- The run returns, the transport is closed, and a pass has this meaning. -/
def EndsWell (meaning : ScenarioResult φ → Prop) : Prop :=
  ∃ r session, runAsync str repr requested targetUrl overrides scenario server = (.ok r, session) ∧
    (∀ s, session = some s → s.status = .closed) ∧ (r.passed = true → meaning r)

variable {requested targetUrl overrides scenario server}

omit [PyFloat φ] in
theorem loopBudgetCheck_apply :
    (applyMethodOverrides scenario overrides).loopBudgetCheck = scenario.loopBudgetCheck := by
  unfold applyMethodOverrides
  split <;> rfl

theorem runAsync_of_nil (h : scenario.steps = []) :
    runAsync str repr requested targetUrl overrides scenario server =
      (.ok (resultOf scenario .scanIncomplete false [] none), none) := by
  rw [runAsync, if_pos h]

/-- A session that was made is closed; the rest is what the session says. -/
theorem runAsync_of_ne_nil (requested : ProtocolEra) (targetUrl : Str) (overrides : Dict Str Str)
    (server : Server φ) (h : scenario.steps ≠ []) :
    ∃ s, s.status = .closed ∧
      runAsync str repr requested targetUrl overrides scenario server =
        (match handshakeTools requested targetUrl server with
          | none => .ok (resultOf (applyMethodOverrides scenario overrides) .scanIncomplete false []
              none)
          | some manifest => runSession str repr (applyMethodOverrides scenario overrides) manifest
              server.answer, some s) := by
  rw [runAsync, if_neg h]
  unfold handshakeTools
  cases server.connect with
  | error e => exact ⟨_, rfl, rfl⟩
  | ok _ =>
    dsimp only
    generalize startSession requested targetUrl server.handshake
      (SessionState.new (lit "StreamableHTTPTransport")) = left
    obtain ⟨result, session⟩ := left
    cases result with
    | error e => exact ⟨close session, rfl, rfl⟩
    | ok info => exact ⟨close session, rfl, rfl⟩

theorem runAsync_total_iff :
    (∃ r session, runAsync str repr requested targetUrl overrides scenario server =
      (.ok r, session)) ↔ RunsThrough requested targetUrl overrides scenario server := by
  by_cases hsteps : scenario.steps = []
  · rw [runAsync_of_nil str repr hsteps]
    exact ⟨fun _ h => absurd hsteps h, fun _ => ⟨_, _, rfl⟩⟩
  · obtain ⟨s, -, hrun⟩ := runAsync_of_ne_nil str repr requested targetUrl overrides server hsteps
    rw [hrun, RunsThrough]
    cases handshakeTools requested targetUrl server with
    | none => exact ⟨fun _ _ => nofun, fun _ => ⟨_, _, rfl⟩⟩
    | some manifest =>
      constructor
      · rintro ⟨r, session, h⟩ - manifest' hm
        cases hm
        exact (runSession_total_iff str repr).mp ⟨r, (Prod.mk.inj h).1⟩
      · intro h
        obtain ⟨r, hr⟩ := (runSession_total_iff str repr).mpr (h hsteps manifest rfl)
        exact ⟨r, some s, by rw [← hr]⟩

/-- A run that returns has closed its session, and passes just when it is clean. -/
theorem runAsync_spec {r : ScenarioResult φ} {session : Option (SessionState φ)}
    (h : runAsync str repr requested targetUrl overrides scenario server = (.ok r, session)) :
    (∀ s, session = some s → s.status = .closed) ∧ (r.passed = true → r.status = .complete) ∧
      (r.passed = true ↔ CleanRun str requested targetUrl overrides scenario server) := by
  by_cases hsteps : scenario.steps = []
  · rw [runAsync_of_nil str repr hsteps] at h
    cases h
    exact ⟨nofun, nofun, nofun, fun hc => absurd hsteps hc.1⟩
  · obtain ⟨s, hs, hrun⟩ := runAsync_of_ne_nil str repr requested targetUrl overrides server hsteps
    rw [hrun] at h
    rw [CleanRun, and_iff_right hsteps]
    obtain ⟨hresult, rfl⟩ := Prod.mk.inj h
    refine ⟨fun s' hs' => by cases hs'; exact hs, ?_⟩
    cases hm : handshakeTools requested targetUrl server with
    | none =>
      rw [hm] at hresult
      cases hresult
      exact ⟨nofun, nofun, fun ⟨_, h, _⟩ => nomatch h⟩
    | some manifest =>
      rw [hm] at hresult
      obtain ⟨hpassed, hcomplete⟩ := runSession_passed_iff str repr hresult
      rw [loopBudgetCheck_apply] at hpassed
      refine ⟨hcomplete, hpassed.trans ⟨fun hc => ⟨manifest, rfl, hc⟩, ?_⟩⟩
      rintro ⟨_, heq, hc⟩
      cases heq
      exact hc

variable (requested targetUrl overrides scenario server)

/-- A run returns, closes its transport and passes only if it was clean, exactly if it is not
raised through. If a pass is to say also that the tools are still those of the handshake, exactly if
this is so in every clean run. -/
theorem run_ends_well_iff :
    (EndsWell str repr requested targetUrl overrides scenario server
        (PassedClean str overrides scenario server) ↔
      RunsThrough requested targetUrl overrides scenario server) ∧
    (EndsWell str repr requested targetUrl overrides scenario server
        (fun r => PassedClean str overrides scenario server r ∧
          SameAsHandshake str overrides scenario server) ↔
      RunsThrough requested targetUrl overrides scenario server ∧
        (CleanRun str requested targetUrl overrides scenario server →
          SameAsHandshake str overrides scenario server)) := by
  have hclean : ∀ {r session}, runAsync str repr requested targetUrl overrides scenario server =
      (.ok r, session) → r.passed = true → PassedClean str overrides scenario server r := by
    intro r session hrun hpassed
    obtain ⟨-, hcomplete, hiff⟩ := runAsync_spec str repr hrun
    obtain ⟨hsteps, manifest, -, -, hanswered, hc⟩ := hiff.mp hpassed
    exact ⟨hcomplete hpassed, hsteps, hanswered, hc⟩
  constructor
  · rw [← runAsync_total_iff str repr]
    constructor
    · rintro ⟨r, session, hrun, -⟩
      exact ⟨r, session, hrun⟩
    · rintro ⟨r, session, hrun⟩
      exact ⟨r, session, hrun, (runAsync_spec str repr hrun).1, hclean hrun⟩
  · rw [← runAsync_total_iff str repr]
    constructor
    · rintro ⟨r, session, hrun, -, hmeaning⟩
      exact ⟨⟨r, session, hrun⟩,
        fun hc => (hmeaning ((runAsync_spec str repr hrun).2.2.mpr hc)).2⟩
    · rintro ⟨⟨r, session, hrun⟩, hsame⟩
      obtain ⟨hclosed, -, hiff⟩ := runAsync_spec str repr hrun
      exact ⟨r, session, hrun, hclosed, fun hp => ⟨hclean hrun hp, hsame (hiff.mp hp)⟩⟩

end Run

section Example

private def listStep : ScenarioStep WholeFloat :=
  ⟨lit "list", ⟨lit "tools/list", Dict.empty⟩, []⟩

private def listScenario : Scenario WholeFloat :=
  ⟨lit "S", lit "list", [lit "T6"], [listStep], false⟩

private def listing (name : Json WholeFloat) : Dict Str (Json WholeFloat) :=
  Dict.ofList [(lit "result", .obj [(lit "tools", .arr [.obj [(lit "name", name)]])])]

/-- A server of the legacy era that lists a tool of one name first, and of another after. -/
private def lister (first after : Json WholeFloat) : Server WholeFloat :=
  { connect := .ok ()
    handshake :=
      { discover := .ok (.obj [])
        init := .ok (.obj [(lit "result",
          .obj [(lit "protocolVersion", .str (lit "2025-03-26"))])])
        reconnect := .ok ()
        reinit := .ok (.obj [])
        toolsList := .ok (.obj (listing first).items) }
    answer := fun _ => .ok (listing after) }

private def plain (v : Json WholeFloat) : Str := v.asStr?.getD []

/-- A tool whose name is a list raises, and a change of the tools since the handshake passes. -/
theorem unhashable_name_raises :
    ¬ EndsWell plain plain .legacy (lit "http://t") Dict.empty listScenario
        (lister (.arr []) (.str (lit "a")))
        (PassedClean plain Dict.empty listScenario (lister (.arr []) (.str (lit "a")))) ∧
    ∃ r session, runAsync plain plain .legacy (lit "http://t") Dict.empty listScenario
        (lister (.str (lit "a")) (.str (lit "b"))) = (.ok r, session) ∧ r.passed = true := by
  constructor
  · rintro ⟨r, session, hrun, -⟩
    have hraises : (runAsync plain plain .legacy (lit "http://t") Dict.empty listScenario
        (lister (.arr []) (.str (lit "a")))).1 = .error .typeError := rfl
    rw [hrun] at hraises
    cases hraises
  · exact ⟨_, _, rfl, rfl⟩

end Example

end CosaiMcp.Stateful
