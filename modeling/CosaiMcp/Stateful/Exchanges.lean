import CosaiMcp.Stateful.Harness

/-!
# What a run says of its exchanges

The meaning of the assertions (`Satisfies`), which of them are compared without a `TypeError`
(`Comparable`), and the results of the steps as reports on the exchanges of the run.
-/

namespace CosaiMcp.Stateful

open Py Session

variable {φ : Type} [PyFloat φ] (repr : Json φ → Str)

/-! ## Assertions -/

/-- The operand has a type that the operator takes. -/
structure Comparable (response : Json φ) (a : StepAssertion φ) : Prop where
  text : Operator.ofName? a.operator ∈ [some .contains, some .notContains] →
    ∀ s, resolvePath response a.target = .str s → ∃ t, a.expected = .str t
  number : Operator.ofName? a.operator = some .lenGt →
    (size? (resolvePath response a.target)).isSome = true → (asNum? a.expected).isSome = true

/-- What an operator says. -/
def Operator.Holds (operator : Operator) (actual expected : Json φ) : Prop :=
  match operator with
  | .eq => actual.pyEq expected = true
  | .ne => actual.pyEq expected = false
  | .contains => (∃ s t, actual = .str s ∧ expected = .str t ∧ t <:+: s) ∨
    ∃ js, actual = .arr js ∧ isElement expected js = true
  | .notContains => (∃ s t, actual = .str s ∧ expected = .str t ∧ ¬ t <:+: s) ∨
    ∃ js, actual = .arr js ∧ isElement expected js = false
  | .isNone => actual = .null
  | .isNotNone => actual ≠ .null
  | .lenEq => ∃ n, size? actual = some n ∧ intEq n expected = true
  | .lenGt => ∃ n : Nat, size? actual = some n ∧ isOver n expected = .ok true

/-- The assertion has a target and an operator, and is true of the response. -/
def Satisfies (response : Json φ) (a : StepAssertion φ) : Prop :=
  a.target ≠ [] ∧ ∃ operator, Operator.ofName? a.operator = some operator ∧
    operator.Holds (resolvePath response a.target) a.expected

theorem contains_str_iff {s : Str} {expected : Json φ} {o : Option Bool} :
    contains (.str s) expected = .ok o ↔
      ∃ t, expected = .str t ∧ o = some (decide (t <:+: s)) := by
  cases expected with
  | str t =>
    constructor
    · intro h
      cases h
      exact ⟨t, rfl, rfl⟩
    · rintro ⟨t', ht, rfl⟩
      cases ht
      rfl
  | _ => exact ⟨nofun, fun ⟨_, h, _⟩ => nomatch h⟩

theorem contains_total_iff {actual expected : Json φ} :
    (∃ o, contains actual expected = .ok o) ↔
      ∀ s, actual = .str s → ∃ t, expected = .str t := by
  cases actual with
  | str s =>
    constructor
    · rintro ⟨o, ho⟩ _ -
      obtain ⟨t, ht, -⟩ := contains_str_iff.mp ho
      exact ⟨t, ht⟩
    · intro h
      obtain ⟨t, ht⟩ := h s rfl
      exact ⟨_, contains_str_iff.mpr ⟨t, ht, rfl⟩⟩
  | _ => exact ⟨fun _ => nofun, fun _ => ⟨_, rfl⟩⟩

theorem isOver_total_iff {n : Int} {expected : Json φ} :
    (∃ b, isOver n expected = .ok b) ↔ (asNum? expected).isSome = true := by
  cases expected with
  | bool _ | int _ | float _ | nan => exact ⟨fun _ => rfl, fun _ => ⟨_, rfl⟩⟩
  | null | str _ | arr _ | obj _ => exact ⟨fun ⟨_, h⟩ => (nomatch h), nofun⟩

theorem passes_total_iff {response : Json φ} {a : StepAssertion φ} :
    (∃ b, passes (Operator.ofName? a.operator) (resolvePath response a.target) a.expected = .ok b) ↔
      Comparable response a := by
  have hbind : ∀ {actual : Json φ} (f : Option Bool → Bool),
      (∃ b, (do return f (← contains actual a.expected) : Except PyError Bool) = .ok b) ↔
        ∀ s, actual = .str s → ∃ t, a.expected = .str t := by
    intro actual f
    rw [← contains_total_iff]
    constructor
    · rintro ⟨b, hb⟩
      obtain ⟨o, ho, -⟩ := bind_eq_ok_iff.mp hb
      exact ⟨o, ho⟩
    · rintro ⟨o, ho⟩
      exact ⟨f o, bind_eq_ok_iff.mpr ⟨o, ho, rfl⟩⟩
  have hcomparable : Comparable response a ↔
      (Operator.ofName? a.operator ∈ [some Operator.contains, some .notContains] →
        ∀ s, resolvePath response a.target = .str s → ∃ t, a.expected = .str t) ∧
      (Operator.ofName? a.operator = some .lenGt →
        (size? (resolvePath response a.target)).isSome = true → (asNum? a.expected).isSome = true) :=
    ⟨fun h => ⟨h.text, h.number⟩, fun h => ⟨h.1, h.2⟩⟩
  rw [hcomparable]
  cases hop : Operator.ofName? a.operator with
  | none => exact ⟨fun _ => ⟨fun h => by simp at h, nofun⟩, fun _ => ⟨_, rfl⟩⟩
  | some operator =>
    cases operator with
    | contains =>
      rw [passes, hbind fun o => o.getD false]
      exact ⟨fun h => ⟨fun _ => h, nofun⟩, fun h => h.1 (by simp)⟩
    | notContains =>
      rw [passes, hbind fun o => (o.map not).getD false]
      exact ⟨fun h => ⟨fun _ => h, nofun⟩, fun h => h.1 (by simp)⟩
    | lenGt =>
      rw [passes]
      cases hsize : size? (resolvePath response a.target) with
      | none => exact ⟨fun _ => ⟨fun h => by simp at h, fun _ h => nomatch h⟩, fun _ => ⟨_, rfl⟩⟩
      | some n =>
        exact isOver_total_iff.trans
          ⟨fun h => ⟨fun h' => by simp at h', fun _ _ => h⟩, fun h => h.2 rfl rfl⟩
    | lenEq =>
      refine ⟨fun _ => ⟨fun h => by simp at h, nofun⟩, fun _ => ?_⟩
      rw [passes]
      cases size? (resolvePath response a.target) <;> exact ⟨_, rfl⟩
    | _ => exact ⟨fun _ => ⟨fun h => by simp at h, nofun⟩, fun _ => ⟨_, rfl⟩⟩

theorem passes_eq_true_iff {operator : Operator} {actual expected : Json φ} :
    passes (some operator) actual expected = .ok true ↔ operator.Holds actual expected := by
  cases operator with
  | eq => simp [passes, Operator.Holds]
  | ne => simp [passes, Operator.Holds]
  | isNone =>
    cases actual <;> simp [passes, Operator.Holds, Json.isNull]
  | isNotNone =>
    cases actual <;> simp [passes, Operator.Holds, Json.isNull]
  | lenEq =>
    rw [passes, Operator.Holds]
    cases size? actual <;> simp
  | lenGt =>
    rw [passes, Operator.Holds]
    cases size? actual <;> simp
  | contains =>
    rw [passes, Operator.Holds]
    cases actual with
    | str s => cases expected <;> simp [contains, bind, Except.bind, pure, Except.pure]
    | _ => simp [contains, bind, Except.bind, pure, Except.pure]
  | notContains =>
    rw [passes, Operator.Holds]
    cases actual with
    | str s => cases expected <;> simp [contains, bind, Except.bind, pure, Except.pure]
    | _ => simp [contains, bind, Except.bind, pure, Except.pure]

theorem evaluateAssertion_total_iff {response : Json φ} {a : StepAssertion φ} :
    (∃ o, evaluateAssertion repr response a = .ok o) ↔ (a.target ≠ [] → Comparable response a) := by
  unfold evaluateAssertion
  by_cases ht : a.target = []
  · rw [if_pos ht]
    exact ⟨fun _ h => absurd ht h, fun _ => ⟨_, rfl⟩⟩
  · rw [if_neg ht, ← passes_total_iff]
    constructor
    · rintro ⟨o, ho⟩ -
      obtain ⟨b, hb, -⟩ := bind_eq_ok_iff.mp ho
      exact ⟨b, hb⟩
    · intro h
      obtain ⟨b, hb⟩ := h ht
      exact ⟨_, bind_eq_ok_iff.mpr ⟨b, hb, rfl⟩⟩

theorem evaluateAssertion_eq_none_iff {response : Json φ} {a : StepAssertion φ} :
    evaluateAssertion repr response a = .ok none ↔ Satisfies response a := by
  unfold evaluateAssertion Satisfies
  by_cases ht : a.target = []
  · rw [if_pos ht]
    exact ⟨nofun, fun h => absurd ht h.1⟩
  · rw [if_neg ht]
    cases hop : Operator.ofName? a.operator with
    | none => exact ⟨nofun, fun ⟨_, _, h, _⟩ => nomatch h⟩
    | some operator =>
      rw [bind_eq_ok_iff]
      constructor
      · rintro ⟨b, hb, h⟩
        cases b with
        | false => cases h
        | true => exact ⟨ht, operator, rfl, passes_eq_true_iff.mp hb⟩
      · rintro ⟨-, _, heq, hholds⟩
        cases heq
        exact ⟨true, passes_eq_true_iff.mpr hholds, rfl⟩

/-! ## Steps -/

/-- A step and its response. -/
structure Exchange (φ : Type) where
  step : ScenarioStep φ
  response : Json φ

/-- The exchanges of the steps from an index on, up to the first exception. -/
def exchanges (answer : Nat → Except Exn (Dict Str (Json φ))) :
    Nat → List (ScenarioStep φ) → List (Exchange φ)
  | _, [] => []
  | index, step :: steps =>
    match answer index with
    | .error _ => []
    | .ok response => ⟨step, .obj response.items⟩ :: exchanges answer (index + 1) steps

/-- Every step gets a response. -/
def Answered (answer : Nat → Except Exn (Dict Str (Json φ))) (index : Nat)
    (steps : List (ScenarioStep φ)) : Prop :=
  ∀ k < steps.length, ∃ response, answer (index + k) = .ok response

/-- Its assertions are evaluated without a `TypeError`. -/
def Exchange.Compared (x : Exchange φ) : Prop :=
  ∀ a ∈ x.step.assertions, a.target ≠ [] → Comparable x.response a

def Exchange.Satisfied (x : Exchange φ) : Prop := ∀ a ∈ x.step.assertions, Satisfies x.response a

/-- The result of a step is that of the exchange. -/
structure Reports (r : StepResult φ) (x : Exchange φ) : Prop where
  error : r.error = none
  response : r.response = some x.response
  passed : r.passed = true ↔ x.Satisfied

omit [PyFloat φ] in
theorem answered_cons_iff {answer : Nat → Except Exn (Dict Str (Json φ))} {index : Nat}
    {step : ScenarioStep φ} {steps : List (ScenarioStep φ)} :
    Answered answer index (step :: steps) ↔
      (∃ response, answer index = .ok response) ∧ Answered answer (index + 1) steps := by
  constructor
  · intro h
    refine ⟨h 0 (Nat.succ_pos _), fun k hk => ?_⟩
    obtain ⟨response, hr⟩ := h (k + 1) (Nat.succ_lt_succ hk)
    exact ⟨response, by rw [Nat.add_assoc, Nat.add_comm 1]; exact hr⟩
  · rintro ⟨h0, h⟩ k hk
    cases k with
    | zero => exact h0
    | succ k =>
      obtain ⟨response, hr⟩ := h k (Nat.lt_of_succ_lt_succ hk)
      exact ⟨response, by rw [← Nat.add_assoc, Nat.add_right_comm]; exact hr⟩

omit [PyFloat φ] in
theorem map_step_exchanges {answer : Nat → Except Exn (Dict Str (Json φ))} {index : Nat}
    {steps : List (ScenarioStep φ)} (h : Answered answer index steps) :
    (exchanges answer index steps).map Exchange.step = steps := by
  induction steps generalizing index with
  | nil => rfl
  | cons step steps ih =>
    obtain ⟨⟨response, hr⟩, h⟩ := answered_cons_iff.mp h
    rw [exchanges, hr, List.map_cons, ih h]

theorem runStep_total_iff (index : Nat) {step : ScenarioStep φ} {response : Dict Str (Json φ)} :
    (∃ r, runStep repr index step (.ok response) = .ok r) ↔
      Exchange.Compared ⟨step, .obj response.items⟩ := by
  have hmapM := exists_mapM_eq_ok_iff (f := evaluateAssertion repr (.obj response.items))
    (l := step.assertions)
  simp only [evaluateAssertion_total_iff] at hmapM
  rw [Exchange.Compared, ← hmapM, runStep]
  constructor
  · rintro ⟨r, hr⟩
    obtain ⟨verdicts, hv, -⟩ := bind_eq_ok_iff.mp hr
    exact ⟨verdicts, hv⟩
  · rintro ⟨verdicts, hv⟩
    exact ⟨_, bind_eq_ok_iff.mpr ⟨verdicts, hv, rfl⟩⟩

/-- A list of which nothing is kept has nothing in it. -/
theorem isEmpty_filterMap_iff {α : Type} {os : List (Option α)} :
    (os.filterMap id).isEmpty = true ↔ ∀ o ∈ os, o = none := by
  rw [List.isEmpty_iff, List.filterMap_eq_nil_iff]
  rfl

theorem runStep_reports {index : Nat} {step : ScenarioStep φ} {response : Dict Str (Json φ)}
    {r : StepResult φ} (h : runStep repr index step (.ok response) = .ok r) :
    Reports r ⟨step, .obj response.items⟩ := by
  obtain ⟨verdicts, hv, h⟩ := bind_eq_ok_iff.mp h
  cases h
  refine ⟨rfl, rfl, isEmpty_filterMap_iff.trans ?_⟩
  have hmap := mapM_eq_ok_iff.mp hv
  constructor
  · intro hnone a ha
    have hmem : evaluateAssertion repr (.obj response.items) a ∈ verdicts.map .ok :=
      hmap ▸ List.mem_map_of_mem ha
    obtain ⟨o, ho, heq⟩ := List.mem_map.mp hmem
    rw [hnone o ho] at heq
    exact (evaluateAssertion_eq_none_iff repr).mp heq.symm
  · intro hs o ho
    have hmem : .ok o ∈ step.assertions.map (evaluateAssertion repr (.obj response.items)) :=
      hmap ▸ List.mem_map_of_mem ho
    obtain ⟨a, ha, heq⟩ := List.mem_map.mp hmem
    rw [(evaluateAssertion_eq_none_iff repr).mpr (hs a ha)] at heq
    exact (Except.ok.inj heq).symm

theorem runSteps_total_iff {answer : Nat → Except Exn (Dict Str (Json φ))} {index : Nat}
    {steps : List (ScenarioStep φ)} :
    (∃ p, runSteps repr answer index steps = .ok p) ↔
      ∀ x ∈ exchanges answer index steps, x.Compared := by
  induction steps generalizing index with
  | nil => exact ⟨fun _ => nofun, fun _ => ⟨_, rfl⟩⟩
  | cons step steps ih =>
    rw [exchanges, runSteps]
    cases hanswer : answer index with
    | error e => exact ⟨fun _ => nofun, fun _ => ⟨_, rfl⟩⟩
    | ok response =>
      rw [List.forall_mem_cons, ← ih, ← runStep_total_iff repr index]
      constructor
      · rintro ⟨p, hp⟩
        obtain ⟨r, hr, hp⟩ := bind_eq_ok_iff.mp hp
        rw [(runStep_reports repr hr).error, if_neg (by simp)] at hp
        obtain ⟨q, hq, -⟩ := bind_eq_ok_iff.mp hp
        exact ⟨⟨r, hr⟩, q, hq⟩
      · rintro ⟨⟨r, hr⟩, q, hq⟩
        refine ⟨(r :: q.1, q.2), bind_eq_ok_iff.mpr ⟨r, hr, ?_⟩⟩
        rw [(runStep_reports repr hr).error, if_neg (by simp)]
        exact bind_eq_ok_iff.mpr ⟨q, hq, rfl⟩

/-- A run that is done has a report on each exchange, and one that is not has had an exception. -/
theorem runSteps_spec {answer : Nat → Except Exn (Dict Str (Json φ))} {index : Nat}
    {steps : List (ScenarioStep φ)} {results : List (StepResult φ)} {done : Bool}
    (h : runSteps repr answer index steps = .ok (results, done)) :
    (done = true ↔ Answered answer index steps) ∧
      (done = true → List.Forall₂ Reports results (exchanges answer index steps)) := by
  induction steps generalizing index results done with
  | nil =>
    cases h
    exact ⟨⟨fun _ => nofun, fun _ => rfl⟩, fun _ => .nil⟩
  | cons step steps ih =>
    rw [runSteps] at h
    rw [exchanges, answered_cons_iff]
    obtain ⟨r, hr, h⟩ := bind_eq_ok_iff.mp h
    cases hanswer : answer index with
    | error e =>
      rw [hanswer] at hr
      cases hr
      cases h
      exact ⟨⟨nofun, fun ⟨⟨_, h⟩, _⟩ => nomatch h⟩, nofun⟩
    | ok response =>
      rw [hanswer] at hr
      have hreports := runStep_reports repr hr
      rw [hreports.error, if_neg (by simp)] at h
      obtain ⟨⟨rest, done'⟩, hrest, h⟩ := bind_eq_ok_iff.mp h
      cases h
      obtain ⟨hdone, hforall⟩ := ih hrest
      exact ⟨⟨fun hd => ⟨⟨response, rfl⟩, hdone.mp hd⟩, fun h => hdone.mpr h.2⟩,
        fun hd => .cons hreports (hforall hd)⟩

end CosaiMcp.Stateful
