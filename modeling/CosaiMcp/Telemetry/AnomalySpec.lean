import CosaiMcp.Alarm
import CosaiMcp.Telemetry.Anomaly

/-!
# Which threshold crossings raise an alert

The two rules that count are alarms on the number of findings, or of critical ones, in the window:
the count of the last alert is the level at which the alarm sounded last (`simulates_ingest`). An
alert is compared with the last one of the whole run, so that a rule tells of its first crossing and
of no later one (`alerts_at_crossings_iff`).
-/

namespace CosaiMcp.Telemetry

open Py

variable {φ : Type} (R : AnomalyRuntime φ)

/-! ## The rolling window -/

/-- The rules that count events. -/
inductive RateRule where
  | highFindingRate
  | criticalBurst

namespace RateRule

def rule : RateRule → AnomalyRule
  | .highFindingRate => .highFindingRate
  | .criticalBurst => .criticalBurst

def threshold (c : AnomalyThresholds φ) : RateRule → Int
  | .highFindingRate => c.highFindingRateThreshold
  | .criticalBurst => c.criticalBurstThreshold

def message [PyFloat φ] (c : AnomalyThresholds φ) : RateRule → Nat → Str
  | .highFindingRate => c.highFindingRateMessage
  | .criticalBurst => c.criticalBurstMessage

def test [PyFloat φ] : RateRule → Event φ → Except PyError Bool
  | .highFindingRate => isFinding
  | .criticalBurst => isCriticalFinding R

end RateRule

/-- The test is true of the event. -/
def holds (test : Event φ → Except PyError Bool) (e : Event φ) : Bool :=
  match test e with
  | .ok b => b
  | .error _ => false

/-- Whether the event is a finding, and of what severity, can be read. -/
def isReadable [PyFloat φ] (e : Event φ) : Bool := (isCriticalFinding R e).toOption.isSome

/-- The event is in the window of a time. All events are where the window has no length. -/
def inWindow (c : AnomalyThresholds φ) (nowMs : Int) (e : Ingested φ) : Bool :=
  match R.milliseconds c.windowSeconds with
  | .ok ms => nowMs - ms ≤ e.ingestedAtMs
  | .error _ => true

/-- The events of the window at the last one. -/
def window (c : AnomalyThresholds φ) (inputs : List (Ingested φ)) : List (Ingested φ) :=
  match inputs.getLast? with
  | none => []
  | some last => inputs.filter (inWindow R c last.ingestedAtMs)

/-- The number of events in the window that the rule counts. -/
def windowCount [PyFloat φ] (c : AnomalyThresholds φ) (rule : RateRule) (inputs : List (Ingested φ)) : Nat :=
  (window R c inputs).countP fun e => holds (rule.test R) e.event

/-- The window has a length, and the event and those of its window are readable. -/
def Checkable [PyFloat φ] (c : AnomalyThresholds φ) (before : List (Ingested φ))
    (input : Ingested φ) : Prop :=
  (R.milliseconds c.windowSeconds).toOption.isSome ∧
    ∀ e ∈ window R c (before ++ [input]) ++ [input], isReadable R e.event = true

instance [PyFloat φ] (c : AnomalyThresholds φ) (before : List (Ingested φ)) (input : Ingested φ) :
    Decidable (Checkable R c before input) :=
  inferInstanceAs (Decidable (_ ∧ _))

/-- What the rule reads after an event. -/
def reading [PyFloat φ] (c : AnomalyThresholds φ) (rule : RateRule) (before : List (Ingested φ))
    (input : Ingested φ) : Alarm.Reading where
  level := windowCount R c rule (before ++ [input])
  fails := !decide (Checkable R c before input)

/-- Times that do not decrease. -/
def InOrder (inputs : List (Ingested φ)) : Prop :=
  inputs.Pairwise (·.ingestedAtMs ≤ ·.ingestedAtMs)

section Window

variable {R} {c : AnomalyThresholds φ} {inputs : List (Ingested φ)} {input : Ingested φ}

theorem window_concat :
    window R c (inputs ++ [input]) =
      (inputs ++ [input]).filter (inWindow R c input.ingestedAtMs) := by
  rw [window, List.getLast?_concat]

theorem inWindow_of_le {nowMs nowMs' : Int} {e : Ingested φ} (hle : nowMs ≤ nowMs')
    (h : inWindow R c nowMs' e = true) : inWindow R c nowMs e = true := by
  unfold inWindow at h ⊢
  cases hms : R.milliseconds c.windowSeconds with
  | error err => rfl
  | ok ms =>
    rw [hms] at h
    have hcutoff := of_decide_eq_true h
    exact decide_eq_true (by omega)

/-- What has left the window does not come back. -/
theorem window_step (h : InOrder (inputs ++ [input])) :
    (window R c inputs ++ [input]).filter (inWindow R c input.ingestedAtMs) =
      window R c (inputs ++ [input]) := by
  rw [window_concat, List.filter_append, List.filter_append]
  congr 1
  unfold window
  cases hlast : inputs.getLast? with
  | none =>
    rw [List.getLast?_eq_none_iff.mp hlast]
  | some last =>
    have hle : last.ingestedAtMs ≤ input.ingestedAtMs :=
      (List.pairwise_append.mp h).2.2 last (List.mem_of_getLast? hlast) input
        (List.mem_singleton_self input)
    dsimp only
    rw [List.filter_filter]
    refine List.filter_congr fun e _ => ?_
    exact Bool.and_eq_left_iff_imp.mpr (inWindow_of_le hle)

variable [PyFloat φ]

/-- The count rises by one at a time. -/
theorem windowCount_concat_le (rule : RateRule) (h : InOrder (inputs ++ [input])) :
    windowCount R c rule (inputs ++ [input]) ≤ windowCount R c rule inputs + 1 := by
  unfold windowCount
  rw [← window_step h]
  refine (List.filter_sublist.countP_le).trans ?_
  rw [List.countP_append]
  exact Nat.add_le_add_left (List.countP_le_length) _

theorem levelAfter_readings (rule : RateRule) (inputs : List (Ingested φ)) :
    Alarm.levelAfter (Alarm.readings (reading R c rule) inputs) = windowCount R c rule inputs := by
  induction inputs using List.reverseRecOn with
  | nil => rfl
  | append_singleton inputs input _ =>
    rw [Alarm.readings_concat, Alarm.levelAfter_concat]
    rfl

theorem gradual_readings (rule : RateRule) (h : InOrder inputs) :
    Alarm.Gradual (Alarm.readings (reading R c rule) inputs) := by
  refine (Alarm.forall_prefix_readings_iff _).mpr fun before input hpre => ?_
  rw [levelAfter_readings]
  exact windowCount_concat_le rule (h.sublist hpre.sublist)

end Window

/-! ## One event -/

section Ingest

variable [PyFloat φ] {R} {d : AnomalyDetector φ}

omit [PyFloat φ] in
theorem holds_of_ok {test : Event φ → Except PyError Bool} {e : Event φ} {b : Bool}
    (h : test e = .ok b) : holds test e = b := by
  rw [holds, h]

theorem isReadable_iff {e : Event φ} : isReadable R e = true ↔ ∃ b, isCriticalFinding R e = .ok b := by
  unfold isReadable
  cases isCriticalFinding R e with
  | error err => exact ⟨nofun, nofun⟩
  | ok b => exact ⟨fun _ => ⟨b, rfl⟩, fun _ => rfl⟩

/-- A readable event can be told to be a finding or not. -/
theorem exists_isFinding {e : Event φ} (h : isReadable R e = true) : ∃ b, isFinding e = .ok b := by
  obtain ⟨b, hb⟩ := isReadable_iff.mp h
  obtain ⟨finding, hfinding, -⟩ := bind_eq_ok_iff.mp hb
  exact ⟨finding, hfinding⟩

theorem exists_test (rule : RateRule) {e : Event φ} (h : isReadable R e = true) :
    ∃ b, rule.test R e = .ok b := by
  cases rule with
  | highFindingRate => exact exists_isFinding h
  | criticalBurst => exact isReadable_iff.mp h

omit [PyFloat φ] in
theorem countWhere_eq_ok {test : Event φ → Except PyError Bool}
    (h : ∀ e ∈ d.events, ∃ b, test e.event = .ok b) :
    d.countWhere test = .ok (d.events.countP fun e => holds test e.event) := by
  have hresults : d.events.mapM (fun e => test e.event) =
      .ok (d.events.map fun e => holds test e.event) := by
    rw [mapM_eq_ok_iff, List.map_map]
    refine List.map_congr_left fun e he => ?_
    obtain ⟨b, hb⟩ := h e he
    rw [Function.comp_apply, holds_of_ok hb, hb]
  unfold AnomalyDetector.countWhere
  rw [hresults, ok_bind, List.countP_map]
  rfl

omit [PyFloat φ] in
/-- Counting raises if the test does for some event of the window. -/
theorem exists_of_countWhere {test : Event φ → Except PyError Bool} {n : Nat}
    (h : d.countWhere test = .ok n) : ∀ e ∈ d.events, ∃ b, test e.event = .ok b := by
  unfold AnomalyDetector.countWhere at h
  obtain ⟨results, hresults, -⟩ := bind_eq_ok_iff.mp h
  rw [mapM_eq_ok_iff] at hresults
  intro e he
  have hmem : test e.event ∈ results.map Except.ok := hresults ▸ List.mem_map_of_mem he
  obtain ⟨b, -, hb⟩ := List.mem_map.mp hmem
  exact ⟨b, hb.symm⟩

/-- What a finding is read from: an object of unmapped data. -/
theorem unmapped_of_isFinding {event : Event φ} {b : Bool} (h : isFinding event = .ok b) :
    ∃ ms, getDefault (.obj event) (lit "unmapped") (.obj []) = .ok (.obj ms) := by
  unfold isFinding at h
  obtain ⟨unmapped, hunmapped, h⟩ := bind_eq_ok_iff.mp h
  obtain ⟨passed, hpassed, -⟩ := bind_eq_ok_iff.mp h
  cases unmapped with
  | obj ms => exact ⟨ms, hunmapped⟩
  | null => cases hpassed
  | bool b => cases hpassed
  | int n => cases hpassed
  | float x => cases hpassed
  | nan => cases hpassed
  | str s => cases hpassed
  | arr js => cases hpassed

/-- The escalation check goes through for a readable event, and yields no alert of another rule. -/
theorem checkSeverityEscalation_eq_ok (d : AnomalyDetector φ) {event : Event φ} (nowMs : Int)
    (h : isReadable R event = true) :
    ∃ alerts, d.checkSeverityEscalation R event nowMs = .ok alerts ∧
      ∀ a ∈ alerts, a.rule = .severityEscalation := by
  obtain ⟨b, hb⟩ := isReadable_iff.mp h
  unfold isCriticalFinding at hb
  obtain ⟨finding, hfinding, hb⟩ := bind_eq_ok_iff.mp hb
  unfold AnomalyDetector.checkSeverityEscalation
  rw [hfinding, ok_bind]
  cases finding with
  | false => exact ⟨[], rfl, nofun⟩
  | true =>
    rw [if_pos rfl] at hb ⊢
    obtain ⟨sev, hsev, -⟩ := bind_eq_ok_iff.mp hb
    obtain ⟨ms, hunmapped⟩ := unmapped_of_isFinding hfinding
    rw [hsev, ok_bind]
    split
    · rw [hunmapped]
      exact ⟨_, rfl, fun a ha => by rw [List.mem_singleton.mp ha]⟩
    · exact ⟨[], rfl, nofun⟩

theorem isReadable_of_checkSeverityEscalation {event : Event φ} {nowMs : Int}
    {alerts : List (AnomalyAlert φ)}
    (h : d.checkSeverityEscalation R event nowMs = .ok alerts) : isReadable R event = true := by
  unfold AnomalyDetector.checkSeverityEscalation at h
  obtain ⟨finding, hfinding, h⟩ := bind_eq_ok_iff.mp h
  refine isReadable_iff.mpr ?_
  unfold isCriticalFinding
  rw [hfinding, ok_bind]
  cases finding with
  | false => exact ⟨_, rfl⟩
  | true =>
    rw [if_pos rfl] at h ⊢
    obtain ⟨sev, hsev, -⟩ := bind_eq_ok_iff.mp h
    rw [hsev]
    exact ⟨_, rfl⟩

omit [PyFloat φ] in
theorem exists_of_checkCount {rule : AnomalyRule} {test : Event φ → Except PyError Bool}
    {threshold : Int} {message : Nat → Str} {nowMs : Int} {alerts : List (AnomalyAlert φ)}
    (h : d.checkCount rule test threshold message nowMs = .ok alerts) :
    ∀ e ∈ d.events, ∃ b, test e.event = .ok b := by
  unfold AnomalyDetector.checkCount at h
  obtain ⟨n, hn, -⟩ := bind_eq_ok_iff.mp h
  exact exists_of_countWhere hn

variable (R) in
/-- The alerts of a rule, where the events can be read. -/
def ruleAlerts (d : AnomalyDetector φ) (rule : RateRule) (nowMs : Int) : List (AnomalyAlert φ) :=
  let count := d.events.countP fun e => holds (rule.test R) e.event
  if rule.threshold d.toAnomalyThresholds < count ∧
      ∀ last ∈ d.lastAlert rule.rule, last.eventCount < count then
    [⟨rule.rule, rule.message d.toAnomalyThresholds count, count, d.windowSeconds, nowMs⟩]
  else []

theorem rule_of_mem_ruleAlerts (rule : RateRule) {nowMs : Int} {a : AnomalyAlert φ}
    (h : a ∈ ruleAlerts R d rule nowMs) : a.rule = rule.rule := by
  unfold ruleAlerts at h
  dsimp only at h
  split at h
  · rw [List.mem_singleton.mp h]
  · cases h

theorem checkCount_eq_ok (rule : RateRule) {nowMs : Int}
    (h : ∀ e ∈ d.events, isReadable R e.event = true) :
    d.checkCount rule.rule (rule.test R) (rule.threshold d.toAnomalyThresholds)
      (rule.message d.toAnomalyThresholds) nowMs = .ok (ruleAlerts R d rule nowMs) := by
  unfold AnomalyDetector.checkCount ruleAlerts
  rw [countWhere_eq_ok fun e he => exists_test rule (h e he), ok_bind]
  dsimp only
  split <;> rfl

variable (R d) in
/-- The detector with the event in its window. -/
def withEvent (input : Ingested φ) : AnomalyDetector φ :=
  { d with
    events := (d.events ++ [input]).filter
      (inWindow R d.toAnomalyThresholds input.ingestedAtMs) }

omit [PyFloat φ] in
theorem evictStale_eq_ok {input : Ingested φ}
    (h : (R.milliseconds d.windowSeconds).toOption.isSome) :
    AnomalyDetector.evictStale R { d with events := d.events ++ [input] } input.ingestedAtMs =
      .ok (withEvent R d input) := by
  unfold AnomalyDetector.evictStale withEvent inWindow
  cases hms : R.milliseconds d.windowSeconds with
  | error err =>
    rw [hms] at h
    cases h
  | ok ms => rfl

/-- What an event that is readable, in a readable window, comes to. -/
theorem ingest_of_readable {input : Ingested φ}
    (hlength : (R.milliseconds d.windowSeconds).toOption.isSome)
    (h : ∀ e ∈ (withEvent R d input).events ++ [input], isReadable R e.event = true) :
    ∃ escalation, (∀ a ∈ escalation, a.rule = AnomalyRule.severityEscalation) ∧
      ∃ alerts, alerts = ruleAlerts R (withEvent R d input) .highFindingRate input.ingestedAtMs ++
          ruleAlerts R (withEvent R d input) .criticalBurst input.ingestedAtMs ++ escalation ∧
        d.ingest R input =
          (.ok alerts, { withEvent R d input with alerts := d.alerts ++ alerts }) := by
  have hwindow : ∀ e ∈ (withEvent R d input).events, isReadable R e.event = true :=
    fun e he => h e (List.mem_append_left _ he)
  have hinput := h input (List.mem_append_right _ (List.mem_singleton_self input))
  obtain ⟨escalation, hescalation, hrule⟩ :=
    checkSeverityEscalation_eq_ok (withEvent R d input) input.ingestedAtMs hinput
  have hrate : (withEvent R d input).checkHighFindingRate input.ingestedAtMs = .ok _ :=
    checkCount_eq_ok .highFindingRate hwindow
  have hburst : (withEvent R d input).checkCriticalBurst R input.ingestedAtMs = .ok _ :=
    checkCount_eq_ok .criticalBurst hwindow
  refine ⟨escalation, hrule, _, rfl, ?_⟩
  unfold AnomalyDetector.ingest
  dsimp only
  rw [evictStale_eq_ok hlength]
  dsimp only
  rw [hrate, hburst, hescalation]
  rfl

/-- Where the window has no length, or the event or another one of it cannot be read, it raises. -/
theorem ingest_of_unreadable {input : Ingested φ}
    (h : ¬ ((R.milliseconds d.windowSeconds).toOption.isSome ∧
      ∀ e ∈ (withEvent R d input).events ++ [input], isReadable R e.event = true)) :
    ∃ err, d.ingest R input = (.error err, withEvent R d input) := by
  unfold AnomalyDetector.ingest
  dsimp only
  cases hms : R.milliseconds d.windowSeconds with
  | error err =>
    refine ⟨err, ?_⟩
    unfold AnomalyDetector.evictStale withEvent inWindow
    dsimp only
    rw [hms, List.filter_true]
    rfl
  | ok ms =>
  have hlength : (R.milliseconds d.windowSeconds).toOption.isSome = true := by
    rw [hms]
    rfl
  rw [evictStale_eq_ok hlength]
  dsimp only
  split
  · next err _ => exact ⟨err, rfl⟩
  · next alerts hfound =>
    refine absurd ⟨hlength, fun e he => ?_⟩ h
    obtain ⟨rate, -, hfound⟩ := bind_eq_ok_iff.mp hfound
    obtain ⟨burst, hburst, hfound⟩ := bind_eq_ok_iff.mp hfound
    obtain ⟨escalation, hescalation, -⟩ := bind_eq_ok_iff.mp hfound
    rcases List.mem_append.mp he with he | he
    · exact isReadable_iff.mpr (exists_of_checkCount hburst e he)
    · rw [List.mem_singleton.mp he]
      exact isReadable_of_checkSeverityEscalation hescalation

/-- The last alert of a rule, after alerts of all rules. -/
theorem lastAlert_append {alerts escalation : List (AnomalyAlert φ)} {d' : AnomalyDetector φ}
    {rule : RateRule} {nowMs : Int}
    (hescalation : ∀ a ∈ escalation, a.rule = AnomalyRule.severityEscalation)
    (halerts : alerts = ruleAlerts R d' .highFindingRate nowMs ++
      ruleAlerts R d' .criticalBurst nowMs ++ escalation) :
    AnomalyDetector.lastAlert { d' with alerts := d.alerts ++ alerts } rule.rule =
      ((ruleAlerts R d' rule nowMs).head?).or (d.lastAlert rule.rule) := by
  have hother : ∀ {l : List (AnomalyAlert φ)} {r : AnomalyRule}, (∀ a ∈ l, a.rule = r) →
      r ≠ rule.rule → l.reverse.find? (·.rule = rule.rule) = none := by
    intro l r hl hne
    refine List.find?_eq_none.mpr fun a ha => ?_
    rw [hl a (List.mem_reverse.mp ha), decide_eq_true_eq]
    exact hne
  have hown : (ruleAlerts R d' rule nowMs).reverse.find? (·.rule = rule.rule) =
      (ruleAlerts R d' rule nowMs).head? := by
    unfold ruleAlerts
    dsimp only
    split
    · exact List.find?_cons_of_pos (decide_eq_true rfl)
    · rfl
  unfold AnomalyDetector.lastAlert
  rw [List.reverse_append, List.find?_append, halerts, List.reverse_append, List.reverse_append,
    List.find?_append, List.find?_append]
  cases rule with
  | highFindingRate =>
    rw [hother hescalation nofun,
      hother (fun a ha => rule_of_mem_ruleAlerts .criticalBurst ha) nofun, hown]
    rfl
  | criticalBurst =>
    rw [hother hescalation nofun, hown,
      hother (fun a ha => rule_of_mem_ruleAlerts .highFindingRate ha) nofun, Option.none_or,
      Option.or_none]

end Ingest

/-! ## Runs -/

section Runs

variable [PyFloat φ] {c : AnomalyThresholds φ} {inputs : List (Ingested φ)} {input : Ingested φ}
  {d : AnomalyDetector φ}

/-- The answer has an alert of the rule. -/
def Alerts (rule : AnomalyRule) (answer : Except PyError (List (AnomalyAlert φ))) : Prop :=
  ∃ alerts, answer = .ok alerts ∧ ∃ a ∈ alerts, a.rule = rule

variable (c) in
/-- The level at which the alarm of a rule sounded last. -/
def lastLevel (rule : RateRule) (inputs : List (Ingested φ)) : Option Nat :=
  Run.final (Alarm.step (rule.threshold c)) none (Alarm.readings (reading R c rule) inputs)

variable (c) in
/-- The detector after some events. -/
structure Simulates (inputs : List (Ingested φ)) (d : AnomalyDetector φ) : Prop where
  thresholds : d.toAnomalyThresholds = c
  events : d.events = window R c inputs
  last : ∀ rule : RateRule,
    (d.lastAlert rule.rule).map (·.eventCount) = lastLevel R c rule inputs

theorem simulates_new : Simulates R c [] (AnomalyDetector.new c) where
  thresholds := rfl
  events := rfl
  last _ := rfl

variable {R}

theorem withEvent_events (h : Simulates R c inputs d) (hin : InOrder (inputs ++ [input])) :
    (withEvent R d input).events = window R c (inputs ++ [input]) := by
  rw [← window_step hin, ← h.events, ← h.thresholds]
  rfl

theorem lastLevel_concat (rule : RateRule) :
    lastLevel R c rule (inputs ++ [input]) =
      (Alarm.step (rule.threshold c) (lastLevel R c rule inputs)
        (reading R c rule inputs input)).2 := by
  rw [lastLevel, Alarm.readings_concat, Run.final_concat]
  rfl

/-- The alarm fails exactly where the event cannot be checked. -/
theorem fails_eq_false_iff (rule : RateRule) :
    (reading R c rule inputs input).fails = false ↔ Checkable R c inputs input := by
  unfold reading
  rw [Bool.not_eq_false', decide_eq_true_eq]

theorem checkable_iff (h : Simulates R c inputs d) (hin : InOrder (inputs ++ [input])) :
    Checkable R c inputs input ↔ (R.milliseconds d.windowSeconds).toOption.isSome ∧
      ∀ e ∈ (withEvent R d input).events ++ [input], isReadable R e.event = true := by
  unfold Checkable
  rw [withEvent_events h hin, h.thresholds]

/-- The alerts of a rule are those of its alarm. -/
theorem ruleAlerts_eq (h : Simulates R c inputs d) (hin : InOrder (inputs ++ [input]))
    (hcheckable : Checkable R c inputs input) (rule : RateRule) :
    ((ruleAlerts R (withEvent R d input) rule input.ingestedAtMs ≠ []) ↔
      (Alarm.step (rule.threshold c) (lastLevel R c rule inputs)
        (reading R c rule inputs input)).1 = true) ∧
    (((ruleAlerts R (withEvent R d input) rule input.ingestedAtMs).head?).or
        (d.lastAlert rule.rule)).map (·.eventCount) =
      (Alarm.step (rule.threshold c) (lastLevel R c rule inputs)
        (reading R c rule inputs input)).2 := by
  have hfails := (fails_eq_false_iff rule).mpr hcheckable
  have hlast : (withEvent R d input).lastAlert rule.rule = d.lastAlert rule.rule := rfl
  have hthresholds : (withEvent R d input).toAnomalyThresholds = c := h.thresholds
  have hlevel : ((withEvent R d input).events.countP fun e => holds (rule.test R) e.event) =
      (reading R c rule inputs input).level := by
    rw [withEvent_events h hin]
    rfl
  have hcompare : (∀ last ∈ d.lastAlert rule.rule,
        last.eventCount < (reading R c rule inputs input).level) ↔
      ∀ n ∈ lastLevel R c rule inputs, n < (reading R c rule inputs input).level := by
    rw [← h.last rule]
    simp
  unfold ruleAlerts Alarm.step
  dsimp only
  rw [hlast, hthresholds, hlevel]
  by_cases hsounds : rule.threshold c < (reading R c rule inputs input).level ∧
      ∀ n ∈ lastLevel R c rule inputs, n < (reading R c rule inputs input).level
  · rw [if_pos ⟨hsounds.1, hcompare.mpr hsounds.2⟩, if_pos ⟨hfails, hsounds⟩]
    exact ⟨⟨fun _ => rfl, fun _ => List.cons_ne_nil _ _⟩, rfl⟩
  · rw [if_neg fun hc => hsounds ⟨hc.1, hcompare.mp hc.2⟩, if_neg fun hc => hsounds hc.2]
    exact ⟨⟨fun hne => absurd rfl hne, nofun⟩, h.last rule⟩

/-- An event does to the detector what its reading does to the alarms. -/
theorem simulates_ingest (h : Simulates R c inputs d) (hin : InOrder (inputs ++ [input])) :
    Simulates R c (inputs ++ [input]) (d.ingest R input).2 ∧
      ∀ rule : RateRule, Alerts rule.rule (d.ingest R input).1 ↔
        (Alarm.step (rule.threshold c) (lastLevel R c rule inputs)
          (reading R c rule inputs input)).1 = true := by
  by_cases hcheckable : Checkable R c inputs input
  · obtain ⟨hlength, hreadable⟩ := (checkable_iff h hin).mp hcheckable
    obtain ⟨escalation, hescalation, alerts, halerts, hingest⟩ :=
      ingest_of_readable hlength hreadable
    rw [hingest]
    refine ⟨⟨h.thresholds, withEvent_events h hin, fun rule => ?_⟩, fun rule => ?_⟩
    · rw [lastLevel_concat, ← (ruleAlerts_eq h hin hcheckable rule).2]
      exact congrArg _ (lastAlert_append hescalation halerts)
    · rw [← (ruleAlerts_eq h hin hcheckable rule).1]
      constructor
      · rintro ⟨_, heq, a, ha, hrule⟩ hnil
        cases heq
        rw [halerts] at ha
        rcases List.mem_append.mp ha with ha | ha
        · rcases List.mem_append.mp ha with ha | ha
          · cases rule with
            | highFindingRate =>
              rw [hnil] at ha
              cases ha
            | criticalBurst => cases (rule_of_mem_ruleAlerts _ ha).symm.trans hrule
          · cases rule with
            | highFindingRate => cases (rule_of_mem_ruleAlerts _ ha).symm.trans hrule
            | criticalBurst =>
              rw [hnil] at ha
              cases ha
        · cases rule <;> cases (hescalation a ha).symm.trans hrule
      · intro hne
        obtain ⟨a, ha⟩ := List.exists_mem_of_ne_nil _ hne
        refine ⟨alerts, rfl, a, ?_, rule_of_mem_ruleAlerts _ ha⟩
        rw [halerts]
        cases rule with
        | highFindingRate => exact List.mem_append_left _ (List.mem_append_left _ ha)
        | criticalBurst => exact List.mem_append_left _ (List.mem_append_right _ ha)
  · obtain ⟨err, hingest⟩ := ingest_of_unreadable (mt (checkable_iff h hin).mpr hcheckable)
    rw [hingest]
    have hsilent : ∀ rule : RateRule, Alarm.step (rule.threshold c) (lastLevel R c rule inputs)
        (reading R c rule inputs input) = (false, lastLevel R c rule inputs) := fun rule => by
      rw [Alarm.step, if_neg fun hc => hcheckable ((fails_eq_false_iff rule).mp hc.1)]
    refine ⟨⟨h.thresholds, withEvent_events h hin, fun rule => ?_⟩, fun rule => ?_⟩
    · rw [lastLevel_concat, hsilent rule]
      exact h.last rule
    · rw [hsilent rule]
      exact ⟨nofun, nofun⟩

theorem simulates_final (hin : InOrder inputs) :
    Simulates R c inputs (Run.final (AnomalyDetector.ingest R) (AnomalyDetector.new c) inputs) := by
  induction inputs using List.reverseRecOn with
  | nil => exact simulates_new R
  | append_singleton inputs input ih =>
    rw [Run.final_concat]
    exact (simulates_ingest (ih (hin.sublist (List.sublist_append_left _ _))) hin).1

variable (R c) in
/-- The number of events that the rule counts crosses its threshold. -/
def Crosses (rule : RateRule) (before : List (Ingested φ)) (input : Ingested φ) : Prop :=
  windowCount R c rule before ≤ rule.threshold c ∧
    rule.threshold c < windowCount R c rule (before ++ [input])

instance (rule : RateRule) (before : List (Ingested φ)) (input : Ingested φ) :
    Decidable (Crosses R c rule before input) :=
  inferInstanceAs (Decidable (_ ∧ _))

/-- In a run in order of time, every event at which a rule crosses its threshold brings its alert
exactly if the rule crosses it only once, and the event can be checked then. -/
theorem alerts_at_crossings_iff (R : AnomalyRuntime φ) (c : AnomalyThresholds φ)
    {inputs : List (Ingested φ)} (hin : InOrder inputs) (rule : RateRule) :
    (∀ before input, before ++ [input] <+: inputs → Crosses R c rule before input →
        Alerts rule.rule
          ((Run.final (AnomalyDetector.ingest R) (AnomalyDetector.new c) before).ingest R input).1) ↔
      ∀ before input, before ++ [input] <+: inputs → Crosses R c rule before input →
        Checkable R c before input ∧
          ∀ before' input', before' ++ [input'] <+: before → ¬ Crosses R c rule before' input' := by
  have halarm := Alarm.sounds_at_crossings_iff (rule.threshold c)
    (gradual_readings (R := R) (c := c) rule hin)
  rw [Alarm.forall_prefix_readings_iff, Alarm.forall_prefix_readings_iff] at halarm
  have hcrosses : ∀ before input, Alarm.Crosses (rule.threshold c)
      (Alarm.readings (reading R c rule) before) (reading R c rule before input) ↔
      Crosses R c rule before input := fun before input => by
    rw [Alarm.Crosses, levelAfter_readings]
    rfl
  have hpre_inOrder : ∀ {before input}, before ++ [input] <+: inputs →
      InOrder (before ++ [input]) := fun hpre => hin.sublist hpre.sublist
  have hsimulates : ∀ {before input}, before ++ [input] <+: inputs →
      Simulates R c before
        (Run.final (AnomalyDetector.ingest R) (AnomalyDetector.new c) before) := fun hpre =>
    simulates_final ((hpre_inOrder hpre).sublist (List.sublist_append_left _ _))
  refine Iff.trans (forall_congr' fun before => forall_congr' fun input => ?_)
    (halarm.trans (forall_congr' fun before => forall_congr' fun input => ?_))
  · refine imp_congr_right fun hpre => imp_congr (hcrosses before input).symm ?_
    exact (simulates_ingest (hsimulates hpre) (hpre_inOrder hpre)).2 rule
  · refine imp_congr_right fun hpre => imp_congr (hcrosses before input) (and_congr ?_ ?_)
    · exact fails_eq_false_iff rule
    · rw [Alarm.forall_prefix_readings_iff]
      exact forall_congr' fun before' => forall_congr' fun input' =>
        imp_congr_right fun _ => not_congr (hcrosses before' input')

end Runs

/-! ## Two bursts -/

section Example

private def runtime : AnomalyRuntime WholeFloat where
  builtins :=
    { textBuiltins with
      truncate := fun x =>
        match x with
        | .whole n => .ok n
        | _ => .error .overflowError }
  milliseconds x :=
    match x with
    | .whole n => .ok (n * 1000)
    | _ => .error .overflowError
  zeroSeconds := .whole 0

/-- Any finding is one too many, within five minutes. -/
private def noFindings : AnomalyThresholds WholeFloat where
  highFindingRateThreshold := 0
  criticalBurstThreshold := 0
  severityEscalationBaseline := 5
  windowSeconds := .whole 300

/-- A critical finding. -/
private def criticalAt (ms : Int) : Ingested WholeFloat where
  event :=
    [(lit "severity_id", .int 5), (lit "unmapped", .obj [(lit "passed", .bool false)])]
  ingestedAtMs := ms

private def passedAt (ms : Int) : Ingested WholeFloat where
  event := [(lit "unmapped", .obj [(lit "passed", .bool true)])]
  ingestedAtMs := ms

/-- A finding between two events without one. -/
theorem alerts_at_crossings_burst :
    Crosses runtime noFindings .criticalBurst [passedAt 0] (criticalAt 1000) ∧
      Alerts .criticalBurst
        ((Run.final (AnomalyDetector.ingest runtime) (AnomalyDetector.new noFindings)
          [passedAt 0]).ingest runtime (criticalAt 1000)).1 := by
  have hcrosses : Crosses runtime noFindings .criticalBurst [passedAt 0] (criticalAt 1000) := by
    decide
  have hfirst : ¬ Crosses runtime noFindings .criticalBurst [] (passedAt 0) := by decide
  have hlast : ¬ Crosses runtime noFindings .criticalBurst [passedAt 0, criticalAt 1000]
      (passedAt 2000) := by decide
  have hin : InOrder [passedAt 0, criticalAt 1000, passedAt 2000] := by
    simp [InOrder, criticalAt, passedAt]
  refine ⟨hcrosses, (alerts_at_crossings_iff runtime noFindings hin .criticalBurst).mpr
    (fun before input hpre hcross => ?_) [passedAt 0] (criticalAt 1000) (List.prefix_append _ [_])
      hcrosses⟩
  cases before with
  | nil =>
    obtain rfl : input = passedAt 0 := (List.cons_prefix_cons.mp hpre).1
    exact absurd hcross hfirst
  | cons e before =>
    obtain ⟨rfl, hrest⟩ := List.cons_prefix_cons.mp hpre
    cases before with
    | nil =>
      obtain rfl : input = criticalAt 1000 := (List.cons_prefix_cons.mp hrest).1
      refine ⟨by decide, fun before' input' h hcross' => ?_⟩
      cases before' with
      | nil =>
        obtain rfl : input' = passedAt 0 := (List.cons_prefix_cons.mp h).1
        exact hfirst hcross'
      | cons e before' => exact absurd (List.cons_prefix_cons.mp h).2 (by simp)
    | cons e before =>
      obtain ⟨rfl, hlast'⟩ := List.cons_prefix_cons.mp hrest
      cases before with
      | nil =>
        obtain rfl : input = passedAt 2000 := (List.cons_prefix_cons.mp hlast').1
        exact absurd hcross hlast
      | cons e before => exact absurd (List.cons_prefix_cons.mp hlast').2 (by simp)

/-- A second burst, after the first has left the window, brings no alert. -/
theorem secondBurst_silent : InOrder [criticalAt 0, passedAt 600000, criticalAt 601000] ∧
    ∀ rule : RateRule,
      Crosses runtime noFindings rule [criticalAt 0, passedAt 600000] (criticalAt 601000) ∧
        ((Run.final (AnomalyDetector.ingest runtime) (AnomalyDetector.new noFindings)
          [criticalAt 0, passedAt 600000]).ingest runtime (criticalAt 601000)).1 = .ok [] := by
  refine ⟨by simp [InOrder, criticalAt, passedAt], fun rule => ⟨?_, rfl⟩⟩
  cases rule <;> decide

end Example

end CosaiMcp.Telemetry
