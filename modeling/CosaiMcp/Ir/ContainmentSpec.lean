import CosaiMcp.Ir.Containment
import CosaiMcp.Transport.NetworkSpec

/-!
# What containment does

Whatever the incident says and the outside answers, a run of containment sends requests to the target
of the incident and to the endpoint of the operator only, past the allowlist. It reports no action as
a success whose effect is missing, but for the signal to end a session, which is a success wherever
the allowlist lets it through (`performContainment_confined`). The block commands that are printed
hold the firewall rules, and what the URL of the target has after a line break
(`runLines_blockEgress`).
-/

namespace CosaiMcp.Ir

open Py Transport

variable {φ : Type}

/-! ## One action -/

section Action

variable [FloatText φ] (rt : Runtime) (opts : Options) (incident : IncidentRecord)
  (w : Surroundings) (ocsf : Json φ)

/-- An effect that the operator has allowed this action to have. -/
def Permitted (action : ContainmentAction) : Effect φ → Prop
  | .delete url => action = .sessionKill ∧ url = incident.targetUrl ∧
      assertEgressAllowed rt.urlparse w.resolver opts.allowPrivate url = .ok ()
  | .post url authorization body => action = .emitIncident ∧ opts.emitEndpoint = some url ∧
      authorization = opts.emitAuthHeader.filter (· ≠ []) ∧ body = ocsf ∧
      assertEgressAllowed rt.urlparse w.resolver opts.allowPrivate url = .ok ()
  | .write path text => action = .quarantineReport ∧ path = pathOfReport opts incident ∧
      ∃ report : Json φ, text = report.indented 2 0 ∧
        report = .obj [(lit "cosai_ir_version", .str (lit "1.0")), (lit "incident", incident.toDict),
          (lit "ocsf_incident", ocsf)]

/-- The effect of an action that is reported as a success. The `DELETE` of a session may have been
sent or not. -/
def Effective (effects : List (Effect φ)) : ContainmentAction → Prop
  | .emitIncident => (∃ status, w.post = .replied status ∧ 200 ≤ status ∧ status < 300) ∧
      ∃ url authorization, effects = [.post url authorization ocsf]
  | .quarantineReport => w.write = .ok () ∧
      ∃ text, effects = [.write (pathOfReport opts incident) text]
  | .blockEgress => effects = []
  | .sessionKill => effects = w.delete.effects (.delete incident.targetUrl) ∧
      assertEgressAllowed rt.urlparse w.resolver opts.allowPrivate incident.targetUrl = .ok ()

/-- What is to be known of an action. -/
structure IsContained (action : ContainmentAction) (o : Outcome φ ContainmentResult) : Prop where
  single : o.2.length ≤ 1
  permitted : ∀ effect ∈ o.2, Permitted rt opts incident w ocsf action effect
  named : ∀ r, o.1 = .ok r → r.action = action
  effective : ∀ r, o.1 = .ok r → r.success = true → Effective rt opts incident w ocsf o.2 action

variable {rt opts incident w ocsf}

theorem isContained_error (action : ContainmentAction) (e : PyError) :
    IsContained rt opts incident w ocsf action (.error e, []) := by
  refine ⟨Nat.zero_le 1, List.forall_mem_nil _, fun r h => ?_, fun r h => ?_⟩
  · cases h
  · cases h

theorem isContained_failure (action : ContainmentAction) (detail : Str) :
    IsContained rt opts incident w ocsf action (.ok ⟨action, false, detail⟩, []) := by
  refine ⟨Nat.zero_le 1, List.forall_mem_nil _, fun r h => ?_, fun r h hs => ?_⟩
  · cases h
    rfl
  · cases h
    cases hs

omit [FloatText φ] in
theorem effects_length_le (x : Exchange) (request : Effect φ) :
    (x.effects request).length ≤ 1 := by
  unfold Exchange.effects
  split
  · exact Nat.le_refl 1
  · exact Nat.zero_le 1

omit [FloatText φ] in
theorem eq_of_mem_effects {x : Exchange} {request effect : Effect φ}
    (h : effect ∈ x.effects request) : effect = request := by
  unfold Exchange.effects at h
  split at h
  · exact List.mem_singleton.mp h
  · cases h

theorem emitResult_action (x : Exchange) : (emitResult x).action = .emitIncident := by
  cases x with
  | replied status =>
    rw [emitResult]
    split <;> rfl
  | lost type => rfl
  | unsent type => rfl

theorem emitResult_success_iff {x : Exchange} : (emitResult x).success = true ↔
    ∃ status, x = .replied status ∧ 200 ≤ status ∧ status < 300 := by
  cases x with
  | replied status =>
    rw [emitResult]
    split
    · next hstatus => exact iff_of_true rfl ⟨status, rfl, hstatus⟩
    · next hstatus =>
      refine iff_of_false Bool.false_ne_true ?_
      rintro ⟨status', h, hstatus'⟩
      cases h
      exact hstatus hstatus'
  | lost type =>
    refine iff_of_false Bool.false_ne_true ?_
    rintro ⟨status, h, -⟩
    cases h
  | unsent type =>
    refine iff_of_false Bool.false_ne_true ?_
    rintro ⟨status, h, -⟩
    cases h

theorem isContained_throughAllowlist {action : ContainmentAction} {url : Str}
    {send : Outcome φ ContainmentResult}
    (h : assertEgressAllowed rt.urlparse w.resolver opts.allowPrivate url = .ok () →
      IsContained rt opts incident w ocsf action send) :
    IsContained rt opts incident w ocsf action (throughAllowlist rt opts w action url send) := by
  unfold throughAllowlist
  split
  · exact isContained_error action _
  · exact isContained_failure action _
  · next hallowed => exact h hallowed

variable (rt opts incident w ocsf) in
theorem isContained_performAction (action : ContainmentAction) :
    IsContained rt opts incident w ocsf action (performAction rt opts incident w ocsf action) := by
  cases action with
  | emitIncident =>
    rw [performAction]
    split
    · exact isContained_failure _ _
    · next endpoint hendpoint =>
      refine isContained_throughAllowlist fun hallowed => ?_
      obtain ⟨hgiven, -⟩ := Option.filter_eq_some_iff.mp hendpoint
      refine ⟨effects_length_le _ _, fun effect heffect => ?_, fun r hr => ?_, fun r hr hs => ?_⟩
      · cases eq_of_mem_effects heffect
        exact ⟨rfl, hgiven, rfl, rfl, hallowed⟩
      · cases hr
        exact emitResult_action w.post
      · cases hr
        obtain ⟨status, hpost, hstatus⟩ := emitResult_success_iff.mp hs
        rw [hpost]
        exact ⟨⟨status, hpost, hstatus⟩, _, _, rfl⟩
  | quarantineReport =>
    rw [performAction, quarantineReport]
    split
    · next hwrite =>
      refine ⟨Nat.le_refl 1, List.forall_mem_singleton.mpr ⟨rfl, rfl, _, rfl, rfl⟩, ?_, ?_⟩
      · rintro r hr
        cases hr
        rfl
      · rintro r hr -
        exact ⟨hwrite, _, rfl⟩
    · exact isContained_failure _ _
    · exact isContained_error _ _
  | blockEgress =>
    rw [performAction]
    split
    · exact isContained_error _ _
    · refine ⟨Nat.zero_le 1, List.forall_mem_nil _, ?_, fun _ _ _ => rfl⟩
      rintro r hr
      cases hr
      rfl
  | sessionKill =>
    rw [performAction, sessionKill]
    refine isContained_throughAllowlist fun hallowed => ?_
    refine ⟨effects_length_le _ _, fun effect heffect => ?_, fun r hr => ?_, fun _ _ _ => ?_⟩
    · cases eq_of_mem_effects heffect
      exact ⟨rfl, rfl, hallowed⟩
    · cases hr
      rfl
    · exact ⟨rfl, hallowed⟩

/-- The action ends containment with an exception. -/
def Raises (rt : Runtime) (opts : Options) (incident : IncidentRecord) (w : Surroundings) :
    ContainmentAction → Prop
  | .emitIncident => ∃ endpoint, opts.emitEndpoint = some endpoint ∧ endpoint ≠ [] ∧
      assertEgressAllowed rt.urlparse w.resolver opts.allowPrivate endpoint = .error .valueError
  | .quarantineReport => w.write = .error .value
  | .blockEgress => rt.urlparse incident.targetUrl = none ∨
      ∃ scheme hostname, rt.urlparse incident.targetUrl = some (scheme, some hostname) ∧
        hostname ≠ [] ∧ w.hostByName hostname = .error .unicode
  | .sessionKill => assertEgressAllowed rt.urlparse w.resolver opts.allowPrivate incident.targetUrl =
      .error .valueError

omit [FloatText φ] in
theorem throughAllowlist_fst_iff {action : ContainmentAction} {url : Str} {r : ContainmentResult}
    {effects : List (Effect φ)} {e : PyError} :
    (throughAllowlist rt opts w action url (.ok r, effects)).1 = .error e ↔ e = .valueError ∧
      assertEgressAllowed rt.urlparse w.resolver opts.allowPrivate url = .error .valueError := by
  unfold throughAllowlist
  cases h : assertEgressAllowed rt.urlparse w.resolver opts.allowPrivate url with
  | ok _ => simp
  | error e' =>
    cases e' with
    | valueError => simp [eq_comm]
    | _ => simp

omit [FloatText φ] in
theorem hostAddress_error_iff {hostname : Str} {e : PyError} :
    hostAddress w hostname = .error e ↔
      e = .valueError ∧ hostname ≠ [] ∧ w.hostByName hostname = .error .unicode := by
  unfold hostAddress resolveHostIp
  by_cases hnil : hostname = []
  · simp [hnil]
  · rw [if_neg hnil]
    cases hlookup : w.hostByName hostname with
    | ok ip => simp [Except.map]
    | error e' => cases e' <;> simp [Except.map, hnil, eq_comm]

omit [FloatText φ] in
theorem generateBlockCommands_error_iff {url : Str} {e : PyError} :
    generateBlockCommands rt w url = .error e ↔ e = .valueError ∧ (rt.urlparse url = none ∨
      ∃ scheme hostname, rt.urlparse url = some (scheme, some hostname) ∧
        hostname ≠ [] ∧ w.hostByName hostname = .error .unicode) := by
  unfold generateBlockCommands
  cases rt.urlparse url with
  | none => simp [eq_comm]
  | some p =>
    obtain ⟨scheme, hostname⟩ := p
    have hmap : ∀ x : Except PyError (Option Str), ∀ f : Option Str → List Str,
        x.map f = .error e ↔ x = .error e := by
      intro x f
      cases x <;> simp [Except.map]
    rw [hmap, hostAddress_error_iff]
    refine and_congr_right fun _ => ?_
    cases hostname <;> simp

theorem performAction_error_iff {action : ContainmentAction} {e : PyError} :
    (performAction rt opts incident w ocsf action).1 = .error e ↔
      e = .valueError ∧ Raises rt opts incident w action := by
  cases action with
  | emitIncident =>
    rw [performAction, Raises]
    cases hendpoint : opts.emitEndpoint.filter (· ≠ []) with
    | none =>
      refine iff_of_false (fun h => by cases h) ?_
      rintro ⟨-, endpoint, hgiven, hne, -⟩
      rw [hgiven] at hendpoint
      simp [Option.filter, hne] at hendpoint
    | some endpoint =>
      obtain ⟨hgiven, hne⟩ := Option.filter_eq_some_iff.mp hendpoint
      refine throughAllowlist_fst_iff.trans (and_congr_right fun _ => ⟨fun h => ?_, ?_⟩)
      · exact ⟨endpoint, hgiven, of_decide_eq_true hne, h⟩
      · rintro ⟨endpoint', hgiven', -, h⟩
        cases hgiven.symm.trans hgiven'
        exact h
  | quarantineReport =>
    rw [performAction, quarantineReport, Raises]
    cases w.write with
    | ok _ => simp
    | error e' => cases e' <;> simp [eq_comm]
  | blockEgress =>
    rw [performAction, Raises, ← generateBlockCommands_error_iff]
    cases generateBlockCommands rt w incident.targetUrl with
    | error e' => simp
    | ok commands => simp
  | sessionKill => exact throughAllowlist_fst_iff

end Action

/-! ## A run -/

section Run

variable [FloatText φ]

/-- What is to be known of a run of these actions, from the `i`-th place on. -/
structure IsConfined (rt : Runtime) (opts : Options) (incident : IncidentRecord)
    (env : Nat → Surroundings) (ocsf : Json φ) (i : Nat) (actions : List ContainmentAction)
    (run : Except PyError (List ContainmentResult) × List (Nat × Effect φ)) : Prop where
  /-- An action has one effect at most, after those of the actions before it. -/
  ordered : (run.2.map Prod.fst).Pairwise (· < ·)
  permitted : ∀ k effect, (k, effect) ∈ run.2 → ∃ j action, k = i + j ∧ actions[j]? = some action ∧
    Permitted rt opts incident (env k) ocsf action effect
  /-- There is a result for every action. -/
  named : ∀ results, run.1 = .ok results → results.map ContainmentResult.action = actions
  effective : ∀ results, run.1 = .ok results → ∀ j r, results[j]? = some r → r.success = true →
    Effective rt opts incident (env (i + j)) ocsf
      ((run.2.filter (·.1 = i + j)).map Prod.snd) r.action
  returns : (∃ results, run.1 = .ok results) ↔
    ∀ j action, actions[j]? = some action → ¬ Raises rt opts incident (env (i + j)) action

variable {rt : Runtime} {opts : Options} {incident : IncidentRecord} {env : Nat → Surroundings}
  {ocsf : Json φ}

theorem isConfined_nil (i : Nat) : IsConfined rt opts incident env ocsf i [] (.ok [], []) where
  ordered := .nil
  permitted := by simp
  named := by simp
  effective := by simp
  returns := by simp

/-- The actions that come later have later effects. -/
theorem IsConfined.le_of_mem {i : Nat} {actions : List ContainmentAction}
    {run : Except PyError (List ContainmentResult) × List (Nat × Effect φ)}
    (h : IsConfined rt opts incident env ocsf i actions run) {k : Nat} {effect : Effect φ}
    (hk : (k, effect) ∈ run.2) : i ≤ k := by
  obtain ⟨j, -, rfl, -⟩ := h.permitted k effect hk
  exact Nat.le_add_right i j

section Step

variable {i : Nat} {action : ContainmentAction} {actions : List ContainmentAction}
  {effects : List (Effect φ)}

omit [FloatText φ] in
theorem pairwise_tagged (h : effects.length ≤ 1) :
    ((effects.map (i, ·)).map Prod.fst).Pairwise (· < ·) := by
  rcases effects with _ | ⟨effect, _ | ⟨effect', effects⟩⟩
  · exact .nil
  · exact List.pairwise_singleton _ _
  · simp at h

omit [FloatText φ] in
theorem filter_tagged (k : Nat) : ((effects.map (i, ·)).filter (·.1 = k)).map Prod.snd =
    if i = k then effects else [] := by
  rw [List.filter_map, List.map_map]
  by_cases hik : i = k
  · simp [hik, Function.comp_def]
  · simp [hik, Function.comp_def]

/-- The action raises, and those after it are not run. -/
theorem isConfined_cons_error {e : PyError}
    (h : performAction rt opts incident (env i) ocsf action = (.error e, effects)) :
    IsConfined rt opts incident env ocsf i (action :: actions)
      (.error e, effects.map (i, ·)) := by
  have hone := isContained_performAction rt opts incident (env i) ocsf action
  rw [h] at hone
  refine ⟨pairwise_tagged hone.single, ?_, ?_, ?_, ?_⟩
  · intro k effect hk
    obtain ⟨effect', heffect, heq⟩ := List.mem_map.mp hk
    cases heq
    exact ⟨0, action, rfl, rfl, hone.permitted effect heffect⟩
  · intro results hresults
    cases hresults
  · intro results hresults
    cases hresults
  · refine iff_of_false (by simp) fun hall => hall 0 action rfl ?_
    exact (performAction_error_iff.mp (congrArg Prod.fst h)).2

/-- None of the later effects is of the action. -/
theorem IsConfined.filter_eq_nil
    {run : Except PyError (List ContainmentResult) × List (Nat × Effect φ)}
    (h : IsConfined rt opts incident env ocsf (i + 1) actions run) :
    run.2.filter (·.1 = i) = [] := by
  refine List.filter_eq_nil_iff.mpr fun tagged htagged heq => ?_
  have hle := h.le_of_mem (k := tagged.1) htagged
  have heq := of_decide_eq_true heq
  omega

omit [FloatText φ] in
theorem forall_not_raises_cons :
    (∀ j a, (action :: actions)[j]? = some a → ¬ Raises rt opts incident (env (i + j)) a) ↔
      ¬ Raises rt opts incident (env i) action ∧
        ∀ j a, actions[j]? = some a → ¬ Raises rt opts incident (env (i + 1 + j)) a := by
  constructor
  · intro hall
    refine ⟨hall 0 action rfl, fun j a ha => ?_⟩
    rw [show i + 1 + j = i + (j + 1) by omega]
    exact hall (j + 1) a ha
  · rintro ⟨hfirst, hrest⟩ j a ha
    cases j with
    | zero =>
      cases ha
      exact hfirst
    | succ j =>
      rw [show i + (j + 1) = i + 1 + j by omega]
      exact hrest j a ha

/-- The action returns, and the run goes on. -/
theorem isConfined_cons_ok {r : ContainmentResult}
    {run : Except PyError (List ContainmentResult) × List (Nat × Effect φ)}
    (h : performAction rt opts incident (env i) ocsf action = (.ok r, effects))
    (hrun : IsConfined rt opts incident env ocsf (i + 1) actions run) :
    IsConfined rt opts incident env ocsf i (action :: actions)
      (run.1.map (r :: ·), effects.map (i, ·) ++ run.2) := by
  have hone := isContained_performAction rt opts incident (env i) ocsf action
  rw [h] at hone
  have hresults : ∀ results, run.1.map (r :: ·) = .ok results →
      ∃ rest, run.1 = .ok rest ∧ results = r :: rest := by
    intro results hok
    cases hrest : run.1 with
    | error e => rw [hrest] at hok; cases hok
    | ok rest =>
      rw [hrest] at hok
      cases hok
      exact ⟨rest, rfl, rfl⟩
  refine ⟨?_, ?_, ?_, ?_, ?_⟩
  · rw [List.map_append, List.pairwise_append]
    refine ⟨pairwise_tagged hone.single, hrun.ordered, ?_⟩
    intro a ha b hb
    rw [List.map_map] at ha
    obtain ⟨_, -, rfl⟩ := List.mem_map.mp ha
    obtain ⟨⟨k, effect⟩, htagged, rfl⟩ := List.mem_map.mp hb
    exact hrun.le_of_mem htagged
  · intro k effect hk
    rcases List.mem_append.mp hk with hk | hk
    · obtain ⟨effect', heffect, heq⟩ := List.mem_map.mp hk
      cases heq
      exact ⟨0, action, rfl, rfl, hone.permitted effect heffect⟩
    · obtain ⟨j, a, rfl, ha, hpermitted⟩ := hrun.permitted k effect hk
      exact ⟨j + 1, a, by omega, ha, hpermitted⟩
  · intro results hok
    obtain ⟨rest, hrest, rfl⟩ := hresults results hok
    rw [List.map_cons, hone.named r rfl, hrun.named rest hrest]
  · intro results hok j s hj hsuccess
    obtain ⟨rest, hrest, rfl⟩ := hresults results hok
    rw [List.filter_append, List.map_append, filter_tagged]
    cases j with
    | zero =>
      cases hj
      have hlater : run.2.filter (·.1 = i + 0) = [] := hrun.filter_eq_nil
      rw [if_pos (Nat.add_zero i).symm, hlater, List.map_nil, List.append_nil, hone.named r rfl]
      exact hone.effective r rfl hsuccess
    | succ j =>
      have heffective := hrun.effective rest hrest j s hj hsuccess
      rw [if_neg (by omega), List.nil_append, show i + (j + 1) = i + 1 + j by omega]
      exact heffective
  · have hnot : ¬ Raises rt opts incident (env i) action := fun hraises => by
      have herror : (performAction rt opts incident (env i) ocsf action).1 = .error .valueError :=
        performAction_error_iff.mpr ⟨rfl, hraises⟩
      rw [h] at herror
      cases herror
    have hmap : (∃ results, run.1.map (r :: ·) = .ok results) ↔ ∃ rest, run.1 = .ok rest := by
      cases run.1 <;> simp [Except.map]
    rw [hmap, hrun.returns, forall_not_raises_cons]
    exact (and_iff_right hnot).symm

end Step

variable (rt opts incident env ocsf) in
theorem isConfined_performFrom (i : Nat) (actions : List ContainmentAction) :
    IsConfined rt opts incident env ocsf i actions
      (performFrom rt opts incident env ocsf i actions) := by
  induction actions generalizing i with
  | nil => exact isConfined_nil i
  | cons action actions ih =>
    rw [performFrom]
    cases h : performAction rt opts incident (env i) ocsf action with
    | mk result effects =>
      cases result with
      | error e => exact isConfined_cons_error h
      | ok r => exact isConfined_cons_ok h (ih (i + 1))

end Run

/-- The report that containment writes is read as the incident, with its surrogate pairs joined. -/
theorem performContainment_report [PyFloat φ] (B : Builtins φ) (rt : Runtime) (opts : Options)
    (nowMs : Int) (incident : IncidentRecord) (env : Nat → Surroundings)
    (actions : Option (List ContainmentAction)) {k : Nat} {path text : Str}
    (h : (k, .write path text) ∈
      (performContainment (φ := φ) rt opts nowMs incident env actions).2) :
    readIncident B text = some (.ok incident.joined) := by
  have hconfined := isConfined_performFrom rt opts incident env
    (buildOcsfIncident nowMs incident : Json φ) 0 (actions.getD incident.recommendedActions)
  obtain ⟨-, -, -, -, -, -, report, rfl, rfl⟩ := hconfined.permitted k _ h
  exact readIncident_report B nowMs incident

/-! ## Block commands -/

section Commands

/-- A line that a shell runs: neither blank nor a comment. -/
def isRun (line : Str) : Bool :=
  match line.dropWhile (fun c => c = 32 || c = 9) with
  | [] => false
  | c :: _ => c ≠ 35

def runLines (s : Str) : List Str := (splitlines s).filter isRun

/-- A comment is one line of it, unless what follows has lines of its own. -/
theorem runLines_comment {p : Str} (hp : IsLine p) (hcomment : p.head? = some 35) (s : Str) :
    runLines (p ++ s) = (further s).filter isRun := by
  obtain ⟨t, rfl⟩ := List.head?_eq_some_iff.mp hcomment
  rw [runLines, splitlines_append hp (List.cons_ne_nil 35 t), List.filter_cons_of_neg]
  simp [isRun]

theorem runLines_of_isLine {s : Str} (h : IsLine s) (hrun : isRun s = true) : runLines s = [s] := by
  have hne : s ≠ [] := by
    rintro rfl
    cases hrun
  rw [runLines, splitlines_of_isLine h hne, List.filter_cons_of_pos hrun, List.filter_nil]

/-- The rules that the block commands are there for. -/
def rulesOf : Option Str → List Str
  | some ip => firewallRules ip
  | none => []

/-- What is printed of the host after a line break. -/
def hostLines (hostname : Str) : Option Str → List Str
  | some ip => further (hostname ++ (lit " → " ++ ip))
  | none => further hostname

/-- The resolver yields addresses of one line, and `repr` texts of one line. -/
structure OneLine (rt : Runtime) (w : Surroundings) : Prop where
  repr : ∀ s, IsLine (rt.repr s)
  hostByName : ∀ hostname ip, w.hostByName hostname = .ok ip → IsLine ip

variable {rt : Runtime} {w : Surroundings}

theorem runLines_firewallRules {ip : Str} (h : IsLine ip) :
    (firewallRules ip).flatMap runLines = firewallRules ip := by
  have haccept : IsLine (lit "iptables -A OUTPUT -d ") := isLine_of_all rfl
  have hdrop : IsLine (lit " -j DROP") := isLine_of_all rfl
  have htable : IsLine (lit "pfctl -t cosai_quarantine -T add ") := isLine_of_all rfl
  have hiptables : IsLine (lit "iptables -A OUTPUT -d " ++ (ip ++ lit " -j DROP")) :=
    isLine_append haccept (isLine_append h hdrop)
  have hpfctl : IsLine (lit "pfctl -t cosai_quarantine -T add " ++ ip) :=
    isLine_append htable h
  rw [firewallRules, List.flatMap_cons, List.flatMap_cons, List.flatMap_nil,
    runLines_of_isLine hiptables rfl, runLines_of_isLine hpfctl rfl]
  rfl

theorem hostByName_of_hostAddress {hostname ip : Str} (h : hostAddress w hostname = .ok (some ip)) :
    w.hostByName hostname = .ok ip := by
  unfold hostAddress resolveHostIp at h
  split at h
  · cases h
  · cases hlookup : w.hostByName hostname with
    | ok found =>
      rw [hlookup] at h
      have hfound := (Option.filter_eq_some_iff.mp (Except.ok.inj h)).1
      rw [Option.some.inj hfound]
    | error e =>
      rw [hlookup] at h
      cases e <;> cases h

/-- What a shell would run of the block commands. -/
theorem flatMap_runLines_blockLines (hrepr : ∀ s, IsLine (rt.repr s)) (targetUrl hostname : Str)
    {address : Option Str} (haddress : ∀ ip ∈ address, IsLine ip) :
    (blockLines rt targetUrl hostname address).flatMap runLines =
      (further targetUrl).filter isRun ++
        ((hostLines hostname address).filter isRun ++ rulesOf address) := by
  have hblock : IsLine (lit "# Block egress to MCP server: ") := isLine_of_all rfl
  have hresolved : IsLine (lit "# Resolved: ") := isLine_of_all rfl
  have hcould : IsLine (lit "# Could not resolve ") := isLine_of_all rfl
  have hinstead : IsLine (lit " — block by hostname instead:") := isLine_of_all rfl
  have hdoes : IsLine
      (lit "# iptables does not support hostnames; use DNS sinkhole or WAF rule.") :=
    isLine_of_all rfl
  have hadd : IsLine (lit "# Add to /etc/hosts:  0.0.0.0  ") := isLine_of_all rfl
  unfold blockLines
  rw [List.flatMap_cons, runLines_comment hblock rfl]
  congr 1
  cases address with
  | some ip =>
    dsimp only
    rw [List.flatMap_cons, runLines_comment hresolved rfl,
      runLines_firewallRules (haddress ip rfl), hostLines, rulesOf]
  | none =>
    dsimp only
    have hnone := further_of_isLine (isLine_append (hrepr hostname) hinstead)
    have hcomment := runLines_comment hdoes rfl []
    rw [List.append_nil] at hcomment
    rw [List.flatMap_cons, List.flatMap_cons, List.flatMap_cons, List.flatMap_nil,
      runLines_comment hcould rfl, hnone, hcomment, runLines_comment hadd rfl]
    simp [further, splitlines, hostLines, rulesOf]

/-- The lines that are printed for block commands and that a shell would run are the firewall rules,
after what the URL of the target and its host have behind a line break: the rules alone exactly if
that is nothing but comments. -/
theorem runLines_blockEgress [FloatText φ] (opts : Options) (incident : IncidentRecord)
    (ocsf : Json φ) (h : OneLine rt w) {scheme : Str} {hostname : Option Str}
    (hurl : rt.urlparse incident.targetUrl = some (scheme, hostname)) {address : Option Str}
    (haddress : hostAddress w (hostname.getD []) = .ok address) :
    ∃ r, performAction rt opts incident w ocsf .blockEgress = (.ok r, []) ∧
      (printedLines r.detail).filter isRun = (further incident.targetUrl).filter isRun ++
        ((hostLines (hostname.getD []) address).filter isRun ++ rulesOf address) ∧
      ((printedLines r.detail).filter isRun = rulesOf address ↔
        (∀ line ∈ further incident.targetUrl, isRun line = false) ∧
          ∀ line ∈ hostLines (hostname.getD []) address, isRun line = false) := by
  have htitle : IsLine (lit "Block commands (review and execute as root):") := isLine_of_all rfl
  have hline : ∀ ip ∈ address, IsLine ip := by
    rintro ip rfl
    exact h.hostByName _ ip (hostByName_of_hostAddress haddress)
  have hlines : (printedLines (lit "Block commands (review and execute as root):" ++
      10 :: joinLines (blockLines rt incident.targetUrl (hostname.getD []) address))).filter isRun =
        (further incident.targetUrl).filter isRun ++
          ((hostLines (hostname.getD []) address).filter isRun ++ rulesOf address) := by
    rw [printedLines, splitlines_line htitle (List.cons_ne_nil _ _), List.drop_one, List.tail_cons,
      filter_splitlines_joinLines rfl]
    exact flatMap_runLines_blockLines h.repr _ _ hline
  refine ⟨⟨.blockEgress, true, _⟩, ?_, hlines, ?_⟩
  · rw [performAction, generateBlockCommands, hurl]
    dsimp only
    rw [haddress]
    rfl
  · rw [hlines, ← List.append_assoc, List.append_left_eq_self, List.append_eq_nil_iff,
      List.filter_eq_nil_iff, List.filter_eq_nil_iff]
    simp only [Bool.not_eq_true]

end Commands

section Example

/-- URLs of one host, with a `repr` that hides the text. -/
private def oneHost : Runtime :=
  ⟨fun _ => some (lit "http", some (lit "h")), fun _ => [], fun _ => []⟩

/-- A host in a public network. -/
private def publicHost : Surroundings :=
  ⟨fun _ => .ok [⟨true, lit "8.8.8.8"⟩], fun _ => .ok (lit "8.8.8.8"), .replied 202,
    .unsent (lit "ConnectError"), .ok ()⟩

private def injected : IncidentRecord :=
  ⟨lit "i", lit "http://h/\nrm -rf /", [], 1, [], [], .high, []⟩

private theorem oneLine_publicHost : OneLine oneHost publicHost where
  repr := fun _ => isLine_of_all rfl
  hostByName := fun hostname ip hip => by
    cases hip
    exact isLine_of_all rfl

theorem runLines_blockEgress_injected : ∃ r,
    performAction oneHost ⟨none, none, none, false⟩ injected publicHost (Json.null : Json WholeFloat)
        .blockEgress = (.ok r, []) ∧
      (printedLines r.detail).filter isRun = lit "rm -rf /" :: firewallRules (lit "8.8.8.8") := by
  obtain ⟨r, hr, hlines, -⟩ := runLines_blockEgress ⟨none, none, none, false⟩ injected
    (Json.null : Json WholeFloat) oneLine_publicHost rfl rfl
  exact ⟨r, hr, hlines⟩

private theorem effects_report [PyFloat φ] (rt : Runtime) (opts : Options) (nowMs : Int)
    (incident : IncidentRecord) (env : Nat → Surroundings) (hwrite : (env 0).write = .ok ()) :
    (performContainment (φ := φ) rt opts nowMs incident env (some [.quarantineReport])).2 =
      [(0, .write (pathOfReport opts incident)
        ((reportOf nowMs incident : Json φ).indented 2 0))] := by
  rw [performContainment, Option.getD_some, performFrom, performAction, quarantineReport, hwrite]
  rfl

theorem performContainment_report_injected : ∃ text,
    (0, Effect.write (lit "cosai-incident-i.json") text) ∈ (performContainment (φ := WholeFloat)
      oneHost ⟨none, none, none, false⟩ 0 injected (fun _ => publicHost)
        (some [.quarantineReport])).2 ∧
      readIncident textBuiltins text = some (.ok injected.joined) := by
  have heffects := effects_report (φ := WholeFloat) oneHost ⟨none, none, none, false⟩ 0 injected
    (fun _ => publicHost) rfl
  have hmem : (0, Effect.write (lit "cosai-incident-i.json")
      ((reportOf 0 injected : Json WholeFloat).indented 2 0)) ∈ (performContainment (φ := WholeFloat)
        oneHost ⟨none, none, none, false⟩ 0 injected (fun _ => publicHost)
          (some [.quarantineReport])).2 := by
    rw [heffects]
    exact List.mem_singleton_self _
  exact ⟨_, hmem, performContainment_report textBuiltins oneHost ⟨none, none, none, false⟩ 0 injected
    (fun _ => publicHost) (some [.quarantineReport]) hmem⟩

end Example

end CosaiMcp.Ir
