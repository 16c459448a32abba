import CosaiMcp.Catalog.HashSpec
import CosaiMcp.Catalog.TemplateSpec
import CosaiMcp.Harness.Context
import CosaiMcp.Harness.ProbeIsolation

/-!
# Verdicts and the catalog hash

Two catalogs of one hash have the same probes up to what the canonical view leaves out. A probe of
one is compared with its copy in the other by the calls that `executeProbe` makes (`BehaveAlike`).
What is left out of the view can be observed: the era that a probe requires, and the order of the
keys of a mapping that stands for the name of a tool, as that is printed.
-/

namespace CosaiMcp.Harness

open Py Catalog Protocol

variable {φ ρ : Type}

/-! ## Calls that are the same -/

/-- The calls of `send_raw` have equal arguments: mappings are equal whatever the order of keys. -/
structure SameRequest (r r' : Request φ) : Prop where
  method : r.method = r'.method
  payload : r.payload.sorted = r'.payload.sorted
  overrideHeaders : r.overrideHeaders.map sortMembers = r'.overrideHeaders.map sortMembers

def SameOutcome : Except Raised (ProbeResult φ) → Except Raised (ProbeResult φ) → Prop
  | .ok r, .ok r' =>
    r.passed = r'.passed ∧ r.inconclusiveReason.isSome = r'.inconclusiveReason.isSome
  | .error e, .error e' => e = e'
  | _, _ => False

theorem SameOutcome.refl (x : Except Raised (ProbeResult φ)) : SameOutcome x x := by
  cases x with
  | error e => exact rfl
  | ok r => exact ⟨rfl, rfl⟩

def Identical : Execution φ → Execution φ → Prop
  | .done r, .done r' => SameOutcome (.ok r) (.ok r')
  | .sends q judge, .sends q' judge' =>
    SameRequest q q' ∧ ∀ reply, SameOutcome (judge reply) (judge' reply)
  | _, _ => False

variable [PyFloat φ] (rt : Runtime φ ρ)

/-- In every session, the probes make the same calls and have the same outcomes. -/
def BehaveAlike (t u : ThreatDefinition φ ρ) (p q : Probe φ ρ) : Prop :=
  ∀ (era : ProtocolEra) (targetUrl : Str) (vars : Dict Str Str),
    Identical (executeProbe rt era targetUrl vars p t.id) (executeProbe rt era targetUrl vars q u.id)

/-- What a tool call is given as the name. -/
def toolName (payload : Json φ) : Str := rt.str ((payload.get? (lit "name")).getD (.str []))

/-- The names of two tool calls print alike, however they are filled in. -/
def SameToolName (p q : Probe φ ρ) : Prop :=
  p.method = lit "tools/call" → ∀ (targetUrl : Str) (vars : Dict Str Str) (a b : Json φ),
    substituteProbePayload (probeVariables targetUrl vars) (toJsonSafe (.proxy p.payload)) = .ok a →
    substituteProbePayload (probeVariables targetUrl vars) (toJsonSafe (.proxy q.payload)) = .ok b →
    a.get? (lit "_meta") = none → toolName rt a = toolName rt b

/-! ## Requests -/

section Request

omit [PyFloat φ]

variable {rt} {a b : Json φ} (ha : a.KeysStable) (hb : b.KeysStable) (h : a.sorted = b.sorted)

include ha hb h

theorem get?_eq_none_iff_of_sorted_eq (key : Str) : a.get? key = none ↔ b.get? key = none := by
  rw [← Option.map_eq_none_iff, get?_of_sorted_eq ha hb h key, Option.map_eq_none_iff]

/-- Sorting the members of a mapping, and replacing what is none, can be exchanged. -/
theorem arguments_sorted :
    (match a.get? (lit "arguments") with
      | some (.obj ms) => Json.obj ms
      | _ => .obj []).sorted =
    (match b.get? (lit "arguments") with
      | some (.obj ms) => Json.obj ms
      | _ => .obj []).sorted := by
  have hget := get?_of_sorted_eq ha hb h (lit "arguments")
  generalize a.get? (lit "arguments") = x at hget
  generalize b.get? (lit "arguments") = y at hget
  cases x with
  | none =>
    cases y with
    | none => rfl
    | some j => cases hget
  | some i =>
    cases y with
    | none => cases hget
    | some j =>
      have hij : i.sorted = j.sorted := Option.some.inj hget
      cases i with
      | obj ms =>
        cases j with
        | obj ns => exact hij
        | _ => cases hij
      | _ => cases j <;> first | rfl | cases hij

/-- Equal payloads make the same call, if the tool is named alike. -/
theorem sameRequest_dispatch_iff {method : Str} {headers headers' : Option (List (Str × Str))}
    (hheaders : headers.map sortMembers = headers'.map sortMembers) :
    SameRequest (dispatch rt method a headers) (dispatch rt method b headers') ↔
      (method = lit "tools/call" → a.get? (lit "_meta") = none → toolName rt a = toolName rt b) := by
  have hmeta := get?_eq_none_iff_of_sorted_eq ha hb h (lit "_meta")
  have harguments := arguments_sorted ha hb h
  by_cases hcall : method = lit "tools/call" ∧ a.get? (lit "_meta") = none
  · have hcall' : method = lit "tools/call" ∧ b.get? (lit "_meta") = none :=
      ⟨hcall.1, hmeta.mp hcall.2⟩
    unfold dispatch
    rw [if_pos hcall, if_pos hcall']
    constructor
    · intro hsame _ _
      have hpayload := hsame.payload
      have hget := congrArg (·.get? (lit "name")) hpayload
      have hnodup : [lit "name", lit "arguments"].Nodup := by decide
      simp only [Json.get?_sorted (show ([(lit "name", _), (lit "arguments", _)].map _).Nodup from
        hnodup)] at hget
      have hget : some (Json.str (φ := φ) (toolName rt a)) = some (.str (toolName rt b)) := hget
      exact Json.str.inj (Option.some.inj hget)
    · intro hname
      have hname : toolName rt a = toolName rt b := hname hcall.1 hcall.2
      unfold toolName at hname
      refine ⟨rfl, ?_, hheaders⟩
      simp only [Json.sorted, Json.sortedMembers, hname]
      exact congrArg (fun j => Json.obj (sortMembers [(lit "name", _), (lit "arguments", j)]))
        harguments
  · have hcall' : ¬ (method = lit "tools/call" ∧ b.get? (lit "_meta") = none) := fun hb =>
      hcall ⟨hb.1, hmeta.mpr hb.2⟩
    unfold dispatch
    rw [if_neg hcall, if_neg hcall']
    exact ⟨fun _ hmethod hnone => absurd ⟨hmethod, hnone⟩ hcall, fun _ => ⟨rfl, h, hheaders⟩⟩

end Request

/-! ## Probes of one view -/

section View

variable {rt} {t u : ThreatDefinition φ ρ} {p q : Probe φ ρ} (h : SameView p q)

include h

/-- The replies to a probe are judged by what the view holds. -/
theorem judge_eq (threatId : Str) : judge rt p threatId = judge rt q threatId := by
  funext reply
  unfold judge makeProbeResult detectProtocolError probeInspectsErrorCode corroborate
  rw [h.id, h.assertions, h.corroboration, h.protocolErrorIsExpected]

omit [PyFloat φ] in
/-- The payloads are filled in alike. -/
theorem substituteProbePayload_sorted (vars : Dict Str Str) :
    (∃ e e', substituteProbePayload vars (toJsonSafe (.proxy p.payload)) = .error e ∧
      substituteProbePayload vars (toJsonSafe (.proxy q.payload)) = .error e') ∨
    ∃ a b, substituteProbePayload vars (toJsonSafe (.proxy p.payload)) = .ok a ∧
      substituteProbePayload vars (toJsonSafe (.proxy q.payload)) = .ok b ∧
      a.KeysStable ∧ b.KeysStable ∧ a.sorted = b.sorted := by
  have hsorted {r : Json φ} := @substituteValue_sorted _ (Dict.ofList (vars.items.map fun m =>
    (stripBraces m.1, m.2))) (toJsonSafe (.proxy p.payload)) r
  have hsorted' {r : Json φ} := @substituteValue_sorted _ (Dict.ofList (vars.items.map fun m =>
    (stripBraces m.1, m.2))) (toJsonSafe (.proxy q.payload)) r
  rw [h.payload] at hsorted
  unfold substituteProbePayload
  cases ha : substituteValue (Dict.ofList (vars.items.map fun m => (stripBraces m.1, m.2)))
      (toJsonSafe (.proxy p.payload)) with
  | error e =>
    cases hb : substituteValue (Dict.ofList (vars.items.map fun m => (stripBraces m.1, m.2)))
        (toJsonSafe (.proxy q.payload)) with
    | error e' => exact .inl ⟨e, e', rfl, rfl⟩
    | ok b =>
      obtain ⟨a, ha', -⟩ := hsorted.mp (hsorted'.mpr ⟨b, hb, rfl⟩)
      rw [ha] at ha'
      cases ha'
  | ok a =>
    obtain ⟨b, hb, hab⟩ := hsorted'.mp (hsorted.mpr ⟨a, ha, rfl⟩)
    exact .inr ⟨a, b, rfl, hb, keysStable_substitute h.left.keys ha,
      keysStable_substitute h.right.keys hb, hab⟩

omit [PyFloat φ] in
/-- Names that are no containers print alike. -/
theorem sameToolName_of_hashable
    (hname : ∀ v, (toJsonSafe (.proxy p.payload)).get? (lit "name") = some v → v.hashable = true) :
    SameToolName rt p q := by
  intro _ targetUrl vars a b ha hb _
  have hget := get?_of_sorted_eq h.left.keys h.right.keys h.payload (lit "name")
  have hnames : (toJsonSafe (.proxy p.payload)).get? (lit "name") =
      (toJsonSafe (.proxy q.payload)).get? (lit "name") := by
    cases hp : (toJsonSafe (.proxy p.payload)).get? (lit "name") with
    | none =>
      rw [hp] at hget
      exact (Option.map_eq_none_iff.mp hget.symm).symm
    | some v =>
      rw [hp] at hget
      obtain ⟨w, hw, hvw⟩ := Option.map_eq_some_iff.mp hget.symm
      rw [sorted_of_hashable (hname v hp)] at hvw
      rw [hw, ← eq_of_sorted_eq_hashable (hname v hp) hvw]
  unfold toolName
  rw [get?_of_substituteValue ha, get?_of_substituteValue hb, hnames]

/-- What `executeProbe` does after the check of the era. -/
theorem identical_execute_iff (hid : t.id = u.id) (targetUrl : Str) (vars : Dict Str Str) :
    Identical (executeProbe.execute rt targetUrl vars p t.id)
        (executeProbe.execute rt targetUrl vars q u.id) ↔
      (p.method = lit "tools/call" → ∀ a b : Json φ,
        substituteProbePayload (probeVariables targetUrl vars) (toJsonSafe (.proxy p.payload)) =
          .ok a →
        substituteProbePayload (probeVariables targetUrl vars) (toJsonSafe (.proxy q.payload)) =
          .ok b →
        a.get? (lit "_meta") = none → toolName rt a = toolName rt b) := by
  unfold executeProbe.execute
  rcases substituteProbePayload_sorted h (probeVariables targetUrl vars) with
    ⟨e, e', ha, hb⟩ | ⟨a, b, ha, hb, has, hbs, hab⟩
  · rw [ha, hb]
    constructor
    · intro _ _ a b ha'
      cases ha'
    · intro _
      exact ⟨rfl, rfl⟩
  · rw [ha, hb, ← hid, ← judge_eq h t.id, ← h.method]
    have hrequest := @sameRequest_dispatch_iff _ _ rt _ _ has hbs hab p.method _ _
      h.probeHeaders
    constructor
    · intro hsame hmethod a' b' ha' hb' hnone
      cases ha'
      cases hb'
      exact hrequest.mp hsame.1 hmethod hnone
    · intro hname
      exact ⟨hrequest.mpr fun hmethod hnone => hname hmethod a b rfl rfl hnone,
        fun reply => .refl _⟩

end View

/-! ## Eras -/

section Eras

variable {rt} {era : ProtocolEra} {targetUrl : Str} {vars : Dict Str Str} {threatId : Str}

/-- The probe is executed in sessions of the era. -/
def RunsIn (p : Probe φ ρ) (era : ProtocolEra) : Prop :=
  p.requiresProtocolEra = none ∨ p.requiresProtocolEra = some era.value

theorem executeProbe_of_runsIn {p : Probe φ ρ} (h : RunsIn p era) :
    executeProbe rt era targetUrl vars p threatId =
      executeProbe.execute rt targetUrl vars p threatId := by
  unfold executeProbe
  rcases h with h | h
  · rw [h]
  · rw [h]
    exact if_neg (not_not.mpr rfl)

theorem executeProbe_of_not_runsIn {p : Probe φ ρ} (h : ¬ RunsIn p era) :
    ∃ reason, executeProbe rt era targetUrl vars p threatId =
      .done (makeProbeResult p threatId none (some reason)) := by
  unfold executeProbe
  cases hp : p.requiresProtocolEra with
  | none => exact absurd (.inl hp) h
  | some required =>
    refine ⟨_, if_pos ?_⟩
    rintro rfl
    exact h (.inr hp)

/-- A probe that is executed can be told from one that is not. -/
theorem runsIn_iff_of_identical {p q : Probe φ ρ} {threatId' : Str}
    (h : Identical (executeProbe rt era targetUrl vars p threatId)
      (executeProbe rt era targetUrl vars q threatId')) : RunsIn p era ↔ RunsIn q era := by
  have hexecute (p : Probe φ ρ) (threatId : Str) :
      (∃ e, executeProbe.execute rt targetUrl vars p threatId =
        .done (makeProbeResult p threatId (some (.template e)) none)) ∨
      ∃ request judge, executeProbe.execute rt targetUrl vars p threatId =
        .sends request judge := by
    unfold executeProbe.execute
    split
    · exact .inl ⟨_, rfl⟩
    · exact .inr ⟨_, _, rfl⟩
  by_cases hp : RunsIn p era
  · by_cases hq : RunsIn q era
    · exact ⟨fun _ => hq, fun _ => hp⟩
    · obtain ⟨reason, hreason⟩ := @executeProbe_of_not_runsIn _ _ _ rt _ targetUrl vars threatId' _ hq
      rw [executeProbe_of_runsIn hp, hreason] at h
      rcases hexecute p threatId with ⟨e, he⟩ | ⟨request, judge, he⟩
      · rw [he] at h
        cases h.2
      · rw [he] at h
        cases h
  · by_cases hq : RunsIn q era
    · obtain ⟨reason, hreason⟩ := @executeProbe_of_not_runsIn _ _ _ rt _ targetUrl vars threatId _ hp
      rw [hreason, executeProbe_of_runsIn hq] at h
      rcases hexecute q threatId' with ⟨e, he⟩ | ⟨request, judge, he⟩
      · rw [he] at h
        cases h.2
      · rw [he] at h
        cases h
    · exact ⟨fun h => absurd h hp, fun h => absurd h hq⟩

omit [PyFloat φ] in
/-- The sessions that it is executed in determine the era that a probe requires. -/
theorem era_eq_of_runsIn {p q : Probe φ ρ} (hp : ReadProbe p) (hq : ReadProbe q)
    (h : ∀ era, RunsIn p era ↔ RunsIn q era) :
    p.requiresProtocolEra = q.requiresProtocolEra := by
  have hmodern := h .modern
  have hlegacy := h .legacy
  unfold RunsIn at hmodern hlegacy
  have hne : lit "modern" ≠ lit "legacy" := by decide
  rcases hp.era with hp | hp | hp <;> rcases hq.era with hq | hq | hq <;>
    simp_all [ProtocolEra.value]

theorem behaveAlike_iff {t u : ThreatDefinition φ ρ} {p q : Probe φ ρ} (hid : t.id = u.id)
    (h : SameView p q) :
    BehaveAlike rt t u p q ↔
      p.requiresProtocolEra = q.requiresProtocolEra ∧ SameToolName rt p q := by
  constructor
  · intro halike
    have hera : p.requiresProtocolEra = q.requiresProtocolEra :=
      era_eq_of_runsIn h.left h.right fun era => runsIn_iff_of_identical (halike era [] .empty)
    refine ⟨hera, fun hmethod targetUrl vars => ?_⟩
    obtain ⟨era, hp⟩ : ∃ era, RunsIn p era := by
      rcases h.left.era with hp | hp | hp
      · exact ⟨.modern, .inl hp⟩
      · exact ⟨.modern, .inr hp⟩
      · exact ⟨.legacy, .inr hp⟩
    have hq : RunsIn q era := by
      unfold RunsIn at hp ⊢
      rwa [← hera]
    have hidentical := halike era targetUrl vars
    rw [executeProbe_of_runsIn hp, executeProbe_of_runsIn hq] at hidentical
    exact (identical_execute_iff h hid targetUrl vars).mp hidentical hmethod
  · rintro ⟨hera, hname⟩ era targetUrl vars
    by_cases hp : RunsIn p era
    · have hq : RunsIn q era := by
        unfold RunsIn at hp ⊢
        rwa [← hera]
      rw [executeProbe_of_runsIn hp, executeProbe_of_runsIn hq]
      exact (identical_execute_iff h hid targetUrl vars).mpr fun hmethod => hname hmethod _ _
    · have hq : ¬ RunsIn q era := by
        unfold RunsIn at hp ⊢
        rwa [← hera]
      obtain ⟨reason, hreason⟩ := @executeProbe_of_not_runsIn _ _ _ rt _ targetUrl vars t.id _ hp
      obtain ⟨reason', hreason'⟩ := @executeProbe_of_not_runsIn _ _ _ rt _ targetUrl vars u.id _ hq
      rw [hreason, hreason']
      exact ⟨rfl, rfl⟩

end Eras

/-! ## Catalogs of one hash -/

section Catalog

/-- `R` holds of the probes in pairs, by the order of the canonical view. -/
def EveryPair (R : ThreatDefinition φ ρ → ThreatDefinition φ ρ → Probe φ ρ → Probe φ ρ → Prop)
    (A B : List (ThreatDefinition φ ρ)) : Prop :=
  List.Forall₂ (fun t u => List.Forall₂ (R t u) t.probes u.probes) (sortThreats A) (sortThreats B)

theorem pairs_congr {α β : Type} {R P Q : α → β → Prop} {l : List α} {l' : List β}
    (h : List.Forall₂ R l l') (hR : ∀ a b, R a b → (P a b ↔ Q a b)) :
    List.Forall₂ P l l' ↔ List.Forall₂ Q l l' := by
  induction h with
  | nil => exact ⟨fun _ => .nil, fun _ => .nil⟩
  | cons hab _ ih => rw [List.forall₂_cons, List.forall₂_cons, hR _ _ hab, ih]

/-- **The catalog hash binds verdicts**, but for the eras that probes require and the order of the
keys in the name of a tool. -/
theorem hash_binds_verdicts_iff {κ : Type} {sha256Hex : Str → κ}
    (hsha : ∀ C D : List (ThreatDefinition φ ρ),
      sha256Hex (canonicalCatalog C) = sha256Hex (canonicalCatalog D) →
        canonicalCatalog C = canonicalCatalog D)
    {A B : List (ThreatDefinition φ ρ)} (hA : ∀ t ∈ A, Loaded rt t) (hB : ∀ t ∈ B, Loaded rt t)
    (h : catalogHash sha256Hex A = catalogHash sha256Hex B) :
    EveryPair (BehaveAlike rt) A B ↔
      EveryPair (fun _ _ p q =>
        p.requiresProtocolEra = q.requiresProtocolEra ∧ SameToolName rt p q) A B := by
  apply pairs_congr (sameThreats_of_canonical hA hB (hsha A B h))
  intro t u hthreat
  apply pairs_congr hthreat.probes
  intro p q hview
  exact behaveAlike_iff hthreat.id hview

end Catalog

/-! ## A catalog with one probe -/

/-- A document that is stable can be read from a file. -/
theorem loaded_of_stable {isCustom allowRegexInCustom : Bool} {provenance : Provenance}
    {data : Json φ} {t : ThreatDefinition φ ρ} (h : data.Stable)
    (ht : parseThreat rt isCustom allowRegexInCustom provenance data = .ok t) : Loaded rt t := by
  refine ⟨data.text, data, isCustom, allowRegexInCustom, provenance, ?_, ?_, ht⟩
  · refine isScalar_of_isAscii (List.all_eq_true.mpr fun c hc => ?_)
    have hgraphic := isGraphic_of_mem_text hc
    simp only [isGraphic, Bool.and_eq_true, decide_eq_true_eq] at hgraphic
    exact decide_eq_true (by omega)
  · rw [loads_text, data.reload_eq_self h]

/-- A file with one probe, that asks for the tools. -/
def listThreat (payload optional : List (Str × Json WholeFloat)) : Json WholeFloat :=
  .obj [(lit "schema_version", .str (lit "1.2")), (lit "id", .str (lit "T07-001")),
    (lit "category", .str (lit "T7")), (lit "severity", .str (lit "high")),
    (lit "cosai_ref", .str (lit "T7")), (lit "owasp_ref", .str (lit "MCP05:2025")),
    (lit "cwe", .arr [.str (lit "CWE-200")]),
    (lit "probes", .arr [.obj ([(lit "id", .str (lit "T07-001-p1")),
      (lit "transport", .str (lit "http")), (lit "method", .str (lit "tools/list")),
      (lit "payload", .obj payload), (lit "assertions", .arr [])] ++ optional)]),
    (lit "remediation", .str []), (lit "references", .arr [])]

/-- What is read from it. -/
def listDefinition (payload : List (Str × Value WholeFloat)) (era : Option Str) :
    ThreatDefinition WholeFloat Str where
  schemaVersion := lit "1.2"
  id := lit "T07-001"
  category := lit "T7"
  severity := .high
  cosaiRef := lit "T7"
  owaspRef := lit "MCP05:2025"
  cwe := [lit "CWE-200"]
  probes := [⟨lit "T07-001-p1", lit "http", lit "tools/list", payload, [], none, .int 1, none, [],
    false, era⟩]
  remediation := []
  references := []
  provenance := .official
  mode := lit "read-only"
  confidence := .medium

theorem loaded_listDefinition {payload optional : List (Str × Json WholeFloat)}
    {members : List (Str × Value WholeFloat)} {era : Option Str}
    (hkeys : (([lit "id", lit "transport", lit "method", lit "payload", lit "assertions"] ++
      optional.map Prod.fst).Nodup))
    (hpayload : (Json.obj payload).Stable) (hoptional : Json.StableMembers optional)
    (h : parseThreat literalRuntime false false .official (listThreat payload optional) =
      .ok (listDefinition members era)) : Loaded literalRuntime (listDefinition members era) := by
  refine @loaded_of_stable _ _ _ literalRuntime _ _ _ _ _ ?_ h
  have hstr (s : Str) (hs : isScalar s = true) : (Json.str (φ := WholeFloat) s).Stable :=
    noPair_of_isScalar hs
  have hkey (s : Str) (hs : isScalar s = true) : NoPair s := noPair_of_isScalar hs
  apply stable_obj
  · simp only [List.map_cons, List.map_nil]
    decide +kernel
  · simp only [List.map_cons, List.map_nil]
    decide +kernel
  simp only [List.forall_mem_cons, List.not_mem_nil, false_imp_iff, implies_true, and_true]
  exact ⟨hstr _ rfl, hstr _ rfl, hstr _ rfl, hstr _ rfl, hstr _ rfl, hstr _ rfl,
    ⟨hstr _ rfl, trivial⟩, ⟨⟨hkeys, hkey _ rfl, hstr _ rfl, hkey _ rfl, hstr _ rfl, hkey _ rfl,
      hstr _ rfl, hkey _ rfl, hpayload, hkey _ rfl, trivial, hoptional⟩, trivial⟩,
    hstr _ rfl, trivial⟩

/-- Two files that list the members of the payload in another order. -/
theorem hash_binds_verdicts_iff_reordered :
    EveryPair (BehaveAlike literalRuntime)
      [listDefinition [(lit "a", .json (.int 1)), (lit "b", .json (.int 2))] none]
      [listDefinition [(lit "b", .json (.int 2)), (lit "a", .json (.int 1))] none] := by
  refine (@hash_binds_verdicts_iff _ _ _ literalRuntime Str id (fun _ _ h => h) [_] [_]
    (List.forall_mem_singleton.mpr ?_) (List.forall_mem_singleton.mpr ?_) ?_).mpr ?_
  · refine @loaded_listDefinition [(lit "a", .int 1), (lit "b", .int 2)] [] _ _ ?_ ?_ ?_ rfl
    · decide +kernel
    · exact ⟨by decide, noPair_of_isScalar rfl, trivial, noPair_of_isScalar rfl, trivial, trivial⟩
    · trivial
  · refine @loaded_listDefinition [(lit "b", .int 2), (lit "a", .int 1)] [] _ _ ?_ ?_ ?_ rfl
    · decide +kernel
    · exact ⟨by decide, noPair_of_isScalar rfl, trivial, noPair_of_isScalar rfl, trivial, trivial⟩
    · trivial
  · have hplain : plain (.proxy [(lit "a", .json (.int 1)), (lit "b", .json (.int 2))]) =
        plain (φ := WholeFloat) (.proxy [(lit "b", .json (.int 2)), (lit "a", .json (.int 1))]) :=
      congrArg Json.obj (sortMembers_eq_of_perm (by decide) (.swap ..))
    unfold catalogHash canonicalCatalog
    rw [sortThreats_singleton, sortThreats_singleton]
    unfold listDefinition
    simp only [List.map_cons, List.map_nil, canonicalThreat, canonicalProbe, hplain]
  · unfold EveryPair
    rw [sortThreats_singleton, sortThreats_singleton]
    refine .cons (.cons ⟨rfl, fun hmethod => ?_⟩ .nil) .nil
    exact absurd hmethod (by decide)

/-- The same file, with the era that the probe requires changed, has the same hash. In a legacy
session one probe is inconclusive, the other sends its request. -/
theorem era_not_hashed : ∃ t u, Loaded literalRuntime t ∧ Loaded literalRuntime u ∧
    canonicalCatalog [t] = canonicalCatalog [u] ∧
      ¬ EveryPair (BehaveAlike literalRuntime) [t] [u] := by
  refine ⟨listDefinition [] none, listDefinition [] (some (lit "modern")),
    @loaded_listDefinition [] [] [] none ?_ ?_ ?_ rfl,
    @loaded_listDefinition [] [(lit "requires_protocol_era", .str (lit "modern"))] []
      (some (lit "modern")) ?_ ?_ ?_ rfl, ?_, ?_⟩
  · decide +kernel
  · exact ⟨List.nodup_nil, trivial⟩
  · trivial
  · decide +kernel
  · exact ⟨List.nodup_nil, trivial⟩
  · exact ⟨noPair_of_isScalar rfl, noPair_of_isScalar rfl, trivial⟩
  · unfold canonicalCatalog
    rw [sortThreats_singleton, sortThreats_singleton]
    rfl
  · intro h
    unfold EveryPair at h
    rw [sortThreats_singleton, sortThreats_singleton] at h
    obtain ⟨hprobes, -⟩ := List.forall₂_cons.mp h
    obtain ⟨hprobe, -⟩ := List.forall₂_cons.mp hprobes
    cases hprobe .legacy [] .empty

end CosaiMcp.Harness
