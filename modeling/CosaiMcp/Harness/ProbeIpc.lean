import CosaiMcp.Catalog.Model

/-!
# A probe on its way to the subprocess

A probe is passed to the subprocess that runs it as a plain dictionary: `probeToDict` writes it and
`probeFromDict` reads it. The reader gives `rebuilt p` for what the writer makes of `p`
(`probeFromDict_probeToDict`): all of `p`, but for the compiled patterns.
-/

namespace CosaiMcp.Harness

open Py Catalog

variable {φ ρ : Type}

/-! ## Writing -/

def assertionToDict (a : Assertion φ ρ) : Json φ :=
  .obj [(lit "target", .str a.target), (lit "operator", .str a.operator.value),
    (lit "value", a.value.toJson)]

/-- The member `key`, where there is a value for it. -/
def optional (key : Str) : Option (Json φ) → List (Str × Json φ)
  | some v => [(key, v)]
  | none => []

def headersToDict (headers : List (Str × Str)) : Json φ := .obj (headers.map fun m => (m.1, .str m.2))

def probeToDict [PyFloat φ] (p : Probe φ ρ) : Json φ :=
  .obj ([(lit "id", .str p.id), (lit "transport", .str p.transport), (lit "method", .str p.method),
      (lit "payload", toJsonSafe (.proxy p.payload)),
      (lit "assertions", .arr (p.assertions.map assertionToDict))] ++
    optional (lit "probe_token") (p.probeToken.map .str) ++
    optional (lit "probe_count") (if p.probeCount.pyEq (.int 1) then none else some p.probeCount) ++
    optional (lit "probe_headers") (p.probeHeaders.map headersToDict) ++
    optional (lit "corroboration")
      (if p.corroboration = [] then none else some (.arr (p.corroboration.map assertionToDict))) ++
    optional (lit "protocol_error_is_expected")
      (if p.protocolErrorIsExpected then some (.bool true) else none) ++
    optional (lit "requires_protocol_era") (p.requiresProtocolEra.map .str))

/-! ## Reading -/

def assertionFromDict (a : Json φ) : Option (Assertion φ ρ) := do
  let target ← (← a.get? (lit "target")).asStr?
  let operator ← Operator.ofValue? (← (← a.get? (lit "operator")).asStr?)
  let value ← AssertionValue.ofJson? (← a.get? (lit "value"))
  return ⟨target, operator, value, none⟩

/-- The members of `types.MappingProxyType(d)`. -/
def proxyOf (d : Json φ) : Option (List (Str × Value φ)) := do
  return (← d.asDict?).map fun m => (m.1, .json m.2)

def asItems? (j : Json φ) : Option (List (Json φ)) :=
  match j with
  | .arr js => some js
  | _ => none

/-- A value that may be absent. -/
def optStr? (d : Json φ) (key : Str) : Option (Option Str) :=
  match d.get? key with
  | none => some none
  | some v => some <$> v.asStr?

def headersFromDict (d : Json φ) : Option (Option (List (Str × Str))) :=
  match d.get? (lit "probe_headers") with
  | none | some (.obj []) => some none
  | some v => do return some (← (← v.asDict?).mapM fun m => do return (m.1, ← m.2.asStr?))

def corroborationFromDict (d : Json φ) : Option (List (Assertion φ ρ)) :=
  match d.get? (lit "corroboration") with
  | none => some []
  | some v => do (← asItems? v).mapM assertionFromDict

def probeFromDict [PyFloat φ] (d : Json φ) : Option (Probe φ ρ) := do
  let assertions ← (← asItems? (← d.get? (lit "assertions"))).mapM assertionFromDict
  let probeHeaders ← headersFromDict d
  let corroboration ← corroborationFromDict d
  let id ← (← d.get? (lit "id")).asStr?
  let transport ← (← d.get? (lit "transport")).asStr?
  let method ← (← d.get? (lit "method")).asStr?
  let payload ← proxyOf (← d.get? (lit "payload"))
  let probeToken ← optStr? d (lit "probe_token")
  let requiresProtocolEra ← optStr? d (lit "requires_protocol_era")
  return ⟨id, transport, method, payload, assertions, probeToken,
    (d.get? (lit "probe_count")).getD (.int 1), probeHeaders, corroboration,
    ((d.get? (lit "protocol_error_is_expected")).getD (.bool false)).truthy, requiresProtocolEra⟩

/-! ## There and back -/

/-- An assertion without its compiled pattern. -/
def withoutPattern (a : Assertion φ ρ) : Assertion φ ρ := ⟨a.target, a.operator, a.value, none⟩

/-- The probe that the subprocess sees. -/
def rebuilt [PyFloat φ] (p : Probe φ ρ) : Probe φ ρ :=
  ⟨p.id, p.transport, p.method, (toJsonSafeMembers p.payload).map fun m => (m.1, .json m.2),
    p.assertions.map withoutPattern, p.probeToken,
    if p.probeCount.pyEq (.int 1) then .int 1 else p.probeCount, p.probeHeaders,
    p.corroboration.map withoutPattern, p.protocolErrorIsExpected, p.requiresProtocolEra⟩

theorem get?_optional_append {key k : Str} {v : Option (Json φ)} {ms : List (Str × Json φ)} :
    (Json.obj (optional key v ++ ms)).get? k =
      if key = k then v <|> (Json.obj ms).get? k else (Json.obj ms).get? k := by
  cases v with
  | none => split <;> rfl
  | some v => exact Json.get?_cons

theorem get?_optional {key k : Str} {v : Option (Json φ)} :
    (Json.obj (optional key v)).get? k = if key = k then v else none := by
  rw [← List.append_nil (optional key v), get?_optional_append]
  cases v <;> rfl

theorem mapM_map_eq_some {α β γ : Type} {f : α → β} {g : β → Option γ} {h : α → γ} (l : List α)
    (hg : ∀ a, g (f a) = some (h a)) : (l.map f).mapM g = some (l.map h) := by
  induction l with
  | nil => rfl
  | cons a l ih => rw [List.map_cons, List.mapM_cons, hg, ih, List.map_cons]; rfl

theorem assertionFromDict_assertionToDict (a : Assertion φ ρ) :
    assertionFromDict (assertionToDict a) = some (withoutPattern a) := by
  have htarget : (assertionToDict a).get? (lit "target") = some (.str a.target) := rfl
  have hoperator : (assertionToDict a).get? (lit "operator") = some (.str a.operator.value) := rfl
  have hvalue : (assertionToDict a).get? (lit "value") = some a.value.toJson := rfl
  simp only [assertionFromDict, htarget, hoperator, hvalue, Json.asStr?, Option.bind_eq_bind,
    Option.bind_some, Operator.ofValue?_value, AssertionValue.ofJson?_toJson]
  rfl

section Probe

variable [PyFloat φ] (p : Probe φ ρ)

theorem probeToDict_eq : probeToDict p =
    .obj ((lit "id", .str p.id) :: (lit "transport", .str p.transport) ::
      (lit "method", .str p.method) :: (lit "payload", toJsonSafe (.proxy p.payload)) ::
      (lit "assertions", .arr (p.assertions.map assertionToDict)) ::
      (optional (lit "probe_token") (p.probeToken.map .str) ++
      (optional (lit "probe_count")
        (if p.probeCount.pyEq (.int 1) then none else some p.probeCount) ++
      (optional (lit "probe_headers") (p.probeHeaders.map headersToDict) ++
      (optional (lit "corroboration")
        (if p.corroboration = [] then none else some (.arr (p.corroboration.map assertionToDict))) ++
      (optional (lit "protocol_error_is_expected")
        (if p.protocolErrorIsExpected then some (.bool true) else none) ++
      optional (lit "requires_protocol_era") (p.requiresProtocolEra.map .str))))))) := by
  simp only [probeToDict, List.append_assoc, List.cons_append, List.nil_append]

omit [PyFloat φ] in
theorem optStr?_of_get? {d : Json φ} {key : Str} {v : Option Str} (h : d.get? key = v.map .str) :
    optStr? d key = some v := by
  unfold optStr?
  rw [h]
  cases v <;> rfl

theorem headersFromDict_probeToDict (h : p.probeHeaders ≠ some []) :
    headersFromDict (probeToDict p) = some p.probeHeaders := by
  have hget : (probeToDict p).get? (lit "probe_headers") = p.probeHeaders.map headersToDict := by
    simp [probeToDict_eq, Json.get?_cons, get?_optional_append, get?_optional, lit_inj]
  unfold headersFromDict
  rw [hget]
  cases hp : p.probeHeaders with
  | none => rfl
  | some headers =>
    cases headers with
    | nil => exact absurd hp h
    | cons m ms =>
      have hread := mapM_map_eq_some (f := fun m : Str × Str => (m.1, Json.str (φ := φ) m.2))
        (g := fun m => do return (m.1, ← m.2.asStr?)) (h := id) (m :: ms) fun _ => rfl
      rw [List.map_id] at hread
      show Option.bind (List.mapM _ _) (fun headers => some (some headers)) = _
      rw [hread]
      rfl

theorem corroborationFromDict_probeToDict :
    corroborationFromDict (probeToDict p) = some (p.corroboration.map (withoutPattern (φ := φ))) := by
  have hget : (probeToDict p).get? (lit "corroboration") = if p.corroboration = [] then none
      else some (.arr (p.corroboration.map assertionToDict)) := by
    simp [probeToDict_eq, Json.get?_cons, get?_optional_append, get?_optional, lit_inj]
  unfold corroborationFromDict
  rw [hget]
  split
  · rename_i heq
    split at heq
    · rename_i hnil
      rw [hnil]
      rfl
    · cases heq
  · rename_i v heq
    split at heq
    · cases heq
    · cases heq
      exact mapM_map_eq_some _ assertionFromDict_assertionToDict

/-- **What the subprocess reads is the probe**, without its compiled patterns. -/
theorem probeFromDict_probeToDict (h : p.probeHeaders ≠ some []) :
    probeFromDict (probeToDict p) = some (rebuilt p) := by
  have hid : (probeToDict p).get? (lit "id") = some (.str p.id) := by
    simp [probeToDict_eq, Json.get?_cons]
  have htransport : (probeToDict p).get? (lit "transport") = some (.str p.transport) := by
    simp [probeToDict_eq, Json.get?_cons, lit_inj]
  have hmethod : (probeToDict p).get? (lit "method") = some (.str p.method) := by
    simp [probeToDict_eq, Json.get?_cons, lit_inj]
  have hpayload : (probeToDict p).get? (lit "payload") =
      some (.obj (toJsonSafeMembers p.payload)) := by
    simp [probeToDict_eq, Json.get?_cons, lit_inj, toJsonSafe]
  have hassertions : (probeToDict p).get? (lit "assertions") =
      some (.arr (p.assertions.map assertionToDict)) := by
    simp [probeToDict_eq, Json.get?_cons, lit_inj]
  have htoken : (probeToDict p).get? (lit "probe_token") = p.probeToken.map .str := by
    simp [probeToDict_eq, Json.get?_cons, get?_optional_append, get?_optional, lit_inj]
  have hcount : (probeToDict p).get? (lit "probe_count") =
      if p.probeCount.pyEq (.int 1) then none else some p.probeCount := by
    simp [probeToDict_eq, Json.get?_cons, get?_optional_append, get?_optional, lit_inj]
  have hexpected : (probeToDict p).get? (lit "protocol_error_is_expected") =
      if p.protocolErrorIsExpected then some (.bool true) else none := by
    simp [probeToDict_eq, Json.get?_cons, get?_optional_append, get?_optional, lit_inj]
  have hera : (probeToDict p).get? (lit "requires_protocol_era") =
      p.requiresProtocolEra.map .str := by
    simp [probeToDict_eq, Json.get?_cons, get?_optional_append, get?_optional, lit_inj]
  unfold probeFromDict
  rw [hassertions, headersFromDict_probeToDict p h, corroborationFromDict_probeToDict, hid,
    htransport, hmethod, hpayload, optStr?_of_get? htoken, optStr?_of_get? hera, hcount, hexpected]
  have hcounted : (if p.probeCount.pyEq (.int 1) then none else some p.probeCount).getD (.int 1) =
      if p.probeCount.pyEq (.int 1) then .int 1 else p.probeCount := by
    split <;> rfl
  have htruthy : ((if p.protocolErrorIsExpected then some (.bool true) else none).getD
      (Json.bool (φ := φ) false)).truthy = p.protocolErrorIsExpected := by
    cases p.protocolErrorIsExpected <;> rfl
  rw [hcounted, htruthy]
  simp only [asItems?, Option.bind_eq_bind, Option.bind_some,
    mapM_map_eq_some _ assertionFromDict_assertionToDict, Json.asStr?, proxyOf, Json.asDict?]
  rfl

end Probe

end CosaiMcp.Harness
