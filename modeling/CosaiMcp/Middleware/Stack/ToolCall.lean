import CosaiMcp.Middleware.Audit.Log
import CosaiMcp.Middleware.Auth.SessionManager
import CosaiMcp.Middleware.Stack.Enforcers

/-!
# Tool calls through the stack

`check_tool_call` of `CoSAIStack`. The class promises the checks of the parameters, the supply chain,
the authorization and the session on every request, and one audit entry for it. The code does not
consult the supply chain, and validates a token only if there is one; where these two would have
agreed to the call, it does what is promised, and nowhere else (`checkToolCall_conjunction_iff`).
-/

namespace CosaiMcp.Middleware.Stack

open Py Auth

/-- What the components call outside their modules. -/
structure StackRuntime (φ κ : Type) where
  validation : ValidationRuntime φ
  auth : Auth.Runtime φ κ
  audit : Audit.Runtime φ

/-- The components of a stack. The replay cache of the session manager and the audit log are in the
state (`StackState`). -/
structure CoSAIStack (φ : Type) where
  validator : ParameterValidator φ
  supplyChain : SupplyChainEnforcer
  authz : AuthzEnforcer
  sessionManager : Option (SessionManager φ)

/-- The constructor, with its defaults. -/
def CoSAIStack.new {φ : Type} (parameterValidator : Option (ParameterValidator φ))
    (supplyChainEnforcer : Option SupplyChainEnforcer) (authzEnforcer : Option AuthzEnforcer)
    (sessionManager : Option (SessionManager φ)) : CoSAIStack φ where
  validator := parameterValidator.getD ⟨.empty, true⟩
  supplyChain := supplyChainEnforcer.getD ⟨[]⟩
  authz := authzEnforcer.getD ⟨.empty, true⟩
  sessionManager

structure StackState (φ : Type) where
  jtiCache : JtiCache φ
  audit : Option (Audit.AuditLog φ)

/-- The arguments of a call, what its two clocks say, and what the log draws for its entry. -/
structure ToolCall (φ κ : Type) where
  toolName : Str
  arguments : List (Str × Json φ)
  authzContext : Option AuthzContext
  sessionId : Str
  jwtToken : Option Str
  jwtKeyset : Option κ
  reading : Reading φ
  entryId : Str
  logTime : φ

inductive CallError where
  | parameters (findings : List ValidationFinding)
  | authz (e : AuthzError)
  | session (e : SessionError)

section Check

variable {φ κ : Type} [FloatArith φ] (rt : StackRuntime φ κ) (S : CoSAIStack φ)

/-- The context that the authorization goes by: without one the caller has nothing. -/
def ToolCall.effectiveContext (c : ToolCall φ κ) : AuthzContext :=
  c.authzContext.getD ⟨[], false⟩

/-- The entry of the call in the audit log. -/
def ToolCall.logCall (c : ToolCall φ κ) : Audit.LogCall φ where
  entryId := c.entryId
  now := c.logTime
  method := lit "tools/call"
  sessionId := c.sessionId
  params := some [(lit "tool", .str c.toolName), (lit "args", .obj c.arguments)]
  parentId := none
  event := none

def StackState.logged (σ : StackState φ) (c : ToolCall φ κ) : StackState φ :=
  { σ with audit := σ.audit.map fun log => (log.log rt.audit c.logCall).1 }

/-- The check of the bearer token, where there is a token, a key set and a session manager. -/
def checkSession (σ : StackState φ) (c : ToolCall φ κ) : Except CallError Unit × StackState φ :=
  match c.jwtToken, c.jwtKeyset, S.sessionManager with
  | some token, some keyset, some M =>
    match validateToken rt.auth M σ.jtiCache token keyset c.reading with
    | (.error e, jtiCache) => (.error (.session e), { σ with jtiCache })
    | (.ok _, jtiCache) => (.ok (), { σ with jtiCache })
  | _, _, _ => (.ok (), σ)

/-- `check_tool_call`. -/
def checkToolCall (σ : StackState φ) (c : ToolCall φ κ) : Except CallError Unit × StackState φ :=
  match S.validator.validate rt.validation c.toolName c.arguments with
  | .error findings => (.error (.parameters findings), σ)
  | .ok () =>
    match S.authz.check c.toolName c.effectiveContext with
    | .error e => (.error (.authz e), σ)
    | .ok () =>
      match checkSession rt S σ c with
      | (.error e, σ) => (.error e, σ)
      | (.ok (), σ) => (.ok (), σ.logged rt c)

/-! ## What is promised -/

/-- The session manager validates the token of the call. -/
def TokenValid (M : SessionManager φ) (σ : StackState φ) (c : ToolCall φ κ) : Prop :=
  ∃ token keyset claims, c.jwtToken = some token ∧ c.jwtKeyset = some keyset ∧
    (validateToken rt.auth M σ.jtiCache token keyset c.reading).1 = .ok claims

/-- A call returns only if every component that there is accepts it, and leaves one entry in the
audit log, if there is one, exactly when it returns. -/
structure ConjunctionOfChecks (σ : StackState φ) (c : ToolCall φ κ) : Prop where
  parameters : (checkToolCall rt S σ c).1 = .ok () →
    S.validator.validate rt.validation c.toolName c.arguments = .ok ()
  supplyChain : (checkToolCall rt S σ c).1 = .ok () →
    S.supplyChain.checkTools rt.auth.strOf [[(lit "name", .str c.toolName)]] = .ok ()
  authz : (checkToolCall rt S σ c).1 = .ok () →
    S.authz.check c.toolName c.effectiveContext = .ok ()
  session : (checkToolCall rt S σ c).1 = .ok () →
    ∀ M, S.sessionManager = some M → TokenValid rt M σ c
  logged : (checkToolCall rt S σ c).1 = .ok () →
    (checkToolCall rt S σ c).2.audit = σ.audit.map fun log => (log.log rt.audit c.logCall).1
  unlogged : ∀ e, (checkToolCall rt S σ c).1 = .error e →
    (checkToolCall rt S σ c).2.audit = σ.audit

/-- The checks that the code makes accept the call. -/
structure Accepted (σ : StackState φ) (c : ToolCall φ κ) : Prop where
  parameters : S.validator.validate rt.validation c.toolName c.arguments = .ok ()
  authz : S.authz.check c.toolName c.effectiveContext = .ok ()
  session : ∀ M token keyset, S.sessionManager = some M → c.jwtToken = some token →
    c.jwtKeyset = some keyset → TokenValid rt M σ c

/-- Of a call that it accepts, the code need not have checked these. -/
structure Unbypassed (σ : StackState φ) (c : ToolCall φ κ) : Prop where
  supplyChain : Accepted rt S σ c → S.supplyChain.allowlist = [] ∨
    c.toolName ∈ S.supplyChain.allowlist
  session : Accepted rt S σ c → S.sessionManager.isSome = true →
    c.jwtToken.isSome = true ∧ c.jwtKeyset.isSome = true

/-! ## What is checked -/

variable {rt S} {σ : StackState φ} {c : ToolCall φ κ}

theorem checkSession_eq_ok_iff : (checkSession rt S σ c).1 = .ok () ↔
    ∀ M token keyset, S.sessionManager = some M → c.jwtToken = some token →
      c.jwtKeyset = some keyset → TokenValid rt M σ c := by
  unfold checkSession
  split
  · next token keyset M htoken hkeyset hM =>
    have hvalid : (∀ M token keyset, S.sessionManager = some M → c.jwtToken = some token →
        c.jwtKeyset = some keyset → TokenValid rt M σ c) ↔
        ∃ claims, (validateToken rt.auth M σ.jtiCache token keyset c.reading).1 = .ok claims := by
      constructor
      · intro h
        obtain ⟨token', keyset', claims, htoken', hkeyset', hclaims⟩ :=
          h M token keyset hM htoken hkeyset
        cases htoken.symm.trans htoken'
        cases hkeyset.symm.trans hkeyset'
        exact ⟨claims, hclaims⟩
      · rintro ⟨claims, hclaims⟩ M' _ _ hM' - -
        cases hM.symm.trans hM'
        exact ⟨token, keyset, claims, htoken, hkeyset, hclaims⟩
    rw [hvalid]
    split
    · next e cache hresult =>
      rw [hresult]
      exact ⟨nofun, fun ⟨_, h⟩ => (nomatch h)⟩
    · next claims cache hresult =>
      rw [hresult]
      exact ⟨fun _ => ⟨claims, rfl⟩, fun _ => rfl⟩
  · next hnone =>
    refine ⟨fun _ M token keyset hM htoken hkeyset => ?_, fun _ => rfl⟩
    exact absurd hM (hnone token keyset M htoken hkeyset)

theorem audit_checkSession : (checkSession rt S σ c).2.audit = σ.audit := by
  unfold checkSession
  split
  · split
    · rfl
    · rfl
  · rfl

theorem checkToolCall_eq_ok_iff : (checkToolCall rt S σ c).1 = .ok () ↔ Accepted rt S σ c := by
  unfold checkToolCall
  split
  · next hparameters =>
    exact ⟨nofun, fun h => nomatch hparameters.symm.trans h.parameters⟩
  · next hparameters =>
    split
    · next hauthz => exact ⟨nofun, fun h => nomatch hauthz.symm.trans h.authz⟩
    · next hauthz =>
      have hsession : (checkSession rt S σ c).1 = .ok () ↔ _ := checkSession_eq_ok_iff
      split
      · next hresult =>
        rw [hresult] at hsession
        exact ⟨nofun, fun h => nomatch hsession.mpr h.session⟩
      · next hresult =>
        rw [hresult] at hsession
        exact ⟨fun _ => ⟨hparameters, hauthz, hsession.mp rfl⟩, fun _ => rfl⟩

/-- The one entry of a call that returns. -/
theorem audit_checkToolCall_ok (h : (checkToolCall rt S σ c).1 = .ok ()) :
    (checkToolCall rt S σ c).2.audit = σ.audit.map fun log => (log.log rt.audit c.logCall).1 := by
  unfold checkToolCall at h ⊢
  split at h
  · cases h
  · split at h
    · cases h
    · split at h
      · cases h
      · next hresult =>
        have haudit : (checkSession rt S σ c).2.audit = σ.audit := audit_checkSession
        rw [hresult] at haudit
        rw [StackState.logged, haudit]

theorem audit_checkToolCall_error {e : CallError} (h : (checkToolCall rt S σ c).1 = .error e) :
    (checkToolCall rt S σ c).2.audit = σ.audit := by
  unfold checkToolCall at h ⊢
  split at h
  · rfl
  · split at h
    · rfl
    · split at h
      · next hresult =>
        have haudit : (checkSession rt S σ c).2.audit = σ.audit := audit_checkSession
        rw [hresult] at haudit
        exact haudit
      · cases h

omit [FloatArith φ] in
theorem checkTools_name_iff : S.supplyChain.checkTools rt.auth.strOf
    [[(lit "name", .str c.toolName)]] = .ok () ↔
      S.supplyChain.allowlist = [] ∨ c.toolName ∈ S.supplyChain.allowlist := by
  have hname : toolName rt.auth.strOf [(lit "name", .str c.toolName)] = c.toolName :=
    rt.auth.strOf_str c.toolName
  rw [SupplyChainEnforcer.checkTools_eq_ok_iff, List.forall_mem_singleton, hname]

/-- A call is the conjunction of its checks exactly if what the code does not check would not have
rejected it. -/
theorem checkToolCall_conjunction_iff (rt : StackRuntime φ κ) (S : CoSAIStack φ)
    (σ : StackState φ) (c : ToolCall φ κ) :
    ConjunctionOfChecks rt S σ c ↔ Unbypassed rt S σ c := by
  constructor
  · intro h
    refine ⟨fun haccepted => ?_, fun haccepted hmanager => ?_⟩
    · exact checkTools_name_iff.mp (h.supplyChain (checkToolCall_eq_ok_iff.mpr haccepted))
    · obtain ⟨M, hM⟩ := Option.isSome_iff_exists.mp hmanager
      obtain ⟨token, keyset, -, htoken, hkeyset, -⟩ :=
        h.session (checkToolCall_eq_ok_iff.mpr haccepted) M hM
      exact ⟨Option.isSome_of_eq_some htoken, Option.isSome_of_eq_some hkeyset⟩
  · intro h
    refine ⟨fun hok => ?_, fun hok => ?_, fun hok => ?_, fun hok M hM => ?_,
      audit_checkToolCall_ok, fun _ => audit_checkToolCall_error⟩
    · exact (checkToolCall_eq_ok_iff.mp hok).parameters
    · exact checkTools_name_iff.mpr (h.supplyChain (checkToolCall_eq_ok_iff.mp hok))
    · exact (checkToolCall_eq_ok_iff.mp hok).authz
    · have haccepted := checkToolCall_eq_ok_iff.mp hok
      obtain ⟨htoken, hkeyset⟩ := h.session haccepted (Option.isSome_of_eq_some hM)
      obtain ⟨token, htoken⟩ := Option.isSome_iff_exists.mp htoken
      obtain ⟨keyset, hkeyset⟩ := Option.isSome_iff_exists.mp hkeyset
      exact haccepted.session M token keyset hM htoken hkeyset

end Check

/-! ## Two calls that are let through -/

section Bypass

/-- A runtime in which no pattern matches and no token is decoded. -/
def permissiveRuntime : StackRuntime WholeFloat Unit where
  validation := ⟨fun _ _ => none, fun _ _ => [], id⟩
  auth :=
    { decode := fun _ _ _ => none
      importKey := fun _ => none
      sha256 := id
      strOf := fun j => j.asStr?.getD []
      strOf_str := Json.getD_asStr?_str
      upper := id
      floatOfStr := fun _ => none }
  audit := .plain

def emptyState : StackState WholeFloat := ⟨.new 10000 (.whole 300), none⟩

def shellCall : ToolCall WholeFloat Unit where
  toolName := lit "shell"
  arguments := []
  authzContext := none
  sessionId := lit "unknown"
  jwtToken := none
  jwtKeyset := none
  reading := ⟨.whole 0, .whole 0⟩
  entryId := []
  logTime := .whole 0

def allowlistStack : CoSAIStack WholeFloat := .new none (some ⟨[lit "search"]⟩) none none

def sessionStack : CoSAIStack WholeFloat :=
  .new none none none (some ⟨lit "i", lit "a", [lit "EdDSA"], .whole 30⟩)

/-- A tool that is not on the configured allowlist, and a call without a token under a configured
session manager. -/
theorem bypassed_calls :
    ((checkToolCall permissiveRuntime allowlistStack emptyState shellCall).1.toOption.isSome =
        true ∧
      ¬ConjunctionOfChecks permissiveRuntime allowlistStack emptyState shellCall) ∧
    ((checkToolCall permissiveRuntime sessionStack emptyState shellCall).1.toOption.isSome =
        true ∧
      ¬ConjunctionOfChecks permissiveRuntime sessionStack emptyState shellCall) := by
  refine ⟨⟨by decide +kernel, fun h => ?_⟩, by decide +kernel, fun h => ?_⟩
  · have hchecked := h.supplyChain rfl
    cases hchecked
  · obtain ⟨token, _, _, htoken, -⟩ := h.session rfl _ rfl
    cases htoken

end Bypass

end CosaiMcp.Middleware.Stack
