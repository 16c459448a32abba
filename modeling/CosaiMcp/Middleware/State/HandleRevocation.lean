import CosaiMcp.Middleware.State.HandleAccounting

/-!
# Revocation under concurrency

The registry under any number of concurrent calls. A step is one critical section, or one callback
of a revocation that has left the lock: `revoke` takes two sections, the second on whatever the
registry has become, and the callbacks of `_notify` run after the lock is free, one step each. No
clock reading is related to any other.

The log records what each step did. `Ledger` is the invariant: every minted handle is stored, or
expired, or revoked, and only one of these; every revoked handle was notified, or is waiting in the
loop of one call, or was behind a callback that escaped from its loop. It gives that revocation is
final, and exactly once along the runs in which no callback escapes that more are to follow
(`revocation_exactly_once_iff`).
-/

namespace CosaiMcp.Middleware.State

open Py

variable {τ : Type}

/-- What the steps of the registry show. `failed` is the `RuntimeError` of `_notify`, and `abandoned`
are the records that its loop has not come to when a callback escapes. -/
inductive Observed (τ : Type) where
  | minted (r : HandleRecord τ)
  | expired (handle : Str)
  | resolved (r : HandleRecord τ)
  | revoked (r : HandleRecord τ)
  | notified (r : HandleRecord τ)
  | failed (failures total : Nat)
  | abandoned (rs : List (HandleRecord τ))
deriving DecidableEq

/-- A call that is not done but holds no lock: `revoke` between its two sections, or a loop of
`_notify`. -/
inductive Pending (τ : Type) where
  | revoking (handle : Str)
  | notifying (todo : List (HandleRecord τ)) (total failures : Nat)
deriving DecidableEq

def Pending.todo : Pending τ → List (HandleRecord τ)
  | .revoking _ => []
  | .notifying todo _ _ => todo

/-- The registry, the calls under way by their number, and what was observed so far. -/
structure RegistryServer (τ : Type) where
  registry : HandleRegistry τ
  calls : Dict Nat (Pending τ)
  log : List (Observed τ)

inductive RegistryEvent (τ : Type) where
  | mint (principal tenant kind : Str) (ttl : τ) (handle : UrlsafeToken) (now : τ)
  | resolve (handle : Option Str) (principal tenant : Str) (kind : Option Str) (now : τ)
  | listForPrincipal (principal : Str) (tenant : Option Str) (now : τ)
  | revoke (id : Nat) (handle : Option Str) (principal tenant : Str) (now : τ)
  | removeResolved (id : Nat)
  | adminRevoke (id : Nat) (handle : Option Str)
  | revokePrincipal (id : Nat) (principal : Str) (tenant : Option Str)
  | callback (id : Nat)

/-- The handles drawn in a run. -/
def drawnHandles (events : List (RegistryEvent τ)) : List Str :=
  events.filterMap fun
    | .mint _ _ _ _ handle _ => some handle.val
    | _ => none

/-- The handles that are stored in `s` but not in `s'`. -/
def vanished (s s' : HandleRegistry τ) : List Str :=
  s.records.keys.filter (· ∉ s'.records.keys)

namespace RegistryServer

def init [Zero τ] : RegistryServer τ := ⟨.init, .empty, []⟩

def observe (σ : RegistryServer τ) (obs : List (Observed τ)) : RegistryServer τ :=
  { σ with log := σ.log ++ obs }

/-- A critical section in which records leave by expiry only. -/
def sweepTo (σ : RegistryServer τ) (s : HandleRegistry τ) : RegistryServer τ :=
  { σ with registry := s, log := σ.log ++ (vanished σ.registry s).map .expired }

variable (cfg : HandleConfig τ)

/-- The critical section of a revocation that removed `removed`, and the start of `_notify`. -/
def revokeTo (σ : RegistryServer τ) (id : Nat) (removed : List (HandleRecord τ))
    (s : HandleRegistry τ) : RegistryServer τ :=
  { registry := s
    calls := if cfg.onRevoke.isSome ∧ removed ≠ []
      then σ.calls.set id (.notifying removed removed.length 0) else σ.calls.erase id
    log := σ.log ++ removed.map .revoked }

/-- One turn of the loop of `_notify`: an `Exception` is counted, and the loop goes on. -/
def callback (σ : RegistryServer τ) (id : Nat) : Option (RegistryServer τ) :=
  match σ.calls.get? id, cfg.onRevoke with
  | some (.notifying (r :: todo) total failures), some onRevoke =>
    if onRevoke r = .escapes then
      some ({ σ with calls := σ.calls.erase id }.observe [.notified r, .abandoned todo])
    else
      let failures := if onRevoke r = .raises then failures + 1 else failures
      some (if todo = [] then
          { σ with calls := σ.calls.erase id }.observe
            (.notified r :: if 0 < failures then [.failed failures total] else [])
        else { σ with calls := σ.calls.set id (.notifying todo total failures) }.observe
          [.notified r])
  | _, _ => none

/-- No callback escapes that more are to follow in its loop. -/
def NoEscape (σ : RegistryServer τ) : RegistryEvent τ → Prop
  | .callback id => ∀ onRevoke ∈ cfg.onRevoke, ∀ p ∈ σ.calls.get? id, ∀ r ∈ p.todo.head?,
      onRevoke r = .escapes → p.todo.tail = []
  | _ => True

instance : ∀ (σ : RegistryServer τ) (e : RegistryEvent τ), Decidable (NoEscape cfg σ e)
  | σ, .callback id => inferInstanceAs (Decidable (∀ onRevoke ∈ cfg.onRevoke,
      ∀ p ∈ σ.calls.get? id, ∀ r ∈ p.todo.head?, onRevoke r = .escapes → p.todo.tail = []))
  | _, .mint .. | _, .resolve .. | _, .listForPrincipal .. | _, .revoke .. | _, .removeResolved ..
  | _, .adminRevoke .. | _, .revokePrincipal .. => isTrue trivial

variable [LE τ] [DecidableLE τ] [LT τ] [DecidableLT τ] [Add τ] [Zero τ] [One τ]

/-- One step. A call's number must not be in use when the call begins. -/
def step (σ : RegistryServer τ) : RegistryEvent τ → Option (RegistryServer τ)
  | .mint principal tenant kind ttl handle now =>
    match σ.registry.mint cfg principal tenant kind ttl handle.val now with
    | (.error _, s) => some (σ.sweepTo s)
    | (.ok h, s) => some ((σ.sweepTo s).observe [.minted
        { handle := h, principal, tenant, kind, createdAt := now, expiresAt := now + ttl }])
  | .resolve handle principal tenant kind now =>
    match σ.registry.resolve handle principal tenant kind now with
    | (.error _, s) => some (σ.sweepTo s)
    | (.ok r, s) => some ((σ.sweepTo s).observe [.resolved r])
  | .listForPrincipal principal tenant now =>
    some (σ.sweepTo (σ.registry.listForPrincipal principal tenant now).2)
  | .revoke id handle principal tenant now =>
    if id ∈ σ.calls.keys then none
    else
      match σ.registry.resolve handle principal tenant none now with
      | (.error _, s) => some (σ.sweepTo s)
      | (.ok r, s) =>
        let σ := (σ.sweepTo s).observe [.resolved r]
        some { σ with calls := σ.calls.set id (.revoking r.handle) }
  | .removeResolved id =>
    match σ.calls.get? id with
    | some (.revoking handle) =>
      let (removed, s) := σ.registry.adminDrop (some handle)
      some (σ.revokeTo cfg id removed.toList s)
    | _ => none
  | .adminRevoke id handle =>
    if id ∈ σ.calls.keys then none
    else
      let (removed, s) := σ.registry.adminDrop handle
      some (σ.revokeTo cfg id removed.toList s)
  | .revokePrincipal id principal tenant =>
    if id ∈ σ.calls.keys then none
    else
      let (doomed, s) := σ.registry.dropPrincipal principal tenant
      some (σ.revokeTo cfg id doomed s)
  | .callback id => σ.callback cfg id

end RegistryServer

/-! ## Reading a log -/

section Log

def mintedIn (log : List (Observed τ)) : List Str :=
  log.filterMap fun
    | .minted r => some r.handle
    | _ => none

def expiredIn (log : List (Observed τ)) : List Str :=
  log.filterMap fun
    | .expired handle => some handle
    | _ => none

def revokedIn (log : List (Observed τ)) : List Str :=
  log.filterMap fun
    | .revoked r => some r.handle
    | _ => none

def notifiedIn (log : List (Observed τ)) : List Str :=
  log.filterMap fun
    | .notified r => some r.handle
    | _ => none

def abandonedIn (log : List (Observed τ)) : List Str :=
  log.flatMap fun
    | .abandoned rs => rs.map (·.handle)
    | _ => []

/-- Once a handle left the registry, no later `resolve` returns it. -/
def FinalRemovals (log : List (Observed τ)) : Prop :=
  ∀ before r after, log = before ++ .resolved r :: after →
    r.handle ∉ expiredIn before ∧ r.handle ∉ revokedIn before

variable (log log' : List (Observed τ))

@[simp] theorem mintedIn_append : mintedIn (log ++ log') = mintedIn log ++ mintedIn log' :=
  List.filterMap_append

@[simp] theorem expiredIn_append : expiredIn (log ++ log') = expiredIn log ++ expiredIn log' :=
  List.filterMap_append

@[simp] theorem revokedIn_append : revokedIn (log ++ log') = revokedIn log ++ revokedIn log' :=
  List.filterMap_append

@[simp] theorem notifiedIn_append :
    notifiedIn (log ++ log') = notifiedIn log ++ notifiedIn log' := List.filterMap_append

@[simp] theorem abandonedIn_append :
    abandonedIn (log ++ log') = abandonedIn log ++ abandonedIn log' := List.flatMap_append

variable {log}

theorem FinalRemovals.concat {x : Observed τ} (h : FinalRemovals log)
    (hx : ∀ r, x = .resolved r → r.handle ∉ expiredIn log ∧ r.handle ∉ revokedIn log) :
    FinalRemovals (log ++ [x]) := by
  intro before r after he
  rcases List.eq_nil_or_concat after with rfl | ⟨after, y, rfl⟩
  · obtain ⟨rfl, hr⟩ := List.append_inj' he rfl
    exact hx r (List.cons.inj hr).1
  · rw [List.concat_eq_append, ← List.cons_append, ← List.append_assoc] at he
    exact h before r after (List.append_inj' he rfl).1

/-- Only a `resolve` can offend. -/
theorem FinalRemovals.append {log' : List (Observed τ)} (h : FinalRemovals log)
    (hn : ∀ r, .resolved r ∉ log') : FinalRemovals (log ++ log') := by
  induction log' generalizing log with
  | nil => simpa using h
  | cons x log' ih =>
    rw [← List.singleton_append, ← List.append_assoc]
    refine ih (h.concat fun r hr => ?_) fun r hr => hn r (List.mem_cons_of_mem _ hr)
    exact absurd (hr ▸ List.mem_cons_self) (hn r)

variable (hs : List Str) (rs : List (HandleRecord τ))

@[simp] theorem mintedIn_expired : mintedIn (hs.map (Observed.expired (τ := τ))) = [] := by
  simp [mintedIn]

@[simp] theorem expiredIn_expired : expiredIn (hs.map (Observed.expired (τ := τ))) = hs := by
  simp [expiredIn]

@[simp] theorem revokedIn_expired : revokedIn (hs.map (Observed.expired (τ := τ))) = [] := by
  simp [revokedIn]

@[simp] theorem notifiedIn_expired : notifiedIn (hs.map (Observed.expired (τ := τ))) = [] := by
  simp [notifiedIn]

@[simp] theorem abandonedIn_expired : abandonedIn (hs.map (Observed.expired (τ := τ))) = [] := by
  simp [abandonedIn]

@[simp] theorem mintedIn_revoked : mintedIn (rs.map .revoked) = [] := by
  simp [mintedIn]

@[simp] theorem expiredIn_revoked : expiredIn (rs.map .revoked) = [] := by
  simp [expiredIn]

@[simp] theorem revokedIn_revoked : revokedIn (rs.map .revoked) = rs.map (·.handle) := by
  simp [revokedIn]

@[simp] theorem notifiedIn_revoked : notifiedIn (rs.map .revoked) = [] := by
  simp [notifiedIn]

@[simp] theorem abandonedIn_revoked : abandonedIn (rs.map .revoked) = [] := by
  simp [abandonedIn]

end Log

/-! ## The ledger -/

section Waiting

/-- The records that a loop of `_notify` has still to come to. -/
def waitingIn (calls : Dict Nat (Pending τ)) : List (HandleRecord τ) :=
  calls.values.flatMap Pending.todo

theorem waitingIn_of_get? {calls : Dict Nat (Pending τ)} {id : Nat} {p : Pending τ}
    (h : calls.get? id = some p) :
    (waitingIn calls).Perm (p.todo ++ waitingIn (calls.erase id)) :=
  (Dict.values_perm_erase h).flatMap_right Pending.todo

theorem waitingIn_set (calls : Dict Nat (Pending τ)) (id : Nat) (p : Pending τ) :
    (waitingIn (calls.set id p)).Perm (p.todo ++ waitingIn (calls.erase id)) :=
  (Dict.values_perm_set calls id p).flatMap_right Pending.todo

/-- Each handle that a revocation removed was notified once, or waits once in a loop of
`_notify`. -/
def EachNotifiedOnce (σ : RegistryServer τ) : Prop :=
  ∀ k ∈ revokedIn σ.log,
    (notifiedIn σ.log).count k + ((waitingIn σ.calls).map (·.handle)).count k = 1

end Waiting

/-- What a turn of the loop shows behind its callback, when it loses the records `lost`. -/
inductive TurnEnd : List (HandleRecord τ) → List (Observed τ) → Prop
  | goesOn : TurnEnd [] []
  | failed (failures total : Nat) : TurnEnd [] [.failed failures total]
  | escaped (lost : List (HandleRecord τ)) : TurnEnd lost [.abandoned lost]

/-- A turn of the loop takes its record out of the waiting ones, whether the callback raises or
not, and with it those that are lost. -/
theorem RegistryServer.callback_cases {cfg : HandleConfig τ} {σ σ' : RegistryServer τ} {id : Nat}
    (h : σ.callback cfg id = some σ') :
    ∃ r lost calls obs, (waitingIn σ.calls).Perm (r :: (lost ++ waitingIn calls)) ∧
      TurnEnd lost obs ∧ σ' = { σ with calls }.observe (.notified r :: obs) ∧
      (NoEscape cfg σ (.callback id) ↔ lost = []) := by
  unfold callback at h
  split at h
  · rename_i r todo total failures onRevoke hget hcb
    have hw : (waitingIn σ.calls).Perm (r :: (todo ++ waitingIn (σ.calls.erase id))) :=
      waitingIn_of_get? hget
    have hno : NoEscape cfg σ (.callback id) ↔ (onRevoke r = .escapes → todo = []) := by
      simp [NoEscape, hget, hcb, Pending.todo]
    rw [hno]
    split at h
    · next hescapes =>
      cases h
      exact ⟨r, todo, _, _, hw, .escaped todo, rfl, forall_prop_of_true hescapes⟩
    · next hescapes =>
      generalize (if onRevoke r = .raises then failures + 1 else failures) = failures' at h
      have hkept : (onRevoke r = .escapes → todo = []) ↔ ([] : List (HandleRecord τ)) = [] :=
        iff_of_true (fun h => absurd h hescapes) rfl
      cases h
      by_cases hnil : todo = []
      · subst hnil
        rw [if_pos rfl]
        by_cases hf : 0 < failures'
        · rw [if_pos hf]
          exact ⟨r, [], _, _, hw, .failed failures' total, rfl, hkept⟩
        · rw [if_neg hf]
          exact ⟨r, [], _, _, hw, .goesOn, rfl, hkept⟩
      · rw [if_neg hnil]
        have hset := waitingIn_set σ.calls id (.notifying todo total failures')
        exact ⟨r, [], _, _, hw.trans (List.Perm.cons r hset.symm), .goesOn, rfl, hkept⟩
  · cases h

/-- The loop goes on as long as a record is waiting. -/
theorem RegistryServer.callback_isSome {cfg : HandleConfig τ} (hcb : cfg.onRevoke.isSome = true)
    {σ : RegistryServer τ} (hw : waitingIn σ.calls ≠ []) :
    ∃ id σ', σ.callback cfg id = some σ' := by
  obtain ⟨r, hr⟩ := List.exists_mem_of_ne_nil _ hw
  obtain ⟨p, hp, hrp⟩ := List.mem_flatMap.mp hr
  obtain ⟨id, hid⟩ := Dict.mem_values_iff.mp hp
  obtain ⟨raises, hraises⟩ := Option.isSome_iff_exists.mp hcb
  cases p with
  | revoking handle => cases hrp
  | notifying todo total failures =>
    cases todo with
    | nil => cases hrp
    | cons r todo =>
      refine ⟨id, ?_⟩
      unfold callback
      rw [Dict.get?_eq_some_iff.mpr hid, hraises]
      simp only
      split <;> exact ⟨_, rfl⟩

section Vanished

variable {s s' : HandleRegistry τ} {gone : List Str}

theorem keys_perm_vanished (h : HandleRegistry.Removes s s' gone) :
    s.records.keys.Perm (s'.records.keys ++ vanished s s') := by
  have hgone : vanished s s' = s.records.keys.filter fun k => !decide (k ∉ gone) := by
    refine List.filter_congr fun k hk => ?_
    simp only [h.mem_keys, hk, true_and, decide_not, Bool.not_not]
  rw [h.keys, hgone]
  exact (List.filter_append_perm _ _).symm

/-- A section that removes exactly the stored records `removed`. -/
theorem keys_perm_removed (hs : s.Consistent) {removed : List (HandleRecord τ)}
    (h : HandleRegistry.Removes s s' gone) (hstored : removed.Sublist s.records.values)
    (hgone : ∀ k ∈ s.records.keys, k ∈ gone ↔ k ∈ removed.map (·.handle)) :
    s.records.keys.Perm (s'.records.keys ++ removed.map (·.handle)) := by
  have hsub : (removed.map (·.handle)).Sublist s.records.keys :=
    hs.map_handle_values ▸ hstored.map _
  have hnodup : (vanished s s').Nodup := s.records.nodup.sublist List.filter_sublist
  refine (keys_perm_vanished h).trans (List.Perm.append_left _ ?_)
  refine (List.perm_ext_iff_of_nodup hnodup (s.records.nodup.sublist hsub)).mpr fun k => ?_
  simp only [vanished, List.mem_filter, h.mem_keys, decide_eq_true_eq, not_and, not_not]
  constructor
  · rintro ⟨hk, hg⟩
    exact (hgone k hk).mp (hg hk)
  · intro hr
    exact ⟨hsub.subset hr, fun hk => (hgone k hk).mpr hr⟩

theorem keys_perm_adminDrop (hs : s.Consistent) (handle : Option Str) :
    s.records.keys.Perm ((s.adminDrop handle).2.records.keys ++
      (s.adminDrop handle).1.toList.map (·.handle)) := by
  cases handle with
  | none => simp [HandleRegistry.adminDrop]
  | some h =>
    simp only [HandleRegistry.adminDrop, HandleRegistry.drop_fst]
    refine keys_perm_removed hs (HandleRegistry.removes_drop s h) ?_ fun k hk => ?_
    · cases hr : s.records.get? h with
      | none => exact List.nil_sublist _
      | some r => exact List.singleton_sublist.mpr (Dict.mem_values_of_get? hr)
    · cases hr : s.records.get? h with
      | none =>
        have hne : k ≠ h := fun he => Dict.get?_eq_none_iff.mp hr (he ▸ hk)
        simp [hne]
      | some r => simp [hs.get?_handle hr]

theorem keys_perm_dropPrincipal (hs : s.Consistent) (principal : Str) (tenant : Option Str) :
    s.records.keys.Perm ((s.dropPrincipal principal tenant).2.records.keys ++
      (s.dropPrincipal principal tenant).1.map (·.handle)) :=
  keys_perm_removed hs (HandleRegistry.removes_dropPrincipal s principal tenant)
    List.filter_sublist fun _ _ => Iff.rfl

end Vanished

/-- Every minted handle is stored, expired or revoked; every revoked one is notified, waiting or
lost. `drawn` are the handles drawn so far. -/
structure Ledger (drawn : List Str) (σ : RegistryServer τ) : Prop where
  consistent : σ.registry.Consistent
  minted_drawn : ∀ k ∈ mintedIn σ.log, k ∈ drawn
  minted_nodup : (mintedIn σ.log).Nodup
  accounts : (mintedIn σ.log).Perm
    (σ.registry.records.keys ++ (expiredIn σ.log ++ revokedIn σ.log))
  notices : (revokedIn σ.log).Perm
    (notifiedIn σ.log ++ ((waitingIn σ.calls).map (·.handle) ++ abandonedIn σ.log))
  final : FinalRemovals σ.log

namespace Ledger

variable {drawn : List Str} {σ : RegistryServer τ}

theorem init [Zero τ] : Ledger drawn (RegistryServer.init : RegistryServer τ) :=
  { consistent := HandleRegistry.Consistent.init
    minted_drawn := fun _ hk => by cases hk
    minted_nodup := List.nodup_nil
    accounts := List.Perm.nil
    notices := List.Perm.nil
    final := fun before r after h => by cases before <;> cases h }

theorem mono (h : Ledger drawn σ) {drawn' : List Str} (hsub : ∀ k ∈ drawn, k ∈ drawn') :
    Ledger drawn' σ :=
  { h with minted_drawn := fun k hk => hsub k (h.minted_drawn k hk) }

theorem key_drawn (h : Ledger drawn σ) {k : Str} (hk : k ∈ σ.registry.records.keys) :
    k ∈ drawn :=
  h.minted_drawn k (h.accounts.symm.subset (List.mem_append_left _ hk))

theorem count_notices (h : Ledger drawn σ) (k : Str) :
    (notifiedIn σ.log).count k + ((waitingIn σ.calls).map (·.handle)).count k +
      (abandonedIn σ.log).count k = (revokedIn σ.log).count k := by
  rw [h.notices.count_eq, List.count_append, List.count_append, Nat.add_assoc]

theorem nodup_revoked (h : Ledger drawn σ) : (revokedIn σ.log).Nodup := by
  have hnodup := List.nodup_append.mp (h.accounts.nodup_iff.mp h.minted_nodup)
  exact (List.nodup_append.mp hnodup.2.1).2.1

theorem mem_revoked (h : Ledger drawn σ) {k : Str} (hk : k ∈ notifiedIn σ.log) :
    k ∈ revokedIn σ.log :=
  h.notices.symm.subset (List.mem_append_left _ hk)

theorem mem_minted (h : Ledger drawn σ) {k : Str} (hk : k ∈ revokedIn σ.log) :
    k ∈ mintedIn σ.log :=
  h.accounts.symm.subset (List.mem_append_right _ (List.mem_append_right _ hk))

theorem not_revoked_of_expired (h : Ledger drawn σ) {k : Str} (hk : k ∈ expiredIn σ.log) :
    k ∉ revokedIn σ.log := by
  have hnodup := List.nodup_append.mp (h.accounts.nodup_iff.mp h.minted_nodup)
  exact fun hr => (List.nodup_append.mp hnodup.2.1).2.2 k hk k hr rfl

theorem eachNotifiedOnce_iff (h : Ledger drawn σ) :
    EachNotifiedOnce σ ↔ abandonedIn σ.log = [] := by
  have hcount : ∀ k ∈ revokedIn σ.log, (notifiedIn σ.log).count k +
      ((waitingIn σ.calls).map (·.handle)).count k + (abandonedIn σ.log).count k = 1 :=
    fun k hk => (h.count_notices k).trans (List.count_eq_one_of_mem h.nodup_revoked hk)
  constructor
  · intro honce
    refine List.eq_nil_iff_forall_not_mem.mpr fun k hk => ?_
    have hrevoked : k ∈ revokedIn σ.log :=
      h.notices.symm.subset (List.mem_append_right _ (List.mem_append_right _ hk))
    have := hcount k hrevoked
    have := honce k hrevoked
    have := List.count_pos_iff.mpr hk
    omega
  · intro hnil k hk
    have := hcount k hk
    rw [hnil, List.count_nil] at this
    omega

/-- A stored handle neither expired nor was it revoked. -/
theorem not_removed (h : Ledger drawn σ) {k : Str} (hk : k ∈ σ.registry.records.keys) :
    k ∉ expiredIn σ.log ∧ k ∉ revokedIn σ.log := by
  have hn := (List.nodup_append.mp (h.accounts.nodup_iff.mp h.minted_nodup)).2.2 k hk
  exact ⟨fun hin => hn k (List.mem_append_left _ hin) rfl,
    fun hin => hn k (List.mem_append_right _ hin) rfl⟩

theorem withCalls (h : Ledger drawn σ) {calls : Dict Nat (Pending τ)}
    (hw : (waitingIn σ.calls).Perm (waitingIn calls)) : Ledger drawn { σ with calls } :=
  { h with notices :=
      h.notices.trans (List.Perm.append_left _ (List.Perm.append_right _ (hw.map _))) }

/-- A section in which records leave by expiry only. -/
theorem sweepTo (h : Ledger drawn σ) {s : HandleRegistry τ} {gone : List Str}
    (hg : HandleRegistry.Removes σ.registry s gone) : Ledger drawn (σ.sweepTo s) := by
  have hkeys := keys_perm_vanished hg
  refine { consistent := hg.consistent h.consistent, minted_drawn := ?_, minted_nodup := ?_,
           accounts := ?_, notices := ?_, final := h.final.append (by simp) }
  · simpa [RegistryServer.sweepTo] using h.minted_drawn
  · simpa [RegistryServer.sweepTo] using h.minted_nodup
  · have haccounts := h.accounts
    simp only [RegistryServer.sweepTo, mintedIn_append, mintedIn_expired, expiredIn_append,
      expiredIn_expired, revokedIn_append, revokedIn_expired, List.append_nil]
    rw [List.perm_iff_count] at hkeys haccounts ⊢
    intro k
    have := hkeys k
    have := haccounts k
    simp only [List.count_append] at *
    omega
  · simpa [RegistryServer.sweepTo] using h.notices

/-- A record that was just resolved is stored. -/
theorem resolved (h : Ledger drawn σ) {r : HandleRecord τ}
    (hr : r.handle ∈ σ.registry.records.keys) : Ledger drawn (σ.observe [.resolved r]) := by
  have hfinal : FinalRemovals (σ.log ++ [.resolved r]) := h.final.concat fun r' hr' => by
    cases hr'
    exact h.not_removed hr
  refine { consistent := h.consistent, minted_drawn := ?_, minted_nodup := ?_,
           accounts := ?_, notices := ?_, final := hfinal }
  · simpa [RegistryServer.observe, mintedIn] using h.minted_drawn
  · simpa [RegistryServer.observe, mintedIn] using h.minted_nodup
  · simpa [RegistryServer.observe, mintedIn, expiredIn, revokedIn] using h.accounts
  · simpa [RegistryServer.observe, revokedIn, notifiedIn, abandonedIn] using h.notices

theorem minted (h : Ledger drawn σ) {r : HandleRecord τ} (hr : r.handle ∉ drawn) :
    Ledger (drawn ++ [r.handle])
      ({ σ with registry := σ.registry.insert r }.observe [.minted r]) := by
  have hnew : r.handle ∉ σ.registry.records.keys := fun hk => hr (h.key_drawn hk)
  have hminted : mintedIn (σ.log ++ [.minted r]) = mintedIn σ.log ++ [r.handle] := by
    simp [mintedIn]
  refine { consistent := h.consistent.insert hnew, minted_drawn := ?_, minted_nodup := ?_,
           accounts := ?_, notices := ?_, final := h.final.append (by simp) }
  · intro k hk
    rw [RegistryServer.observe, hminted, List.mem_append] at hk
    exact List.mem_append.mpr (hk.imp_left (h.minted_drawn k))
  · rw [RegistryServer.observe, hminted, List.nodup_append]
    refine ⟨h.minted_nodup, List.nodup_singleton _, fun k hk k' hk' he => hr ?_⟩
    rw [← List.mem_singleton.mp hk', ← he]
    exact h.minted_drawn k hk
  · have hkeys : (σ.registry.insert r).records.keys = σ.registry.records.keys ++ [r.handle] :=
      Dict.keys_set_of_not_mem hnew r
    have hother : expiredIn (σ.log ++ [.minted r]) = expiredIn σ.log ∧
        revokedIn (σ.log ++ [.minted r]) = revokedIn σ.log := by
      simp [expiredIn, revokedIn]
    have haccounts := h.accounts
    simp only [RegistryServer.observe, hminted, hkeys, hother]
    rw [List.perm_iff_count] at haccounts ⊢
    intro k
    have := haccounts k
    simp only [List.count_append] at *
    omega
  · simpa [RegistryServer.observe, revokedIn, notifiedIn, abandonedIn] using h.notices

/-- The section of a revocation, by a call that waits for nothing. -/
theorem revokeTo (h : Ledger drawn σ) {cfg : HandleConfig τ} (hcb : cfg.onRevoke.isSome = true)
    {id : Nat} (hid : (waitingIn σ.calls).Perm (waitingIn (σ.calls.erase id)))
    {removed : List (HandleRecord τ)} {s : HandleRegistry τ} (hs : s.Consistent)
    (hkeys : σ.registry.records.keys.Perm (s.records.keys ++ removed.map (·.handle))) :
    Ledger drawn (σ.revokeTo cfg id removed s) := by
  refine { consistent := hs, minted_drawn := ?_, minted_nodup := ?_, accounts := ?_,
           notices := ?_, final := h.final.append (by simp) }
  · simpa [RegistryServer.revokeTo] using h.minted_drawn
  · simpa [RegistryServer.revokeTo] using h.minted_nodup
  · have haccounts := h.accounts
    simp only [RegistryServer.revokeTo, mintedIn_append, mintedIn_revoked, expiredIn_append,
      expiredIn_revoked, revokedIn_append, revokedIn_revoked, List.append_nil]
    rw [List.perm_iff_count] at hkeys haccounts ⊢
    intro k
    have := hkeys k
    have := haccounts k
    simp only [List.count_append] at *
    omega
  · have hwaiting : (waitingIn (σ.revokeTo cfg id removed s).calls).Perm
        (removed ++ waitingIn σ.calls) := by
      simp only [RegistryServer.revokeTo, hcb, true_and]
      split
      · exact (waitingIn_set _ _ _).trans (List.Perm.append_left _ hid.symm)
      · rename_i hnil
        rw [ne_eq, not_not] at hnil
        rw [hnil]
        exact hid.symm
    have hnotices := h.notices
    have hwaiting := hwaiting.map (·.handle)
    simp only [RegistryServer.revokeTo, revokedIn_append, revokedIn_revoked, notifiedIn_append,
      notifiedIn_revoked, abandonedIn_append, abandonedIn_revoked, List.append_nil] at hwaiting ⊢
    rw [List.map_append] at hwaiting
    rw [List.perm_iff_count] at hnotices hwaiting ⊢
    intro k
    have := hnotices k
    have := hwaiting k
    simp only [List.count_append] at *
    omega

/-- A turn of a loop takes its record from the waiting to the notified ones, and the lost ones from
the waiting to the abandoned ones. -/
theorem turn (h : Ledger drawn σ) {r : HandleRecord τ} {lost : List (HandleRecord τ)}
    {calls : Dict Nat (Pending τ)} {obs : List (Observed τ)}
    (hw : (waitingIn σ.calls).Perm (r :: (lost ++ waitingIn calls))) (hend : TurnEnd lost obs) :
    Ledger drawn ({ σ with calls }.observe (.notified r :: obs)) := by
  have hobs : mintedIn (.notified r :: obs) = [] ∧ expiredIn (.notified r :: obs) = [] ∧
      revokedIn (.notified r :: obs) = [] ∧ notifiedIn (.notified r :: obs) = [r.handle] ∧
      abandonedIn (.notified r :: obs) = lost.map (·.handle) ∧
      ∀ r', .resolved r' ∉ .notified r :: obs := by
    cases hend <;> simp [mintedIn, expiredIn, revokedIn, notifiedIn, abandonedIn]
  obtain ⟨hminted, hexpired, hrevoked, hnotified, habandoned, hresolved⟩ := hobs
  refine { consistent := h.consistent, minted_drawn := ?_, minted_nodup := ?_, accounts := ?_,
           notices := ?_, final := h.final.append hresolved }
  · simpa [RegistryServer.observe, hminted] using h.minted_drawn
  · simpa [RegistryServer.observe, hminted] using h.minted_nodup
  · simpa [RegistryServer.observe, hminted, hexpired, hrevoked] using h.accounts
  · have hnotices := h.notices
    have hwaiting := hw.map (·.handle)
    simp only [RegistryServer.observe, revokedIn_append, notifiedIn_append, abandonedIn_append,
      hrevoked, hnotified, habandoned, List.append_nil]
    rw [List.map_cons, List.map_append] at hwaiting
    rw [List.perm_iff_count] at hnotices hwaiting ⊢
    intro k
    have := hnotices k
    have := hwaiting k
    simp only [List.count_append, List.count_cons, List.count_nil] at *
    omega

theorem callback (h : Ledger drawn σ) {cfg : HandleConfig τ} {id : Nat} {σ' : RegistryServer τ}
    (hstep : σ.callback cfg id = some σ') : Ledger drawn σ' := by
  obtain ⟨r, lost, calls, obs, hw, hend, rfl, -⟩ := RegistryServer.callback_cases hstep
  exact h.turn hw hend

variable [LE τ] [DecidableLE τ] [LT τ] [DecidableLT τ] [Add τ] [Zero τ] [One τ]
  {cfg : HandleConfig τ} {events : List (RegistryEvent τ)}

theorem mint (h : Ledger drawn σ) {principal tenant kind : Str} {ttl : τ} {handle : UrlsafeToken}
    {now : τ} (hfresh : handle.val ∉ drawn) {σ' : RegistryServer τ}
    (hstep : σ.step cfg (.mint principal tenant kind ttl handle now) = some σ') :
    Ledger (drawn ++ [handle.val]) σ' := by
  obtain ⟨s, hs, he, -⟩ := HandleRegistry.mint_spec cfg h.consistent principal tenant kind
    ttl handle.val now
  obtain ⟨gone, hg, -⟩ := hs.removes
  have hsub : ∀ k ∈ drawn, k ∈ drawn ++ [handle.val] := fun k => List.mem_append_left _
  cases hv : (HandleRegistry.mintArgsError cfg principal tenant ttl).or
      (HandleRegistry.verdict cfg (σ.registry.live now) (principal, tenant)) with
  | some e =>
    rw [hv] at he
    simp only [RegistryServer.step, he, Option.some.injEq] at hstep
    subst hstep
    exact (h.sweepTo hg).mono hsub
  | none =>
    rw [hv] at he
    simp only [RegistryServer.step, he, Option.some.injEq] at hstep
    subst hstep
    -- what vanishes in the section is what its sweeps removed: the new handle was not stored
    have hvanished : vanished σ.registry (s.insert ⟨handle.val, principal, tenant, kind, now,
        now + ttl⟩) = vanished σ.registry s := by
      refine List.filter_congr fun k hk => ?_
      have hne : k ≠ handle.val := fun he => hfresh (he ▸ h.key_drawn hk)
      have hmem : k ∈ (s.insert ⟨handle.val, principal, tenant, kind, now,
          now + ttl⟩).records.keys ↔ k ∈ s.records.keys := by
        simp only [HandleRegistry.insert, Dict.mem_keys_set, hne, false_or]
      simp only [hmem]
    have hswept := h.sweepTo hg
    have := hswept.minted (r := ⟨handle.val, principal, tenant, kind, now, now + ttl⟩) hfresh
    simpa only [RegistryServer.sweepTo, RegistryServer.observe, hvanished] using this

/-- One step. -/
theorem step (h : Ledger (drawnHandles events) σ) (hcb : cfg.onRevoke.isSome = true)
    {e : RegistryEvent τ} (hd : (drawnHandles (events ++ [e])).Nodup) {σ' : RegistryServer τ}
    (hstep : σ.step cfg e = some σ') : Ledger (drawnHandles (events ++ [e])) σ' := by
  have happend : drawnHandles (events ++ [e]) = drawnHandles events ++ drawnHandles [e] :=
    List.filterMap_append
  rw [happend] at hd ⊢
  have hsub : ∀ k ∈ drawnHandles events, k ∈ drawnHandles events ++ drawnHandles [e] :=
    fun k => List.mem_append_left _
  cases e with
  | mint principal tenant kind ttl handle now =>
    refine h.mint (fun hin => ?_) hstep
    exact (List.nodup_append.mp hd).2.2 _ hin _ (List.mem_singleton_self handle.val) rfl
  | resolve handle principal tenant kind now =>
    obtain ⟨gone, hg, -⟩ := HandleRegistry.removes_resolve σ.registry handle principal tenant kind now
    rcases hres : σ.registry.resolve handle principal tenant kind now with ⟨res, s⟩
    rw [hres] at hg
    simp only [RegistryServer.step, hres] at hstep
    cases res with
    | error e =>
      cases hstep
      exact (h.sweepTo hg).mono hsub
    | ok r =>
      cases hstep
      have hr := HandleRegistry.get?_of_resolve h.consistent hres
      exact ((h.sweepTo hg).resolved (Dict.mem_keys_of_get? hr)).mono hsub
  | listForPrincipal principal tenant now =>
    cases hstep
    exact (h.sweepTo (HandleRegistry.removes_purge_force σ.registry now)).mono hsub
  | revoke id handle principal tenant now =>
    obtain ⟨gone, hg, -⟩ := HandleRegistry.removes_resolve σ.registry handle principal tenant none now
    rcases hres : σ.registry.resolve handle principal tenant none now with ⟨res, s⟩
    rw [hres] at hg
    simp only [RegistryServer.step, hres] at hstep
    split at hstep
    · cases hstep
    · rename_i hid
      cases res with
      | error e =>
        cases hstep
        exact (h.sweepTo hg).mono hsub
      | ok r =>
        cases hstep
        have hr := HandleRegistry.get?_of_resolve h.consistent hres
        have hw : (waitingIn σ.calls).Perm (waitingIn (σ.calls.set id (.revoking r.handle))) := by
          have := waitingIn_set σ.calls id (.revoking r.handle)
          rw [Dict.erase_of_not_mem hid] at this
          exact this.symm
        exact (((h.sweepTo hg).resolved (Dict.mem_keys_of_get? hr)).withCalls hw).mono hsub
  | removeResolved id =>
    simp only [RegistryServer.step] at hstep
    split at hstep
    · rename_i handle hget
      cases hstep
      exact (h.revokeTo hcb (waitingIn_of_get? hget)
        ((HandleRegistry.removes_adminDrop _ _).consistent h.consistent)
        (keys_perm_adminDrop h.consistent _)).mono hsub
    · cases hstep
  | adminRevoke id handle =>
    simp only [RegistryServer.step] at hstep
    split at hstep
    · cases hstep
    · rename_i hid
      cases hstep
      exact (h.revokeTo hcb (by rw [Dict.erase_of_not_mem hid])
        ((HandleRegistry.removes_adminDrop _ _).consistent h.consistent)
        (keys_perm_adminDrop h.consistent _)).mono hsub
  | revokePrincipal id principal tenant =>
    simp only [RegistryServer.step] at hstep
    split at hstep
    · cases hstep
    · rename_i hid
      cases hstep
      exact (h.revokeTo hcb (by rw [Dict.erase_of_not_mem hid])
        ((HandleRegistry.removes_dropPrincipal _ _ _).consistent h.consistent)
        (keys_perm_dropPrincipal h.consistent _ _)).mono hsub
  | callback id => exact (h.callback hstep).mono hsub

theorem run (hcb : cfg.onRevoke.isSome = true) (hd : (drawnHandles events).Nodup)
    (h : Run.exec (RegistryServer.step cfg) RegistryServer.init events = some σ) :
    Ledger (drawnHandles events) σ := by
  refine Run.exec_history (RegistryServer.step cfg) (fun events => (drawnHandles events).Nodup)
    (P := fun events σ => Ledger (drawnHandles events) σ) ?_ Ledger.init ?_ events σ hd h
  · intro events e hd
    exact hd.sublist ((List.sublist_append_left events [e]).filterMap _)
  · intro events e σ σ' h hd hstep
    exact h.step hcb hd hstep

end Ledger

/-! ## Exactly once, and final -/

section Final

variable [LE τ] [DecidableLE τ] [LT τ] [DecidableLT τ] [Add τ] [Zero τ] [One τ]
  {cfg : HandleConfig τ}

/-- Callbacks alone, raising or not, bring every loop of `_notify` to its end. -/
theorem callbacks_finish (hcb : cfg.onRevoke.isSome = true) (σ : RegistryServer τ) :
    ∃ (ids : List Nat) (σ' : RegistryServer τ),
      Run.exec (RegistryServer.step cfg) σ (ids.map .callback) = some σ' ∧
      waitingIn σ'.calls = [] := by
  generalize hn : (waitingIn σ.calls).length = n
  induction n using Nat.strong_induction_on generalizing σ with
  | _ n ih =>
    by_cases hw : waitingIn σ.calls = []
    · exact ⟨[], σ, rfl, hw⟩
    · obtain ⟨id, σ₁, hstep⟩ := RegistryServer.callback_isSome hcb hw
      obtain ⟨r, lost, calls, obs, hperm, -, rfl, -⟩ := RegistryServer.callback_cases hstep
      have hlen := hperm.length_eq
      rw [List.length_cons, List.length_append] at hlen
      have hless : (waitingIn calls).length < n := by omega
      obtain ⟨ids, σ', hexec, hdone⟩ := ih _ hless ({ σ with calls }.observe (.notified r :: obs)) rfl
      refine ⟨id :: ids, σ', ?_, hdone⟩
      rw [List.map_cons, Run.exec_cons]
      show (σ.callback cfg id).bind _ = _
      rw [hstep]
      exact hexec

/-- A step abandons records if and only if its callback escapes before the last turn of a loop. -/
theorem abandonedIn_step {σ σ' : RegistryServer τ} {e : RegistryEvent τ}
    (hstep : σ.step cfg e = some σ') :
    abandonedIn σ'.log = [] ↔ abandonedIn σ.log = [] ∧ RegistryServer.NoEscape cfg σ e := by
  cases e with
  | callback id =>
    obtain ⟨r, lost, calls, obs, -, hend, rfl, hno⟩ := RegistryServer.callback_cases hstep
    have hobs : abandonedIn (.notified r :: obs) = lost.map (·.handle) := by
      cases hend <;> simp [abandonedIn]
    rw [hno, RegistryServer.observe, abandonedIn_append, hobs, List.append_eq_nil_iff,
      List.map_eq_nil_iff]
  | mint principal tenant kind ttl handle now =>
    simp only [RegistryServer.step] at hstep
    split at hstep <;> cases hstep <;>
      simp [RegistryServer.observe, RegistryServer.sweepTo, RegistryServer.NoEscape, abandonedIn]
  | resolve handle principal tenant kind now =>
    simp only [RegistryServer.step] at hstep
    split at hstep <;> cases hstep <;>
      simp [RegistryServer.observe, RegistryServer.sweepTo, RegistryServer.NoEscape, abandonedIn]
  | listForPrincipal principal tenant now =>
    cases hstep
    simp [RegistryServer.sweepTo, RegistryServer.NoEscape]
  | revoke id handle principal tenant now =>
    simp only [RegistryServer.step] at hstep
    split at hstep
    · cases hstep
    · split at hstep <;> cases hstep <;>
        simp [RegistryServer.observe, RegistryServer.sweepTo, RegistryServer.NoEscape, abandonedIn]
  | removeResolved id =>
    simp only [RegistryServer.step] at hstep
    split at hstep <;> cases hstep
    simp [RegistryServer.revokeTo, RegistryServer.NoEscape]
  | adminRevoke id handle =>
    simp only [RegistryServer.step] at hstep
    split at hstep <;> cases hstep
    simp [RegistryServer.revokeTo, RegistryServer.NoEscape]
  | revokePrincipal id principal tenant =>
    simp only [RegistryServer.step] at hstep
    split at hstep <;> cases hstep
    simp [RegistryServer.revokeTo, RegistryServer.NoEscape]

theorem along_noEscape_iff {events : List (RegistryEvent τ)} {σ : RegistryServer τ}
    (h : Run.exec (RegistryServer.step cfg) RegistryServer.init events = some σ) :
    Run.Along (RegistryServer.step cfg) (RegistryServer.NoEscape cfg) RegistryServer.init events ↔
      abandonedIn σ.log = [] := by
  induction events using List.reverseRecOn generalizing σ with
  | nil =>
    cases h
    exact iff_of_true trivial rfl
  | append_singleton events e ih =>
    rw [Run.exec_append] at h
    obtain ⟨σ₁, hσ₁, h⟩ := Option.bind_eq_some_iff.mp h
    rw [Run.exec_cons] at h
    obtain ⟨σ₂, hstep, h⟩ := Option.bind_eq_some_iff.mp h
    cases h
    rw [Run.along_concat hσ₁, ih hσ₁, abandonedIn_step hstep]

/-- In every run: no handle is notified twice, only a revoked one is, and an expired one never; no
`resolve` returns a record after it was removed; the loops can be run to their ends. Each revoked
handle is notified exactly once if and only if no callback escapes that more are to follow. -/
theorem revocation_exactly_once_iff (cfg : HandleConfig τ) (hcb : cfg.onRevoke.isSome = true)
    {events : List (RegistryEvent τ)} (hd : (drawnHandles events).Nodup) {σ : RegistryServer τ}
    (h : Run.exec (RegistryServer.step cfg) RegistryServer.init events = some σ) :
    (∀ k, (notifiedIn σ.log).count k ≤ 1) ∧
    (∀ k ∈ notifiedIn σ.log, k ∈ mintedIn σ.log ∧ k ∈ revokedIn σ.log) ∧
    (∀ k ∈ expiredIn σ.log, k ∉ notifiedIn σ.log) ∧
    FinalRemovals σ.log ∧
    (∃ (ids : List Nat) (σ' : RegistryServer τ),
      Run.exec (RegistryServer.step cfg) σ (ids.map .callback) = some σ' ∧
      waitingIn σ'.calls = []) ∧
    (EachNotifiedOnce σ ↔
      Run.Along (RegistryServer.step cfg) (RegistryServer.NoEscape cfg) .init events) := by
  have hl := Ledger.run hcb hd h
  refine ⟨fun k => ?_, fun k hk => ?_, fun k hk hn => ?_, hl.final, callbacks_finish hcb σ, ?_⟩
  · have := List.nodup_iff_count_le_one.mp hl.nodup_revoked k
    have := hl.count_notices k
    omega
  · exact ⟨hl.mem_minted (hl.mem_revoked hk), hl.mem_revoked hk⟩
  · exact hl.not_revoked_of_expired hk (hl.mem_revoked hn)
  · rw [hl.eachNotifiedOnce_iff, along_noEscape_iff h]

/-- Two handles of one principal: a bulk revocation takes both from under a `revoke` that had
resolved one of them, and the first callback raises. -/
theorem revocation_exactly_once_race :
    let cfg : HandleConfig Int := { smallConfig with
      onRevoke := some fun r => if r.kind = lit "a" then .raises else .returns }
    let events := [
      RegistryEvent.mint (lit "ann") (lit "acme") (lit "a") 10 (tokenOf 65) 0,
      .mint (lit "ann") (lit "acme") (lit "b") 10 (tokenOf 66) 0,
      .revoke 1 (some (tokenOf 66).val) (lit "ann") (lit "acme") 1,
      .revokePrincipal 2 (lit "ann") none, .removeResolved 1, .callback 2, .callback 2]
    ∃ σ, Run.exec (RegistryServer.step cfg) RegistryServer.init events = some σ ∧
      revokedIn σ.log = [(tokenOf 65).val, (tokenOf 66).val] ∧
      (∀ k, (notifiedIn σ.log).count k ≤ 1) ∧ EachNotifiedOnce σ := by
  intro cfg events
  have hrun : (Run.exec (RegistryServer.step cfg) RegistryServer.init events).isSome := by decide
  have hlog : (Run.exec (RegistryServer.step cfg) RegistryServer.init events).map
      (revokedIn ·.log) = some [(tokenOf 65).val, (tokenOf 66).val] := by decide
  have hno : Run.Along (RegistryServer.step cfg) (RegistryServer.NoEscape cfg) .init events := by
    decide
  obtain ⟨σ, hσ⟩ := Option.isSome_iff_exists.mp hrun
  rw [hσ] at hlog
  obtain ⟨hcount, -, -, -, -, honce⟩ := revocation_exactly_once_iff cfg rfl (by decide) hσ
  exact ⟨σ, hσ, Option.some.inj hlog, hcount, honce.mpr hno⟩

/-- A bulk revocation of two handles, and a `SystemExit` from the first callback: the call is over,
and the second handle was not notified. -/
theorem callback_escapes_first :
    let cfg : HandleConfig Int := { smallConfig with
      onRevoke := some fun r => if r.kind = lit "a" then .escapes else .returns }
    let events := [
      RegistryEvent.mint (lit "ann") (lit "acme") (lit "a") 10 (tokenOf 65) 0,
      .mint (lit "ann") (lit "acme") (lit "b") 10 (tokenOf 66) 0,
      .revokePrincipal 1 (lit "ann") none, .callback 1]
    ∃ σ, Run.exec (RegistryServer.step cfg) RegistryServer.init events = some σ ∧
      waitingIn σ.calls = [] ∧ revokedIn σ.log = [(tokenOf 65).val, (tokenOf 66).val] ∧
      notifiedIn σ.log = [(tokenOf 65).val] ∧ ¬EachNotifiedOnce σ := by
  intro cfg events
  have hrun : (Run.exec (RegistryServer.step cfg) RegistryServer.init events).map
      (fun σ => (waitingIn σ.calls, revokedIn σ.log, notifiedIn σ.log)) =
      some ([], [(tokenOf 65).val, (tokenOf 66).val], [(tokenOf 65).val]) := by decide
  obtain ⟨σ, hσ, hlog⟩ := Option.map_eq_some_iff.mp hrun
  obtain ⟨hwaiting, hlog⟩ := Prod.mk.inj hlog
  obtain ⟨hrevoked, hnotified⟩ := Prod.mk.inj hlog
  refine ⟨σ, hσ, hwaiting, hrevoked, hnotified, fun honce => ?_⟩
  have hsecond := honce (tokenOf 66).val (by rw [hrevoked]; decide)
  rw [hnotified, hwaiting] at hsecond
  revert hsecond
  decide

end Final

end CosaiMcp.Middleware.State
