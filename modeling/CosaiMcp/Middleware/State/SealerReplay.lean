import CosaiMcp.Middleware.State.ReplaySpec
import CosaiMcp.Middleware.State.SealerSpec

/-!
# Single use of sealed state

Any number of concurrent calls of `open` on one sealer with `single_use` and no `spent_store`. A call
takes two steps: the clock reading with the claim checks, and later the block under the lock, which
still goes by that reading. Nothing orders the steps of different calls.

A token can be opened twice (`opened_twice`): a call that has passed its checks waits, another call
with a later reading purges the entry of the same `jti`, and the first call finds none. Without such
an overtaking no token is opened twice (`opens_at_most_once`).
-/

namespace CosaiMcp.Middleware.State

open Py

/-- A call of `open` between its two steps. -/
structure OpenCall (φ : Type) where
  token : Option Str
  ticket : Ticket φ
  payload : List (Str × Json φ)

/-- A call of `open` that returned. -/
structure Returned (φ : Type) where
  token : Option Str
  jti : Option Str
  payload : List (Str × Json φ)

/-- The last clock reading, the replay cache, the calls under way by their number, and the calls
that returned. -/
structure OpenServer (φ : Type) where
  clock : φ
  cache : ReplayCache φ
  calls : Dict Nat (OpenCall φ)
  returned : List (Returned φ)

inductive OpenEvent (φ : Type) where
  | check (id : Nat) (a : OpenArgs) (now : φ)
  | redeem (id : Nat)

namespace OpenServer

variable {φ : Type} [PyFloat φ]

def init (start : φ) : OpenServer φ := ⟨start, .init, .empty, []⟩

/-- The block under the lock of a call that passed its checks. -/
def redeem (σ : OpenServer φ) (id : Nat) : Option (OpenServer φ) :=
  match σ.calls.get? id with
  | none => none
  | some q =>
    match σ.cache.redeem q.ticket with
    | (.error _, cache) => some { σ with cache, calls := σ.calls.erase id }
    | (.ok (), cache) => some { σ with
        cache
        calls := σ.calls.erase id
        returned := σ.returned ++ [⟨q.token, some q.ticket.jti, q.payload⟩] }

/-- One step. The clock does not go backwards, and a call's number must not be in use. -/
def step (C : Crypto) (S : RequestStateSealer) (σ : OpenServer φ) :
    OpenEvent φ → Option (OpenServer φ)
  | .check id a now =>
    if id ∈ σ.calls.keys ∨ ¬σ.clock ≤ now then none
    else
      match S.openChecks C a now with
      | .error _ => some { σ with clock := now }
      | .ok o =>
        match o.jti with
        | none => some { σ with
            clock := now
            returned := σ.returned ++ [⟨a.token, none, o.payload⟩] }
        | some jti => some { σ with
            clock := now
            calls := σ.calls.set id
              ⟨a.token, ⟨jti, o.exp, (a.principal, a.tenant), now⟩, o.payload⟩ }
  | .redeem id => σ.redeem id

/-- No block purges the entry of a `jti` that some call under way has passed its checks with. -/
def NoOvertaking (σ : OpenServer φ) : OpenEvent φ → Prop
  | .check _ _ _ => True
  | .redeem id => ∀ q ∈ σ.calls.get? id, ∀ q' ∈ σ.calls.values,
      q'.ticket.exp.le q.ticket.now = true → q'.ticket.jti ∉ σ.cache.spent.keys

instance : ∀ (σ : OpenServer φ) (e : OpenEvent φ), Decidable (NoOvertaking σ e)
  | _, .check _ _ _ => isTrue trivial
  | σ, .redeem id => inferInstanceAs (Decidable (∀ q ∈ σ.calls.get? id, _))

/-- The two steps of one call with no other step between them are `open`. -/
theorem exec_check_redeem {C : Crypto} {S : RequestStateSealer} {σ : OpenServer φ} {id : Nat}
    {a : OpenArgs} {now : φ} {o : Opened φ} {jti : Str} (hid : id ∉ σ.calls.keys)
    (hnow : σ.clock ≤ now) (ho : S.openChecks C a now = .ok o) (hjti : o.jti = some jti) :
    Run.exec (step C S) σ [.check id a now, .redeem id] = some
      { clock := now
        cache := (S.openToken C none σ.cache a now).2
        calls := σ.calls
        returned := σ.returned ++ match (S.openToken C none σ.cache a now).1 with
          | .ok payload => [⟨a.token, some jti, payload⟩]
          | .error _ => [] } := by
  have hen : ¬(id ∈ σ.calls.keys ∨ ¬σ.clock ≤ now) := not_or.mpr ⟨hid, not_not.mpr hnow⟩
  have herase : ∀ q, (σ.calls.set id q).erase id = σ.calls := fun q => by
    rw [Dict.erase_set, Dict.erase_of_not_mem hid]
  rw [Run.exec_cons, step, if_neg hen]
  simp only [ho, hjti, Option.bind_some, Run.exec_cons, step, redeem, Dict.get?_set, ↓reduceIte,
    RequestStateSealer.openToken, herase]
  rcases σ.cache.redeem ⟨jti, o.exp, (a.principal, a.tenant), now⟩ with ⟨_ | _, cache⟩
  · simp only [Option.bind_some, Run.exec_nil, List.append_nil]
  · simp only [Option.bind_some, Run.exec_nil]

/-! ## The invariant -/

section Invariant

variable (C : Crypto) (S : RequestStateSealer) (expiryOf : Str → φ)

/-- What passes the checks of `S` expires when its `jti` says. -/
def Dated : Prop := ∀ a now (o : Opened φ) jti, S.openChecks C a now = .ok o → o.jti = some jti →
  o.exp = .float (.real (expiryOf jti)) ∧ now < expiryOf jti

/-- The `jti` sealed in a token. -/
def jtiOf (token : Option Str) : Option Str :=
  (S.readToken C token : Option (Json φ)).bind fun claims => (requireJti claims).toOption

/-- No call can be let through with this `jti` any more: it is in the cache, or it has expired and
no call that passed its checks with it is under way. -/
def Used (σ : OpenServer φ) (jti : Str) : Prop :=
  jti ∈ σ.cache.spent.keys ∨
    expiryOf jti ≤ σ.clock ∧ ∀ q ∈ σ.calls.values, q.ticket.jti ≠ jti

structure Genuine (q : OpenCall φ) : Prop where
  token : jtiOf (φ := φ) C S q.token = some q.ticket.jti
  exp : q.ticket.exp = .float (.real (expiryOf q.ticket.jti))

structure SingleUse (σ : OpenServer φ) : Prop where
  genuine : ∀ q ∈ σ.calls.values, Genuine C S expiryOf q
  clock : ∀ q ∈ σ.calls.values, q.ticket.now ≤ σ.clock
  heap : ∀ p ∈ σ.cache.heap, p.1 = .real (expiryOf p.2)
  used : ∀ r ∈ σ.returned, ∃ jti, r.jti = some jti ∧ jtiOf (φ := φ) C S r.token = some jti ∧
    Used expiryOf σ jti
  distinct : (σ.returned.map (·.jti)).Nodup

variable {C S expiryOf}

theorem singleUse_init (start : φ) : SingleUse C S expiryOf (init start) where
  genuine := by intro q hq; cases hq
  clock := by intro q hq; cases hq
  heap := by intro p hp; cases hp
  used := by intro r hr; cases hr
  distinct := List.nodup_nil

/-- A later clock and fewer calls under way leave a used `jti` used. -/
theorem Used.mono {σ σ' : OpenServer φ} {jti : Str} (h : Used expiryOf σ jti)
    (hspent : σ.cache.spent.keys ⊆ σ'.cache.spent.keys) (hclock : σ.clock ≤ σ'.clock)
    (hcalls : ∀ q ∈ σ'.calls.values, q ∈ σ.calls.values) : Used expiryOf σ' jti := by
  rcases h with h | ⟨hle, hne⟩
  · exact .inl (hspent h)
  · exact .inr ⟨hle.trans hclock, fun q hq => hne q (hcalls q hq)⟩

theorem jtiOf_of_openChecks {a : OpenArgs} {now : φ} {o : Opened φ} {jti : Str}
    (h : S.openChecks C a now = .ok o) (hjti : o.jti = some jti) :
    jtiOf (φ := φ) C S a.token = some jti := by
  obtain ⟨claims, hread, -, hj⟩ := openChecks_eq_ok_iff.mp h
  split at hj
  · obtain ⟨j, hj, hoj⟩ := hj
    obtain rfl : j = jti := Option.some.inj (hoj.symm.trans hjti)
    simp only [jtiOf, hread, Option.bind_some, hj]
    rfl
  · rw [hj] at hjti; cases hjti

/-- A clock reading. -/
theorem SingleUse.tick {σ : OpenServer φ} (hσ : SingleUse C S expiryOf σ) {now : φ}
    (hnow : σ.clock ≤ now) : SingleUse C S expiryOf { σ with clock := now } where
  genuine := hσ.genuine
  clock q hq := (hσ.clock q hq).trans hnow
  heap := hσ.heap
  used r hr := by
    obtain ⟨jti, hr, htoken, hused⟩ := hσ.used r hr
    exact ⟨jti, hr, htoken, hused.mono (List.Subset.refl _) hnow fun _ h => h⟩
  distinct := hσ.distinct

/-- A call passes its checks before its token expires, so with no `jti` that has left the cache. -/
theorem SingleUse.begin {σ : OpenServer φ} (hσ : SingleUse C S expiryOf σ) {q : OpenCall φ}
    (hq : Genuine C S expiryOf q) (hnow : q.ticket.now = σ.clock)
    (hexp : σ.clock < expiryOf q.ticket.jti) (id : Nat) :
    SingleUse C S expiryOf { σ with calls := σ.calls.set id q } where
  genuine q' hq' := by
    rcases Dict.mem_values_of_set hq' with rfl | hq'
    · exact hq
    · exact hσ.genuine q' hq'
  clock q' hq' := by
    rcases Dict.mem_values_of_set hq' with rfl | hq'
    · exact le_of_eq hnow
    · exact hσ.clock q' hq'
  heap := hσ.heap
  used r hr := by
    obtain ⟨jti, hr, htoken, hused⟩ := hσ.used r hr
    refine ⟨jti, hr, htoken, ?_⟩
    rcases hused with hspent | ⟨hle, hne⟩
    · exact .inl hspent
    · refine .inr ⟨hle, fun q' hq' => ?_⟩
      rcases Dict.mem_values_of_set hq' with rfl | hq'
      · rintro rfl
        exact PyFloat.not_le.mpr hexp hle
      · exact hne q' hq'
  distinct := hσ.distinct

/-- The purge of a block. A `jti` that it takes out of the cache has expired by the clock, and
without overtaking no call with it is under way. -/
theorem SingleUse.purge {σ : OpenServer φ} (hσ : SingleUse C S expiryOf σ) {q : OpenCall φ}
    (hq : q ∈ σ.calls.values) (hno : ∀ q' ∈ σ.calls.values,
      q'.ticket.exp.le q.ticket.now = true → q'.ticket.jti ∉ σ.cache.spent.keys) :
    SingleUse C S expiryOf { σ with cache := σ.cache.purge q.ticket.now } := by
  obtain ⟨popped, hperm, hle, hspent⟩ := σ.cache.purge_spec q.ticket.now
  refine ⟨hσ.genuine, hσ.clock, fun p hp => ?_, fun r hr => ?_, hσ.distinct⟩
  · exact hσ.heap p (hperm.mem_iff.mpr (List.mem_append_right popped hp))
  · obtain ⟨jti, hr, htoken, hused⟩ := hσ.used r hr
    refine ⟨jti, hr, htoken, ?_⟩
    rcases hused with hin | hgone
    · by_cases hpop : jti ∈ popped.map Prod.snd
      · obtain ⟨p, hp, rfl⟩ := List.mem_map.mp hpop
        have hexp := hσ.heap p (hperm.mem_iff.mpr (List.mem_append_left _ hp))
        have hdue : expiryOf p.2 ≤ q.ticket.now := by
          have := hle p hp
          rw [hexp] at this
          simpa [FloatOrNan.le] using this
        refine .inr ⟨hdue.trans (hσ.clock q hq), fun q' hq' heq => ?_⟩
        refine hno q' hq' ?_ (heq ▸ hin)
        rw [(hσ.genuine q' hq').exp, heq]
        simpa [Num.le, FloatOrNan.le] using hdue
      · obtain ⟨owner, howner⟩ := Dict.mem_keys_iff.mp hin
        refine .inl (Dict.mem_keys_of_get? (v := owner) ?_)
        rw [hspent, if_neg hpop]
        exact Dict.get?_eq_some_iff.mpr howner
    · exact .inr hgone

/-- A call under way is done, and has returned nothing. -/
theorem SingleUse.finish {σ : OpenServer φ} (hσ : SingleUse C S expiryOf σ) (id : Nat) :
    SingleUse C S expiryOf { σ with calls := σ.calls.erase id } where
  genuine q hq := hσ.genuine q (Dict.mem_values_of_erase hq)
  clock q hq := hσ.clock q (Dict.mem_values_of_erase hq)
  heap := hσ.heap
  used r hr := by
    obtain ⟨jti, hr, htoken, hused⟩ := hσ.used r hr
    exact ⟨jti, hr, htoken,
      hused.mono (List.Subset.refl _) (le_refl _) fun _ => Dict.mem_values_of_erase⟩
  distinct := hσ.distinct

/-- The entry of a call that goes through: its `jti` was not used before. -/
theorem SingleUse.accept {σ : OpenServer φ} (hσ : SingleUse C S expiryOf σ) {q : OpenCall φ}
    (hq : q ∈ σ.calls.values) (hfresh : q.ticket.jti ∉ σ.cache.spent.keys) {cache : ReplayCache φ}
    (hheap : cache.heap.Perm ((.real (expiryOf q.ticket.jti), q.ticket.jti) :: σ.cache.heap))
    (hspent : cache.spent = σ.cache.spent.set q.ticket.jti q.ticket.owner) :
    SingleUse C S expiryOf { σ with
      cache
      returned := σ.returned ++ [⟨q.token, some q.ticket.jti, q.payload⟩] } := by
  have hkeys : ∀ j, j = q.ticket.jti ∨ j ∈ σ.cache.spent.keys → j ∈ cache.spent.keys := by
    intro j hj
    rw [hspent]
    exact Dict.mem_keys_set.mpr hj
  refine ⟨hσ.genuine, hσ.clock, fun p hp => ?_, fun r hr => ?_, ?_⟩
  · rcases List.mem_cons.mp (hheap.mem_iff.mp hp) with rfl | hp
    · rfl
    · exact hσ.heap p hp
  · rcases List.mem_append.mp hr with hr | hr
    · obtain ⟨jti, hr, htoken, hused⟩ := hσ.used r hr
      exact ⟨jti, hr, htoken,
        hused.mono (fun j hj => hkeys j (.inr hj)) (le_refl _) fun _ h => h⟩
    · obtain rfl := List.mem_singleton.mp hr
      exact ⟨_, rfl, (hσ.genuine q hq).token, .inl (hkeys _ (.inl rfl))⟩
  · rw [List.map_append, List.nodup_append]
    refine ⟨hσ.distinct, List.nodup_singleton _, ?_⟩
    rintro j hj _ hj' rfl
    obtain ⟨r, hr, rfl⟩ := List.mem_map.mp hj
    obtain ⟨jti, hrj, -, hused⟩ := hσ.used r hr
    rw [List.map_singleton, List.mem_singleton, hrj] at hj'
    obtain rfl := Option.some.inj hj'
    rcases hused with hin | ⟨-, hne⟩
    · exact hfresh hin
    · exact hne q hq rfl

/-- The block under the lock keeps the invariant if it overtakes no call. -/
theorem SingleUse.redeem {σ σ' : OpenServer φ} (hσ : SingleUse C S expiryOf σ) {id : Nat}
    (hno : NoOvertaking σ (.redeem id)) (h : σ.redeem id = some σ') :
    SingleUse C S expiryOf σ' := by
  unfold OpenServer.redeem at h
  split at h
  · cases h
  · rename_i q hget
    have hq : q ∈ σ.calls.values := Dict.mem_values_of_get? hget
    have hexp : q.ticket.exp.toFloat? = some (.real (expiryOf q.ticket.jti)) := by
      rw [(hσ.genuine q hq).exp]; rfl
    have hpurged := hσ.purge hq (hno q hget)
    split at h
    · rename_i e cache hredeem
      cases h
      rcases ReplayCache.redeem_eq_error hredeem with rfl | hnone
      · exact hpurged.finish id
      · rw [hexp] at hnone; cases hnone
    · rename_i cache hredeem
      cases h
      obtain ⟨hfresh, exp, hexp', hheap, hspent⟩ := ReplayCache.redeem_eq_ok hredeem
      rw [hexp] at hexp'
      cases hexp'
      exact (hpurged.accept hq hfresh hheap hspent).finish id

/-- Every step that overtakes no call keeps the invariant. -/
theorem SingleUse.step {σ σ' : OpenServer φ} (hdated : Dated C S expiryOf)
    (hsingle : S.singleUse = true) (hσ : SingleUse C S expiryOf σ) {e : OpenEvent φ}
    (hno : NoOvertaking σ e) (h : σ.step C S e = some σ') : SingleUse C S expiryOf σ' := by
  cases e with
  | redeem id => exact hσ.redeem hno h
  | check id a now =>
    simp only [OpenServer.step] at h
    split at h
    · cases h
    · rename_i hen
      have hnow : σ.clock ≤ now := not_not.mp (not_or.mp hen).2
      split at h
      · cases h; exact hσ.tick hnow
      · rename_i o ho
        split at h
        · rename_i hnone
          obtain ⟨claims, -, -, hj⟩ := openChecks_eq_ok_iff.mp ho
          rw [if_pos hsingle, hnone] at hj
          obtain ⟨_, -, hj⟩ := hj
          cases hj
        · rename_i jti hjti
          cases h
          obtain ⟨hexp, hlt⟩ := hdated a now o jti ho hjti
          exact (hσ.tick hnow).begin ⟨jtiOf_of_openChecks ho hjti, hexp⟩ rfl hlt id

/-- A token has one `jti`, so calls with different ones had different tokens. -/
theorem SingleUse.tokens_nodup {σ : OpenServer φ} (hσ : SingleUse C S expiryOf σ) :
    (σ.returned.map (·.token)).Nodup := by
  have hjti : σ.returned.map (·.jti) =
      (σ.returned.map (·.token)).map (jtiOf (φ := φ) C S) := by
    rw [List.map_map]
    refine List.map_congr_left fun r hr => ?_
    obtain ⟨jti, hr, htoken, -⟩ := hσ.used r hr
    exact hr.trans htoken.symm
  exact List.Nodup.of_map _ (hjti ▸ hσ.distinct)

end Invariant

end OpenServer

/-! ## Single use -/

section Family

variable {φ ι : Type} [PyFloat φ] [DecidableEq ι] {C : Crypto} {family : ι → RequestStateSealer}
  {seals : ι → Dict Str Int} {calls : List (ι × SealCall φ)} {S : RequestStateSealer}

/-- With distinct `jti`s, the `jti` of what passes the checks tells its expiry. -/
theorem exists_dated
    (hideal : C.Ideal (encryptions (Run.trace (sealStep C family) seals calls)))
    (hjti : (calls.map fun call => call.2.jti.val).Nodup) (start : φ) :
    ∃ expiryOf : Str → φ, OpenServer.Dated C S expiryOf := by
  refine ⟨fun jti => ((calls.find? fun call => call.2.jti.val = jti).map
    fun call => call.2.expiry ((family call.1).ttl call.2)).getD start, fun a now o jti ho hj => ?_⟩
  obtain ⟨claims, hread, hclaims, hreq⟩ := openChecks_eq_ok_iff.mp ho
  obtain ⟨i, c, r, e, hmem, -, -, rfl⟩ := readToken_eq_some hideal hread
  obtain ⟨hexp, hnow, -⟩ := checkClaims_reloaded_iff.mp hclaims
  split at hreq
  · obtain ⟨j, hreq, hoj⟩ := hreq
    rw [requireJti_reloaded] at hreq
    obtain rfl : c.jti.val = j := Except.ok.inj hreq
    obtain rfl : c.jti.val = jti := Option.some.inj (hoj.symm.trans hj)
    have hcall : (i, c) ∈ calls := (Run.mem_trace _ hmem).1
    have hfind : (calls.find? fun call => call.2.jti.val = c.jti.val) = some (i, c) := by
      cases hf : calls.find? fun call => call.2.jti.val = c.jti.val with
      | none => simpa using List.find?_eq_none.mp hf (i, c) hcall
      | some call =>
        have hval : call.2.jti.val = c.jti.val := by simpa using List.find?_some hf
        rw [List.inj_on_of_nodup_map hjti (List.mem_of_find?_eq_some hf) hcall hval]
    simp only [hfind, Option.map_some, Option.getD_some]
    exact ⟨hexp, hnow⟩
  · rw [hreq] at hj; cases hj

/-- In a run without overtaking, no token is opened twice, and neither are two texts of one token:
the `jti`s that were let through are distinct. -/
theorem opens_at_most_once
    (hideal : C.Ideal (encryptions (Run.trace (sealStep C family) seals calls)))
    (hjti : (calls.map fun call => call.2.jti.val).Nodup) (hsingle : S.singleUse = true)
    {start : φ} {events : List (OpenEvent φ)} {σ : OpenServer φ}
    (hrun : Run.exec (OpenServer.step C S) (.init start) events = some σ)
    (halong : Run.Along (OpenServer.step C S) OpenServer.NoOvertaking (.init start) events) :
    (σ.returned.map (·.token)).Nodup ∧ (σ.returned.map (·.jti)).Nodup := by
  obtain ⟨expiryOf, hdated⟩ := exists_dated (S := S) hideal hjti start
  have hσ : OpenServer.SingleUse C S expiryOf σ :=
    Run.exec_invariant_along (fun _ _ _ hs hno h => hs.step hdated hsingle hno h)
      (OpenServer.singleUse_init start) halong hrun
  exact ⟨hσ.tokens_nodup, hσ.distinct⟩

end Family

/-! ## Two seals of one sealer -/

section Sample

/-- Two seals at time zero: the first lives for 10 seconds, the second for 100. -/
def twoSeals : List (Unit × SealCall WholeFloat) :=
  [((), sampleSeal 1 (lit "one") 10), ((), sampleSeal 2 (lit "two") 100)]

def twoSealsCipher : Crypto := .ofRun (fun _ => sampleSealer) (fun _ => .empty) twoSeals

/-- What the owner of the two seals passes to `open` for the token of `c`. -/
def openArgsOf (c : SealCall WholeFloat) : OpenArgs where
  token := (sampleSealer.sealState twoSealsCipher .empty c).1.toOption
  principal := c.principal
  requestId := c.requestId
  tenant := c.tenant

def openFirst : OpenArgs := openArgsOf (sampleSeal 1 (lit "one") 10)

def openSecond : OpenArgs := openArgsOf (sampleSeal 2 (lit "two") 100)

def runOpens (events : List (OpenEvent WholeFloat)) : Option (OpenServer WholeFloat) :=
  Run.exec (OpenServer.step twoSealsCipher sampleSealer) (.init (.whole 0)) events

/-- One token is presented twice, one call after the other. -/
def presentedTwice : List (OpenEvent WholeFloat) :=
  [.check 0 openFirst (.whole 5), .redeem 0, .check 1 openFirst (.whole 6), .redeem 1]

theorem opens_at_most_once_presented_twice :
    ∃ σ, runOpens presentedTwice = some σ ∧ (σ.returned.map (·.token)).Nodup ∧
      (σ.returned.map (·.jti)).Nodup := by
  obtain ⟨σ, hrun⟩ : ∃ σ, runOpens presentedTwice = some σ :=
    Option.isSome_iff_exists.mp (by decide +kernel)
  exact ⟨σ, hrun, opens_at_most_once (Crypto.ofRun_ideal _ _ _) (by decide +kernel) rfl hrun
    (by decide +kernel)⟩

/-- The second call for the first token has passed its checks when a call for the second token, at a
time past the expiry of the first, purges the cache. -/
def overtaken : List (OpenEvent WholeFloat) :=
  [.check 0 openFirst (.whole 5), .redeem 0, .check 1 openFirst (.whole 6),
    .check 2 openSecond (.whole 11), .redeem 2, .redeem 1]

/-- One token is opened twice. -/
theorem opened_twice :
    twoSealsCipher.Ideal (encryptions (Run.trace
      (sealStep twoSealsCipher fun _ => sampleSealer) (fun _ => .empty) twoSeals)) ∧
    (twoSeals.map fun call => call.2.jti.val).Nodup ∧ sampleSealer.singleUse = true ∧
    ∃ σ, runOpens overtaken = some σ ∧
      σ.returned.map (·.token) = [openFirst.token, openSecond.token, openFirst.token] ∧
      ¬(σ.returned.map (·.token)).Nodup := by
  obtain ⟨σ, hrun⟩ : ∃ σ, runOpens overtaken = some σ :=
    Option.isSome_iff_exists.mp (by decide +kernel)
  have htokens : (runOpens overtaken).map (fun σ => σ.returned.map (·.token)) =
      some [openFirst.token, openSecond.token, openFirst.token] := by
    decide +kernel
  rw [hrun] at htokens
  have htokens : σ.returned.map (·.token) =
      [openFirst.token, openSecond.token, openFirst.token] := Option.some.inj htokens
  refine ⟨Crypto.ofRun_ideal _ _ _, by decide +kernel, rfl, σ, hrun, htokens, ?_⟩
  rw [htokens]
  simp

end Sample

end CosaiMcp.Middleware.State
