import CosaiMcp.Middleware.State.HandleAccounting
import Mathlib.Order.Defs.LinearOrder

/-!
# The registry refines one with eager expiry

`Reference` is the registry one would write without care for its running time: a list of records
from which every operation first removes all the expired ones, and whose capacity checks count.
Under a clock that never goes back, the registry with its once-a-second sweep and its counters gives
the same answers to everything but `admin_revoke` and `revoke_principal`, which may still meet an
expired record (`trace_eq_reference`).

`resolve` succeeds exactly for the owner of a handle that was minted, not revoked and not expired
(`Authorized`), except that a lone surrogate in the owner's name makes `_eq` raise
(`registry_refines`).
-/

namespace CosaiMcp.Middleware.State

open Py

variable {τ : Type}

/-- The calls whose answers depend on unexpired records only. -/
def HandleOp.readsLive : HandleOp τ → Bool
  | .adminRevoke _ | .revokePrincipal _ _ => false
  | _ => true

section Defs

variable [LE τ] [DecidableLE τ]

def unexpired (now : τ) (rs : List (HandleRecord τ)) : List (HandleRecord τ) :=
  rs.filter fun r => !r.expired now

/-! ## The reference registry -/

namespace Reference

def find? (rs : List (HandleRecord τ)) (handle : Str) : Option (HandleRecord τ) :=
  rs.find? (·.handle = handle)

def resolve (rs : List (HandleRecord τ)) (handle : Option Str) (principal tenant : Str)
    (kind : Option Str) : Except ResolveError (HandleRecord τ) :=
  match handle with
  | none => .error .handleError
  | some h =>
    if 256 < h.length then .error .handleError
    else HandleRegistry.authorize (find? rs h) principal tenant kind

def remove (rs : List (HandleRecord τ)) (handle : Str) : List (HandleRecord τ) :=
  rs.filter (·.handle ≠ handle)

variable [LT τ] [DecidableLT τ] [Add τ] [Zero τ] (cfg : HandleConfig τ)

/-- One call on the records that are left once the expired ones are gone. -/
def act (rs : List (HandleRecord τ)) (c : HandleCall τ) :
    HandleResult τ × List (HandleRecord τ) :=
  match c.op with
  | .mint principal tenant kind ttl handle =>
    match (HandleRegistry.mintArgsError cfg principal tenant ttl).or
        (HandleRegistry.verdict cfg rs (principal, tenant)) with
    | some e => (.mintFailed e, rs)
    | none => (.minted handle.val, rs ++
        [{ handle := handle.val, principal, tenant, kind, createdAt := c.now,
           expiresAt := c.now + ttl }])
  | .resolve handle principal tenant kind =>
    match resolve rs handle principal tenant kind with
    | .ok r => (.resolved r, rs)
    | .error e => (.denied e, rs)
  | .revoke handle principal tenant =>
    match resolve rs handle principal tenant none with
    | .ok r => (.revoked [r] (HandleRegistry.notify cfg [r]), remove rs r.handle)
    | .error e => (.denied e, rs)
  | .adminRevoke handle =>
    let removed := (handle.bind (find? rs)).toList
    (.revoked removed (HandleRegistry.notify cfg removed), handle.elim rs (remove rs))
  | .revokePrincipal principal tenant =>
    let doomed := rs.filter (·.belongsTo principal tenant)
    (.revoked doomed (HandleRegistry.notify cfg doomed),
      rs.filter (!·.belongsTo principal tenant))
  | .listForPrincipal principal tenant =>
    (.listed (rs.filter (·.belongsTo principal tenant)), rs)

/-- Every operation starts by removing all the expired records. -/
def step (rs : List (HandleRecord τ)) (c : HandleCall τ) :
    HandleResult τ × List (HandleRecord τ) :=
  act cfg (unexpired c.now rs) c

end Reference

end Defs

/-! ## Simulation -/

section Simulation

variable [LinearOrder τ]

theorem unexpired_unexpired {t t' : τ} (h : t ≤ t') (rs : List (HandleRecord τ)) :
    unexpired t' (unexpired t rs) = unexpired t' rs := by
  unfold unexpired
  rw [List.filter_filter]
  refine List.filter_congr fun r _ => ?_
  by_cases he : r.expiresAt ≤ t
  · have : r.expiresAt ≤ t' := he.trans h
    simp [HandleRecord.expired, he, this]
  · simp [HandleRecord.expired, he]

theorem unexpired_append (t : τ) (rs rs' : List (HandleRecord τ)) :
    unexpired t (rs ++ rs') = unexpired t rs ++ unexpired t rs' := List.filter_append ..

theorem unexpired_filter (t : τ) (rs : List (HandleRecord τ)) (p : HandleRecord τ → Bool) :
    unexpired t (rs.filter p) = (unexpired t rs).filter p := by
  unfold unexpired
  rw [List.filter_filter, List.filter_filter]
  exact List.filter_congr fun _ _ => Bool.and_comm _ _

namespace HandleRegistry

variable {s s' : HandleRegistry τ} {gone : List Str} {now : τ}

theorem live_eq_unexpired (s : HandleRegistry τ) (t : τ) :
    s.live t = unexpired t s.records.values := rfl

theorem Removes.live (h : Removes s s' gone) (hs : s.Consistent) (t : τ) :
    s'.live t = (s.live t).filter fun r => r.handle ∉ gone := by
  rw [live_eq_unexpired, h.values hs, unexpired_filter, live_eq_unexpired]

/-- Removing expired records does not show at any later time. -/
theorem Removes.live_of_expired (h : Removes s s' gone) (hs : s.Consistent)
    (hgone : ∀ k ∈ gone, k ∈ s.expiredHandles now) {t : τ} (ht : now ≤ t) :
    s'.live t = s.live t := by
  rw [h.live hs, List.filter_eq_self]
  intro r hr
  obtain ⟨hmem, hlive⟩ := List.mem_filter.mp hr
  simp only [decide_not, Bool.not_eq_true', decide_eq_false_iff_not]
  intro hin
  obtain ⟨r', hr', he⟩ := mem_expiredHandles.mp (hgone _ hin)
  rw [hs.get?_of_mem hmem] at hr'
  cases hr'
  have hexp : r.expiresAt ≤ t := (of_decide_eq_true he).trans ht
  simp [HandleRecord.expired, hexp] at hlive

theorem Swept.live_of_le (h : Swept now s s') (hs : s.Consistent) {t : τ} (ht : now ≤ t) :
    s'.live t = s.live t := by
  obtain ⟨gone, hg, hexp⟩ := h.removes
  exact hg.live_of_expired hs hexp ht

/-- The critical section of `resolve` finds what a search of the live records finds. -/
theorem lookup_fst_eq_find? (hs : s.Consistent) (h : Str) (now : τ) :
    (s.lookup h now).1 = Reference.find? (s.live now) h := by
  rw [lookup_fst]
  refine Option.ext fun r => ?_
  rw [Option.filter_eq_some_iff]
  constructor
  · rintro ⟨hr, he⟩
    have hmem : r ∈ s.live now := List.mem_filter.mpr ⟨Dict.mem_values_of_get? hr, he⟩
    cases hf : Reference.find? (s.live now) h with
    | none =>
      have := List.find?_eq_none.mp hf r hmem
      simp [hs.get?_handle hr] at this
    | some r' =>
      have hr' : r' ∈ s.live now := List.mem_of_find?_eq_some hf
      have hh : r'.handle = h := by simpa using List.find?_some hf
      have := hs.get?_of_mem (List.mem_filter.mp hr').1
      rw [hh, hr] at this
      exact this.symm
  · intro hf
    have hr : r ∈ s.live now := List.mem_of_find?_eq_some hf
    have hh : r.handle = h := by simpa using List.find?_some hf
    obtain ⟨hmem, he⟩ := List.mem_filter.mp hr
    exact ⟨hh ▸ hs.get?_of_mem hmem, he⟩

theorem resolve_fst_eq_reference (hs : s.Consistent) (handle : Option Str)
    (principal tenant : Str) (kind : Option Str) (now : τ) :
    (s.resolve handle principal tenant kind now).1 =
      Reference.resolve (s.live now) handle principal tenant kind := by
  cases handle with
  | none => rfl
  | some h =>
    by_cases hl : 256 < h.length
    · simp only [resolve, Reference.resolve, hl, ↓reduceIte]
    · simp only [resolve, Reference.resolve, hl, ↓reduceIte, lookup_fst_eq_find? hs]

theorem resolve_live (hs : s.Consistent) (handle : Option Str) (principal tenant : Str)
    (kind : Option Str) {now t : τ} (ht : now ≤ t) :
    (s.resolve handle principal tenant kind now).2.live t = s.live t := by
  obtain ⟨gone, hg, hexp⟩ := removes_resolve s handle principal tenant kind now
  exact hg.live_of_expired hs hexp ht

/-! ### One call -/

theorem live_adminDrop (hs : s.Consistent) (handle : Option Str) (t : τ) :
    (s.adminDrop handle).2.live t = handle.elim (s.live t) (Reference.remove (s.live t)) := by
  rw [(removes_adminDrop s handle).live hs]
  cases handle with
  | none => simp
  | some h => simp [Reference.remove]

theorem live_dropPrincipal (hs : s.Consistent) (principal : Str) (tenant : Option Str) (t : τ) :
    (s.dropPrincipal principal tenant).2.live t =
      (s.live t).filter (!·.belongsTo principal tenant) := by
  rw [(removes_dropPrincipal s principal tenant).live hs]
  refine List.filter_congr fun r hr => ?_
  have hmem : r ∈ s.records.values := (List.mem_filter.mp hr).1
  have hiff : r.handle ∈ (s.dropPrincipal principal tenant).1.map (·.handle) ↔
      r.belongsTo principal tenant = true := by
    constructor
    · intro hin
      obtain ⟨r', hr', hh⟩ := List.mem_map.mp hin
      obtain ⟨hmem', hb⟩ := mem_dropPrincipal.mp hr'
      have h' := hs.get?_of_mem hmem'
      rw [hh, hs.get?_of_mem hmem] at h'
      exact Option.some.inj h' ▸ hb
    · intro hb
      exact List.mem_map.mpr ⟨r, mem_dropPrincipal.mpr ⟨hmem, hb⟩, rfl⟩
  cases hb : r.belongsTo principal tenant <;> simp [hiff, hb]

variable [Add τ] [Zero τ] [One τ] (cfg : HandleConfig τ)

/-- One call answers as the reference does on the live records, and leaves the live records that the
reference leaves. -/
theorem step_act (hs : s.Consistent) (c : HandleCall τ)
    (hfresh : ∀ r, c.record? = some r → r.handle ∉ s.records.keys) :
    (c.op.readsLive = true →
      (s.step cfg c).1 = (Reference.act cfg (s.live c.now) c).1) ∧
    ∀ t, c.now ≤ t →
      (s.step cfg c).2.live t = unexpired t (Reference.act cfg (s.live c.now) c).2 := by
  obtain ⟨now, op⟩ := c
  have hlive : ∀ t, now ≤ t → unexpired t (s.live now) = s.live t :=
    fun t ht => unexpired_unexpired ht _
  cases op with
  | mint principal tenant kind ttl handle =>
    obtain ⟨s₁, h₁, he, -⟩ := mint_spec cfg hs principal tenant kind ttl handle.val now
    cases hv : (mintArgsError cfg principal tenant ttl).or
        (verdict cfg (s.live now) (principal, tenant)) with
    | some e =>
      rw [hv] at he
      simp only [step, Reference.act, he, hv]
      refine ⟨fun _ => trivial, fun t ht => ?_⟩
      rw [hlive t ht, h₁.live_of_le hs ht]
    | none =>
      rw [hv] at he
      simp only [step, Reference.act, he, hv]
      refine ⟨fun _ => trivial, fun t ht => ?_⟩
      obtain ⟨gone, hg, -⟩ := h₁.removes
      rw [unexpired_append, hlive t ht, ← h₁.live_of_le hs ht, live_eq_unexpired, values_insert,
        unexpired_append, live_eq_unexpired]
      exact fun h => hfresh _ rfl (hg.keys_subset h)
  | resolve handle principal tenant kind =>
    have hfst := resolve_fst_eq_reference hs handle principal tenant kind now
    have hsnd := fun t (ht : now ≤ t) => resolve_live hs handle principal tenant kind ht
    rcases hres : s.resolve handle principal tenant kind now with ⟨res, s'⟩
    rw [hres] at hfst hsnd
    simp only [step, Reference.act, hres, ← hfst]
    cases res <;> exact ⟨fun _ => rfl, fun t ht => by rw [hlive t ht]; exact hsnd t ht⟩
  | revoke handle principal tenant =>
    have hfst := resolve_fst_eq_reference hs handle principal tenant none now
    have hsnd := fun t (ht : now ≤ t) => resolve_live hs handle principal tenant none ht
    obtain ⟨gone, hg, -⟩ := removes_resolve s handle principal tenant none now
    rcases hres : s.resolve handle principal tenant none now with ⟨res, s'⟩
    rw [hres] at hfst hsnd hg
    simp only [step, Reference.act, hres, ← hfst]
    cases res with
    | error e => exact ⟨fun _ => rfl, fun t ht => by rw [hlive t ht]; exact hsnd t ht⟩
    | ok r =>
      -- the record just resolved is still there for the second section
      have hr' := get?_of_resolve hs hres
      refine ⟨fun _ => by simp [adminDrop, hr'], fun t ht => ?_⟩
      rw [live_adminDrop (hg.consistent hs)]
      simp only [Option.elim_some, Reference.remove]
      rw [unexpired_filter, hlive t ht, hsnd t ht]
  | adminRevoke handle =>
    refine ⟨by rintro ⟨⟩, fun t ht => ?_⟩
    simp only [step, Reference.act]
    rw [live_adminDrop hs]
    cases handle with
    | none => exact (hlive t ht).symm
    | some h =>
      simp only [Option.elim_some, Reference.remove]
      rw [unexpired_filter, hlive t ht]
  | revokePrincipal principal tenant =>
    refine ⟨by rintro ⟨⟩, fun t ht => ?_⟩
    simp only [step, Reference.act]
    rw [live_dropPrincipal hs, unexpired_filter, hlive t ht]
  | listForPrincipal principal tenant =>
    have hv := values_purge_force s now
    simp only [step, Reference.act, listForPrincipal, hv]
    refine ⟨fun _ => trivial, fun t ht => ?_⟩
    rw [live_eq_unexpired, hv]

/-! ### A run -/

/-- The answers that depend on live records agree with those of the reference, at every time of a
run whose clock never goes back and whose handles are distinct. -/
theorem trace_eq_reference_from : ∀ {calls : List (HandleCall τ)} {s : HandleRegistry τ}
    {rs : List (HandleRecord τ)}, s.Consistent →
    (calls.Pairwise fun c c' => c.now ≤ c'.now) → (mintHandles calls).Nodup →
    (∀ k ∈ mintHandles calls, k ∉ s.records.keys) →
    (∀ c ∈ calls, ∀ t, c.now ≤ t → s.live t = unexpired t rs) →
    (Run.trace (step cfg) s calls).filter (·.1.op.readsLive) =
      (Run.trace (Reference.step cfg) rs calls).filter (·.1.op.readsLive)
  | [], s, rs, _, _, _, _, _ => rfl
  | c :: calls, s, rs, hs, htime, hd, hfresh, hsim => by
    have hfresh_c : ∀ r, c.record? = some r → r.handle ∉ s.records.keys :=
      fun r hr => hfresh _ (by simp [mintHandles, hr])
    have hact := step_act cfg hs c hfresh_c
    have hnow : s.live c.now = unexpired c.now rs := hsim c List.mem_cons_self c.now le_rfl
    rw [hnow] at hact
    obtain ⟨hc, htail⟩ := List.pairwise_cons.mp htime
    have hd' : (mintHandles calls).Nodup :=
      hd.sublist (List.Sublist.filterMap _ (List.sublist_cons_self c calls))
    have hrec := @trace_eq_reference_from _ _ (Reference.step cfg rs c).2
      (hs.step cfg hfresh_c) htail hd' ?_ ?_
    · rw [Run.trace_cons, Run.trace_cons, List.filter_cons, List.filter_cons, hrec]
      by_cases hb : c.op.readsLive = true
      · have := hact.1 hb
        simp only [hb, ↓reduceIte]
        rw [this]; rfl
      · simp only [hb, Bool.false_eq_true, ↓reduceIte]
    · intro k hk hin
      rcases keys_step cfg hs c hin with h | ⟨r, hr, rfl⟩
      · refine hfresh k ?_ h
        exact (List.Sublist.filterMap _ (List.sublist_cons_self c calls)).subset hk
      · have : (r.handle :: mintHandles calls).Nodup := by simpa [mintHandles, hr] using hd
        exact (List.nodup_cons.mp this).1 hk
    · intro c' hc' t ht
      exact hact.2 t ((hc c' hc').trans ht)

theorem trace_eq_reference {calls : List (HandleCall τ)}
    (htime : calls.Pairwise fun c c' => c.now ≤ c'.now) (hd : (mintHandles calls).Nodup) :
    (Run.trace (step cfg) init calls).filter (·.1.op.readsLive) =
      (Run.trace (Reference.step cfg) [] calls).filter (·.1.op.readsLive) :=
  trace_eq_reference_from cfg Consistent.init htime hd (fun _ _ h => by cases h) fun _ _ _ _ => rfl

/-! ### Who is authorized -/

end HandleRegistry

end Simulation

section Authorized

abbrev HandleTrace (τ : Type) := List (HandleCall τ × HandleResult τ)

/-- The handles that `revoke`, `admin_revoke` and `revoke_principal` removed. -/
def revokedHandles (t : HandleTrace τ) : List Str := t.flatMap (·.2.revokedHandles)

theorem revokedHandles_concat (t : HandleTrace τ) (c : HandleCall τ) (res : HandleResult τ) :
    revokedHandles (t ++ [(c, res)]) = revokedHandles t ++ res.revokedHandles := by
  simp [revokedHandles]

variable [Add τ]

/-- The records of the accepted `mint` calls. -/
def mintedRecords (t : HandleTrace τ) : List (HandleRecord τ) :=
  t.filterMap fun
    | (c, .minted _) => c.record?
    | _ => none

/-- The handle was minted by exactly this owner, is of the kind asked for, was not removed by a
revocation, and is not expired. -/
def Authorized [LT τ] (t : HandleTrace τ) (handle : Option Str) (principal tenant : Str)
    (kind : Option Str) (now : τ) : Prop :=
  ∃ r ∈ mintedRecords t, handle = some r.handle ∧ r.principal = principal ∧ r.tenant = tenant ∧
    kind.all (r.kind == ·) = true ∧ r.handle ∉ revokedHandles t ∧ now < r.expiresAt

instance [LT τ] [DecidableLT τ] (t : HandleTrace τ) (handle : Option Str) (principal tenant : Str)
    (kind : Option Str) (now : τ) : Decidable (Authorized t handle principal tenant kind now) :=
  inferInstanceAs (Decidable (∃ r ∈ mintedRecords t, _))

theorem mintedRecords_concat (t : HandleTrace τ) (c : HandleCall τ) (res : HandleResult τ) :
    mintedRecords (t ++ [(c, res)]) = mintedRecords t ++ mintedRecords [(c, res)] :=
  List.filterMap_append

theorem length_of_mem_mintHandles {calls : List (HandleCall τ)} {h : Str}
    (hmem : h ∈ mintHandles calls) : h.length = 43 := by
  obtain ⟨⟨now, op⟩, -, hc⟩ := List.mem_filterMap.mp hmem
  cases op with
  | mint principal tenant kind ttl handle =>
    simp only [HandleCall.record?, Option.map_some, Option.some.injEq] at hc
    rw [← hc]; exact handle.property
  | _ => simp [HandleCall.record?] at hc

namespace HandleRegistry

/-- What the registry remembers of its history: the stored records are minted and not revoked, and a
minted record that is not stored was revoked or is expired. -/
structure Remembers [LE τ] [DecidableLE τ] (calls : List (HandleCall τ)) (t : HandleTrace τ)
    (s : HandleRegistry τ) : Prop extends s.Consistent where
  minted : ∀ r ∈ s.records.values, r ∈ mintedRecords t
  not_revoked : ∀ k ∈ s.records.keys, k ∉ revokedHandles t
  kept : ∀ r ∈ mintedRecords t, r ∈ s.records.values ∨ r.handle ∈ revokedHandles t ∨
    ∃ c ∈ calls, r.expired c.now = true
  drawn : ∀ r ∈ mintedRecords t, r.handle ∈ mintHandles calls
  revoked_drawn : ∀ k ∈ revokedHandles t, k ∈ mintHandles calls

theorem Remembers.key_drawn [LE τ] [DecidableLE τ] {calls : List (HandleCall τ)}
    {t : HandleTrace τ} {s : HandleRegistry τ} (h : Remembers calls t s) {k : Str}
    (hk : k ∈ s.records.keys) : k ∈ mintHandles calls := by
  obtain ⟨r, hr⟩ := Dict.mem_keys_iff.mp hk
  have hh : r.handle = k := h.keyed _ hr
  rw [← hh]
  exact h.drawn r (h.minted r (Dict.mem_values_iff.mpr ⟨k, hr⟩))

variable [LE τ] [DecidableLE τ] [LT τ] [DecidableLT τ] [Zero τ] [One τ] (cfg : HandleConfig τ)

theorem Remembers.step {calls : List (HandleCall τ)} {t : HandleTrace τ} {s : HandleRegistry τ}
    (h : Remembers calls t s) {c : HandleCall τ} (hd : (mintHandles (calls ++ [c])).Nodup) :
    Remembers (calls ++ [c]) (t ++ [(c, (s.step cfg c).1)]) (s.step cfg c).2 := by
  have hfresh : ∀ r, c.record? = some r → r.handle ∉ mintHandles calls := by
    intro r hr hin
    rw [mintHandles_concat_of_record hr] at hd
    exact (List.nodup_append.mp hd).2.2 _ hin _ (by simp) rfl
  have hcons : (s.step cfg c).2.Consistent :=
    h.toConsistent.step cfg fun r hr hin => hfresh r hr (h.key_drawn hin)
  have hold : ∀ k, k ∈ mintHandles calls → k ∈ mintHandles (calls ++ [c]) := fun k hk => by
    rw [mintHandles_append]; exact List.mem_append_left _ hk
  rcases step_cases cfg h.toConsistent c with
    ⟨r, s₁, hr, h₁, -, he⟩ | ⟨gone, hg, hdrop⟩
  · -- an accepted `mint`
    obtain ⟨gone, hg, hexp⟩ := h₁.removes
    have hnew : r.handle ∉ s₁.records.keys := fun hin =>
      hfresh r hr (h.key_drawn (hg.keys_subset hin))
    have hm : mintedRecords (t ++ [(c, (s.step cfg c).1)]) = mintedRecords t ++ [r] := by
      rw [mintedRecords_concat, he]; simp [mintedRecords, hr]
    have hrev : revokedHandles (t ++ [(c, (s.step cfg c).1)]) = revokedHandles t := by
      rw [revokedHandles_concat, he]; simp [HandleResult.revokedHandles]
    have hv : (s.step cfg c).2.records.values = s₁.records.values ++ [r] := by
      rw [he]; exact values_insert hnew
    refine { hcons with minted := ?_, not_revoked := ?_, kept := ?_, drawn := ?_,
                        revoked_drawn := ?_ }
    · intro r' hr'
      rw [hv, List.mem_append] at hr'
      rw [hm, List.mem_append]
      exact hr'.imp (fun hin => h.minted r' (hg.values_sublist.subset hin)) id
    · intro k hk
      rw [hrev]
      rcases keys_step cfg h.toConsistent c hk with hk | ⟨r', hr', rfl⟩
      · exact h.not_revoked k hk
      · exact fun hin => hfresh r' hr' (h.revoked_drawn _ hin)
    · intro r' hr'
      rw [hm, List.mem_append] at hr'
      rw [hv, hrev, List.mem_append]
      rcases hr' with hr' | hr'
      · rcases h.kept r' hr' with hin | hin | ⟨c', hc', hx⟩
        · by_cases hgone : r'.handle ∈ gone
          · obtain ⟨r'', hr'', hx⟩ := mem_expiredHandles.mp (hexp _ hgone)
            rw [h.get?_of_mem hin] at hr''
            cases hr''
            exact Or.inr (Or.inr ⟨c, by simp, hx⟩)
          · rw [hg.values h.toConsistent]
            exact Or.inl (Or.inl (List.mem_filter.mpr ⟨hin, by simpa using hgone⟩))
        · exact Or.inr (Or.inl hin)
        · exact Or.inr (Or.inr ⟨c', List.mem_append_left _ hc', hx⟩)
      · exact Or.inl (Or.inr hr')
    · intro r' hr'
      rw [hm, List.mem_append] at hr'
      rcases hr' with hr' | hr'
      · exact hold _ (h.drawn r' hr')
      · rw [List.mem_singleton.mp hr', mintHandles_concat_of_record hr]; simp
    · intro k hk
      rw [hrev] at hk
      exact hold k (h.revoked_drawn k hk)
  · -- any other call
    have hm : mintedRecords (t ++ [(c, (s.step cfg c).1)]) = mintedRecords t := by
      rw [mintedRecords_concat]
      have : mintedRecords [(c, (s.step cfg c).1)] = [] := by
        cases hres : (s.step cfg c).1 with
        | minted k => exact absurd hres (hdrop.not_minted k)
        | _ => rfl
      rw [this, List.append_nil]
    have hrev := revokedHandles_concat t c (s.step cfg c).1
    refine { hcons with minted := ?_, not_revoked := ?_, kept := ?_, drawn := ?_,
                        revoked_drawn := ?_ }
    · intro r hr
      rw [hm]; exact h.minted r (hg.values_sublist.subset hr)
    · intro k hk
      obtain ⟨r, hr⟩ := Dict.mem_keys_iff.mp hk
      obtain ⟨hr, hng⟩ := hg.mem_items.mp hr
      rw [hrev, List.mem_append, not_or]
      exact ⟨h.not_revoked k (Dict.mem_keys_iff.mpr ⟨r, hr⟩), fun hin =>
        hng (hdrop.revoked k hin).1⟩
    · intro r hr
      rw [hm] at hr
      rw [hrev, hg.values h.toConsistent]
      rcases h.kept r hr with hin | hin | ⟨c', hc', hx⟩
      · by_cases hgone : r.handle ∈ gone
        · rcases hdrop.reason _ hgone with hx | hin'
          · obtain ⟨r', hr', hx⟩ := mem_expiredHandles.mp hx
            rw [h.get?_of_mem hin] at hr'
            cases hr'
            exact Or.inr (Or.inr ⟨c, by simp, hx⟩)
          · exact Or.inr (Or.inl (List.mem_append_right _ hin'))
        · exact Or.inl (List.mem_filter.mpr ⟨hin, by simpa using hgone⟩)
      · exact Or.inr (Or.inl (List.mem_append_left _ hin))
      · exact Or.inr (Or.inr ⟨c', List.mem_append_left _ hc', hx⟩)
    · intro r hr
      rw [hm] at hr
      exact hold _ (h.drawn r hr)
    · intro k hk
      rw [hrev, List.mem_append] at hk
      rcases hk with hk | hk
      · exact hold k (h.revoked_drawn k hk)
      · exact hold k (h.key_drawn (hdrop.revoked k hk).2)

theorem remembers_run (cfg : HandleConfig τ) (calls : List (HandleCall τ))
    (hd : (mintHandles calls).Nodup) :
    Remembers calls (Run.trace (HandleRegistry.step cfg) init calls)
      (Run.final (HandleRegistry.step cfg) init calls) := by
  refine Run.history (HandleRegistry.step cfg) (fun calls => (mintHandles calls).Nodup)
    (P := Remembers) ?_ ?_ ?_ calls hd
  · intro calls c h
    rw [mintHandles_append] at h
    exact (List.nodup_append.mp h).1
  · exact { Consistent.init with
      minted := fun r hr => by cases hr
      not_revoked := fun k hk => by cases hk
      kept := fun r hr => by cases hr
      drawn := fun r hr => by cases hr
      revoked_drawn := fun k hk => by cases hk }
  · intro calls t s c h hd
    exact h.step cfg hd

end HandleRegistry

end Authorized

/-! ## The registry's contract -/

section Contract

variable [LinearOrder τ] [Add τ] [Zero τ] [One τ]

namespace HandleRegistry

/-- After a run under a clock that never goes back, `resolve` succeeds exactly for an authorized
caller whose names can be encoded. -/
theorem resolve_succeeds_iff (cfg : HandleConfig τ) {calls : List (HandleCall τ)}
    (hd : (mintHandles calls).Nodup) {now : τ} (hnow : ∀ c ∈ calls, c.now ≤ now)
    (handle : Option Str) (principal tenant : Str) (kind : Option Str) :
    (∃ r, ((Run.final (step cfg) init calls).resolve handle principal tenant kind now).1 = .ok r) ↔
      Authorized (Run.trace (step cfg) init calls) handle principal tenant kind now ∧
        isScalar principal = true ∧ isScalar tenant = true := by
  have h := remembers_run cfg calls hd
  generalize Run.final (step cfg) init calls = s at h
  generalize Run.trace (step cfg) init calls = t at h
  constructor
  · rintro ⟨r, hr⟩
    obtain ⟨k, rfl, -, hget, hlive, ⟨hp, hps⟩, ⟨ht, hts⟩, hkind⟩ := resolve_eq_ok_iff.mp hr
    have hh : r.handle = k := h.get?_handle hget
    refine ⟨⟨r, h.minted r (Dict.mem_values_of_get? hget), by rw [hh], hp, ht, hkind, ?_, ?_⟩,
      hps, hts⟩
    · rw [hh]; exact h.not_revoked k (Dict.mem_keys_of_get? hget)
    · exact not_le.mp (of_decide_eq_false hlive)
  · rintro ⟨⟨r, hmint, rfl, hp, ht, hkind, hrev, hexp⟩, hps, hts⟩
    refine ⟨r, resolve_eq_ok_iff.mpr ⟨r.handle, rfl, ?_, ?_, ?_, ⟨hp, hps⟩, ⟨ht, hts⟩, hkind⟩⟩
    · have := length_of_mem_mintHandles (h.drawn r hmint)
      omega
    · rcases h.kept r hmint with hin | hin | ⟨c, hc, hx⟩
      · exact h.get?_of_mem hin
      · exact absurd hin hrev
      · exact absurd ((of_decide_eq_true hx).trans (hnow c hc)) (not_le.mpr hexp)
    · exact decide_eq_false (not_le.mpr hexp)

/-- The registry answers `mint` and `list_for_principal` as the reference does, and resolves exactly
the handles the caller is authorized for, unless the caller's own name cannot be encoded. -/
theorem registry_refines (cfg : HandleConfig τ) {calls : List (HandleCall τ)}
    (htime : calls.Pairwise fun c c' => c.now ≤ c'.now) (hd : (mintHandles calls).Nodup)
    {now : τ} (hnow : ∀ c ∈ calls, c.now ≤ now) (handle : Option Str) (principal tenant : Str)
    (kind : Option Str) :
    let t := Run.trace (step cfg) init calls
    let s := Run.final (step cfg) init calls
    (((∃ r, (s.resolve handle principal tenant kind now).1 = .ok r) ↔
          Authorized t handle principal tenant kind now) ∧
        t.filter (·.1.op.readsLive) =
          (Run.trace (Reference.step cfg) [] calls).filter (·.1.op.readsLive)) ↔
      ((isScalar principal = true ∧ isScalar tenant = true) ∨
        ¬ Authorized t handle principal tenant kind now) := by
  intro t s
  have hresolve := resolve_succeeds_iff cfg hd hnow handle principal tenant kind
  have htrace := trace_eq_reference cfg htime hd
  constructor
  · rintro ⟨hiff, -⟩
    by_cases ha : Authorized t handle principal tenant kind now
    · exact Or.inl (hresolve.mp (hiff.mpr ha)).2
    · exact Or.inr ha
  · intro h
    refine ⟨hresolve.trans ⟨And.left, fun ha => ⟨ha, ?_⟩⟩, htrace⟩
    exact h.resolve_right (not_not_intro ha)

/-- An owner's handle in a run of three calls, one of them a bulk revocation of someone else. -/
theorem registry_refines_three_calls :
    let calls := [mintAt 0 (lit "ann") (tokenOf 65), mintAt 1 (lit "bob") (tokenOf 66),
      ⟨2, .revokePrincipal (lit "bob") none⟩]
    let s := Run.final (step smallConfig) init calls
    (∃ r, (s.resolve (some (tokenOf 65).val) (lit "ann") (lit "acme") none 9).1 = .ok r) ↔
      Authorized (Run.trace (step smallConfig) init calls) (some (tokenOf 65).val) (lit "ann")
        (lit "acme") none 9 :=
  ((registry_refines smallConfig (by decide) (by decide) (by decide) _ _ _ _).mpr
    (Or.inl (by decide))).1

/-- A principal that is a lone surrogate mints a handle and is authorized for it, yet `resolve`
raises. -/
theorem surrogate_owner_denied :
    let owner : Str := [0xD800]
    let calls := [mintAt 0 owner (tokenOf 65)]
    let t := Run.trace (step smallConfig) init calls
    let s := Run.final (step smallConfig) init calls
    Authorized t (some (tokenOf 65).val) owner (lit "acme") none 1 ∧
      ¬ ∃ r, (s.resolve (some (tokenOf 65).val) owner (lit "acme") none 1).1 = .ok r := by
  intro owner calls t s
  have hres : (s.resolve (some (tokenOf 65).val) owner (lit "acme") none 1).1 =
      .error .unicodeEncodeError := by decide
  refine ⟨by decide, ?_⟩
  rintro ⟨r, hr⟩
  rw [hres] at hr
  cases hr

end HandleRegistry

end Contract

end CosaiMcp.Middleware.State
