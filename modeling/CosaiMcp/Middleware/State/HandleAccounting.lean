import CosaiMcp.Run
import CosaiMcp.Middleware.State.HandleSpec

/-!
# The registry's counters and caps

`Accounting` is the registry's invariant: both counters exact, no owner over its cap, no tenant and
not the registry over twice theirs (a negative cap counts as zero). It is kept by removing records
and by the insertion that follows three passed checks, hence by every call (`Accounting.step`),
under any clock. The one assumption on a run is that no two `mint` calls draw the same handle.
-/

namespace CosaiMcp.Middleware.State

open Py

variable {τ : Type}

/-- The handles that the `mint` calls of a run draw, accepted or not. -/
def mintHandles [Add τ] (calls : List (HandleCall τ)) : List Str :=
  calls.filterMap fun c => c.record?.map (·.handle)

theorem mintHandles_append [Add τ] (calls calls' : List (HandleCall τ)) :
    mintHandles (calls ++ calls') = mintHandles calls ++ mintHandles calls' :=
  List.filterMap_append

theorem mintHandles_concat_of_record [Add τ] {c : HandleCall τ} {r : HandleRecord τ}
    (h : c.record? = some r) (calls : List (HandleCall τ)) :
    mintHandles (calls ++ [c]) = mintHandles calls ++ [r.handle] := by
  simp [mintHandles, h]

/-! ## A small registry -/

/-- A registry of four handles, two for a principal. -/
def smallConfig : HandleConfig Int :=
  { maxHandles := 4, maxHandlesPerPrincipal := 2, maxHandlesPerTenant := none,
    maxTtlSeconds := 3600, onRevoke := none }

def tokenOf (c : CodePoint) : UrlsafeToken := ⟨List.replicate 43 c, List.length_replicate⟩

/-- `mint` by `principal` at second `now`, for ten seconds. -/
def mintAt (now : Int) (principal : Str) (handle : UrlsafeToken) : HandleCall Int :=
  ⟨now, .mint principal (lit "acme") (lit "task") 10 handle⟩

namespace HandleRegistry

structure Accounting (cfg : HandleConfig τ) (s : HandleRegistry τ) : Prop
    extends s.Consistent where
  owner_le : ∀ owner, ownerShare s.records.values owner ≤ max 0 cfg.maxHandlesPerPrincipal
  tenant_le : ∀ tenant, tenantShare s.records.values tenant ≤ max 0 (2 * cfg.maxPerTenant)
  total_le : (s.records.values.length : Int) ≤ max 0 (2 * cfg.maxHandles)

theorem Accounting.init [Zero τ] (cfg : HandleConfig τ) :
    Accounting cfg (HandleRegistry.init : HandleRegistry τ) :=
  { Consistent.init with
    owner_le := fun _ => le_max_left _ _
    tenant_le := fun _ => le_max_left _ _
    total_le := le_max_left _ _ }

theorem Accounting.removes {cfg : HandleConfig τ} {s s' : HandleRegistry τ} {gone : List Str}
    (hs : Accounting cfg s) (h : Removes s s' gone) : Accounting cfg s' := by
  have hsub := h.values_sublist
  exact { h.consistent hs.toConsistent with
    owner_le := fun owner => (ownerShare_mono hsub owner).trans (hs.owner_le owner)
    tenant_le := fun tenant => (tenantShare_mono hsub tenant).trans (hs.tenant_le tenant)
    total_le := (Int.ofNat_le.mpr hsub.length_le).trans hs.total_le }

theorem ownerShare_append (rs : List (HandleRecord τ)) (r : HandleRecord τ) (owner : Str × Str) :
    ownerShare (rs ++ [r]) owner = ownerShare rs owner + if r.owner = owner then 1 else 0 := by
  unfold ownerShare
  rw [countKey_append, countKey_cons]
  by_cases h : r.owner = owner <;> simp [h]

theorem tenantShare_append (rs : List (HandleRecord τ)) (r : HandleRecord τ) (tenant : Str) :
    tenantShare (rs ++ [r]) tenant = tenantShare rs tenant + if r.tenant = tenant then 1 else 0 := by
  unfold tenantShare
  rw [countKey_append, countKey_cons]
  by_cases h : r.tenant = tenant <;> simp [h]

/-- Adding a record where there is room for it: only its owner's and its tenant's share grow. -/
theorem Accounting.insert {cfg : HandleConfig τ} {s : HandleRegistry τ} {r : HandleRecord τ}
    (hs : Accounting cfg s) (hroom : HasRoom cfg s r.owner) (hr : r.handle ∉ s.records.keys) :
    Accounting cfg (s.insert r) := by
  have hv := values_insert hr
  refine { hs.toConsistent.insert hr with owner_le := ?_, tenant_le := ?_, total_le := ?_ }
  · intro owner
    rw [hv, ownerShare_append]
    split
    · rename_i ho
      subst ho
      exact (Int.add_one_le_of_lt hroom.mine).trans (le_max_right _ _)
    · simpa using hs.owner_le owner
  · intro tenant
    rw [hv, tenantShare_append]
    split
    · rename_i ht
      subst ht
      exact (Int.add_one_le_of_lt hroom.inTenant).trans (le_max_right _ _)
    · simpa using hs.tenant_le tenant
  · rw [hv, List.length_append, List.length_singleton]
    have := hroom.total
    omega

variable [LE τ] [DecidableLE τ] [LT τ] [DecidableLT τ] [Add τ] [Zero τ] [One τ]
  {cfg : HandleConfig τ}

/-- One call keeps the accounting. -/
theorem Accounting.step {s : HandleRegistry τ} (hs : Accounting cfg s) {c : HandleCall τ}
    (hfresh : ∀ r, c.record? = some r → r.handle ∉ s.records.keys) :
    Accounting cfg (s.step cfg c).2 := by
  rcases step_cases cfg hs.toConsistent c with ⟨r, s₁, hr, h₁, hroom, he⟩ | ⟨gone, hg, -⟩
  · obtain ⟨gone, hg, -⟩ := h₁.removes
    rw [he]
    exact (hs.removes hg).insert hroom fun h => hfresh r hr (hg.keys_subset h)
  · exact hs.removes hg

/-- The accounting along a run with distinct handles. -/
theorem accounting_run (cfg : HandleConfig τ) (calls : List (HandleCall τ))
    (hd : (mintHandles calls).Nodup) :
    Accounting cfg (Run.final (step cfg) init calls) ∧
      ∀ k ∈ (Run.final (step cfg) init calls).records.keys, k ∈ mintHandles calls := by
  refine Run.history (step cfg) (fun calls => (mintHandles calls).Nodup)
    (P := fun calls _ s => Accounting cfg s ∧ ∀ k ∈ s.records.keys, k ∈ mintHandles calls)
    ?_ ⟨Accounting.init cfg, fun k hk => by cases hk⟩ ?_ calls hd
  · intro calls c h
    rw [mintHandles_append] at h
    exact (List.nodup_append.mp h).1
  · rintro calls _ s c ⟨hs, hk⟩ hd
    have hfresh : ∀ r, c.record? = some r → r.handle ∉ s.records.keys := by
      intro r hr hin
      rw [mintHandles_concat_of_record hr] at hd
      exact (List.nodup_append.mp hd).2.2 _ (hk _ hin) _ (by simp) rfl
    refine ⟨hs.step hfresh, fun k hmem => ?_⟩
    rw [mintHandles_append, List.mem_append]
    rcases keys_step cfg hs.toConsistent c hmem with h | ⟨r, hr, rfl⟩
    · exact Or.inl (hk k h)
    · right; simp [mintHandles, hr]

/-- In every state that a run with distinct handles reaches, under any clock, the counters are the
numbers of records, no zero is stored, and the caps hold. -/
theorem registry_accounting (cfg : HandleConfig τ) (hmax : 0 ≤ cfg.maxHandles)
    (hprincipal : 0 ≤ cfg.maxHandlesPerPrincipal) (htenant : ∀ n ∈ cfg.maxHandlesPerTenant, 0 ≤ n)
    (calls : List (HandleCall τ)) (hd : (mintHandles calls).Nodup) :
    let s := Run.final (step cfg) init calls
    let owned (p t : Str) : Nat := s.records.values.countP fun r => r.principal = p ∧ r.tenant = t
    let inTenant (t : Str) : Nat := s.records.values.countP fun r => r.tenant = t
    (∀ p t, (s.counts.get? (p, t)).getD 0 = owned p t) ∧
    (∀ t, (s.tenantCounts.get? t).getD 0 = inTenant t) ∧
    (∀ o n, s.counts.get? o = some n → 0 < n) ∧
    (∀ t n, s.tenantCounts.get? t = some n → 0 < n) ∧
    (∀ p t, (owned p t : Int) ≤ cfg.maxHandlesPerPrincipal) ∧
    (∀ t, (inTenant t : Int) ≤ 2 * cfg.maxPerTenant) ∧
    (s.records.size : Int) ≤ 2 * cfg.maxHandles := by
  have hpt : 0 ≤ cfg.maxPerTenant := by
    unfold HandleConfig.maxPerTenant
    split
    · rename_i n hn; exact htenant n hn
    · omega
  obtain ⟨hs, -⟩ := accounting_run cfg calls hd
  generalize Run.final (step cfg) init calls = s at hs
  have howned : ∀ p t, ownerShare s.records.values (p, t) =
      (s.records.values.countP fun r => r.principal = p ∧ r.tenant = t : Nat) := by
    intro p t
    simp only [ownerShare, countKey, HandleRecord.owner, Prod.mk.injEq]
  refine ⟨fun p t => ?_, hs.tenants.getD, fun o n => hs.counts.pos, fun t n => hs.tenants.pos,
    fun p t => ?_, fun t => ?_, ?_⟩
  · rw [← howned]; exact hs.ownerCount (p, t)
  · rw [← howned, ← max_eq_right hprincipal]; exact hs.owner_le (p, t)
  · exact (hs.tenant_le t).trans (max_le (by omega) le_rfl)
  · have := hs.total_le
    rw [Dict.size_eq_length_values]
    omega

/-- Three requests of one principal at a time that goes back; the third is refused. -/
theorem registry_accounting_three_mints :
    let calls := [mintAt 5 (lit "ann") (tokenOf 65), mintAt 3 (lit "ann") (tokenOf 66),
      mintAt 4 (lit "ann") (tokenOf 67)]
    let s := Run.final (step smallConfig) init calls
    (mintHandles calls).Nodup ∧ s.records.size = 2 ∧
      ((s.records.values.countP fun r => r.principal = lit "ann" ∧ r.tenant = lit "acme" : Nat) :
        Int) ≤ smallConfig.maxHandlesPerPrincipal :=
  ⟨by decide, by decide,
    (registry_accounting smallConfig (by decide) (by decide) (by decide) _
      (by decide)).2.2.2.2.1 (lit "ann") (lit "acme")⟩

end HandleRegistry

end CosaiMcp.Middleware.State
