import CosaiMcp.Middleware.State.Handles

/-!
# What the operations of the handle registry do

Every operation of the registry either removes records or, after removing some, adds one. `Removes`
says which handles are gone, and that the counters stay exact if they were (`Consistent`). The
removals are `drop`, `dropAll` and `purge`; `lookup`, `capacityCheck` and the revocations follow.
`capacityCheck_spec` is the key fact about `mint`: its verdict, reached over up to four partial
sweeps, is the one that the unexpired records alone give (`verdict`), because each check that is
about to refuse sweeps first.
-/

namespace CosaiMcp.Middleware.State

open Py

namespace HandleRegistry

variable {τ : Type}

/-! ## Exact counters -/

/-- Each record is stored under its own handle, and both counters are exact. -/
structure Consistent (s : HandleRegistry τ) : Prop where
  keyed : ∀ p ∈ s.records.items, p.2.handle = p.1
  counts : Exact s.counts HandleRecord.owner s.records.values
  tenants : Exact s.tenantCounts HandleRecord.tenant s.records.values

theorem Consistent.init [Zero τ] : Consistent (HandleRegistry.init : HandleRegistry τ) :=
  ⟨by simp [HandleRegistry.init], Exact.nil _, Exact.nil _⟩

theorem Consistent.get?_handle {s : HandleRegistry τ} (hs : s.Consistent) {h : Str}
    {r : HandleRecord τ} (hr : s.records.get? h = some r) : r.handle = h :=
  hs.keyed _ (Dict.get?_eq_some_iff.mp hr)

theorem Consistent.map_handle_values {s : HandleRegistry τ} (hs : s.Consistent) :
    s.records.values.map (·.handle) = s.records.keys := by
  unfold Dict.values Dict.keys
  rw [List.map_map]
  exact List.map_congr_left hs.keyed

theorem Consistent.get?_of_mem {s : HandleRegistry τ} (hs : s.Consistent) {r : HandleRecord τ}
    (hr : r ∈ s.records.values) : s.records.get? r.handle = some r := by
  obtain ⟨k, hk⟩ := Dict.mem_values_iff.mp hr
  rw [hs.keyed _ hk]
  exact Dict.get?_eq_some_iff.mpr hk

theorem Consistent.ownerCount {s : HandleRegistry τ} (hs : s.Consistent) (owner : Str × Str) :
    s.ownerCount owner = countKey HandleRecord.owner s.records.values owner :=
  hs.counts.getD owner

theorem Consistent.tenantCount {s : HandleRegistry τ} (hs : s.Consistent) (tenant : Str) :
    s.tenantCount tenant = countKey HandleRecord.tenant s.records.values tenant :=
  hs.tenants.getD tenant

theorem size_eq (s : HandleRegistry τ) : s.size = s.records.values.length := by
  simp [size, Dict.size_eq_length_values]

/-! ## Removals -/

/-- `s'` is `s` without the records of the handles in `gone`, with counters as exact as before. -/
structure Removes (s s' : HandleRegistry τ) (gone : List Str) : Prop where
  records : s'.records = s.records.filter fun p => p.1 ∉ gone
  consistent : s.Consistent → s'.Consistent

theorem Removes.refl (s : HandleRegistry τ) : Removes s s [] :=
  ⟨Dict.ext (by simp), id⟩

theorem Removes.trans {s s' s'' : HandleRegistry τ} {gone gone' : List Str}
    (h : Removes s s' gone) (h' : Removes s' s'' gone') : Removes s s'' (gone ++ gone') := by
  refine ⟨?_, fun hc => h'.consistent (h.consistent hc)⟩
  rw [h'.records, h.records]
  refine Dict.ext ?_
  simp only [Dict.items_filter, List.filter_filter]
  refine List.filter_congr fun p _ => ?_
  simp only [List.mem_append, not_or, Bool.decide_and]
  exact Bool.and_comm _ _

theorem Removes.mem_items {s s' : HandleRegistry τ} {gone : List Str} (h : Removes s s' gone)
    {p : Str × HandleRecord τ} : p ∈ s'.records.items ↔ p ∈ s.records.items ∧ p.1 ∉ gone := by
  rw [h.records]; simp

theorem Removes.get?_eq_some {s s' : HandleRegistry τ} {gone : List Str} (h : Removes s s' gone)
    {k : Str} {r : HandleRecord τ} :
    s'.records.get? k = some r ↔ s.records.get? k = some r ∧ k ∉ gone := by
  rw [Dict.get?_eq_some_iff, Dict.get?_eq_some_iff, h.mem_items]

theorem Removes.values {s s' : HandleRegistry τ} {gone : List Str} (h : Removes s s' gone)
    (hs : s.Consistent) :
    s'.records.values = s.records.values.filter fun r => r.handle ∉ gone := by
  unfold Dict.values
  rw [h.records, Dict.items_filter, List.filter_map]
  refine congrArg _ (List.filter_congr fun p hp => ?_)
  simp [hs.keyed p hp]

theorem Removes.values_sublist {s s' : HandleRegistry τ} {gone : List Str}
    (h : Removes s s' gone) : s'.records.values.Sublist s.records.values := by
  unfold Dict.values
  rw [h.records]
  exact List.filter_sublist.map _

theorem Removes.keys {s s' : HandleRegistry τ} {gone : List Str} (h : Removes s s' gone) :
    s'.records.keys = s.records.keys.filter (· ∉ gone) := by
  unfold Dict.keys
  rw [h.records, Dict.items_filter, List.filter_map]
  rfl

theorem Removes.mem_keys {s s' : HandleRegistry τ} {gone : List Str} (h : Removes s s' gone)
    {k : Str} : k ∈ s'.records.keys ↔ k ∈ s.records.keys ∧ k ∉ gone := by
  rw [h.keys]; simp

theorem Removes.keys_subset {s s' : HandleRegistry τ} {gone : List Str} (h : Removes s s' gone)
    {k : Str} (hk : k ∈ s'.records.keys) : k ∈ s.records.keys := (h.mem_keys.mp hk).1

@[simp] theorem drop_fst (s : HandleRegistry τ) (h : Str) : (s.drop h).1 = s.records.get? h := by
  unfold drop
  cases s.records.get? h <;> rfl

theorem records_drop (s : HandleRegistry τ) (h : Str) :
    (s.drop h).2.records = s.records.erase h := by
  unfold drop
  cases hr : s.records.get? h with
  | none => exact (Dict.erase_of_not_mem (Dict.get?_eq_none_iff.mp hr)).symm
  | some r => rfl

theorem Consistent.drop {s : HandleRegistry τ} (hs : s.Consistent) (h : Str) :
    (s.drop h).2.Consistent := by
  unfold HandleRegistry.drop
  cases hr : s.records.get? h with
  | none => exact hs
  | some r =>
    have hp := Dict.values_perm_erase hr
    exact ⟨fun p hp => hs.keyed p (Dict.mem_items_erase.mp hp).1,
      hs.counts.remove hp (get?_decrement _ _),
      hs.tenants.remove hp (get?_decrement _ _)⟩

theorem removes_drop (s : HandleRegistry τ) (h : Str) : Removes s (s.drop h).2 [h] := by
  refine ⟨?_, fun hs => hs.drop h⟩
  rw [records_drop]
  exact Dict.ext (by simp [Dict.erase])

theorem removes_dropAll (s : HandleRegistry τ) (hs : List Str) : Removes s (s.dropAll hs) hs := by
  induction hs generalizing s with
  | nil => exact Removes.refl s
  | cons h hs ih => exact (removes_drop s h).trans (ih (s.drop h).2)

/-! ## Adding a record -/

theorem Consistent.insert {s : HandleRegistry τ} (hs : s.Consistent) {r : HandleRecord τ}
    (hr : r.handle ∉ s.records.keys) : (s.insert r).Consistent := by
  have hp : (s.insert r).records.values.Perm (r :: s.records.values) := by
    show (s.records.set r.handle r).values.Perm _
    rw [Dict.values_set_of_not_mem hr]
    exact List.perm_append_singleton r s.records.values
  refine ⟨fun p hp => ?_, hs.counts.insert hp, hs.tenants.insert hp⟩
  rcases Dict.mem_items_set.mp hp with rfl | ⟨hp, -⟩
  · rfl
  · exact hs.keyed p hp

theorem values_insert {s : HandleRegistry τ} {r : HandleRecord τ}
    (hr : r.handle ∉ s.records.keys) :
    (s.insert r).records.values = s.records.values ++ [r] :=
  Dict.values_set_of_not_mem hr r

/-! ## Revocations -/

theorem removes_adminDrop (s : HandleRegistry τ) (handle : Option Str) :
    Removes s (s.adminDrop handle).2 handle.toList := by
  cases handle with
  | none => exact Removes.refl s
  | some h => exact removes_drop s h

theorem removes_dropPrincipal (s : HandleRegistry τ) (principal : Str) (tenant : Option Str) :
    Removes s (s.dropPrincipal principal tenant).2
      ((s.dropPrincipal principal tenant).1.map (·.handle)) :=
  removes_dropAll s _

theorem mem_dropPrincipal {s : HandleRegistry τ} {principal : Str} {tenant : Option Str}
    {r : HandleRecord τ} : r ∈ (s.dropPrincipal principal tenant).1 ↔
      r ∈ s.records.values ∧ r.belongsTo principal tenant = true :=
  List.mem_filter

/-! ## Sweeps -/

section Sweep

variable [LE τ] [DecidableLE τ]

/-- The records that are not expired at `now`. -/
def live (s : HandleRegistry τ) (now : τ) : List (HandleRecord τ) :=
  s.records.values.filter fun r => !r.expired now

theorem mem_expiredHandles {s : HandleRegistry τ} {now : τ} {k : Str} :
    k ∈ s.expiredHandles now ↔ ∃ r, s.records.get? k = some r ∧ r.expired now = true := by
  simp only [expiredHandles, List.mem_map, List.mem_filter, Dict.get?_eq_some_iff]
  constructor
  · rintro ⟨p, ⟨hp, he⟩, rfl⟩; exact ⟨p.2, hp, he⟩
  · rintro ⟨r, hr, he⟩; exact ⟨(k, r), ⟨hr, he⟩, rfl⟩

/-- `s'` is `s` after some sweeps at `now`: nothing is gone, or everything expired is. -/
def Swept (now : τ) (s s' : HandleRegistry τ) : Prop :=
  Removes s s' [] ∨ Removes s s' (s.expiredHandles now)

theorem Swept.refl (now : τ) (s : HandleRegistry τ) : Swept now s s := Or.inl (Removes.refl s)

theorem Swept.removes {now : τ} {s s' : HandleRegistry τ} (h : Swept now s s') :
    ∃ gone, Removes s s' gone ∧ ∀ k ∈ gone, k ∈ s.expiredHandles now := by
  rcases h with h | h
  · exact ⟨[], h, fun _ hk => by cases hk⟩
  · exact ⟨_, h, fun _ hk => hk⟩

theorem Removes.records_expired {now : τ} {s s' : HandleRegistry τ}
    (h : Removes s s' (s.expiredHandles now)) :
    s'.records = s.records.filter fun p => !p.2.expired now := by
  rw [h.records]
  refine Dict.ext (List.filter_congr fun p hp => ?_)
  have hmem : p.1 ∈ s.expiredHandles now ↔ p.2.expired now = true := by
    rw [mem_expiredHandles]
    constructor
    · rintro ⟨r, hr, he⟩
      rwa [Dict.value_unique (Dict.get?_eq_some_iff.mp hr) hp] at he
    · exact fun he => ⟨p.2, Dict.get?_eq_some_iff.mpr hp, he⟩
  cases he : p.2.expired now <;> simp [hmem, he]

theorem Removes.values_expired {now : τ} {s s' : HandleRegistry τ}
    (h : Removes s s' (s.expiredHandles now)) : s'.records.values = s.live now := by
  unfold live Dict.values
  rw [h.records_expired, Dict.items_filter, List.filter_map]
  rfl

/-- Sweeps at `now` do not touch what is alive at `now`. -/
theorem Swept.live_eq {now : τ} {s s' : HandleRegistry τ} (h : Swept now s s') :
    s'.live now = s.live now := by
  rcases h with h | h
  · have : s'.records = s.records := h.records.trans (Dict.ext (by simp))
    unfold live; rw [this]
  · conv_lhs => unfold live
    rw [h.values_expired, live, List.filter_filter]
    exact List.filter_congr fun r _ => Bool.and_self _

theorem expiredHandles_congr {s s' : HandleRegistry τ} (h : s'.records = s.records) (now : τ) :
    s'.expiredHandles now = s.expiredHandles now := by
  unfold expiredHandles; rw [h]

theorem Swept.trans {now : τ} {s s' s'' : HandleRegistry τ} (h : Swept now s s')
    (h' : Swept now s' s'') : Swept now s s'' := by
  rcases h with h | h
  · have hr : s'.records = s.records := h.records.trans (Dict.ext (by simp))
    rcases h' with h' | h'
    · exact Or.inl (h.trans h')
    · rw [expiredHandles_congr hr] at h'
      exact Or.inr (h.trans h')
  · right
    rcases h' with h' | h'
    · simpa using h.trans h'
    · refine ⟨?_, fun hc => h'.consistent (h.consistent hc)⟩
      rw [h'.records_expired, h.records]
      refine Dict.ext ?_
      simp only [Dict.items_filter, List.filter_filter]
      refine List.filter_congr fun p hp => ?_
      have : p.1 ∉ s.expiredHandles now → p.2.expired now = false := by
        intro hn
        by_contra he
        exact hn (mem_expiredHandles.mpr ⟨p.2, Dict.get?_eq_some_iff.mpr hp, by simpa using he⟩)
      by_cases hn : p.1 ∈ s.expiredHandles now
      · simp [hn]
      · simp [hn, this hn]

variable [LT τ] [DecidableLT τ] [Add τ] [One τ]

theorem removes_purge_force (s : HandleRegistry τ) (now : τ) :
    Removes s (s.purge now true) (s.expiredHandles now) := by
  simp only [purge, Bool.not_true, Bool.false_eq_true, false_and, ↓reduceIte]
  have h := removes_dropAll { s with nextPurge := now + 1 } (s.expiredHandles now)
  exact ⟨h.records, fun hs => h.consistent ⟨hs.keyed, hs.counts, hs.tenants⟩⟩

theorem swept_purge (s : HandleRegistry τ) (now : τ) (force : Bool) :
    Swept now s (s.purge now force) := by
  by_cases hf : !force ∧ now < s.nextPurge
  · rw [purge, ite_cond_eq_true _ _ (eq_true hf)]; exact Swept.refl now s
  · have : s.purge now force = s.purge now true := by
      simp only [purge, hf, ↓reduceIte, Bool.not_true, Bool.false_eq_true, false_and]
    rw [this]; exact Or.inr (removes_purge_force s now)

theorem values_purge_force (s : HandleRegistry τ) (now : τ) :
    (s.purge now true).records.values = s.live now :=
  (removes_purge_force s now).values_expired

end Sweep

/-! ## The verdict of `mint` -/

/-- `owner`'s and its tenant's share of the records `rs`. -/
def ownerShare (rs : List (HandleRecord τ)) (owner : Str × Str) : Int :=
  countKey HandleRecord.owner rs owner

def tenantShare (rs : List (HandleRecord τ)) (tenant : Str) : Int :=
  countKey HandleRecord.tenant rs tenant

/-- The verdict on a new handle of `owner` when exactly the records `rs` are stored. -/
def verdict (cfg : HandleConfig τ) (rs : List (HandleRecord τ)) (owner : Str × Str) :
    Option (MintError τ) :=
  if cfg.maxHandles ≤ rs.length ∧
      (ownerFloor ≤ ownerShare rs owner ∨ 2 * cfg.maxHandles ≤ rs.length) then
    some .registryFull
  else if cfg.maxHandlesPerPrincipal ≤ ownerShare rs owner then some .principalLimit
  else if cfg.maxPerTenant ≤ tenantShare rs owner.2 ∧
      (ownerFloor ≤ ownerShare rs owner ∨ 2 * cfg.maxPerTenant ≤ tenantShare rs owner.2) then
    some .tenantLimit
  else none

theorem ownerShare_mono {rs rs' : List (HandleRecord τ)} (h : rs.Sublist rs')
    (owner : Str × Str) : ownerShare rs owner ≤ ownerShare rs' owner :=
  Int.ofNat_le.mpr h.countP_le

theorem tenantShare_mono {rs rs' : List (HandleRecord τ)} (h : rs.Sublist rs') (tenant : Str) :
    tenantShare rs tenant ≤ tenantShare rs' tenant :=
  Int.ofNat_le.mpr h.countP_le

theorem tenantShare_nonneg (rs : List (HandleRecord τ)) (tenant : Str) :
    0 ≤ tenantShare rs tenant := Int.natCast_nonneg _

section Admit

variable [LE τ] [DecidableLE τ]

theorem Swept.consistent {now : τ} {s s' : HandleRegistry τ} (h : Swept now s s')
    (hs : s.Consistent) : s'.Consistent := by
  obtain ⟨_, h, -⟩ := h.removes
  exact h.consistent hs

theorem Swept.values_sublist {now : τ} {s s' : HandleRegistry τ} (h : Swept now s s') :
    s'.records.values.Sublist s.records.values := by
  obtain ⟨_, h, -⟩ := h.removes
  exact h.values_sublist

variable [LT τ] [DecidableLT τ] [Add τ] [One τ] {s : HandleRegistry τ} (now : τ)

/-- A capacity check that sweeps before it refuses decides by the unexpired records alone, if what
it tests is a test of the stored records and being at the cap is monotone in them. A state that it
lets pass is not both at the cap and to be refused. -/
theorem refuseAfterSweep_spec (atCap refuse : HandleRegistry τ → Bool) (e : MintError τ)
    {A R : List (HandleRecord τ) → Prop} [DecidablePred A] [DecidablePred R]
    (hA : ∀ s : HandleRegistry τ, s.Consistent → (atCap s = true ↔ A s.records.values))
    (hR : ∀ s : HandleRegistry τ, s.Consistent → (refuse s = true ↔ R s.records.values))
    (hmono : ∀ l l', l.Sublist l' → A l → A l') (hs : s.Consistent) :
    ∃ s', Swept now s s' ∧
      refuseAfterSweep atCap refuse e s now =
        (if A (s.live now) ∧ R (s.live now) then some e else none, s') ∧
      (¬(A (s.live now) ∧ R (s.live now)) → ¬(A s'.records.values ∧ R s'.records.values)) := by
  by_cases hc : atCap s = true
  · -- swept: the stored records are the live ones
    let s₁ := s.purge now true
    have h₁ : Swept now s s₁ := swept_purge s now true
    have hs₁ := h₁.consistent hs
    have hv : s₁.records.values = s.live now := values_purge_force s now
    refine ⟨s₁, h₁, ?_, fun hn => by rw [hv]; exact hn⟩
    unfold refuseAfterSweep
    simp only [hc, ↓reduceIte]
    have hcond : (atCap s₁ && refuse s₁) = true ↔ A (s.live now) ∧ R (s.live now) := by
      rw [Bool.and_eq_true, hA s₁ hs₁, hR s₁ hs₁, hv]
    show (if (atCap s₁ && refuse s₁) = true then (some e, s₁) else (none, s₁)) = _
    by_cases hd : A (s.live now) ∧ R (s.live now)
    · rw [ite_cond_eq_true _ _ (eq_true (hcond.mpr hd)), ite_cond_eq_true _ _ (eq_true hd)]
    · rw [ite_cond_eq_false _ _ (eq_false (hd ∘ hcond.mp)), ite_cond_eq_false _ _ (eq_false hd)]
  · -- below the cap, and so are the live records among the stored ones
    have hAs : ¬ A s.records.values := fun h => hc ((hA s hs).mpr h)
    have hAl : ¬ A (s.live now) := fun h => hAs (hmono _ _ List.filter_sublist h)
    refine ⟨s, Swept.refl now s, ?_, fun _ h => hAs h.1⟩
    unfold refuseAfterSweep
    simp [hc, hAl]

variable (cfg : HandleConfig τ) (owner : Str × Str)

theorem globalCheck_spec (hs : s.Consistent) :
    ∃ s', Swept now s s' ∧
      s.globalCheck cfg owner now =
        (if cfg.maxHandles ≤ (s.live now).length ∧ (ownerFloor ≤ ownerShare (s.live now) owner ∨
            2 * cfg.maxHandles ≤ (s.live now).length) then some .registryFull else none, s') ∧
      ((s.globalCheck cfg owner now).1 = none →
        (s'.records.values.length : Int) < 2 * cfg.maxHandles) := by
  have h₁ : Swept now s (s.purge now false) := swept_purge s now false
  obtain ⟨s', h', he, hn⟩ := refuseAfterSweep_spec (s := s.purge now false) now
    (fun s => cfg.maxHandles ≤ s.size)
    (fun s => ownerFloor ≤ s.ownerCount owner || 2 * cfg.maxHandles ≤ s.size)
    .registryFull (A := fun l => cfg.maxHandles ≤ l.length)
    (R := fun l => ownerFloor ≤ ownerShare l owner ∨ 2 * cfg.maxHandles ≤ l.length)
    (fun s _ => by simp [size_eq])
    (fun s hs => by simp [size_eq, hs.ownerCount, ownerShare])
    (fun l l' hl h => by have := hl.length_le; omega) (h₁.consistent hs)
  rw [h₁.live_eq] at he hn
  refine ⟨s', h₁.trans h', he, fun hnone => ?_⟩
  have hv := hn fun hcond => by
    rw [globalCheck, he, ite_cond_eq_true _ _ (eq_true hcond)] at hnone
    cases hnone
  omega

theorem principalCheck_spec (hs : s.Consistent) :
    ∃ s', Swept now s s' ∧
      s.principalCheck cfg owner now =
        (if cfg.maxHandlesPerPrincipal ≤ ownerShare (s.live now) owner
          then some .principalLimit else none, s') ∧
      ((s.principalCheck cfg owner now).1 = none →
        ownerShare s'.records.values owner < cfg.maxHandlesPerPrincipal) := by
  obtain ⟨s', h', he, hn⟩ := refuseAfterSweep_spec (s := s) now
    (fun s => cfg.maxHandlesPerPrincipal ≤ s.ownerCount owner) (fun _ => true) .principalLimit
    (A := fun l => cfg.maxHandlesPerPrincipal ≤ ownerShare l owner) (R := fun _ => True)
    (fun s hs => by simp [hs.ownerCount, ownerShare]) (fun _ _ => by simp)
    (fun l l' hl h => h.trans (ownerShare_mono hl owner)) hs
  simp only [and_true, not_le] at he hn
  refine ⟨s', h', he, fun hnone => hn ?_⟩
  by_contra hcond
  rw [principalCheck, he, ite_cond_eq_true _ _ (eq_true (not_lt.mp hcond))] at hnone
  cases hnone

theorem tenantCheck_spec (hs : s.Consistent) :
    ∃ s', Swept now s s' ∧
      s.tenantCheck cfg owner now =
        (if cfg.maxPerTenant ≤ tenantShare (s.live now) owner.2 ∧
            (ownerFloor ≤ ownerShare (s.live now) owner ∨
              2 * cfg.maxPerTenant ≤ tenantShare (s.live now) owner.2)
          then some .tenantLimit else none, s') ∧
      ((s.tenantCheck cfg owner now).1 = none →
        tenantShare s'.records.values owner.2 < 2 * cfg.maxPerTenant) := by
  obtain ⟨s', h', he, hn⟩ := refuseAfterSweep_spec (s := s) now
    (fun s => cfg.maxPerTenant ≤ s.tenantCount owner.2)
    (fun s => ownerFloor ≤ s.ownerCount owner || 2 * cfg.maxPerTenant ≤ s.tenantCount owner.2)
    .tenantLimit (A := fun l => cfg.maxPerTenant ≤ tenantShare l owner.2)
    (R := fun l => ownerFloor ≤ ownerShare l owner ∨
      2 * cfg.maxPerTenant ≤ tenantShare l owner.2)
    (fun s hs => by simp [hs.tenantCount, tenantShare])
    (fun s hs => by simp [hs.tenantCount, hs.ownerCount, tenantShare, ownerShare])
    (fun l l' hl h => h.trans (tenantShare_mono hl owner.2)) hs
  refine ⟨s', h', he, fun hnone => ?_⟩
  have hv := hn fun hcond => by
    rw [tenantCheck, he, ite_cond_eq_true _ _ (eq_true hcond)] at hnone
    cases hnone
  have := tenantShare_nonneg s'.records.values owner.2
  omega

/-- The checks of `mint` together: they sweep at most, their verdict is that of the unexpired
records, and a state they let pass is below all three ceilings. -/
theorem capacityCheck_spec (hs : s.Consistent) :
    ∃ s', Swept now s s' ∧ s.capacityCheck cfg owner now = (verdict cfg (s.live now) owner, s') ∧
      (verdict cfg (s.live now) owner = none →
        (s'.records.values.length : Int) < 2 * cfg.maxHandles ∧
        ownerShare s'.records.values owner < cfg.maxHandlesPerPrincipal ∧
        tenantShare s'.records.values owner.2 < 2 * cfg.maxPerTenant) := by
  obtain ⟨s₁, h₁, he₁, hn₁⟩ := globalCheck_spec now cfg owner hs
  by_cases hg : cfg.maxHandles ≤ (s.live now).length ∧
      (ownerFloor ≤ ownerShare (s.live now) owner ∨ 2 * cfg.maxHandles ≤ (s.live now).length)
  · rw [ite_cond_eq_true _ _ (eq_true hg)] at he₁
    have hv : verdict cfg (s.live now) owner = some .registryFull :=
      ite_cond_eq_true _ _ (eq_true hg)
    exact ⟨s₁, h₁, by simp only [capacityCheck, he₁, hv], by simp [hv]⟩
  rw [ite_cond_eq_false _ _ (eq_false hg)] at he₁
  obtain ⟨s₂, h₂, he₂, hn₂⟩ :=
    principalCheck_spec now cfg owner (h₁.consistent hs)
  have h₁₂ := h₁.trans h₂
  rw [h₁.live_eq] at he₂
  by_cases hp : cfg.maxHandlesPerPrincipal ≤ ownerShare (s.live now) owner
  · rw [ite_cond_eq_true _ _ (eq_true hp)] at he₂
    have hv : verdict cfg (s.live now) owner = some .principalLimit := by
      rw [verdict, ite_cond_eq_false _ _ (eq_false hg), ite_cond_eq_true _ _ (eq_true hp)]
    exact ⟨s₂, h₁₂, by simp only [capacityCheck, he₁, he₂, hv], by simp [hv]⟩
  rw [ite_cond_eq_false _ _ (eq_false hp)] at he₂
  obtain ⟨s₃, h₃, he₃, hn₃⟩ :=
    tenantCheck_spec now cfg owner (h₁₂.consistent hs)
  rw [h₁₂.live_eq] at he₃
  have hv : verdict cfg (s.live now) owner = (s₂.tenantCheck cfg owner now).1 := by
    rw [verdict, ite_cond_eq_false _ _ (eq_false hg), ite_cond_eq_false _ _ (eq_false hp), he₃]
  refine ⟨s₃, h₁₂.trans h₃, ?_, fun hnone => ⟨?_, ?_, hn₃ (hv ▸ hnone)⟩⟩
  · simp only [capacityCheck, he₁, he₂, hv]
    rw [he₃]
  · have hlen := (h₂.trans h₃).values_sublist.length_le
    have := hn₁ (by rw [he₁])
    omega
  · exact (ownerShare_mono h₃.values_sublist owner).trans_lt (hn₂ (by rw [he₂]))

end Admit

/-! ## `resolve` -/

section Resolve

theorem authorize_eq_ok_iff {record : Option (HandleRecord τ)} {principal tenant : Str}
    {kind : Option Str} {r : HandleRecord τ} :
    authorize record principal tenant kind = .ok r ↔ record = some r ∧
      (r.principal = principal ∧ isScalar principal = true) ∧
      (r.tenant = tenant ∧ isScalar tenant = true) ∧ kind.all (r.kind == ·) = true := by
  cases record with
  | none => simp [authorize]
  | some r' =>
    simp only [authorize, Option.some.injEq]
    constructor
    · intro h
      split at h
      · cases h
      · cases h
      rename_i hp
      split at h
      · cases h
      · cases h
      rename_i ht
      split at h
      · rename_i hk
        cases h
        obtain ⟨hp, hps⟩ := strEq_eq_true_iff.mp hp
        obtain ⟨ht, hts⟩ := strEq_eq_true_iff.mp ht
        cases hp; cases ht
        exact ⟨rfl, ⟨rfl, hps⟩, ⟨rfl, hts⟩, hk⟩
      · cases h
    · rintro ⟨rfl, ⟨rfl, hp⟩, ⟨rfl, ht⟩, hk⟩
      have hp' := strEq_eq_true_iff.mpr ⟨(rfl : some r'.principal = _), hp⟩
      have ht' := strEq_eq_true_iff.mpr ⟨(rfl : some r'.tenant = _), ht⟩
      simp only [hp', ht', hk, ↓reduceIte]

variable [LE τ] [DecidableLE τ] {s : HandleRegistry τ} {now : τ}

theorem lookup_fst (s : HandleRegistry τ) (h : Str) (now : τ) :
    (s.lookup h now).1 = (s.records.get? h).filter fun r => !r.expired now := by
  unfold lookup
  cases s.records.get? h with
  | none => rfl
  | some r => cases hr : r.expired now <;> simp [Option.filter, hr]

theorem removes_lookup (s : HandleRegistry τ) (h : Str) (now : τ) :
    ∃ gone, Removes s (s.lookup h now).2 gone ∧ ∀ k ∈ gone, k ∈ s.expiredHandles now := by
  unfold lookup
  cases hr : s.records.get? h with
  | none => exact ⟨[], Removes.refl s, by simp⟩
  | some r =>
    by_cases he : r.expired now = true
    · simp only [he, ↓reduceIte]
      refine ⟨[h], removes_drop s h, fun k hk => ?_⟩
      rw [List.mem_singleton.mp hk]
      exact mem_expiredHandles.mpr ⟨r, hr, he⟩
    · simp only [he, Bool.false_eq_true, ↓reduceIte]
      exact ⟨[], Removes.refl s, by simp⟩

/-- `resolve` succeeds exactly on a stored, unexpired record of the caller and kind, when the
caller's names can be encoded. -/
theorem resolve_eq_ok_iff {handle : Option Str} {principal tenant : Str} {kind : Option Str}
    {r : HandleRecord τ} :
    (s.resolve handle principal tenant kind now).1 = .ok r ↔
      ∃ h, handle = some h ∧ h.length ≤ 256 ∧ s.records.get? h = some r ∧
        r.expired now = false ∧ (r.principal = principal ∧ isScalar principal = true) ∧
        (r.tenant = tenant ∧ isScalar tenant = true) ∧ kind.all (r.kind == ·) = true := by
  cases handle with
  | none => simp [resolve]
  | some h =>
    unfold resolve
    by_cases hl : 256 < h.length
    · simp [hl]
    · simp only [hl, ↓reduceIte, authorize_eq_ok_iff, lookup_fst, Option.filter_eq_some_iff,
        Bool.not_eq_true']
      constructor
      · rintro ⟨⟨hr, he⟩, hrest⟩
        exact ⟨h, rfl, by omega, hr, he, hrest⟩
      · rintro ⟨h', hh, -, hr, he, hrest⟩
        cases hh
        exact ⟨⟨hr, he⟩, hrest⟩

theorem removes_resolve (s : HandleRegistry τ) (handle : Option Str) (principal tenant : Str)
    (kind : Option Str) (now : τ) :
    ∃ gone, Removes s (s.resolve handle principal tenant kind now).2 gone ∧
      ∀ k ∈ gone, k ∈ s.expiredHandles now := by
  cases handle with
  | none => exact ⟨[], Removes.refl s, by simp⟩
  | some h =>
    unfold resolve
    by_cases hl : 256 < h.length
    · simp only [hl, ↓reduceIte]; exact ⟨[], Removes.refl s, by simp⟩
    · simp only [hl, ↓reduceIte]; exact removes_lookup s h now

/-- The record that `resolve` returns is still stored after it. -/
theorem get?_of_resolve (hs : s.Consistent) {handle : Option Str} {principal tenant : Str}
    {kind : Option Str} {r : HandleRecord τ} {s' : HandleRegistry τ}
    (h : s.resolve handle principal tenant kind now = (.ok r, s')) :
    s'.records.get? r.handle = some r := by
  obtain ⟨gone, hg, hexp⟩ := removes_resolve s handle principal tenant kind now
  rw [h] at hg
  obtain ⟨k, -, -, hr, hne, -⟩ := resolve_eq_ok_iff.mp (congrArg Prod.fst h)
  rw [hg.get?_eq_some, hs.get?_handle hr]
  refine ⟨hr, fun hin => ?_⟩
  obtain ⟨r', hr', he⟩ := mem_expiredHandles.mp (hexp _ hin)
  rw [hr] at hr'
  cases hr'
  rw [hne] at he
  cases he

end Resolve

/-! ## One call -/

section Step

variable [LE τ] [DecidableLE τ] (cfg : HandleConfig τ) {s : HandleRegistry τ}

/-- The records that left with a call that stores none: each is expired or returned as revoked, and
what is returned as revoked was stored. -/
structure Dropped (s : HandleRegistry τ) (now : τ) (res : HandleResult τ) (gone : List Str) :
    Prop where
  not_minted : ∀ h, res ≠ .minted h
  reason : ∀ k ∈ gone, k ∈ s.expiredHandles now ∨ k ∈ res.revokedHandles
  revoked : ∀ k ∈ res.revokedHandles, k ∈ gone ∧ k ∈ s.records.keys

theorem dropped_adminDrop (hs : s.Consistent) (handle : Option Str) (now : τ) :
    ∃ gone, Removes s (s.adminDrop handle).2 gone ∧
      Dropped s now (.revoked (s.adminDrop handle).1.toList
        (notify cfg (s.adminDrop handle).1.toList)) gone := by
  cases handle with
  | none => exact ⟨[], Removes.refl s, ⟨by simp, by simp, fun _ hk => absurd hk List.not_mem_nil⟩⟩
  | some h =>
    cases hr : s.records.get? h with
    | none =>
      have hsame : s.drop h = (none, s) := by unfold drop; rw [hr]
      simp only [adminDrop, hsame]
      exact ⟨[], Removes.refl s, ⟨by simp, by simp, fun _ hk => absurd hk List.not_mem_nil⟩⟩
    | some r =>
      have hrev : (HandleResult.revoked (s.drop h).1.toList
          (notify cfg (s.drop h).1.toList)).revokedHandles = [h] := by
        simp [HandleResult.revokedHandles, hr, hs.get?_handle hr]
      refine ⟨[h], removes_drop s h, ⟨by simp, fun k hk => Or.inr ?_, fun k hk => ?_⟩⟩
      · exact hrev ▸ hk
      · have hk' : k ∈ [h] := hrev ▸ hk
        exact ⟨hk', List.mem_singleton.mp hk' ▸ Dict.mem_keys_of_get? hr⟩

variable [LT τ] [DecidableLT τ] [Add τ] [Zero τ] [One τ]

/-- Below all three ceilings for one more record of `owner`. -/
structure HasRoom (cfg : HandleConfig τ) (s : HandleRegistry τ) (owner : Str × Str) : Prop where
  total : (s.records.values.length : Int) < 2 * cfg.maxHandles
  mine : ownerShare s.records.values owner < cfg.maxHandlesPerPrincipal
  inTenant : tenantShare s.records.values owner.2 < 2 * cfg.maxPerTenant

theorem mint_spec (hs : s.Consistent) (principal tenant kind : Str) (ttl : τ) (handle : Str)
    (now : τ) :
    ∃ s', Swept now s s' ∧
      s.mint cfg principal tenant kind ttl handle now =
        (match (mintArgsError cfg principal tenant ttl).or
          (verdict cfg (s.live now) (principal, tenant)) with
        | some e => (.error e, s')
        | none => (.ok handle, s'.insert
            { handle, principal, tenant, kind, createdAt := now, expiresAt := now + ttl })) ∧
      ((mintArgsError cfg principal tenant ttl).or
          (verdict cfg (s.live now) (principal, tenant)) = none →
        HasRoom cfg s' (principal, tenant)) := by
  unfold mint
  cases ha : mintArgsError cfg principal tenant ttl with
  | some e => exact ⟨s, Swept.refl now s, rfl, fun h => by cases h⟩
  | none =>
    obtain ⟨s', h', he, hroom⟩ :=
      capacityCheck_spec now cfg (principal, tenant) hs
    refine ⟨s', h', ?_, fun h => ?_⟩
    · simp only [he, Option.none_or]
      cases verdict cfg (s.live now) (principal, tenant) <;> rfl
    · obtain ⟨h1, h2, h3⟩ := hroom h
      exact ⟨h1, h2, h3⟩

/-- What one call does to the registry: an accepted `mint` sweeps and adds its record; any other
call removes records only. -/
theorem step_cases (hs : s.Consistent) (c : HandleCall τ) :
    (∃ r s₁, c.record? = some r ∧ Swept c.now s s₁ ∧ HasRoom cfg s₁ r.owner ∧
      s.step cfg c = (.minted r.handle, s₁.insert r)) ∨
    ∃ gone, Removes s (s.step cfg c).2 gone ∧ Dropped s c.now (s.step cfg c).1 gone := by
  obtain ⟨now, op⟩ := c
  cases op with
  | mint principal tenant kind ttl handle =>
    obtain ⟨s₁, h₁, he, hroom⟩ :=
      mint_spec cfg hs principal tenant kind ttl handle.val now
    cases hv : (mintArgsError cfg principal tenant ttl).or
        (verdict cfg (s.live now) (principal, tenant)) with
    | none =>
      rw [hv] at he
      exact Or.inl ⟨_, s₁, rfl, h₁, hroom hv, by simp only [step, he]⟩
    | some e =>
      rw [hv] at he
      obtain ⟨gone, hg, hexp⟩ := h₁.removes
      simp only [step, he]
      exact Or.inr ⟨gone, hg, ⟨fun _ => nofun, fun k hk => Or.inl (hexp k hk), fun _ => nofun⟩⟩
  | resolve handle principal tenant kind =>
    right
    obtain ⟨gone, hg, hexp⟩ := removes_resolve s handle principal tenant kind now
    rcases hres : s.resolve handle principal tenant kind now with ⟨res, s'⟩
    rw [hres] at hg
    cases res <;> simp only [step, hres] <;>
      exact ⟨gone, hg, ⟨fun _ => nofun, fun k hk => Or.inl (hexp k hk), fun _ => nofun⟩⟩
  | revoke handle principal tenant =>
    right
    obtain ⟨gone, hg, hexp⟩ := removes_resolve s handle principal tenant none now
    rcases hres : s.resolve handle principal tenant none now with ⟨res, s'⟩
    rw [hres] at hg
    cases res with
    | error e =>
      simp only [step, hres]
      exact ⟨gone, hg, ⟨fun _ => nofun, fun k hk => Or.inl (hexp k hk), fun _ => nofun⟩⟩
    | ok r =>
      simp only [step, hres]
      obtain ⟨gone', hg', hd⟩ := dropped_adminDrop cfg (hg.consistent hs) (some r.handle)
        now
      refine ⟨gone ++ gone', hg.trans hg', ⟨fun _ => nofun, fun k hk => ?_, fun k hk => ?_⟩⟩
      · rcases List.mem_append.mp hk with hk | hk
        · exact Or.inl (hexp k hk)
        · rcases hd.reason k hk with hk | hk
          · obtain ⟨r', hr', he'⟩ := mem_expiredHandles.mp hk
            exact Or.inl (mem_expiredHandles.mpr ⟨r', (hg.get?_eq_some.mp hr').1, he'⟩)
          · exact Or.inr hk
      · obtain ⟨hk', hkeys⟩ := hd.revoked k hk
        exact ⟨List.mem_append_right _ hk', hg.keys_subset hkeys⟩
  | adminRevoke handle => exact Or.inr (dropped_adminDrop cfg hs handle now)
  | revokePrincipal principal tenant =>
    right
    refine ⟨_, removes_dropPrincipal s principal tenant, ⟨fun _ => nofun, fun k => Or.inr,
      fun k hk => ⟨hk, ?_⟩⟩⟩
    obtain ⟨r, hr, rfl⟩ := List.mem_map.mp hk
    exact Dict.mem_keys_of_get? (hs.get?_of_mem (mem_dropPrincipal.mp hr).1)
  | listForPrincipal principal tenant =>
    right
    exact ⟨_, removes_purge_force s now, ⟨fun _ => nofun, fun k => Or.inl, fun _ => nofun⟩⟩

theorem Consistent.step (hs : s.Consistent) {c : HandleCall τ}
    (hfresh : ∀ r, c.record? = some r → r.handle ∉ s.records.keys) :
    (s.step cfg c).2.Consistent := by
  rcases step_cases cfg hs c with ⟨r, s₁, hr, h₁, -, he⟩ | ⟨gone, hg, -⟩
  · obtain ⟨gone, hg, -⟩ := h₁.removes
    rw [he]
    exact (h₁.consistent hs).insert fun h => hfresh r hr (hg.keys_subset h)
  · exact hg.consistent hs

/-- A call stores no handle but the one it draws. -/
theorem keys_step (hs : s.Consistent) (c : HandleCall τ) {k : Str}
    (hk : k ∈ (s.step cfg c).2.records.keys) :
    k ∈ s.records.keys ∨ ∃ r, c.record? = some r ∧ r.handle = k := by
  rcases step_cases cfg hs c with ⟨r, s₁, hr, h₁, -, he⟩ | ⟨gone, hg, -⟩
  · obtain ⟨gone, hg, -⟩ := h₁.removes
    rw [he] at hk
    rcases Dict.mem_keys_set.mp hk with rfl | hk
    · exact Or.inr ⟨r, hr, rfl⟩
    · exact Or.inl (hg.keys_subset hk)
  · exact Or.inl (hg.keys_subset hk)

end Step

end HandleRegistry

end CosaiMcp.Middleware.State
