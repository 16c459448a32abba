import CosaiMcp.Middleware.State.ReplaySpec
import CosaiMcp.Middleware.State.SealerSpec
import CosaiMcp.Py.Tally

/-!
# The replay cache's counters and caps

`_spent`, its heap and its two counters are four views of the same entries (`Accounted`). A turn of
the purge loop takes one entry out of all four, in whatever order the heap yields them, and an entry
that a block makes comes below the caps; so the views agree, and the caps hold, after any sequence
of blocks (`replayCache_accounted`).
-/

namespace CosaiMcp.Middleware.State

open Py

namespace ReplayCache

variable {φ : Type}

structure Accounted (s : ReplayCache φ) : Prop where
  jtis : (s.heap.map Prod.snd).Perm s.spent.keys
  owners : Exact s.perOwner id s.spent.values
  tenants : Exact s.perTenant Prod.snd s.spent.values
  owner_le : ∀ owner, (countKey id s.spent.values owner : Int) ≤ maxSpentPerOwner
  tenant_le : ∀ tenant, (countKey Prod.snd s.spent.values tenant : Int) ≤ 2 * maxSpentPerTenant
  total_le : (s.spent.size : Int) ≤ 2 * maxSpentEntries

theorem accounted_init : Accounted (init : ReplayCache φ) where
  jtis := .nil
  owners := Exact.nil _
  tenants := Exact.nil _
  owner_le _ := Int.natCast_nonneg _
  tenant_le _ := Int.natCast_nonneg _
  total_le := Int.natCast_nonneg _

theorem Accounted.ownerCount {s : ReplayCache φ} (hs : Accounted s) (owner : Str × Str) :
    s.ownerCount owner = countKey id s.spent.values owner :=
  hs.owners.getD owner

theorem Accounted.tenantCount {s : ReplayCache φ} (hs : Accounted s) (tenant : Str) :
    s.tenantCount tenant = countKey Prod.snd s.spent.values tenant :=
  hs.tenants.getD tenant

/-! ## The purge -/

/-- An entry that leaves the heap leaves the other three as well. -/
theorem Accounted.pop {s : ReplayCache φ} (hs : Accounted s) {first : FloatOrNan φ × Str}
    {heap : List (FloatOrNan φ × Str)} (hperm : s.heap.Perm (first :: heap)) :
    Accounted ({ s with heap }.forget first.2) := by
  have hjtis : (first.2 :: heap.map Prod.snd).Perm s.spent.keys :=
    (hperm.map Prod.snd).symm.trans hs.jtis
  obtain ⟨owner, howner⟩ := Dict.mem_keys_iff.mp (hjtis.mem_iff.mp List.mem_cons_self)
  have hget : s.spent.get? first.2 = some owner := Dict.get?_eq_some_iff.mpr howner
  have hforget : { s with heap }.forget first.2 =
      { spent := s.spent.erase first.2
        heap
        perOwner := decrement s.perOwner owner
        perTenant := decrement s.perTenant owner.2 } := by
    rw [forget]
    simp only [hget]
  have hkeys : s.spent.keys.Perm (first.2 :: (s.spent.erase first.2).keys) :=
    (Dict.perm_erase hget).map Prod.fst
  have hvalues := Dict.values_perm_erase hget
  rw [hforget]
  refine ⟨?_, ?_, ?_, fun o => ?_, fun t => ?_, ?_⟩
  · exact (hjtis.trans hkeys).cons_inv
  · exact hs.owners.remove hvalues (get?_decrement _ _)
  · exact hs.tenants.remove hvalues (get?_decrement _ _)
  · have hcount := hs.owner_le o
    rw [countKey_perm hvalues, countKey_cons] at hcount
    dsimp only
    omega
  · have hcount := hs.tenant_le t
    rw [countKey_perm hvalues, countKey_cons] at hcount
    dsimp only
    omega
  · have hlen := hvalues.length_eq
    have htotal := hs.total_le
    rw [Dict.size_eq_length_values] at htotal ⊢
    rw [List.length_cons] at hlen
    dsimp only
    omega

variable [PyFloat φ]

theorem Accounted.popExpired {s s' : ReplayCache φ} (hs : Accounted s) {now : φ}
    (h : s.popExpired now = some s') : Accounted s' := by
  unfold ReplayCache.popExpired at h
  split at h
  · cases h
  · next first heap hpop =>
    split at h
    · cases h
      exact hs.pop (heappop_perm entryLt hpop).2
    · cases h

theorem Accounted.purgeLoop {s : ReplayCache φ} (hs : Accounted s) (now : φ) (n : Nat) :
    Accounted (purgeLoop now n s) := by
  induction n generalizing s with
  | zero => exact hs
  | succ n ih =>
    unfold ReplayCache.purgeLoop
    split
    · exact hs
    · next hpop => exact ih (hs.popExpired hpop)

theorem Accounted.purge {s : ReplayCache φ} (hs : Accounted s) (now : φ) :
    Accounted (s.purge now) :=
  hs.purgeLoop now _

/-! ## The entry of a block -/

/-- What the caps leave for one more entry. -/
structure HasRoom (s : ReplayCache φ) (owner : Str × Str) : Prop where
  mine : s.ownerCount owner < maxSpentPerOwner
  inTenant : s.tenantCount owner.2 < 2 * maxSpentPerTenant
  total : (s.spent.size : Int) < 2 * maxSpentEntries

omit [PyFloat φ] in
/-- The floors let an owner past a cap up to twice the cap only. -/
theorem hasRoom_of_not_full {s : ReplayCache φ} {owner : Str × Str} (h : ¬s.full owner = true) :
    s.HasRoom owner := by
  simp only [full, Bool.or_eq_true, Bool.and_eq_true, decide_eq_true_eq, not_or, not_and] at h
  have hcap : maxSpentPerTenant ≤ 2 * maxSpentPerTenant := by decide
  have htotal : maxSpentEntries ≤ 2 * maxSpentEntries := by decide
  obtain ⟨⟨hmine, htenant⟩, hall⟩ := h
  refine ⟨Int.lt_of_not_ge hmine, Int.lt_of_not_ge fun hge => ?_, Int.lt_of_not_ge fun hge => ?_⟩
  · exact (htenant (hcap.trans hge)).2 hge
  · exact (hall (htotal.trans hge)).2 hge

omit [PyFloat φ] in
/-- An entry made where there is room for it. -/
theorem Accounted.record {s : ReplayCache φ} (hs : Accounted s) {jti : Str} {owner : Str × Str}
    (hfresh : jti ∉ s.spent.keys) (hroom : s.HasRoom owner) {exp : FloatOrNan φ}
    {heap : List (FloatOrNan φ × Str)} (hheap : heap.Perm ((exp, jti) :: s.heap)) :
    Accounted { s.record jti owner with heap } := by
  have hvalues : (s.spent.set jti owner).values.Perm (owner :: s.spent.values) := by
    rw [Dict.values_set_of_not_mem hfresh]
    exact List.perm_append_singleton owner s.spent.values
  obtain ⟨hmine, hinTenant, htotal⟩ := hroom
  rw [hs.ownerCount] at hmine
  rw [hs.tenantCount] at hinTenant
  refine ⟨?_, hs.owners.insert hvalues, hs.tenants.insert hvalues, fun o => ?_, fun t => ?_, ?_⟩
  · show (heap.map Prod.snd).Perm (s.spent.set jti owner).keys
    rw [Dict.keys_set_of_not_mem hfresh]
    refine (hheap.map Prod.snd).trans ?_
    exact (hs.jtis.cons jti).trans (List.perm_append_singleton jti s.spent.keys).symm
  · show (countKey id (s.spent.set jti owner).values o : Int) ≤ _
    rw [countKey_perm hvalues, countKey_cons]
    split
    · next ho =>
      subst ho
      push_cast
      exact Int.add_one_le_of_lt hmine
    · exact hs.owner_le o
  · show (countKey Prod.snd (s.spent.set jti owner).values t : Int) ≤ _
    rw [countKey_perm hvalues, countKey_cons]
    split
    · next ht =>
      subst ht
      push_cast
      exact Int.add_one_le_of_lt hinTenant
    · exact hs.tenant_le t
  · show ((s.spent.set jti owner).size : Int) ≤ _
    have hlen := hvalues.length_eq
    rw [Dict.size_eq_length_values] at htotal ⊢
    rw [List.length_cons] at hlen
    omega

/-- A block keeps the accounting, if `float` of the expiry does not raise. -/
theorem Accounted.redeem {s : ReplayCache φ} (hs : Accounted s) {t : Ticket φ}
    (hexp : t.exp.toFloat? ≠ none) : Accounted (s.redeem t).2 := by
  unfold ReplayCache.redeem
  dsimp only
  have hpurged := hs.purge t.now
  split
  · exact hpurged
  · next hfresh =>
    split
    · exact hpurged
    · next hfull =>
      split
      · next hnone => exact absurd hnone hexp
      · exact hpurged.record hfresh (hasRoom_of_not_full hfull) (heappush_perm _ _ _)

theorem Accounted.final {s : ReplayCache φ} (hs : Accounted s) {tickets : List (Ticket φ)}
    (h : ∀ t ∈ tickets, t.exp.toFloat? ≠ none) :
    Accounted (Run.final ReplayCache.redeem s tickets) := by
  induction tickets generalizing s with
  | nil => exact hs
  | cons t tickets ih =>
    rw [List.forall_mem_cons] at h
    exact ih (hs.redeem h.1) h.2

/-- The ticket carries what `seal` put into a token; its `now` may be anything. -/
def OfSeal (t : Ticket φ) : Prop :=
  ∃ (c : SealCall φ) (ttl : Int), t.exp = .float (.real (c.expiry ttl)) ∧ t.jti = c.jti.val

theorem OfSeal.toFloat? {t : Ticket φ} (h : OfSeal t) : t.exp.toFloat? ≠ none := by
  obtain ⟨c, ttl, hexp, -⟩ := h
  rw [hexp]
  nofun

/-- After any sequence of blocks on tokens that `seal` made, whatever clock readings they go by: the
heap holds each `jti` of `_spent` once and no other, the counters are the numbers of entries and
store no zero, and the caps hold. -/
theorem replayCache_accounted (tickets : List (Ticket φ)) (h : ∀ t ∈ tickets, OfSeal t) :
    let s := Run.final redeem init tickets
    let owned (owner : Str × Str) : Nat := s.spent.values.countP fun o => o = owner
    let inTenant (tenant : Str) : Nat := s.spent.values.countP fun o => o.2 = tenant
    ((s.heap.map Prod.snd).Nodup ∧ ∀ jti, jti ∈ s.heap.map Prod.snd ↔ jti ∈ s.spent.keys) ∧
    (∀ owner, s.perOwner.get? owner =
      if owned owner = 0 then none else some (owned owner : Int)) ∧
    (∀ tenant, s.perTenant.get? tenant =
      if inTenant tenant = 0 then none else some (inTenant tenant : Int)) ∧
    (∀ owner, owned owner ≤ 10000) ∧
    (∀ tenant, (inTenant tenant : Int) ≤ 2 * maxSpentPerTenant) ∧
    (s.spent.size : Int) ≤ 2 * maxSpentEntries := by
  have hs := Accounted.final accounted_init fun t ht => (h t ht).toFloat?
  refine ⟨⟨?_, fun jti => hs.jtis.mem_iff⟩, hs.owners, hs.tenants, fun owner => ?_, hs.tenant_le,
    hs.total_le⟩
  · exact hs.jtis.nodup_iff.mpr (Run.final redeem init tickets).spent.nodup
  · exact Int.ofNat_le.mp (hs.owner_le owner)

/-! ## A stale block -/

/-- Of three sample seals, the block of the second goes by a reading at which the first has expired,
and the third comes with an older one. -/
def staleTickets : List (Ticket WholeFloat) :=
  [⟨(sampleJti 1).val, .float (.real (.whole 10)), (lit "alice", lit "acme"), .whole 5⟩,
    ⟨(sampleJti 2).val, .float (.real (.whole 100)), (lit "alice", lit "acme"), .whole 11⟩,
    ⟨(sampleJti 3).val, .float (.real (.whole 10)), (lit "bob", lit "acme"), .whole 6⟩]

theorem ofSeal_staleTickets : ∀ t ∈ staleTickets, OfSeal t := by
  intro t ht
  rcases List.mem_cons.mp ht with rfl | ht
  · exact ⟨sampleSeal 1 (lit "one") 10, 10, rfl, rfl⟩
  rcases List.mem_pair.mp ht with rfl | rfl
  · exact ⟨sampleSeal 2 (lit "two") 100, 100, rfl, rfl⟩
  · exact ⟨sampleSeal 3 (lit "three") 10, 10, rfl, rfl⟩

theorem replayCache_accounted_stale :
    let s := Run.final redeem init staleTickets
    s.spent.keys = [(sampleJti 2).val, (sampleJti 3).val] ∧ (s.heap.map Prod.snd).Nodup ∧
      ∀ jti, jti ∈ s.heap.map Prod.snd ↔ jti ∈ s.spent.keys :=
  ⟨by decide +kernel, (replayCache_accounted staleTickets ofSeal_staleTickets).1⟩

end ReplayCache

end CosaiMcp.Middleware.State
