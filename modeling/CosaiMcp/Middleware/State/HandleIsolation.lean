import CosaiMcp.Middleware.State.HandleRefinement

/-!
# One tenant's handles do not cost another tenant its capacity

With the default partition a tenant gets a quarter of the registry and may hold up to twice that.
Two tenants therefore never fill more than the whole registry, and they fill it only when each is at
its own ceiling; so the verdict on a `mint` of one tenant is the same whether or not the other's
records are there (`verdict_without`). The run without the other tenant's calls is simulated call by
call: its live records are those of the full run without the other tenant's (`Twins.step_left`,
`Twins.step_both`).
-/

namespace CosaiMcp.Middleware.State

open Py

variable {τ : Type}

/-- The tenant that a call is made for. An operator's call need not name one. -/
def HandleOp.tenant? : HandleOp τ → Option Str
  | .mint _ tenant .. => some tenant
  | .resolve _ _ tenant _ => some tenant
  | .revoke _ _ tenant => some tenant
  | .adminRevoke _ => none
  | .revokePrincipal _ tenant => tenant
  | .listForPrincipal _ tenant => tenant

/-- The run with all of `tenant`'s calls erased. -/
def eraseTenant (tenant : Str) (calls : List (HandleCall τ)) : List (HandleCall τ) :=
  calls.filter fun c => c.op.tenant? ≠ some tenant

def HandleResult.accepted : HandleResult τ → Bool
  | .minted _ => true
  | _ => false

/-- The `mint` calls of `tenant`, each with whether it was accepted. -/
def mintOutcomes (tenant : Str) (t : HandleTrace τ) : List (HandleCall τ × Bool) :=
  t.filterMap fun (c, res) =>
    match c.op with
    | .mint _ tenant' .. => if tenant' = tenant then some (c, res.accepted) else none
    | _ => none

/-- The records of the other tenants. -/
def without (tenant : Str) (rs : List (HandleRecord τ)) : List (HandleRecord τ) :=
  rs.filter (·.tenant ≠ tenant)

/-! ## The verdict -/

section Verdict

variable {a b : Str}

theorem ownerShare_without (rs : List (HandleRecord τ)) {owner : Str × Str} (h : owner.2 ≠ a) :
    HandleRegistry.ownerShare (without a rs) owner = HandleRegistry.ownerShare rs owner := by
  unfold HandleRegistry.ownerShare countKey without
  rw [List.countP_filter]
  refine congrArg Nat.cast (List.countP_congr fun r _ => ?_)
  simp only [decide_not, Bool.and_eq_true, decide_eq_true_eq, Bool.not_eq_true',
    decide_eq_false_iff_not, and_iff_left_iff_imp]
  rintro rfl
  exact h

theorem tenantShare_without (rs : List (HandleRecord τ)) (h : b ≠ a) :
    HandleRegistry.tenantShare (without a rs) b = HandleRegistry.tenantShare rs b := by
  unfold HandleRegistry.tenantShare countKey without
  rw [List.countP_filter]
  refine congrArg Nat.cast (List.countP_congr fun r _ => ?_)
  simp only [decide_not, Bool.and_eq_true, decide_eq_true_eq, Bool.not_eq_true',
    decide_eq_false_iff_not, and_iff_left_iff_imp]
  rintro rfl
  exact h

/-- Records of two tenants only: the registry is the sum of the two shares. -/
theorem length_eq_shares (hab : a ≠ b) {rs : List (HandleRecord τ)}
    (hrs : ∀ r ∈ rs, r.tenant = a ∨ r.tenant = b) :
    (rs.length : Int) = HandleRegistry.tenantShare rs a + HandleRegistry.tenantShare rs b := by
  induction rs with
  | nil => rfl
  | cons r rs ih =>
    have ih := ih fun r' hr' => hrs r' (List.mem_cons_of_mem _ hr')
    unfold HandleRegistry.tenantShare at ih ⊢
    rw [List.length_cons, countKey_cons, countKey_cons]
    rcases hrs r List.mem_cons_self with h | h
    · have hne : r.tenant ≠ b := fun hb => hab (h.symm.trans hb)
      simp only [h, hab, ↓reduceIte]
      omega
    · have hne : b ≠ a := hab.symm
      simp only [h, hne, ↓reduceIte]
      omega

/-- A quarter each, at most twice that each: `a`'s records do not change whether `b` may mint. If
the registry is full then `b` is at its own ceiling. -/
theorem verdict_without {cfg : HandleConfig τ} (hpart : cfg.maxHandlesPerTenant = none)
    (hmax : 4 ≤ cfg.maxHandles) (hab : a ≠ b) {rs : List (HandleRecord τ)}
    (hrs : ∀ r ∈ rs, r.tenant = a ∨ r.tenant = b)
    (hshare : ∀ t, HandleRegistry.tenantShare rs t ≤ 2 * cfg.maxPerTenant) (principal : Str) :
    HandleRegistry.verdict cfg rs (principal, b) = none ↔
      HandleRegistry.verdict cfg (without a rs) (principal, b) = none := by
  have hpt : cfg.maxPerTenant = cfg.maxHandles / 4 := by
    simp only [HandleConfig.maxPerTenant, hpart]; omega
  have hlen := length_eq_shares hab hrs
  have hlen' : ((without a rs).length : Int) = HandleRegistry.tenantShare rs b := by
    rw [length_eq_shares hab fun r (hr : r ∈ without a rs) => hrs r (List.mem_filter.mp hr).1,
      tenantShare_without rs hab.symm]
    have : HandleRegistry.tenantShare (without a rs) a = 0 := by
      unfold HandleRegistry.tenantShare countKey without
      rw [List.countP_filter]
      refine congrArg Nat.cast (List.countP_eq_zero.mpr fun r _ => ?_)
      simp
    omega
  have ha := hshare a
  have hb := hshare b
  have hfull : ¬ cfg.maxHandles ≤ (without a rs).length := by omega
  unfold HandleRegistry.verdict
  rw [ownerShare_without rs hab.symm, tenantShare_without rs hab.symm]
  by_cases hg : cfg.maxHandles ≤ rs.length ∧
      (ownerFloor ≤ HandleRegistry.ownerShare rs (principal, b) ∨
        2 * cfg.maxHandles ≤ rs.length)
  · have hceil : cfg.maxPerTenant ≤ HandleRegistry.tenantShare rs b ∧
        (ownerFloor ≤ HandleRegistry.ownerShare rs (principal, b) ∨
          2 * cfg.maxPerTenant ≤ HandleRegistry.tenantShare rs b) := by omega
    simp only [hg, hfull, hceil, and_self, false_and, ↓reduceIte]
    split <;> simp
  · simp [hg, hfull]

end Verdict

/-! ## One call -/

section Act

variable {a : Str} {rs : List (HandleRecord τ)}

/-- No two records have one handle. -/
def UniqueHandles (rs : List (HandleRecord τ)) : Prop :=
  ∀ r ∈ rs, ∀ r' ∈ rs, r.handle = r'.handle → r = r'

theorem UniqueHandles.filter (h : UniqueHandles rs) (p : HandleRecord τ → Bool) :
    UniqueHandles (rs.filter p) := fun r hr r' hr' =>
  h r (List.mem_filter.mp hr).1 r' (List.mem_filter.mp hr').1

theorem without_append (rs rs' : List (HandleRecord τ)) :
    without a (rs ++ rs') = without a rs ++ without a rs' := List.filter_append ..

theorem without_filter (rs : List (HandleRecord τ)) (p : HandleRecord τ → Bool) :
    without a (rs.filter p) = (without a rs).filter p := by
  unfold without
  rw [List.filter_filter, List.filter_filter]
  exact List.filter_congr fun _ _ => Bool.and_comm _ _

theorem find?_eq_some_iff (hrs : UniqueHandles rs) {r : HandleRecord τ} {h : Str} :
    Reference.find? rs h = some r ↔ r ∈ rs ∧ r.handle = h := by
  constructor
  · intro hf
    exact ⟨List.mem_of_find?_eq_some hf, by simpa using List.find?_some hf⟩
  · rintro ⟨hr, hh⟩
    cases hf : Reference.find? rs h with
    | none => exact absurd (List.find?_eq_none.mp hf r hr) (by simp [hh])
    | some r' =>
      have hh' : r'.handle = h := by simpa using List.find?_some hf
      rw [hrs r' (List.mem_of_find?_eq_some hf) r hr (hh'.trans hh.symm)]

theorem reference_resolve_eq_ok_iff (hrs : UniqueHandles rs) {handle : Option Str}
    {principal tenant : Str} {kind : Option Str} {r : HandleRecord τ} :
    Reference.resolve rs handle principal tenant kind = .ok r ↔
      (r ∈ rs ∧ r.tenant = tenant) ∧ handle = some r.handle ∧ r.handle.length ≤ 256 ∧
        (r.principal = principal ∧ isScalar principal = true) ∧ isScalar tenant = true ∧
        kind.all (r.kind == ·) = true := by
  cases handle with
  | none => simp [Reference.resolve]
  | some h =>
    unfold Reference.resolve
    by_cases hl : 256 < h.length
    · simp only [hl, ↓reduceIte, reduceCtorEq, Option.some.injEq, false_iff]
      rintro ⟨-, rfl, hle, -⟩
      omega
    · simp only [hl, ↓reduceIte, HandleRegistry.authorize_eq_ok_iff, find?_eq_some_iff hrs,
        Option.some.injEq]
      constructor
      · rintro ⟨⟨hr, rfl⟩, hp, ⟨ht, hts⟩, hk⟩
        exact ⟨⟨hr, ht⟩, rfl, by omega, hp, hts, hk⟩
      · rintro ⟨⟨hr, ht⟩, rfl, -, hp, hts, hk⟩
        exact ⟨⟨hr, rfl⟩, hp, ⟨ht, hts⟩, hk⟩

/-- What `a`'s records do not change: the look-up of a handle for another tenant. -/
theorem resolve_without (hrs : UniqueHandles rs) {handle : Option Str} {principal tenant : Str}
    {kind : Option Str} (ht : tenant ≠ a) {r : HandleRecord τ} :
    Reference.resolve (without a rs) handle principal tenant kind = .ok r ↔
      Reference.resolve rs handle principal tenant kind = .ok r := by
  have hwithout : UniqueHandles (without a rs) := hrs.filter _
  rw [reference_resolve_eq_ok_iff hrs, reference_resolve_eq_ok_iff hwithout]
  refine and_congr_left fun _ => and_congr_left fun hrt => ?_
  have hne : r.tenant ≠ a := hrt ▸ ht
  simp [without, hne]

variable [LE τ] [DecidableLE τ] [LT τ] [DecidableLT τ] [Add τ] [Zero τ] (cfg : HandleConfig τ)

/-- A call of `a` does not touch the records of the others. -/
theorem act_of_tenant (hrs : UniqueHandles rs) {c : HandleCall τ}
    (hc : c.op.tenant? = some a) :
    without a (Reference.act cfg rs c).2 = without a rs := by
  obtain ⟨now, op⟩ := c
  cases op with
  | mint principal tenant kind ttl handle =>
    cases hc
    simp only [Reference.act]
    split
    · rfl
    · rw [without_append]
      simp [without]
  | resolve handle principal tenant kind =>
    simp only [Reference.act]
    split <;> rfl
  | revoke handle principal tenant =>
    cases hc
    simp only [Reference.act]
    split
    · rename_i r hr
      obtain ⟨⟨hmem, ht⟩, -⟩ := (reference_resolve_eq_ok_iff hrs).mp hr
      unfold Reference.remove
      rw [without_filter, List.filter_eq_self]
      intro r' hr'
      obtain ⟨hmem', hne⟩ := List.mem_filter.mp hr'
      simp only [decide_not, Bool.not_eq_true', decide_eq_false_iff_not]
      intro hh
      rw [hrs r' hmem' r hmem hh, ht] at hne
      simp at hne
    · rfl
  | adminRevoke handle => cases hc
  | revokePrincipal principal tenant =>
    cases hc
    simp only [Reference.act]
    rw [without_filter, List.filter_eq_self]
    intro r hr
    obtain ⟨-, hne⟩ := List.mem_filter.mp hr
    have hne : r.tenant ≠ a := by simpa using hne
    simp [HandleRecord.belongsTo, hne]
  | listForPrincipal principal tenant => rfl

/-- Any other call does the same with and without `a`'s records, if a `mint` gets the same
verdict. -/
theorem act_without (hrs : UniqueHandles rs) {c : HandleCall τ} (hc : c.op.tenant? ≠ some a)
    (hv : ∀ principal tenant kind ttl handle, c.op = .mint principal tenant kind ttl handle →
      (HandleRegistry.verdict cfg rs (principal, tenant) = none ↔
        HandleRegistry.verdict cfg (without a rs) (principal, tenant) = none)) :
    (Reference.act cfg (without a rs) c).1.accepted = (Reference.act cfg rs c).1.accepted ∧
      (Reference.act cfg (without a rs) c).2 = without a (Reference.act cfg rs c).2 := by
  obtain ⟨now, op⟩ := c
  cases op with
  | mint principal tenant kind ttl handle =>
    have hne : tenant ≠ a := fun h => hc (congrArg some h)
    have hv := hv principal tenant kind ttl handle rfl
    simp only [Reference.act]
    cases hargs : HandleRegistry.mintArgsError cfg principal tenant ttl with
    | some e => exact ⟨rfl, rfl⟩
    | none =>
      cases h : HandleRegistry.verdict cfg rs (principal, tenant) with
      | none =>
        rw [hv.mp h]
        simp only [Option.none_or, true_and]
        rw [without_append]
        simp [without, hne]
      | some e =>
        cases h' : HandleRegistry.verdict cfg (without a rs) (principal, tenant) with
        | none => exact absurd (hv.mpr h') (by simp [h])
        | some e' => exact ⟨rfl, rfl⟩
  | resolve handle principal tenant kind =>
    simp only [Reference.act]
    cases Reference.resolve (without a rs) handle principal tenant kind <;>
      cases Reference.resolve rs handle principal tenant kind <;> exact ⟨rfl, rfl⟩
  | revoke handle principal tenant =>
    have hne : tenant ≠ a := fun h => hc (congrArg some h)
    have hiff : ∀ r, Reference.resolve (without a rs) handle principal tenant none = .ok r ↔
        Reference.resolve rs handle principal tenant none = .ok r :=
      fun r => resolve_without hrs hne
    simp only [Reference.act]
    cases h : Reference.resolve rs handle principal tenant none with
    | ok r =>
      rw [(hiff r).mpr h]
      exact ⟨rfl, (without_filter rs _).symm⟩
    | error e =>
      cases h' : Reference.resolve (without a rs) handle principal tenant none with
      | ok r => exact absurd ((hiff r).mp h') (by simp [h])
      | error e' => exact ⟨rfl, rfl⟩
  | adminRevoke handle =>
    cases handle with
    | none => exact ⟨rfl, rfl⟩
    | some h => exact ⟨rfl, (without_filter rs _).symm⟩
  | revokePrincipal principal tenant => exact ⟨rfl, (without_filter rs _).symm⟩
  | listForPrincipal principal tenant => exact ⟨rfl, rfl⟩

end Act

/-! ## Two runs -/

section Runs

variable {a b : Str}

theorem mintOutcomes_append (t t' : HandleTrace τ) :
    mintOutcomes b (t ++ t') = mintOutcomes b t ++ mintOutcomes b t' := List.filterMap_append

theorem mintOutcomes_congr (c : HandleCall τ) {res res' : HandleResult τ}
    (h : res.accepted = res'.accepted) :
    mintOutcomes b [(c, res)] = mintOutcomes b [(c, res')] := by
  simp only [mintOutcomes, List.filterMap_cons, h]

theorem mintOutcomes_of_tenant (hab : a ≠ b) {c : HandleCall τ} (hc : c.op.tenant? = some a)
    (res : HandleResult τ) : mintOutcomes b [(c, res)] = [] := by
  obtain ⟨now, op⟩ := c
  cases op with
  | mint principal tenant kind ttl handle => cases hc; simp [mintOutcomes, hab]
  | _ => rfl

theorem tenant?_of_record? [Add τ] {c : HandleCall τ} {r : HandleRecord τ}
    (h : c.record? = some r) : c.op.tenant? = some r.tenant := by
  obtain ⟨now, op⟩ := c
  cases op with
  | mint principal tenant kind ttl handle => cases h; rfl
  | _ => cases h

namespace HandleRegistry

theorem Consistent.uniqueHandles {s : HandleRegistry τ} (hs : s.Consistent) :
    UniqueHandles s.records.values := by
  intro r hr r' hr' hh
  have := hs.get?_of_mem hr
  rw [hh, hs.get?_of_mem hr'] at this
  exact (Option.some.inj this).symm

variable [LinearOrder τ] [Add τ] [Zero τ] {cfg : HandleConfig τ}

/-- After the same calls, `s` in the full run and `s'` in the run without `a`'s. -/
structure Twins (cfg : HandleConfig τ) (a b : Str) (calls : List (HandleCall τ))
    (s s' : HandleRegistry τ) : Prop where
  accounting : Accounting cfg s
  consistent : s'.Consistent
  tenants : ∀ r ∈ s.records.values, r.tenant = a ∨ r.tenant = b
  drawn : ∀ k ∈ s.records.keys, k ∈ mintHandles calls
  drawn' : ∀ k ∈ s'.records.keys, k ∈ mintHandles calls
  live : ∀ t, (∀ c ∈ calls, c.now ≤ t) → s'.live t = without a (s.live t)

theorem Twins.init (cfg : HandleConfig τ) (a b : Str) : Twins cfg a b [] init init :=
  { accounting := Accounting.init cfg
    consistent := Consistent.init
    tenants := fun r hr => by cases hr
    drawn := fun k hk => by cases hk
    drawn' := fun k hk => by cases hk
    live := fun _ _ => rfl }

variable [One τ]

theorem step_accepted {s : HandleRegistry τ} (hs : s.Consistent) (c : HandleCall τ)
    (hfresh : ∀ r, c.record? = some r → r.handle ∉ s.records.keys) :
    (s.step cfg c).1.accepted = (Reference.act cfg (s.live c.now) c).1.accepted := by
  have hact := (step_act cfg hs c hfresh).1
  obtain ⟨now, op⟩ := c
  cases op with
  | adminRevoke handle => rfl
  | revokePrincipal principal tenant => rfl
  | _ => rw [hact rfl]

variable {calls : List (HandleCall τ)} {s s' : HandleRegistry τ} {c : HandleCall τ}

/-- The full run goes on with a call: what holds of its state alone. -/
theorem Twins.full (h : Twins cfg a b calls s s')
    (hfresh : ∀ r, c.record? = some r → r.handle ∉ s.records.keys)
    (hc : ∀ t ∈ c.op.tenant?, t = a ∨ t = b) :
    Accounting cfg (s.step cfg c).2 ∧
      (∀ r ∈ (s.step cfg c).2.records.values, r.tenant = a ∨ r.tenant = b) ∧
      ∀ k ∈ (s.step cfg c).2.records.keys, k ∈ mintHandles (calls ++ [c]) := by
  have hcons := h.accounting.toConsistent
  refine ⟨h.accounting.step hfresh, ?_, fun k hk => ?_⟩
  · rcases step_cases cfg hcons c with ⟨r, s₁, hr, h₁, -, he⟩ | ⟨gone, hg, -⟩
    · obtain ⟨gone, hg, -⟩ := h₁.removes
      rw [he]
      intro r' hr'
      rw [values_insert fun hin => hfresh r hr (hg.keys_subset hin), List.mem_append] at hr'
      rcases hr' with hr' | hr'
      · exact h.tenants r' (hg.values_sublist.subset hr')
      · rw [List.mem_singleton.mp hr']
        exact hc _ (tenant?_of_record? hr)
    · exact fun r hr => h.tenants r (hg.values_sublist.subset hr)
  · rw [mintHandles_append, List.mem_append]
    rcases keys_step cfg hcons c hk with hk | ⟨r, hr, rfl⟩
    · exact Or.inl (h.drawn k hk)
    · right; simp [mintHandles, hr]

/-- A call of `a` happens in the full run only. -/
theorem Twins.step_left (h : Twins cfg a b calls s s')
    (hfresh : ∀ r, c.record? = some r → r.handle ∉ s.records.keys)
    (htime : ∀ c' ∈ calls, c'.now ≤ c.now) (hc : c.op.tenant? = some a) :
    Twins cfg a b (calls ++ [c]) (s.step cfg c).2 s' := by
  have hcons := h.accounting.toConsistent
  obtain ⟨hacc, htenants, hdrawn⟩ := h.full hfresh fun t ht => by
    rw [hc] at ht
    exact Or.inl (Option.some.inj ht).symm
  refine ⟨hacc, h.consistent, htenants, hdrawn, fun k hk => ?_, fun t ht => ?_⟩
  · rw [mintHandles_append]
    exact List.mem_append_left _ (h.drawn' k hk)
  · have hnow : c.now ≤ t := ht c (by simp)
    have hunique : UniqueHandles (s.live c.now) := hcons.uniqueHandles.filter _
    have huu : unexpired t (s.live c.now) = s.live t := unexpired_unexpired hnow _
    rw [h.live t fun c' hc' => (htime c' hc').trans hnow, (step_act cfg hcons c hfresh).2 t hnow,
      ← huu]
    unfold unexpired
    rw [without_filter, without_filter, act_of_tenant cfg hunique hc]

/-- Any other call happens in both runs, with the same outcome. -/
theorem Twins.step_both (h : Twins cfg a b calls s s') (hpart : cfg.maxHandlesPerTenant = none)
    (hmax : 4 ≤ cfg.maxHandles) (hab : a ≠ b)
    (hfresh : ∀ r, c.record? = some r → r.handle ∉ mintHandles calls)
    (htime : ∀ c' ∈ calls, c'.now ≤ c.now) (hc : ∀ t ∈ c.op.tenant?, t = a ∨ t = b)
    (hca : c.op.tenant? ≠ some a) :
    Twins cfg a b (calls ++ [c]) (s.step cfg c).2 (s'.step cfg c).2 ∧
      (s.step cfg c).1.accepted = (s'.step cfg c).1.accepted := by
  have hcons := h.accounting.toConsistent
  have hs : ∀ r, c.record? = some r → r.handle ∉ s.records.keys :=
    fun r hr hin => hfresh r hr (h.drawn _ hin)
  have hs' : ∀ r, c.record? = some r → r.handle ∉ s'.records.keys :=
    fun r hr hin => hfresh r hr (h.drawn' _ hin)
  have hlive := h.live c.now htime
  have hunique : UniqueHandles (s.live c.now) := hcons.uniqueHandles.filter _
  have hshare : ∀ t, tenantShare (s.live c.now) t ≤ 2 * cfg.maxPerTenant := by
    intro t
    have : tenantShare (s.live c.now) t ≤ tenantShare s.records.values t :=
      tenantShare_mono List.filter_sublist t
    have := h.accounting.tenant_le t
    simp only [HandleConfig.maxPerTenant, hpart] at this ⊢
    omega
  have hact := act_without cfg hunique hca fun principal tenant kind ttl handle he => by
    have htenant : tenant = b := (hc tenant (by rw [he]; rfl)).resolve_left fun ha =>
      hca (by rw [he, ← ha]; rfl)
    subst htenant
    exact verdict_without hpart hmax hab
      (fun r hr => h.tenants r (List.mem_filter.mp hr).1) hshare principal
  obtain ⟨hacc, htenants, hdrawn⟩ := h.full hs hc
  refine ⟨⟨hacc, h.consistent.step cfg hs', htenants, hdrawn, fun k hk => ?_, fun t ht => ?_⟩, ?_⟩
  · rw [mintHandles_append, List.mem_append]
    rcases keys_step cfg h.consistent c hk with hk | ⟨r, hr, rfl⟩
    · exact Or.inl (h.drawn' k hk)
    · right; simp [mintHandles, hr]
  · have hnow : c.now ≤ t := ht c (by simp)
    rw [(step_act cfg hcons c hs).2 t hnow, (step_act cfg h.consistent c hs').2 t hnow, hlive, hact.2]
    unfold unexpired
    rw [without_filter]
  · rw [step_accepted hcons c hs, step_accepted h.consistent c hs', hlive, hact.1]

/-- The outcomes of `b`'s `mint` calls are the same with all of `a`'s calls erased. -/
theorem tenant_isolation (cfg : HandleConfig τ) (hpart : cfg.maxHandlesPerTenant = none)
    (hmax : 4 ≤ cfg.maxHandles) (hab : a ≠ b) (calls : List (HandleCall τ))
    (htenants : ∀ c ∈ calls, ∀ t ∈ c.op.tenant?, t = a ∨ t = b)
    (htime : calls.Pairwise fun c c' => c.now ≤ c'.now) (hd : (mintHandles calls).Nodup) :
    mintOutcomes b (Run.trace (step cfg) init calls) =
      mintOutcomes b (Run.trace (step cfg) init (eraseTenant a calls)) := by
  let Ok := fun calls : List (HandleCall τ) =>
    (∀ c ∈ calls, ∀ t ∈ c.op.tenant?, t = a ∨ t = b) ∧
      (calls.Pairwise fun c c' => c.now ≤ c'.now) ∧ (mintHandles calls).Nodup
  let P := fun (calls : List (HandleCall τ)) (t : HandleTrace τ) (s : HandleRegistry τ) =>
    Twins cfg a b calls s (Run.final (step cfg) init (eraseTenant a calls)) ∧
      mintOutcomes b t = mintOutcomes b (Run.trace (step cfg) init (eraseTenant a calls))
  refine (Run.history (step cfg) Ok (P := P) ?_ ?_ ?_ calls
    ⟨htenants, htime, hd⟩).2
  · rintro calls c ⟨ht, htime, hd⟩
    rw [mintHandles_append] at hd
    exact ⟨fun c' hc' => ht c' (List.mem_append_left _ hc'), (List.pairwise_append.mp htime).1,
      (List.nodup_append.mp hd).1⟩
  · exact ⟨Twins.init cfg a b, rfl⟩
  · rintro calls t s c ⟨htwins, hout⟩ ⟨ht, htime, hd⟩
    have htime' : ∀ c' ∈ calls, c'.now ≤ c.now := fun c' hc' =>
      (List.pairwise_append.mp htime).2.2 c' hc' c (List.mem_singleton_self c)
    have hfresh : ∀ r, c.record? = some r → r.handle ∉ mintHandles calls := by
      intro r hr hin
      rw [mintHandles_concat_of_record hr] at hd
      exact (List.nodup_append.mp hd).2.2 _ hin _ (by simp) rfl
    by_cases hca : c.op.tenant? = some a
    · have herase : eraseTenant a (calls ++ [c]) = eraseTenant a calls := by
        simp [eraseTenant, hca]
      show Twins _ _ _ _ _ (Run.final _ _ (eraseTenant a (calls ++ [c]))) ∧ _ = _
      rw [herase, mintOutcomes_append, mintOutcomes_of_tenant hab hca, List.append_nil]
      exact ⟨htwins.step_left (fun r hr hin => hfresh r hr (htwins.drawn _ hin)) htime' hca, hout⟩
    · have herase : eraseTenant a (calls ++ [c]) = eraseTenant a calls ++ [c] := by
        simp [eraseTenant, hca]
      show Twins _ _ _ _ _ (Run.final _ _ (eraseTenant a (calls ++ [c]))) ∧ _ = _
      rw [herase, Run.final_concat, Run.trace_concat, mintOutcomes_append, mintOutcomes_append,
        hout]
      obtain ⟨hnext, hacc⟩ := htwins.step_both hpart hmax hab hfresh htime'
        (ht c (List.mem_append_right _ (List.mem_singleton_self c))) hca
      exact ⟨hnext, congrArg _ (mintOutcomes_congr c hacc)⟩

/-- Two principals of one tenant mint before and between the calls of the other. -/
theorem tenant_isolation_five_mints :
    let mint (now : Int) (principal tenant : String) (c : CodePoint) : HandleCall Int :=
      ⟨now, .mint (lit principal) (lit tenant) (lit "task") 10 (tokenOf c)⟩
    let calls := [mint 0 "ann" "red" 65, mint 0 "bea" "red" 66, mint 1 "carl" "blue" 67,
      mint 1 "ann" "red" 68, mint 2 "carl" "blue" 69]
    mintOutcomes (lit "blue") (Run.trace (step smallConfig) init calls) =
      mintOutcomes (lit "blue")
        (Run.trace (step smallConfig) init (eraseTenant (lit "red") calls)) := by
  intro mint calls
  exact tenant_isolation smallConfig rfl (by decide) (by decide) calls (by decide) (by decide)
    (by decide)

end HandleRegistry

end Runs

end CosaiMcp.Middleware.State
