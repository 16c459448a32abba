import CosaiMcp.Middleware.State.ReplayAccounting
import CosaiMcp.Middleware.State.SealerReplay

/-!
# How `open` fails

`open` is to fail in one way only, and to leave no trace when it does. A call that fails with
`StateVerificationError` has at most purged entries that have expired (`harmless_purge`), which
takes nothing from any other call (`openToken_purge`). But the comparison of strings raises
`UnicodeEncodeError` on a lone surrogate, on either side, and `float` of an integer expiry may
raise after the entry is made; without these every failure is uniform and harmless, and only
without them (`openToken_uniform_iff`).
-/

namespace CosaiMcp.Middleware.State

open Py

/-! ## The comparison of strings -/

theorem strEq_eq_none_iff {a : Option Str} {b : Str} :
    strEq a b = none ↔ ∃ x, a = some x ∧ ¬(isScalar x = true ∧ isScalar b = true) := by
  cases a with
  | none => exact iff_of_false (by rintro ⟨⟩) (by rintro ⟨_, ⟨⟩, _⟩)
  | some x =>
    simp only [Option.some.injEq, exists_eq_left', ← encodeUtf8_isSome_iff]
    rw [strEq]
    cases hx : encodeUtf8 x with
    | none => exact ⟨fun _ h => absurd h.1 Bool.false_ne_true, fun _ => rfl⟩
    | some x' =>
      cases hb : encodeUtf8 b with
      | none => exact ⟨fun _ h => absurd h.2 Bool.false_ne_true, fun _ => rfl⟩
      | some b' => exact ⟨by rintro ⟨⟩, fun h => absurd ⟨rfl, rfl⟩ h⟩

variable {φ : Type}

/-- Both sides of `_eq(v, s)` can be encoded, if `v` is a `str` at all. -/
def Encodes (v : Option (Json φ)) (s : Str) : Prop :=
  ∀ x, v.bind Json.asStr? = some x → isScalar x = true ∧ isScalar s = true

/-- The one failure that `open` promises. -/
def OpenError.IsVerification (e : OpenError) : Prop := e = .stateVerification

theorem isVerification : OpenError.stateVerification.IsVerification := rfl

theorem raisesOnly_requireEq_iff {v : Option (Json φ)} {s : Str} :
    RaisesOnly OpenError.IsVerification (requireEq v s) ↔ Encodes v s := by
  unfold requireEq
  split
  · next hnone =>
    obtain ⟨x, hx, hbad⟩ := strEq_eq_none_iff.mp hnone
    refine ⟨fun h => ?_, fun h => absurd (h x hx) hbad⟩
    exact nomatch raisesOnly_error_iff.mp h
  · next hfalse =>
    refine ⟨fun _ x hx => ?_, fun _ => raisesOnly_error_iff.mpr isVerification⟩
    by_contra hbad
    rw [strEq_eq_none_iff.mpr ⟨x, hx, hbad⟩] at hfalse
    cases hfalse
  · next htrue =>
    refine ⟨fun _ x hx => ?_, fun _ => raisesOnly_ok _⟩
    by_contra hbad
    rw [strEq_eq_none_iff.mpr ⟨x, hx, hbad⟩] at htrue
    cases htrue

/-- The comparisons that are made, one after the other, are of strings that can be encoded. -/
structure Comparable (claims : Json φ) (a : OpenArgs) : Prop where
  principal : Encodes (claims.get? (lit "p")) a.principal
  tenant : (claims.get? (lit "p")).bind Json.asStr? = some a.principal →
    Encodes (claims.get? (lit "t")) a.tenant
  request : (claims.get? (lit "p")).bind Json.asStr? = some a.principal →
    (claims.get? (lit "t")).bind Json.asStr? = some a.tenant →
    Encodes (claims.get? (lit "r")) a.requestId

theorem raisesOnly_requireJti (claims : Json φ) :
    RaisesOnly OpenError.IsVerification (requireJti claims) := by
  unfold requireJti
  split
  · exact raisesOnly_error_iff.mpr isVerification
  · exact (raisesOnly_ite_error_iff isVerification).mpr fun _ => raisesOnly_ok _

variable [PyFloat φ]

theorem raisesOnly_checkClaims_iff {claims : Json φ} {a : OpenArgs} {now : φ} :
    RaisesOnly OpenError.IsVerification (checkClaims claims a now) ↔
      ∀ exp, (claims.get? (lit "exp")).bind asNum? = some exp → exp.le now = false →
        Comparable claims a := by
  unfold checkClaims
  split
  · next hnone =>
    rw [hnone]
    exact ⟨fun _ _ => nofun, fun _ => raisesOnly_error_iff.mpr isVerification⟩
  · next exp hexp =>
    rw [hexp]
    simp only [Option.some.injEq, forall_eq']
    rw [raisesOnly_ite_error_iff isVerification, Bool.not_eq_true]
    refine imp_congr_right fun _ => ?_
    simp only [raisesOnly_bind_iff, raisesOnly_requireEq_iff]
    constructor
    · rintro ⟨hp, h⟩
      refine ⟨hp, fun hpeq => ?_, fun hpeq hteq => ?_⟩
      · exact (h () (requireEq_eq_ok_iff.mpr ⟨hpeq, (hp _ hpeq).2⟩)).1
      · obtain ⟨ht, h⟩ := h () (requireEq_eq_ok_iff.mpr ⟨hpeq, (hp _ hpeq).2⟩)
        exact (h () (requireEq_eq_ok_iff.mpr ⟨hteq, (ht _ hteq).2⟩)).1
    · rintro ⟨hp, ht, hr⟩
      refine ⟨hp, fun _ hpok => ?_⟩
      have hpeq := (requireEq_eq_ok_iff.mp hpok).1
      refine ⟨ht hpeq, fun _ htok => ?_⟩
      have hteq := (requireEq_eq_ok_iff.mp htok).1
      refine ⟨hr hpeq hteq, fun _ _ => ?_⟩
      split
      · exact raisesOnly_error_iff.mpr isVerification
      · exact raisesOnly_ok _

theorem raisesOnly_openChecks_iff {C : Crypto} {S : RequestStateSealer} {a : OpenArgs}
    {now : φ} : RaisesOnly OpenError.IsVerification (S.openChecks C a now) ↔
      ∀ claims, S.readToken C a.token = some claims →
        ∀ exp, (claims.get? (lit "exp")).bind asNum? = some exp → exp.le now = false →
        Comparable claims a := by
  unfold RequestStateSealer.openChecks
  split
  · next hread =>
    rw [hread]
    exact ⟨fun _ _ => nofun, fun _ => raisesOnly_error_iff.mpr isVerification⟩
  · next claims hread =>
    rw [hread, raisesOnly_bind_iff, raisesOnly_checkClaims_iff]
    simp only [Option.some.injEq, forall_eq']
    refine and_iff_left ?_
    rintro ⟨exp, payload⟩ -
    dsimp only
    split
    · exact raisesOnly_bind_iff.mpr ⟨raisesOnly_requireJti claims, fun _ _ => raisesOnly_ok _⟩
    · exact raisesOnly_ok _

/-! ## A failure in the replay cache -/

namespace ReplayCache

/-- The entries that have not expired, each with its owner. -/
def live (s : ReplayCache φ) (now : φ) : List ((FloatOrNan φ × Str) × Option (Str × Str)) :=
  (s.heap.filter fun p => !p.1.le now).map fun p => (p, s.spent.get? p.2)

/-- The counters still count the entries, and the entries that have not expired are as they were. -/
structure Harmless (now : φ) (s s' : ReplayCache φ) : Prop where
  accounted : Accounted s'
  live : (s'.live now).Perm (s.live now)

theorem harmless_refl {s : ReplayCache φ} (hs : Accounted s) (now : φ) : Harmless now s s :=
  ⟨hs, .refl _⟩

theorem harmless_purge {s : ReplayCache φ} (hs : Accounted s) (now : φ) :
    Harmless now s (s.purge now) := by
  refine ⟨hs.purge now, ?_⟩
  obtain ⟨popped, hperm, hle, hspent⟩ := s.purge_spec now
  have hpopped : popped.filter (fun p => !p.1.le now) = [] := by
    rw [List.filter_eq_nil_iff]
    intro p hp
    rw [hle p hp]
    exact Bool.false_ne_true
  have hheap : ((s.purge now).heap.filter fun p => !p.1.le now).Perm
      (s.heap.filter fun p => !p.1.le now) := by
    refine .trans ?_ (hperm.filter _).symm
    rw [List.filter_append, hpopped, List.nil_append]
  have hnodup : (popped.map Prod.snd ++ (s.purge now).heap.map Prod.snd).Nodup := by
    rw [← List.map_append]
    exact (hperm.map Prod.snd).nodup_iff.mp (hs.jtis.nodup_iff.mpr s.spent.nodup)
  unfold live
  refine .trans (.of_eq (List.map_congr_left fun p hp => ?_)) (hheap.map _)
  have hmem : p.2 ∈ (s.purge now).heap.map Prod.snd :=
    List.mem_map_of_mem (List.mem_filter.mp hp).1
  rw [hspent, if_neg fun h => List.disjoint_of_nodup_append hnodup h hmem]

/-- `s` has every entry of `s'`, and counts at least as many. -/
structure Within (s' s : ReplayCache φ) : Prop where
  keys : ∀ jti, jti ∈ s'.spent.keys → jti ∈ s.spent.keys
  mine : ∀ owner, s'.ownerCount owner ≤ s.ownerCount owner
  inTenant : ∀ tenant, s'.tenantCount tenant ≤ s.tenantCount tenant
  total : s'.spent.size ≤ s.spent.size

theorem within_purge {s : ReplayCache φ} (hs : Accounted s) (now : φ) :
    Within (s.purge now) s := by
  obtain ⟨popped, -, -, hspent⟩ := s.purge_spec now
  have hsub : (s.purge now).spent.items ⊆ s.spent.items := by
    intro entry hentry
    have hget : (s.purge now).spent.get? entry.1 = some entry.2 := Dict.get?_eq_some_iff.mpr hentry
    rw [hspent] at hget
    split at hget
    · cases hget
    · exact Dict.get?_eq_some_iff.mp hget
  obtain ⟨l, hl, hsublist⟩ :=
    List.subperm_of_subset (List.Nodup.of_map _ (s.purge now).spent.nodup) hsub
  have hvalues : (s.purge now).spent.values.Subperm s.spent.values :=
    ⟨l.map Prod.snd, hl.map _, hsublist.map _⟩
  refine ⟨fun jti hjti => ?_, fun owner => ?_, fun tenant => ?_, ?_⟩
  · exact List.map_subset Prod.fst hsub hjti
  · rw [(hs.purge now).ownerCount, hs.ownerCount]
    exact Int.ofNat_le.mpr (hvalues.countP_le _)
  · rw [(hs.purge now).tenantCount, hs.tenantCount]
    exact Int.ofNat_le.mpr (hvalues.countP_le _)
  · rw [Dict.size_eq_length_values, Dict.size_eq_length_values]
    exact hvalues.length_le

omit [PyFloat φ] in
theorem Within.full {s s' : ReplayCache φ} (h : Within s' s) {owner : Str × Str}
    (hfull : s'.full owner = true) : s.full owner = true := by
  have hmine := h.mine owner
  have hinTenant := h.inTenant owner.2
  have htotal := h.total
  simp only [ReplayCache.full, Bool.or_eq_true, Bool.and_eq_true, decide_eq_true_eq] at hfull ⊢
  omega

theorem redeem_fst_eq_ok_iff {s : ReplayCache φ} {t : Ticket φ} :
    (s.redeem t).1 = .ok () ↔ t.jti ∉ (s.purge t.now).spent.keys ∧
      (s.purge t.now).full t.owner = false ∧ t.exp.toFloat? ≠ none := by
  unfold redeem
  dsimp only
  split
  · next hspent => exact ⟨nofun, fun h => absurd hspent h.1⟩
  · next hfresh =>
    split
    · next hfull => exact ⟨nofun, fun h => nomatch hfull.symm.trans h.2.1⟩
    · next hroom =>
      split
      · next hnone => exact ⟨nofun, fun h => absurd hnone h.2.2⟩
      · next hexp =>
        exact ⟨fun _ => ⟨hfresh, Bool.eq_false_iff.mpr hroom, by rw [hexp]; nofun⟩, fun _ => rfl⟩

/-- A purge, by whatever reading, takes nothing from a block that would go through. -/
theorem redeem_purge {s : ReplayCache φ} (hs : Accounted s) (now : φ) {t : Ticket φ}
    (h : (s.redeem t).1 = .ok ()) : ((s.purge now).redeem t).1 = .ok () := by
  rw [redeem_fst_eq_ok_iff] at h ⊢
  rcases PyFloat.le_total now t.now with hle | hle
  · rw [purge_purge_of_le hle]
    exact h
  · -- the entries that are left are among those that the block would have left
    have hwithin : Within (s.purge now) (s.purge t.now) := by
      rw [← purge_purge_of_le hle]
      exact within_purge (hs.purge t.now) now
    obtain ⟨hfresh, hroom, hexp⟩ := h
    rw [purge_purge_of_ge hle]
    refine ⟨fun hin => hfresh (hwithin.keys _ hin), Bool.eq_false_iff.mpr fun hfull => ?_, hexp⟩
    rw [hwithin.full hfull] at hroom
    cases hroom

end ReplayCache

/-! ## The whole call -/

section Open

open ReplayCache

variable {C : Crypto} {S : RequestStateSealer} {store : Option (SpentStore φ)}
  {s : ReplayCache φ} {a : OpenArgs} {now : φ}

/-- The call comes to the block under the lock, with this ticket and this payload. -/
structure Redeems (C : Crypto) (S : RequestStateSealer) (store : Option (SpentStore φ))
    (a : OpenArgs) (now : φ) (t : Ticket φ) (payload : List (Str × Json φ)) : Prop where
  inProcess : store = none
  checked : S.openChecks C a now = .ok ⟨t.exp, payload, some t.jti⟩
  owner : t.owner = (a.principal, a.tenant)
  reading : t.now = now

/-- A call is decided without the replay cache, or by the block under the lock. -/
theorem openToken_cases (C : Crypto) (S : RequestStateSealer) (store : Option (SpentStore φ))
    (a : OpenArgs) (now : φ) :
    (∃ result, (∀ s, S.openToken C store s a now = (result, s)) ∧
      (RaisesOnly OpenError.IsVerification result ↔
        RaisesOnly OpenError.IsVerification (S.openChecks C a now)) ∧
      ∀ t payload, ¬Redeems C S store a now t payload) ∨
    ∃ t payload, Redeems C S store a now t payload ∧
      ∀ s : ReplayCache φ, S.openToken C store s a now =
        ((s.redeem t).1.map fun _ => payload, (s.redeem t).2) := by
  unfold RequestStateSealer.openToken
  cases hchecks : S.openChecks C a now with
  | error e =>
    refine .inl ⟨.error e, fun s => rfl, ?_, ?_⟩
    · rw [raisesOnly_error_iff, raisesOnly_error_iff]
    · intro t payload h
      cases hchecks.symm.trans h.checked
  | ok o =>
    obtain ⟨exp, payload, jti?⟩ := o
    cases jti? with
    | none =>
      refine .inl ⟨.ok payload, fun s => rfl, ?_, ?_⟩
      · exact iff_of_true (raisesOnly_ok _) (raisesOnly_ok _)
      · intro t payload h
        cases hchecks.symm.trans h.checked
    | some jti =>
      cases store with
      | some addIfAbsent =>
        have hshared : ∀ t p, ¬Redeems C S (some addIfAbsent) a now t p :=
          fun t p h => by cases h.inProcess
        dsimp only
        generalize exp.toFloat?.bind (addIfAbsent jti) = answer
        rcases answer with _ | _ | _
        · exact .inl ⟨.error .stateVerification, fun s => rfl,
            iff_of_true (raisesOnly_error_iff.mpr isVerification) (raisesOnly_ok _), hshared⟩
        · exact .inl ⟨.error .stateVerification, fun s => rfl,
            iff_of_true (raisesOnly_error_iff.mpr isVerification) (raisesOnly_ok _), hshared⟩
        · exact .inl ⟨.ok payload, fun s => rfl,
            iff_of_true (raisesOnly_ok _) (raisesOnly_ok _), hshared⟩
      | none =>
        refine .inr ⟨⟨jti, exp, (a.principal, a.tenant), now⟩, payload, ⟨rfl, hchecks, rfl, rfl⟩, ?_⟩
        intro s
        dsimp only
        rcases s.redeem ⟨jti, exp, (a.principal, a.tenant), now⟩ with ⟨_ | _, cache⟩
        · rfl
        · rfl

/-- When a call does what it promises: it compares no lone surrogate, and does not come to make an
entry for an expiry beyond the range of `float`. -/
structure RegularOpen (C : Crypto) (S : RequestStateSealer) (store : Option (SpentStore φ))
    (s : ReplayCache φ) (a : OpenArgs) (now : φ) : Prop where
  comparable : ∀ claims, S.readToken C a.token = some claims →
    ∀ exp, (claims.get? (lit "exp")).bind asNum? = some exp → exp.le now = false →
      Comparable claims a
  finite : ∀ t payload, Redeems C S store a now t payload → t.jti ∉ (s.purge now).spent.keys →
    (s.purge now).full t.owner = false → t.exp.toFloat? ≠ none

/-- A call fails in one way only; when it does, the entries that have not expired are as they were,
and whatever call would have succeeded still does. -/
structure UniformOpen (C : Crypto) (S : RequestStateSealer) (store : Option (SpentStore φ))
    (s : ReplayCache φ) (a : OpenArgs) (now : φ) : Prop where
  uniform : RaisesOnly OpenError.IsVerification (S.openToken C store s a now).1
  harmless : ∀ e, (S.openToken C store s a now).1 = .error e →
    Harmless now s (S.openToken C store s a now).2
  others : ∀ e, (S.openToken C store s a now).1 = .error e →
    ∀ a' now' payload, (S.openToken C store s a' now').1 = .ok payload →
      (S.openToken C store (S.openToken C store s a now).2 a' now').1 = .ok payload

/-- A purge, by whatever reading, takes nothing from a call that would succeed. -/
theorem openToken_purge (hs : Accounted s) (now' : φ) {payload : List (Str × Json φ)}
    (h : (S.openToken C store s a now).1 = .ok payload) :
    (S.openToken C store (s.purge now') a now).1 = .ok payload := by
  rcases openToken_cases C S store a now with ⟨result, hresult, -⟩ | ⟨t, payload', -, hblock⟩
  · rw [hresult] at h ⊢
    exact h
  · rw [hblock] at h ⊢
    cases hres : (s.redeem t).1 with
    | error e =>
      rw [hres] at h
      cases h
    | ok _ =>
      rw [hres] at h
      rw [redeem_purge hs now' hres]
      exact h

/-- A block fails in one way only, and then has only purged, unless `float` raises. -/
theorem redeem_error {t : Ticket φ} (hexp : t.jti ∉ (s.purge t.now).spent.keys →
    (s.purge t.now).full t.owner = false → t.exp.toFloat? ≠ none) {e : OpenError}
    (h : (s.redeem t).1 = .error e) : e.IsVerification ∧ (s.redeem t).2 = s.purge t.now := by
  unfold ReplayCache.redeem at h ⊢
  dsimp only at h ⊢
  split at h
  · next hspent =>
    cases h
    exact ⟨rfl, by rw [if_pos hspent]⟩
  · next hfresh =>
    split at h
    · next hfull =>
      cases h
      exact ⟨rfl, by rw [if_neg hfresh, if_pos hfull]⟩
    · next hroom =>
      split at h
      · next hnone => exact absurd hnone (hexp hfresh (Bool.eq_false_iff.mpr hroom))
      · cases h

theorem raisesOnly_redeem_iff {t : Ticket φ} :
    RaisesOnly OpenError.IsVerification (s.redeem t).1 ↔
      (t.jti ∉ (s.purge t.now).spent.keys → (s.purge t.now).full t.owner = false →
        t.exp.toFloat? ≠ none) := by
  constructor
  · intro h hfresh hroom hnone
    have hover : (s.redeem t).1 = .error .overflowError := by
      unfold ReplayCache.redeem
      dsimp only
      rw [if_neg hfresh, if_neg (Bool.eq_false_iff.mp hroom), hnone]
    exact nomatch h _ hover
  · intro h e he
    exact (redeem_error h he).1

theorem raisesOnly_openToken_iff :
    RaisesOnly OpenError.IsVerification (S.openToken C store s a now).1 ↔
      RegularOpen C S store s a now := by
  rcases openToken_cases C S store a now with
    ⟨result, hresult, hraises, hno⟩ | ⟨t, payload, ht, hblock⟩
  · rw [hresult, hraises, raisesOnly_openChecks_iff]
    exact ⟨fun h => ⟨h, fun t payload ht => absurd ht (hno t payload)⟩, fun h => h.comparable⟩
  · have hchecks : RaisesOnly OpenError.IsVerification (S.openChecks C a now) := by
      rw [ht.checked]
      exact raisesOnly_ok _
    rw [hblock, raisesOnly_map_iff, raisesOnly_redeem_iff, ht.reading]
    constructor
    · intro h
      refine ⟨raisesOnly_openChecks_iff.mp hchecks, fun t' payload' ht' => ?_⟩
      have hsame := ht.checked.symm.trans ht'.checked
      have howner := ht.owner.trans ht'.owner.symm
      simp only [Except.ok.injEq, Opened.mk.injEq, Option.some.injEq] at hsame
      rw [← hsame.1, ← hsame.2.2, ← howner]
      exact h
    · exact fun h => h.finite t payload ht

/-- What a regular call leaves when it fails. -/
theorem RegularOpen.openToken_eq_error (h : RegularOpen C S store s a now) {e : OpenError}
    (he : (S.openToken C store s a now).1 = .error e) :
    (S.openToken C store s a now).2 = s ∨ (S.openToken C store s a now).2 = s.purge now := by
  rcases openToken_cases C S store a now with ⟨result, hresult, -⟩ | ⟨t, payload, ht, hblock⟩
  · rw [hresult]
    exact .inl rfl
  · rw [hblock] at he ⊢
    have hfinite := h.finite t payload ht
    rw [← ht.reading] at hfinite ⊢
    cases hres : (s.redeem t).1 with
    | error e => exact .inr (redeem_error hfinite hres).2
    | ok _ =>
      rw [hres] at he
      cases he

/-- In every state that the cache reaches, a call is uniform and harmless exactly if it is
regular. -/
theorem openToken_uniform_iff (C : Crypto) (S : RequestStateSealer)
    (store : Option (SpentStore φ)) (tickets : List (Ticket φ))
    (h : ∀ t ∈ tickets, t.exp.toFloat? ≠ none) (a : OpenArgs) (now : φ) :
    UniformOpen C S store (Run.final redeem init tickets) a now ↔
      RegularOpen C S store (Run.final redeem init tickets) a now := by
  have hs := Accounted.final accounted_init h
  constructor
  · exact fun huniform => raisesOnly_openToken_iff.mp huniform.uniform
  · intro hregular
    refine ⟨raisesOnly_openToken_iff.mpr hregular, fun e he => ?_, fun e he a' now' payload hok => ?_⟩
    · rcases hregular.openToken_eq_error he with hsame | hpurged
      · rw [hsame]
        exact harmless_refl hs now
      · rw [hpurged]
        exact harmless_purge hs now
    · rcases hregular.openToken_eq_error he with hsame | hpurged
      · rw [hsame]
        exact hok
      · rw [hpurged]
        exact openToken_purge hs now hok

end Open

/-! ## Two calls on a sample sealer -/

section Sample

open ReplayCache

/-- A call with something else than a `str` for its token, after three blocks. -/
theorem openToken_uniform_not_str :
    UniformOpen twoSealsCipher sampleSealer none (Run.final redeem init staleTickets)
      { openFirst with token := none } (.whole 7) := by
  refine (openToken_uniform_iff twoSealsCipher sampleSealer none staleTickets
    (fun t ht => (ofSeal_staleTickets t ht).toFloat?) _ _).mpr ⟨?_, ?_⟩
  · intro claims hread
    cases hread
  · intro t payload ht
    cases ht.checked

/-- The request id that `request_fingerprint` makes of a method that is one lone surrogate, without
parameters. -/
def surrogateRequestId : Str :=
  0xD800 :: lit ":44136fa355b3678a1146ad16f7e8649e94fb4fc21fe77e8310c060f61caaff8a"

def openFor (requestId : Str) :
    Except OpenError (List (Str × Json WholeFloat)) × ReplayCache WholeFloat :=
  sampleSealer.openToken twoSealsCipher none init { openFirst with requestId } (.whole 5)

/-- The owner's token opens for the request it was sealed for; for that one, `open` raises
`UnicodeEncodeError`. -/
theorem surrogate_request_id :
    (openFor openFirst.requestId).1.toOption.isSome = true ∧
    (openFor surrogateRequestId).1 = .error .unicodeEncodeError ∧
    ¬UniformOpen twoSealsCipher sampleSealer none init
      { openFirst with requestId := surrogateRequestId } (WholeFloat.whole 5) := by
  have hunit : ((openFor surrogateRequestId).1.map fun _ => ()) = .error .unicodeEncodeError := by
    decide +kernel
  have herror : (openFor surrogateRequestId).1 = .error .unicodeEncodeError := by
    cases hres : (openFor surrogateRequestId).1 with
    | error e =>
      rw [hres] at hunit
      cases hunit
      rfl
    | ok payload =>
      rw [hres] at hunit
      cases hunit
  exact ⟨by decide +kernel, herror, fun h => nomatch h.uniform _ herror⟩

end Sample

end CosaiMcp.Middleware.State
