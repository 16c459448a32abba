import CosaiMcp.Middleware.RequestMeta.Reconcile

/-!
# What reconciliation accepts

`reconcileMeta` returns only if every entry of `_meta`, at any depth, restates the identity of the
principal or claims none (`reconcileMeta_accepts`). The walk is followed step by step: an empty list
of conflicts leaves no entry below a value unseen (`descend_eq_nil`).
-/

namespace CosaiMcp.Middleware.RequestMeta

open Py Protocol

variable {φ : Type}

/-! ## Positions -/

/-- The mapping entries below a value, through mappings and lists. -/
inductive EntryBelow : Json φ → Str → Json φ → Prop
  | here {ms : List (Str × Json φ)} {k : Str} {v : Json φ} (h : (k, v) ∈ ms) :
      EntryBelow (.obj ms) k v
  | member {ms : List (Str × Json φ)} {m : Str × Json φ} {k : Str} {v : Json φ} (h : m ∈ ms)
      (hv : EntryBelow m.2 k v) : EntryBelow (.obj ms) k v
  | item {js : List (Json φ)} {j : Json φ} {k : Str} {v : Json φ} (h : j ∈ js)
      (hv : EntryBelow j k v) : EntryBelow (.arr js) k v

/-- The values at a number of steps below a value. -/
inductive ValueBelow : Nat → Json φ → Json φ → Prop
  | self (j : Json φ) : ValueBelow 0 j j
  | member {n : Nat} {ms : List (Str × Json φ)} {m : Str × Json φ} {v : Json φ} (h : m ∈ ms)
      (hv : ValueBelow n m.2 v) : ValueBelow (n + 1) (.obj ms) v
  | item {n : Nat} {js : List (Json φ)} {j v : Json φ} (h : j ∈ js) (hv : ValueBelow n j v) :
      ValueBelow (n + 1) (.arr js) v

/-- A mapping or a list that is not empty. -/
def IsNonempty : Json φ → Prop
  | .obj ms => ms ≠ []
  | .arr js => js ≠ []
  | _ => False

section

variable (K : KeyNames) (P : AuthenticatedPrincipal)

/-- The entry restates the identity of the principal, or claims none. -/
def Restated (prefixed operatorApproved : Bool) (k : Str) (v : Json φ) : Prop :=
  let names := K.candidateNames prefixed k
  if meets names subjectNames then v = .str P.subject
  else if meets names tenantNames then ∃ t, P.tenant = some t ∧ v = .str t
  else if meets names clientNames then ∃ c, P.clientId = some c ∧ v = .str c
  else if meets names scopeNames then ∃ claimed, asSet v = some claimed ∧ ∀ s ∈ claimed, s ∈ P.scopes
  else if meets names adminNames then isDenied v = true ∨ lit "admin" ∈ P.scopes
  else K.hasIdentityWord prefixed k = false ∨ operatorApproved = true

/-- Nothing below a value at some depth was left out, and no entry there claims more than the
principal has. -/
structure Inspected (depth limit : Nat) (j : Json φ) : Prop where
  entries : ∀ k v, EntryBelow j k v → Restated K P false false k v
  depth : ∀ n v, ValueBelow n j v → IsNonempty v → depth + n + 1 < limit
  items : ∀ n js, ValueBelow n j (.arr js) → js.length ≤ 256

/-- The depth limit below a top-level key. -/
def limitOf (key : Str) : Nat :=
  if key ∈ selfReportedKeys then maxSelfReportedDepth else maxMetaDepth

/-- What the members of an accepted `_meta` are. -/
structure RestatesIdentity (allowedKeys : Option (List Str)) (fields : List (Str × Json φ)) :
    Prop where
  topLevel : ∀ m ∈ fields, m.1 ∉ protocolKeys → m.1 ∉ traceKeys →
    Restated K P true (allowedKeys.any fun allowed => m.1 ∈ allowed) m.1 m.2
  nested : ∀ m ∈ fields, Inspected K P 0 (limitOf m.1) m.2
  allowlisted : ∀ allowed, allowedKeys = some allowed → ∀ m ∈ fields,
    m.1 ∈ allowed ∨ m.1 ∈ reservedKeys

end

/-! ## Claims -/

section

variable {K : KeyNames} {P : AuthenticatedPrincipal}

theorem meets_append {names xs ys : List Str} :
    meets names (xs ++ ys) = (meets names xs || meets names ys) := by
  rw [Bool.eq_iff_iff, Bool.or_eq_true]
  simp only [meets, List.any_eq_true, decide_eq_true_eq, List.mem_append]
  constructor
  · rintro ⟨n, hn, h | h⟩
    · exact .inl ⟨n, hn, h⟩
    · exact .inr ⟨n, hn, h⟩
  · rintro (⟨n, hn, h⟩ | ⟨n, hn, h⟩)
    · exact ⟨n, hn, .inl h⟩
    · exact ⟨n, hn, .inr h⟩

theorem meets_identityNames {names : List Str} : meets names identityNames = true ↔
    meets names subjectNames = true ∨ meets names tenantNames = true ∨
      meets names clientNames = true ∨ meets names scopeNames = true ∨
      meets names adminNames = true := by
  simp only [identityNames, meets_append, Bool.or_eq_true, or_assoc]

theorem isText_eq_true_iff {v : Json φ} {claim : Option Str} :
    isText v claim = true ↔ ∃ t, claim = some t ∧ v = .str t := by
  unfold isText
  split
  · next s t =>
    rw [decide_eq_true_eq]
    constructor
    · rintro rfl
      exact ⟨s, rfl, rfl⟩
    · rintro ⟨u, hu, hs⟩
      cases hu
      cases hs
      rfl
  · next hno =>
    constructor
    · nofun
    · rintro ⟨t, rfl, rfl⟩
      exact absurd rfl (hno t t rfl)

/-- A claim that does not conflict restates the identity; a key of no identity name is let through
for its words alone. -/
theorem restated_of_not_conflicts {prefixed approved : Bool} {k : Str} {v : Json φ}
    (hname : meets (K.candidateNames prefixed k) identityNames = true →
      claimConflicts (K.candidateNames prefixed k) v P = false)
    (hword : meets (K.candidateNames prefixed k) identityNames = false →
      K.hasIdentityWord prefixed k = false ∨ approved = true) :
    Restated K P prefixed approved k v := by
  rw [meets_identityNames] at hname
  rw [← Bool.not_eq_true, meets_identityNames] at hword
  unfold claimConflicts at hname
  unfold Restated
  dsimp only
  split
  · next hsubject =>
    rw [if_pos hsubject, Bool.not_eq_false', isText_eq_true_iff] at hname
    obtain ⟨t, ht, hv⟩ := hname (.inl hsubject)
    cases ht
    exact hv
  · next hsubject =>
    rw [if_neg hsubject] at hname
    split
    · next htenant =>
      rw [if_pos htenant, Bool.not_eq_false', isText_eq_true_iff] at hname
      exact hname (.inr (.inl htenant))
    · next htenant =>
      rw [if_neg htenant] at hname
      split
      · next hclient =>
        rw [if_pos hclient, Bool.not_eq_false', isText_eq_true_iff] at hname
        exact hname (.inr (.inr (.inl hclient)))
      · next hclient =>
        rw [if_neg hclient] at hname
        split
        · next hscope =>
          rw [if_pos hscope] at hname
          have hname := hname (.inr (.inr (.inr (.inl hscope))))
          split at hname
          · cases hname
          · next claimed hclaimed =>
            rw [Bool.not_eq_false', List.all_eq_true] at hname
            exact ⟨claimed, hclaimed, fun s hs => of_decide_eq_true (hname s hs)⟩
        · next hscope =>
          rw [if_neg hscope] at hname
          split
          · next hadmin =>
            rw [if_pos hadmin] at hname
            have hname := hname (.inr (.inr (.inr (.inr hadmin))))
            split at hname
            all_goals first
              | cases hname; done
              | rw [Bool.and_eq_false_iff, Bool.not_eq_false', decide_eq_false_iff_not,
                  not_not] at hname
                exact hname
          · next hadmin =>
            refine hword fun h => ?_
            rcases h with h | h | h | h | h
            · exact hsubject h
            · exact htenant h
            · exact hclient h
            · exact hscope h
            · exact hadmin h

theorem restated_of_visit {k path : Str} {v : Json φ} {depth : Nat} {approved : Bool}
    {below : List Str} (h : visit K P k v path depth approved below = []) :
    Restated K P (depth == 0) approved k v ∧ below = [] := by
  unfold visit at h
  dsimp only at h
  split at h
  · next hnames =>
    split at h
    · cases h
    · next hconflicts =>
      refine ⟨restated_of_not_conflicts (fun _ => by simpa using hconflicts) fun hno => ?_, h⟩
      rw [hnames] at hno
      cases hno
  · next hnames =>
    split at h
    · cases h
    · next hword =>
      refine ⟨restated_of_not_conflicts (fun hyes => absurd hyes hnames) fun _ => ?_, h⟩
      rw [Bool.and_eq_true, Bool.not_eq_true', not_and_or, Bool.not_eq_false,
        Bool.not_eq_true] at hword
      exact hword.symm

/-! ## The walk -/

theorem descendMembers_eq_nil {path : Str} {depth limit : Nat} {ms : List (Str × Json φ)}
    (h : descendMembers K P path depth limit ms = []) : ∀ m ∈ ms,
      Restated K P (depth == 0) false m.1 m.2 ∧ ∃ path', descend K P path' depth limit m.2 = [] := by
  induction ms with
  | nil => exact fun _ hm => nomatch hm
  | cons m ms ih =>
    obtain ⟨k, v⟩ := m
    rw [descendMembers, List.append_eq_nil_iff] at h
    obtain ⟨hrestated, hbelow⟩ := restated_of_visit h.1
    intro m hm
    rcases List.mem_cons.mp hm with rfl | hm
    · exact ⟨hrestated, _, hbelow⟩
    · exact ih h.2 m hm

theorem descendItems_eq_nil {path : Str} {depth limit i : Nat} {js : List (Json φ)}
    (hlen : i + js.length ≤ 256) (h : descendItems K P path depth limit i js = []) :
    ∀ j ∈ js, ∃ path', descend K P path' depth limit j = [] := by
  induction js generalizing i with
  | nil => exact fun _ hj => nomatch hj
  | cons j js ih =>
    rw [List.length_cons] at hlen
    rw [descendItems, if_pos (by omega), List.append_eq_nil_iff] at h
    intro j' hj
    rcases List.mem_cons.mp hj with rfl | hj
    · exact ⟨_, h.1⟩
    · exact ih (by omega) h.2 j' hj

theorem inspected_obj {depth limit : Nat} {ms : List (Str × Json φ)}
    (hdepth : ms ≠ [] → depth + 1 < limit)
    (h : ∀ m ∈ ms, Restated K P false false m.1 m.2 ∧ Inspected K P (depth + 1) limit m.2) :
    Inspected K P depth limit (.obj ms) := by
  refine ⟨?_, ?_, ?_⟩
  · intro k v hv
    cases hv with
    | here hm => exact (h _ hm).1
    | member hm hv => exact (h _ hm).2.entries k v hv
  · intro n v hv hne
    cases hv with
    | self => exact hdepth hne
    | member hm hv =>
      have hlt := (h _ hm).2.depth _ v hv hne
      omega
  · intro n js hv
    cases hv with
    | member hm hv => exact (h _ hm).2.items _ js hv

theorem inspected_arr {depth limit : Nat} {js : List (Json φ)} (hdepth : js ≠ [] → depth + 1 < limit)
    (hlength : js.length ≤ 256) (h : ∀ j ∈ js, Inspected K P (depth + 1) limit j) :
    Inspected K P depth limit (.arr js) := by
  refine ⟨?_, ?_, ?_⟩
  · intro k v hv
    cases hv with
    | item hj hv => exact (h _ hj).entries k v hv
  · intro n v hv hne
    cases hv with
    | self => exact hdepth hne
    | item hj hv =>
      have hlt := (h _ hj).depth _ v hv hne
      omega
  · intro n js' hv
    cases hv with
    | self => exact hlength
    | item hj hv => exact (h _ hj).items _ js' hv

/-- Where no conflict is found, everything below was inspected. -/
theorem descend_eq_nil {path : Str} {depth limit : Nat} {j : Json φ}
    (h : descend K P path depth limit j = []) : Inspected K P depth limit j := by
  induction j using Json.induct generalizing path depth with
  | obj ms ih =>
    by_cases hms : ms = []
    · subst hms
      exact inspected_obj (fun hne => absurd rfl hne) fun m hm => nomatch hm
    · rw [descend, if_neg (by simpa using hms)] at h
      split at h
      · cases h
      · next hdepth =>
        refine inspected_obj (fun _ => by omega) fun m hm => ?_
        obtain ⟨hrestated, path', hpath⟩ := descendMembers_eq_nil h m hm
        exact ⟨hrestated, ih m hm hpath⟩
  | arr js ih =>
    by_cases hjs : js = []
    · subst hjs
      exact inspected_arr (fun hne => absurd rfl hne) (Nat.zero_le _) fun j hj => nomatch hj
    · rw [descend, if_neg (by simpa using hjs)] at h
      split at h
      · cases h
      · next hdepth =>
        rw [List.append_eq_nil_iff] at h
        have hlength : js.length ≤ 256 := by
          by_contra hlength
          rw [if_pos (by omega)] at h
          cases h.2
        refine inspected_arr (fun _ => by omega) hlength fun j hj => ?_
        obtain ⟨path', hpath⟩ := descendItems_eq_nil (by omega) h.1 j hj
        exact ih j hj hpath
  | null | bool b | int n | float x | nan | str s =>
    refine ⟨?_, ?_, ?_⟩
    · intro k v hv
      cases hv
    · intro n v hv hne
      cases hv
      cases hne
    · intro n js hv
      cases hv

/-- A text has nothing below it. -/
theorem inspected_str {limit : Nat} (s : Str) : Inspected K P 0 limit (.str s : Json φ) :=
  (descend_eq_nil : descend K P [] 0 limit (.str s : Json φ) = [] → _) rfl

/-! ## Top-level members -/

theorem topConflicts_eq_nil {allowedKeys : Option (List Str)} {key : Str} {value : Json φ}
    (h : topConflicts K P allowedKeys key value = []) :
    (key ∉ protocolKeys → key ∉ traceKeys →
      Restated K P true (allowedKeys.any fun allowed => key ∈ allowed) key value) ∧
    Inspected K P 0 (limitOf key) value ∧
    ∀ allowed, allowedKeys = some allowed → key ∈ allowed ∨ key ∈ reservedKeys := by
  unfold topConflicts at h
  split at h
  · next hprotocol =>
    refine ⟨fun hno => absurd hprotocol hno, ?_, fun _ _ => .inr ?_⟩
    · split at h
      · next hshort =>
        unfold isShortText at hshort
        split at hshort
        · exact inspected_str _
        · cases hshort
      · cases h
    · exact List.mem_append_left _ (List.mem_append_left _ hprotocol)
  · next hprotocol =>
    split at h
    · cases h
    · split at h
      · next htrace =>
        refine ⟨fun _ hno => absurd htrace hno, ?_, fun _ _ => .inr ?_⟩
        · split at h
          · cases h
          · next hvalid =>
            unfold traceKeyInvalid at hvalid
            split at hvalid
            · exact inspected_str _
            · exact absurd rfl hvalid
        · exact List.mem_append_left _ (List.mem_append_right _ htrace)
      · next htrace =>
        split at h
        · next hself =>
          obtain ⟨hnames, hword⟩ := K.selfReported key hself
          refine ⟨fun _ _ => ?_, ?_, fun _ _ => .inr (List.mem_append_right _ hself)⟩
          · refine restated_of_not_conflicts (fun hyes => ?_) fun _ => .inl hword
            rw [hnames] at hyes
            cases hyes
          · rw [limitOf, if_pos hself]
            exact descend_eq_nil h
        · next hself =>
          have hreserved : key ∉ reservedKeys := by
            simp only [reservedKeys, List.mem_append, not_or]
            exact ⟨⟨hprotocol, htrace⟩, hself⟩
          split at h
          · cases h
          · next hallowed =>
            have hmem : ∀ allowed, allowedKeys = some allowed → key ∈ allowed := by
              rintro allowed rfl
              simpa [hreserved] using hallowed
            obtain ⟨hrestated, hbelow⟩ := restated_of_visit h
            have happroved : allowedKeys.isSome = allowedKeys.any fun allowed => key ∈ allowed := by
              cases hkeys : allowedKeys with
              | none => rfl
              | some allowed => exact (decide_eq_true (hmem allowed hkeys)).symm
            refine ⟨fun _ _ => happroved ▸ hrestated, ?_, fun allowed h => .inl (hmem allowed h)⟩
            rw [limitOf, if_neg hself]
            exact descend_eq_nil hbelow

/-- **Only restated identity is accepted**: at every position of an accepted `_meta`. -/
theorem reconcileMeta_accepts {allowedKeys : Option (List Str)} {fields : List (Str × Json φ)}
    (h : reconcileMeta K P allowedKeys fields = .ok ()) :
    RestatesIdentity K P allowedKeys fields := by
  unfold reconcileMeta at h
  dsimp only at h
  split at h
  · next hbad =>
    have hfields : ∀ m ∈ fields, topConflicts K P allowedKeys m.1 m.2 = [] :=
      List.flatMap_eq_nil_iff.mp (List.isEmpty_iff.mp hbad)
    refine ⟨fun m hm => (topConflicts_eq_nil (hfields m hm)).1,
      fun m hm => (topConflicts_eq_nil (hfields m hm)).2.1, fun allowed hallowed m hm => ?_⟩
    exact (topConflicts_eq_nil (hfields m hm)).2.2 allowed hallowed
  · cases h

end

/-- Keys that are their own names, among printable ASCII characters. -/
def KeyNames.plain : KeyNames where
  candidateNames _ key := [key]
  hasIdentityWord _ _ := false
  isPrintable c := 32 ≤ c.val && c.val ≤ 126
  selfReported := by decide

def alice : AuthenticatedPrincipal := ⟨lit "alice", some (lit "acme"), none, [lit "read"]⟩

/-- Claims of the subject, and of a scope inside the self-reported client information. -/
def aliceMeta : List (Str × Json Unit) :=
  [(lit "user", .str (lit "alice")),
    (metaClientInfo, .obj [(lit "scope", .arr [.str (lit "read")])])]

theorem reconcileMeta_accepts_alice : RestatesIdentity .plain alice none aliceMeta :=
  reconcileMeta_accepts rfl

end CosaiMcp.Middleware.RequestMeta
