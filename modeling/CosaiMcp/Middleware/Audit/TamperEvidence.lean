import CosaiMcp.Middleware.Audit.History

/-!
# Tamper evidence

A file that verifies against an anchored head is a hash chain of stable objects that ends at that
head (`verifyLines_eq_ok`). Where the hash determines the canonical text and is never the genesis
hash, such a chain is determined by its head, so no file other than the one that was logged has
other entries and verifies against its head (`tamper_evident`). Entries are compared up to the
order of their keys.
-/

namespace CosaiMcp.Middleware.Audit

open Py

variable {φ : Type}

/-! ## Members as links of a chain -/

/-- The members that the hash of an entry covers. -/
def covered (ms : List (Str × Json φ)) : List (Str × Json φ) := ms.filter (·.1 ≠ lit "chain_hash")

def linkOf (ms : List (Str × Json φ)) : Json φ := (getStr ms (lit "prev_hash") []).sorted

section Covered

theorem Stable.covered {ms : List (Str × Json φ)} (h : (Json.obj ms).Stable) :
    (Json.obj (covered ms)).Stable := by
  refine ⟨h.1.sublist (List.filter_sublist.map Prod.fst), Json.stableMembers_iff.mpr ?_⟩
  exact fun m hm => Json.stableMembers_iff.mp h.2 m (List.mem_of_mem_filter hm)

/-- A member other than `chain_hash` is covered. -/
theorem get?_covered (ms : List (Str × Json φ)) {k : Str} (hk : k ≠ lit "chain_hash") :
    (Json.obj (covered ms)).get? k = (Json.obj ms).get? k := by
  rw [Json.get?, Json.get?, covered, List.find?_filter]
  refine congrArg _ (congrFun (congrArg _ (funext fun m => ?_)) _)
  by_cases hm : m.1 = k
  · simp [hm, hk]
  · simp [hm]

/-- Entries of which the same is covered, with the same `chain_hash`, are the same. -/
theorem sorted_eq_of_covered {ms ns : List (Str × Json φ)} {v : Json φ}
    (hms : (Json.obj ms).Stable) (hns : (Json.obj ns).Stable)
    (h : (Json.obj (covered ms)).sorted = (Json.obj (covered ns)).sorted)
    (hm : (Json.obj ms).get? (lit "chain_hash") = some v)
    (hn : (Json.obj ns).get? (lit "chain_hash") = some v) :
    (Json.obj ms).sorted = (Json.obj ns).sorted := by
  have hcovered := (Json.sorted_obj_eq_iff (Stable.covered hms).1 (Stable.covered hns).1).mp h
  refine (Json.sorted_obj_eq_iff hms.1 hns.1).mpr fun k => ?_
  by_cases hk : k = lit "chain_hash"
  · rw [hk, hm, hn]
  · rw [← get?_covered ms hk, ← get?_covered ns hk, hcovered k]

/-- Entries that are the same link to the same hash. -/
theorem linkOf_eq {ms ns : List (Str × Json φ)} (hms : (Json.obj ms).Stable)
    (hns : (Json.obj ns).Stable) (h : (Json.obj ms).sorted = (Json.obj ns).sorted) :
    linkOf ms = linkOf ns := by
  have hlink : ∀ ms : List (Str × Json φ), linkOf ms =
      (((Json.obj ms).get? (lit "prev_hash")).map Json.sorted).getD (.str []) := by
    intro ms
    rw [linkOf, getStr]
    cases (Json.obj ms).get? (lit "prev_hash") with
    | none => rfl
    | some v => rfl
  rw [hlink, hlink, (Json.sorted_obj_eq_iff hms.1 hns.1).mp h]

end Covered

/-! ## What a verified file holds -/

section Verified

variable [FloatText φ]

/-- The objects on the lines of a file that are not blank; `none` where a line is none. -/
def parsedLines : List Bytes → Option (List (List (Str × Json φ)))
  | [] => some []
  | raw :: raws => do
    let s ← decodeUtf8 false raw
    if strip s = [] then parsedLines raws
    else
      match loads (strip s) with
      | some (.obj d) => (parsedLines raws).map (d :: ·)
      | _ => none

variable (rt : Runtime φ)

def hashOf (ms : List (Str × Json φ)) : Json φ := .str (computeChainHash rt (covered ms))

/-- The entries `mss` of lines that were verified, from the hash `prev` to the hash `tip`. -/
structure Verified (prev : Str) (raws : List Bytes) (tip : Str)
    (mss : List (List (Str × Json φ))) : Prop where
  parsed : parsedLines raws = some mss
  stable : ∀ ms ∈ mss, (Json.obj ms).Stable
  chainHash : ∀ ms ∈ mss, (Json.obj ms).get? (lit "chain_hash") = some (hashOf rt ms)
  linked : HashChain.Linked linkOf (hashOf rt) (.str prev) mss
  tip : HashChain.tip (hashOf rt) (.str prev) mss = .str tip

omit [FloatText φ] in
theorem get?_of_getStr {ms : List (Str × Json φ)} {k s : Str} (hs : s ≠ [])
    (h : getStr ms k [] = .str s) : (Json.obj ms).get? k = some (.str s) := by
  rw [getStr] at h
  cases hget : (Json.obj ms).get? k with
  | none =>
    rw [hget] at h
    cases h
    exact absurd rfl hs
  | some v =>
    rw [hget] at h
    exact congrArg some h

/-- A file that verifies is a chain of entries that ends at the hash that was found. -/
theorem verifyLines_eq_ok {prev tip : Str} {count lineno n : Nat} {raws : List Bytes}
    (h : verifyLines rt prev count lineno raws = .ok (tip, n)) :
    ∃ mss, Verified rt prev raws tip mss := by
  induction raws generalizing prev count lineno with
  | nil =>
    cases h
    exact ⟨[], rfl, nofun, nofun, trivial, rfl⟩
  | cons raw raws ih =>
    rw [verifyLines] at h
    obtain ⟨line, hline, h⟩ := bind_eq_ok_iff.mp h
    obtain ⟨s, hs, rfl⟩ := readLine_eq_ok_iff.mp hline
    by_cases hblank : strip s = []
    · rw [if_pos hblank] at h
      obtain ⟨mss, hmss⟩ := ih h
      refine ⟨mss, ?_, hmss.stable, hmss.chainHash, hmss.linked, hmss.tip⟩
      rw [parsedLines, hs, Option.bind_eq_bind, Option.bind_some, if_pos hblank, hmss.parsed]
    · rw [if_neg hblank] at h
      split at h
      · cases h
      · rename_i ms hload
        obtain ⟨hprev, h⟩ := ite_error_eq_ok_iff.mp h
        obtain ⟨hhash, h⟩ := ite_error_eq_ok_iff.mp h
        have hprev := Json.asStr?_eq_some_iff.mp (not_not.mp hprev)
        have hhash := Json.asStr?_eq_some_iff.mp (not_not.mp hhash)
        obtain ⟨mss, hmss⟩ := ih h
        have hscalar : isScalar (strip s) = true :=
          isScalar_of_subset (fun _ => mem_of_mem_strip) (isScalar_of_decodeUtf8 hs)
        refine ⟨ms :: mss, ?_, ?_, ?_, ⟨?_, hmss.linked⟩, hmss.tip⟩
        · rw [parsedLines, hs, Option.bind_eq_bind, Option.bind_some, if_neg hblank, hload]
          simp only [hmss.parsed, Option.map_some]
        · exact List.forall_mem_cons.mpr ⟨stable_of_loads hscalar hload, hmss.stable⟩
        · refine List.forall_mem_cons.mpr ⟨?_, hmss.chainHash⟩
          exact get?_of_getStr (rt.sha256_ne_nil _) hhash
        · rw [linkOf, hprev]
          rfl
      · cases h

/-- The entries of a file whose lines are objects are those of the objects. -/
theorem entriesOf_eq {raws : List Bytes} {mss : List (List (Str × Json φ))}
    (h : parsedLines raws = some mss) :
    entriesOf raws = mss.mapM fun ms => AuditEntry.fromDict (.obj ms) := by
  induction raws generalizing mss with
  | nil =>
    cases h
    rfl
  | cons raw raws ih =>
    obtain ⟨s, hs, h⟩ := Option.bind_eq_some_iff.mp h
    rw [entriesOf, readLine_eq_ok_iff.mpr ⟨s, hs, rfl⟩, ok_bind]
    by_cases hblank : strip s = []
    · rw [if_pos hblank] at h ⊢
      exact ih h
    · rw [if_neg hblank] at h ⊢
      split at h
      · rename_i ms hload
        obtain ⟨mss, hmss, rfl⟩ := Option.map_eq_some_iff.mp h
        rw [hload, List.mapM_cons, ih hmss]
        rfl
      · cases h

end Verified

/-! ## Entries of the same objects -/

/-- The fields of an entry up to the order of keys. -/
def AuditEntry.sorted (e : AuditEntry φ) : AuditEntry φ where
  entryId := e.entryId.sorted
  parentId := e.parentId.sorted
  sessionId := e.sessionId.sorted
  method := e.method.sorted
  paramsDigest := e.paramsDigest.sorted
  timestampUtc := e.timestampUtc.sorted
  prevHash := e.prevHash.sorted
  chainHash := e.chainHash.sorted
  event := e.event.sorted

theorem fromDict_of_sorted_eq {ms ns : List (Str × Json φ)} {e : AuditEntry φ}
    (hms : (Json.obj ms).Stable) (hns : (Json.obj ns).Stable)
    (h : (Json.obj ms).sorted = (Json.obj ns).sorted)
    (he : AuditEntry.fromDict (.obj ms) = .ok e) :
    ∃ e', AuditEntry.fromDict (.obj ns) = .ok e' ∧ e.sorted = e'.sorted := by
  have hget := (Json.sorted_obj_eq_iff hms.1 hns.1).mp h
  have hsome : ∀ {k v}, (Json.obj ms).get? k = some v →
      ∃ w, (Json.obj ns).get? k = some w ∧ v.sorted = w.sorted := by
    intro k v hv
    have hk := hget k
    rw [hv] at hk
    obtain ⟨w, hw, hvw⟩ := Option.map_eq_some_iff.mp hk.symm
    exact ⟨w, hw, hvw.symm⟩
  have hnull : ∀ k, ((Json.obj ms).getOrNull k).sorted = ((Json.obj ns).getOrNull k).sorted := by
    intro k
    have hk := hget k
    rw [Json.getOrNull, Json.getOrNull]
    cases hm : (Json.obj ms).get? k with
    | none =>
      rw [hm] at hk
      rw [Option.map_eq_none_iff.mp hk.symm]
    | some v =>
      obtain ⟨w, hw, hvw⟩ := hsome hm
      rw [hw]
      exact hvw
  have hc := fromDict_eq_ok_iff.mp he
  obtain ⟨entryId, hentryId, hentryIdEq⟩ := hsome hc.entryId
  obtain ⟨sessionId, hsessionId, hsessionIdEq⟩ := hsome hc.sessionId
  obtain ⟨method, hmethod, hmethodEq⟩ := hsome hc.method
  obtain ⟨paramsDigest, hparamsDigest, hparamsDigestEq⟩ := hsome hc.paramsDigest
  obtain ⟨timestampUtc, htimestampUtc, htimestampUtcEq⟩ := hsome hc.timestampUtc
  obtain ⟨prevHash, hprevHash, hprevHashEq⟩ := hsome hc.prevHash
  obtain ⟨chainHash, hchainHash, hchainHashEq⟩ := hsome hc.chainHash
  have hcarries : Carries ns ⟨entryId, (Json.obj ns).getOrNull (lit "parent_id"), sessionId,
      method, paramsDigest, timestampUtc, prevHash, chainHash,
      (Json.obj ns).getOrNull (lit "event")⟩ :=
    ⟨hentryId, rfl, hsessionId, hmethod, hparamsDigest, htimestampUtc, hprevHash, hchainHash, rfl⟩
  refine ⟨_, fromDict_eq_ok_iff.mpr hcarries, ?_⟩
  rw [AuditEntry.sorted, AuditEntry.sorted, hentryIdEq, hsessionIdEq, hmethodEq,
    hparamsDigestEq, htimestampUtcEq, hprevHashEq, hchainHashEq, ← hc.parentId, ← hc.event,
    hnull, hnull]

/-- Objects and the entries made of them, for two files with the same objects. -/
theorem mapM_fromDict {mss nss : List (List (Str × Json φ))} {es : List (AuditEntry φ)}
    (h : List.Forall₂ (fun ms ns => (Json.obj ms).Stable ∧ (Json.obj ns).Stable ∧
      (Json.obj ms).sorted = (Json.obj ns).sorted) mss nss)
    (hes : mss.mapM (fun ms => AuditEntry.fromDict (.obj ms)) = .ok es) :
    ∃ es', nss.mapM (fun ms => AuditEntry.fromDict (.obj ms)) = .ok es' ∧
      es'.map AuditEntry.sorted = es.map AuditEntry.sorted := by
  induction h generalizing es with
  | nil =>
    cases hes
    exact ⟨[], rfl, rfl⟩
  | cons hhead _ ih =>
    rw [List.mapM_cons] at hes
    obtain ⟨e, he, hes⟩ := bind_eq_ok_iff.mp hes
    obtain ⟨es, hes', hes⟩ := bind_eq_ok_iff.mp hes
    cases hes
    obtain ⟨e', he', heq⟩ := fromDict_of_sorted_eq hhead.1 hhead.2.1 hhead.2.2 he
    obtain ⟨es', hes', hmap⟩ := ih hes'
    refine ⟨e' :: es', ?_, ?_⟩
    · rw [List.mapM_cons, he', hes']
      rfl
    · rw [List.map_cons, List.map_cons, heq, hmap]

/-! ## Tampering -/

section Tampering

variable [FloatText φ]

/-- The objects of a file, one for each line that is not blank. -/
def parsedEntries (file : Option Bytes) : Option (List (List (Str × Json φ))) :=
  parsedLines (lines (file.getD []))

variable (rt : Runtime φ)

theorem verifyChain_eq_ok {file : Option Bytes} {head : Str} {n : Nat}
    (h : verifyChain rt file (some head) = .ok n) :
    ∃ mss, Verified rt genesisHash (lines (file.getD [])) head mss := by
  cases file with
  | none =>
    obtain ⟨hne, -⟩ := ite_error_eq_ok_iff.mp h
    have hhead : head = genesisHash := by
      by_contra hhead
      exact hne ⟨nofun, fun heq => hhead (Option.some.inj heq)⟩
    rw [hhead]
    exact ⟨[], rfl, nofun, nofun, trivial, rfl⟩
  | some bytes =>
    obtain ⟨⟨tip, count⟩, hlines, h⟩ := bind_eq_ok_iff.mp h
    obtain ⟨hhead, -⟩ := ite_error_eq_ok_iff.mp h
    cases not_not.mp hhead
    exact verifyLines_eq_ok rt hlines

omit [FloatText φ] in
theorem map_eq_of_forall₂ {α β : Type} {f : α → β} {as bs : List α}
    (h : List.Forall₂ (fun a b => f a = f b) as bs) : bs.map f = as.map f := by
  induction h with
  | nil => rfl
  | cons hab _ ih => rw [List.map_cons, List.map_cons, hab, ih]

/-- Two files that verify against one head hold the same objects. -/
theorem Verified.forall₂
    (hinj : ∀ i j : Json φ, rt.sha256 i.canonical = rt.sha256 j.canonical →
      i.canonical = j.canonical)
    (hgenesis : ∀ j : Json φ, rt.sha256 j.canonical ≠ genesisHash) {raws raws' : List Bytes}
    {head : Str} {mss nss : List (List (Str × Json φ))}
    (h : Verified rt genesisHash raws head mss) (h' : Verified rt genesisHash raws' head nss) :
    List.Forall₂ (fun ms ns => (Json.obj ms).Stable ∧ (Json.obj ns).Stable ∧
      (Json.obj ms).sorted = (Json.obj ns).sorted) mss nss := by
  refine HashChain.forall₂_of_tip_eq
    (P := fun ms => (Json.obj ms).Stable ∧
      (Json.obj ms).get? (lit "chain_hash") = some (hashOf rt ms))
    ?_ ?_ ?_ (fun ms hms => ⟨h.stable ms hms, h.chainHash ms hms⟩)
    (fun ns hns => ⟨h'.stable ns hns, h'.chainHash ns hns⟩) h.linked h'.linked
    (h.tip.trans h'.tip.symm)
  · rintro ms ns ⟨hms, hmhash⟩ ⟨hns, hnhash⟩ heq
    have hcanonical := hinj _ _ (Json.str.inj heq)
    have hcovered := sorted_eq_of_canonical_eq (Stable.covered hms) (Stable.covered hns) hcanonical
    rw [← heq] at hnhash
    exact ⟨hms, hns, sorted_eq_of_covered hms hns hcovered hmhash hnhash⟩
  · rintro ms ns ⟨hms, hns, heq⟩
    exact linkOf_eq hms hns heq
  · intro ms _ heq
    exact hgenesis _ (Json.str.inj heq)

/-- A file that verifies against the head of a log that was written by calls of `log` has the
entries of that log: assuming that the hash determines the canonical text and is never the genesis
hash, whatever was edited, inserted, left out or rewritten. -/
theorem tamper_evident
    (hinj : ∀ i j : Json φ, rt.sha256 i.canonical = rt.sha256 j.canonical →
      i.canonical = j.canonical)
    (hgenesis : ∀ j : Json φ, rt.sha256 j.canonical ≠ genesisHash) {start : Option Bytes}
    (hstart : start = none ∨ start = some []) {logger : AuditLogger φ}
    (hopen : AuditLogger.open start = .ok logger) {events : List (Event φ)} {s : AuditLog φ}
    (hrun : Run.exec (AuditLog.step rt) ⟨start, logger⟩ events = some s)
    {es : List (AuditEntry φ)} (hes : entries s.file = .ok es) {head : Str}
    (hhead : HashChain.tip AuditEntry.chainHash (.str genesisHash) es = .str head)
    {file : Option Bytes} {n : Nat} (hverify : verifyChain rt file (some head) = .ok n) :
    (∃ mss nss : List (List (Str × Json φ)),
      parsedEntries s.file = some mss ∧ parsedEntries file = some nss ∧
      nss.map (fun ns => (Json.obj ns).sorted) = mss.map (fun ms => (Json.obj ms).sorted)) ∧
    ∃ es', entries file = .ok es' ∧ es'.map AuditEntry.sorted = es.map AuditEntry.sorted := by
  have hs := holds_run hstart hopen hrun
  cases hs.entries.symm.trans hes
  cases (tip_records rt genesisHash _).symm.trans hhead
  obtain ⟨mss, hmss⟩ := verifyChain_eq_ok rt hs.verifyChain
  obtain ⟨nss, hnss⟩ := verifyChain_eq_ok rt hverify
  have hforall := hmss.forall₂ rt hinj hgenesis hnss
  refine ⟨⟨mss, nss, hmss.parsed, hnss.parsed, ?_⟩, ?_⟩
  · exact map_eq_of_forall₂ (hforall.imp fun _ _ h => h.2.2)
  · rw [entries_eq, entriesOf_eq hmss.parsed] at hes
    rw [entries_eq, entriesOf_eq hnss.parsed]
    exact mapM_fromDict hforall hes

/-- A blank line in front of a log of one entry, with texts that are hashed to themselves. -/
theorem tamper_evident_blank_line :
    let call : LogCall WholeFloat :=
      ⟨lit "e1", .whole 0, lit "tools/list", lit "s", none, none, none⟩
    let line := call.line .plain (.str genesisHash)
    (∃ mss nss : List (List (Str × Json WholeFloat)),
      parsedEntries (some line) = some mss ∧ parsedEntries (some (10 :: line)) = some nss ∧
      nss.map (fun ns => (Json.obj ns).sorted) = mss.map (fun ms => (Json.obj ms).sorted)) ∧
    ∃ es', entries (some (10 :: line)) = .ok es' ∧
      es'.map AuditEntry.sorted =
        (records .plain genesisHash [call]).map AuditEntry.sorted := by
  intro call line
  have hplain : ∀ j : Json WholeFloat, Runtime.plain.sha256 (φ := WholeFloat) j.canonical =
      120 :: j.canonical := by
    intro j
    exact congrArg (120 :: ·) (List.filter_eq_self.mpr (List.all_eq_true.mp (isAscii_canonical j)))
  have hholds : Holds (φ := WholeFloat) .plain ⟨none, ⟨.str genesisHash, 0⟩⟩ [] := ⟨rfl, rfl, rfl⟩
  have hrun : Run.exec (AuditLog.step (φ := WholeFloat) .plain) ⟨none, ⟨.str genesisHash, 0⟩⟩
      [.log call] = some ⟨some line, ⟨.str (call.chainHash .plain (.str genesisHash)), 1⟩⟩ := rfl
  have hlines : lines (10 :: line) = [10] :: [line] :=
    congrArg ([10] :: ·) (lines_line .plain call (.str genesisHash))
  refine tamper_evident .plain (fun i j h => ?_) (fun j h => ?_) (.inl rfl) rfl hrun
    (hholds.log call).entries rfl (n := 1) ?_
  · rw [hplain, hplain] at h
    exact List.cons.inj h |>.2
  · rw [hplain] at h
    cases h
  · rw [verifyChain, hlines, verifyLines, show readLine [10] = .ok [] from rfl, ok_bind, if_pos rfl,
      verifyLines_line isAscii_genesisHash]
    exact if_neg (not_not.mpr rfl)

end Tampering

end CosaiMcp.Middleware.Audit
