import CosaiMcp.Middleware.Audit.Log
import CosaiMcp.Py.JsonRead

/-!
# One entry of the audit log

What `log` writes for one call is read back by every reader of the file: the line is on its own
(`lines_line`), its text is the canonical text of the entry (`readLine_line`), and what is parsed
is the entry up to a round trip (`loads_entry`). The recomputed hash is the one that was written
(`computeChainHash_stored`), whatever the strings of the call hold: the keys of an entry, and those
of a cleaned event, have no surrogates.
-/

namespace CosaiMcp.Middleware.Audit

open Py

variable {φ : Type}

/-! ## Keys -/

section Keys

variable (rt : Runtime φ)

theorem isScalar_cleanText (s : Str) : isScalar (cleanText rt s) = true := by
  refine List.all_eq_true.mpr fun c hc => ?_
  obtain ⟨d, -, rfl⟩ := List.mem_map.mp hc
  by_cases hd : rt.isPrintable d = true
  · rw [if_pos hd]
    cases hs : isSurrogate d with
    | false => rfl
    | true =>
      rw [rt.isPrintable_surrogate d hs] at hd
      cases hd
  · rw [if_neg hd]
    rfl

theorem keysStable_cleanValue (j : Json φ) : (cleanValue rt j).KeysStable := by
  refine cleanValue.induct (fun j => (cleanValue rt j).KeysStable)
    (fun js => ∀ j ∈ cleanItems rt js, j.KeysStable)
    ?str ?arr ?null ?bool ?int ?float ?nan ?obj ?itemsNil ?itemsCons j
  case str => exact fun s => .str _
  case arr => exact fun js ih => .arr fun j hj => ih j (List.mem_of_mem_take hj)
  case null => exact .null
  case bool => exact fun b => .bool b
  case int => exact fun n => .int n
  case float => exact fun x => .float x
  case nan => exact .nan
  case obj => exact fun ms => .str _
  case itemsNil => exact fun j hj => nomatch hj
  case itemsCons =>
    intro j js hj hjs i hi
    rcases List.mem_cons.mp hi with rfl | hi
    · exact hj
    · exact hjs i hi

theorem keysStable_cleanEvent (event : List (Str × Json φ)) :
    (Json.obj (cleanEvent rt event)).KeysStable := by
  have hmem : ∀ m ∈ cleanEvent rt event, ∃ i : Str × Json φ,
      m = ((cleanText rt i.1).take 64, cleanValue rt i.2) := by
    intro m hm
    obtain ⟨i, -, rfl⟩ := List.mem_map.mp (mem_dictOf hm)
    exact ⟨i, rfl⟩
  refine .obj (Dict.ofList _).nodup (fun m hm => ?_) fun m hm => ?_
  · obtain ⟨i, rfl⟩ := hmem m hm
    apply noPair_of_isScalar
    exact isScalar_of_subset (fun c hc => List.mem_of_mem_take hc) (isScalar_cleanText rt i.1)
  · obtain ⟨i, rfl⟩ := hmem m hm
    exact keysStable_cleanValue rt i.2

variable [FloatText φ]

/-- The keys that an entry may have. -/
def entryKeys : List Str :=
  [lit "entry_id", lit "parent_id", lit "session_id", lit "method", lit "params_digest",
    lit "timestamp_utc", lit "prev_hash", lit "event", lit "chain_hash"]

theorem nodup_entryKeys : entryKeys.Nodup := by decide

theorem noPair_of_mem_entryKeys {k : Str} (h : k ∈ entryKeys) : NoPair k := by
  have hall : entryKeys.all isScalar = true := rfl
  exact noPair_of_isScalar (List.all_eq_true.mp hall k h)

variable (c : LogCall φ) (prev : Json φ)

def LogCall.members : List (Str × Json φ) :=
  c.unsigned rt prev ++ [(lit "chain_hash", .str (c.chainHash rt prev))]

theorem entry_eq : c.entry rt prev = .obj (c.members rt prev) := rfl

theorem keys_members_sublist : ((c.members rt prev).map Prod.fst).Sublist entryKeys := by
  unfold LogCall.members LogCall.unsigned
  cases c.event with
  | none =>
    have hdrop : (entryKeys.drop 8).Sublist (entryKeys.drop 7) := List.Sublist.cons _ (.refl _)
    exact (List.Sublist.refl (entryKeys.take 7)).append hdrop
  | some event => exact .refl _

theorem nodup_keys_members : ((c.members rt prev).map Prod.fst).Nodup :=
  nodup_entryKeys.sublist (keys_members_sublist rt c prev)

theorem filter_members :
    (c.members rt prev).filter (·.1 ≠ lit "chain_hash") = c.unsigned rt prev := by
  have hne : ∀ m ∈ c.unsigned rt prev, m.1 ≠ lit "chain_hash" := by
    have hn := nodup_keys_members rt c prev
    rw [LogCall.members, List.map_append, List.nodup_append] at hn
    intro m hm
    exact hn.2.2 _ (List.mem_map_of_mem hm) _ List.mem_cons_self
  rw [LogCall.members, List.filter_append, List.filter_eq_self.mpr]
  · rw [List.filter_cons_of_neg (by simp), List.filter_nil, List.append_nil]
  · exact fun m hm => decide_eq_true (hne m hm)

theorem noPair_of_mem_members {m : Str × Json φ} (h : m ∈ c.members rt prev) : NoPair m.1 :=
  noPair_of_mem_entryKeys ((keys_members_sublist rt c prev).subset (List.mem_map_of_mem h))

variable {prev}

theorem keysStable_of_mem_unsigned (hprev : prev.KeysStable) {m : Str × Json φ}
    (h : m ∈ c.unsigned rt prev) : m.2.KeysStable := by
  rcases List.mem_append.mp h with h | h
  · simp only [List.mem_cons, List.not_mem_nil, or_false] at h
    rcases h with rfl | rfl | rfl | rfl | rfl | rfl | rfl
    · exact .str _
    · cases c.parentId with
      | none => exact .null
      | some parent => exact .str _
    · exact .str _
    · exact .str _
    · exact .str _
    · exact .float _
    · exact hprev
  · cases hevent : c.event with
    | none =>
      rw [hevent] at h
      cases h
    | some event =>
      rw [hevent] at h
      rw [List.mem_singleton.mp h]
      exact keysStable_cleanEvent rt event

theorem keysStable_members (hprev : prev.KeysStable) :
    (Json.obj (c.members rt prev)).KeysStable := by
  refine .obj (nodup_keys_members rt c prev) (fun m => noPair_of_mem_members rt c prev) ?_
  intro m hm
  rcases List.mem_append.mp hm with hm | hm
  · exact keysStable_of_mem_unsigned rt c hprev hm
  · rw [List.mem_singleton.mp hm]
    exact .str _

theorem keysStable_unsigned (hprev : prev.KeysStable) :
    (Json.obj (c.unsigned rt prev)).KeysStable := by
  have hsub : (c.unsigned rt prev).Sublist (c.members rt prev) := List.sublist_append_left _ _
  refine .obj ((nodup_keys_members rt c prev).sublist (hsub.map Prod.fst)) (fun m hm => ?_) ?_
  · exact noPair_of_mem_members rt c prev (hsub.subset hm)
  · exact fun m hm => keysStable_of_mem_unsigned rt c hprev hm

end Keys

/-! ## Reading -/

theorem readLine_eq_ok_iff {raw : Bytes} {line : Str} :
    readLine raw = .ok line ↔ ∃ s, decodeUtf8 false raw = some s ∧ strip s = line := by
  unfold readLine
  cases decodeUtf8 false raw with
  | none => exact ⟨nofun, fun ⟨_, h, _⟩ => nomatch h⟩
  | some s =>
    constructor
    · intro h
      cases h
      exact ⟨s, rfl, rfl⟩
    · rintro ⟨t, ht, h⟩
      cases ht
      exact congrArg _ h

/-! ## Entries of a dictionary -/

/-- The members of a `dict` that the fields of an entry come from. -/
structure Carries (ms : List (Str × Json φ)) (e : AuditEntry φ) : Prop where
  entryId : (Json.obj ms).get? (lit "entry_id") = some e.entryId
  parentId : (Json.obj ms).getOrNull (lit "parent_id") = e.parentId
  sessionId : (Json.obj ms).get? (lit "session_id") = some e.sessionId
  method : (Json.obj ms).get? (lit "method") = some e.method
  paramsDigest : (Json.obj ms).get? (lit "params_digest") = some e.paramsDigest
  timestampUtc : (Json.obj ms).get? (lit "timestamp_utc") = some e.timestampUtc
  prevHash : (Json.obj ms).get? (lit "prev_hash") = some e.prevHash
  chainHash : (Json.obj ms).get? (lit "chain_hash") = some e.chainHash
  event : (Json.obj ms).getOrNull (lit "event") = e.event

theorem item_eq_ok_iff {ms : List (Str × Json φ)} {k : Str} {v : Json φ} :
    item (.obj ms) k = .ok v ↔ (Json.obj ms).get? k = some v := by
  simp only [item]
  cases (Json.obj ms).get? k with
  | none => exact ⟨nofun, nofun⟩
  | some w =>
    constructor
    · intro h
      cases h
      rfl
    · intro h
      cases h
      rfl

theorem fromDict_eq_ok_iff {ms : List (Str × Json φ)} {e : AuditEntry φ} :
    AuditEntry.fromDict (.obj ms) = .ok e ↔ Carries ms e := by
  constructor
  · intro h
    obtain ⟨entryId, hentryId, h⟩ := bind_eq_ok_iff.mp h
    obtain ⟨sessionId, hsessionId, h⟩ := bind_eq_ok_iff.mp h
    obtain ⟨method, hmethod, h⟩ := bind_eq_ok_iff.mp h
    obtain ⟨paramsDigest, hparamsDigest, h⟩ := bind_eq_ok_iff.mp h
    obtain ⟨timestampUtc, htimestampUtc, h⟩ := bind_eq_ok_iff.mp h
    obtain ⟨prevHash, hprevHash, h⟩ := bind_eq_ok_iff.mp h
    obtain ⟨chainHash, hchainHash, h⟩ := bind_eq_ok_iff.mp h
    cases h
    exact ⟨item_eq_ok_iff.mp hentryId, rfl, item_eq_ok_iff.mp hsessionId,
      item_eq_ok_iff.mp hmethod, item_eq_ok_iff.mp hparamsDigest, item_eq_ok_iff.mp htimestampUtc,
      item_eq_ok_iff.mp hprevHash, item_eq_ok_iff.mp hchainHash, rfl⟩
  · intro h
    rw [AuditEntry.fromDict, item_eq_ok_iff.mpr h.entryId, item_eq_ok_iff.mpr h.sessionId,
      item_eq_ok_iff.mpr h.method, item_eq_ok_iff.mpr h.paramsDigest,
      item_eq_ok_iff.mpr h.timestampUtc, item_eq_ok_iff.mpr h.prevHash,
      item_eq_ok_iff.mpr h.chainHash, h.parentId, h.event]
    rfl

/-! ## The text of an entry -/

section Text

variable [FloatText φ] (rt : Runtime φ) (c : LogCall φ) (prev : Json φ)

theorem canonical_entry_braces : ∃ t, (c.entry rt prev).canonical = 123 :: (t ++ [125]) := by
  rw [entry_eq, Json.canonical, Json.sorted_obj]
  apply text_obj_braces
  have hmem : (lit "chain_hash", .str (c.chainHash rt prev)) ∈ c.members rt prev :=
    List.mem_append_right _ List.mem_cons_self
  exact List.ne_nil_of_mem (List.mem_map_of_mem (mem_sortMembers.mpr hmem))

theorem not_mem_asciiBytes_canonical (j : Json φ) : 10 ∉ asciiBytes j.canonical := by
  intro h
  obtain ⟨c, hc, hval⟩ := mem_asciiBytes (isAscii_canonical j) h
  have hgraphic : isGraphic c = true := isGraphic_of_mem_text hc
  simp only [isGraphic, hval, Bool.and_eq_true, decide_eq_true_eq] at hgraphic
  exact absurd hgraphic.1 (by decide)

/-- The line of a call is one line. -/
theorem lines_line : lines (c.line rt prev) = [c.line rt prev] :=
  Py.lines_line (not_mem_asciiBytes_canonical _)

theorem endsLine_line : EndsLine (c.line rt prev) := endsLine_concat _

theorem readLine_line : readLine (c.line rt prev) = .ok (c.entry rt prev).canonical := by
  have hascii : isAscii ((c.entry rt prev).canonical ++ [10]) = true := by
    rw [isAscii_append, isAscii_canonical]
    rfl
  have hbytes : c.line rt prev = asciiBytes ((c.entry rt prev).canonical ++ [10]) := by
    rw [asciiBytes_append]
    rfl
  obtain ⟨t, ht⟩ := canonical_entry_braces rt c prev
  rw [readLine, hbytes, decodeUtf8_asciiBytes false hascii]
  exact congrArg _ (strip_line ht rfl rfl)

theorem canonical_entry_ne_nil : (c.entry rt prev).canonical ≠ [] := by
  obtain ⟨t, ht⟩ := canonical_entry_braces rt c prev
  rw [ht]
  exact List.cons_ne_nil _ _

end Text

/-! ## What is read back -/

section Stored

variable [FloatText φ] (rt : Runtime φ) (c : LogCall φ) (prev : Str)

/-- The members of an entry as every reader of the file finds them. -/
def LogCall.stored : List (Str × Json φ) :=
  (sortMembers (c.members rt (.str prev))).map fun m => (m.1, m.2.sorted.reload)

omit [FloatText φ] in
theorem sorted_reload_obj {ms : List (Str × Json φ)} (h : (Json.obj ms).KeysStable) :
    (Json.obj ms).sorted.reload =
      .obj ((sortMembers ms).map fun m => (m.1, m.2.sorted.reload)) := by
  cases h with
  | obj hn hk _ =>
    have hreload := @reload_obj_of_keys _ ((sortMembers ms).map fun m => (m.1, m.2.sorted))
      (by rw [List.map_map]; exact nodup_keys_sortMembers.mpr hn)
      (fun m hm => by
        obtain ⟨i, hi, rfl⟩ := List.mem_map.mp hm
        exact hk i (mem_sortMembers.mp hi))
    rw [Json.sorted_obj, hreload, List.map_map]
    rfl

theorem loads_entry :
    loads (c.entry rt (.str prev)).canonical = some (.obj (c.stored rt prev)) := by
  rw [Json.canonical, loads_text, entry_eq, sorted_reload_obj (keysStable_members rt c (.str prev))]
  rfl

theorem get?_stored (k : Str) : (Json.obj (c.stored rt prev)).get? k =
    ((Json.obj (c.members rt (.str prev))).get? k).map fun j => j.sorted.reload := by
  rw [LogCall.stored, Json.get?_map fun j => j.sorted.reload,
    Json.get?_perm (nodup_keys_members rt c _) (sortMembers_perm _).symm]

/-- The hash over the members that were read back is the one that was written. -/
theorem computeChainHash_stored :
    computeChainHash rt ((c.stored rt prev).filter (·.1 ≠ lit "chain_hash")) =
      c.chainHash rt (.str prev) := by
  have hunsigned := keysStable_unsigned rt c (.str prev)
  have hfilter : (c.stored rt prev).filter (·.1 ≠ lit "chain_hash") =
      (sortMembers (c.unsigned rt (.str prev))).map fun m => (m.1, m.2.sorted.reload) := by
    rw [LogCall.stored, List.filter_map, ← filter_members rt c,
      ← sortMembers_filter (nodup_keys_members rt c _)]
    rfl
  rw [computeChainHash, hfilter, ← sorted_reload_obj hunsigned, hunsigned.sorted.canonical_reload,
    Json.canonical_sorted]
  rfl

end Stored

end CosaiMcp.Middleware.Audit
