import CosaiMcp.Inventory.Snapshot
import CosaiMcp.Py.JsonRead

/-!
# What the hash of an inventory determines

The text that is hashed determines the records, up to surrogate pairs in their descriptions
(`canonicalTools_eq_iff`): a pair is written as the one code point it stands for.
-/

namespace CosaiMcp.Inventory

open Py

variable {φ κ : Type}

/-- A tool as it comes with the response to `tools/list`. -/
structure IsTool (raw : Json φ) : Prop where
  object : ∃ ms, raw = .obj ms
  stable : raw.Stable
  name : ∀ v, raw.get? (lit "name") = some v → ∃ s, v = .str s
  description : ∀ v, raw.get? (lit "description") = some v → ∃ s, v = .str s

namespace ToolRecord

/-- The record of a tool whose name has no surrogate pair and whose schema can be read back. -/
def IsReadable (φ : Type) [FloatText φ] (r : ToolRecord) : Prop :=
  NoPair r.name ∧ ∃ schema : Json φ, schema.Stable ∧ r.inputSchema = schema.canonical

/-- The record with the surrogate pairs of its description joined. -/
def joined (r : ToolRecord) : ToolRecord := { r with description := mergePairs r.description }

@[simp] theorem joined_name (r : ToolRecord) : r.joined.name = r.name := rfl

theorem stable_schemaOf [PyFloat φ] {raw : Json φ} (h : raw.Stable) : (schemaOf raw).Stable := by
  have hget : ∀ key, (raw.getOrNull key).Stable := by
    intro key
    unfold Json.getOrNull
    cases hkey : raw.get? key with
    | none => trivial
    | some v => exact stable_of_get? h hkey
  unfold schemaOf
  split
  · exact hget _
  · split
    · exact hget _
    · exact ⟨List.nodup_nil, trivial⟩

theorem isReadable_fromDict [PyFloat φ] (rt : Runtime φ κ) {raw : Json φ} (h : IsTool raw) :
    (fromDict rt raw).IsReadable φ := by
  refine ⟨?_, schemaOf raw, stable_schemaOf h.stable, rfl⟩
  unfold fromDict
  cases hname : raw.get? (lit "name") with
  | none =>
    simp only [Option.getD_none, rt.strOf_str]
    exact noPair_nil
  | some v =>
    obtain ⟨s, rfl⟩ := h.name v hname
    simp only [Option.getD_some, rt.strOf_str]
    exact stable_of_get? h.stable hname

variable [FloatText φ]

theorem IsReadable.joined {r : ToolRecord} (h : r.IsReadable φ) : r.joined.IsReadable φ := h

/-- `r.to_dict()`, where it succeeds. -/
def asDict (φ : Type) [FloatText φ] (r : ToolRecord) : Json φ := r.toDict.getD .null

/-- The members of a dictionary of a record. -/
def dictMembers (r : ToolRecord) (schema : Json φ) : List (Str × Json φ) :=
  [(lit "name", .str r.name), (lit "description", .str r.description), (lit "inputSchema", schema)]

omit [FloatText φ] in
theorem nodup_dictMembers (r : ToolRecord) (schema : Json φ) :
    ((r.dictMembers schema).map Prod.fst).Nodup := by
  have hkeys : [lit "name", lit "description", lit "inputSchema"].Nodup := by decide
  exact hkeys

omit [FloatText φ] in
theorem noPair_dictMembers (r : ToolRecord) (schema : Json φ) :
    ∀ m ∈ r.dictMembers schema, NoPair m.1 := by
  intro m hm
  apply noPair_of_isScalar
  have hall : [lit "name", lit "description", lit "inputSchema"].all isScalar = true := by decide
  exact List.all_eq_true.mp hall m.1 (List.mem_map_of_mem hm)

theorem IsReadable.toDict_eq {r : ToolRecord} (h : r.IsReadable φ) :
    ∃ schema : Json φ, schema.Stable ∧ r.inputSchema = schema.canonical ∧
      r.toDict = some (.obj (r.dictMembers schema.sorted)) := by
  obtain ⟨-, schema, hschema, hr⟩ := h
  refine ⟨schema, hschema, hr, ?_⟩
  rw [toDict, hr, Json.canonical, loads_text, Json.reload_eq_self _ (stable_sorted _ hschema)]
  rfl

theorem IsReadable.asDict_eq {r : ToolRecord} (h : r.IsReadable φ) :
    ∃ schema : Json φ, schema.Stable ∧ r.inputSchema = schema.canonical ∧
      r.asDict φ = .obj (r.dictMembers schema.sorted) := by
  obtain ⟨schema, hschema, hr, hdict⟩ := h.toDict_eq
  exact ⟨schema, hschema, hr, by rw [asDict, hdict]; rfl⟩

theorem IsReadable.keysStable {r : ToolRecord} (h : r.IsReadable φ) : (r.asDict φ).KeysStable := by
  obtain ⟨schema, hschema, -, hdict⟩ := h.asDict_eq
  rw [hdict]
  refine .obj (nodup_dictMembers r _) (noPair_dictMembers r _) fun m hm => ?_
  simp only [dictMembers, List.mem_cons, List.not_mem_nil, or_false] at hm
  rcases hm with rfl | rfl | rfl
  · exact .str _
  · exact .str _
  · exact (stable_sorted _ hschema).keysStable

/-- Reading a record back joins the surrogate pairs of its description. -/
theorem IsReadable.reload_asDict {r : ToolRecord} (h : r.IsReadable φ) :
    (r.asDict φ).reload = r.joined.asDict φ := by
  obtain ⟨schema, hschema, hr, hdict⟩ := h.asDict_eq
  have hread : loads r.joined.inputSchema = some schema.sorted := by
    have htext := loads_text schema.sorted
    rwa [Json.reload_eq_self _ (stable_sorted _ hschema), ← Json.canonical, ← hr] at htext
  have hjoined : r.joined.asDict φ = .obj (r.joined.dictMembers schema.sorted) := by
    rw [asDict, toDict, hread]
    rfl
  rw [hjoined, hdict, reload_obj_of_keys (nodup_dictMembers r _) (noPair_dictMembers r _)]
  simp only [dictMembers, List.map_cons, List.map_nil, Json.reload, mergePairs_eq_self h.1,
    Json.reload_eq_self _ (stable_sorted _ hschema)]
  rfl

/-- The dictionary of a record determines it, up to the order of keys. -/
theorem eq_of_sorted_asDict_eq {r s : ToolRecord} (hr : r.IsReadable φ) (hs : s.IsReadable φ)
    (h : (r.asDict φ).sorted = (s.asDict φ).sorted) : r = s := by
  obtain ⟨schema, -, hrschema, hrdict⟩ := hr.asDict_eq
  obtain ⟨schema', -, hsschema, hsdict⟩ := hs.asDict_eq
  rw [hrdict, hsdict] at h
  have hget := (Json.sorted_obj_eq_iff (nodup_dictMembers r _) (nodup_dictMembers s _)).mp h
  have hname : r.name = s.name := by
    simpa [dictMembers, Json.get?_cons, Json.sorted] using hget (lit "name")
  have hdescription : r.description = s.description := by
    have hne : lit "name" ≠ lit "description" := by decide
    simpa [dictMembers, Json.get?_cons, Json.sorted, hne] using hget (lit "description")
  have hinput : schema.sorted = schema'.sorted := by
    have hne : lit "name" ≠ lit "inputSchema" := by decide
    have hne' : lit "description" ≠ lit "inputSchema" := by decide
    simpa [dictMembers, Json.get?_cons, hne, hne', Json.sorted_sorted] using hget (lit "inputSchema")
  have hschema : r.inputSchema = s.inputSchema := by
    rw [hrschema, hsschema, Json.canonical, Json.canonical, hinput]
  cases r
  cases s
  simp_all

end ToolRecord

namespace ToolInventory

open ToolRecord

variable [FloatText φ]

theorem mapM_toDict {tools : List ToolRecord} (h : ∀ r ∈ tools, r.IsReadable φ) :
    (tools.mapM fun t => (t.toDict : Option (Json φ))) = some (tools.map (asDict φ)) := by
  induction tools with
  | nil => rfl
  | cons r tools ih =>
    obtain ⟨schema, -, -, hdict⟩ := (h r List.mem_cons_self).toDict_eq
    rw [List.mapM_cons, ih fun s hs => h s (List.mem_cons_of_mem _ hs), List.map_cons, asDict,
      hdict]
    rfl

theorem canonicalTools_eq {tools : List ToolRecord} (h : ∀ r ∈ tools, r.IsReadable φ) :
    canonicalTools φ tools = some (Json.arr (tools.map (asDict φ))).canonical := by
  rw [canonicalTools, mapM_toDict h]
  rfl

theorem keysStable_dicts {tools : List ToolRecord} (h : ∀ r ∈ tools, r.IsReadable φ) :
    (Json.arr (tools.map (asDict φ))).KeysStable :=
  .arr (List.forall_mem_map.mpr fun r hr => (h r hr).keysStable)

theorem reload_dicts {tools : List ToolRecord} (h : ∀ r ∈ tools, r.IsReadable φ) :
    (Json.arr (tools.map (asDict φ))).reload =
      .arr ((tools.map ToolRecord.joined).map (asDict φ)) := by
  rw [Json.reload, Json.reloadItems_eq, List.map_map, List.map_map]
  exact congrArg Json.arr (List.map_congr_left fun r hr => (h r hr).reload_asDict)

theorem eq_of_sorted_dicts_eq {S T : List ToolRecord} (hS : ∀ r ∈ S, r.IsReadable φ)
    (hT : ∀ r ∈ T, r.IsReadable φ)
    (h : (Json.arr (S.map (asDict φ))).sorted = (Json.arr (T.map (asDict φ))).sorted) : S = T := by
  simp only [Json.sorted, Json.sortedItems_eq, List.map_map, Json.arr.injEq] at h
  induction S generalizing T with
  | nil => exact (List.map_eq_nil_iff.mp h.symm).symm
  | cons r S ih =>
    cases T with
    | nil => cases h
    | cons s T =>
      obtain ⟨hhead, htail⟩ := List.cons.inj h
      rw [eq_of_sorted_asDict_eq (hS r List.mem_cons_self) (hT s List.mem_cons_self) hhead,
        ih (fun r hr => hS r (List.mem_cons_of_mem _ hr))
          (fun s hs => hT s (List.mem_cons_of_mem _ hs)) htail]

/-- What is hashed determines the records, up to surrogate pairs in their descriptions. -/
theorem canonicalTools_eq_iff {S T : List ToolRecord} (hS : ∀ r ∈ S, r.IsReadable φ)
    (hT : ∀ r ∈ T, r.IsReadable φ) :
    canonicalTools φ S = canonicalTools φ T ↔
      S.map ToolRecord.joined = T.map ToolRecord.joined := by
  rw [canonicalTools_eq hS, canonicalTools_eq hT, Option.some.injEq]
  constructor
  · intro h
    have hreload := reload_sorted_of_canonical_eq h
    rw [(keysStable_dicts hS).reload_sorted, (keysStable_dicts hT).reload_sorted, reload_dicts hS,
      reload_dicts hT] at hreload
    exact eq_of_sorted_dicts_eq (φ := φ) (List.forall_mem_map.mpr fun r hr => (hS r hr).joined)
      (List.forall_mem_map.mpr fun r hr => (hT r hr).joined) hreload
  · intro h
    rw [← (keysStable_dicts hS).canonical_reload, ← (keysStable_dicts hT).canonical_reload,
      reload_dicts hS, reload_dicts hT, h]

end ToolInventory

end CosaiMcp.Inventory
