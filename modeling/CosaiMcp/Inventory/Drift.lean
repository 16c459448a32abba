import CosaiMcp.Inventory.Snapshot
import CosaiMcp.Py.Dict
import Mathlib.Data.List.Induction

/-!
# Drift between two inventories

`detectDrift` matches tools by name. Of the records of one name it sees the last one of each
inventory (`get?_byName`), so that its entries are, name by name, those of two records
(`entries_detectDrift`).
-/

namespace CosaiMcp.Inventory

open Py

variable {κ : Type}

inductive DriftKind where
  | added
  | removed
  | descriptionChanged
  | schemaChanged
  deriving DecidableEq

structure DriftEntry where
  kind : DriftKind
  toolName : Str
  before : Option Str
  after : Option Str
  deriving DecidableEq

structure DriftReport where
  baselineTarget : Str
  currentTarget : Str
  baselineCapturedAt : Str
  currentCapturedAt : Str
  entries : List DriftEntry

/-- `description or "<no description>"`. -/
def ToolRecord.shown (r : ToolRecord) : Str :=
  if r.description = [] then lit "<no description>" else r.description

/-- `{t.name: t for t in tools}`. -/
def byName (tools : List ToolRecord) : Dict Str ToolRecord :=
  Dict.ofList (tools.map fun t => (t.name, t))

/-- `sorted(a.keys() - b.keys())`. -/
def onlyIn (a b : Dict Str ToolRecord) : List Str := sortStrs (a.keys.filter (· ∉ b.keys))

/-- `sorted(a.keys() & b.keys())`. -/
def inBoth (a b : Dict Str ToolRecord) : List Str := sortStrs (a.keys.filter (· ∈ b.keys))

/-- What is reported of a name that both inventories have. -/
def changes (name : Str) (old new : ToolRecord) : List DriftEntry :=
  (if old.description ≠ new.description then
    [⟨.descriptionChanged, name, some old.description, some new.description⟩] else []) ++
  (if old.inputSchema ≠ new.inputSchema then
    [⟨.schemaChanged, name, some old.inputSchema, some new.inputSchema⟩] else [])

/-- The names come from the maps, so that every lookup succeeds. -/
def detectDrift (baseline current : ToolInventory κ) : DriftReport :=
  let base := byName baseline.tools
  let curr := byName current.tools
  let added := (onlyIn curr base).flatMap fun name =>
    match curr.get? name with
    | some rec => [⟨.added, name, none, some rec.shown⟩]
    | none => []
  let removed := (onlyIn base curr).flatMap fun name =>
    match base.get? name with
    | some rec => [⟨.removed, name, some rec.shown, none⟩]
    | none => []
  let changed := (inBoth base curr).flatMap fun name =>
    match base.get? name, curr.get? name with
    | some old, some new => changes name old new
    | _, _ => []
  ⟨baseline.target, current.target, baseline.capturedAt, current.capturedAt,
    added ++ removed ++ changed⟩

/-! ## The last record of a name -/

/-- The record that shadows the others of its name. -/
def lastNamed (tools : List ToolRecord) (n : Str) : Option ToolRecord :=
  (tools.filter (·.name = n)).getLast?

theorem mem_of_lastNamed {tools : List ToolRecord} {n : Str} {r : ToolRecord}
    (h : lastNamed tools n = some r) : r ∈ tools ∧ r.name = n := by
  have hr := List.mem_filter.mp (List.mem_of_getLast? h)
  exact ⟨hr.1, of_decide_eq_true hr.2⟩

theorem lastNamed_eq_none_iff {tools : List ToolRecord} {n : Str} :
    lastNamed tools n = none ↔ n ∉ tools.map (·.name) := by
  rw [lastNamed, List.getLast?_eq_none_iff, List.filter_eq_nil_iff, List.mem_map]
  simp only [decide_eq_true_eq, not_exists, not_and]

theorem lastNamed_concat (tools : List ToolRecord) (r : ToolRecord) (n : Str) :
    lastNamed (tools ++ [r]) n = if r.name = n then some r else lastNamed tools n := by
  rw [lastNamed, List.filter_append, List.filter_singleton]
  by_cases hn : r.name = n
  · rw [if_pos hn, decide_eq_true hn]
    exact List.getLast?_concat
  · rw [if_neg hn, decide_eq_false hn]
    exact congrArg List.getLast? (List.append_nil _)

/-- Sorting by name leaves the last record of each name the last. -/
theorem lastNamed_sortByName (tools : List ToolRecord) (n : Str) :
    lastNamed (sortByName tools) n = lastNamed tools n := by
  rw [lastNamed, filter_sortByName, lastNamed]

/-- A later record of a name replaces an earlier one. -/
theorem get?_byName (tools : List ToolRecord) (n : Str) :
    (byName tools).get? n = lastNamed tools n := by
  induction tools using List.reverseRecOn with
  | nil => rfl
  | append_singleton tools r ih =>
    have hset : byName (tools ++ [r]) = (byName tools).set r.name r := by
      rw [byName, List.map_append, Dict.ofList, List.foldl_append]
      rfl
    rw [hset, Dict.get?_set, lastNamed_concat, ih]
    by_cases hn : r.name = n
    · rw [if_pos hn, if_pos hn.symm]
    · rw [if_neg hn, if_neg (Ne.symm hn)]

theorem mem_keys_byName {tools : List ToolRecord} {n : Str} :
    n ∈ (byName tools).keys ↔ n ∈ tools.map (·.name) := by
  rw [← not_iff_not, ← Dict.get?_eq_none_iff, get?_byName, lastNamed_eq_none_iff]

/-! ## Entries name by name -/

/-- What is reported of a name with the given records. -/
def entriesOf (name : Str) (old? new? : Option ToolRecord) : List DriftEntry :=
  match old?, new? with
  | none, none => []
  | none, some new => [⟨.added, name, none, some new.shown⟩]
  | some old, none => [⟨.removed, name, some old.shown, none⟩]
  | some old, some new => changes name old new

/-- The names of two maps, in the order in which they are reported. -/
def reportedNames (base curr : Dict Str ToolRecord) : List Str :=
  onlyIn curr base ++ onlyIn base curr ++ inBoth base curr

/-- The entries are those of one name after the other. -/
theorem entries_detectDrift (baseline current : ToolInventory κ) :
    (detectDrift baseline current).entries =
      (reportedNames (byName baseline.tools) (byName current.tools)).flatMap fun n =>
        entriesOf n (lastNamed baseline.tools n) (lastNamed current.tools n) := by
  have hadded : ∀ n ∈ onlyIn (byName current.tools) (byName baseline.tools),
      lastNamed baseline.tools n = none := by
    intro n hn
    have hn := (List.mem_filter.mp (mem_sortStrs.mp hn)).2
    exact lastNamed_eq_none_iff.mpr fun h => of_decide_eq_true hn (mem_keys_byName.mpr h)
  have hremoved : ∀ n ∈ onlyIn (byName baseline.tools) (byName current.tools),
      lastNamed current.tools n = none := by
    intro n hn
    have hn := (List.mem_filter.mp (mem_sortStrs.mp hn)).2
    exact lastNamed_eq_none_iff.mpr fun h => of_decide_eq_true hn (mem_keys_byName.mpr h)
  rw [reportedNames, List.flatMap_append, List.flatMap_append, detectDrift]
  simp only [get?_byName]
  congr 1
  · congr 1
    · refine List.flatMap_congr fun n hn => ?_
      rw [hadded n hn]
      cases lastNamed current.tools n <;> rfl
    · refine List.flatMap_congr fun n hn => ?_
      rw [hremoved n hn]
      cases lastNamed baseline.tools n <;> rfl
  · refine List.flatMap_congr fun n hn => ?_
    have hn := List.mem_filter.mp (mem_sortStrs.mp hn)
    have hbase := mem_keys_byName.mp hn.1
    have hcurr := mem_keys_byName.mp (of_decide_eq_true hn.2)
    cases hold : lastNamed baseline.tools n with
    | none => exact absurd hbase (lastNamed_eq_none_iff.mp hold)
    | some old =>
      cases hnew : lastNamed current.tools n with
      | none => exact absurd hcurr (lastNamed_eq_none_iff.mp hnew)
      | some new => rfl

theorem toolName_of_mem_entriesOf {n : Str} {old? new? : Option ToolRecord} {e : DriftEntry}
    (h : e ∈ entriesOf n old? new?) : e.toolName = n := by
  cases old? with
  | none =>
    cases new? with
    | none => cases h
    | some new => rw [List.mem_singleton.mp h]
  | some old =>
    cases new? with
    | none => rw [List.mem_singleton.mp h]
    | some new =>
      rcases List.mem_append.mp h with h | h
      · split at h
        · rw [List.mem_singleton.mp h]
        · cases h
      · split at h
        · rw [List.mem_singleton.mp h]
        · cases h

theorem mem_reportedNames {base curr : Dict Str ToolRecord} {n : Str} :
    n ∈ reportedNames base curr ↔ n ∈ base.keys ∨ n ∈ curr.keys := by
  simp only [reportedNames, onlyIn, inBoth, List.mem_append, mem_sortStrs, List.mem_filter,
    decide_eq_true_eq]
  by_cases hbase : n ∈ base.keys <;> by_cases hcurr : n ∈ curr.keys <;> simp [hbase, hcurr]

theorem nodup_reportedNames (base curr : Dict Str ToolRecord) : (reportedNames base curr).Nodup := by
  have hsort : ∀ {xs : List Str}, xs.Nodup → (sortStrs xs).Nodup :=
    fun h => (List.mergeSort_perm _ _).nodup_iff.mpr h
  have honly : ∀ a b : Dict Str ToolRecord, (onlyIn a b).Nodup := fun a b => hsort (a.nodup.filter _)
  have hboth : (inBoth base curr).Nodup := hsort (base.nodup.filter _)
  refine List.nodup_append.mpr ⟨List.nodup_append.mpr ⟨honly _ _, honly _ _, ?_⟩, hboth, ?_⟩
  · rintro n hn _ hn' rfl
    have hcurr := List.mem_filter.mp (mem_sortStrs.mp hn)
    have hbase := List.mem_filter.mp (mem_sortStrs.mp hn')
    exact of_decide_eq_true hcurr.2 hbase.1
  · rintro n hn _ hn' rfl
    have hin := List.mem_filter.mp (mem_sortStrs.mp hn')
    rcases List.mem_append.mp hn with hn | hn
    · exact of_decide_eq_true (List.mem_filter.mp (mem_sortStrs.mp hn)).2 hin.1
    · exact of_decide_eq_true (List.mem_filter.mp (mem_sortStrs.mp hn)).2 (of_decide_eq_true hin.2)

/-- The names are reported in an order that depends on which there are only. -/
theorem reportedNames_congr {base base' curr curr' : Dict Str ToolRecord}
    (hbase : ∀ n, n ∈ base.keys ↔ n ∈ base'.keys) (hcurr : ∀ n, n ∈ curr.keys ↔ n ∈ curr'.keys) :
    reportedNames base curr = reportedNames base' curr' := by
  have hsort : ∀ {xs ys : List Str}, xs.Nodup → ys.Nodup → (∀ n, n ∈ xs ↔ n ∈ ys) →
      sortStrs xs = sortStrs ys := by
    intro xs ys hxs hys h
    have hperm := (List.perm_ext_iff_of_nodup hxs hys).mpr h
    have hsorted : ∀ zs : List Str, (sortStrs zs).Pairwise fun s t => strLe s t = true := by
      intro zs
      apply List.pairwise_mergeSort
      · exact fun _ _ _ => strLe_trans
      · exact strLe_total
    exact List.Perm.eq_of_pairwise (fun _ _ _ _ => strLe_antisymm) (hsorted xs) (hsorted ys)
      ((List.mergeSort_perm xs _).trans (hperm.trans (List.mergeSort_perm ys _).symm))
  have honly : ∀ {a a' b b' : Dict Str ToolRecord}, (∀ n, n ∈ a.keys ↔ n ∈ a'.keys) →
      (∀ n, n ∈ b.keys ↔ n ∈ b'.keys) → onlyIn a b = onlyIn a' b' := by
    intro a a' b b' ha hb
    refine hsort (a.nodup.filter _) (a'.nodup.filter _) fun n => ?_
    simp only [List.mem_filter, ha n, hb n]
  have hboth : inBoth base curr = inBoth base' curr' := by
    refine hsort (base.nodup.filter _) (base'.nodup.filter _) fun n => ?_
    simp only [List.mem_filter, hbase n, hcurr n]
  rw [reportedNames, reportedNames, honly hcurr hbase, honly hbase hcurr, hboth]

/-- The entries of one name. -/
theorem filter_entries (baseline current : ToolInventory κ) (n : Str) :
    (detectDrift baseline current).entries.filter (·.toolName = n) =
      entriesOf n (lastNamed baseline.tools n) (lastNamed current.tools n) := by
  have hnames := nodup_reportedNames (byName baseline.tools) (byName current.tools)
  have hmem : n ∉ reportedNames (byName baseline.tools) (byName current.tools) →
      entriesOf n (lastNamed baseline.tools n) (lastNamed current.tools n) = [] := by
    intro hn
    obtain ⟨hbase, hcurr⟩ := not_or.mp (mem_reportedNames.not.mp hn)
    rw [lastNamed_eq_none_iff.mpr (mem_keys_byName.not.mp hbase),
      lastNamed_eq_none_iff.mpr (mem_keys_byName.not.mp hcurr)]
    rfl
  rw [entries_detectDrift]
  generalize reportedNames (byName baseline.tools) (byName current.tools) = names at hnames hmem
  induction names with
  | nil => exact (hmem List.not_mem_nil).symm
  | cons m names ih =>
    obtain ⟨hm, hnames⟩ := List.nodup_cons.mp hnames
    rw [List.flatMap_cons, List.filter_append]
    by_cases hmn : m = n
    · subst hmn
      have hrest : ∀ e ∈ names.flatMap fun k =>
          entriesOf k (lastNamed baseline.tools k) (lastNamed current.tools k), e.toolName ≠ m := by
        intro e he hem
        obtain ⟨k, hk, he⟩ := List.mem_flatMap.mp he
        exact hm (hem ▸ toolName_of_mem_entriesOf he ▸ hk)
      rw [List.filter_eq_self.mpr fun e he => decide_eq_true (toolName_of_mem_entriesOf he),
        List.filter_eq_nil_iff.mpr fun e he => by simpa using hrest e he, List.append_nil]
    · have hfirst : (entriesOf m (lastNamed baseline.tools m) (lastNamed current.tools m)).filter
          (·.toolName = n) = [] := by
        refine List.filter_eq_nil_iff.mpr fun e he => ?_
        rw [toolName_of_mem_entriesOf he]
        simpa using hmn
      rw [hfirst, List.nil_append]
      refine ih hnames fun hn => hmem fun h => ?_
      rcases List.mem_cons.mp h with h | h
      · exact hmn h.symm
      · exact hn h

end CosaiMcp.Inventory
