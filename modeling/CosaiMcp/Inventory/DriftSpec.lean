import CosaiMcp.Inventory.Drift
import CosaiMcp.Inventory.SnapshotSpec

/-!
# What drift detection can tell

An inventory may list several tools of one name, of which `detectDrift` sees the last. It tells two
inventories apart, whatever the order in which their tools were listed, exactly if they are
`Unambiguous`: that the records of a name are one record wherever it matters.
-/

namespace CosaiMcp.Inventory

open Py ToolRecord

variable {φ κ : Type}

/-! ## Inventories that were built -/

/-- What a capture yields apart from the tools. -/
structure Capture where
  target : Str
  capturedAt : Str
  protocolVersion : Str
  serverName : Str
  serverVersion : Str

def Capture.build [PyFloat φ] (c : Capture) (rt : Runtime φ κ) (rawTools : List (Json φ)) :
    Option (ToolInventory κ) :=
  ToolInventory.build rt c.target c.capturedAt c.protocolVersion c.serverName c.serverVersion
    rawTools

/-- The records of the tools, as they are listed. -/
def recordsOf [PyFloat φ] (rt : Runtime φ κ) (rawTools : List (Json φ)) : List ToolRecord :=
  rawTools.map (fromDict rt)

section Build

variable [PyFloat φ] (rt : Runtime φ κ) {A B : List (Json φ)}

theorem isReadable_of_mem_recordsOf (hA : ∀ raw ∈ A, IsTool raw) :
    ∀ r ∈ recordsOf rt A, r.IsReadable φ :=
  List.forall_mem_map.mpr fun raw hraw => isReadable_fromDict rt (hA raw hraw)

/-- Building an inventory succeeds. -/
theorem build_eq (c : Capture) (hA : ∀ raw ∈ A, IsTool raw) : ∃ inventory,
    c.build rt A = some inventory ∧ inventory.target = c.target ∧
      inventory.capturedAt = c.capturedAt ∧ inventory.tools = sortByName (recordsOf rt A) ∧
      (ToolInventory.canonicalTools φ inventory.tools).map rt.sha256Hex =
        some inventory.contentHash := by
  have htext := ToolInventory.canonicalTools_eq fun r hr =>
    isReadable_of_mem_recordsOf rt hA r (mem_sortByName.mp hr)
  unfold Capture.build ToolInventory.build
  rw [← recordsOf]
  dsimp only
  rw [htext]
  exact ⟨_, rfl, rfl, rfl, rfl, by rw [htext]; rfl⟩

end Build

/-! ## When the report tells -/

/-- The records of `S` that share a name are one where `T` has the name too, and show one
description where it does not. -/
def Consistent (S T : List ToolRecord) : Prop :=
  ∀ r ∈ S, ∀ s ∈ S, r.name = s.name →
    if r.name ∈ T.map (·.name) then r = s else r.shown = s.shown

structure Unambiguous (S T : List ToolRecord) : Prop where
  baseline : Consistent S T
  current : Consistent T S
  /-- The same records come equally often. -/
  counted : (∀ r, r ∈ S ↔ r ∈ T) → S.Perm T
  /-- No two descriptions differ in the writing of a surrogate pair alone. -/
  joined : (S.map ToolRecord.joined).Perm (T.map ToolRecord.joined) → S.Perm T

/-- An empty report, equal records and equal hashes are one, and the order of the tools does not
change the report. -/
def IsExact [PyFloat φ] (rt : Runtime φ κ) (A B : List (Json φ)) : Prop :=
  ∀ c d : Capture, ∃ base curr, c.build rt A = some base ∧ d.build rt B = some curr ∧
    ((detectDrift base curr).entries = [] ↔ (recordsOf rt A).Perm (recordsOf rt B)) ∧
    ((recordsOf rt A).Perm (recordsOf rt B) ↔ base.contentHash = curr.contentHash) ∧
    ∀ A' B' : List (Json φ), A'.Perm A → B'.Perm B → ∃ base' curr', c.build rt A' = some base' ∧
      d.build rt B' = some curr' ∧ detectDrift base' curr' = detectDrift base curr

/-! ## The entries of one name -/

section Entries

variable {n : Str} {old new old' new' : ToolRecord}

/-- The changes of two pairs of records are the same only if what differs does. -/
theorem of_changes_eq (h : changes n old new = changes n old' new') :
    (old.description = new.description ∧ old'.description = new'.description ∨
      old.description = old'.description ∧ new.description = new'.description) ∧
    (old.inputSchema = new.inputSchema ∧ old'.inputSchema = new'.inputSchema ∨
      old.inputSchema = old'.inputSchema ∧ new.inputSchema = new'.inputSchema) := by
  unfold changes at h
  by_cases hd : old.description = new.description <;>
    by_cases hd' : old'.description = new'.description <;>
    by_cases hs : old.inputSchema = new.inputSchema <;>
    by_cases hs' : old'.inputSchema = new'.inputSchema <;>
    simp_all

theorem eq_of_changes_left (hname : old.name = old'.name)
    (h : changes n old new = changes n old' new) : old = old' := by
  obtain ⟨hdescription, hschema⟩ := of_changes_eq h
  have hdescription : old.description = old'.description := by
    rcases hdescription with ⟨h, h'⟩ | ⟨h, -⟩
    · exact h.trans h'.symm
    · exact h
  have hschema : old.inputSchema = old'.inputSchema := by
    rcases hschema with ⟨h, h'⟩ | ⟨h, -⟩
    · exact h.trans h'.symm
    · exact h
  cases old
  cases old'
  simp_all

theorem eq_of_changes_right (hname : new.name = new'.name)
    (h : changes n old new = changes n old new') : new = new' := by
  obtain ⟨hdescription, hschema⟩ := of_changes_eq h
  have hdescription : new.description = new'.description := by
    rcases hdescription with ⟨h, h'⟩ | ⟨-, h⟩
    · exact h.symm.trans h'
    · exact h
  have hschema : new.inputSchema = new'.inputSchema := by
    rcases hschema with ⟨h, h'⟩ | ⟨-, h⟩
    · exact h.symm.trans h'
    · exact h
  cases new
  cases new'
  simp_all

theorem changes_self (n : Str) (r : ToolRecord) : changes n r r = [] := by
  simp [changes]

theorem entriesOf_eq_nil_iff {S T : List ToolRecord} :
    entriesOf n (lastNamed S n) (lastNamed T n) = [] ↔ lastNamed S n = lastNamed T n := by
  cases hold : lastNamed S n with
  | none =>
    cases hnew : lastNamed T n with
    | none => exact ⟨fun _ => rfl, fun _ => rfl⟩
    | some new => exact ⟨nofun, nofun⟩
  | some old =>
    cases hnew : lastNamed T n with
    | none => exact ⟨nofun, nofun⟩
    | some new =>
      have hname : old.name = new.name :=
        (mem_of_lastNamed hold).2.trans (mem_of_lastNamed hnew).2.symm
      constructor
      · intro h
        rw [eq_of_changes_left hname (h.trans (changes_self n new).symm)]
      · intro h
        cases h
        exact changes_self n old

end Entries

/-! ## Reports of inventories -/

section Report

variable {base curr base' curr' : ToolInventory κ} {S T S' T' : List ToolRecord}

theorem filter_entries_of_tools (hbase : base.tools = sortByName S)
    (hcurr : curr.tools = sortByName T) (n : Str) :
    (detectDrift base curr).entries.filter (·.toolName = n) =
      entriesOf n (lastNamed S n) (lastNamed T n) := by
  rw [filter_entries, hbase, hcurr, lastNamed_sortByName, lastNamed_sortByName]

/-- Nothing is reported exactly if the last records of every name are the same. -/
theorem entries_eq_nil_iff (hbase : base.tools = sortByName S) (hcurr : curr.tools = sortByName T) :
    (detectDrift base curr).entries = [] ↔ ∀ n, lastNamed S n = lastNamed T n := by
  constructor
  · intro h n
    have hfilter := filter_entries_of_tools hbase hcurr n
    rw [h] at hfilter
    exact entriesOf_eq_nil_iff.mp hfilter.symm
  · intro h
    rw [entries_detectDrift]
    refine List.flatMap_eq_nil_iff.mpr fun n _ => ?_
    rw [hbase, hcurr, lastNamed_sortByName, lastNamed_sortByName]
    exact entriesOf_eq_nil_iff.mpr (h n)

/-- Reports on the same names agree if they do on each name. -/
theorem entries_congr (hbase : base.tools = sortByName S) (hcurr : curr.tools = sortByName T)
    (hbase' : base'.tools = sortByName S') (hcurr' : curr'.tools = sortByName T')
    (hS : S'.Perm S) (hT : T'.Perm T)
    (h : ∀ n, entriesOf n (lastNamed S' n) (lastNamed T' n) =
      entriesOf n (lastNamed S n) (lastNamed T n)) :
    (detectDrift base' curr').entries = (detectDrift base curr).entries := by
  have hkeys : ∀ {S S' : List ToolRecord}, S'.Perm S → ∀ n,
      n ∈ (byName (sortByName S')).keys ↔ n ∈ (byName (sortByName S)).keys := by
    intro S S' hperm n
    rw [mem_keys_byName, mem_keys_byName]
    exact (((sortByName_perm S').trans (hperm.trans (sortByName_perm S).symm)).map _).mem_iff
  rw [entries_detectDrift, entries_detectDrift, hbase, hcurr, hbase', hcurr',
    reportedNames_congr (hkeys hS) (hkeys hT)]
  refine List.flatMap_congr fun n _ => ?_
  rw [lastNamed_sortByName, lastNamed_sortByName, lastNamed_sortByName, lastNamed_sortByName]
  exact h n

end Report

/-! ## Consistent records -/

section Consistent

variable {S T S' T' : List ToolRecord} {n : Str}

theorem exists_lastNamed {r : ToolRecord} (hr : r ∈ S) : ∃ s, lastNamed S r.name = some s := by
  cases h : lastNamed S r.name with
  | some s => exact ⟨s, rfl⟩
  | none => exact absurd (List.mem_map_of_mem hr) (lastNamed_eq_none_iff.mp h)

theorem mem_names_of_lastNamed {r : ToolRecord} (h : lastNamed S n = some r) :
    n ∈ S.map (·.name) := by
  obtain ⟨hr, hn⟩ := mem_of_lastNamed h
  exact List.mem_map.mpr ⟨r, hr, hn⟩

/-- The last record of a name that both lists have is any record of it. -/
theorem Consistent.eq_of_lastNamed (h : Consistent S T) {r s : ToolRecord} (hr : r ∈ S)
    (hn : r.name ∈ T.map (·.name)) (hs : lastNamed S r.name = some s) : s = r := by
  obtain ⟨hmem, hname⟩ := mem_of_lastNamed hs
  have hsame := h r hr s hmem hname.symm
  rw [if_pos hn] at hsame
  exact hsame.symm

theorem Consistent.mem_of_lastNamed_eq (h : Consistent S T)
    (hlast : ∀ n, lastNamed S n = lastNamed T n) {r : ToolRecord} (hr : r ∈ S) : r ∈ T := by
  obtain ⟨s, hs⟩ := exists_lastNamed hr
  have hsT := (hlast r.name).symm.trans hs
  rw [h.eq_of_lastNamed hr (mem_names_of_lastNamed hsT) hs] at hsT
  exact (mem_of_lastNamed hsT).1

/-- Of consistent records the last ones agree if all do. -/
theorem lastNamed_eq_iff (hS : Consistent S T) (hT : Consistent T S) :
    (∀ n, lastNamed S n = lastNamed T n) ↔ ∀ r, r ∈ S ↔ r ∈ T := by
  constructor
  · intro h r
    exact ⟨hS.mem_of_lastNamed_eq h, hT.mem_of_lastNamed_eq fun n => (h n).symm⟩
  · intro h n
    cases hn : lastNamed S n with
    | none =>
      symm
      rw [lastNamed_eq_none_iff, List.mem_map] at hn ⊢
      simpa only [h] using hn
    | some r =>
      obtain ⟨hr, rfl⟩ := mem_of_lastNamed hn
      obtain ⟨s, hs⟩ := exists_lastNamed ((h r).mp hr)
      rw [hs, hT.eq_of_lastNamed ((h r).mp hr) (List.mem_map_of_mem hr) hs]

/-- The last records of a name, in any order of the lists, are reported alike. -/
theorem entriesOf_perm (hST : Consistent S T) (hTS : Consistent T S) (hS : S'.Perm S)
    (hT : T'.Perm T) (n : Str) : entriesOf n (lastNamed S' n) (lastNamed T' n) =
      entriesOf n (lastNamed S n) (lastNamed T n) := by
  have hnone : ∀ {R R' : List ToolRecord}, R'.Perm R → lastNamed R n = none →
      lastNamed R' n = none := by
    intro R R' hperm h
    rw [lastNamed_eq_none_iff] at h ⊢
    exact fun hn => h ((hperm.map _).mem_iff.mp hn)
  have hsome : ∀ {R R' : List ToolRecord} {r : ToolRecord}, R'.Perm R → lastNamed R n = some r →
      ∃ r', lastNamed R' n = some r' ∧ r' ∈ R ∧ r'.name = r.name := by
    intro R R' r hperm h
    obtain ⟨hr, rfl⟩ := mem_of_lastNamed h
    obtain ⟨r', hr'⟩ := exists_lastNamed (hperm.mem_iff.mpr hr)
    obtain ⟨hmem, hname⟩ := mem_of_lastNamed hr'
    exact ⟨r', hr', hperm.mem_iff.mp hmem, hname⟩
  cases hold : lastNamed S n with
  | none =>
    rw [hnone hS hold]
    cases hnew : lastNamed T n with
    | none => rw [hnone hT hnew]
    | some new =>
      obtain ⟨new', hnew', hmem, hname⟩ := hsome hT hnew
      obtain ⟨hnewmem, rfl⟩ := mem_of_lastNamed hnew
      have hshown := hTS new' hmem new hnewmem hname
      rw [hname, if_neg (lastNamed_eq_none_iff.mp hold)] at hshown
      rw [hnew', entriesOf, entriesOf, hshown]
  | some old =>
    obtain ⟨old', hold', hmem, hname⟩ := hsome hS hold
    obtain ⟨holdmem, rfl⟩ := mem_of_lastNamed hold
    have hsame := hST old' hmem old holdmem hname
    rw [hname] at hsame
    cases hnew : lastNamed T old.name with
    | none =>
      rw [if_neg (lastNamed_eq_none_iff.mp hnew)] at hsame
      rw [hold', hnone hT hnew, entriesOf, entriesOf, hsame]
    | some new =>
      rw [if_pos (mem_names_of_lastNamed hnew)] at hsame
      obtain ⟨new', hnew', hmem', hname'⟩ := hsome hT hnew
      obtain ⟨hnewmem, hnewname⟩ := mem_of_lastNamed hnew
      have hsame' := hTS new' hmem' new hnewmem hname'
      rw [hname', hnewname, if_pos (List.mem_map_of_mem holdmem)] at hsame'
      rw [hold', hnew', hsame, hsame']

/-- Lists that agree up to surrogate pairs are sorted alike up to surrogate pairs. -/
theorem map_joined_sortByName_eq_iff (hST : Consistent S T) :
    (sortByName S).map ToolRecord.joined = (sortByName T).map ToolRecord.joined ↔
      (S.map ToolRecord.joined).Perm (T.map ToolRecord.joined) := by
  constructor
  · intro h
    exact ((sortByName_perm S).symm.map _).trans (h ▸ (sortByName_perm T).map _)
  · intro h
    have hnames : (S.map (·.name)).Perm (T.map (·.name)) := by
      have hnames := h.map (·.name)
      rwa [List.map_map, List.map_map] at hnames
    rw [← sortByName_map joined_name, ← sortByName_map joined_name]
    refine sortByName_eq_of_perm h fun r hr s hs hname => ?_
    obtain ⟨r, hrS, rfl⟩ := List.mem_map.mp hr
    obtain ⟨s, hsS, rfl⟩ := List.mem_map.mp hs
    have hsame := hST r hrS s hsS hname
    rw [if_pos (hnames.mem_iff.mp (List.mem_map_of_mem hrS))] at hsame
    rw [hsame]

end Consistent

/-! ## Exactness -/

section Exact

variable [PyFloat φ] {rt : Runtime φ κ} {A B : List (Json φ)}

/-- The hashes of two inventories are equal exactly if their sorted records are, up to surrogate
pairs. -/
theorem contentHash_eq_iff (hsha : Function.Injective rt.sha256Hex) (hA : ∀ raw ∈ A, IsTool raw)
    (hB : ∀ raw ∈ B, IsTool raw) {base curr : ToolInventory κ}
    (hbase : (ToolInventory.canonicalTools φ (sortByName (recordsOf rt A))).map rt.sha256Hex =
      some base.contentHash)
    (hcurr : (ToolInventory.canonicalTools φ (sortByName (recordsOf rt B))).map rt.sha256Hex =
      some curr.contentHash) :
    base.contentHash = curr.contentHash ↔
      (sortByName (recordsOf rt A)).map ToolRecord.joined =
        (sortByName (recordsOf rt B)).map ToolRecord.joined := by
  rw [← ToolInventory.canonicalTools_eq_iff (φ := φ)
      (fun r hr => isReadable_of_mem_recordsOf rt hA r (mem_sortByName.mp hr))
      fun r hr => isReadable_of_mem_recordsOf rt hB r (mem_sortByName.mp hr),
    ← Option.some_inj, ← hbase, ← hcurr]
  exact (Option.map_injective hsha).eq_iff

theorem isExact_of_unambiguous (hsha : Function.Injective rt.sha256Hex)
    (hA : ∀ raw ∈ A, IsTool raw) (hB : ∀ raw ∈ B, IsTool raw)
    (h : Unambiguous (recordsOf rt A) (recordsOf rt B)) : IsExact rt A B := by
  intro c d
  obtain ⟨base, hbase, hbt, hbc, hbtools, hbhash⟩ := build_eq rt c hA
  obtain ⟨curr, hcurr, hct, hcc, hctools, hchash⟩ := build_eq rt d hB
  rw [hbtools] at hbhash
  rw [hctools] at hchash
  refine ⟨base, curr, hbase, hcurr, ?_, ?_, ?_⟩
  · rw [entries_eq_nil_iff hbtools hctools, lastNamed_eq_iff h.baseline h.current]
    exact ⟨h.counted, fun hperm _ => hperm.mem_iff⟩
  · rw [contentHash_eq_iff hsha hA hB hbhash hchash, map_joined_sortByName_eq_iff h.baseline]
    exact ⟨fun hperm => hperm.map _, h.joined⟩
  · intro A' B' hpermA hpermB
    obtain ⟨base', hbase', hbt', hbc', hbtools', -⟩ :=
      build_eq rt c fun raw hraw => hA raw (hpermA.mem_iff.mp hraw)
    obtain ⟨curr', hcurr', hct', hcc', hctools', -⟩ :=
      build_eq rt d fun raw hraw => hB raw (hpermB.mem_iff.mp hraw)
    have hrecA : (recordsOf rt A').Perm (recordsOf rt A) := hpermA.map _
    have hrecB : (recordsOf rt B').Perm (recordsOf rt B) := hpermB.map _
    have hentries := entries_congr hbtools hctools hbtools' hctools' hrecA hrecB
      (entriesOf_perm h.baseline h.current hrecA hrecB)
    refine ⟨base', curr', hbase', hcurr', ?_⟩
    have hreport : ∀ x y : ToolInventory κ, detectDrift x y =
        ⟨x.target, y.target, x.capturedAt, y.capturedAt, (detectDrift x y).entries⟩ :=
      fun _ _ => rfl
    rw [hreport base' curr', hreport base curr, hentries, hbt, hbt', hbc, hbc', hct, hct', hcc, hcc']

/-- Some order of a list ends with any of its elements. -/
theorem exists_perm_concat {α : Type} {l : List α} {a : α} (h : a ∈ l) :
    ∃ l', (l' ++ [a]).Perm l := by
  obtain ⟨s, t, rfl⟩ := List.append_of_mem h
  refine ⟨s ++ t, ?_⟩
  rw [List.append_assoc]
  exact List.perm_append_comm.append_left s

theorem unambiguous_of_isExact (hsha : Function.Injective rt.sha256Hex)
    (hA : ∀ raw ∈ A, IsTool raw) (hB : ∀ raw ∈ B, IsTool raw) (h : IsExact rt A B) :
    Unambiguous (recordsOf rt A) (recordsOf rt B) := by
  have c : Capture := ⟨[], [], [], [], []⟩
  obtain ⟨base, curr, hbase, hcurr, hentries, hhash, hperm⟩ := h c c
  obtain ⟨_, hbuild, -, -, hbtools, hbhash⟩ := build_eq rt c hA
  cases hbase.symm.trans hbuild
  obtain ⟨_, hbuild, -, -, hctools, hchash⟩ := build_eq rt c hB
  cases hcurr.symm.trans hbuild
  rw [hbtools] at hbhash
  rw [hctools] at hchash
  -- Moving a record to the end of its list makes it the last of its name.
  have hlast : ∀ {C : List (Json φ)} {r : ToolRecord}, r ∈ recordsOf rt C →
      ∃ C', C'.Perm C ∧ lastNamed (recordsOf rt C') r.name = some r := by
    intro C r hr
    obtain ⟨raw, hraw, rfl⟩ := List.mem_map.mp hr
    obtain ⟨C', hC'⟩ := exists_perm_concat hraw
    refine ⟨C' ++ [raw], hC', ?_⟩
    rw [recordsOf, List.map_append, List.map_singleton, lastNamed_concat, if_pos rfl]
  have hsame : ∀ {A' B' : List (Json φ)}, A'.Perm A → B'.Perm B → ∀ n,
      entriesOf n (lastNamed (recordsOf rt A') n) (lastNamed (recordsOf rt B') n) =
        entriesOf n (lastNamed (recordsOf rt A) n) (lastNamed (recordsOf rt B) n) := by
    intro A' B' hA' hB' n
    obtain ⟨base', curr', hbase', hcurr', hreport⟩ := hperm A' B' hA' hB'
    obtain ⟨_, hbuild, -, -, hbtools', -⟩ :=
      build_eq rt c fun raw hraw => hA raw (hA'.mem_iff.mp hraw)
    cases hbase'.symm.trans hbuild
    obtain ⟨_, hbuild, -, -, hctools', -⟩ :=
      build_eq rt c fun raw hraw => hB raw (hB'.mem_iff.mp hraw)
    cases hcurr'.symm.trans hbuild
    rw [← filter_entries_of_tools hbtools' hctools', hreport,
      filter_entries_of_tools hbtools hctools]
  have hbaseline : Consistent (recordsOf rt A) (recordsOf rt B) := by
    intro r hr s hs hname
    obtain ⟨A', hA', hr'⟩ := hlast hr
    obtain ⟨A'', hA'', hs'⟩ := hlast hs
    have heq := (hsame hA' (.refl B) r.name).trans (hsame hA'' (.refl B) r.name).symm
    rw [hr', hname, hs'] at heq
    split
    · next hn =>
      obtain ⟨t, ht, htn⟩ := List.mem_map.mp hn
      obtain ⟨new, hnew⟩ := exists_lastNamed ht
      rw [← hname, ← htn, hnew] at heq
      exact eq_of_changes_left hname heq
    · next hn =>
      rw [← hname, lastNamed_eq_none_iff.mpr hn] at heq
      simpa [entriesOf] using heq
  have hcurrent : Consistent (recordsOf rt B) (recordsOf rt A) := by
    intro r hr s hs hname
    obtain ⟨B', hB', hr'⟩ := hlast hr
    obtain ⟨B'', hB'', hs'⟩ := hlast hs
    have heq := (hsame (.refl A) hB' r.name).trans (hsame (.refl A) hB'' r.name).symm
    rw [hr', hname, hs'] at heq
    split
    · next hn =>
      obtain ⟨t, ht, htn⟩ := List.mem_map.mp hn
      obtain ⟨old, hold⟩ := exists_lastNamed ht
      rw [← hname, ← htn, hold] at heq
      exact eq_of_changes_right hname heq
    · next hn =>
      rw [← hname, lastNamed_eq_none_iff.mpr hn] at heq
      simpa [entriesOf] using heq
  refine ⟨hbaseline, hcurrent, fun hcounted => ?_, fun hjoined => ?_⟩
  · rw [← hentries, entries_eq_nil_iff hbtools hctools, lastNamed_eq_iff hbaseline hcurrent]
    exact hcounted
  · rw [hhash, contentHash_eq_iff hsha hA hB hbhash hchash, map_joined_sortByName_eq_iff hbaseline]
    exact hjoined

/-- **Drift detection is exact on unambiguous inventories, and on no others.** -/
theorem detectDrift_exact_iff (hsha : Function.Injective rt.sha256Hex)
    (hA : ∀ raw ∈ A, IsTool raw) (hB : ∀ raw ∈ B, IsTool raw) :
    IsExact rt A B ↔ Unambiguous (recordsOf rt A) (recordsOf rt B) :=
  ⟨unambiguous_of_isExact hsha hA hB, isExact_of_unambiguous hsha hA hB⟩

end Exact

/-! ## A record that is not seen -/

section Shadowed

/-- `str` of strings, and the text itself in place of its digest. -/
def plainRuntime : Runtime WholeFloat Str := ⟨fun j => j.asStr?.getD [], Json.getD_asStr?_str, id⟩

def plainTool (name description : String) : Json WholeFloat :=
  .obj [(lit "name", .str (lit name)), (lit "description", .str (lit description))]

theorem isTool_plainTool {name description : String}
    (h : (plainTool name description).isPlain = true) : IsTool (plainTool name description) := by
  refine ⟨⟨_, rfl⟩, Json.stable_of_isPlain h, fun v hv => ?_, fun v hv => ?_⟩
  · rw [plainTool, Json.get?_cons, if_pos rfl] at hv
    exact ⟨_, (Option.some.inj hv).symm⟩
  · have hne : lit "name" ≠ lit "description" := by decide
    rw [plainTool, Json.get?_cons, if_neg hne, Json.get?_cons, if_pos rfl] at hv
    exact ⟨_, (Option.some.inj hv).symm⟩

def honestTools : List (Json WholeFloat) := [plainTool "a" "x", plainTool "a" "y"]

def shadowedTools : List (Json WholeFloat) := [plainTool "a" "EVIL", plainTool "a" "y"]

theorem isTool_honestTools : ∀ raw ∈ honestTools, IsTool raw :=
  List.forall_mem_cons.mpr ⟨isTool_plainTool rfl, List.forall_mem_singleton.mpr
    (isTool_plainTool rfl)⟩

theorem isTool_shadowedTools : ∀ raw ∈ shadowedTools, IsTool raw :=
  List.forall_mem_cons.mpr ⟨isTool_plainTool rfl, List.forall_mem_singleton.mpr
    (isTool_plainTool rfl)⟩

/-- Inventories with a name that comes twice. -/
theorem detectDrift_exact_repeated :
    IsExact plainRuntime honestTools shadowedTools ↔
      Unambiguous (recordsOf plainRuntime honestTools) (recordsOf plainRuntime shadowedTools) :=
  detectDrift_exact_iff Function.injective_id isTool_honestTools isTool_shadowedTools

/-- The description of the first of two tools of one name changes, and nothing is reported. -/
theorem shadowed_record :
    Function.Injective plainRuntime.sha256Hex ∧ (∀ raw ∈ honestTools, IsTool raw) ∧
      (∀ raw ∈ shadowedTools, IsTool raw) ∧
      ∀ c d : Capture, ∃ base curr, c.build plainRuntime honestTools = some base ∧
        d.build plainRuntime shadowedTools = some curr ∧ (detectDrift base curr).entries = [] ∧
        ¬ (recordsOf plainRuntime honestTools).Perm (recordsOf plainRuntime shadowedTools) := by
  refine ⟨Function.injective_id, isTool_honestTools, isTool_shadowedTools, fun c d => ?_⟩
  obtain ⟨base, hbase, -, -, hbtools, -⟩ := build_eq plainRuntime c isTool_honestTools
  obtain ⟨curr, hcurr, -, -, hctools, -⟩ := build_eq plainRuntime d isTool_shadowedTools
  refine ⟨base, curr, hbase, hcurr, (entries_eq_nil_iff hbtools hctools).mpr fun n => ?_, fun h => ?_⟩
  · have hlast : ∀ first : Json WholeFloat, (fromDict plainRuntime first).name = lit "a" →
        lastNamed (recordsOf plainRuntime [first, plainTool "a" "y"]) n =
          if lit "a" = n then some (fromDict plainRuntime (plainTool "a" "y")) else none := by
      intro first hfirst
      have hsplit : recordsOf plainRuntime [first, plainTool "a" "y"] =
          ([] ++ [fromDict plainRuntime first]) ++ [fromDict plainRuntime (plainTool "a" "y")] := rfl
      rw [hsplit, lastNamed_concat, lastNamed_concat, hfirst]
      have hname : (fromDict plainRuntime (plainTool "a" "y")).name = lit "a" := rfl
      rw [hname]
      split
      · rfl
      · rfl
    exact (hlast _ rfl).trans (hlast _ rfl).symm
  · have hmem : lit "x" ∈ (recordsOf plainRuntime shadowedTools).map (·.description) :=
      (h.map (·.description)).mem_iff.mp List.mem_cons_self
    have hdescriptions : (recordsOf plainRuntime shadowedTools).map (·.description) =
        [lit "EVIL", lit "y"] := rfl
    rw [hdescriptions] at hmem
    exact absurd hmem (by decide)

end Shadowed

end CosaiMcp.Inventory
