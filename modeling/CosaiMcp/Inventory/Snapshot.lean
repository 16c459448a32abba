import CosaiMcp.Py.Canonical
import CosaiMcp.Py.Value

/-!
# Tool inventories

A snapshot of the tools that a server lists: of each tool its name, its description without control
characters and the canonical text of its input schema, sorted by name, with a digest of it all.

The capture time and what the handshake yields are inputs of `build`.
-/

namespace CosaiMcp.Inventory

open Py

/-- What the inventory calls: `str` of a JSON value, and `sha256(text.encode()).hexdigest()` with
digests in `κ`. -/
structure Runtime (φ κ : Type) where
  strOf : Json φ → Str
  strOf_str : ∀ s, strOf (.str s) = s
  sha256Hex : Str → κ

variable {φ κ : Type}

/-- The characters that `_CONTROL_CHAR_RE` matches. -/
def isControl (c : CodePoint) : Bool := c.val ≤ 0x1F || c.val == 0x7F

def stripControls (s : Str) : Str := s.filter fun c => !isControl c

structure ToolRecord where
  name : Str
  description : Str
  inputSchema : Str
  deriving DecidableEq

/-- `raw.get("inputSchema") or raw.get("input_schema") or {}`. -/
def schemaOf [PyFloat φ] (raw : Json φ) : Json φ :=
  if (raw.getOrNull (lit "inputSchema")).truthy then raw.getOrNull (lit "inputSchema")
  else if (raw.getOrNull (lit "input_schema")).truthy then raw.getOrNull (lit "input_schema")
  else .obj []

namespace ToolRecord

def fromDict [PyFloat φ] (rt : Runtime φ κ) (raw : Json φ) : ToolRecord :=
  ⟨rt.strOf ((raw.get? (lit "name")).getD (.str [])),
    stripControls (rt.strOf ((raw.get? (lit "description")).getD (.str []))),
    (schemaOf raw).canonical⟩

/-- The record with its schema read back; `none` is `JSONDecodeError`. -/
def toDict [FloatText φ] (r : ToolRecord) : Option (Json φ) :=
  (loads r.inputSchema).map fun schema => .obj [(lit "name", .str r.name),
    (lit "description", .str r.description), (lit "inputSchema", schema)]

/-- The order of `key=lambda r: r.name`. -/
def nameLe (r s : ToolRecord) : Bool := strLe r.name s.name

end ToolRecord

/-- `sorted(tools, key=lambda r: r.name)`: a stable sort. -/
def sortByName (tools : List ToolRecord) : List ToolRecord := tools.mergeSort ToolRecord.nameLe

structure ToolInventory (κ : Type) where
  target : Str
  capturedAt : Str
  protocolVersion : Str
  serverName : Str
  serverVersion : Str
  tools : List ToolRecord
  contentHash : κ

namespace ToolInventory

/-- The text that is hashed; `none` where a schema cannot be read back. -/
def canonicalTools (φ : Type) [FloatText φ] (tools : List ToolRecord) : Option Str :=
  (tools.mapM fun t => (t.toDict : Option (Json φ))).map fun dicts => (Json.arr dicts).canonical

def build [PyFloat φ] (rt : Runtime φ κ)
    (target capturedAt protocolVersion serverName serverVersion : Str) (rawTools : List (Json φ)) :
    Option (ToolInventory κ) :=
  let tools := sortByName (rawTools.map (ToolRecord.fromDict rt))
  (canonicalTools φ tools).map fun canonical =>
    ⟨target, capturedAt, protocolVersion, serverName, serverVersion, tools, rt.sha256Hex canonical⟩

end ToolInventory

/-! ## Sorting by name -/

section Sorting

theorem sortByName_perm (tools : List ToolRecord) : (sortByName tools).Perm tools :=
  List.mergeSort_perm tools _

theorem mem_sortByName {tools : List ToolRecord} {r : ToolRecord} :
    r ∈ sortByName tools ↔ r ∈ tools :=
  (sortByName_perm tools).mem_iff

theorem pairwise_sortByName (tools : List ToolRecord) :
    (sortByName tools).Pairwise fun r s => r.nameLe s = true := by
  apply List.pairwise_mergeSort
  · exact fun _ _ _ => strLe_trans
  · exact fun _ _ => strLe_total _ _

/-- The sort is stable: it keeps the records of one name in their order. -/
theorem filter_sortByName (tools : List ToolRecord) (n : Str) :
    (sortByName tools).filter (·.name = n) = tools.filter (·.name = n) := by
  symm
  have hperm := (sortByName_perm tools).filter (·.name = n)
  refine List.Sublist.eq_of_length ?_ hperm.length_eq.symm
  have hsame : (tools.filter (·.name = n)).Pairwise fun r s => r.nameLe s = true := by
    refine List.pairwise_iff_forall_sublist.mpr fun {r s} hrs => ?_
    have hr := (List.mem_filter.mp (hrs.subset List.mem_cons_self)).2
    have hs := (List.mem_filter.mp (hrs.subset (List.mem_cons_of_mem _ List.mem_cons_self))).2
    rw [ToolRecord.nameLe, of_decide_eq_true hr, of_decide_eq_true hs]
    exact (Bool.or_self _).symm.trans (strLe_total n n)
  have hsub : (tools.filter (·.name = n)).Sublist (tools.mergeSort ToolRecord.nameLe) := by
    apply List.sublist_mergeSort _ _ hsame List.filter_sublist
    · exact fun _ _ _ => strLe_trans
    · exact fun _ _ => strLe_total _ _
  have hfilter := hsub.filter (·.name = n)
  rwa [List.filter_filter, List.filter_congr fun r _ => Bool.and_self _] at hfilter

/-- Records of which no two of one name differ are sorted in one way. -/
theorem sortByName_eq_of_perm {tools tools' : List ToolRecord} (h : tools.Perm tools')
    (hsame : ∀ r ∈ tools, ∀ s ∈ tools, r.name = s.name → r = s) :
    sortByName tools = sortByName tools' := by
  refine List.Perm.eq_of_pairwise (fun r s hr hs hrs hsr => ?_) (pairwise_sortByName tools)
    (pairwise_sortByName tools')
    ((sortByName_perm tools).trans (h.trans (sortByName_perm tools').symm))
  exact hsame r (mem_sortByName.mp hr) s (h.mem_iff.mpr (mem_sortByName.mp hs))
    (strLe_antisymm hrs hsr)

theorem sortByName_map {f : ToolRecord → ToolRecord} (hf : ∀ r, (f r).name = r.name)
    (tools : List ToolRecord) : sortByName (tools.map f) = (sortByName tools).map f := by
  symm
  refine List.map_mergeSort fun r _ s _ => ?_
  rw [ToolRecord.nameLe, ToolRecord.nameLe, hf, hf]

end Sorting

end CosaiMcp.Inventory
