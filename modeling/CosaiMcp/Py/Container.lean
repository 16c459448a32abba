import CosaiMcp.Py.Canonical

/-!
# Containers that cannot be changed

`Value φ` is a document in which objects may be a `MappingProxyType` and arrays a `tuple`. What
`json.loads` yields is `json`; `makeMappingProxy` replaces every container of it, and `toJsonSafe`
goes back (`toJsonSafe_makeMappingProxy`). `plain` is what a digest is taken over: the content with
the members of its mappings sorted (`plain_makeMappingProxy`).
-/

namespace Py

variable {φ : Type}

inductive Value (φ : Type) where
  | json (j : Json φ)
  | tuple (items : List (Value φ))
  | proxy (members : List (Str × Value φ))

mutual

/-- Every `dict` becomes a `MappingProxyType` and every `list` a `tuple`. -/
def makeMappingProxy : Json φ → Value φ
  | .obj ms => .proxy (makeMappingProxyMembers ms)
  | .arr js => .tuple (makeMappingProxyItems js)
  | .null => .json .null
  | .bool b => .json (.bool b)
  | .int n => .json (.int n)
  | .float x => .json (.float x)
  | .nan => .json .nan
  | .str s => .json (.str s)

def makeMappingProxyItems : List (Json φ) → List (Value φ)
  | [] => []
  | j :: js => makeMappingProxy j :: makeMappingProxyItems js

def makeMappingProxyMembers : List (Str × Json φ) → List (Str × Value φ)
  | [] => []
  | (k, v) :: ms => (k, makeMappingProxy v) :: makeMappingProxyMembers ms

end

mutual

/-- Every mapping becomes a `dict` and every sequence a `list`. -/
def toJsonSafe : Value φ → Json φ
  | .json j => j
  | .tuple vs => .arr (toJsonSafeItems vs)
  | .proxy ms => .obj (toJsonSafeMembers ms)

def toJsonSafeItems : List (Value φ) → List (Json φ)
  | [] => []
  | v :: vs => toJsonSafe v :: toJsonSafeItems vs

def toJsonSafeMembers : List (Str × Value φ) → List (Str × Json φ)
  | [] => []
  | (k, v) :: ms => (k, toJsonSafe v) :: toJsonSafeMembers ms

end

mutual

/-- Every mapping becomes a `dict` that lists its members by key, every sequence a `list`. -/
def plain : Value φ → Json φ
  | .json j => j.sorted
  | .tuple vs => .arr (plainItems vs)
  | .proxy ms => .obj (sortMembers (plainMembers ms))

def plainItems : List (Value φ) → List (Json φ)
  | [] => []
  | v :: vs => plain v :: plainItems vs

def plainMembers : List (Str × Value φ) → List (Str × Json φ)
  | [] => []
  | (k, v) :: ms => (k, plain v) :: plainMembers ms

end

theorem toJsonSafe_makeMappingProxy (j : Json φ) : toJsonSafe (makeMappingProxy j) = j := by
  induction j using Json.induct with
  | arr js ih =>
    have hitems : toJsonSafeItems (makeMappingProxyItems js) = js := by
      induction js with
      | nil => rfl
      | cons j js ihs =>
        rw [makeMappingProxyItems, toJsonSafeItems, ih j List.mem_cons_self,
          ihs fun k hk => ih k (List.mem_cons_of_mem j hk)]
    rw [makeMappingProxy, toJsonSafe, hitems]
  | obj ms ih =>
    have hmembers : toJsonSafeMembers (makeMappingProxyMembers ms) = ms := by
      induction ms with
      | nil => rfl
      | cons m ms ihs =>
        rw [makeMappingProxyMembers, toJsonSafeMembers, ih m List.mem_cons_self,
          ihs fun k hk => ih k (List.mem_cons_of_mem m hk)]
    rw [makeMappingProxy, toJsonSafe, hmembers]
  | _ => rfl

theorem plain_makeMappingProxy (j : Json φ) : plain (makeMappingProxy j) = j.sorted := by
  induction j using Json.induct with
  | arr js ih =>
    have hitems : plainItems (makeMappingProxyItems js) = Json.sortedItems js := by
      induction js with
      | nil => rfl
      | cons j js ihs =>
        rw [makeMappingProxyItems, plainItems, Json.sortedItems, ih j List.mem_cons_self,
          ihs fun k hk => ih k (List.mem_cons_of_mem j hk)]
    rw [makeMappingProxy, plain, Json.sorted, hitems]
  | obj ms ih =>
    have hmembers : plainMembers (makeMappingProxyMembers ms) = Json.sortedMembers ms := by
      induction ms with
      | nil => rfl
      | cons m ms ihs =>
        rw [makeMappingProxyMembers, plainMembers, Json.sortedMembers, ih m List.mem_cons_self,
          ihs fun k hk => ih k (List.mem_cons_of_mem m hk)]
    rw [makeMappingProxy, plain, Json.sorted, hmembers]
  | _ => rfl

end Py
