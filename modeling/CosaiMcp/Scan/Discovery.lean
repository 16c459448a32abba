import CosaiMcp.Middleware.Boundary.Detector
import CosaiMcp.Py.Float

/-!
# Discovered tools

`toolDictToDiscovered` makes a tool of an entry of `tools/list`, or nothing. Its name is a safe
identifier, its description is cut off, and its schema is an object of a limited size. An entry that
is not what it should be is dropped, and nothing raises.
-/

namespace CosaiMcp.Scan

open Py
open Middleware.Boundary (isAlphanumeric)

variable {φ : Type}

/-! ## The size of a schema -/

section Size

variable [FloatText φ]

mutual

/-- `json.dumps(j)`, with a space after every comma and colon. -/
def dumps : Json φ → Str
  | .arr [] => lit "[]"
  | .arr (j :: js) => 91 :: (dumps j ++ dumpsItems js)
  | .obj [] => lit "\x7b\x7d"
  | .obj ((k, v) :: ms) => 123 :: (quote k ++ lit ": " ++ dumps v ++ dumpsMembers ms)
  | .null => Json.text (φ := φ) .null
  | .bool b => Json.text (φ := φ) (.bool b)
  | .int n => Json.text (φ := φ) (.int n)
  | .float x => Json.text (.float x)
  | .nan => Json.text (φ := φ) .nan
  | .str s => quote s

def dumpsItems : List (Json φ) → Str
  | [] => [93]
  | j :: js => lit ", " ++ dumps j ++ dumpsItems js

def dumpsMembers : List (Str × Json φ) → Str
  | [] => [125]
  | (k, v) :: ms => lit ", " ++ quote k ++ lit ": " ++ dumps v ++ dumpsMembers ms

end

end Size

def schemaSizeLimitBytes : Nat := 64 * 1024

def maxProperties : Nat := 64

def maxDescriptionLen : Nat := 4096

/-! ## Names -/

/-- A character of `_SAFE_TOOL_NAME_RE` after the first. -/
def isNameChar (c : CodePoint) : Bool := isAlphanumeric c || c = 95 || c = 45

/-- `_SAFE_TOOL_NAME_RE` matches up to the end, or up to a newline there. -/
def validateToolName (name : Str) : Bool :=
  match if endsWith name [10] then name.dropLast else name with
  | [] => false
  | c :: rest => isAlphanumeric c && rest.all isNameChar && decide (rest.length ≤ 255)

/-! ## Parameters -/

structure ParamNames where
  stringParams : List Str
  numericParams : List Str
  booleanParams : List Str
  requiredParams : List Str

/-- The names of the properties of one of the types. -/
def paramsOfType (types : List Str) (properties : List (Str × Json φ)) : List Str :=
  properties.filterMap fun m =>
    match m.2 with
    | .obj prop =>
      match ((Json.obj prop).get? (lit "type")).getD (.str []) with
      | .str typ => if typ ∈ types then some m.1 else none
      | _ => none
    | _ => none

/-- `_parse_input_schema`. -/
def parseInputSchema (schema : Json φ) : ParamNames :=
  match schema with
  | .obj ms =>
    match ((Json.obj ms).get? (lit "properties")).getD (.obj []) with
    | .obj properties =>
      let properties := properties.take maxProperties
      ⟨paramsOfType [lit "string"] properties,
        paramsOfType [lit "integer", lit "number"] properties,
        paramsOfType [lit "boolean"] properties,
        match ((Json.obj ms).get? (lit "required")).getD (.arr []) with
        | .arr required => required.filterMap Json.asStr?
        | _ => []⟩
    | _ => ⟨[], [], [], []⟩
  | _ => ⟨[], [], [], []⟩

/-! ## Tools -/

structure DiscoveredTool (φ : Type) where
  name : Str
  description : Str
  inputSchema : List (Str × Json φ)
  params : ParamNames

/-- `_tool_dict_to_discovered`, with `str` for `str(v)`. -/
def toolDictToDiscovered [PyFloat φ] (str : Json φ → Str) (entry : Json φ) :
    Option (DiscoveredTool φ) :=
  match entry with
  | .obj tool =>
    match ((Json.obj tool).get? (lit "name")).getD (.str []) with
    | .str name =>
      if validateToolName name = false then none
      else
        let description := (Json.obj tool).getOrNull (lit "description")
        let schema :=
          match (Json.obj tool).get? (lit "inputSchema") with
          | some (.obj ms) => ms
          | _ => []
        if (dumps (.obj schema)).length > schemaSizeLimitBytes then none
        else some
          ⟨name, (if description.truthy then str description else []).take maxDescriptionLen,
            schema, parseInputSchema (.obj schema)⟩
    | _ => none
  | _ => none

theorem isNameChar_of_validateToolName {name : Str} (h : validateToolName name = true) :
    ∀ c ∈ name, isNameChar c = true ∨ c = 10 := by
  unfold validateToolName at h
  have hbody : ∀ c ∈ if endsWith name [10] then name.dropLast else name,
      isNameChar c = true := by
    cases hname : if endsWith name [10] then name.dropLast else name with
    | nil => exact List.forall_mem_nil _
    | cons c rest =>
      rw [hname] at h
      simp only [Bool.and_eq_true] at h
      obtain ⟨⟨hc, hrest⟩, -⟩ := h
      refine List.forall_mem_cons.mpr ⟨?_, List.all_eq_true.mp hrest⟩
      rw [isNameChar, hc]
      rfl
  by_cases hnewline : endsWith name [10] = true
  · rw [if_pos hnewline] at hbody
    obtain ⟨body, rfl⟩ := List.isSuffixOf_iff_suffix.mp hnewline
    rw [List.dropLast_concat] at hbody
    exact List.forall_mem_append.mpr
      ⟨fun c hc => .inl (hbody c hc), fun c hc => .inr (List.mem_singleton.mp hc)⟩
  · rw [if_neg hnewline] at hbody
    exact fun c hc => .inl (hbody c hc)

/-- The name of a tool is ASCII. -/
theorem isAscii_of_validateToolName {name : Str} (h : validateToolName name = true) :
    isAscii name = true := by
  refine List.all_eq_true.mpr fun c hc => decide_eq_true ?_
  rcases isNameChar_of_validateToolName h c hc with hc | rfl
  · simp only [isNameChar, isAlphanumeric, isDigit, Bool.or_eq_true, Bool.and_eq_true,
      decide_eq_true_eq] at hc
    rcases hc with ((hc | rfl) | rfl)
    · omega
    · decide
    · decide
  · decide

/-- It has no braces. -/
theorem not_mem_of_validateToolName {name : Str} (h : validateToolName name = true) :
    (123 : CodePoint) ∉ name := fun hmem =>
  (isNameChar_of_validateToolName h 123 hmem).elim (absurd · (by decide)) (absurd · (by decide))

theorem of_discovered [PyFloat φ] {str : Json φ → Str} {entry : Json φ}
    {t : DiscoveredTool φ} (h : toolDictToDiscovered str entry = some t) :
    validateToolName t.name = true ∧ t.params = parseInputSchema (.obj t.inputSchema) := by
  unfold toolDictToDiscovered at h
  split at h
  · split at h
    · obtain ⟨hname, h⟩ := Option.ite_none_left_eq_some.mp h
      obtain ⟨-, h⟩ := Option.ite_none_left_eq_some.mp h
      cases h
      exact ⟨eq_true_of_ne_false hname, rfl⟩
    · cases h
  · cases h

theorem isAscii_name [PyFloat φ] {str : Json φ → Str} {entry : Json φ} {t : DiscoveredTool φ}
    (h : toolDictToDiscovered str entry = some t) : isAscii t.name = true :=
  isAscii_of_validateToolName (of_discovered h).1

end CosaiMcp.Scan
