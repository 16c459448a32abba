import CosaiMcp.Protocol.Annotations
import CosaiMcp.Py.Record

/-!
# Violations in a tool's schema

`toolSchemaViolations` walks over every object and every list of an input schema, and reports
references out of the document, invalid `x-mcp-header` annotations, and schemas that are too large or
too deep. `repr` of a value is a parameter.
-/

namespace CosaiMcp.Protocol

open Py

variable {φ : Type}

def maxSchemaDepth : Nat := 32

def maxSchemaNodes : Nat := 2000

/-- What the walk carries along. -/
structure WalkState where
  nodes : Nat
  maxDepth : Nat
  headerNames : List Str
  violations : List Str

/-- `isinstance(value, (dict, list))`. -/
def isContainer : Json φ → Bool
  | .arr _ | .obj _ => true
  | _ => false

def isObject : Json φ → Bool
  | .obj _ => true
  | _ => false

/-- The type of an annotation: of a list, the one type in it that is not `"null"`. -/
def annotatedType (typ : Json φ) : Json φ :=
  match typ with
  | .arr types =>
    match types.filter (!isNullType ·) with
    | [t] => t
    | _ => .null
  | t => t

/-- `path or '/'`. -/
def shownPath (path : Str) : Str := if path = [] then lit "/" else path

section Walk

variable (U : UnicodeData) (repr : Json φ → Str)

/-- `problem`: what is wrong with an annotation. A type that has no hash raises in the set test. -/
def annotationProblem (headerNames : List Str) (ann typ : Json φ) (viaPropertiesOnly : Bool) :
    Except PyError (Option Str) :=
  match ann with
  | .str name =>
    if isToken name = false then .ok (some (lit "name is not an HTTP token"))
    else if U.lower name ∈ headerNames then .ok (some (lit "duplicate name (case-insensitive)"))
    else if typ.hashable = false then .error .typeError
    else if isHeaderType typ = false then
      .ok (some (lit "type " ++ repr typ ++ lit " not string/integer/boolean"))
    else if viaPropertiesOnly = false then
      .ok (some (lit "not reachable from the root via 'properties' only"))
    else .ok none
  | _ => .ok (some (lit "name is not an HTTP token"))

/-- The violation of a reference out of the document. -/
def refViolations (node : Json φ) (path : Str) : List Str :=
  match node.get? (lit "$ref") with
  | some (.str ref) =>
    if startsWith ref (lit "#") then []
    else [lit "external $ref at " ++ shownPath path ++ lit ": " ++ ref.take 120]
  | _ => []

/-- The checks of one object. -/
def inspect (node : Json φ) (viaPropertiesOnly : Bool) (path : Str) (st : WalkState) :
    Except PyError WalkState :=
  let st := { st with violations := st.violations ++ refViolations node path }
  match node.getOrNull (lit "x-mcp-header") with
  | .null => .ok st
  | ann => do
    let problem ← annotationProblem U repr st.headerNames ann
      (annotatedType (node.getOrNull (lit "type"))) viaPropertiesOnly
    .ok { st with
      headerNames :=
        match ann with
        | .str name => U.lower name :: st.headerNames
        | _ => st.headerNames
      violations :=
        match problem with
        | none => st.violations
        | some problem => st.violations ++
            [lit "invalid x-mcp-header at " ++ shownPath path ++ lit " (" ++ problem ++ lit ")"] }

/-- A node is counted. -/
def WalkState.enter (st : WalkState) (depth : Nat) : WalkState :=
  { st with nodes := st.nodes + 1, maxDepth := max st.maxDepth depth }

mutual

/-- `_walk`. -/
def walkSchema (depth : Nat) (viaPropertiesOnly : Bool) (path : Str) (st : WalkState) :
    Json φ → Except PyError WalkState
  | .arr js =>
    if st.nodes > maxSchemaNodes then .ok st
    else walkItems depth path 0 (st.enter depth) js
  | .obj ms =>
    if st.nodes > maxSchemaNodes then .ok st
    else do
      let st ← inspect U repr (.obj ms) viaPropertiesOnly path (st.enter depth)
      walkMembers depth viaPropertiesOnly path st ms
  | .null | .bool _ | .int _ | .float _ | .nan | .str _ =>
    if st.nodes > maxSchemaNodes then .ok st else .ok (st.enter depth)

/-- `for i, item in enumerate(node)`, from the `i`-th item on. -/
def walkItems (depth : Nat) (path : Str) (i : Nat) (st : WalkState) :
    List (Json φ) → Except PyError WalkState
  | [] => .ok st
  | j :: js => do
    let st ← walkSchema (depth + 1) false (path ++ lit "[" ++ natText i ++ lit "]") st j
    walkItems depth path (i + 1) st js

/-- `for key, value in node.items()`. -/
def walkMembers (depth : Nat) (viaPropertiesOnly : Bool) (path : Str) (st : WalkState) :
    List (Str × Json φ) → Except PyError WalkState
  | [] => .ok st
  | (key, value) :: ms => do
    let st ←
      if key = lit "properties" ∧ isObject value = true then
        walkMap depth viaPropertiesOnly (path ++ lit "/properties/") st value
      else if isContainer value = true then
        walkSchema (depth + 1) false (path ++ lit "/" ++ key) st value
      else .ok st
    walkMembers depth viaPropertiesOnly path st ms

/-- The map of names to schemas under `properties`. -/
def walkMap (depth : Nat) (viaPropertiesOnly : Bool) (path : Str) (st : WalkState) :
    Json φ → Except PyError WalkState
  | .obj props => walkProperties depth viaPropertiesOnly path st props
  | .null | .bool _ | .int _ | .float _ | .nan | .str _ | .arr _ => .ok st

/-- `for prop, sub in value.items()`. -/
def walkProperties (depth : Nat) (viaPropertiesOnly : Bool) (path : Str) (st : WalkState) :
    List (Str × Json φ) → Except PyError WalkState
  | [] => .ok st
  | (prop, sub) :: props => do
    let st ← walkSchema (depth + 1) viaPropertiesOnly (path ++ prop) st sub
    walkProperties depth viaPropertiesOnly path st props

end

/-- `tool_schema_violations`. -/
def toolSchemaViolations (inputSchema : Json φ) : Except PyError (List Str) :=
  match inputSchema with
  | .obj _ => do
    let st ← walkSchema U repr 0 true [] ⟨0, 0, [], []⟩ inputSchema
    .ok (st.violations ++
      (if st.nodes > maxSchemaNodes then
        [lit "schema exceeds " ++ natText maxSchemaNodes ++ lit " subschemas"] else []) ++
      (if st.maxDepth > maxSchemaDepth then
        [lit "schema nesting depth " ++ natText st.maxDepth ++ lit " exceeds " ++
          natText maxSchemaDepth] else []))
  | _ => .ok []

end Walk

end CosaiMcp.Protocol
