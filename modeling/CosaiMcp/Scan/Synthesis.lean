import CosaiMcp.Catalog.TemplateExpansion
import CosaiMcp.Scan.Discovery

/-!
# Synthesis of probe payloads

`synthesizeProbePayload` makes the arguments of a probe from what discovery has read of the schema
of a tool, the first properties by type and all the names required. A name that is required of a
later property gets the empty string, and a tool whose strings come later gets the payload of the
catalog.
-/

namespace CosaiMcp.Scan

open Py
open Catalog (openBraces)

variable {φ : Type}

/-! ## Values -/

def injectionValue : Str := lit "; cat /etc/passwd"

def traversalValue : Str := lit "../../etc/passwd"

def oversizeValue : Str := List.replicate 100000 65

/-- `_PATH_HINTS`. -/
def pathHints : List Str :=
  [lit "path", lit "file", lit "dir", lit "url", lit "location", lit "dest", lit "src"]

/-- `_safe_minimal_value`. -/
def safeMinimalValue (paramName : Str) (params : ParamNames) : Json φ :=
  if paramName ∈ params.stringParams then .str []
  else if paramName ∈ params.numericParams then .int 0
  else if paramName ∈ params.booleanParams then .bool false
  else .str []

/-- `_pick_traversal_param`, with `lower` for `str.lower`. -/
def pickTraversalParam (lower : Str → Str) (params : ParamNames) : Option Str :=
  match params.stringParams.find? fun param => pathHints.any fun hint => hint <:+: lower param with
  | some param => some param
  | none => params.stringParams.head?

/-- The first string of the arguments of the catalog that is neither empty nor a template. -/
def extractCatalogAdversarialValue (catalogPayload : List (Str × Json φ)) : Option Str :=
  match ((Json.obj catalogPayload).get? (lit "arguments")).getD (.obj []) with
  | .obj arguments => arguments.findSome? fun m =>
    match m.2 with
    | .str v => if v ≠ [] ∧ ¬ openBraces <:+: v then some v else none
    | _ => none
  | _ => none

/-! ## Payloads -/

/-- Where `synthesize_probe_payload` raises `ValueError`. -/
inductive SynthesisError where
  | templateEscape

def checkTemplateEscape (payload : List (Str × Json φ)) : Except SynthesisError Unit :=
  let escapes : Json φ → Bool := fun value =>
    match value with
    | .str s => openBraces <:+: s
    | _ => false
  if payload.any fun m => escapes m.2 then .error .templateEscape else .ok ()

/-- The loop of `_fill_required_params` over the names left. -/
def fillParams (params : ParamNames) (skip : Option Str) :
    List Str → List (Str × Json φ) → List (Str × Json φ)
  | [], args => args
  | param :: names, args =>
    if some param ≠ skip ∧ param ∉ args.map Prod.fst then
      fillParams params skip names (args ++ [(param, safeMinimalValue param params)])
    else fillParams params skip names args

/-- `_fill_required_params`, with `iter` for the order of a set. -/
def fillRequiredParams (iter : List Str → List Str) (args : List (Str × Json φ))
    (params : ParamNames) (skip : Option Str) : List (Str × Json φ) :=
  fillParams params skip (iter params.requiredParams) args

/-- The payload of a call of the tool. -/
def callPayload (name : Str) (args : List (Str × Json φ)) : List (Str × Json φ) :=
  [(lit "name", .str name), (lit "arguments", .obj args)]

def synthesizeProbePayload (lower : Str → Str) (iter : List Str → List Str)
    (tool : DiscoveredTool φ) (threatPattern : Str) (catalogPayload : List (Str × Json φ)) :
    Except SynthesisError (List (Str × Json φ)) :=
  if threatPattern = lit "replay" then .ok catalogPayload
  else if threatPattern = lit "unknown_tool" then
    .ok (callPayload (lit "cosai_probe_nonexistent_tool") [])
  else if threatPattern = lit "oversize" then
    if tool.params.stringParams = [] then .ok catalogPayload
    else do
      let args := fillRequiredParams iter
        (tool.params.stringParams.map fun param => (param, .str oversizeValue)) tool.params none
      checkTemplateEscape args
      return callPayload tool.name args
  else
    let (targetParam?, advValue) :=
      if threatPattern = lit "traversal" then
        (pickTraversalParam lower tool.params, traversalValue)
      else
        (tool.params.stringParams.head?,
          (extractCatalogAdversarialValue catalogPayload).getD injectionValue)
    match targetParam? with
    | none => .ok catalogPayload
    | some targetParam =>
      if openBraces <:+: advValue then .error .templateEscape
      else do
        let args := fillRequiredParams iter [(targetParam, .str advValue)] tool.params
          (some targetParam)
        checkTemplateEscape args
        return callPayload tool.name args

/-- The value that a pattern injects. -/
def adversarialValue (threatPattern : Str) (catalogPayload : List (Str × Json φ)) : Str :=
  if threatPattern = lit "oversize" then oversizeValue
  else if threatPattern = lit "traversal" then traversalValue
  else (extractCatalogAdversarialValue catalogPayload).getD injectionValue

end CosaiMcp.Scan
