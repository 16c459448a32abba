import CosaiMcp.Py.Json

/-!
# Template variables of a payload

A string of a payload may hold variables in double braces. Only the variables of a closed list are
accepted, no value of a variable may bring in double braces of its own, and none may be left after
the substitution.
-/

namespace CosaiMcp.Catalog

open Py

/-- `{{`. -/
def openBraces : Str := [123, 123]

/-- `}}`. -/
def closeBraces : Str := [125, 125]

/-- The text after the first occurrence of `sep`, and the text before it. -/
def cut? (sep : Str) : Str → Option (Str × Str)
  | [] => if sep = [] then some ([], []) else none
  | c :: s =>
    if sep <+: c :: s then some ([], (c :: s).drop sep.length)
    else (cut? sep s).map fun p => (c :: p.1, p.2)

/-- `s.replace(old, new)` for a nonempty `old`; `skip` characters still belong to the last match. -/
def replaceFrom (old new : Str) : Nat → Str → Str
  | _, [] => []
  | skip + 1, _ :: s => replaceFrom old new skip s
  | 0, c :: s =>
    if old <+: c :: s then new ++ replaceFrom old new (old.length - 1) s
    else c :: replaceFrom old new 0 s

def replaceStr (s old new : Str) : Str := replaceFrom old new 0 s

/-- `key.strip("{}")`. -/
def stripBraces (key : Str) : Str :=
  let isBrace : CodePoint → Bool := fun c => c = 123 || c = 125
  ((key.dropWhile isBrace).reverse.dropWhile isBrace).reverse

def allowedVars : List Str :=
  [lit "target_url", lit "session_id", lit "tool_name", lit "canary"].map
    fun name => openBraces ++ name ++ closeBraces

/-- The tokens in double braces: each takes four characters at least, so the length is enough
fuel. -/
def findTemplates : Nat → Str → List Str
  | 0, _ => []
  | fuel + 1, value =>
    match cut? openBraces value with
    | none => []
    | some (_, rest) =>
      match cut? closeBraces rest with
      | none => []
      | some (inner, rest) => (openBraces ++ inner ++ closeBraces) :: findTemplates fuel rest

inductive TemplateError where
  | unknownVariable
  | templateInjection

def substituteStr (vars : Dict Str Str) (s : Str) : Except TemplateError Str :=
  if !(findTemplates s.length s).all (· ∈ allowedVars) then .error .unknownVariable
  else if vars.values.any fun val =>
      decide (openBraces <:+: val) || decide (closeBraces <:+: val) then .error .templateInjection
  else
    let result := vars.items.foldl
      (fun result m => replaceStr result (openBraces ++ m.1 ++ closeBraces) m.2) s
    if openBraces <:+: result then .error .templateInjection
    else .ok result

section Substitute

variable {φ : Type} (vars : Dict Str Str)

mutual

/-- Strings are substituted, keys are not. -/
def substituteValue : Json φ → Except TemplateError (Json φ)
  | .str s => do return .str (← substituteStr vars s)
  | .obj ms => do return .obj (← substituteMembers ms)
  | .arr js => do return .arr (← substituteItems js)
  | .null => .ok .null
  | .bool b => .ok (.bool b)
  | .int n => .ok (.int n)
  | .float x => .ok (.float x)
  | .nan => .ok .nan

def substituteItems : List (Json φ) → Except TemplateError (List (Json φ))
  | [] => .ok []
  | j :: js => do return (← substituteValue j) :: (← substituteItems js)

def substituteMembers : List (Str × Json φ) → Except TemplateError (List (Str × Json φ))
  | [] => .ok []
  | (k, v) :: ms => do return (k, ← substituteValue v) :: (← substituteMembers ms)

end

/-- The names of the variables may be given with braces. -/
def substituteProbePayload (payload : Json φ) : Except TemplateError (Json φ) :=
  substituteValue (Dict.ofList (vars.items.map fun m => (stripBraces m.1, m.2))) payload

end Substitute

example : replaceStr (lit "aXaXa") (lit "aX") (lit "b") = lit "bba" := by rfl

end CosaiMcp.Catalog
