import CosaiMcp.Py.Record

/-!
# Tool poisoning

`ToolPoisoningDetector` looks for instructions to a model in the names, descriptions and schemas of
tools: each text is searched for every pattern in several variants (`detectionVariants`), so that
disguises come off.

The search for a pattern, normal forms, `html.escape` and the decoding of base64 and hex are
parameters (`Engine`). A pattern is its text, which its flags go with.
-/

namespace CosaiMcp.Middleware.Boundary

open Py

variable {φ : Type}

/-! ## Patterns -/

/-- `_INJECTION_PATTERNS`. -/
def injectionPatterns : List Str :=
  [lit "ignore\\s+(all\\s+)?(previous|prior|above)\\s+instructions?",
    lit "disregard\\s+(all\\s+)?(previous|prior|above)\\s+instructions?",
    lit "forget\\s+(all\\s+)?(previous|prior|above)\\s+instructions?",
    lit "you\\s+are\\s+now\\s+(a|an|the)\\s+\\w+", lit "new\\s+system\\s+prompt\\s*:",
    lit "<\\s*system\\s*>", lit "\\[system\\]",
    lit "act\\s+as\\s+(a|an|the)\\s+\\w+\\s+(without|with\\s+no)\\s+restrictions?",
    lit "jailbreak", lit "DAN\\s+mode", lit "developer\\s+mode\\s+(enabled|on|activated)",
    lit "bypass\\s+(your\\s+)?(safety|content|ethical)\\s+(filters?|guidelines?|restrictions?)",
    lit "reveal\\s+(your\\s+)?(system|initial|original)\\s+prompt",
    lit "print\\s+(your\\s+)?(system|initial|original)\\s+prompt",
    lit "repeat\\s+(your\\s+)?(system|initial|original)\\s+prompt", lit "exfiltrate",
    lit "always\\s+(first\\s+)?call\\s+(the\\s+)?\\w+\\s+tool",
    lit "before\\s+(anything|every(thing)?)\\s+(else\\s+)?(you\\s+)?(must\\s+)?call",
    lit "ignora\\s+(todas\\s+)?(las\\s+)?instrucciones\\s+(previas|anteriores)",
    lit "ignore[rz]?\\s+(toutes\\s+)?les\\s+instructions\\s+(précédentes|precedentes)",
    lit "ignoriere\\s+(alle\\s+)?(vorherigen|vorigen)\\s+anweisungen",
    lit "ignor[ae]\\s+(todas\\s+)?as\\s+instruções\\s+anteriores",
    lit "(忽略|無視|无视)[^\\n]\x7b0,8\x7d(之前|先前|上述|以上)[^\\n]\x7b0,6\x7d(指令|指示|提示)"]

/-- `_TOOL_DESCRIPTION_PATTERNS`. -/
def toolDescriptionPatterns : List Str :=
  injectionPatterns ++
  [lit "<!--.\x7b0,300\x7d-->", lit "\\[\\s*INST\\s*\\]", lit "<\\|im_start\\|>",
    lit "\\[/?INST\\]"]

/-! ## Variants of a text -/

structure Engine (φ : Type) where
  /-- Where `pattern.search(text)` finds the pattern: start and end. -/
  search : Str → Str → Option (Nat × Nat)
  /-- `str(value)`. -/
  str : Json φ → Str
  /-- `html.escape(text, quote=True)`. -/
  escape : Str → Str
  /-- `unicodedata.normalize("NFKC", text)`. -/
  nfkc : Str → Str
  isPrintable : CodePoint → Bool
  /-- `base64.b64decode(text).decode("utf-8", "ignore")`, `none` where it raises. -/
  base64Text : Str → Option Str
  /-- `bytes.fromhex(text).decode("utf-8", "ignore")`, `none` where it raises. -/
  hexText : Str → Option Str
  /-- Whether a set of the two texts yields the second one first. -/
  secondFirst : Str → Str → Bool
  str_str : ∀ s, str (.str s) = s
  nfkc_nil : nfkc [] = []

def invisibleChars : List CodePoint :=
  [0x200B, 0x200C, 0x200D, 0x2060, 0xFEFF, 0x00AD, 0x202A, 0x202B, 0x202C, 0x202D, 0x202E, 0x2066,
    0x2067, 0x2068, 0x2069]

/-- `_HOMOGLYPHS`: Cyrillic and Greek letters, and the Latin letters they look like. -/
def homoglyphs : List (CodePoint × CodePoint) :=
  (lit "аеорсхуѕіјԁոмтквнАЕОРСХУВНКМТοραειντΟΡΑΕΤΙ").zip
    (lit "aeopcxysijdnmtkbhAEOPCXYBHKMTopaeivtOPAETI")

/-- `_LEET_TABLE`. -/
def leetTable : List (CodePoint × CodePoint) := (lit "013457@$8+|").zip (lit "oieastasbti")

/-- `text.translate(table)` of a table from characters to characters. -/
def translate (table : List (CodePoint × CodePoint)) (text : Str) : Str :=
  text.map fun c =>
    match table.find? (·.1 = c) with
    | none => c
    | some p => p.2

/-- `_decode_tag_chars`. -/
def decodeTagChars (text : Str) : Str :=
  text.flatMap fun c =>
    if 0xE0000 ≤ c.val ∧ c.val ≤ 0xE007F then
      if 0xE0020 ≤ c.val ∧ c.val ≤ 0xE007E then [Fin.ofNat _ (c.val - 0xE0000)] else []
    else [c]

/-- `_normalize_unicode`. -/
def normalizeUnicode (E : Engine φ) (text : Str) : Str :=
  translate homoglyphs ((E.nfkc text).filter (· ∉ invisibleChars))

/-- The matches of a pattern that takes 16 or more characters of a kind: the long runs of them. -/
def longRuns (p : CodePoint → Bool) (text : Str) : List Str :=
  (text.splitOnP fun c => !p c).filter (16 ≤ ·.length)

def isAlphanumeric (c : CodePoint) : Bool :=
  isDigit c || (65 ≤ c.val && c.val ≤ 90) || (97 ≤ c.val && c.val ≤ 122)

/-- The characters of `_B64_FRAGMENT_RE`, the padding apart, which is taken off again. -/
def isBase64Char (c : CodePoint) : Bool := isAlphanumeric c || (lit "+/_-").contains c

def isHexChar (c : CodePoint) : Bool :=
  isDigit c || (65 ≤ c.val && c.val ≤ 70) || (97 ≤ c.val && c.val ≤ 102)

/-- `_mostly_printable`. -/
def mostlyPrintable (E : Engine φ) (s : Str) : Bool :=
  s ≠ [] && 4 * s.length ≤ 5 * s.countP fun c => E.isPrintable c || isSpace c

/-- A fragment, and what it is in the standard alphabet of base64. -/
def base64Variants (E : Engine φ) (candidate : Str) : List Str :=
  let std := replaceChar (replaceChar candidate 45 43) 95 47
  if std = candidate then [candidate]
  else if E.secondFirst candidate std then [std, candidate]
  else [candidate, std]

def padded (s : Str) : Str := s ++ List.replicate ((4 - s.length % 4) % 4) 61

/-- `_decode_encoded_fragments`. -/
def decodeEncodedFragments (E : Engine φ) (text : Str) : List Str :=
  let base64 := (longRuns isBase64Char text).flatMap fun candidate =>
    (base64Variants E candidate).filterMap fun s => E.base64Text (padded s)
  let hex := ((longRuns isHexChar text).filter (·.length % 2 = 0)).filterMap E.hexText
  (base64 ++ hex).filter (mostlyPrintable E)

/-- `_detection_variants`. -/
def detectionVariants (E : Engine φ) (text : Str) : List Str :=
  let tagDecoded := decodeTagChars text
  let folded := [text, tagDecoded].flatMap fun base =>
    [normalizeUnicode E base, translate leetTable (normalizeUnicode E base)]
  let all := text :: tagDecoded :: folded ++ decodeEncodedFragments E tagDecoded
  -- each text once, where it comes first, and the empty one not at all
  (all.filter (· ≠ [])).foldl (fun variants s => if s ∈ variants then variants else variants ++ [s])
    []

/-! ## The detector -/

structure InjectionFinding where
  location : Str
  pattern : Str
  excerpt : Str
  severity : Str

/-- `_excerpt`, with a window of 60 characters. -/
def excerpt (E : Engine φ) (text : Str) (found : Nat × Nat) : Str :=
  let start := found.1 - 60
  E.escape ((text.take (min text.length (found.2 + 60))).drop start)

/-- `_check`: one finding for a pattern, in the first variant that has it. -/
def check (E : Engine φ) (text location : Str) (patterns : List Str) : List InjectionFinding :=
  patterns.filterMap fun pattern =>
    (detectionVariants E text).findSome? fun variant =>
      (E.search pattern variant).map fun found =>
        ⟨location, pattern, excerpt E variant found, lit "critical"⟩

/-- `str(d.get(key, ""))`. -/
def textAt (E : Engine φ) (d : Json φ) (key : Str) : Str := E.str ((d.get? key).getD (.str []))

mutual

/-- `_scan_schema` of an object, and nothing for another value. -/
def scanSchema (E : Engine φ) (location : Str) : Json φ → Except PyError (List InjectionFinding)
  | .obj ms => do
    let desc := textAt E (.obj ms) (lit "description")
    let own := if desc = [] then []
      else check E desc (location ++ lit ":description") toolDescriptionPatterns
    let nested ← scanProperties E location ms
    .ok (own ++ nested)
  | .null | .bool _ | .int _ | .float _ | .nan | .str _ | .arr _ => .ok []

/-- The loop over `schema.get("properties", {}).items()`. -/
def scanProperties (E : Engine φ) (location : Str) :
    List (Str × Json φ) → Except PyError (List InjectionFinding)
  | [] => .ok []
  | (key, value) :: ms =>
    if key = lit "properties" then scanItems E location value else scanProperties E location ms

/-- `for prop_name, prop_def in value.items()`. -/
def scanItems (E : Engine φ) (location : Str) : Json φ → Except PyError (List InjectionFinding)
  | .obj props => scanEntries E location props
  | .null | .bool _ | .int _ | .float _ | .nan | .str _ | .arr _ => .error .attributeError

def scanEntries (E : Engine φ) (location : Str) :
    List (Str × Json φ) → Except PyError (List InjectionFinding)
  | [] => .ok []
  | (name, sub) :: props => do
    let findings ← scanSchema E (location ++ lit "." ++ name) sub
    let rest ← scanEntries E location props
    .ok (findings ++ rest)

end

/-- One turn of the loop of `scan`. A tool is a `dict`, that is its members. -/
def scanTool (E : Engine φ) (tool : List (Str × Json φ)) :
    Except PyError (List InjectionFinding) := do
  let name := textAt E (.obj tool) (lit "name")
  let location := lit "tool:" ++ name
  let description := textAt E (.obj tool) (lit "description")
  let schema := ((Json.obj tool).get? (lit "inputSchema")).getD (.obj [])
  let nested ← scanSchema E (location ++ lit ":schema") schema
  .ok (check E name (location ++ lit ":name") injectionPatterns ++
    check E description (location ++ lit ":description") toolDescriptionPatterns ++ nested)

/-- `ToolPoisoningDetector.scan`. -/
def scan (E : Engine φ) (tools : List (List (Str × Json φ))) :
    Except PyError (List InjectionFinding) := do
  let findings ← tools.mapM (scanTool E)
  .ok findings.flatten

end CosaiMcp.Middleware.Boundary
