import CosaiMcp.Py.Canonical
import CosaiMcp.Py.Except
import CosaiMcp.Py.Lines

/-!
# The audit log

`AuditLogger` appends one line of canonical JSON for each call of `log`. An entry carries the hash
of the entry before it and a hash of its own over all its other members. The file is the only
state that outlives a logger: a new one takes up the chain at the last line that it can parse.

The clock and the identifiers that `log` draws are part of the call. The texts of the failures
quote what was found in the file and are left out; their line numbers are kept.
-/

namespace CosaiMcp.Middleware.Audit

open Py

/-- What the logger calls outside its module. -/
structure Runtime (φ : Type) where
  /-- `hashlib.sha256(data.encode()).hexdigest()`. -/
  sha256 : Str → Str
  isAscii_sha256 : ∀ s, isAscii (sha256 s) = true
  sha256_ne_nil : ∀ s, sha256 s ≠ []
  /-- `c.isprintable()`. -/
  isPrintable : CodePoint → Bool
  isPrintable_surrogate : ∀ c, isSurrogate c = true → isPrintable c = false
  /-- `str(value)` of a mapping. -/
  strOfDict : List (Str × Json φ) → Str

variable {φ : Type}

theorem not_visible_of_isSurrogate {c : CodePoint} (h : isSurrogate c = true) :
    (32 ≤ c.val && c.val ≤ 126) = false := by
  simp only [isSurrogate, Bool.and_eq_true, decide_eq_true_eq] at h
  simp only [Bool.and_eq_false_iff, decide_eq_false_iff_not]
  omega

/-- A runtime on which the model can be run: a text is hashed to itself, after a mark. -/
def Runtime.plain : Runtime φ where
  sha256 s := 120 :: s.filter (·.val < 0x80)
  isAscii_sha256 s := List.all_eq_true.mpr fun c hc => by
    rcases List.mem_cons.mp hc with rfl | hc
    · rfl
    · exact (List.mem_filter.mp hc).2
  sha256_ne_nil _ := List.cons_ne_nil _ _
  isPrintable c := 32 ≤ c.val && c.val ≤ 126
  isPrintable_surrogate _ hc := not_visible_of_isSurrogate hc
  strOfDict _ := lit "\x7b\x7d"

/-! ## Cleaning -/

section Clean

variable (rt : Runtime φ)

/-- `_clean_value` of a string. -/
def cleanText (s : Str) : Str := (s.take 256).map fun c => if rt.isPrintable c then c else 63

mutual

def cleanValue : Json φ → Json φ
  | .str s => .str (cleanText rt s)
  | .arr js => .arr ((cleanItems js).take 32)
  | .null => .null
  | .bool b => .bool b
  | .int n => .int n
  | .float x => .float x
  | .nan => .nan
  | .obj ms => .str (cleanText rt (rt.strOfDict ms))

def cleanItems : List (Json φ) → List (Json φ)
  | [] => []
  | j :: js => cleanValue j :: cleanItems js

end

def cleanEvent (event : List (Str × Json φ)) : List (Str × Json φ) :=
  dictOf ((event.take 16).map fun m => ((cleanText rt m.1).take 64, cleanValue rt m.2))

end Clean

/-! ## Entries -/

/-- The `prev_hash` of the first entry. -/
def genesisHash : Str := List.replicate 64 48

/-- A call of `log`, with the identifier that it draws and the time that it reads. -/
structure LogCall (φ : Type) where
  entryId : Str
  now : φ
  method : Str
  sessionId : Str
  params : Option (List (Str × Json φ))
  parentId : Option Str
  event : Option (List (Str × Json φ))

section Entry

variable [FloatText φ] (rt : Runtime φ)

def paramsDigest (params : List (Str × Json φ)) : Str := rt.sha256 (Json.obj params).canonical

def computeChainHash (members : List (Str × Json φ)) : Str :=
  rt.sha256 (Json.obj members).canonical

/-- The entry without its `chain_hash`. -/
def LogCall.unsigned (c : LogCall φ) (prev : Json φ) : List (Str × Json φ) :=
  [(lit "entry_id", .str c.entryId),
    (lit "parent_id", c.parentId.elim .null .str),
    (lit "session_id", .str c.sessionId),
    (lit "method", .str c.method),
    (lit "params_digest", .str (paramsDigest rt (c.params.getD []))),
    (lit "timestamp_utc", .float c.now),
    (lit "prev_hash", prev)] ++
  c.event.elim [] fun event => [(lit "event", .obj (cleanEvent rt event))]

def LogCall.chainHash (c : LogCall φ) (prev : Json φ) : Str :=
  computeChainHash rt (c.unsigned rt prev)

def LogCall.entry (c : LogCall φ) (prev : Json φ) : Json φ :=
  .obj (c.unsigned rt prev ++ [(lit "chain_hash", .str (c.chainHash rt prev))])

/-- The line that is appended. Its text is ASCII, so encoding it does not raise. -/
def LogCall.line (c : LogCall φ) (prev : Json φ) : Bytes :=
  asciiBytes (c.entry rt prev).canonical ++ [10]

end Entry

/-! ## Failures -/

/-- What reading the file may raise. -/
inductive AuditFailure where
  | absent
  | invalidJson (lineno : Nat)
  | prevHashMismatch (lineno : Nat)
  | chainHashMismatch (lineno : Nat)
  | headMismatch (lineno : Nat)
  | unicodeDecodeError
  | jsonDecodeError
  | attributeError
  | typeError
  | keyError (key : Str)
deriving DecidableEq

/-- `lineno` of an `AuditChainError`; `none` for the other exceptions. -/
def AuditFailure.lineno : AuditFailure → Option Nat
  | .absent => some 0
  | .invalidJson n | .prevHashMismatch n | .chainHashMismatch n | .headMismatch n => some n
  | .unicodeDecodeError | .jsonDecodeError | .attributeError | .typeError | .keyError _ => none

/-! ## Reading the file -/

/-- `raw_line.decode().strip()`. -/
def readLine (raw : Bytes) : Except AuditFailure Str :=
  match decodeUtf8 false raw with
  | none => .error .unicodeDecodeError
  | some s => .ok (strip s)

/-- `d.get(key, default)`. -/
def getStr (d : List (Str × Json φ)) (key default : Str) : Json φ :=
  ((Json.obj d).get? key).getD (.str default)

structure AuditEntry (φ : Type) where
  entryId : Json φ
  parentId : Json φ
  sessionId : Json φ
  method : Json φ
  paramsDigest : Json φ
  timestampUtc : Json φ
  prevHash : Json φ
  chainHash : Json φ
  event : Json φ

/-- `d[key]`. -/
def item (d : Json φ) (key : Str) : Except AuditFailure (Json φ) :=
  match d with
  | .obj ms =>
    match (Json.obj ms).get? key with
    | some v => .ok v
    | none => .error (.keyError key)
  | _ => .error .typeError

def AuditEntry.fromDict (d : Json φ) : Except AuditFailure (AuditEntry φ) := do
  let entryId ← item d (lit "entry_id")
  let parentId := d.getOrNull (lit "parent_id")
  let sessionId ← item d (lit "session_id")
  let method ← item d (lit "method")
  let paramsDigest ← item d (lit "params_digest")
  let timestampUtc ← item d (lit "timestamp_utc")
  let prevHash ← item d (lit "prev_hash")
  let chainHash ← item d (lit "chain_hash")
  let event := d.getOrNull (lit "event")
  .ok { entryId, parentId, sessionId, method, paramsDigest, timestampUtc, prevHash, chainHash,
        event }

section Reading

variable [FloatText φ]

def entriesOf : List Bytes → Except AuditFailure (List (AuditEntry φ))
  | [] => .ok []
  | raw :: raws => do
    let line ← readLine raw
    if line = [] then entriesOf raws
    else
      match loads line with
      | none => .error .jsonDecodeError
      | some d => do
        let entry ← AuditEntry.fromDict d
        let entries ← entriesOf raws
        .ok (entry :: entries)

def entries : Option Bytes → Except AuditFailure (List (AuditEntry φ))
  | none => .ok []
  | some bytes => entriesOf (lines bytes)

/-- The loop of `_load_tail`: the last chain hash found so far, and the number of entries. -/
def loadTail : Json φ → Nat → List Bytes → Except AuditFailure (Json φ × Nat)
  | last, count, [] => .ok (last, count)
  | last, count, raw :: raws => do
    let line ← readLine raw
    if line = [] then loadTail last count raws
    else
      match loads line with
      | none => loadTail last count raws
      | some (.obj d) => loadTail (getStr d (lit "chain_hash") genesisHash) (count + 1) raws
      | some _ => .error .attributeError

variable (rt : Runtime φ)

/-- The loop of `verify_chain`: the hash that the next entry has to link to, the number of entries
so far and the number of the line. -/
def verifyLines : Str → Nat → Nat → List Bytes → Except AuditFailure (Str × Nat)
  | prev, count, _, [] => .ok (prev, count)
  | prev, count, lineno, raw :: raws => do
    let line ← readLine raw
    if line = [] then verifyLines prev count (lineno + 1) raws
    else
      match loads line with
      | none => .error (.invalidJson lineno)
      | some (.obj d) =>
        let storedHash := getStr d (lit "chain_hash") []
        let storedPrev := getStr d (lit "prev_hash") []
        if storedPrev.asStr? ≠ some prev then .error (.prevHashMismatch lineno)
        else
          let expected := computeChainHash rt (d.filter (·.1 ≠ lit "chain_hash"))
          if storedHash.asStr? ≠ some expected then .error (.chainHashMismatch lineno)
          else verifyLines expected (count + 1) (lineno + 1) raws
      | some _ => .error .attributeError

def verifyChain (file : Option Bytes) (expectedHead : Option Str) : Except AuditFailure Nat :=
  match file with
  | none =>
    if expectedHead ≠ none ∧ expectedHead ≠ some genesisHash then .error .absent else .ok 0
  | some bytes => do
    let (prev, count) ← verifyLines rt genesisHash 0 1 (lines bytes)
    match expectedHead with
    | some head => if prev ≠ head then .error (.headMismatch count) else .ok count
    | none => .ok count

end Reading

/-! ## Logging -/

structure AuditLogger (φ : Type) where
  prevHash : Json φ
  entryCount : Nat

/-- A logger and the file at its path. -/
structure AuditLog (φ : Type) where
  file : Option Bytes
  logger : AuditLogger φ

section Logging

variable [FloatText φ]

/-- `AuditLogger(path)`. -/
def AuditLogger.open (file : Option Bytes) : Except AuditFailure (AuditLogger φ) :=
  match file with
  | none | some [] => .ok ⟨.str genesisHash, 0⟩
  | some bytes => do
    let (prevHash, entryCount) ← loadTail (.str genesisHash) 0 (lines bytes)
    .ok ⟨prevHash, entryCount⟩

variable (rt : Runtime φ)

/-- Append to the file, which is created if absent. -/
def AuditLog.append (s : AuditLog φ) (bytes : Bytes) : AuditLog φ :=
  { s with file := some (s.file.getD [] ++ bytes) }

/-- `log`, and the `entry_id` that it returns. -/
def AuditLog.log (s : AuditLog φ) (c : LogCall φ) : AuditLog φ × Str :=
  ({ s.append (c.line rt s.logger.prevHash) with
      logger := ⟨.str (c.chainHash rt s.logger.prevHash), s.logger.entryCount + 1⟩ }, c.entryId)

/-- A call of `log` whose write fails after `n` bytes of its line. -/
def AuditLog.tornLog (s : AuditLog φ) (c : LogCall φ) (n : Nat) : AuditLog φ :=
  s.append ((c.line rt s.logger.prevHash).take n)

/-- What happens to a log: a call that returns, or a new logger on the same path. -/
inductive Event (φ : Type) where
  | log (c : LogCall φ)
  | reopen

def AuditLog.step (s : AuditLog φ) : Event φ → Option (AuditLog φ)
  | .log c => some (s.log rt c).1
  | .reopen => (AuditLogger.open s.file).toOption.map fun logger => { s with logger }

end Logging

end CosaiMcp.Middleware.Audit
