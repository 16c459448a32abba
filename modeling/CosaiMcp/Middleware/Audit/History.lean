import CosaiMcp.HashChain
import CosaiMcp.Middleware.Audit.LogSpec
import CosaiMcp.Py.Float
import CosaiMcp.Run

/-!
# Logging histories

A log that started from an absent or empty file holds the entries of its calls, in order, each
linked to the one before, whenever new loggers were opened on the path in between (`Holds.exec`).
From this follows what `verify_chain` and `entries` make of the file
(`verifies_after_any_history`).
-/

namespace CosaiMcp.Middleware.Audit

open Py

variable {φ : Type} [FloatText φ] (rt : Runtime φ)

/-! ## The entry of one call -/

/-- The entry of a call, as `entries` returns it. -/
def LogCall.record (c : LogCall φ) (prev : Str) : AuditEntry φ where
  entryId := (Json.str c.entryId).reload
  parentId := (c.parentId.elim .null .str : Json φ).reload
  sessionId := (Json.str c.sessionId).reload
  method := (Json.str c.method).reload
  paramsDigest := .str (paramsDigest rt (c.params.getD []))
  timestampUtc := .float c.now
  prevHash := .str prev
  chainHash := .str (c.chainHash rt (.str prev))
  event := c.event.elim .null fun event => (Json.obj (cleanEvent rt event)).sorted.reload

omit [FloatText φ] in
theorem reload_str_of_isAscii {s : Str} (h : isAscii s = true) :
    (Json.str s : Json φ).reload = .str s := by
  rw [Json.reload, mergePairs_eq_self (noPair_of_isScalar (isScalar_of_isAscii h))]

theorem isAscii_chainHash (c : LogCall φ) (prev : Json φ) : isAscii (c.chainHash rt prev) = true :=
  rt.isAscii_sha256 _

variable {rt} {prev : Str} {c : LogCall φ}

theorem get?_stored_chainHash : (Json.obj (c.stored rt prev)).get? (lit "chain_hash") =
    some (.str (c.chainHash rt (.str prev))) := by
  have hmembers : (Json.obj (c.members rt (.str prev))).get? (lit "chain_hash") =
      some (.str (c.chainHash rt (.str prev))) := by
    unfold LogCall.members LogCall.unsigned
    cases c.event with
    | none => rfl
    | some event => rfl
  rw [get?_stored, hmembers]
  exact congrArg some (reload_str_of_isAscii (isAscii_chainHash rt c _))

theorem get?_stored_prevHash (hprev : isAscii prev = true) :
    (Json.obj (c.stored rt prev)).get? (lit "prev_hash") = some (.str prev) := by
  rw [get?_stored]
  exact congrArg some (reload_str_of_isAscii hprev)

theorem get?_stored_event : (Json.obj (c.stored rt prev)).getOrNull (lit "event") =
    (c.record rt prev).event := by
  have hmembers : (Json.obj (c.members rt (.str prev))).get? (lit "event") =
      c.event.elim none fun event => some (.obj (cleanEvent rt event)) := by
    unfold LogCall.members LogCall.unsigned
    cases c.event with
    | none => rfl
    | some event => rfl
  rw [Json.getOrNull, get?_stored, hmembers, LogCall.record]
  cases c.event with
  | none => rfl
  | some event => rfl

theorem get?_stored_parentId : (Json.obj (c.stored rt prev)).getOrNull (lit "parent_id") =
    (c.record rt prev).parentId := by
  rw [Json.getOrNull, get?_stored, LogCall.record]
  show ((c.parentId.elim .null .str : Json φ).sorted).reload = _
  cases c.parentId with
  | none => rfl
  | some parent => rfl

theorem carries_stored (hprev : isAscii prev = true) :
    Carries (c.stored rt prev) (c.record rt prev) where
  entryId := get?_stored rt c prev _
  parentId := get?_stored_parentId
  sessionId := get?_stored rt c prev _
  method := get?_stored rt c prev _
  paramsDigest := (get?_stored rt c prev _).trans
    (congrArg some (reload_str_of_isAscii (rt.isAscii_sha256 _)))
  timestampUtc := get?_stored rt c prev _
  prevHash := get?_stored_prevHash hprev
  chainHash := get?_stored_chainHash
  event := get?_stored_event

/-! ## Reading the line of a call -/

theorem entriesOf_line (hprev : isAscii prev = true) (raws : List Bytes) :
    entriesOf (c.line rt (.str prev) :: raws) =
      (do let entries ← entriesOf raws; .ok (c.record rt prev :: entries)) := by
  rw [entriesOf, readLine_line]
  simp only [ok_bind, canonical_entry_ne_nil, ↓reduceIte, loads_entry]
  rw [fromDict_eq_ok_iff.mpr (carries_stored hprev)]
  rfl

theorem loadTail_line (last : Json φ) (count : Nat) (raws : List Bytes) :
    loadTail last count (c.line rt (.str prev) :: raws) =
      loadTail (.str (c.chainHash rt (.str prev))) (count + 1) raws := by
  rw [loadTail, readLine_line]
  simp only [ok_bind, canonical_entry_ne_nil, ↓reduceIte, loads_entry, getStr,
    get?_stored_chainHash]
  rfl

theorem verifyLines_line (hprev : isAscii prev = true) (count lineno : Nat) (raws : List Bytes) :
    verifyLines rt prev count lineno (c.line rt (.str prev) :: raws) =
      verifyLines rt (c.chainHash rt (.str prev)) (count + 1) (lineno + 1) raws := by
  rw [verifyLines, readLine_line]
  simp only [ok_bind, canonical_entry_ne_nil, ↓reduceIte, loads_entry, getStr,
    get?_stored_chainHash, get?_stored_prevHash hprev, computeChainHash_stored]
  exact (if_neg (not_not.mpr rfl)).trans (if_neg (not_not.mpr rfl))

/-! ## The entries of a history -/

section Calls

variable (rt)

/-- The hash of the last entry of the calls `cs`, the first of which links to `prev`. -/
def headHash (prev : Str) : List (LogCall φ) → Str
  | [] => prev
  | c :: cs => headHash (c.chainHash rt (.str prev)) cs

def logLines (prev : Str) : List (LogCall φ) → List Bytes
  | [] => []
  | c :: cs => c.line rt (.str prev) :: logLines (c.chainHash rt (.str prev)) cs

def records (prev : Str) : List (LogCall φ) → List (AuditEntry φ)
  | [] => []
  | c :: cs => c.record rt prev :: records (c.chainHash rt (.str prev)) cs

theorem headHash_concat (prev : Str) (cs : List (LogCall φ)) (c : LogCall φ) :
    headHash rt prev (cs ++ [c]) = c.chainHash rt (.str (headHash rt prev cs)) := by
  induction cs generalizing prev with
  | nil => rfl
  | cons d cs ih => exact ih _

theorem logLines_concat (prev : Str) (cs : List (LogCall φ)) (c : LogCall φ) :
    logLines rt prev (cs ++ [c]) =
      logLines rt prev cs ++ [c.line rt (.str (headHash rt prev cs))] := by
  induction cs generalizing prev with
  | nil => rfl
  | cons d cs ih => exact congrArg (_ :: ·) (ih _)

theorem isAscii_headHash {prev : Str} (hprev : isAscii prev = true) (cs : List (LogCall φ)) :
    isAscii (headHash rt prev cs) = true := by
  induction cs generalizing prev with
  | nil => exact hprev
  | cons c cs ih => exact ih (isAscii_chainHash rt c _)

/-- The file of a history has the lines of its calls. -/
theorem lines_flatten_logLines (prev : Str) (cs : List (LogCall φ)) :
    lines (logLines rt prev cs).flatten = logLines rt prev cs := by
  induction cs generalizing prev with
  | nil => rfl
  | cons c cs ih =>
    rw [logLines, List.flatten_cons, lines_append (endsLine_line rt c _), lines_line, ih]
    rfl

theorem endsLine_flatten_logLines (prev : Str) (cs : List (LogCall φ)) :
    EndsLine (logLines rt prev cs).flatten := by
  induction cs generalizing prev with
  | nil => exact endsLine_nil
  | cons c cs ih => exact (endsLine_line rt c _).append (ih _)

/-- The entries of a history form a chain. -/
theorem linked_records (prev : Str) (cs : List (LogCall φ)) :
    HashChain.Linked AuditEntry.prevHash AuditEntry.chainHash (.str prev) (records rt prev cs) := by
  induction cs generalizing prev with
  | nil => trivial
  | cons c cs ih => exact ⟨rfl, ih _⟩

theorem tip_records (prev : Str) (cs : List (LogCall φ)) :
    HashChain.tip AuditEntry.chainHash (.str prev) (records rt prev cs) =
      .str (headHash rt prev cs) := by
  induction cs generalizing prev with
  | nil => rfl
  | cons c cs ih => exact ih _

theorem loadTail_logLines (prev : Str) (cs : List (LogCall φ)) (count : Nat) :
    loadTail (.str prev : Json φ) count (logLines rt prev cs) =
      .ok (.str (headHash rt prev cs), count + cs.length) := by
  induction cs generalizing prev count with
  | nil => rfl
  | cons c cs ih =>
    rw [logLines, loadTail_line, ih, List.length_cons, Nat.add_assoc, Nat.add_comm 1]
    rfl

theorem entriesOf_logLines {prev : Str} (hprev : isAscii prev = true) (cs : List (LogCall φ)) :
    entriesOf (logLines rt prev cs) = .ok (records rt prev cs) := by
  induction cs generalizing prev with
  | nil => rfl
  | cons c cs ih =>
    rw [logLines, entriesOf_line hprev, ih (isAscii_chainHash rt c _)]
    rfl

theorem verifyLines_logLines {prev : Str} (hprev : isAscii prev = true) (cs : List (LogCall φ))
    (count lineno : Nat) :
    verifyLines rt prev count lineno (logLines rt prev cs) =
      .ok (headHash rt prev cs, count + cs.length) := by
  induction cs generalizing prev count lineno with
  | nil => rfl
  | cons c cs ih =>
    rw [logLines, verifyLines_line hprev, ih (isAscii_chainHash rt c _), List.length_cons,
      Nat.add_assoc, Nat.add_comm 1]
    rfl

end Calls

/-! ## Runs -/

section Runs

/-- The call of an event, if it is one. -/
def Event.call? : Event φ → Option (LogCall φ)
  | .log c => some c
  | .reopen => none

def calls (events : List (Event φ)) : List (LogCall φ) := events.filterMap Event.call?

variable (rt)

/-- A log after the calls `cs`: the file holds their lines, and the logger the hash and the number
of the last. -/
structure Holds (s : AuditLog φ) (cs : List (LogCall φ)) : Prop where
  file : s.file.getD [] = (logLines rt genesisHash cs).flatten
  prevHash : s.logger.prevHash = .str (headHash rt genesisHash cs)
  entryCount : s.logger.entryCount = cs.length

theorem isAscii_genesisHash : isAscii genesisHash = true := rfl

/-- An absent file is opened as an empty one. -/
theorem open_eq (file : Option Bytes) : AuditLogger.open (φ := φ) file = (do
    let (prevHash, entryCount) ← loadTail (.str genesisHash) 0 (lines (file.getD []))
    .ok ⟨prevHash, entryCount⟩) := by
  unfold AuditLogger.open
  split
  · rfl
  · rfl
  · rfl

variable {rt} {s : AuditLog φ} {cs : List (LogCall φ)}

variable (rt) in
theorem open_of_file {file : Option Bytes}
    (h : file.getD [] = (logLines rt genesisHash cs).flatten) :
    AuditLogger.open (φ := φ) file = .ok ⟨.str (headHash rt genesisHash cs), cs.length⟩ := by
  rw [open_eq, h, lines_flatten_logLines, loadTail_logLines, Nat.zero_add]
  rfl

theorem Holds.log (h : Holds rt s cs) (c : LogCall φ) : Holds rt (s.log rt c).1 (cs ++ [c]) where
  file := by
    show s.file.getD [] ++ c.line rt s.logger.prevHash = _
    rw [h.file, h.prevHash, logLines_concat, List.flatten_append, List.flatten_singleton]
  prevHash := by
    show Json.str (c.chainHash rt s.logger.prevHash) = _
    rw [h.prevHash, headHash_concat]
  entryCount := by
    show s.logger.entryCount + 1 = _
    rw [h.entryCount, List.length_append, List.length_singleton]

/-- Every event goes through, and keeps the log what it is after its calls. -/
theorem Holds.step (h : Holds rt s cs) (e : Event φ) :
    ∃ s', s.step rt e = some s' ∧ Holds rt s' (cs ++ e.call?.toList) := by
  cases e with
  | log c => exact ⟨_, rfl, h.log c⟩
  | reopen =>
    refine ⟨{ s with logger := ⟨.str (headHash rt genesisHash cs), cs.length⟩ }, ?_, ?_⟩
    · rw [AuditLog.step, open_of_file rt h.file]
      rfl
    · rw [show cs ++ (Event.reopen (φ := φ)).call?.toList = cs from List.append_nil cs]
      exact ⟨h.file, rfl, rfl⟩

theorem Holds.exec (h : Holds rt s cs) (events : List (Event φ)) :
    ∃ s', Run.exec (AuditLog.step rt) s events = some s' ∧ Holds rt s' (cs ++ calls events) := by
  induction events generalizing s cs with
  | nil => exact ⟨s, rfl, by rwa [calls, List.filterMap_nil, List.append_nil]⟩
  | cons e events ih =>
    obtain ⟨s', hs', h'⟩ := h.step e
    obtain ⟨s'', hs'', h''⟩ := ih h'
    refine ⟨s'', by rw [Run.exec_cons, hs']; exact hs'', ?_⟩
    have hcalls : cs ++ calls (e :: events) = cs ++ e.call?.toList ++ calls events := by
      rw [List.append_assoc, calls, calls, List.filterMap_cons]
      cases e.call? with
      | none => rfl
      | some c => rfl
    rwa [hcalls]

theorem getD_eq_nil {file : Option Bytes} (h : file = none ∨ file = some []) :
    file.getD [] = [] := by
  rcases h with rfl | rfl
  · rfl
  · rfl

variable (rt) in
/-- A logger that is opened on a file without entries. -/
theorem holds_open {file : Option Bytes} (hfile : file.getD [] = []) :
    ∃ logger : AuditLogger φ, AuditLogger.open file = .ok logger ∧ Holds rt ⟨file, logger⟩ [] :=
  ⟨_, @open_of_file _ _ rt [] _ hfile, hfile, rfl, rfl⟩

/-- A run from there. -/
theorem holds_run {file : Option Bytes} (hfile : file = none ∨ file = some [])
    {logger : AuditLogger φ} (hopen : AuditLogger.open file = .ok logger)
    {events : List (Event φ)} {s : AuditLog φ}
    (hrun : Run.exec (AuditLog.step rt) ⟨file, logger⟩ events = some s) :
    Holds rt s (calls events) := by
  obtain ⟨logger', hopen', hholds⟩ := holds_open rt (getD_eq_nil hfile)
  cases hopen.symm.trans hopen'
  obtain ⟨s', hrun', h⟩ := hholds.exec events
  cases hrun.symm.trans hrun'
  exact h

theorem entries_eq (file : Option Bytes) :
    Audit.entries (φ := φ) file = entriesOf (lines (file.getD [])) := by
  cases file with
  | none => rfl
  | some bytes => rfl

theorem Holds.entries (h : Holds rt s cs) :
    Audit.entries s.file = .ok (records rt genesisHash cs) := by
  rw [entries_eq, h.file, lines_flatten_logLines, entriesOf_logLines rt isAscii_genesisHash]

theorem Holds.verifyChain (h : Holds rt s cs) :
    Audit.verifyChain rt s.file (some (headHash rt genesisHash cs)) = .ok cs.length := by
  have hfile := h.file
  cases hs : s.file with
  | none =>
    rw [hs] at hfile
    have hlines := lines_flatten_logLines rt genesisHash cs
    rw [← hfile] at hlines
    cases cs with
    | nil => rfl
    | cons c cs => cases hlines
  | some bytes =>
    rw [hs] at hfile
    rw [Audit.verifyChain, show bytes = _ from hfile, lines_flatten_logLines,
      verifyLines_logLines rt isAscii_genesisHash, ok_bind, Nat.zero_add]
    exact if_neg (not_not.mpr rfl)

variable (rt) in
theorem forall₂_records (prev : Str) (cs : List (LogCall φ)) :
    List.Forall₂ (fun c e => ∃ prev, e = c.record rt prev) cs (records rt prev cs) := by
  induction cs generalizing prev with
  | nil => exact .nil
  | cons c cs ih => exact .cons ⟨prev, rfl⟩ (ih _)

variable (rt) in
/-- Whatever is logged, and however often the file is opened anew in between, the log verifies
against the hash of its last entry, and its entries are those of the calls, each linked to the one
before. -/
theorem verifies_after_any_history {file : Option Bytes} (hfile : file = none ∨ file = some [])
    (events : List (Event φ)) :
    ∃ (logger : AuditLogger φ) (s : AuditLog φ) (es : List (AuditEntry φ)) (head : Str),
      AuditLogger.open file = .ok logger ∧
      Run.exec (AuditLog.step rt) ⟨file, logger⟩ events = some s ∧
      Audit.entries s.file = .ok es ∧
      List.Forall₂ (fun c e => ∃ prev, e = c.record rt prev) (calls events) es ∧
      HashChain.Linked AuditEntry.prevHash AuditEntry.chainHash (.str genesisHash) es ∧
      HashChain.tip AuditEntry.chainHash (.str genesisHash) es = .str head ∧
      Audit.verifyChain rt s.file (some head) = .ok (calls events).length := by
  obtain ⟨logger, hlogger, hopen⟩ := holds_open rt (getD_eq_nil hfile)
  obtain ⟨s, hs, h⟩ := hopen.exec events
  rw [List.nil_append] at h
  refine ⟨logger, s, records rt genesisHash (calls events), headHash rt genesisHash (calls events),
    hlogger, hs, h.entries, ?_, ?_, ?_, h.verifyChain⟩
  · exact forall₂_records rt genesisHash (calls events)
  · exact linked_records rt genesisHash (calls events)
  · exact tip_records rt genesisHash (calls events)

/-- Two calls with a new logger in between, from an absent file. -/
theorem verifies_after_any_history_reopened :
    let call : LogCall WholeFloat :=
      ⟨lit "e1", .whole 0, lit "tools/list", lit "s", none, none, none⟩
    let events : List (Event WholeFloat) := [.log call, .reopen, .log call]
    ∃ (logger : AuditLogger WholeFloat) (s : AuditLog WholeFloat)
      (es : List (AuditEntry WholeFloat)) (head : Str),
      AuditLogger.open none = .ok logger ∧
      Run.exec (AuditLog.step (φ := WholeFloat) .plain) ⟨none, logger⟩ events = some s ∧
      Audit.entries s.file = .ok es ∧
      List.Forall₂ (fun c e => ∃ prev, e = c.record .plain prev) (calls events) es ∧
      HashChain.Linked AuditEntry.prevHash AuditEntry.chainHash (.str genesisHash) es ∧
      HashChain.tip AuditEntry.chainHash (.str genesisHash) es = .str head ∧
      Audit.verifyChain (φ := WholeFloat) .plain s.file (some head) = .ok 2 :=
  verifies_after_any_history (φ := WholeFloat) .plain (.inl rfl) _

end Runs

end CosaiMcp.Middleware.Audit
