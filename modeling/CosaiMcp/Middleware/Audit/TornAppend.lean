import CosaiMcp.Middleware.Audit.History

/-!
# Torn appends

A call of `log` whose write fails leaves a part of its line in the file. If that part is empty,
every later entry is on a line of its own and continues the chain. If it is not, the next entry is
written behind it on the same line, by the same logger and by a new one alike, and is lost to a
reader that goes by lines (`later_recoverable_iff`).
-/

namespace CosaiMcp.Middleware.Audit

open Py

variable {φ : Type} [FloatText φ]

/-! ## Recovering entries line by line -/

/-- The object on a line. -/
def parseLine (raw : Bytes) : Option (List (Str × Json φ)) := do
  let s ← decodeUtf8 false raw
  let d ← loads (strip s)
  d.asDict?

/-- The `chain_hash` of the last line that is an object, or `last` where there is none. -/
def lastHash : Json φ → List Bytes → Json φ
  | last, [] => last
  | last, raw :: raws =>
    match parseLine raw with
    | some ms => lastHash (getStr ms (lit "chain_hash") genesisHash) raws
    | none => lastHash last raws

variable (rt : Runtime φ)

/-- The entry that `log` writes in the state `s` can be recovered: it is on a line of its own, that
line parses, and its `prev_hash` is the `chain_hash` of the last complete entry before it. -/
def Recoverable (s : AuditLog φ) (c : LogCall φ) : Prop :=
  ∃ (raw : Bytes) (ms : List (Str × Json φ)),
    lines ((s.log rt c).1.file.getD []) = lines (s.file.getD []) ++ [raw] ∧
    parseLine raw = some ms ∧ raw = c.line rt s.logger.prevHash ∧
    (Json.obj ms).get? (lit "prev_hash") =
      some (lastHash (.str genesisHash) (lines (s.file.getD [])))

/-- Every call of `log` in a run can be recovered. -/
def AllRecoverable (s : AuditLog φ) (events : List (Event φ)) : Prop :=
  Run.Along (AuditLog.step rt) (fun s e => ∀ c ∈ e.call?, Recoverable rt s c) s events

variable {rt}

theorem parseLine_line (c : LogCall φ) (prev : Str) :
    parseLine (c.line rt (.str prev)) = some (c.stored rt prev) := by
  obtain ⟨s, hs, hstrip⟩ := readLine_eq_ok_iff.mp (readLine_line rt c (.str prev))
  rw [parseLine, hs, Option.bind_eq_bind, Option.bind_some, hstrip, loads_entry]
  rfl

theorem lastHash_logLines (prev : Str) (cs : List (LogCall φ)) :
    lastHash (.str prev : Json φ) (logLines rt prev cs) = .str (headHash rt prev cs) := by
  induction cs generalizing prev with
  | nil => rfl
  | cons c cs ih =>
    rw [logLines, lastHash, parseLine_line]
    simp only [getStr, get?_stored_chainHash]
    exact ih _

/-! ## After a write that left nothing -/

/-- The next entry of a log can be recovered. -/
theorem Holds.recoverable {s : AuditLog φ} {cs : List (LogCall φ)} (h : Holds rt s cs)
    (c : LogCall φ) : Recoverable rt s c := by
  refine ⟨c.line rt s.logger.prevHash, c.stored rt (headHash rt genesisHash cs), ?_, ?_, rfl, ?_⟩
  · rw [(h.log c).file, h.file, lines_flatten_logLines, lines_flatten_logLines, logLines_concat,
      h.prevHash]
  · rw [h.prevHash, parseLine_line]
  · rw [h.file, lines_flatten_logLines, lastHash_logLines,
      get?_stored_prevHash (isAscii_headHash rt isAscii_genesisHash cs)]

theorem Holds.allRecoverable {s : AuditLog φ} {cs : List (LogCall φ)} (h : Holds rt s cs)
    (events : List (Event φ)) : AllRecoverable rt s events := by
  induction events generalizing s cs with
  | nil => trivial
  | cons e events ih =>
    refine ⟨fun c _ => h.recoverable c, fun s' hs' => ?_⟩
    obtain ⟨s'', hs'', h'⟩ := h.step e
    cases hs'.symm.trans hs''
    exact ih h'

/-! ## After a torn line -/

/-- The file ends with a part of a line. -/
def Torn (s : AuditLog φ) : Prop :=
  ∃ as torn, s.file.getD [] = as ++ torn ∧ EndsLine as ∧ torn ≠ [] ∧ 10 ∉ torn

theorem file_step_reopen {s s' : AuditLog φ}
    (h : s.step rt .reopen = some s') : s'.file = s.file := by
  obtain ⟨logger, -, rfl⟩ := Option.map_eq_some_iff.mp h
  rfl

/-- An entry that is written behind a part of a line is not on a line of its own. -/
theorem Torn.not_recoverable {s : AuditLog φ} (h : Torn s) (c : LogCall φ) :
    ¬ Recoverable rt s c := by
  rintro ⟨raw, ms, hlines, -, rfl, -⟩
  obtain ⟨as, torn, hfile, has, hne, htorn⟩ := h
  have hafter : (s.log rt c).1.file.getD [] = as ++ torn ++ c.line rt s.logger.prevHash := by
    rw [← hfile]
    rfl
  rw [hafter, LogCall.line, lines_append_torn has htorn (not_mem_asciiBytes_canonical _) [], hfile,
    lines_append has, lines_of_not_mem htorn hne] at hlines
  have hlength := congrArg List.length hlines
  simp only [List.length_append, List.length_cons, List.length_nil, lines] at hlength
  omega

theorem Torn.calls_eq_nil {s s' : AuditLog φ} (h : Torn s) {events : List (Event φ)}
    (hrun : Run.exec (AuditLog.step rt) s events = some s') (hall : AllRecoverable rt s events) :
    calls events = [] := by
  induction events generalizing s with
  | nil => rfl
  | cons e events ih =>
    cases e with
    | log c => exact absurd (hall.1 c rfl) (h.not_recoverable c)
    | reopen =>
      obtain ⟨s₁, hs₁, hrun⟩ := Option.bind_eq_some_iff.mp hrun
      have htorn : Torn s₁ := by rwa [Torn, file_step_reopen hs₁]
      exact ih htorn hrun (hall.2 s₁ hs₁)

/-- Without further calls there is nothing to recover. -/
theorem allRecoverable_of_calls {s : AuditLog φ} {events : List (Event φ)}
    (h : calls events = []) : AllRecoverable rt s events := by
  induction events generalizing s with
  | nil => trivial
  | cons e events ih =>
    cases e with
    | log c => cases h
    | reopen => exact ⟨nofun, fun s' _ => ih h⟩

theorem Holds.torn {s : AuditLog φ} {cs : List (LogCall φ)} (h : Holds rt s cs) (c : LogCall φ)
    {n : Nat} (hn : n < (c.line rt s.logger.prevHash).length) (h0 : n ≠ 0) :
    Torn (s.tornLog rt c n) := by
  refine ⟨_, (c.line rt s.logger.prevHash).take n, congrArg (· ++ _) h.file,
    endsLine_flatten_logLines rt genesisHash cs, ?_, fun h10 => ?_⟩
  · intro hnil
    rcases List.take_eq_nil_iff.mp hnil with h | h
    · exact h0 h
    · rw [h] at hn
      cases hn
  · rw [LogCall.line, List.length_append, List.length_singleton] at hn
    rw [LogCall.line, List.take_append_of_le_length (by omega)] at h10
    exact not_mem_asciiBytes_canonical _ (List.mem_of_mem_take h10)

/-- After a write that left nothing the log is what it was, up to an absent file being created. -/
theorem Holds.tornLog_zero {s : AuditLog φ} {cs : List (LogCall φ)} (h : Holds rt s cs)
    (c : LogCall φ) : Holds rt (s.tornLog rt c 0) cs :=
  ⟨(List.append_nil _).trans h.file, h.prevHash, h.entryCount⟩

variable (rt) in
/-- After a call whose write failed with `n` bytes of its line in the file, the entries of all
later calls can be recovered exactly when nothing of the line was written or there is no later
call. The run after the failure may go on with the same logger and open new ones. -/
theorem later_recoverable_iff {start : Option Bytes} (hstart : start = none ∨ start = some [])
    {logger : AuditLogger φ} (hopen : AuditLogger.open start = .ok logger)
    {events : List (Event φ)} {s : AuditLog φ}
    (hrun : Run.exec (AuditLog.step rt) ⟨start, logger⟩ events = some s) (c : LogCall φ) {n : Nat}
    (hn : n < (c.line rt s.logger.prevHash).length) {later : List (Event φ)} {s' : AuditLog φ}
    (hlater : Run.exec (AuditLog.step rt) (s.tornLog rt c n) later = some s') :
    AllRecoverable rt (s.tornLog rt c n) later ↔ n = 0 ∨ calls later = [] := by
  have h := holds_run hstart hopen hrun
  constructor
  · intro hall
    by_cases h0 : n = 0
    · exact .inl h0
    · exact .inr ((h.torn c hn h0).calls_eq_nil hlater hall)
  · rintro (rfl | hcalls)
    · exact (h.tornLog_zero c).allRecoverable later
    · exact allRecoverable_of_calls hcalls

variable (rt) in
/-- One byte of a line is its opening brace. -/
theorem take_one_line (c : LogCall φ) (prev : Json φ) :
    1 < (c.line rt prev).length ∧ (c.line rt prev).take 1 = [123] := by
  obtain ⟨t, ht⟩ := canonical_entry_braces rt c prev
  rw [LogCall.line, ht]
  refine ⟨?_, rfl⟩
  rw [List.length_append, asciiBytes, List.length_map, List.length_cons, List.length_singleton]
  omega

/-- One byte of the first line is written, and then an entry by a new logger. -/
theorem later_recoverable_iff_one_byte :
    let fresh : AuditLog WholeFloat := ⟨none, ⟨.str genesisHash, 0⟩⟩
    let call : LogCall WholeFloat :=
      ⟨lit "e1", .whole 0, lit "tools/list", lit "s", none, none, none⟩
    let later : List (Event WholeFloat) := [.reopen, .log call]
    AllRecoverable .plain (fresh.tornLog .plain call 1) later ↔ 1 = 0 ∨ calls later = [] := by
  intro fresh call later
  obtain ⟨hn, hone⟩ := take_one_line .plain call (.str genesisHash)
  have hrun : Run.exec (AuditLog.step (φ := WholeFloat) .plain) fresh [] = some fresh := rfl
  have hlater : Run.exec (AuditLog.step (φ := WholeFloat) .plain) (fresh.tornLog .plain call 1)
      later = some (AuditLog.log .plain ⟨some [123], ⟨.str genesisHash, 0⟩⟩ call).1 := by
    rw [AuditLog.tornLog, hone]
    rfl
  exact later_recoverable_iff .plain (.inl rfl) rfl hrun call hn hlater

/-- The entry that follows a torn line is lost, with the same logger and with a new one. -/
theorem entry_lost_after_torn_line :
    let fresh : AuditLog WholeFloat := ⟨none, ⟨.str genesisHash, 0⟩⟩
    let call : LogCall WholeFloat :=
      ⟨lit "e1", .whole 0, lit "tools/list", lit "s", none, none, none⟩
    let torn := fresh.tornLog .plain call 1
    ¬ AllRecoverable .plain torn [.log call] ∧ ¬ AllRecoverable .plain torn [.reopen, .log call] := by
  intro fresh call torn
  obtain ⟨hn, hone⟩ := take_one_line .plain call (.str genesisHash)
  have hfresh : Holds .plain fresh [] := ⟨rfl, rfl, rfl⟩
  have htorn : Torn torn := hfresh.torn call hn (by decide)
  have hreopen : torn.step .plain .reopen = some torn := by
    show AuditLog.step .plain (AuditLog.append fresh _) .reopen = some (AuditLog.append fresh _)
    rw [hone]
    rfl
  constructor
  · intro h
    exact htorn.not_recoverable call (h.1 call rfl)
  · intro h
    exact htorn.not_recoverable call ((h.2 torn hreopen).1 call rfl)

end CosaiMcp.Middleware.Audit
