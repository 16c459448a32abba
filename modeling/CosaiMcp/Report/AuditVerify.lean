import CosaiMcp.Middleware.Audit.TamperEvidence

/-!
# Verification of audit logs

`verify_audit_log` of `report/verify.py`: a logger is built on the file, which scans all of it, and
then verifies the chain. Both loops expect lines of UTF-8, and an object where a line parses; what
else a file may hold raises neither `AuditChainError` nor yields a result. On a file without such
lines both are total, and the result is `CHAIN_BROKEN` exactly for a file that is not an intact
chain (`verification_total_iff`).

`json.loads` may also fail for a limit of the interpreter: an integer of too many digits, or values
nested too deep. Which texts are beyond the limits is a parameter. The error messages are left out.
-/

namespace CosaiMcp.Report

open Py Middleware.Audit

/-- What verification may raise. -/
inductive VerifyError where
  | failure (e : AuditFailure)
  /-- `RecursionError`, or the `ValueError` of a long integer. -/
  | interpreterLimit
deriving DecidableEq

/-- `lineno` of an `AuditChainError`; `none` for the other exceptions. -/
def VerifyError.lineno : VerifyError → Option Nat
  | .failure e => e.lineno
  | .interpreterLimit => none

def VerifyError.IsChainError (e : VerifyError) : Prop := e.lineno ≠ none

inductive VerifyStatus where
  | ok
  | chainBroken
  | fileNotFound
  | empty
deriving DecidableEq

structure VerifyResult where
  status : VerifyStatus
  entriesVerified : Nat
  brokenAtLine : Option Nat
deriving DecidableEq

variable {φ : Type} [FloatText φ] (rt : Runtime φ) (limit : Str → Bool)

/-- The line comes to `json.loads`, and is beyond its limits. -/
def overLimit (raw : Bytes) : Bool :=
  match readLine raw with
  | .error _ => false
  | .ok line => line ≠ [] && limit line

/-- A loop over the lines of a file, which comes no further than the first one beyond the
limits. -/
def withinLimit {α : Type} (loop : List Bytes → Except AuditFailure α) (raws : List Bytes) :
    Except VerifyError α :=
  match loop (raws.takeWhile fun raw => !overLimit limit raw) with
  | .error e => .error (.failure e)
  | .ok result => if raws.any (overLimit limit) then .error .interpreterLimit else .ok result

/-- `AuditLogger(path)` for a file that exists. -/
def openLogger (bytes : Bytes) : Except VerifyError (AuditLogger φ) :=
  match bytes with
  | [] => .ok ⟨.str genesisHash, 0⟩
  | bytes => do
    let (prevHash, entryCount) ← withinLimit limit (loadTail (.str genesisHash) 0) (lines bytes)
    .ok ⟨prevHash, entryCount⟩

/-- `logger.verify_chain(expected_head)` for a file that exists. -/
def verifyFile (bytes : Bytes) (expectedHead : Option Str) : Except VerifyError Nat := do
  let (prev, count) ← withinLimit limit (verifyLines rt genesisHash 0 1) (lines bytes)
  match expectedHead with
  | some head => if prev ≠ head then .error (.failure (.headMismatch count)) else .ok count
  | none => .ok count

/-- `verify_audit_log`. -/
def verifyAuditLog (file : Option Bytes) (expectedHead : Option Str) :
    Except VerifyError VerifyResult :=
  match file with
  | none => .ok ⟨.fileNotFound, 0, none⟩
  | some bytes => do
    let _ ← openLogger (φ := φ) limit bytes
    match verifyFile rt limit bytes expectedHead with
    | .error e =>
      match e.lineno with
      | some lineno => .ok ⟨.chainBroken, 0, some lineno⟩
      | none => .error e
    | .ok count => if count = 0 then .ok ⟨.empty, 0, none⟩ else .ok ⟨.ok, count, none⟩

/-! ## Lines that can be read -/

section Readable

variable (φ) in
/-- A line of UTF-8 that holds an object if it holds a JSON value at all. -/
def IsReadable (raw : Bytes) : Prop :=
  ∃ line, readLine raw = .ok line ∧
    (line ≠ [] → ∀ v : Json φ, loads line = some v → ∃ d, v = .obj d)

/-- The scan of the constructor takes all lines of a file, or raises. -/
theorem exists_loadTail_iff {last : Json φ} {count : Nat} {raws : List Bytes} :
    (∃ r, loadTail last count raws = .ok r) ↔ ∀ raw ∈ raws, IsReadable φ raw := by
  induction raws generalizing last count with
  | nil => exact ⟨fun _ => List.forall_mem_nil _, fun _ => ⟨_, rfl⟩⟩
  | cons raw raws ih =>
    rw [List.forall_mem_cons, loadTail]
    unfold IsReadable
    cases readLine raw with
    | error e => exact iff_of_false (by rintro ⟨_, ⟨⟩⟩) (by rintro ⟨⟨_, ⟨⟩, _⟩, _⟩)
    | ok line =>
      rw [ok_bind]
      by_cases hblank : line = []
      · rw [if_pos hblank, ih]
        exact ⟨fun h => ⟨⟨line, rfl, fun hne => absurd hblank hne⟩, h⟩, fun h => h.2⟩
      · rw [if_neg hblank]
        cases hload : (loads line : Option (Json φ)) with
        | none =>
          rw [ih]
          refine ⟨fun h => ⟨⟨line, rfl, fun _ v hv => ?_⟩, h⟩, fun h => h.2⟩
          rw [hload] at hv
          cases hv
        | some v =>
          have hobj : (∃ line', (.ok line : Except AuditFailure Str) = .ok line' ∧
              (line' ≠ [] → ∀ v : Json φ, loads line' = some v → ∃ d, v = .obj d)) ↔
              ∃ d, v = .obj d := by
            constructor
            · rintro ⟨line', hline, h⟩
              cases hline
              exact h hblank v hload
            · intro h
              refine ⟨line, rfl, fun _ v' hv' => ?_⟩
              rw [hload] at hv'
              cases hv'
              exact h
          rw [hobj]
          cases v with
          | obj d =>
            rw [ih]
            exact ⟨fun h => ⟨⟨d, rfl⟩, h⟩, fun h => h.2⟩
          | _ => exact iff_of_false (by rintro ⟨_, ⟨⟩⟩) (by rintro ⟨⟨_, ⟨⟩⟩, _⟩)

variable {rt}

/-- On readable lines the loop of `verify_chain` raises nothing but `AuditChainError`. -/
theorem raisesOnly_verifyLines {prev : Str} {count lineno : Nat} {raws : List Bytes}
    (h : ∀ raw ∈ raws, IsReadable φ raw) :
    RaisesOnly (fun e => e.lineno ≠ none) (verifyLines rt prev count lineno raws) := by
  induction raws generalizing prev count lineno with
  | nil => exact raisesOnly_ok _
  | cons raw raws ih =>
    rw [List.forall_mem_cons] at h
    obtain ⟨⟨line, hline, hobj⟩, hraws⟩ := h
    rw [verifyLines, hline, ok_bind]
    by_cases hblank : line = []
    · rw [if_pos hblank]
      exact ih hraws
    · rw [if_neg hblank]
      cases hload : (loads line : Option (Json φ)) with
      | none => exact raisesOnly_error_iff.mpr (Option.some_ne_none _)
      | some v =>
        obtain ⟨d, rfl⟩ := hobj hblank v hload
        refine (raisesOnly_ite_error_iff (by rintro ⟨⟩)).mpr fun _ => ?_
        exact (raisesOnly_ite_error_iff (by rintro ⟨⟩)).mpr fun _ => ih hraws

end Readable

/-! ## The limits -/

section Limit

variable {limit} {α : Type} {loop : List Bytes → Except AuditFailure α} {raws : List Bytes}

theorem withinLimit_eq (h : ∀ raw ∈ raws, overLimit limit raw = false) :
    withinLimit limit loop raws = (loop raws).mapError .failure := by
  have hall : raws.takeWhile (fun raw => !overLimit limit raw) = raws :=
    List.takeWhile_eq_self_iff.mpr fun raw hraw => by rw [h raw hraw]; rfl
  have hany : raws.any (overLimit limit) = false := by
    rw [List.any_eq_false]
    intro raw hraw
    rw [h raw hraw]
    exact Bool.false_ne_true
  rw [withinLimit, hall, hany]
  cases loop raws with
  | error e => rfl
  | ok result => rfl

/-- A loop that takes the lines with the property `P`, and no others, takes all lines of a file if
each has it and is within the limits. -/
theorem exists_withinLimit_iff {P : Bytes → Prop}
    (hloop : ∀ raws, (∃ r, loop raws = .ok r) ↔ ∀ raw ∈ raws, P raw) :
    (∃ r, withinLimit limit loop raws = .ok r) ↔
      ∀ raw ∈ raws, P raw ∧ overLimit limit raw = false := by
  by_cases hover : ∀ raw ∈ raws, overLimit limit raw = false
  · rw [withinLimit_eq hover]
    have hok : (∃ r, (loop raws).mapError VerifyError.failure = .ok r) ↔ ∃ r, loop raws = .ok r := by
      cases loop raws with
      | error e => exact ⟨fun ⟨_, h⟩ => (nomatch h), fun ⟨_, h⟩ => (nomatch h)⟩
      | ok r => exact ⟨fun _ => ⟨r, rfl⟩, fun _ => ⟨r, rfl⟩⟩
    rw [hok, hloop]
    exact ⟨fun h raw hraw => ⟨h raw hraw, hover raw hraw⟩, fun h raw hraw => (h raw hraw).1⟩
  · refine ⟨fun ⟨r, h⟩ => absurd ?_ hover, fun h => absurd (fun raw hraw => (h raw hraw).2) hover⟩
    unfold withinLimit at h
    split at h
    · cases h
    · split at h
      · cases h
      · next hany =>
        rw [Bool.not_eq_true, List.any_eq_false] at hany
        exact fun raw hraw => Bool.eq_false_iff.mpr (hany raw hraw)

end Limit

/-! ## Intact chains -/

section Intact

variable {rt}

omit [FloatText φ] in
theorem eq_str_of_sorted {j : Json φ} {s : Str} (h : j.sorted = .str s) : j = .str s := by
  cases j with
  | str t => exact h
  | _ => cases h

/-- The entries of an intact chain are verified. -/
theorem verifyLines_of_verified {prev tip : Str} {raws : List Bytes}
    {mss : List (List (Str × Json φ))} (h : Verified rt prev raws tip mss) (count lineno : Nat) :
    verifyLines rt prev count lineno raws = .ok (tip, count + mss.length) := by
  induction raws generalizing prev mss count lineno with
  | nil =>
    cases h.parsed
    cases h.tip
    rfl
  | cons raw raws ih =>
    obtain ⟨hparsed, hstable, hhash, hlinked, htip⟩ := h
    obtain ⟨s, hs, hparsed⟩ := Option.bind_eq_some_iff.mp hparsed
    rw [verifyLines, readLine_eq_ok_iff.mpr ⟨s, hs, rfl⟩, ok_bind]
    by_cases hblank : strip s = []
    · rw [if_pos hblank] at hparsed ⊢
      exact ih ⟨hparsed, hstable, hhash, hlinked, htip⟩ _ _
    · rw [if_neg hblank] at hparsed ⊢
      split at hparsed
      · next ms hload =>
        obtain ⟨mss, hmss, rfl⟩ := Option.map_eq_some_iff.mp hparsed
        rw [List.forall_mem_cons] at hstable hhash
        have hprev : getStr ms (lit "prev_hash") [] = .str prev := eq_str_of_sorted hlinked.1
        have hstored : getStr ms (lit "chain_hash") [] = hashOf rt ms := by
          rw [getStr, hhash.1]
          rfl
        rw [hload]
        refine ite_error_eq_ok_iff.mpr ⟨?_, ite_error_eq_ok_iff.mpr ⟨?_, ?_⟩⟩
        · rw [hprev]
          exact not_not.mpr rfl
        · rw [hstored]
          exact not_not.mpr rfl
        · refine (ih ⟨hmss, hstable.2, hhash.2, hlinked.2, htip⟩ _ _).trans ?_
          rw [List.length_cons, Nat.add_assoc, Nat.add_comm 1]
      · cases hparsed

variable (rt) in
/-- The file is a chain of `n` entries from the genesis hash on, which ends at the expected head if
there is one. -/
def IsIntact (bytes : Bytes) (expectedHead : Option Str) (n : Nat) : Prop :=
  ∃ tip mss, Verified rt genesisHash (lines bytes) tip mss ∧ mss.length = n ∧
    ∀ head, expectedHead = some head → tip = head

theorem verifyChain_eq_ok_iff {bytes : Bytes} {expectedHead : Option Str} {n : Nat} :
    verifyChain rt (some bytes) expectedHead = .ok n ↔ IsIntact rt bytes expectedHead n := by
  constructor
  · intro h
    obtain ⟨⟨tip, count⟩, hlines, h⟩ := bind_eq_ok_iff.mp h
    obtain ⟨mss, hmss⟩ := verifyLines_eq_ok rt hlines
    rw [verifyLines_of_verified hmss, Nat.zero_add] at hlines
    obtain ⟨-, rfl⟩ := Prod.mk.inj (Except.ok.inj hlines)
    cases expectedHead with
    | none => exact ⟨tip, mss, hmss, Except.ok.inj h, nofun⟩
    | some head =>
      obtain ⟨hhead, h⟩ := ite_error_eq_ok_iff.mp h
      refine ⟨tip, mss, hmss, Except.ok.inj h, fun head' hhead' => ?_⟩
      cases hhead'
      exact not_not.mp hhead
  · rintro ⟨tip, mss, hmss, rfl, hhead⟩
    refine bind_eq_ok_iff.mpr ⟨(tip, mss.length), ?_, ?_⟩
    · rw [verifyLines_of_verified hmss, Nat.zero_add]
    · cases expectedHead with
      | none => rfl
      | some head => exact if_neg (not_not.mpr (hhead head rfl))

theorem raisesOnly_verifyChain {bytes : Bytes} (h : ∀ raw ∈ lines bytes, IsReadable φ raw)
    (expectedHead : Option Str) :
    RaisesOnly (fun e => e.lineno ≠ none) (verifyChain rt (some bytes) expectedHead) := by
  refine raisesOnly_bind_iff.mpr ⟨raisesOnly_verifyLines h, fun found _ => ?_⟩
  dsimp only
  split
  · exact (raisesOnly_ite_error_iff nofun).mpr fun _ => raisesOnly_ok _
  · exact raisesOnly_ok _

end Intact

/-! ## Verification is total -/

section Total

variable {limit}

theorem verifyFile_eq {bytes : Bytes} (h : ∀ raw ∈ lines bytes, overLimit limit raw = false)
    (expectedHead : Option Str) :
    verifyFile rt limit bytes expectedHead =
      (verifyChain rt (some bytes) expectedHead).mapError .failure := by
  rw [verifyFile, withinLimit_eq h, verifyChain]
  cases verifyLines rt genesisHash 0 1 (lines bytes) with
  | error e => rfl
  | ok found =>
    cases expectedHead with
    | none => rfl
    | some head =>
      simp only [Except.mapError, ok_bind]
      split
      · rfl
      · rfl

theorem exists_openLogger_iff {bytes : Bytes} :
    (∃ logger, openLogger (φ := φ) limit bytes = .ok logger) ↔
      ∀ raw ∈ lines bytes, IsReadable φ raw ∧ overLimit limit raw = false := by
  cases bytes with
  | nil => exact ⟨fun _ _ h => (nomatch h), fun _ => ⟨_, rfl⟩⟩
  | cons b bytes =>
    have hscan : (∃ r, withinLimit limit (loadTail (.str genesisHash : Json φ) 0)
        (lines (b :: bytes)) = .ok r) ↔
        ∀ raw ∈ lines (b :: bytes), IsReadable φ raw ∧ overLimit limit raw = false :=
      exists_withinLimit_iff fun _ => exists_loadTail_iff
    rw [← hscan]
    constructor
    · rintro ⟨logger, h⟩
      obtain ⟨found, hfound, -⟩ := bind_eq_ok_iff.mp h
      exact ⟨found, hfound⟩
    · rintro ⟨found, hfound⟩
      exact ⟨_, bind_eq_ok_iff.mpr ⟨found, hfound, rfl⟩⟩

variable (limit) in
/-- What verification promises for the file: `verify_chain` raises nothing but `AuditChainError`,
and `verify_audit_log` yields a result, which is `CHAIN_BROKEN` if the file is not an intact chain
and the number of entries if it is. -/
structure TotalVerification (bytes : Bytes) (expectedHead : Option Str) : Prop where
  chain : RaisesOnly VerifyError.IsChainError (verifyFile rt limit bytes expectedHead)
  log : ∃ r, verifyAuditLog rt limit (some bytes) expectedHead = .ok r ∧
    ((r.status = .chainBroken ∧ ∀ n, ¬IsIntact rt bytes expectedHead n) ∨
      ∃ n, IsIntact rt bytes expectedHead n ∧
        r = ⟨if n = 0 then .empty else .ok, n, none⟩)

/-- Verification is total exactly on the files whose lines are all readable, and within the limits
of `json.loads`. -/
theorem verification_total_iff (rt : Runtime φ) (limit : Str → Bool) (bytes : Bytes)
    (expectedHead : Option Str) :
    TotalVerification rt limit bytes expectedHead ↔
      ∀ raw ∈ lines bytes, IsReadable φ raw ∧ overLimit limit raw = false := by
  constructor
  · intro h
    obtain ⟨r, hr, -⟩ := h.log
    obtain ⟨logger, hlogger, -⟩ := bind_eq_ok_iff.mp hr
    exact exists_openLogger_iff.mp ⟨logger, hlogger⟩
  · intro h
    obtain ⟨logger, hlogger⟩ := exists_openLogger_iff.mpr h
    have hfile : verifyFile rt limit bytes expectedHead = _ :=
      verifyFile_eq rt (fun raw hraw => (h raw hraw).2) expectedHead
    have hraises : RaisesOnly _ (verifyChain rt (some bytes) expectedHead) :=
      raisesOnly_verifyChain (fun raw hraw => (h raw hraw).1) expectedHead
    constructor
    · rw [hfile]
      intro e he
      cases hres : verifyChain rt (some bytes) expectedHead with
      | error e' =>
        rw [hres] at he
        cases he
        exact hraises e' hres
      | ok n =>
        rw [hres] at he
        cases he
    · rw [verifyAuditLog, hlogger, ok_bind, hfile]
      cases hres : verifyChain rt (some bytes) expectedHead with
      | error e =>
        obtain ⟨lineno, hlineno⟩ := Option.ne_none_iff_exists'.mp (hraises e hres)
        have hbroken : (VerifyError.failure e).lineno = some lineno := hlineno
        simp only [Except.mapError, hbroken]
        refine ⟨_, rfl, .inl ⟨rfl, fun n hn => ?_⟩⟩
        rw [verifyChain_eq_ok_iff.mpr hn] at hres
        cases hres
      | ok n =>
        have hintact := verifyChain_eq_ok_iff.mp hres
        simp only [Except.mapError]
        by_cases hn : n = 0
        · rw [if_pos hn]
          exact ⟨_, rfl, .inr ⟨n, hintact, by rw [if_pos hn, hn]⟩⟩
        · rw [if_neg hn]
          exact ⟨_, rfl, .inr ⟨n, hintact, by rw [if_neg hn]⟩⟩

/-! ## A line that is no object -/

/-- A file whose only line is `[]`: both `verify_chain` and `verify_audit_log` raise
`AttributeError`. -/
theorem list_line_raises :
    verifyFile (φ := WholeFloat) .plain (fun _ => false) [91, 93, 10] none =
        .error (.failure .attributeError) ∧
      verifyAuditLog (φ := WholeFloat) .plain (fun _ => false) (some [91, 93, 10]) none =
        .error (.failure .attributeError) ∧
      ¬TotalVerification (φ := WholeFloat) .plain (fun _ => false) [91, 93, 10] none := by
  have hfile : verifyFile (φ := WholeFloat) .plain (fun _ => false) [91, 93, 10] none =
      .error (.failure .attributeError) := by decide +kernel
  refine ⟨hfile, by decide +kernel, fun h => ?_⟩
  exact h.chain _ hfile rfl

end Total

end CosaiMcp.Report
