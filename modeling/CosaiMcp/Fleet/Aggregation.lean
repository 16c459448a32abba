import CosaiMcp.Fleet.Scan
import CosaiMcp.Py.Except

/-!
# Aggregation of a fleet scan

A fleet scan loses nothing (`LosesNothing`) if its result holds, in input order, the outcome that
each scan ended with, or the timeout outcome of a scan that was not handed over in time, and the
worst of their exit codes. Results are kept by target, so that this comes down to the scans of each
target having one outcome (`losesNothing_iff`): of two scans of one target, the one handed over last
speaks for both.
-/

namespace CosaiMcp.Fleet

open Py

variable {ρ ε : Type}

/-! ## The worst exit code -/

/-- A code that is among the codes, with none worse; a clean one if there is none at all. -/
structure IsWorst (codes : List Int) (c : Int) : Prop where
  clean : codes = [] → c = 0
  mem : codes ≠ [] → c ∈ codes
  le : ∀ d ∈ codes, exitPrecedence c ≤ exitPrecedence d

theorem isWorst_aggregateExitCode (codes : List Int) : IsWorst codes (aggregateExitCode codes) := by
  unfold aggregateExitCode
  cases h : codes.argmin exitPrecedence with
  | none =>
    have hnil : codes = [] := List.argmin_eq_none.mp h
    refine ⟨fun _ => rfl, fun hne => absurd hnil hne, fun d hd => ?_⟩
    rw [hnil] at hd
    cases hd
  | some c =>
    have hc : c ∈ codes := List.argmin_mem h
    refine ⟨fun hnil => ?_, fun _ => hc, fun d hd => List.le_of_mem_argmin hd h⟩
    rw [hnil] at hc
    cases hc

section Scan

variable {sanitize : Str → Str} {timeoutText : Str} {targets : List Str}
  {ends : Fin targets.length → ScanEnd ρ ε}

/-! ## The dictionary of outcomes -/

theorem collect_cons_eq_ok_iff {i : Fin targets.length} {is : List (Fin targets.length)}
    {d d' : Dict Str (TargetOutcome ρ)} :
    collect sanitize targets ends (i :: is) d = .ok d' ↔
      ∃ o, settle sanitize (targets.get i) (ends i) = .ok o ∧
        collect sanitize targets ends is (d.set (targets.get i) o) = .ok d' :=
  bind_eq_ok_iff

/-- A target without a scan among those handed over keeps what it has. -/
theorem collect_get?_of_not_mem {is : List (Fin targets.length)}
    {d d' : Dict Str (TargetOutcome ρ)} (h : collect sanitize targets ends is d = .ok d') {t : Str}
    (ht : ∀ i ∈ is, targets.get i ≠ t) : d'.get? t = d.get? t := by
  induction is generalizing d with
  | nil =>
    cases h
    rfl
  | cons i is ih =>
    obtain ⟨o, -, h⟩ := collect_cons_eq_ok_iff.mp h
    have hi : t ≠ targets.get i := (ht i List.mem_cons_self).symm
    rw [ih h fun j hj => ht j (List.mem_cons_of_mem i hj), Dict.get?_set, if_neg hi]

/-- A target with a scan among those handed over has the outcome of one of them. -/
theorem collect_get?_of_mem {is : List (Fin targets.length)} {d d' : Dict Str (TargetOutcome ρ)}
    (h : collect sanitize targets ends is d = .ok d') {i : Fin targets.length} (hi : i ∈ is) :
    ∃ j ∈ is, targets.get j = targets.get i ∧ ∃ o,
      settle sanitize (targets.get j) (ends j) = .ok o ∧ d'.get? (targets.get i) = some o := by
  induction is generalizing d i with
  | nil => cases hi
  | cons k is ih =>
    obtain ⟨o, ho, h⟩ := collect_cons_eq_ok_iff.mp h
    by_cases hlater : ∃ j ∈ is, targets.get j = targets.get i
    · -- a later scan of the target replaces what this one has left
      obtain ⟨j, hj, hji⟩ := hlater
      obtain ⟨l, hl, hlj, o', ho', hget⟩ := ih h hj
      exact ⟨l, List.mem_cons_of_mem k hl, hlj.trans hji, o', ho', hji ▸ hget⟩
    · rcases List.mem_cons.mp hi with rfl | hi
      · refine ⟨i, List.mem_cons_self, rfl, o, ho, ?_⟩
        have hlast : ∀ j ∈ is, targets.get j ≠ targets.get i :=
          fun j hj hji => hlater ⟨j, hj, hji⟩
        rw [collect_get?_of_not_mem h hlast, Dict.get?_set, if_pos rfl]
      · exact absurd ⟨i, hi, rfl⟩ hlater

/-- The loop goes through exactly if no scan that is handed over was aborted. -/
theorem exists_collect_iff {is : List (Fin targets.length)} {d : Dict Str (TargetOutcome ρ)} :
    (∃ d', collect sanitize targets ends is d = .ok d') ↔ ∀ i ∈ is, ∀ e, ends i ≠ .aborted e := by
  induction is generalizing d with
  | nil => exact ⟨fun _ i hi => absurd hi List.not_mem_nil, fun _ => ⟨d, rfl⟩⟩
  | cons i is ih =>
    have hsettle : (∃ o, settle sanitize (targets.get i) (ends i) = .ok o) ↔
        ∀ e, ends i ≠ .aborted e := by
      cases hend : ends i <;> simp [settle]
    rw [List.forall_mem_cons, ← hsettle]
    constructor
    · rintro ⟨d', h⟩
      obtain ⟨o, ho, h⟩ := collect_cons_eq_ok_iff.mp h
      exact ⟨⟨o, ho⟩, ih.mp ⟨d', h⟩⟩
    · rintro ⟨⟨o, ho⟩, h⟩
      obtain ⟨d', h⟩ := ih.mpr h
      exact ⟨d', collect_cons_eq_ok_iff.mpr ⟨o, ho, h⟩⟩

/-- Filling in gives a target without an outcome the one of a timeout. -/
theorem backfill_get? (ts : List Str) (d : Dict Str (TargetOutcome ρ)) (t : Str) :
    (backfill sanitize timeoutText ts d).get? t =
      if t ∈ ts then some ((d.get? t).getD (timedOut sanitize timeoutText t)) else d.get? t := by
  induction ts generalizing d with
  | nil => rfl
  | cons u ts ih =>
    have hstep : (if (d.get? u).isNone then d.set u (timedOut sanitize timeoutText u) else d).get? t
        = if t = u then some ((d.get? t).getD (timedOut sanitize timeoutText t)) else d.get? t := by
      by_cases htu : t = u
      · subst htu
        cases hd : d.get? t <;> simp [hd, Dict.get?_set]
      · cases hd : d.get? u <;> simp [htu, Dict.get?_set]
    unfold backfill
    rw [ih, hstep]
    by_cases htu : t = u <;> by_cases hts : t ∈ ts <;> simp [htu, hts]

/-! ## What a fleet scan returns -/

variable (sanitize timeoutText targets ends) in
/-- What a scan ends with as far as the fleet scan has waited for it. -/
def ownOutcome (yielded : List (Fin targets.length)) (i : Fin targets.length) :
    Except (FleetError ε) (TargetOutcome ρ) :=
  if i ∈ yielded then settle sanitize (targets.get i) (ends i)
  else .ok (timedOut sanitize timeoutText (targets.get i))

variable (sanitize timeoutText targets ends) in
/-- One outcome for each scan in input order, its own, and the worst exit code over all of them. -/
structure LosesNothing (yielded : List (Fin targets.length)) (r : FleetResult ρ) : Prop where
  outcomes : (List.finRange targets.length).map
    (ownOutcome sanitize timeoutText targets ends yielded) = r.targets.map .ok
  worst : IsWorst (r.targets.map (·.exitCode)) r.exitCode

variable (sanitize timeoutText targets ends) in
/-- The scans of each target have one outcome, and none that is waited for aborts. -/
structure OneOutcomeEach (yielded : List (Fin targets.length)) : Prop where
  no_abort : ∀ i ∈ yielded, ∀ e, ends i ≠ .aborted e
  same : ∀ i j, targets.get i = targets.get j →
    ownOutcome sanitize timeoutText targets ends yielded i =
      ownOutcome sanitize timeoutText targets ends yielded j

variable {yielded : List (Fin targets.length)}

variable (sanitize timeoutText) in
/-- Unless a scan aborts, the fleet scan returns for each target what one of its scans ended with,
and the worst exit code over what it returns. -/
theorem runFleetScan_eq_ok (h : ∀ i ∈ yielded, ∀ e, ends i ≠ .aborted e) :
    ∃ (f : Str → TargetOutcome ρ) (r : FleetResult ρ),
      runFleetScan sanitize timeoutText targets ends yielded = .ok r ∧ r.targets = targets.map f ∧
      r.exitCode = aggregateExitCode (r.targets.map (·.exitCode)) ∧
      ∀ i, ∃ j, targets.get j = targets.get i ∧
        ownOutcome sanitize timeoutText targets ends yielded j = .ok (f (targets.get i)) := by
  have hcollect : ∃ d, collect sanitize targets ends yielded Dict.empty = .ok d :=
    exists_collect_iff.mpr h
  obtain ⟨d, hd⟩ := hcollect
  let f : Str → TargetOutcome ρ := fun t => (d.get? t).getD (timedOut sanitize timeoutText t)
  have hlookup : targets.mapM (lookup (ε := ε) (backfill sanitize timeoutText targets d)) =
      .ok (targets.map f) := by
    rw [mapM_eq_ok_iff, List.map_map]
    refine List.map_congr_left fun t ht => ?_
    simp only [lookup, backfill_get?, if_pos ht, Function.comp_apply, f]
  refine ⟨f, ⟨targets.map f, aggregateExitCode ((targets.map f).map (·.exitCode))⟩, ?_, rfl, rfl,
    fun i => ?_⟩
  · unfold runFleetScan
    rw [hd, ok_bind, hlookup, ok_bind]
    rfl
  by_cases hi : ∃ k ∈ yielded, targets.get k = targets.get i
  · obtain ⟨k, hk, hki⟩ := hi
    obtain ⟨j, hj, hjk, o, ho, hget⟩ := collect_get?_of_mem hd hk
    refine ⟨j, hjk.trans hki, ?_⟩
    have hf : f (targets.get i) = o := by
      simp only [f, ← hki, hget, Option.getD_some]
    rw [ownOutcome, if_pos hj, ho, hf]
  · have hnot : ∀ k ∈ yielded, targets.get k ≠ targets.get i := fun k hk hki => hi ⟨k, hk, hki⟩
    refine ⟨i, rfl, ?_⟩
    have hf : f (targets.get i) = timedOut sanitize timeoutText (targets.get i) := by
      simp only [f, collect_get?_of_not_mem hd hnot, Dict.get?_empty, Option.getD_none]
    rw [ownOutcome, if_neg fun hmem => hnot i hmem rfl, hf]

theorem losesNothing_iff :
    (∃ r, runFleetScan sanitize timeoutText targets ends yielded = .ok r ∧
      LosesNothing sanitize timeoutText targets ends yielded r) ↔
    OneOutcomeEach sanitize timeoutText targets ends yielded := by
  have hplaces : ∀ f : Str → TargetOutcome ρ,
      targets.map f = (List.finRange targets.length).map (f ∘ targets.get) := by
    intro f
    rw [← List.map_map, List.map_get_finRange]
  constructor
  · rintro ⟨r, hr, hloses⟩
    have habort : ∀ i ∈ yielded, ∀ e, ends i ≠ .aborted e := by
      obtain ⟨d, hd, -⟩ := bind_eq_ok_iff.mp hr
      exact exists_collect_iff.mp ⟨d, hd⟩
    obtain ⟨f, r', hr', htargets, -, -⟩ := runFleetScan_eq_ok sanitize timeoutText habort
    cases hr.symm.trans hr'
    -- each place of the result depends on its target only
    have hown : ∀ i, ownOutcome sanitize timeoutText targets ends yielded i =
        .ok (f (targets.get i)) := by
      have houtcomes := hloses.outcomes
      rw [htargets, hplaces, List.map_map] at houtcomes
      exact fun i => List.map_inj_left.mp houtcomes i (List.mem_finRange i)
    exact ⟨habort, fun i j hij => by rw [hown, hown, hij]⟩
  · intro hone
    obtain ⟨f, r, hr, htargets, hcode, hown⟩ := runFleetScan_eq_ok sanitize
      timeoutText hone.no_abort
    refine ⟨r, hr, ?_, hcode ▸ isWorst_aggregateExitCode _⟩
    rw [htargets, hplaces, List.map_map]
    refine List.map_congr_left fun i _ => ?_
    obtain ⟨j, hji, hj⟩ := hown i
    rw [hone.same i j hji.symm, hj]
    rfl

/-- Whatever the concurrency limit, and in whatever order the scans are handed over before the
timeout, a fleet scan loses nothing exactly if the scans of each target agree. -/
theorem fleet_loses_nothing_iff {maxConcurrency : Int} (w : Waited targets maxConcurrency) :
    (∃ r, runFleetScan sanitize timeoutText targets ends w.pool.yielded = .ok r ∧
      LosesNothing sanitize timeoutText targets ends w.pool.yielded r) ↔
    OneOutcomeEach sanitize timeoutText targets ends w.pool.yielded :=
  losesNothing_iff

/-- Without repeated targets, a fleet scan loses nothing unless a scan aborts. -/
theorem losesNothing_of_nodup (hnodup : targets.Nodup)
    (habort : ∀ i ∈ yielded, ∀ e, ends i ≠ .aborted e) :
    ∃ r, runFleetScan sanitize timeoutText targets ends yielded = .ok r ∧
      LosesNothing sanitize timeoutText targets ends yielded r := by
  refine losesNothing_iff.mpr ⟨habort, fun i j hij => ?_⟩
  rw [hnodup.injective_get hij]

end Scan

/-! ## A target listed twice -/

section Twice

def twice : List Str := [lit "https://a", lit "https://a"]

def first : Fin twice.length := ⟨0, by decide⟩

def second : Fin twice.length := ⟨1, by decide⟩

/-- The first scan has findings, the second one finds the target gone. -/
def twiceEnds (i : Fin twice.length) : ScanEnd Unit Unit :=
  if i = first then .returned ⟨lit "https://a", 1, some (), none⟩ else .unreachable []

def twiceWaited : Waited twice 1 where
  events := [.start, .finish first, .yield first, .start, .finish second, .yield second]
  pool := ⟨[], [], [], [first, second]⟩
  run := by decide

/-- The findings of the first scan are in no outcome, and do not count for the exit code. -/
theorem fleet_masks_findings : ∃ r,
    runFleetScan id [] twice twiceEnds twiceWaited.pool.yielded = .ok r ∧
    ownOutcome id [] twice twiceEnds twiceWaited.pool.yielded first =
      .ok ⟨lit "https://a", 1, some (), none⟩ ∧
    r.targets.map (·.exitCode) = [3, 3] ∧ r.exitCode = 3 ∧
    ¬ LosesNothing id [] twice twiceEnds twiceWaited.pool.yielded r := by
  refine ⟨⟨[⟨lit "https://a", 3, none, some []⟩, ⟨lit "https://a", 3, none, some []⟩], 3⟩, rfl, rfl,
    rfl, rfl, fun h => ?_⟩
  have hcode := congrArg (fun l => l.map fun o => o.toOption.map (·.exitCode)) h.outcomes
  revert hcode
  decide

end Twice

end CosaiMcp.Fleet
