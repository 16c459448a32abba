import CosaiMcp.Pool
import CosaiMcp.Py.Dict
import CosaiMcp.Py.Str
import Mathlib.Data.List.MinMax
import Mathlib.Data.List.FinRange

/-!
# Scanning a fleet of targets

`runFleetScan` is `run_fleet_scan` on what its scans end with, after the pool has handed over the
scans `yielded`, in that order; the loop over `as_completed` stops when every scan was handed over
or when the timeout is reached, so that any state of the pool may be its last. A scan is its place
in the list of targets. `_sanitize_error` is a parameter.
-/

namespace CosaiMcp.Fleet

open Py

variable {ρ ε : Type}

structure TargetOutcome (ρ : Type) where
  targetUrl : Str
  exitCode : Int
  /-- A `ScanResult`. -/
  result : Option ρ
  error : Option Str
deriving DecidableEq

structure FleetResult (ρ : Type) where
  targets : List (TargetOutcome ρ)
  exitCode : Int

/-- What calling `scan_fn` on a target ends with. -/
inductive ScanEnd (ρ ε : Type) where
  | returned (outcome : TargetOutcome ρ)
  /-- A `TargetUnreachableError`. -/
  | unreachable (text : Str)
  /-- Any other `Exception`. -/
  | failed (text : Str)
  /-- An exception that is no `Exception`, such as a `SystemExit`. -/
  | aborted (e : ε)

inductive FleetError (ε : Type) where
  | aborted (e : ε)
  | keyError (target : Str)

/-! ## The aggregate exit code -/

/-- `_EXIT_PRECEDENCE.get(c, 0)`, the worst code first. -/
def exitPrecedence (c : Int) : Nat :=
  if c = 2 then 0 else if c = 1 then 1 else if c = 3 then 2 else if c = 0 then 3 else 0

/-- `_aggregate_exit_code`. -/
def aggregateExitCode (codes : List Int) : Int :=
  match codes.argmin exitPrecedence with
  | none => 0
  | some c => c

/-! ## Waiting for the scans -/

/-- The threads of `ThreadPoolExecutor(max_workers=max(1, max_concurrency))`. -/
def workers (maxConcurrency : Int) : Nat := (max 1 maxConcurrency).toNat

/-- A run of the pool up to the point where the fleet scan stops waiting. -/
structure Waited (targets : List Str) (maxConcurrency : Int) where
  events : List (Pool.Event (Fin targets.length))
  pool : Pool (Fin targets.length)
  run : Run.exec (Pool.step (workers maxConcurrency))
    (Pool.submit (List.finRange targets.length)) events = some pool

namespace Waited

variable {targets : List Str} {maxConcurrency : Int}

theorem yielded_nodup (w : Waited targets maxConcurrency) : w.pool.yielded.Nodup :=
  Pool.yielded_nodup (List.nodup_finRange _) w.run

/-- The scans may be handed over in any order, and any of them may come too late. -/
theorem exists_yielded {is : List (Fin targets.length)} (h : is.Nodup) :
    ∃ w : Waited targets maxConcurrency, w.pool.yielded = is := by
  have hpos : 0 < workers maxConcurrency := by
    unfold workers
    omega
  obtain ⟨es, p, hrun, hp⟩ := Pool.exists_exec hpos
    (h.subperm fun i _ => List.mem_finRange i : is.Subperm (List.finRange targets.length))
  exact ⟨⟨es, p, hrun⟩, hp⟩

end Waited

/-! ## The fleet scan -/

section Scan

variable (sanitize : Str → Str) (timeoutText : Str) (targets : List Str)
  (ends : Fin targets.length → ScanEnd ρ ε)

/-- What the loop records for a scan that was handed over. -/
def settle (target : Str) : ScanEnd ρ ε → Except (FleetError ε) (TargetOutcome ρ)
  | .returned outcome => .ok outcome
  | .unreachable text => .ok ⟨target, 3, none, some (sanitize text)⟩
  | .failed text => .ok ⟨target, 2, none, some (sanitize text)⟩
  | .aborted e => .error (.aborted e)

def timedOut (target : Str) : TargetOutcome ρ := ⟨target, 2, none, some (sanitize timeoutText)⟩

/-- The loop over the scans that are handed over. -/
def collect : List (Fin targets.length) → Dict Str (TargetOutcome ρ) →
    Except (FleetError ε) (Dict Str (TargetOutcome ρ))
  | [], d => .ok d
  | i :: is, d => do
    let outcome ← settle sanitize (targets.get i) (ends i)
    collect is (d.set (targets.get i) outcome)

/-- The loop over the targets that fills in what is missing. -/
def backfill : List Str → Dict Str (TargetOutcome ρ) → Dict Str (TargetOutcome ρ)
  | [], d => d
  | t :: ts, d =>
    backfill ts (if (d.get? t).isNone then d.set t (timedOut sanitize timeoutText t) else d)

/-- `d[t]`. -/
def lookup (d : Dict Str (TargetOutcome ρ)) (t : Str) : Except (FleetError ε) (TargetOutcome ρ) :=
  match d.get? t with
  | none => .error (.keyError t)
  | some outcome => .ok outcome

/-- `run_fleet_scan`. -/
def runFleetScan (yielded : List (Fin targets.length)) :
    Except (FleetError ε) (FleetResult ρ) := do
  let outcomes ← collect sanitize targets ends yielded Dict.empty
  let ordered ← targets.mapM (lookup (backfill sanitize timeoutText targets outcomes))
  return ⟨ordered, aggregateExitCode (ordered.map (·.exitCode))⟩

end Scan

end CosaiMcp.Fleet
