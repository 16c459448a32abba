import CosaiMcp.Run
import Mathlib.Data.List.Perm.Subperm

/-!
# Pools of bounded concurrency

Jobs wait in the order in which they were submitted. A job may start while fewer than `limit` are
running, a running one may finish at any time, and the finished ones are handed over to the consumer
in any order. No job is lost or handed over twice (`exec_perm`), and the consumer may see every order
of any of the jobs (`exists_exec`).
-/

universe u

structure Pool (ι : Type u) where
  waiting : List ι
  running : List ι
  finished : List ι
  yielded : List ι
deriving DecidableEq

namespace Pool

variable {ι : Type u}

inductive Event (ι : Type u) where
  | start
  | finish (i : ι)
  | yield (i : ι)

def submit (jobs : List ι) : Pool ι := ⟨jobs, [], [], []⟩

/-- Every job, wherever it is. -/
def jobs (p : Pool ι) : List ι := p.waiting ++ (p.running ++ (p.finished ++ p.yielded))

variable [DecidableEq ι] {limit : Nat}

def step (limit : Nat) (p : Pool ι) : Event ι → Option (Pool ι)
  | .start =>
    match p.waiting with
    | [] => none
    | i :: is =>
      if p.running.length < limit then
        some { p with waiting := is, running := i :: p.running }
      else none
  | .finish i =>
    if i ∈ p.running then
      some { p with running := p.running.erase i, finished := i :: p.finished }
    else none
  | .yield i =>
    if i ∈ p.finished then
      some { p with finished := p.finished.erase i, yielded := p.yielded ++ [i] }
    else none

/-! ## What a step can do -/

theorem step_start {p p' : Pool ι} (h : step limit p .start = some p') :
    ∃ i is, p.waiting = i :: is ∧ p.running.length < limit ∧
      p' = { p with waiting := is, running := i :: p.running } := by
  simp only [step] at h
  split at h
  · cases h
  · next i is hw =>
    split at h
    · next hl => exact ⟨i, is, hw, hl, (Option.some.inj h).symm⟩
    · cases h

theorem step_finish {p p' : Pool ι} {i : ι} (h : step limit p (.finish i) = some p') :
    i ∈ p.running ∧ p' = { p with running := p.running.erase i, finished := i :: p.finished } := by
  simp only [step] at h
  split at h
  · next hi => exact ⟨hi, (Option.some.inj h).symm⟩
  · cases h

theorem step_yield {p p' : Pool ι} {i : ι} (h : step limit p (.yield i) = some p') :
    i ∈ p.finished ∧
      p' = { p with finished := p.finished.erase i, yielded := p.yielded ++ [i] } := by
  simp only [step] at h
  split at h
  · next hi => exact ⟨hi, (Option.some.inj h).symm⟩
  · cases h

/-- A step moves a job, and neither drops nor adds one. -/
theorem step_perm {p p' : Pool ι} {e : Event ι} (h : step limit p e = some p') :
    p'.jobs.Perm p.jobs := by
  cases e with
  | start =>
    obtain ⟨i, is, hw, -, rfl⟩ := step_start h
    simp only [jobs, hw, List.cons_append]
    exact List.perm_middle
  | finish i =>
    obtain ⟨hi, rfl⟩ := step_finish h
    refine List.Perm.append_left _ ?_
    have hr : (p.running.erase i ++ (i :: (p.finished ++ p.yielded))).Perm
        (i :: (p.running.erase i ++ (p.finished ++ p.yielded))) := List.perm_middle
    exact hr.trans ((List.perm_cons_erase hi).symm.append_right _)
  | yield i =>
    obtain ⟨hi, rfl⟩ := step_yield h
    refine List.Perm.append_left _ (List.Perm.append_left _ ?_)
    have hf : (p.finished.erase i ++ (p.yielded ++ [i])).Perm
        (i :: (p.finished.erase i ++ p.yielded)) := by
      rw [← List.append_assoc]
      exact List.perm_append_singleton i _
    exact hf.trans ((List.perm_cons_erase hi).symm.append_right _)

/-! ## Runs -/

theorem exec_perm {js : List ι} {es : List (Event ι)} {p : Pool ι}
    (h : Run.exec (step limit) (submit js) es = some p) : p.jobs.Perm js := by
  have hinv : ∀ q e q', q.jobs.Perm js → step limit q e = some q' → q'.jobs.Perm js :=
    fun q e q' hq hs => (step_perm hs).trans hq
  exact Run.exec_invariant hinv (by simp [jobs, submit]) h

/-- No job is handed over twice. -/
theorem yielded_nodup {js : List ι} (hjs : js.Nodup) {es : List (Event ι)} {p : Pool ι}
    (h : Run.exec (step limit) (submit js) es = some p) : p.yielded.Nodup := by
  have hall : p.jobs.Nodup := (exec_perm h).nodup_iff.mpr hjs
  have hsub : p.yielded.Sublist p.jobs :=
    (List.sublist_append_right p.finished p.yielded).trans
      ((List.sublist_append_right p.running _).trans (List.sublist_append_right p.waiting _))
  exact hall.sublist hsub

/-! ## Every order is possible -/

theorem exec_starts (hl : 0 < limit) (js fs : List ι) :
    ∃ es, Run.exec (step limit) ⟨js, [], fs, []⟩ es = some ⟨[], [], js.reverse ++ fs, []⟩ := by
  induction js generalizing fs with
  | nil => exact ⟨[], rfl⟩
  | cons j js ih =>
    obtain ⟨es, hes⟩ := ih (j :: fs)
    refine ⟨.start :: .finish j :: es, ?_⟩
    have hstart : step limit ⟨j :: js, [], fs, []⟩ .start = some ⟨js, [j], fs, []⟩ := by
      simp [step, hl]
    have hfinish : step limit ⟨js, [j], fs, []⟩ (.finish j) = some ⟨js, [], j :: fs, []⟩ := by
      simp [step]
    rw [Run.exec_cons, hstart, Option.bind_some, Run.exec_cons, hfinish, Option.bind_some, hes]
    simp

variable (limit) in
theorem exec_yields {ks fs : List ι} (ys : List ι) (h : ks.Subperm fs) :
    ∃ es fs', Run.exec (step limit) ⟨[], [], fs, ys⟩ es = some ⟨[], [], fs', ys ++ ks⟩ := by
  induction ks generalizing fs ys with
  | nil => exact ⟨[], fs, by simp⟩
  | cons k ks ih =>
    have hk : k ∈ fs := h.subset List.mem_cons_self
    have hrest : ks.Subperm (fs.erase k) := by
      simpa using h.erase k
    obtain ⟨es, fs', hes⟩ := ih (ys ++ [k]) hrest
    refine ⟨.yield k :: es, fs', ?_⟩
    have hstep : step limit ⟨[], [], fs, ys⟩ (.yield k) =
        some ⟨[], [], fs.erase k, ys ++ [k]⟩ := by
      simp [step, hk]
    rw [Run.exec_cons, hstep, Option.bind_some, hes, List.append_assoc, List.singleton_append]

/-- Whatever the limit, the consumer may get any of the jobs in any order. -/
theorem exists_exec (hl : 0 < limit) {js ks : List ι} (h : ks.Subperm js) :
    ∃ es p, Run.exec (step limit) (submit js) es = some p ∧ p.yielded = ks := by
  obtain ⟨es, hes⟩ := exec_starts hl js []
  have hks : ks.Subperm (js.reverse ++ []) := by
    rw [List.append_nil]
    exact h.trans (List.reverse_perm js).symm.subperm
  obtain ⟨es', fs', hes'⟩ := exec_yields limit [] hks
  refine ⟨es ++ es', ⟨[], [], fs', [] ++ ks⟩, ?_, List.nil_append ks⟩
  rw [Run.exec_append, submit, hes, Option.bind_some, hes']

end Pool
