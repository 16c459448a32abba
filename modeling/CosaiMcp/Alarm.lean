import CosaiMcp.Run
import Mathlib.Algebra.Order.Ring.Int

/-!
# Alarms on a level

An alarm that sounds when a level is above a threshold, and above the level at which it sounded
last. Where the level rises by one at a time it crosses the threshold to one and the same level each
time, so that the alarm sounds at the first crossing only (`sounds_at_crossings_iff`).
-/

namespace Alarm

/-- A level, and whether the alarm fails at it. -/
structure Reading where
  level : Nat
  fails : Bool

/-- The answer, and the level at which the alarm sounded last. -/
def step (threshold : Int) (last : Option Nat) (r : Reading) : Bool × Option Nat :=
  if r.fails = false ∧ threshold < r.level ∧ ∀ n ∈ last, n < r.level then (true, some r.level)
  else (false, last)

/-- The level after some readings. -/
def levelAfter (rs : List Reading) : Nat := (rs.getLast?.map (·.level)).getD 0

/-- The level crosses the threshold. -/
def Crosses (threshold : Int) (before : List Reading) (r : Reading) : Prop :=
  levelAfter before ≤ threshold ∧ threshold < r.level

/-- The level rises by one at a time. -/
def Gradual (rs : List Reading) : Prop :=
  ∀ before r, before ++ [r] <+: rs → r.level ≤ levelAfter before + 1

section Alarm

variable {threshold : Int}

theorem levelAfter_concat (rs : List Reading) (r : Reading) :
    levelAfter (rs ++ [r]) = r.level := by
  rw [levelAfter, List.getLast?_concat, Option.map_some, Option.getD_some]

theorem step_of_sounds {last : Option Nat} {r : Reading} (h : (step threshold last r).1 = true) :
    (step threshold last r).2 = some r.level := by
  unfold step at h ⊢
  split at h
  · next hc => rw [if_pos hc]
  · cases h

/-- The level of the last alarm is above the threshold. -/
theorem threshold_lt_last {rs : List Reading} {n : Nat}
    (h : Run.final (step threshold) none rs = some n) : threshold < n := by
  induction rs using List.reverseRecOn with
  | nil => cases h
  | append_singleton rs r ih =>
    rw [Run.final_concat] at h
    unfold step at h
    split at h
    · next hc =>
      cases h
      exact hc.2.1
    · exact ih h

/-- It only grows. -/
theorem last_grows {rs : List Reading} {r : Reading} {n : Nat}
    (h : Run.final (step threshold) none rs = some n) :
    ∃ m, Run.final (step threshold) none (rs ++ [r]) = some m := by
  rw [Run.final_concat, h]
  unfold step
  split
  · exact ⟨_, rfl⟩
  · exact ⟨n, rfl⟩

theorem last_of_prefix {before rs : List Reading} {n : Nat} (hpre : before <+: rs)
    (h : Run.final (step threshold) none before = some n) :
    ∃ m, Run.final (step threshold) none rs = some m := by
  obtain ⟨after, rfl⟩ := hpre
  induction after using List.reverseRecOn with
  | nil => exact ⟨n, by rwa [List.append_nil]⟩
  | append_singleton after r ih =>
    obtain ⟨m, hm⟩ := ih
    rw [← List.append_assoc]
    exact last_grows hm

/-- Before the first crossing the level is not above the threshold, and no alarm has sounded. -/
theorem silent_before_crossing (hthreshold : 0 ≤ threshold) {rs : List Reading}
    (h : ∀ before r, before ++ [r] <+: rs → ¬ Crosses threshold before r) :
    levelAfter rs ≤ threshold ∧ Run.final (step threshold) none rs = none := by
  induction rs using List.reverseRecOn with
  | nil => exact ⟨hthreshold, rfl⟩
  | append_singleton rs r ih =>
    obtain ⟨hlevel, hlast⟩ := ih fun before r' hpre =>
      h before r' (hpre.trans (List.prefix_append rs [r]))
    have hlow : ¬ threshold < r.level := fun hlt => h rs r (List.prefix_refl _) ⟨hlevel, hlt⟩
    rw [levelAfter_concat, Run.final_concat, hlast]
    refine ⟨Int.not_lt.mp hlow, ?_⟩
    unfold step
    rw [if_neg fun hc => hlow hc.2.1]

variable (threshold) in
/-- The alarm sounds at every crossing exactly if it does not fail there, and no crossing has come
before. -/
theorem sounds_at_crossings_iff {rs : List Reading} (hgradual : Gradual rs) :
    (∀ before r, before ++ [r] <+: rs → Crosses threshold before r →
        (step threshold (Run.final (step threshold) none before) r).1 = true) ↔
      ∀ before r, before ++ [r] <+: rs → Crosses threshold before r →
        r.fails = false ∧
          ∀ before' r', before' ++ [r'] <+: before → ¬ Crosses threshold before' r' := by
  constructor
  · intro h before r hpre hcross
    have hsounds := h before r hpre hcross
    unfold step at hsounds
    split at hsounds
    · next hc =>
      obtain ⟨hfails, -, hlast⟩ := hc
      refine ⟨hfails, fun before' r' hpre' hcross' => ?_⟩
      -- the earlier alarm was above the threshold too, and the level is only just above it
      have hsounds' := h before' r'
        (hpre'.trans ((List.prefix_append before [r]).trans hpre)) hcross'
      have hfinal : Run.final (step threshold) none (before' ++ [r']) = some r'.level := by
        rw [Run.final_concat]
        exact step_of_sounds hsounds'
      obtain ⟨m, hm⟩ := last_of_prefix hpre' hfinal
      have hm_lt := hlast m hm
      have hthreshold := threshold_lt_last hm
      have hrise := hgradual before r hpre
      have hlow := hcross.1
      omega
    · cases hsounds
  · intro h before r hpre hcross
    obtain ⟨hfails, hnone⟩ := h before r hpre hcross
    have hthreshold : 0 ≤ threshold := (Int.natCast_nonneg _).trans hcross.1
    obtain ⟨-, hlast⟩ := silent_before_crossing hthreshold hnone
    rw [hlast]
    unfold step
    rw [if_pos ⟨hfails, hcross.2, nofun⟩]

end Alarm

/-! ## Readings of a history -/

section History

universe u v

variable {α : Type u} (reading : List α → α → Reading)

/-- What is read at each input, given those before it. -/
def readings (inputs : List α) : List Reading :=
  inputs.zipIdx.map fun p => reading (inputs.take p.2) p.1

theorem readings_concat (inputs : List α) (i : α) :
    readings reading (inputs ++ [i]) = readings reading inputs ++ [reading inputs i] := by
  unfold readings
  rw [List.zipIdx_append, List.map_append]
  congr 1
  · refine List.map_congr_left fun p hp => ?_
    have hlt := List.snd_lt_of_mem_zipIdx hp
    rw [List.take_append_of_le_length (by omega)]
  · simp

theorem forall_prefix_concat_iff {β : Type v} {P : List β → β → Prop} {l : List β} {b : β} :
    (∀ before a, before ++ [a] <+: l ++ [b] → P before a) ↔
      (∀ before a, before ++ [a] <+: l → P before a) ∧ P l b := by
  constructor
  · exact fun h => ⟨fun before a hpre => h before a (hpre.trans (List.prefix_append l [b])),
      h l b (List.prefix_refl _)⟩
  · rintro ⟨hbefore, hlast⟩ before a hpre
    rcases List.prefix_concat_iff.mp hpre with heq | hpre
    · obtain ⟨rfl, hsame⟩ := List.append_inj' heq rfl
      cases List.singleton_injective hsame
      exact hlast
    · exact hbefore before a hpre

/-- The prefixes of the readings are the readings of the prefixes. -/
theorem forall_prefix_readings_iff {P : List Reading → Reading → Prop} {inputs : List α} :
    (∀ before r, before ++ [r] <+: readings reading inputs → P before r) ↔
      ∀ before i, before ++ [i] <+: inputs → P (readings reading before) (reading before i) := by
  induction inputs using List.reverseRecOn with
  | nil =>
    constructor
    · intro _ before i hpre
      exact absurd (List.prefix_nil.mp hpre) (by simp)
    · intro _ before r hpre
      exact absurd (List.prefix_nil.mp hpre) (by simp)
  | append_singleton inputs i ih =>
    rw [readings_concat, forall_prefix_concat_iff, ih]
    exact (forall_prefix_concat_iff (P := fun before i =>
      P (readings reading before) (reading before i))).symm

end History

end Alarm
