import Mathlib.Logic.Basic
import Mathlib.Data.List.Basic
import Mathlib.Tactic.Common

/-!
# Findings of a set of tests

A test reports findings under an id. A finding may be inconclusive, and a conclusive one passed or
failed. What a list of findings says about an id is a matter of the set of its members only: whether
the id is refuted, has run, is present, or is proven. `Worse` compares two lists: more was reported,
but no further pass. It can take a proof away, and can never give one (`Worse.proven`).
-/

universe u

structure Finding (α : Type u) where
  id : α
  conclusive : Bool
  passed : Bool
  /-- What the finding is reported as. -/
  label : α

namespace Finding

variable {α : Type u}

/-- The one kind of finding that speaks for an id. -/
def ConclusivePass (f : Finding α) : Prop := f.conclusive = true ∧ f.passed = true

instance (f : Finding α) : Decidable f.ConclusivePass :=
  inferInstanceAs (Decidable (_ ∧ _))

/-- Some finding under the id has the property. -/
def Reported (P : Finding α → Prop) (fs : List (Finding α)) (i : α) : Prop :=
  ∃ f ∈ fs, f.id = i ∧ P f

/-- Some finding under the id is a conclusive failure. -/
def Refuted : List (Finding α) → α → Prop :=
  Reported fun f => f.conclusive = true ∧ f.passed = false

/-- Some finding under the id is conclusive. -/
def Ran : List (Finding α) → α → Prop := Reported fun f => f.conclusive = true

/-- Some finding under the id is inconclusive. -/
def Unproven : List (Finding α) → α → Prop := Reported fun f => f.conclusive = false

/-- There is some finding under the id. -/
def Present : List (Finding α) → α → Prop := Reported fun _ => True

/-- There is some finding under the id, and every one is a conclusive pass. -/
def Proven (fs : List (Finding α)) (i : α) : Prop :=
  Present fs i ∧ ∀ f ∈ fs, f.id = i → f.ConclusivePass

variable {P : Finding α → Prop} {fs fs' : List (Finding α)} {i : α}

@[simp] theorem not_reported_nil : ¬ Reported P [] i := by
  rintro ⟨f, hf, -⟩
  cases hf

theorem reported_concat {f : Finding α} :
    Reported P (fs ++ [f]) i ↔ Reported P fs i ∨ f.id = i ∧ P f := by
  constructor
  · rintro ⟨g, hg, hp⟩
    rcases List.mem_append.mp hg with hg | hg
    · exact .inl ⟨g, hg, hp⟩
    · rw [List.mem_singleton] at hg
      exact .inr (hg ▸ hp)
  · rintro (⟨g, hg, hp⟩ | hp)
    · exact ⟨g, List.mem_append_left _ hg, hp⟩
    · exact ⟨f, List.mem_append_right _ List.mem_cons_self, hp⟩

theorem Proven.not_refuted (h : Proven fs i) : ¬ Refuted fs i := by
  rintro ⟨f, hf, hid, -, hp⟩
  exact Bool.noConfusion (hp.symm.trans (h.2 f hf hid).2)

/-- An id is proven when it was reported, never inconclusively, and is not refuted. -/
theorem proven_iff : Proven fs i ↔ Present fs i ∧ ¬ Unproven fs i ∧ ¬ Refuted fs i := by
  constructor
  · intro h
    refine ⟨h.1, ?_, h.not_refuted⟩
    rintro ⟨f, hf, hid, hc⟩
    exact Bool.noConfusion (hc.symm.trans (h.2 f hf hid).1)
  · rintro ⟨hpresent, hunproven, hrefuted⟩
    refine ⟨hpresent, fun f hf hid => ?_⟩
    have hc : f.conclusive = true := by
      by_contra hc
      exact hunproven ⟨f, hf, hid, eq_false_of_ne_true hc⟩
    refine ⟨hc, ?_⟩
    by_contra hp
    exact hrefuted ⟨f, hf, hid, hc, eq_false_of_ne_true hp⟩

/-! ## More was reported, and no further pass -/

/-- `fs'` has the findings of `fs`, and others that are not conclusive passes. -/
structure Worse (fs' fs : List (Finding α)) : Prop where
  keeps : ∀ f ∈ fs, f ∈ fs'
  adds : ∀ f ∈ fs', f ∈ fs ∨ ¬ f.ConclusivePass

theorem Worse.insert (f : Finding α) (before after : List (Finding α)) (h : ¬ f.ConclusivePass) :
    Worse (before ++ f :: after) (before ++ after) where
  keeps g hg := by
    rw [List.mem_append] at hg ⊢
    exact hg.imp_right (List.mem_cons_of_mem f)
  adds g hg := by
    rcases List.mem_append.mp hg with hg | hg
    · exact .inl (List.mem_append_left _ hg)
    · rcases List.mem_cons.mp hg with rfl | hg
      · exact .inr h
      · exact .inl (List.mem_append_right _ hg)

theorem Worse.reported (h : Worse fs' fs) (hi : Reported P fs i) : Reported P fs' i := by
  obtain ⟨f, hf, hrest⟩ := hi
  exact ⟨f, h.keeps f hf, hrest⟩

/-- What newly ran has failed. -/
theorem Worse.ran (h : Worse fs' fs) (hi : Ran fs' i) : Ran fs i ∨ Refuted fs' i := by
  obtain ⟨f, hf, hid, hc⟩ := hi
  rcases h.adds f hf with hold | hnew
  · exact .inl ⟨f, hold, hid, hc⟩
  · refine .inr ⟨f, hf, hid, hc, ?_⟩
    by_contra hp
    exact hnew ⟨hc, eq_true_of_ne_false hp⟩

theorem Worse.proven (h : Worse fs' fs) (hi : Proven fs' i) : Proven fs i := by
  obtain ⟨⟨f, hf, hid, -⟩, hall⟩ := hi
  have hold : f ∈ fs := (h.adds f hf).resolve_right fun hn => hn (hall f hf hid)
  exact ⟨⟨f, hold, hid, trivial⟩, fun g hg hgid => hall g (h.keeps g hg) hgid⟩

end Finding
