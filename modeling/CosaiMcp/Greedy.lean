import Mathlib.Data.List.Pairwise
import Mathlib.Order.Nat

/-!
# Greedy selection of intervals

Intervals taken from the left: of those that begin at the end of the last one taken or after it, the
first, and the longest of those that begin there. What is taken is apart (`select_apart`); what is
left begins in one that is taken (`mem_select_or`). Where some intervals end to end make up what all
of them cover, and the longer of any two that overlap is one of them, they are what is taken
(`settles_select_iff`).
-/

namespace Greedy

universe u

variable {α : Type u} (start stop : α → Nat)

/-- The intervals that begin at the cursor or after it, and then each after the last one. -/
def select : (cursor : Nat) → List α → List α
  | _, [] => []
  | cursor, a :: as =>
    if cursor ≤ start a then a :: select (stop a) as else select cursor as

def Covers (a : α) (i : Nat) : Prop := start a ≤ i ∧ i < stop a

def Overlap (a b : α) : Prop := ∃ i, Covers start stop a i ∧ Covers start stop b i

def SameSpan (a b : α) : Prop := start a = start b ∧ stop a = stop b

def Shorter (a b : α) : Prop := stop a - start a < stop b - start b

/-- By the start, and the longest first. -/
def Before (a b : α) : Prop := start a < start b ∨ start a = start b ∧ stop b ≤ stop a

/-- Some of the intervals, apart, that cover what all of them cover, with the longer of any two that
overlap. -/
structure Settles (all rows : List α) : Prop where
  subset : ∀ r ∈ rows, r ∈ all
  apart : rows.Pairwise (stop · ≤ start ·)
  whole : ∀ a ∈ all, ∀ i, Covers start stop a i → ∃ r ∈ rows, Covers start stop r i
  longer : ∀ a ∈ all, ∀ b ∈ all, Overlap start stop a b → Shorter start stop b a →
    ∃ r ∈ rows, SameSpan start stop r a

section Select

variable {start stop} {all rows : List α} {cursor : Nat} {a b : α}

theorem select_sublist : List.Sublist (select start stop cursor all) all := by
  induction all generalizing cursor with
  | nil => exact List.Sublist.refl []
  | cons a as ih =>
    unfold select
    split
    · exact ih.cons_cons a
    · exact ih.cons a

theorem cursor_le_of_mem_select (hvalid : ∀ a ∈ all, start a ≤ stop a)
    (h : a ∈ select start stop cursor all) : cursor ≤ start a := by
  induction all generalizing cursor with
  | nil => cases h
  | cons b as ih =>
    have hrest : ∀ a ∈ as, start a ≤ stop a := fun a ha => hvalid a (List.mem_cons_of_mem b ha)
    unfold select at h
    split at h
    · next hcursor =>
      rcases List.mem_cons.mp h with rfl | h
      · exact hcursor
      · exact (Nat.le_trans hcursor (hvalid b List.mem_cons_self)).trans (ih hrest h)
    · exact ih hrest h

theorem select_apart (hvalid : ∀ a ∈ all, start a ≤ stop a) :
    (select start stop cursor all).Pairwise (stop · ≤ start ·) := by
  induction all generalizing cursor with
  | nil => exact List.Pairwise.nil
  | cons a as ih =>
    have hrest : ∀ a ∈ as, start a ≤ stop a := fun b hb => hvalid b (List.mem_cons_of_mem a hb)
    unfold select
    split
    · exact List.pairwise_cons.mpr ⟨fun b hb => cursor_le_of_mem_select hrest hb, ih hrest⟩
    · exact ih hrest

/-- One that is not taken begins before the cursor, or in one that is taken and comes before it. -/
theorem mem_select_or (cursor : Nat) (hsorted : all.Pairwise (Before start stop)) (ha : a ∈ all) :
    a ∈ select start stop cursor all ∨ start a < cursor ∨
      ∃ s ∈ select start stop cursor all, Before start stop s a ∧ start a < stop s := by
  induction all generalizing cursor with
  | nil => cases ha
  | cons b as ih =>
    obtain ⟨hfirst, hrest⟩ := List.pairwise_cons.mp hsorted
    unfold select
    split
    · rcases List.mem_cons.mp ha with rfl | ha
      · exact .inl List.mem_cons_self
      · rcases ih (stop b) hrest ha with h | h | ⟨s, hs, h⟩
        · exact .inl (List.mem_cons_of_mem b h)
        · exact .inr (.inr ⟨b, List.mem_cons_self, hfirst a ha, h⟩)
        · exact .inr (.inr ⟨s, List.mem_cons_of_mem b hs, h⟩)
    · next hcursor =>
      rcases List.mem_cons.mp ha with rfl | ha
      · exact .inr (.inl (Nat.lt_of_not_le hcursor))
      · exact ih cursor hrest ha

/-- Of intervals that are apart, no two cover the same position. -/
theorem sameSpan_of_covers (hapart : rows.Pairwise (stop · ≤ start ·)) (ha : a ∈ rows)
    (hb : b ∈ rows) {i : Nat} (hai : Covers start stop a i) (hbi : Covers start stop b i) :
    SameSpan start stop a b := by
  induction rows with
  | nil => cases ha
  | cons r rs ih =>
    obtain ⟨hfirst, hrest⟩ := List.pairwise_cons.mp hapart
    rcases List.mem_cons.mp ha with rfl | hars <;> rcases List.mem_cons.mp hb with rfl | hbrs
    · exact ⟨rfl, rfl⟩
    · exact absurd hbi.1 (Nat.not_le.mpr (hai.2.trans_le (hfirst b hbrs)))
    · exact absurd hai.1 (Nat.not_le.mpr (hbi.2.trans_le (hfirst a hars)))
    · exact ih hrest hars hbrs

theorem settles_congr {all' : List α} (h : ∀ a, a ∈ all ↔ a ∈ all') :
    Settles start stop all rows ↔ Settles start stop all' rows := by
  constructor
  · exact fun ⟨hsubset, hapart, hwhole, hlonger⟩ => ⟨fun r hr => (h r).mp (hsubset r hr), hapart,
      fun a ha => hwhole a ((h a).mpr ha),
      fun a ha b hb => hlonger a ((h a).mpr ha) b ((h b).mpr hb)⟩
  · exact fun ⟨hsubset, hapart, hwhole, hlonger⟩ => ⟨fun r hr => (h r).mpr (hsubset r hr), hapart,
      fun a ha => hwhole a ((h a).mp ha),
      fun a ha b hb => hlonger a ((h a).mp ha) b ((h b).mp hb)⟩

/-- What makes up the whole is taken: nothing taken before it can reach into it. -/
theorem exists_select_of_mem_rows (hsorted : all.Pairwise (Before start stop))
    (hvalid : ∀ a ∈ all, start a ≤ stop a) (hrows : Settles start stop all rows) {r : α}
    (hr : r ∈ rows) (hne : start r < stop r) :
    ∃ s ∈ select start stop 0 all, SameSpan start stop s r := by
  induction hn : start r using Nat.strongRecOn generalizing r with
  | ind n ih =>
  subst hn
  rcases mem_select_or 0 hsorted (hrows.subset r hr) with h | h | ⟨s, hs, hbefore, hlt⟩
  · exact ⟨r, h, rfl, rfl⟩
  · exact absurd h (Nat.not_lt_zero _)
  have hs_all : s ∈ all := select_sublist.subset hs
  rcases hbefore with hstart | ⟨hstart, hstop⟩
  · -- the row that covers where `s` begins is taken, so that it is `s`, and it reaches into `r`
    have hs_ne : start s < stop s := hstart.trans hlt
    obtain ⟨t, ht, hcovers⟩ := hrows.whole s hs_all (start s) ⟨Nat.le_refl _, hs_ne⟩
    obtain ⟨s', hs', hspan⟩ := ih (start t) (hcovers.1.trans_lt hstart) ht
      (hcovers.1.trans_lt hcovers.2) rfl
    have hsame : SameSpan start stop s' s := by
      refine sameSpan_of_covers (select_apart hvalid) hs' hs (i := start s) ?_
        ⟨Nat.le_refl _, hs_ne⟩
      exact ⟨hspan.1.trans_le hcovers.1, hcovers.2.trans_eq hspan.2.symm⟩
    have htr : SameSpan start stop t r := by
      refine sameSpan_of_covers hrows.apart ht hr (i := start r)
        ⟨hcovers.1.trans hstart.le, ?_⟩ ⟨Nat.le_refl _, hne⟩
      rw [← hspan.2, hsame.2]
      exact hlt
    exact absurd htr.1 (hcovers.1.trans_lt hstart).ne
  · rcases hstop.eq_or_lt with hstop | hstop
    · exact ⟨s, hs, hstart, hstop.symm⟩
    -- a longer one from the same place would be a row itself
    have hoverlap : Overlap start stop s r :=
      ⟨start r, ⟨hstart.le, hlt⟩, Nat.le_refl _, hne⟩
    have hshorter : Shorter start stop r s := by
      unfold Shorter
      omega
    obtain ⟨t, ht, hspan⟩ := hrows.longer s hs_all r (hrows.subset r hr) hoverlap hshorter
    have htr : SameSpan start stop t r := by
      refine sameSpan_of_covers hrows.apart ht hr (i := start r) ?_ ⟨Nat.le_refl _, hne⟩
      exact ⟨(hspan.1.trans hstart).le, hlt.trans_eq hspan.2.symm⟩
    exact ⟨s, hs, hstart, hspan.2.symm.trans htr.2⟩

/-- What is taken settles the intervals exactly if some of them do. -/
theorem settles_select_iff (hsorted : all.Pairwise (Before start stop))
    (hvalid : ∀ a ∈ all, start a ≤ stop a) :
    Settles start stop all (select start stop 0 all) ↔ ∃ rows, Settles start stop all rows := by
  refine ⟨fun h => ⟨_, h⟩, fun ⟨rows, hrows⟩ => ?_⟩
  refine ⟨fun r hr => select_sublist.subset hr, select_apart hvalid, fun a ha i hi => ?_,
    fun a ha b hb hoverlap hshorter => ?_⟩
  · obtain ⟨r, hr, hcovers⟩ := hrows.whole a ha i hi
    obtain ⟨s, hs, hspan⟩ := exists_select_of_mem_rows hsorted hvalid hrows hr
      (hcovers.1.trans_lt hcovers.2)
    exact ⟨s, hs, hspan.1.trans_le hcovers.1, hcovers.2.trans_eq hspan.2.symm⟩
  · obtain ⟨r, hr, hspan⟩ := hrows.longer a ha b hb hoverlap hshorter
    have hne : start r < stop r := by
      obtain ⟨i, hai, -⟩ := hoverlap
      exact (hspan.1.trans_le hai.1).trans_lt (hai.2.trans_eq hspan.2.symm)
    obtain ⟨s, hs, hspan'⟩ := exists_select_of_mem_rows hsorted hvalid hrows hr hne
    exact ⟨s, hs, hspan'.1.trans hspan.1, hspan'.2.trans hspan.2⟩

end Select

end Greedy
