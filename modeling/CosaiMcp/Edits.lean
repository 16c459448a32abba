import Mathlib.Order.Bounds.Basic
import Mathlib.Order.MinMax
import Mathlib.Data.List.Basic
import Mathlib.Tactic.Common

/-!
# Edits of a list

How many insertions, deletions and substitutions it takes to turn a list into another. Edits in a
row come down to an alignment of the two lists (`isDistance_iff`), and the least cost of an
alignment is found by its first column (`IsDistance.cons`). A table of distances keeps, in a row,
those of one list to the ends of another (`Row`).
-/

namespace Edits

universe u

variable {α : Type u}

/-- One insertion, deletion or substitution. -/
inductive Edit : List α → List α → Prop
  | insert (s t : List α) (d : α) : Edit (s ++ t) (s ++ d :: t)
  | delete (s t : List α) (c : α) : Edit (s ++ c :: t) (s ++ t)
  | substitute (s t : List α) (c d : α) : Edit (s ++ c :: t) (s ++ d :: t)

/-- So many edits in a row turn the first list into the second. -/
inductive Turns : Nat → List α → List α → Prop
  | refl (a : List α) : Turns 0 a a
  | step {n : Nat} {a b c : List α} (h : Edit a b) (hs : Turns n b c) : Turns (n + 1) a c

/-- The least number of edits that turn `a` into `b`. -/
def IsDistance (a b : List α) (n : Nat) : Prop := IsLeast {m | Turns m a b} n

/-- The lists are written under each other with gaps; the cost is the number of columns with a gap
or with different elements. -/
inductive Aligned : Nat → List α → List α → Prop
  | nil : Aligned 0 [] []
  | insert {n : Nat} {a b : List α} (d : α) (h : Aligned n a b) : Aligned (n + 1) a (d :: b)
  | delete {n : Nat} {a b : List α} (c : α) (h : Aligned n a b) : Aligned (n + 1) (c :: a) b
  | keep {n : Nat} {a b : List α} (c : α) (h : Aligned n a b) : Aligned n (c :: a) (c :: b)
  | substitute {n : Nat} {a b : List α} (c d : α) (h : Aligned n a b) :
    Aligned (n + 1) (c :: a) (d :: b)

variable {a a' b : List α} {n : Nat}

/-! ## Edits in a row -/

theorem Edit.cons (c : α) (h : Edit a b) : Edit (c :: a) (c :: b) := by
  cases h with
  | insert s t d => exact .insert (c :: s) t d
  | delete s t e => exact .delete (c :: s) t e
  | substitute s t e d => exact .substitute (c :: s) t e d

theorem Turns.cons (c : α) (h : Turns n a b) : Turns n (c :: a) (c :: b) := by
  induction h with
  | refl a => exact .refl (c :: a)
  | step h _ ih => exact .step (h.cons c) ih

theorem Edit.reverse (h : Edit a b) : Edit a.reverse b.reverse := by
  cases h with
  | insert s t d => simpa using Edit.insert t.reverse s.reverse d
  | delete s t c => simpa using Edit.delete t.reverse s.reverse c
  | substitute s t c d => simpa using Edit.substitute t.reverse s.reverse c d

theorem Turns.reverse (h : Turns n a b) : Turns n a.reverse b.reverse := by
  induction h with
  | refl a => exact .refl a.reverse
  | step h _ ih => exact .step h.reverse ih

theorem turns_reverse_iff : Turns n a.reverse b.reverse ↔ Turns n a b :=
  ⟨fun h => by simpa using h.reverse, Turns.reverse⟩

/-! ## Alignments -/

theorem Aligned.refl (a : List α) : Aligned 0 a a := by
  induction a with
  | nil => exact .nil
  | cons c a ih => exact .keep c ih

/-- The columns of an alignment that cost something are edits. -/
theorem Aligned.turns (h : Aligned n a b) : Turns n a b := by
  induction h with
  | nil => exact .refl []
  | @insert _ a _ d _ ih => exact .step (.insert [] a d) (ih.cons d)
  | @delete _ a _ c _ ih => exact .step (.delete [] a c) ih
  | keep c _ ih => exact ih.cons c
  | @substitute _ a _ c d _ ih => exact .step (.substitute [] a c d) (ih.cons d)

/-- An alignment of `a'` is one of `a` at a cost of at most one more. -/
def Near (a a' : List α) : Prop := ∀ n b, Aligned n a' b → ∃ m ≤ n + 1, Aligned m a b

theorem Near.cons (c : α) (h : Near a a') : ∀ n b, Aligned n (c :: a') b →
    ∃ m ≤ n + 1, Aligned m (c :: a) b
  | _, _, .insert d hb => by
    obtain ⟨m, hm, hal⟩ := Near.cons c h _ _ hb
    exact ⟨m + 1, Nat.succ_le_succ hm, .insert d hal⟩
  | _, _, .delete _ hb => by
    obtain ⟨m, hm, hal⟩ := h _ _ hb
    exact ⟨m + 1, Nat.succ_le_succ hm, .delete c hal⟩
  | _, _, .keep _ hb => by
    obtain ⟨m, hm, hal⟩ := h _ _ hb
    exact ⟨m, hm, .keep c hal⟩
  | _, _, .substitute _ d hb => by
    obtain ⟨m, hm, hal⟩ := h _ _ hb
    exact ⟨m + 1, Nat.succ_le_succ hm, .substitute c d hal⟩

theorem near_insert (a : List α) (d : α) : ∀ n b, Aligned n (d :: a) b →
    ∃ m ≤ n + 1, Aligned m a b
  | _, _, .insert e hb => by
    obtain ⟨m, hm, hal⟩ := near_insert a d _ _ hb
    exact ⟨m + 1, Nat.succ_le_succ hm, .insert e hal⟩
  | _, _, .delete (n := n) _ hb => ⟨n, by omega, hb⟩
  | _, _, .keep (n := n) _ hb => ⟨n + 1, le_rfl, .insert d hb⟩
  | _, _, .substitute (n := n) _ e hb => ⟨n + 1, by omega, .insert e hb⟩

theorem near_delete (a : List α) (c : α) : Near (c :: a) a := fun n _ hb =>
  ⟨n + 1, le_rfl, .delete c hb⟩

theorem near_substitute (a : List α) (c d : α) : ∀ n b, Aligned n (d :: a) b →
    ∃ m ≤ n + 1, Aligned m (c :: a) b
  | _, _, .insert e hb => by
    obtain ⟨m, hm, hal⟩ := near_substitute a c d _ _ hb
    exact ⟨m + 1, Nat.succ_le_succ hm, .insert e hal⟩
  | _, _, .delete (n := n) _ hb => ⟨n + 1, by omega, .delete c hb⟩
  | _, _, .keep (n := n) _ hb => ⟨n + 1, le_rfl, .substitute c d hb⟩
  | _, _, .substitute (n := n) _ e hb => ⟨n + 1, by omega, .substitute c e hb⟩

theorem near_append (h : Near a a') (s : List α) : Near (s ++ a) (s ++ a') := by
  induction s with
  | nil => exact h
  | cons c s ih => exact ih.cons c

theorem Edit.near (h : Edit a b) : Near a b := by
  cases h with
  | insert s t d => exact near_append (near_insert t d) s
  | delete s t c => exact near_append (near_delete t c) s
  | substitute s t c d => exact near_append (near_substitute t c d) s

/-- Edits in a row cost no less than some alignment. -/
theorem Turns.aligned (h : Turns n a b) : ∃ m ≤ n, Aligned m a b := by
  induction h with
  | refl a => exact ⟨0, le_rfl, .refl a⟩
  | step h _ ih =>
    obtain ⟨m, hm, hal⟩ := ih
    obtain ⟨k, hk, hal'⟩ := h.near m _ hal
    exact ⟨k, by omega, hal'⟩

/-! ## Distances -/

theorem isDistance_iff : IsDistance a b n ↔ IsLeast {m | Aligned m a b} n := by
  constructor
  · rintro ⟨hturns, hleast⟩
    obtain ⟨m, hm, hal⟩ := hturns.aligned
    obtain rfl : m = n := le_antisymm hm (hleast hal.turns)
    exact ⟨hal, fun k hk => hleast hk.turns⟩
  · rintro ⟨hal, hleast⟩
    refine ⟨hal.turns, fun k hk => ?_⟩
    obtain ⟨m, hm, hal'⟩ := Turns.aligned hk
    exact (hleast hal').trans hm

theorem isDistance_reverse_iff : IsDistance a.reverse b.reverse n ↔ IsDistance a b n := by
  simp only [IsDistance, turns_reverse_iff]

theorem IsDistance.unique {m : Nat} (h : IsDistance a b n) (h' : IsDistance a b m) : n = m :=
  IsLeast.unique h h'

theorem isDistance_zero_iff : IsDistance a b 0 ↔ a = b := by
  constructor
  · rintro ⟨hturns, -⟩
    cases hturns with
    | refl => rfl
  · rintro rfl
    exact ⟨.refl a, fun m _ => Nat.zero_le m⟩

theorem isDistance_nil_left (b : List α) : IsDistance [] b b.length := by
  refine isDistance_iff.mpr ⟨?_, fun m hm => ?_⟩
  · induction b with
    | nil => exact .nil
    | cons d b ih => exact .insert d ih
  · induction b generalizing m with
    | nil => exact Nat.zero_le m
    | cons d b ih =>
      cases hm with
      | insert _ h => exact Nat.succ_le_succ (ih _ h)

theorem isDistance_nil_right (a : List α) : IsDistance a [] a.length := by
  refine isDistance_iff.mpr ⟨?_, fun m hm => ?_⟩
  · induction a with
    | nil => exact .nil
    | cons c a ih => exact .delete c ih
  · induction a generalizing m with
    | nil => exact Nat.zero_le m
    | cons c a ih =>
      cases hm with
      | delete _ h => exact Nat.succ_le_succ (ih _ h)

/-- The first column of a best alignment is a deletion, an insertion, or has an element of each. -/
theorem IsDistance.cons [DecidableEq α] {c d : α} {above left diagonal : Nat}
    (habove : IsDistance a (d :: b) above) (hleft : IsDistance (c :: a) b left)
    (hdiagonal : IsDistance a b diagonal) :
    IsDistance (c :: a) (d :: b)
      (min (min (above + 1) (left + 1)) (diagonal + if c = d then 0 else 1)) := by
  rw [isDistance_iff] at habove hleft hdiagonal ⊢
  constructor
  · rcases min_choice (min (above + 1) (left + 1)) (diagonal + if c = d then 0 else 1) with h | h
    · rw [h]
      rcases min_choice (above + 1) (left + 1) with h | h
      · rw [h]
        exact .delete c habove.1
      · rw [h]
        exact .insert d hleft.1
    · rw [h]
      split
      · next heq =>
        subst heq
        exact .keep c hdiagonal.1
      · exact .substitute c d hdiagonal.1
  · intro m hm
    cases hm with
    | insert _ h =>
      have hle := hleft.2 h
      omega
    | delete _ h =>
      have hle := habove.2 h
      omega
    | keep _ h =>
      have hle := hdiagonal.2 h
      rw [if_pos rfl]
      omega
    | substitute _ _ h =>
      have hle := hdiagonal.2 h
      split <;> omega

/-! ## Tables -/

/-- A row of a table: the distances of `a` to `b`, and to the lists that come from it when the
elements of the last argument are put in front one after the other. -/
inductive Row (a : List α) : (b : List α) → List Nat → List α → Prop
  | last {b : List α} {n : Nat} (h : IsDistance a b n) : Row a b [n] []
  | more {b rest : List α} {n : Nat} {ns : List Nat} {d : α} (h : IsDistance a b n)
    (hs : Row a (d :: b) ns rest) : Row a b (n :: ns) (d :: rest)

namespace Row

variable {rest : List α} {ns : List Nat}

theorem head (h : Row a b (n :: ns) rest) : IsDistance a b n := by
  cases h with
  | last h => exact h
  | more h _ => exact h

/-- The first row counts the elements. -/
theorem nil (b rest : List α) : Row [] b (List.range' b.length (rest.length + 1)) rest := by
  induction rest generalizing b with
  | nil => exact .last (isDistance_nil_left b)
  | cons d rest ih => exact .more (isDistance_nil_left b) (ih (d :: b))

theorem getLastD (h : Row a b ns rest) (k : Nat) :
    IsDistance a (rest.reverse ++ b) (ns.getLastD k) := by
  induction h generalizing k with
  | last h => exact h
  | @more b rest n _ d h _ ih =>
    rw [List.reverse_cons, List.append_assoc, List.getLastD_cons]
    exact ih n

end Row

end Edits
