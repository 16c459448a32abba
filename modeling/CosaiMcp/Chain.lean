import Mathlib.Data.Set.Card
import Mathlib.Logic.Relation

/-!
# Chains along a partial successor

From a point the successors form a chain, which ends somewhere or runs into a cycle. A walk along it
that remembers what it has seen comes to every point (`Walked`), and where it can only come back to
a point, or stops, it has seen the whole chain (`Walked.points_eq`).
-/

namespace Chain

universe u

variable {α : Type u} (next : α → Option α)

/-- The points of the chain from `a` on. -/
def points (a : α) : Set α := {b | Relation.ReflTransGen (fun x y => next x = some y) a b}

/-- A walk from `start` has come to `current`, by way of the distinct points that it has `seen`. -/
structure Walked (start : α) (seen : List α) (current : α) : Prop where
  nodup : (current :: seen).Nodup
  reached : ∀ x ∈ current :: seen, x ∈ points next start
  start_mem : start ∈ current :: seen
  linked : ∀ x ∈ seen, ∃ y ∈ current :: seen, next x = some y ∧ y ≠ x

variable {next}

theorem Walked.start (a : α) : Walked next a [] a where
  nodup := List.nodup_singleton a
  reached x hx := by
    cases List.mem_singleton.mp hx
    exact Relation.ReflTransGen.refl
  start_mem := List.mem_singleton_self a
  linked := nofun

/-- One step to a new point. -/
theorem Walked.step {a c p : α} {seen : List α} (h : Walked next a seen c) (hnext : next c = some p)
    (hp : p ∉ c :: seen) : Walked next a (c :: seen) p where
  nodup := List.nodup_cons.mpr ⟨hp, h.nodup⟩
  reached x hx := by
    rcases List.mem_cons.mp hx with rfl | hx
    · exact Relation.ReflTransGen.tail (h.reached c List.mem_cons_self) hnext
    · exact h.reached x hx
  start_mem := List.mem_cons_of_mem p h.start_mem
  linked x hx := by
    rcases List.mem_cons.mp hx with rfl | hx
    · exact ⟨p, List.mem_cons_self, hnext, fun heq => hp (heq ▸ List.mem_cons_self)⟩
    · obtain ⟨y, hy, hxy⟩ := h.linked x hx
      exact ⟨y, List.mem_cons_of_mem p hy, hxy⟩

/-- A walk that cannot come to a new point has seen the whole chain. -/
theorem Walked.points_eq {a c : α} {seen : List α} (h : Walked next a seen c)
    (hstop : ∀ p, next c = some p → p ∈ c :: seen) : points next a = {x | x ∈ c :: seen} := by
  apply Set.Subset.antisymm
  · intro b hb
    induction hb with
    | refl => exact h.start_mem
    | @tail x y _ hxy ih =>
      rcases List.mem_cons.mp ih with rfl | hx
      · exact hstop y hxy
      · obtain ⟨z, hz, hxz, -⟩ := h.linked x hx
        cases hxy.symm.trans hxz
        exact hz
  · exact h.reached

theorem Walked.ncard_points {a c : α} {seen : List α} (h : Walked next a seen c)
    (hstop : ∀ p, next c = some p → p ∈ c :: seen) :
    (points next a).ncard = seen.length + 1 := by
  classical
  have hset : {x | x ∈ c :: seen} = ((c :: seen).toFinset : Set α) := by
    ext x
    simp
  rw [h.points_eq hstop, hset, Set.ncard_coe_finset, List.toFinset_card_of_nodup h.nodup,
    List.length_cons]

/-- The only point of a whole walk that may follow itself is the last one. -/
theorem Walked.exists_self_iff {a c : α} {seen : List α} (h : Walked next a seen c)
    (hstop : ∀ p, next c = some p → p ∈ c :: seen) :
    (∃ x ∈ points next a, next x = some x) ↔ next c = some c := by
  rw [h.points_eq hstop]
  constructor
  · rintro ⟨x, hx, hself⟩
    rcases List.mem_cons.mp hx with rfl | hx
    · exact hself
    · obtain ⟨y, -, hxy, hne⟩ := h.linked x hx
      cases hself.symm.trans hxy
      exact absurd rfl hne
  · exact fun hself => ⟨c, List.mem_cons_self, hself⟩

end Chain
