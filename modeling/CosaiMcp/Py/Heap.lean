import Mathlib.Data.List.Perm.Basic

/-!
# Binary heaps in a list

`heappush` and `heappop` of `heapq`, over any comparison: no law of `lt` is assumed, so what holds
is what they do to the entries as a multiset. A push adds one entry (`heappush_perm`), a pop takes
the first one out (`heappop_perm`). Each sift gets the bound of its loop as fuel.
-/

namespace Py

universe u

variable {α : Type u}

/-- Exchange the entries at `i` and `j`. -/
def swap (heap : List α) (i j : Nat) : List α :=
  match heap[i]?, heap[j]? with
  | some a, some b => (heap.set i b).set j a
  | _, _ => heap

variable (lt : α → α → Bool)

/-- `_siftdown(heap, 0, pos)`: the entry at `pos` moves towards the root. -/
def siftdown : Nat → List α → Nat → List α
  | 0, heap, _ => heap
  | fuel + 1, heap, pos =>
    if pos = 0 then heap
    else
      match heap[pos]?, heap[(pos - 1) / 2]? with
      | some new, some parent =>
        if lt new parent then siftdown fuel (swap heap ((pos - 1) / 2) pos) ((pos - 1) / 2)
        else heap
      | _, _ => heap

/-- The smaller child of `pos`, the right one if neither is smaller. -/
def smallerChild (heap : List α) (pos : Nat) : Nat :=
  match heap[2 * pos + 1]?, heap[2 * pos + 2]? with
  | some left, some right => if lt left right then 2 * pos + 1 else 2 * pos + 2
  | _, _ => 2 * pos + 1

/-- `_siftup(heap, pos)`: the entry at `pos` moves down to a leaf, then back up to its place. -/
def siftup : Nat → List α → Nat → List α
  | 0, heap, pos => siftdown lt pos heap pos
  | fuel + 1, heap, pos =>
    if 2 * pos + 1 < heap.length then
      siftup fuel (swap heap pos (smallerChild lt heap pos)) (smallerChild lt heap pos)
    else siftdown lt pos heap pos

def heappush (heap : List α) (item : α) : List α :=
  siftdown lt heap.length (heap ++ [item]) heap.length

/-- The first entry, and the heap without it; `none` is `IndexError`. -/
def heappop : List α → Option (α × List α)
  | [] => none
  | first :: rest =>
    match rest.getLast? with
    | none => some (first, [])
    | some last => some (first, siftup lt rest.length (last :: rest.dropLast) 0)

theorem swap_perm (heap : List α) (i j : Nat) : (swap heap i j).Perm heap := by
  unfold swap
  split
  · rename_i a b ha hb
    obtain ⟨hi, rfl⟩ := List.getElem?_eq_some_iff.mp ha
    obtain ⟨hj, rfl⟩ := List.getElem?_eq_some_iff.mp hb
    exact List.set_set_perm hi hj
  · exact .refl _

theorem siftdown_perm (fuel : Nat) (heap : List α) (pos : Nat) :
    (siftdown lt fuel heap pos).Perm heap := by
  induction fuel generalizing heap pos with
  | zero => exact .refl _
  | succ fuel ih =>
    unfold siftdown
    split
    · exact .refl _
    · split
      · split
        · exact (ih _ _).trans (swap_perm _ _ _)
        · exact .refl _
      · exact .refl _

theorem siftup_perm (fuel : Nat) (heap : List α) (pos : Nat) :
    (siftup lt fuel heap pos).Perm heap := by
  induction fuel generalizing heap pos with
  | zero => exact siftdown_perm lt _ _ _
  | succ fuel ih =>
    unfold siftup
    split
    · exact (ih _ _).trans (swap_perm _ _ _)
    · exact siftdown_perm lt _ _ _

/-- A push adds one entry. -/
theorem heappush_perm (heap : List α) (item : α) : (heappush lt heap item).Perm (item :: heap) :=
  (siftdown_perm lt _ _ _).trans (List.perm_append_singleton item heap)

/-- A pop takes the first entry out. -/
theorem heappop_perm {heap rest : List α} {first : α} (h : heappop lt heap = some (first, rest)) :
    heap.head? = some first ∧ heap.Perm (first :: rest) := by
  cases heap with
  | nil => cases h
  | cons a heap =>
    rw [heappop] at h
    split at h
    · rename_i hlast
      obtain rfl := List.getLast?_eq_none_iff.mp hlast
      cases h
      exact ⟨rfl, .refl _⟩
    · rename_i last hlast
      cases h
      refine ⟨rfl, List.Perm.cons _ ?_⟩
      obtain ⟨init, rfl⟩ := List.getLast?_eq_some_iff.mp hlast
      rw [List.dropLast_concat]
      exact (List.perm_append_singleton last init).trans (siftup_perm lt _ _ _).symm

end Py
