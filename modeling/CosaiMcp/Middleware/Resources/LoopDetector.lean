import CosaiMcp.Chain
import CosaiMcp.Py.Dict
import CosaiMcp.Py.Str
import CosaiMcp.Run

/-!
# The loop detector

`LoopDetector` records the parent of each call and counts the ids on the chain of parents of a new
one. The walk along the chain stops at a parent it has left before. A call that is its own parent has
not been left when the walk comes to it for the second time, so it counts twice: the count is right
exactly if the chain has no such call (`depth_exact_iff`).
-/

namespace CosaiMcp.Middleware.Resources

open Py

/-! ## The detector -/

/-- `self._parents.get(current)`: an id without a record has no parent. -/
def parentOf (parents : Dict Str (Option Str)) (current : Str) : Option Str :=
  (parents.get? current).join

theorem mem_keys_of_parentOf {parents : Dict Str (Option Str)} {current parent : Str}
    (h : parentOf parents current = some parent) : current ∈ parents.keys :=
  Dict.mem_keys_of_get? (Option.join_eq_some_iff.mp h)

/-- The number of ids with a record that the walk has not left yet. -/
def unseen (parents : Dict Str (Option Str)) (seen : List Str) : Nat :=
  (parents.keys.filter (· ∉ seen)).length

theorem unseen_insert_lt {parents : Dict Str (Option Str)} {seen : List Str} {current : Str}
    (hkey : current ∈ parents.keys) (hseen : current ∉ seen) :
    unseen parents (seen.insert current) < unseen parents seen := by
  have hsplit : parents.keys.filter (· ∉ seen.insert current) =
      (parents.keys.filter (· ∉ seen)).filter (· ≠ current) := by
    rw [List.filter_filter]
    refine List.filter_congr fun id _ => ?_
    simp [List.mem_insert_iff, not_or]
  rw [unseen, unseen, hsplit]
  refine List.length_filter_lt_length_iff_exists.mpr ⟨current, ?_, by simp⟩
  exact List.mem_filter.mpr ⟨hkey, decide_eq_true hseen⟩

/-- The loop of `_compute_depth`. An id is left for good, but one that is its own parent is left
twice. -/
def computeDepthFrom (parents : Dict Str (Option Str)) (current : Str) (seen : List Str)
    (depth : Nat) : Nat :=
  match h : parentOf parents current with
  | none => depth
  | some parent =>
    if hseen : parent ∈ seen then depth
    else computeDepthFrom parents parent (seen.insert current) (depth + 1)
termination_by (unseen parents seen, if current ∈ seen then 1 else 0)
decreasing_by
  by_cases hcurrent : current ∈ seen
  · rw [List.insert_of_mem hcurrent, if_pos hcurrent, if_neg hseen]
    exact Prod.Lex.right _ Nat.zero_lt_one
  · exact Prod.Lex.left _ _ (unseen_insert_lt (mem_keys_of_parentOf h) hcurrent)

/-- `_compute_depth`. -/
def computeDepth (parents : Dict Str (Option Str)) (entryId : Str) : Nat :=
  computeDepthFrom parents entryId [] 1

structure LoopDetector where
  maxDepth : Int
  parents : Dict Str (Option Str)

/-- What its message says. -/
structure RecursiveLoopError where
  depth : Nat
  maxDepth : Int
  entryId : Str
  parentId : Option Str

structure Call where
  entryId : Str
  parentId : Option Str

def LoopDetector.new (maxDepth : Int) : LoopDetector := ⟨maxDepth, Dict.empty⟩

/-- `record_call`. The record stays where it raises. -/
def LoopDetector.recordCall (d : LoopDetector) (call : Call) :
    Except RecursiveLoopError Nat × LoopDetector :=
  let parents := d.parents.set call.entryId call.parentId
  let depth := computeDepth parents call.entryId
  (if d.maxDepth < depth then .error ⟨depth, d.maxDepth, call.entryId, call.parentId⟩
    else .ok depth, { d with parents })

/-! ## The depth -/

theorem computeDepthFrom_of_none {parents : Dict Str (Option Str)} {current : Str}
    {seen : List Str} {depth : Nat} (h : parentOf parents current = none) :
    computeDepthFrom parents current seen depth = depth := by
  rw [computeDepthFrom]
  split
  · rfl
  · next h' => cases h.symm.trans h'

theorem computeDepthFrom_of_some {parents : Dict Str (Option Str)} {current parent : Str}
    {seen : List Str} {depth : Nat} (h : parentOf parents current = some parent) :
    computeDepthFrom parents current seen depth =
      if parent ∈ seen then depth
      else computeDepthFrom parents parent (seen.insert current) (depth + 1) := by
  rw [computeDepthFrom]
  split
  · next h' => cases h.symm.trans h'
  · next h' =>
    cases h.symm.trans h'
    split <;> rfl

/-- An id of the chain that starts at the entry is recorded as its own parent. -/
def OwnParentOn (parent : Str → Option Str) (entryId : Str) : Prop :=
  ∃ id ∈ Chain.points parent entryId, parent id = some id

/-- From the state of its loop the walk counts the ids of the whole chain, and one more if the
chain ends with an id that is its own parent. -/
theorem computeDepthFrom_eq {parents : Dict Str (Option Str)} {entryId current : Str}
    {seen : List Str} (h : Chain.Walked (parentOf parents) entryId seen current) :
    (¬ OwnParentOn (parentOf parents) entryId →
      computeDepthFrom parents current seen (seen.length + 1) =
        (Chain.points (parentOf parents) entryId).ncard) ∧
    (OwnParentOn (parentOf parents) entryId →
      computeDepthFrom parents current seen (seen.length + 1) =
        (Chain.points (parentOf parents) entryId).ncard + 1) := by
  have hcurrent : current ∉ seen := (List.nodup_cons.mp h.nodup).1
  cases hparent : parentOf parents current with
  | none =>
    have hstop : ∀ p, parentOf parents current = some p → p ∈ current :: seen := by
      rw [hparent]
      exact nofun
    rw [OwnParentOn, h.exists_self_iff hstop, h.ncard_points hstop, computeDepthFrom_of_none hparent,
      hparent]
    exact ⟨fun _ => rfl, nofun⟩
  | some parent =>
    by_cases hnew : parent ∈ current :: seen
    · have hstop : ∀ p, parentOf parents current = some p → p ∈ current :: seen := by
        intro p hp
        cases hparent.symm.trans hp
        exact hnew
      rw [OwnParentOn, h.exists_self_iff hstop, h.ncard_points hstop,
        computeDepthFrom_of_some hparent, hparent, Option.some.injEq]
      rcases List.mem_cons.mp hnew with rfl | hseen
      · -- its own parent, which the walk has not left
        rw [if_neg hcurrent, computeDepthFrom_of_some hparent,
          if_pos (List.mem_insert_self)]
        exact ⟨fun hne => absurd rfl hne, fun _ => rfl⟩
      · rw [if_pos hseen]
        exact ⟨fun _ => rfl, fun heq => absurd (heq ▸ hseen) hcurrent⟩
    · rw [computeDepthFrom_of_some hparent,
        if_neg fun hseen => hnew (List.mem_cons_of_mem current hseen),
        List.insert_of_not_mem hcurrent]
      exact computeDepthFrom_eq (h.step hparent hnew)
termination_by unseen parents seen
decreasing_by
  have hlt := unseen_insert_lt (mem_keys_of_parentOf hparent) hcurrent
  rwa [List.insert_of_not_mem hcurrent] at hlt

theorem computeDepth_of_no_own {parents : Dict Str (Option Str)} {entryId : Str}
    (h : ¬ OwnParentOn (parentOf parents) entryId) :
    computeDepth parents entryId = (Chain.points (parentOf parents) entryId).ncard :=
  (computeDepthFrom_eq (Chain.Walked.start entryId)).1 h

theorem computeDepth_of_own {parents : Dict Str (Option Str)} {entryId : Str}
    (h : OwnParentOn (parentOf parents) entryId) :
    computeDepth parents entryId = (Chain.points (parentOf parents) entryId).ncard + 1 :=
  (computeDepthFrom_eq (Chain.Walked.start entryId)).2 h

/-! ## Sequences of calls -/

/-- The parent that the last call with the id has given. -/
def recordedParent (calls : List Call) (id : Str) : Option Str :=
  (calls.reverse.find? (·.entryId = id)).bind (·.parentId)

theorem recordedParent_concat (calls : List Call) (call : Call) (id : Str) :
    recordedParent (calls ++ [call]) id =
      if call.entryId = id then call.parentId else recordedParent calls id := by
  unfold recordedParent
  rw [List.reverse_append, List.reverse_singleton, List.singleton_append]
  split
  · next h =>
    have hfind : (call :: calls.reverse).find? (·.entryId = id) = some call :=
      List.find?_cons_of_pos (decide_eq_true h)
    rw [hfind, Option.bind_some]
  · next h =>
    have hfind : (call :: calls.reverse).find? (·.entryId = id) =
        calls.reverse.find? (·.entryId = id) :=
      List.find?_cons_of_neg (by simpa using h)
    rw [hfind]

/-- The detector after a sequence of calls. -/
abbrev LoopDetector.after (maxDepth : Int) (calls : List Call) : LoopDetector :=
  Run.final LoopDetector.recordCall (LoopDetector.new maxDepth) calls

theorem LoopDetector.maxDepth_after (maxDepth : Int) (calls : List Call) :
    (LoopDetector.after maxDepth calls).maxDepth = maxDepth := by
  induction calls using List.reverseRecOn with
  | nil => rfl
  | append_singleton calls call ih =>
    rw [LoopDetector.after, Run.final_concat]
    exact ih

/-- The detector holds the parent of each id that its last call has given. -/
theorem LoopDetector.parentOf_after (maxDepth : Int) (calls : List Call) :
    parentOf (LoopDetector.after maxDepth calls).parents = recordedParent calls := by
  induction calls using List.reverseRecOn with
  | nil => rfl
  | append_singleton calls call ih =>
    funext id
    rw [recordedParent_concat, ← ih, LoopDetector.after, Run.final_concat]
    show (Dict.get? (Dict.set _ _ _) id).join = _
    rw [Dict.get?_set]
    by_cases hid : call.entryId = id
    · rw [if_pos hid, if_pos hid.symm, Option.join_some]
    · rw [if_neg hid, if_neg (Ne.symm hid)]
      rfl

/-- The number of distinct ids on the chain of parents of the entry. -/
noncomputable def chainLength (calls : List Call) (entryId : Str) : Nat :=
  (Chain.points (recordedParent calls) entryId).ncard

/-- After the calls, the depth of the last one is the length of its chain, and it raises exactly if
that exceeds the limit. -/
def DepthExact (maxDepth : Int) (calls : List Call) (call : Call) : Prop :=
  computeDepth (LoopDetector.after maxDepth (calls ++ [call])).parents call.entryId =
      chainLength (calls ++ [call]) call.entryId ∧
    ((∃ e, ((LoopDetector.after maxDepth calls).recordCall call).1 = .error e) ↔
      maxDepth < chainLength (calls ++ [call]) call.entryId)

/-- A call raises exactly if the depth that is computed for it exceeds the limit. -/
theorem LoopDetector.raises_iff (maxDepth : Int) (calls : List Call) (call : Call) :
    (∃ e, ((LoopDetector.after maxDepth calls).recordCall call).1 = .error e) ↔
      maxDepth <
        computeDepth (LoopDetector.after maxDepth (calls ++ [call])).parents call.entryId := by
  have hafter : LoopDetector.after maxDepth (calls ++ [call]) =
      ((LoopDetector.after maxDepth calls).recordCall call).2 := Run.final_concat _ _ _ _
  rw [hafter]
  unfold LoopDetector.recordCall
  dsimp only
  rw [LoopDetector.maxDepth_after]
  split
  · next h => exact ⟨fun _ => h, fun _ => ⟨_, rfl⟩⟩
  · next h => exact ⟨nofun, fun hlt => absurd hlt h⟩

/-- In every sequence of calls a depth is exact just where the chain does not come to a call that is
recorded as its own parent. -/
theorem depth_exact_iff (maxDepth : Int) (calls : List Call) (call : Call) :
    DepthExact maxDepth calls call ↔
      ¬ OwnParentOn (recordedParent (calls ++ [call])) call.entryId := by
  have hparent := LoopDetector.parentOf_after maxDepth (calls ++ [call])
  rw [DepthExact, LoopDetector.raises_iff, chainLength, ← hparent]
  constructor
  · rintro ⟨hdepth, -⟩ hown
    rw [computeDepth_of_own hown] at hdepth
    omega
  · intro hown
    rw [computeDepth_of_no_own hown]
    exact ⟨rfl, Iff.rfl⟩

/-- A call that gives its own id as its parent. -/
def selfCall : Call := ⟨lit "a", some (lit "a")⟩

/-- Its chain is the one id, and it counts as two. -/
theorem selfCall_deeper : ¬ DepthExact 1 [] selfCall := by
  have hparent := LoopDetector.parentOf_after 1 [selfCall]
  have hself : recordedParent [selfCall] (lit "a") = some (lit "a") := by decide
  have hown : OwnParentOn (recordedParent [selfCall]) (lit "a") :=
    ⟨lit "a", Relation.ReflTransGen.refl, hself⟩
  rintro ⟨hdepth, -⟩
  rw [← hparent] at hown
  have hdeeper := computeDepth_of_own hown
  rw [hparent] at hdeeper
  have := hdeeper.symm.trans hdepth
  exact absurd this (Nat.succ_ne_self _)

end CosaiMcp.Middleware.Resources
