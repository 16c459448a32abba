import CosaiMcp.Middleware.Auth.JtiCache
import CosaiMcp.Run

/-!
# The replay cache under concurrency

Any number of concurrent calls of `check_and_add`. A call takes two steps: it reads the monotonic
clock, and later runs the section under the lock, which still goes by that reading. Nothing orders
the steps of different calls. A sweep by a stale reading forgets less than one by the time at which
it is run, so that what is forgotten has expired (`concurrent_jtiCache`).
-/

namespace CosaiMcp.Middleware.Auth

open Py

/-- A call between its two steps. -/
structure CacheCall (φ : Type) where
  jti : Str
  now : φ

/-- A call that returned `True`: what it read, and when its section was run. -/
structure CacheEntered (φ : Type) where
  jti : Str
  now : φ
  time : φ

/-- The time of the last step, the cache, the calls under way by their number, and the calls that
returned `True`. -/
structure CacheServer (φ : Type) where
  clock : φ
  cache : JtiCache φ
  calls : Dict Nat (CacheCall φ)
  entered : List (CacheEntered φ)

inductive CacheEvent (φ : Type) where
  | read (id : Nat) (jti : Str) (time : φ)
  | lock (id : Nat) (time : φ)

namespace CacheServer

variable {φ : Type} [FloatArith φ]

def init (maxsize : Nat) (ttl start : φ) : CacheServer φ :=
  ⟨start, .new maxsize ttl, .empty, []⟩

/-- The section under the lock. -/
def lockStep (σ : CacheServer φ) (id : Nat) (time : φ) (q : CacheCall φ) : CacheServer φ :=
  match σ.cache.checkAndAdd q.now q.jti with
  | (false, cache) => { σ with clock := time, cache, calls := σ.calls.erase id }
  | (true, cache) =>
    { clock := time
      cache
      calls := σ.calls.erase id
      entered := σ.entered ++ [⟨q.jti, q.now, time⟩] }

/-- One step. Time does not go backwards, and a call's number must not be in use. -/
def step (σ : CacheServer φ) : CacheEvent φ → Option (CacheServer φ)
  | .read id jti time =>
    if id ∈ σ.calls.keys ∨ ¬σ.clock ≤ time then none
    else some { σ with clock := time, calls := σ.calls.set id ⟨jti, time⟩ }
  | .lock id time =>
    if ¬σ.clock ≤ time then none
    else (σ.calls.get? id).map (σ.lockStep id time)

/-! ## What a step does -/

section LockStep

variable {σ : CacheServer φ} {id : Nat} {time : φ} {q : CacheCall φ}

@[simp] theorem clock_lockStep : (σ.lockStep id time q).clock = time := by
  unfold lockStep
  split <;> rfl

@[simp] theorem calls_lockStep : (σ.lockStep id time q).calls = σ.calls.erase id := by
  unfold lockStep
  split <;> rfl

@[simp] theorem cache_lockStep :
    (σ.lockStep id time q).cache = (σ.cache.checkAndAdd q.now q.jti).2 := by
  unfold lockStep
  split <;> next h => rw [h]

theorem entered_lockStep : (σ.lockStep id time q).entered = σ.entered ++
    if (σ.cache.checkAndAdd q.now q.jti).1 then [⟨q.jti, q.now, time⟩] else [] := by
  unfold lockStep
  split
  · next h => rw [h]; exact (List.append_nil _).symm
  · next h => rw [h]; rfl

end LockStep

/-- A step reads the clock for a new call, or runs the section of a call under way. -/
theorem step_cases {σ σ' : CacheServer φ} {e : CacheEvent φ} (h : step σ e = some σ') :
    σ.clock ≤ σ'.clock ∧
      ((∃ id jti, σ' = { σ with clock := σ'.clock, calls := σ.calls.set id ⟨jti, σ'.clock⟩ }) ∨
        ∃ id q, σ.calls.get? id = some q ∧ σ' = σ.lockStep id σ'.clock q) := by
  cases e with
  | read id jti time =>
    rw [step] at h
    by_cases hen : id ∈ σ.calls.keys ∨ ¬σ.clock ≤ time
    · rw [if_pos hen] at h
      cases h
    · rw [if_neg hen] at h
      cases h
      exact ⟨not_not.mp (not_or.mp hen).2, Or.inl ⟨id, jti, rfl⟩⟩
  | lock id time =>
    rw [step] at h
    by_cases hen : ¬σ.clock ≤ time
    · rw [if_pos hen] at h
      cases h
    · rw [if_neg hen] at h
      obtain ⟨q, hq, rfl⟩ := Option.map_eq_some_iff.mp h
      rw [clock_lockStep]
      exact ⟨not_not.mp hen, Or.inr ⟨id, q, hq, rfl⟩⟩

/-! ## The invariant -/

/-- The expiry of the entry that a call stored. -/
def due (ttl : φ) (a : CacheEntered φ) : FloatOrNan φ := FloatArith.add a.now ttl

/-- A call went by a reading that is not later than now; what a call stored is there until it has
expired, and by then only may its key be accepted again. -/
structure Spaced (maxsize : Nat) (ttl : φ) (σ : CacheServer φ) : Prop where
  bounded : σ.cache.maxsize = maxsize
  lifetime : σ.cache.ttl = ttl
  size : σ.cache.cache.size ≤ maxsize
  clock : ∀ q ∈ σ.calls.values, q.now ≤ σ.clock
  stored : ∀ a ∈ σ.entered, (a.jti, due ttl a) ∈ σ.cache.cache.items ∨ (due ttl a).le σ.clock = true
  spaced : σ.entered.Pairwise fun a b => a.jti = b.jti → (due ttl a).le b.time = true

variable {maxsize : Nat} {ttl : φ}

theorem spaced_init (start : φ) : Spaced maxsize ttl (init maxsize ttl start) where
  bounded := rfl
  lifetime := rfl
  size := Nat.zero_le _
  clock := by intro q hq; cases hq
  stored := by intro a ha; cases ha
  spaced := .nil

theorem mem_ite_singleton {α : Type} {a b : α} {c : Bool} :
    a ∈ (if c then [b] else []) ↔ c = true ∧ a = b := by
  cases c
  · simp
  · simp

theorem le_of_le {x : FloatOrNan φ} {y z : φ} (h : x.le y = true) (hyz : y ≤ z) :
    x.le z = true := by
  cases x with
  | nan => cases h
  | real x => exact decide_eq_true ((of_decide_eq_true h : x ≤ y).trans hyz)

/-- An entry that has not expired by now is still there after the step. -/
theorem Spaced.keeps {σ σ' : CacheServer φ} {e : CacheEvent φ} (hσ : Spaced maxsize ttl σ)
    (h : step σ e = some σ') {entry : Str × FloatOrNan φ} (hentry : entry ∈ σ.cache.cache.items)
    (hlive : entry.2.le σ'.clock = false) : entry ∈ σ'.cache.cache.items := by
  obtain ⟨hclock, ⟨id, jti, hσ'⟩ | ⟨id, q, hq, hσ'⟩⟩ := step_cases h
  · rw [hσ']
    exact hentry
  · rw [hσ', cache_lockStep]
    apply JtiCache.mem_checkAndAdd_of_mem hentry
    -- the reading of the call is not later than now
    by_contra hexp
    have hread := (hσ.clock q (Dict.mem_values_of_get? hq)).trans hclock
    rw [le_of_le (Bool.not_eq_false _ ▸ hexp) hread] at hlive
    cases hlive

/-- The section of a call that goes by a reading that is not later than now. -/
theorem Spaced.lockStep {σ : CacheServer φ} {id : Nat} {time : φ} {q : CacheCall φ}
    (hσ : Spaced maxsize ttl σ) (hclock : σ.clock ≤ time) (hread : q.now ≤ time)
    (hstored : ∀ a ∈ σ.entered,
      (a.jti, due ttl a) ∈ (σ.lockStep id time q).cache.cache.items ∨ (due ttl a).le time = true) :
    Spaced maxsize ttl (σ.lockStep id time q) := by
  have hcalls : ∀ q' ∈ (σ.calls.erase id).values, q'.now ≤ time := fun q' hq' =>
    (hσ.clock q' (Dict.mem_values_of_erase hq')).trans hclock
  have hbound : σ.cache.cache.size ≤ σ.cache.maxsize := hσ.bounded.symm ▸ hσ.size
  have hsize : (σ.cache.checkAndAdd q.now q.jti).2.cache.size ≤ σ.cache.maxsize :=
    JtiCache.size_checkAndAdd hbound
  rw [hσ.bounded] at hsize
  rw [cache_lockStep] at hstored
  refine ⟨?_, ?_, ?_, ?_, ?_, ?_⟩
  · rw [cache_lockStep, JtiCache.maxsize_checkAndAdd, hσ.bounded]
  · rw [cache_lockStep, JtiCache.ttl_checkAndAdd, hσ.lifetime]
  · rwa [cache_lockStep]
  · rwa [calls_lockStep, clock_lockStep]
  · rw [cache_lockStep, clock_lockStep, entered_lockStep]
    intro a ha
    rcases List.mem_append.mp ha with ha | ha
    · exact hstored a ha
    · obtain ⟨hres, rfl⟩ := mem_ite_singleton.mp ha
      have hmem := JtiCache.mem_checkAndAdd_of_true hres
      rw [hσ.lifetime] at hmem
      exact Or.inl hmem
  · rw [entered_lockStep]
    refine List.pairwise_append.mpr ⟨hσ.spaced, ?_, fun a ha b hb hjti => ?_⟩
    · split
      · exact List.pairwise_singleton _ _
      · exact .nil
    · obtain ⟨hres, rfl⟩ := mem_ite_singleton.mp hb
      rcases hσ.stored a ha with hmem | hdue
      · -- were the entry not swept, the key would not be accepted
        by_contra hexp
        have hlive : (due ttl a).le q.now = false :=
          Bool.eq_false_iff.mpr fun h => hexp (le_of_le h hread)
        rw [hjti] at hmem
        rw [JtiCache.checkAndAdd_of_live hmem hlive] at hres
        cases hres
      · exact le_of_le hdue hclock

theorem Spaced.step {σ σ' : CacheServer φ} {e : CacheEvent φ} (hσ : Spaced maxsize ttl σ)
    (h : step σ e = some σ') : Spaced maxsize ttl σ' := by
  have hstored : ∀ a ∈ σ.entered, (a.jti, due ttl a) ∈ σ'.cache.cache.items ∨
      (due ttl a).le σ'.clock = true := by
    intro a ha
    by_cases hlive : (due ttl a).le σ'.clock = true
    · exact Or.inr hlive
    · rcases hσ.stored a ha with hmem | hdue
      · exact Or.inl (hσ.keeps h hmem (Bool.eq_false_iff.mpr hlive))
      · exact Or.inr (le_of_le hdue (step_cases h).1)
  obtain ⟨hclock, ⟨id, jti, hσ'⟩ | ⟨id, q, hq, hσ'⟩⟩ := step_cases h
  · rw [hσ'] at hstored ⊢
    refine ⟨hσ.bounded, hσ.lifetime, hσ.size, fun q hq => ?_, hstored, hσ.spaced⟩
    rcases Dict.mem_values_of_set hq with rfl | hq
    · exact le_refl _
    · exact (hσ.clock q hq).trans hclock
  · generalize σ'.clock = time at hσ' hclock hstored
    subst hσ'
    have hread : q.now ≤ time := (hσ.clock q (Dict.mem_values_of_get? hq)).trans hclock
    exact hσ.lockStep hclock hread hstored

/-- Over every run, a key is accepted again no earlier than the first call's reading plus the
lifetime; the cache never holds more than `maxsize` entries; and no step of the run takes away an
entry whose expiry is later than the time of that step. -/
theorem concurrent_jtiCache (maxsize : Nat) (ttl start : φ) (es : List (CacheEvent φ))
    (σ : CacheServer φ) (h : Run.exec step (init maxsize ttl start) es = some σ) :
    (σ.entered.Pairwise fun a b => a.jti = b.jti → (due ttl a).le b.time = true) ∧
      σ.cache.cache.size ≤ maxsize ∧
      ∀ e σ', step σ e = some σ' → ∀ entry ∈ σ.cache.cache.items,
        entry.2.le σ'.clock = false → entry ∈ σ'.cache.cache.items := by
  have hσ := Run.exec_invariant (fun _ _ _ hs hstep => Spaced.step hs hstep)
    (spaced_init start) h
  exact ⟨hσ.spaced, hσ.size, fun _ _ hstep _ hentry hlive => hσ.keeps hstep hentry hlive⟩

/-! ## A stale sweep -/

/-- Call 1 reads the clock before anything is stored, and runs its section when the entry of call 2
has expired: it does not forget the entry. Call 3 may reuse the key. -/
def staleSweep : List (CacheEvent WholeFloat) :=
  [.read 1 (lit "a") (.whole 0), .read 2 (lit "j") (.whole 1), .lock 2 (.whole 1),
    .lock 1 (.whole 12), .read 3 (lit "j") (.whole 12), .lock 3 (.whole 12)]

def runCalls (es : List (CacheEvent WholeFloat)) : Option (CacheServer WholeFloat) :=
  Run.exec step (init 2 (.whole 10) (.whole 0)) es

theorem isSome_runCalls_staleSweep : (runCalls staleSweep).isSome = true := by decide +kernel

theorem concurrent_jtiCache_staleSweep :
    (((runCalls staleSweep).get isSome_runCalls_staleSweep).entered.Pairwise fun a b =>
      a.jti = b.jti → (due (.whole 10) a).le b.time = true) ∧
      ((runCalls staleSweep).get isSome_runCalls_staleSweep).cache.cache.size ≤ 2 ∧
      ((runCalls staleSweep).get isSome_runCalls_staleSweep).entered.map CacheEntered.jti =
        [lit "j", lit "a", lit "j"] := by
  have hrun : Run.exec step (init 2 (.whole 10) (.whole 0)) staleSweep =
      some ((runCalls staleSweep).get isSome_runCalls_staleSweep) := (Option.some_get _).symm
  have h := concurrent_jtiCache 2 (.whole 10) (.whole 0) staleSweep _ hrun
  exact ⟨h.1, h.2.1, by decide +kernel⟩

end CacheServer

end CosaiMcp.Middleware.Auth
