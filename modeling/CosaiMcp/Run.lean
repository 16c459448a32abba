import Mathlib.Data.List.Basic
import Mathlib.Data.List.Induction

/-!
# Runs of state machines

Two kinds of machine. A *total* machine answers every input (`trace` pairs each input with its
answer, `final` is the state left behind). A *partial* machine has steps that are enabled only in
some states; its runs are the interleavings of whatever its events stand for (`exec`). For each
kind: how runs compose, and the rule that carries an invariant from one step to a whole run, for
the partial machine also under a condition on every step of the run (`Along`).
-/

namespace Run

universe u v w

/-! ## Total machines -/

section Total

variable {σ : Type u} {ι : Type v} {ο : Type w} (step : σ → ι → ο × σ)

/-- Each input with the answer it gets. -/
def trace : σ → List ι → List (ι × ο)
  | _, [] => []
  | s, i :: is => (i, (step s i).1) :: trace (step s i).2 is

def final (s : σ) (is : List ι) : σ := is.foldl (fun s i => (step s i).2) s

@[simp] theorem trace_nil (s : σ) : trace step s [] = [] := rfl

@[simp] theorem final_nil (s : σ) : final step s [] = s := rfl

theorem trace_cons (s : σ) (i : ι) (is : List ι) :
    trace step s (i :: is) = (i, (step s i).1) :: trace step (step s i).2 is := rfl

theorem final_cons (s : σ) (i : ι) (is : List ι) :
    final step s (i :: is) = final step (step s i).2 is := rfl

@[simp] theorem final_concat (s : σ) (is : List ι) (i : ι) :
    final step s (is ++ [i]) = (step (final step s is) i).2 := by
  simp [final]

@[simp] theorem trace_concat (s : σ) (is : List ι) (i : ι) :
    trace step s (is ++ [i]) = trace step s is ++ [(i, (step (final step s is) i).1)] := by
  induction is generalizing s with
  | nil => rfl
  | cons j is ih => rw [List.cons_append, trace_cons, ih, trace_cons, final_cons, List.cons_append]

/-- Every step of the run satisfies the condition `C` on the state before it and the input. -/
def Throughout (C : σ → ι → Prop) : σ → List ι → Prop
  | _, [] => True
  | s, i :: is => C s i ∧ Throughout C (step s i).2 is

/-- Every entry of a trace is the answer to an input of the run, by a state that an invariant of the
steps holds of. -/
theorem mem_trace_of_invariant {I : σ → Prop} (hstep : ∀ s i, I s → I (step s i).2)
    {s : σ} (hs : I s) {is : List ι} {i : ι} {o : ο} (h : (i, o) ∈ trace step s is) :
    i ∈ is ∧ ∃ s', I s' ∧ o = (step s' i).1 := by
  induction is generalizing s with
  | nil => cases h
  | cons j is ih =>
    rcases List.mem_cons.mp h with h | h
    · cases h; exact ⟨List.mem_cons_self, s, hs, rfl⟩
    · obtain ⟨hmem, hanswer⟩ := ih (hstep s j hs) h
      exact ⟨List.mem_cons_of_mem j hmem, hanswer⟩

/-- Every entry of a trace is the answer of some state to an input of the run. -/
theorem mem_trace {s : σ} {is : List ι} {i : ι} {o : ο} (h : (i, o) ∈ trace step s is) :
    i ∈ is ∧ ∃ s', o = (step s' i).1 := by
  obtain ⟨hmem, s', -, hanswer⟩ :=
    mem_trace_of_invariant step (I := fun _ => True) (fun _ _ _ => trivial) trivial h
  exact ⟨hmem, s', hanswer⟩

theorem exists_mem_trace (s : σ) {is : List ι} {i : ι} (h : i ∈ is) :
    ∃ o, (i, o) ∈ trace step s is := by
  induction is generalizing s with
  | nil => cases h
  | cons j is ih =>
    rcases List.mem_cons.mp h with rfl | h
    · exact ⟨_, List.mem_cons_self⟩
    · obtain ⟨o, ho⟩ := ih (step s j).2 h
      exact ⟨o, List.mem_cons_of_mem _ ho⟩

/-- A property of the inputs so far, their answers and the state, kept by every step, holds after
every run whose inputs are admissible. `Ok` looks at all inputs up to and including the new one. -/
theorem history {P : List ι → List (ι × ο) → σ → Prop} (Ok : List ι → Prop) {s₀ : σ}
    (hpre : ∀ is i, Ok (is ++ [i]) → Ok is) (hnil : P [] [] s₀)
    (hstep : ∀ is t s i, P is t s → Ok (is ++ [i]) →
      P (is ++ [i]) (t ++ [(i, (step s i).1)]) (step s i).2) :
    ∀ is, Ok is → P is (trace step s₀ is) (final step s₀ is) := by
  intro is
  induction is using List.reverseRecOn with
  | nil => intro _; exact hnil
  | append_singleton is i ih =>
    intro hok
    rw [trace_concat, final_concat]
    exact hstep is _ _ i (ih (hpre is i hok)) hok

end Total

/-! ## Partial machines -/

section Partial

variable {σ : Type u} {ε : Type v} (step : σ → ε → Option σ)

/-- The state after the events `es`, if every one of them is enabled when it comes. -/
def exec (s : σ) (es : List ε) : Option σ := es.foldlM step s

/-- Every step of the run satisfies the condition `C` on the state before it and the event. -/
def Along (C : σ → ε → Prop) : σ → List ε → Prop
  | _, [] => True
  | s, e :: es => C s e ∧ ∀ s', step s e = some s' → Along C s' es

@[simp] theorem exec_nil (s : σ) : exec step s [] = some s := rfl

theorem exec_cons (s : σ) (e : ε) (es : List ε) :
    exec step s (e :: es) = (step s e).bind fun s' => exec step s' es := rfl

theorem exec_append (s : σ) (es es' : List ε) :
    exec step s (es ++ es') = (exec step s es).bind fun s' => exec step s' es' :=
  List.foldlM_append

/-- Whether a given run is along `C` can be computed. -/
instance decidableAlong {C : σ → ε → Prop} [∀ s e, Decidable (C s e)] :
    ∀ (s : σ) (es : List ε), Decidable (Along step C s es)
  | _, [] => isTrue trivial
  | s, e :: es =>
    match h : step s e with
    | none => decidable_of_iff (C s e) ⟨fun hC => ⟨hC, fun _ hs => by cases h ▸ hs⟩, fun hC => hC.1⟩
    | some s' =>
      have : Decidable (Along step C s' es) := decidableAlong s' es
      decidable_of_iff (C s e ∧ Along step C s' es)
        ⟨fun hC => ⟨hC.1, fun _ hs => by cases h ▸ hs; exact hC.2⟩, fun hC => ⟨hC.1, hC.2 s' h⟩⟩

variable {step}

/-- An invariant of the steps that satisfy `C` holds after every run along `C`. -/
theorem exec_invariant_along {Inv : σ → Prop} {C : σ → ε → Prop}
    (hstep : ∀ s e s', Inv s → C s e → step s e = some s' → Inv s') :
    ∀ {es : List ε} {s s' : σ}, Inv s → Along step C s es → exec step s es = some s' → Inv s'
  | [], s, s', hs, _, h => by cases h; exact hs
  | e :: es, s, s', hs, hC, h => by
    rw [exec_cons] at h
    obtain ⟨s₁, hs₁, h⟩ := Option.bind_eq_some_iff.mp h
    exact exec_invariant_along hstep (hstep s e s₁ hs hC.1 hs₁) (hC.2 s₁ hs₁) h

theorem along_true (s : σ) (es : List ε) : Along step (fun _ _ => True) s es := by
  induction es generalizing s with
  | nil => trivial
  | cons e es ih => exact ⟨trivial, fun s' _ => ih s'⟩

theorem along_concat {C : σ → ε → Prop} {s s' : σ} {es : List ε} {e : ε}
    (h : exec step s es = some s') :
    Along step C s (es ++ [e]) ↔ Along step C s es ∧ C s' e := by
  induction es generalizing s with
  | nil =>
    cases h
    exact ⟨fun h => ⟨trivial, h.1⟩, fun h => ⟨h.2, fun _ _ => trivial⟩⟩
  | cons e' es ih =>
    rw [exec_cons] at h
    obtain ⟨s₁, hs₁, h⟩ := Option.bind_eq_some_iff.mp h
    have hrest : ∀ es : List ε,
        (∀ s₂, step s e' = some s₂ → Along step C s₂ es) ↔ Along step C s₁ es := fun es =>
      ⟨fun hall => hall s₁ hs₁, fun hs s₂ hs₂ => Option.some.inj (hs₁.symm.trans hs₂) ▸ hs⟩
    rw [List.cons_append, Along, Along, hrest, hrest, ih h, and_assoc]

/-- An invariant of every step holds after every run. -/
theorem exec_invariant {Inv : σ → Prop}
    (hstep : ∀ s e s', Inv s → step s e = some s' → Inv s')
    {es : List ε} {s s' : σ} (hs : Inv s) (h : exec step s es = some s') : Inv s' :=
  exec_invariant_along (fun s e s' hi _ => hstep s e s' hi) hs (along_true s es) h

variable (step) in
/-- A property of the events so far and the state, kept by every enabled step, holds after every
run whose events are admissible. `Ok` looks at all events up to and including the new one. -/
theorem exec_history {P : List ε → σ → Prop} (Ok : List ε → Prop) {s₀ : σ}
    (hpre : ∀ es e, Ok (es ++ [e]) → Ok es) (hnil : P [] s₀)
    (hstep : ∀ es e s s', P es s → Ok (es ++ [e]) → step s e = some s' → P (es ++ [e]) s') :
    ∀ es s, Ok es → exec step s₀ es = some s → P es s := by
  intro es
  induction es using List.reverseRecOn with
  | nil => intro s _ h; cases h; exact hnil
  | append_singleton es e ih =>
    intro s hok h
    rw [exec_append] at h
    obtain ⟨s₁, hs₁, h⟩ := Option.bind_eq_some_iff.mp h
    rw [exec_cons] at h
    obtain ⟨s₂, hs₂, h⟩ := Option.bind_eq_some_iff.mp h
    cases h
    exact hstep es e s₁ s (ih s₁ (hpre es e hok) hs₁) hok hs₂

end Partial

end Run
