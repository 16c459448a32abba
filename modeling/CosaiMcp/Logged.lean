import CosaiMcp.Py.Except

/-!
# Computations that act and may raise

A computation of `Logged ε κ` leaves a list of what it did, in order, and returns or raises. What it
did before it raised stays in the list. Two rules carry a fact through a composition: one for
everything that is done (`Each.bind`), one for the results (`result_bind_eq_ok_iff`, with `events_bind`
for what was done then).
-/

universe u v w

structure Logged (ε : Type u) (κ : Type v) (α : Type w) where
  result : Except ε α
  events : List κ

namespace Logged

variable {ε : Type u} {κ : Type v} {α β : Type w}

/-- To do one thing. -/
def act (k : κ) : Logged ε κ PUnit.{w + 1} := ⟨.ok ⟨⟩, [k]⟩

/-- To do nothing, and return or raise. -/
def lift (r : Except ε α) : Logged ε κ α := ⟨r, []⟩

def bind (x : Logged ε κ α) (f : α → Logged ε κ β) : Logged ε κ β :=
  match x.result with
  | .error e => ⟨.error e, x.events⟩
  | .ok a => ⟨(f a).result, x.events ++ (f a).events⟩

instance : Monad (Logged.{u, v, w} ε κ) where
  pure a := ⟨.ok a, []⟩
  bind := bind

@[simp] theorem result_pure (a : α) : (pure a : Logged ε κ α).result = .ok a := rfl

@[simp] theorem events_pure (a : α) : (pure a : Logged ε κ α).events = [] := rfl

@[simp] theorem result_lift (r : Except ε α) : (lift r : Logged ε κ α).result = r := rfl

@[simp] theorem events_lift (r : Except ε α) : (lift r : Logged ε κ α).events = [] := rfl

@[simp] theorem result_act (k : κ) : (act k : Logged ε κ PUnit).result = .ok ⟨⟩ := rfl

@[simp] theorem events_act (k : κ) : (act k : Logged ε κ PUnit).events = [k] := rfl

section Bind

variable {x : Logged ε κ α} {f : α → Logged ε κ β}

theorem bind_of_error {e : ε} (h : x.result = .error e) : x >>= f = ⟨.error e, x.events⟩ := by
  change bind x f = _
  rw [bind, h]

theorem bind_of_ok {a : α} (h : x.result = .ok a) :
    x >>= f = ⟨(f a).result, x.events ++ (f a).events⟩ := by
  change bind x f = _
  rw [bind, h]

theorem result_bind_eq_ok_iff {b : β} :
    (x >>= f).result = .ok b ↔ ∃ a, x.result = .ok a ∧ (f a).result = .ok b := by
  cases h : x.result with
  | error e =>
    rw [bind_of_error h]
    simp
  | ok a =>
    rw [bind_of_ok h]
    simp

theorem events_bind {a : α} (h : x.result = .ok a) :
    (x >>= f).events = x.events ++ (f a).events := by
  rw [bind_of_ok h]

/-- A composition that returns is made of two parts that return. -/
theorem of_bind {b : β} (h : (x >>= f).result = .ok b) : ∃ a, x.result = .ok a ∧
    (f a).result = .ok b ∧ (x >>= f).events = x.events ++ (f a).events := by
  obtain ⟨a, hx, hf⟩ := result_bind_eq_ok_iff.mp h
  exact ⟨a, hx, hf, events_bind hx⟩

end Bind

/-- Everything that is done satisfies `P`. -/
def Each (P : κ → Prop) (x : Logged ε κ α) : Prop := ∀ k ∈ x.events, P k

section Each

variable {P : κ → Prop} {x : Logged ε κ α} {f : α → Logged ε κ β}

theorem Each.pure (a : α) : Each P (pure a : Logged ε κ α) := by simp [Each]

theorem Each.lift (r : Except ε α) : Each P (lift r : Logged ε κ α) := by simp [Each]

theorem Each.act {k : κ} (h : P k) : Each P (act k : Logged ε κ PUnit) := by simpa [Each] using h

theorem Each.bind (hx : Each P x) (hf : ∀ a, x.result = .ok a → Each P (f a)) :
    Each P (x >>= f) := by
  intro k hk
  cases h : x.result with
  | error e =>
    rw [bind_of_error h] at hk
    exact hx k hk
  | ok a =>
    rw [bind_of_ok h] at hk
    rcases List.mem_append.mp hk with hk | hk
    · exact hx k hk
    · exact hf a h k hk

theorem Each.mono {Q : κ → Prop} (hx : Each P x) (h : ∀ k, P k → Q k) : Each Q x :=
  fun k hk => h k (hx k hk)

end Each

end Logged
