import Mathlib.Tactic.Common

/-!
# Code that raises

How a computation in `Except` that went through, or that raised, is taken apart step by step.
-/

namespace Py

universe u v w

variable {ε : Type u} {α : Type v} {β : Type v}

theorem ok_bind (a : α) (f : α → Except ε β) : (.ok a >>= f) = f a := rfl

theorem bind_eq_ok_iff {x : Except ε α} {f : α → Except ε β} {b : β} :
    x >>= f = .ok b ↔ ∃ a, x = .ok a ∧ f a = .ok b := by
  cases x with
  | error e => exact ⟨nofun, fun ⟨_, h, _⟩ => by cases h⟩
  | ok a => exact ⟨fun h => ⟨a, rfl, h⟩, fun ⟨_, h, hf⟩ => by cases h; exact hf⟩

theorem bind_eq_error_iff {x : Except ε α} {f : α → Except ε β} {e : ε} :
    x >>= f = .error e ↔ x = .error e ∨ ∃ a, x = .ok a ∧ f a = .error e := by
  cases x with
  | error e' =>
    constructor
    · intro h; cases h; exact .inl rfl
    · rintro (h | ⟨_, h, -⟩) <;> cases h
      rfl
  | ok a =>
    constructor
    · intro h; exact .inr ⟨a, rfl, h⟩
    · rintro (h | ⟨_, h, hf⟩) <;> cases h
      exact hf

theorem exists_eq_ok {x : Except ε α} (h : x.toOption.isSome = true) : ∃ a, x = .ok a := by
  cases x with
  | error e => cases h
  | ok a => exact ⟨a, rfl⟩

/-- A check that raises went through exactly when its condition does not hold. -/
theorem ite_error_eq_ok_iff {p : Prop} [Decidable p] {e : ε} {x : Except ε α} {a : α} :
    (if p then .error e else x) = .ok a ↔ ¬ p ∧ x = .ok a := by
  by_cases hp : p
  · rw [if_pos hp]
    exact ⟨nofun, fun h => absurd hp h.1⟩
  · rw [if_neg hp]
    exact ⟨fun h => ⟨hp, h⟩, fun h => h.2⟩

theorem ite_ok_error_eq_ok_iff {p : Prop} [Decidable p] {e : ε} {x : Except ε α} {a : α} :
    (if p then x else .error e) = .ok a ↔ p ∧ x = .ok a := by
  rw [← ite_not, ite_error_eq_ok_iff, not_not]

theorem mapError_eq_ok_iff {ε' : Type w} {x : Except ε α} {f : ε → ε'} {a : α} :
    x.mapError f = .ok a ↔ x = .ok a := by
  cases x with
  | error e => exact iff_of_false nofun nofun
  | ok b => exact ⟨fun h => by cases h; rfl, fun h => by cases h; rfl⟩

/-- Every result comes from an element. -/
theorem mem_of_mapM_eq_ok {f : α → Except ε β} {l : List α} {bs : List β} (h : l.mapM f = .ok bs)
    {b : β} (hb : b ∈ bs) : ∃ a ∈ l, f a = .ok b := by
  induction l generalizing bs with
  | nil =>
    cases h
    cases hb
  | cons a l ih =>
    rw [List.mapM_cons] at h
    obtain ⟨c, hc, h⟩ := bind_eq_ok_iff.mp h
    obtain ⟨cs, hcs, h⟩ := bind_eq_ok_iff.mp h
    cases h
    rcases List.mem_cons.mp hb with rfl | hb
    · exact ⟨a, List.mem_cons_self, hc⟩
    · obtain ⟨a', ha', hfa⟩ := ih hcs hb
      exact ⟨a', List.mem_cons_of_mem a ha', hfa⟩

/-- A `mapM` goes through exactly if every element does. -/
theorem mapM_eq_ok_iff {f : α → Except ε β} {l : List α} {bs : List β} :
    l.mapM f = .ok bs ↔ l.map f = bs.map .ok := by
  induction l generalizing bs with
  | nil =>
    rw [List.map_nil]
    cases bs with
    | nil => exact ⟨fun _ => rfl, fun _ => rfl⟩
    | cons b bs => exact ⟨fun h => (nomatch h), fun h => (nomatch h)⟩
  | cons a l ih =>
    rw [List.mapM_cons, bind_eq_ok_iff, List.map_cons]
    constructor
    · rintro ⟨b, hb, h⟩
      obtain ⟨cs, hcs, h⟩ := bind_eq_ok_iff.mp h
      cases h
      rw [hb, ih.mp hcs, List.map_cons]
    · intro h
      cases bs with
      | nil => cases h
      | cons b bs =>
        rw [List.map_cons] at h
        obtain ⟨hb, hl⟩ := List.cons.inj h
        exact ⟨b, hb, bind_eq_ok_iff.mpr ⟨bs, ih.mpr hl, rfl⟩⟩

theorem exists_mapM_eq_ok_iff {f : α → Except ε β} {l : List α} :
    (∃ bs, l.mapM f = .ok bs) ↔ ∀ a ∈ l, ∃ b, f a = .ok b := by
  induction l with
  | nil => exact ⟨fun _ => nofun, fun _ => ⟨[], rfl⟩⟩
  | cons a l ih =>
    rw [List.forall_mem_cons, ← ih]
    constructor
    · rintro ⟨bs, h⟩
      rw [List.mapM_cons] at h
      obtain ⟨b, hb, h⟩ := bind_eq_ok_iff.mp h
      obtain ⟨cs, hcs, -⟩ := bind_eq_ok_iff.mp h
      exact ⟨⟨b, hb⟩, cs, hcs⟩
    · rintro ⟨⟨b, hb⟩, cs, hcs⟩
      refine ⟨b :: cs, ?_⟩
      rw [List.mapM_cons, hb, ok_bind, hcs, ok_bind]
      rfl

theorem mapM_append_eq_ok_iff {f : α → Except ε β} {l l' : List α} {bs : List β} :
    (l ++ l').mapM f = .ok bs ↔
      ∃ cs cs', l.mapM f = .ok cs ∧ l'.mapM f = .ok cs' ∧ cs ++ cs' = bs := by
  rw [List.mapM_append, bind_eq_ok_iff]
  refine exists_congr fun cs => ?_
  rw [exists_and_left]
  refine and_congr_right fun _ => ?_
  rw [bind_eq_ok_iff]
  refine exists_congr fun cs' => and_congr_right fun _ => ?_
  exact ⟨fun h => Except.ok.inj h, fun h => congrArg _ h⟩

theorem forM_eq_ok_iff {f : α → Except ε PUnit} {l : List α} :
    l.forM f = .ok ⟨⟩ ↔ ∀ a ∈ l, f a = .ok ⟨⟩ := by
  induction l with
  | nil => exact ⟨fun _ _ h => (nomatch h), fun _ => rfl⟩
  | cons a l ih =>
    show (f a >>= fun _ => l.forM f) = _ ↔ _
    rw [bind_eq_ok_iff, List.forall_mem_cons, ← ih]
    exact ⟨fun ⟨_, ha, hl⟩ => ⟨ha, hl⟩, fun ⟨ha, hl⟩ => ⟨⟨⟩, ha, hl⟩⟩

/-! ## What a computation may raise -/

/-- Whatever the computation raises is one of `P`. -/
def RaisesOnly (P : ε → Prop) (x : Except ε α) : Prop := ∀ e, x = .error e → P e

section RaisesOnly

variable {P : ε → Prop}

theorem raisesOnly_ok (a : α) : RaisesOnly P (.ok a : Except ε α) := nofun

theorem raisesOnly_error_iff {e : ε} : RaisesOnly P (.error e : Except ε α) ↔ P e := by
  constructor
  · intro h
    exact h e rfl
  · intro h e' he'
    cases he'
    exact h

theorem raisesOnly_bind_iff {x : Except ε α} {f : α → Except ε β} :
    RaisesOnly P (x >>= f) ↔ RaisesOnly P x ∧ ∀ a, x = .ok a → RaisesOnly P (f a) := by
  constructor
  · intro h
    refine ⟨fun e he => h e (bind_eq_error_iff.mpr (.inl he)), fun a ha e he => ?_⟩
    exact h e (bind_eq_error_iff.mpr (.inr ⟨a, ha, he⟩))
  · rintro ⟨hx, hf⟩ e he
    rcases bind_eq_error_iff.mp he with he | ⟨a, ha, he⟩
    · exact hx e he
    · exact hf a ha e he

/-- A check that raises one of `P`. -/
theorem raisesOnly_ite_error_iff {p : Prop} [Decidable p] {e : ε} {x : Except ε α} (he : P e) :
    RaisesOnly P (if p then .error e else x) ↔ (¬ p → RaisesOnly P x) := by
  by_cases hp : p
  · rw [if_pos hp]
    exact ⟨fun _ h => absurd hp h, fun _ => raisesOnly_error_iff.mpr he⟩
  · rw [if_neg hp]
    exact ⟨fun h _ => h, fun h => h hp⟩

theorem raisesOnly_map_iff {x : Except ε α} {f : α → β} :
    RaisesOnly P (x.map f) ↔ RaisesOnly P x := by
  cases x with
  | error e => rw [raisesOnly_error_iff]; exact raisesOnly_error_iff
  | ok a => exact iff_of_true (raisesOnly_ok _) (raisesOnly_ok _)

/-- A loop raises what its turns may raise. -/
theorem raisesOnly_foldlM {γ : Type u} {f : γ → α → Except ε γ} {l : List α}
    (h : ∀ c, ∀ a ∈ l, RaisesOnly P (f c a)) (c : γ) : RaisesOnly P (l.foldlM f c) := by
  induction l generalizing c with
  | nil => exact raisesOnly_ok c
  | cons a l ih =>
    rw [List.foldlM_cons, raisesOnly_bind_iff]
    exact ⟨h c a List.mem_cons_self, fun c' _ =>
      ih (fun c b hb => h c b (List.mem_cons_of_mem _ hb)) c'⟩

theorem raisesOnly_forM {f : α → Except ε PUnit} {l : List α} (h : ∀ a ∈ l, RaisesOnly P (f a)) :
    RaisesOnly P (l.forM f) := by
  induction l with
  | nil => exact raisesOnly_ok _
  | cons a l ih =>
    refine raisesOnly_bind_iff.mpr ⟨h a List.mem_cons_self, fun _ _ => ?_⟩
    exact ih fun b hb => h b (List.mem_cons_of_mem _ hb)

end RaisesOnly

end Py
