import CosaiMcp.Run

/-!
# Reading a queue one message at a time

A caller that takes one message off a queue for each request, while an answer may hold several.
The k-th call gets the k-th message of everything that was queued (`trace_serve`), so that every
call gets the last message of its own answer only as long as no answer holds more than that
(`own_iff`).
-/

namespace Fifo

universe u v

variable {μ : Type u} {α : Type v}

/-- The answer is queued and the oldest message is taken. -/
def serve (queue answer : List μ) : Option μ × List μ :=
  ((queue ++ answer).head?, (queue ++ answer).tail)

theorem serve_nil (m : μ) (answer : List μ) : serve [] (m :: answer) = (some m, answer) := rfl

/-- Where no answer is empty the calls get what was queued, in its order. -/
theorem trace_serve (queue : List μ) (f : α → List μ) {answers : List α}
    (h : ∀ a ∈ answers, f a ≠ []) :
    (Run.trace (fun queue a => serve queue (f a)) queue answers).map Prod.snd =
      ((queue ++ answers.flatMap f).take answers.length).map some := by
  induction answers generalizing queue with
  | nil => rfl
  | cons a answers ih =>
    have hne : queue ++ f a ≠ [] := fun hnil =>
      h a List.mem_cons_self (List.append_eq_nil_iff.mp hnil).2
    obtain ⟨m, ms, hms⟩ := List.exists_cons_of_ne_nil hne
    have hserve : serve queue (f a) = (some m, ms) := by rw [serve, hms]; rfl
    rw [Run.trace_cons, List.map_cons, hserve, ih ms fun b hb => h b (List.mem_cons_of_mem a hb),
      List.flatMap_cons, ← List.append_assoc, hms, List.length_cons, List.cons_append,
      List.take_succ_cons, List.map_cons]

/-- Answers that end with the message asked for: every call gets its own just where that is the
only message of its answer. -/
theorem own_iff (extras : α → List μ) (last : α → μ) (own : α → μ → Prop) {answers : List α}
    (hextras : ∀ a ∈ answers, ∀ m ∈ extras a, ¬ own a m) :
    (∀ p ∈ Run.trace (fun queue a => serve queue (extras a ++ [last a])) [] answers,
        ∃ m, p.2 = some m ∧ own p.1 m) ↔
      ∀ a ∈ answers, extras a = [] ∧ own a (last a) := by
  induction answers with
  | nil => exact ⟨fun _ => nofun, fun _ => nofun⟩
  | cons a answers ih =>
    rw [Run.trace_cons, List.forall_mem_cons, List.forall_mem_cons]
    cases ha : extras a with
    | nil =>
      rw [List.nil_append, serve_nil, ih fun b hb => hextras b (List.mem_cons_of_mem a hb)]
      refine and_congr ⟨?_, fun h => ⟨last a, rfl, h.2⟩⟩ Iff.rfl
      rintro ⟨m, hm, hown⟩
      cases hm
      exact ⟨rfl, hown⟩
    | cons e es =>
      rw [List.cons_append, serve_nil]
      refine ⟨fun h => ?_, fun h => nomatch h.1.1⟩
      obtain ⟨⟨m, hm, hown⟩, -⟩ := h
      cases hm
      exact absurd hown (hextras a List.mem_cons_self e (ha ▸ List.mem_cons_self))

end Fifo
