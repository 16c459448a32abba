import CosaiMcp.Transport.StreamableHttp

/-!
# The legacy SSE transport

The loop of `LegacySSETransport._sse_listener` over the lines of its stream. What it dispatches is
modelled, not where `_dispatch` puts it: a pending future or the queue.
-/

namespace CosaiMcp.Transport

open Py

variable {φ : Type} [FloatText φ]

/-- `LegacySSETransport._SSE_MAX_LINES`. -/
def legacySseMaxLines : Nat := 100000

/-- The messages that the listener dispatches, from the state of its loop. It goes on behind what is
no JSON, and ends where a message is no object, of which `_dispatch` cannot get an id. -/
def listen : Nat → Option Str → List Str → List (List (Str × Json φ))
  | _, _, [] => []
  | lineCount, eventData, line :: lines =>
    if lineCount + 1 > legacySseMaxLines then []
    else if startsWith (strip line) (lit "data:") then
      listen (lineCount + 1) (some (strip ((strip line).drop 5))) lines
    else
      match eventData with
      | none => listen (lineCount + 1) none lines
      | some data =>
        if strip line = [] then
          match loads data with
          | none => listen (lineCount + 1) none lines
          | some (.obj msg) => msg :: listen (lineCount + 1) none lines
          | some _ => []
        else listen (lineCount + 1) (some data) lines

section Listen

theorem listen_cons {n : Nat} {data : Option Str} {l : Str} {ls : List Str}
    (hn : n + 1 ≤ legacySseMaxLines) :
    listen (φ := φ) n data (l :: ls) =
      match lineData? l with
      | some d => listen (n + 1) (some d) ls
      | none =>
        match data with
        | none => listen (n + 1) none ls
        | some d =>
          if strip l = [] then
            match loads d with
            | none => listen (n + 1) none ls
            | some (.obj msg) => msg :: listen (n + 1) none ls
            | some _ => []
          else listen (n + 1) (some d) ls := by
  conv_lhs => unfold listen
  rw [if_neg (Nat.not_lt.mpr hn), lineData?]
  by_cases hdata : startsWith (strip l) (lit "data:") = true
  · rw [if_pos hdata, if_pos hdata]
  · rw [if_neg hdata, if_neg hdata]

theorem listen_silence {n : Nat} {silence : List Str} (h : ∀ l ∈ silence, lineData? l = none)
    {ls : List Str} (hn : n + silence.length ≤ legacySseMaxLines) :
    listen (φ := φ) n none (silence ++ ls) = listen (n + silence.length) none ls := by
  induction silence generalizing n with
  | nil => rfl
  | cons l silence ih =>
    rw [List.length_cons] at hn
    rw [List.cons_append, listen_cons (by omega), h l List.mem_cons_self]
    refine (ih (fun m hm => h m (List.mem_cons_of_mem l hm)) (by omega)).trans ?_
    rw [List.length_cons, Nat.add_assoc, Nat.add_comm 1]

/-- What the listener makes of the data of an event. -/
def dispatched (data : Str) (rest : List (List (Str × Json φ))) : List (List (Str × Json φ)) :=
  match loads data with
  | none => rest
  | some (.obj msg) => msg :: rest
  | some _ => []

/-- Lines that are not blank, up to the end of their event. -/
theorem listen_lines {n : Nat} {data : Option Str} {ls : List Str}
    (hne : ∀ l ∈ ls, strip l ≠ []) {d : Str} (h : lastData data ls = some d) {rest : List Str}
    (hn : n + ls.length + 1 ≤ legacySseMaxLines) :
    listen (φ := φ) n data (ls ++ [] :: rest) =
      dispatched d (listen (n + ls.length + 1) none rest) := by
  induction ls generalizing n data with
  | nil =>
    rw [lastData] at h
    subst h
    rw [List.nil_append, listen_cons (by omega)]
    rfl
  | cons l ls ih =>
    rw [List.length_cons] at hn
    rw [lastData] at h
    have hrest : ∀ m ∈ ls, strip m ≠ [] := fun m hm => hne m (List.mem_cons_of_mem l hm)
    have hlength : n + 1 + ls.length + 1 = n + (l :: ls).length + 1 := by
      rw [List.length_cons]
      omega
    rw [List.cons_append, listen_cons (by omega)]
    cases hl : lineData? l with
    | some c =>
      rw [hl] at h
      rw [← hlength]
      exact ih hrest h (by omega)
    | none =>
      rw [hl, if_neg fun hc => hne l List.mem_cons_self hc.2] at h
      rw [← hlength]
      cases data with
      | none => exact ih hrest h (by omega)
      | some c =>
        simp only
        rw [if_neg (hne l List.mem_cons_self)]
        exact ih hrest h (by omega)

end Listen

end CosaiMcp.Transport
