import Mathlib.Data.List.Basic
import Mathlib.Data.List.Infix

/-!
# Replacing marked words

A text is rewritten by rules, each a word and what is put in its place. `expand` replaces the words
of all rules in one pass, and a program that replaces one word after the other rewrites what earlier
rules have put in as well. Where every word starts with a mark that comes twice, and the mark is
nowhere else in it (`Marked`), the two agree up to the first place where the text expanded in one
pass has the mark twice (`follows_foldl`).
-/

namespace Expand

universe u

variable {α : Type u}

section Defs

variable [DecidableEq α]

/-- One pass over a text; `skip` symbols still belong to the last word. -/
def expandFrom (rules : List (List α × List α)) : Nat → List α → List α
  | _, [] => []
  | skip + 1, _ :: s => expandFrom rules skip s
  | 0, a :: s =>
    match rules.find? fun rule => rule.1 <+: a :: s with
    | some rule => rule.2 ++ expandFrom rules (rule.1.length - 1) s
    | none => a :: expandFrom rules 0 s

def expand (rules : List (List α × List α)) (s : List α) : List α := expandFrom rules 0 s

end Defs

/-- Every word starts with the mark twice and has it nowhere else, and no two words start in one
place. -/
structure Marked (mark : α) (rules : List (List α × List α)) : Prop where
  word : ∀ rule ∈ rules, ∃ a t, rule.1 = mark :: mark :: a :: t ∧ mark ∉ a :: t
  unique : ∀ rule ∈ rules, ∀ rule' ∈ rules, ∀ s, rule.1 <+: s → rule'.1 <+: s → rule = rule'

/-- `f` is `e` up to the first place where the mark comes twice in `e`. -/
def Follows (mark : α) : List α → List α → Prop
  | [], f => f = []
  | a :: e, f => [mark, mark] <+: a :: e ∨ ∃ f', f = a :: f' ∧ Follows mark e f'

/-! ## Texts that follow another -/

section Follows

variable {mark : α}

theorem Follows.refl (e : List α) : Follows mark e e := by
  induction e with
  | nil => rfl
  | cons a e ih => exact .inr ⟨e, rfl, ih⟩

/-- What is put before both texts does not matter. -/
theorem Follows.append_left {e f : List α} (p : List α) (h : Follows mark e f) :
    Follows mark (p ++ e) (p ++ f) := by
  induction p with
  | nil => exact h
  | cons a p ih => exact .inr ⟨p ++ f, rfl, ih⟩

theorem Follows.of_prefix {e f : List α} (h : [mark, mark] <+: e) : Follows mark e f := by
  cases e with
  | nil => exact absurd (List.prefix_nil.mp h) (List.cons_ne_nil _ _)
  | cons a e => exact .inl h

theorem Follows.head_ne {e f : List α} (h : Follows mark e f) (he : ¬ [mark] <+: e) :
    ¬ [mark] <+: f := by
  cases e with
  | nil =>
    subst h
    exact he
  | cons a e =>
    have ha : a ≠ mark := fun ha => he (ha ▸ List.prefix_append [a] e)
    rcases h with h | ⟨f', rfl, -⟩
    · exact absurd (List.cons_prefix_cons.mp h).1.symm ha
    · exact fun hf => ha (List.cons_prefix_cons.mp hf).1.symm

theorem Follows.trans {e f g : List α} (h : Follows mark e f) (h' : Follows mark f g) :
    Follows mark e g := by
  induction e generalizing f g with
  | nil =>
    subst h
    exact h'
  | cons a e ih =>
    rcases h with h | ⟨f, rfl, h⟩
    · exact .inl h
    by_cases hmark : [mark, mark] <+: a :: e
    · exact .inl hmark
    rcases h' with h' | ⟨g, rfl, h'⟩
    · -- the mark does not come twice in `f` where it does not in `e`
      obtain rfl := (List.cons_prefix_cons.mp h').1
      have he : ¬ [mark] <+: e := fun he => hmark (List.cons_prefix_cons.mpr ⟨rfl, he⟩)
      exact absurd (List.cons_prefix_cons.mp h').2 (h.head_ne he)
    · exact .inr ⟨g, rfl, ih h h'⟩

/-- Whether the mark comes twice at the head shows in the first two symbols. -/
theorem prefix_take {a : α} {p u : List α} (h : [mark, mark] <+: a :: (p ++ u)) :
    [mark, mark] <+: a :: (p ++ u.take 1) := by
  have htake : [mark, mark] <+: (a :: (p ++ u)).take 2 := h.take 2
  refine htake.trans ?_
  cases p with
  | nil => exact List.prefix_refl _
  | cons b p =>
    exact List.cons_prefix_cons.mpr ⟨rfl, List.cons_prefix_cons.mpr ⟨rfl, List.nil_prefix⟩⟩

/-- A beginning in which the mark does not come twice is kept. -/
theorem Follows.of_append {p u f : List α} (h : Follows mark (p ++ u) f)
    (hp : ¬ [mark, mark] <:+: p ++ u.take 1) : ∃ u', f = p ++ u' ∧ Follows mark u u' := by
  induction p generalizing f with
  | nil => exact ⟨f, rfl, h⟩
  | cons a p ih =>
    have hp' : ¬ [mark, mark] <:+: p ++ u.take 1 := fun hi => hp (List.infix_cons hi)
    rcases h with h | ⟨f', rfl, h⟩
    · exact absurd (prefix_take h).isInfix hp
    · obtain ⟨u', rfl, hu⟩ := ih h hp'
      exact ⟨u', rfl, hu⟩

/-- Two texts without the mark twice, put together where not both have it next to the other. -/
theorem not_infix_append {s t : List α} (hs : ¬ [mark, mark] <:+: s) (ht : ¬ [mark, mark] <:+: t)
    (h : ¬ [mark] <:+ s ∨ ¬ [mark] <+: t) : ¬ [mark, mark] <:+: s ++ t := by
  induction s with
  | nil => exact ht
  | cons a s ih =>
    rw [List.cons_append, List.infix_cons_iff]
    rintro (hpre | hin)
    · obtain ⟨rfl, hnext⟩ := List.cons_prefix_cons.mp hpre
      cases s with
      | nil => exact h.elim (fun h => h (List.suffix_refl _)) fun h => h hnext
      | cons b s =>
        obtain rfl := (List.cons_prefix_cons.mp hnext).1
        exact hs (List.prefix_append _ s).isInfix
    · refine ih (fun hi => hs (List.infix_cons hi)) ?_ hin
      exact h.imp_left fun h hsuf => h (hsuf.trans (List.suffix_cons a s))

theorem Follows.eq_of_not_infix {e f : List α} (h : Follows mark e f)
    (he : ¬ [mark, mark] <:+: e) : f = e := by
  rw [← List.append_nil e] at h
  obtain ⟨u, rfl, hu⟩ := h.of_append (by simpa using he)
  rw [show u = [] from hu, List.append_nil]

end Follows

/-! ## One pass -/

section Pass

variable [DecidableEq α] {mark : α} {rules : List (List α × List α)}

theorem expandFrom_eq (n : Nat) (s : List α) : expandFrom rules n s = expand rules (s.drop n) := by
  induction n generalizing s with
  | zero => rfl
  | succ n ih =>
    cases s with
    | nil => rfl
    | cons a s => exact ih s

theorem expand_of_find? {w v s : List α} (hw : w ≠ [])
    (hfind : rules.find? (fun rule => rule.1 <+: w ++ s) = some (w, v)) :
    expand rules (w ++ s) = v ++ expand rules s := by
  obtain ⟨a, t, rfl⟩ := List.exists_cons_of_ne_nil hw
  rw [List.cons_append] at hfind ⊢
  rw [expand, expandFrom, hfind]
  simp only [expandFrom_eq, List.length_cons, Nat.add_sub_cancel, List.drop_left]

theorem expand_word (h : Marked mark rules) {rule : List α × List α} (hmem : rule ∈ rules)
    (s : List α) : expand rules (rule.1 ++ s) = rule.2 ++ expand rules s := by
  obtain ⟨a, t, hword, -⟩ := h.word rule hmem
  refine expand_of_find? (by rw [hword]; exact List.cons_ne_nil _ _) ?_
  cases hf : rules.find? (fun rule' => rule'.1 <+: rule.1 ++ s) with
  | none =>
    have hnone := List.find?_eq_none.mp hf rule hmem
    exact absurd (decide_eq_true (List.prefix_append rule.1 s)) hnone
  | some rule' =>
    have hmem' := List.mem_of_find?_eq_some hf
    have hpre : rule'.1 <+: rule.1 ++ s := by simpa using List.find?_some hf
    exact congrArg some (h.unique rule' hmem' rule hmem _ hpre (List.prefix_append rule.1 s))

theorem expand_cons {a : α} {s : List α} (h : ∀ rule ∈ rules, ¬ rule.1 <+: a :: s) :
    expand rules (a :: s) = a :: expand rules s := by
  have hfind : rules.find? (fun rule => rule.1 <+: a :: s) = none :=
    List.find?_eq_none.mpr fun rule hrule => by simpa using h rule hrule
  rw [expand, expandFrom, hfind]
  rfl

theorem expand_of_not_infix {s : List α} (h : ∀ rule ∈ rules, ¬ rule.1 <:+: s) :
    expand rules s = s := by
  induction s with
  | nil => rfl
  | cons a s ih =>
    rw [expand_cons fun rule hrule hpre => h rule hrule hpre.isInfix,
      ih fun rule hrule hin => h rule hrule (List.infix_cons hin)]

theorem expand_nil (s : List α) : expand [] s = s :=
  expand_of_not_infix fun _ hrule => absurd hrule List.not_mem_nil

/-- Induction over a text, its words taken as a whole. -/
theorem induct (h : Marked mark rules) {motive : List α → Prop} (nil : motive [])
    (word : ∀ rule ∈ rules, ∀ s, motive s → motive (rule.1 ++ s))
    (cons : ∀ a s, (∀ rule ∈ rules, ¬ rule.1 <+: a :: s) → motive s → motive (a :: s))
    (s : List α) : motive s := by
  match s with
  | [] => exact nil
  | a :: s =>
    by_cases hno : ∀ rule ∈ rules, ¬ rule.1 <+: a :: s
    · exact cons a s hno (induct h nil word cons s)
    · push Not at hno
      obtain ⟨rule, hmem, t, ht⟩ := hno
      have hlen : t.length < (a :: s).length := by
        obtain ⟨b, r, hword, -⟩ := h.word rule hmem
        rw [← ht, hword]
        simp
        omega
      rw [← ht]
      exact word rule hmem t (induct h nil word cons t)
termination_by s.length
decreasing_by
  · exact Nat.lt_succ_self _
  · exact hlen

omit [DecidableEq α] in
theorem not_prefix_of_ne (h : Marked mark rules) {a : α} (ha : a ≠ mark) (s : List α) :
    ∀ rule ∈ rules, ¬ rule.1 <+: a :: s := by
  intro rule hmem hpre
  obtain ⟨b, t, hword, -⟩ := h.word rule hmem
  rw [hword] at hpre
  exact ha (List.cons_prefix_cons.mp hpre).1.symm

theorem expand_append_of_not_mem (h : Marked mark rules) {p : List α} (hp : mark ∉ p)
    (s : List α) : expand rules (p ++ s) = p ++ expand rules s := by
  induction p with
  | nil => rfl
  | cons a p ih =>
    obtain ⟨ha, hp⟩ := List.ne_and_not_mem_of_not_mem_cons hp
    rw [List.cons_append, expand_cons (not_prefix_of_ne h ha.symm _), ih hp, List.cons_append]

/-- No word starts in a beginning that does not have the mark twice. -/
theorem expand_append (h : Marked mark rules) {p s : List α}
    (hp : ¬ [mark, mark] <:+: p ++ s.take 1) : expand rules (p ++ s) = p ++ expand rules s := by
  induction p with
  | nil => rfl
  | cons a p ih =>
    rw [List.cons_append, expand_cons, ih fun hi => hp (List.infix_cons hi), List.cons_append]
    intro rule hmem hpre
    obtain ⟨b, t, hword, -⟩ := h.word rule hmem
    have hmark : [mark, mark] <+: a :: (p ++ s) := by
      refine List.IsPrefix.trans ?_ hpre
      rw [hword]
      exact List.prefix_append [mark, mark] _
    exact hp (prefix_take hmark).isInfix

/-- A mark is kept where the text after it does not come to start with a mark. -/
theorem expand_mark_cons (h : Marked mark rules) {s : List α} (hs : ¬ [mark] <+: expand rules s) :
    expand rules (mark :: s) = mark :: expand rules s := by
  refine expand_cons fun rule hmem hpre => ?_
  obtain ⟨b, t, hword, hnot⟩ := h.word rule hmem
  rw [hword] at hpre
  obtain ⟨r, rfl⟩ := (List.cons_prefix_cons.mp hpre).2
  have hb : b ≠ mark := fun hb => hnot (hb ▸ List.mem_cons_self)
  have hno : ∀ rule' ∈ rules, ¬ rule'.1 <+: mark :: (b :: t ++ r) := by
    intro rule' hmem' hpre'
    obtain ⟨b', t', hword', -⟩ := h.word rule' hmem'
    rw [hword'] at hpre'
    exact hb (List.cons_prefix_cons.mp (List.cons_prefix_cons.mp hpre').2).1.symm
  rw [List.cons_append, expand_cons hno] at hs
  exact hs (List.prefix_append [mark] _)

end Pass

/-! ## One word after the other -/

section Sequence

variable [DecidableEq α] {mark : α} {rules : List (List α × List α)} {rule : List α × List α}

omit [DecidableEq α] in
theorem Marked.of_subset {rules' : List (List α × List α)} (h : Marked mark rules)
    (hsub : ∀ rule ∈ rules', rule ∈ rules) : Marked mark rules' :=
  ⟨fun rule hr => h.word rule (hsub rule hr),
    fun rule hr rule' hr' => h.unique rule (hsub rule hr) rule' (hsub rule' hr')⟩

/-- A text put in earlier is expanded again, with the text after it. -/
theorem Follows.expand_append (h : Marked mark rules) {e t : List α} (p : List α)
    (ht : Follows mark e (expand rules t)) : Follows mark (p ++ e) (expand rules (p ++ t)) := by
  induction p with
  | nil => exact ht
  | cons a p ih =>
    by_cases hmark : [mark, mark] <+: a :: (p ++ e)
    · exact .inl hmark
    refine .inr ⟨expand rules (p ++ t), ?_, ih⟩
    by_cases ha : a = mark
    · subst ha
      refine expand_mark_cons h (ih.head_ne fun hp => hmark ?_)
      exact List.cons_prefix_cons.mpr ⟨rfl, hp⟩
    · exact expand_cons (not_prefix_of_ne h ha _)

/-- The words of other rules stay. -/
theorem expand_other (h : Marked mark rules) {rules' : List (List α × List α)}
    (hsub : ∀ r ∈ rules', r ∈ rules) (hr : rule ∈ rules) (hnot : rule ∉ rules') (s : List α) :
    expand rules' (rule.1 ++ s) = rule.1 ++ expand rules' s := by
  have h' := h.of_subset hsub
  obtain ⟨a, t, hword, hmark⟩ := h.word rule hr
  have ha : a ≠ mark := fun ha => hmark (ha ▸ List.mem_cons_self)
  have hfirst : ∀ r ∈ rules', ¬ r.1 <+: mark :: (mark :: (a :: t ++ s)) := by
    intro r hr' hpre
    have heq := h.unique r (hsub r hr') rule hr (rule.1 ++ s) (by rw [hword]; exact hpre)
      (List.prefix_append rule.1 s)
    exact hnot (heq ▸ hr')
  have hsecond : ∀ r ∈ rules', ¬ r.1 <+: mark :: (a :: t ++ s) := by
    intro r hr' hpre
    obtain ⟨b, t', hword', -⟩ := h'.word r hr'
    rw [hword'] at hpre
    exact ha (List.cons_prefix_cons.mp (List.cons_prefix_cons.mp hpre).2).1.symm
  have hcons : rule.1 ++ s = mark :: (mark :: (a :: t ++ s)) := by rw [hword]; rfl
  rw [hcons, expand_cons hfirst, expand_cons hsecond, expand_append_of_not_mem h' hmark, hword]
  rfl

/-- One word replaced before the pass over the others. -/
theorem follows_step (h : Marked mark (rule :: rules)) (s : List α) :
    Follows mark (expand (rule :: rules) s) (expand rules (expand [rule] s)) := by
  have hrules : Marked mark rules := h.of_subset fun _ hr => List.mem_cons_of_mem rule hr
  have hrule : Marked mark [rule] := h.of_subset fun r hr => by
    rw [List.mem_singleton.mp hr]
    exact List.mem_cons_self
  induction s using induct h with
  | nil => exact rfl
  | word r hr s ih =>
    rw [expand_word h hr]
    by_cases heq : r = rule
    · subst heq
      rw [expand_word hrule (List.mem_singleton_self r)]
      exact ih.expand_append hrules r.2
    · have hmem : r ∈ rules := List.mem_of_ne_of_mem heq hr
      have hnot : r ∉ [rule] := fun hs => heq (List.mem_singleton.mp hs)
      rw [expand_other h (List.forall_mem_singleton.mpr List.mem_cons_self) hr hnot,
        expand_word hrules hmem]
      exact ih.append_left r.2
  | cons a s hno ih =>
    rw [expand_cons hno, expand_cons fun r hr => hno r (by
      rw [List.mem_singleton.mp hr]
      exact List.mem_cons_self)]
    exact ih.expand_append hrules [a]

omit [DecidableEq α] in
/-- What starts a text put together is in its first part, or is that part and more. -/
theorem prefix_append_or {r p q : List α} (h : r <+: p ++ q) :
    r <+: p ∨ ∃ x, r = p ++ x ∧ x ≠ [] ∧ x <+: q := by
  rcases List.prefix_or_prefix_of_prefix h (List.prefix_append p q) with hpre | ⟨x, rfl⟩
  · exact .inl hpre
  · cases x with
    | nil => exact .inl (by rw [List.append_nil])
    | cons c x =>
      exact .inr ⟨c :: x, rfl, List.cons_ne_nil c x, (List.prefix_append_right_inj p).mp h⟩

/-- No word runs from the text before another into that. -/
theorem expand_append_word (h : Marked mark rules) (hr : rule ∈ rules)
    {rules' : List (List α × List α)} (hsub : ∀ r ∈ rules', r ∈ rules) (p s : List α) :
    expand rules' (p ++ (rule.1 ++ s)) = expand rules' p ++ expand rules' (rule.1 ++ s) := by
  have h' := h.of_subset hsub
  obtain ⟨a, t, hword, hmark⟩ := h.word rule hr
  induction p using induct h' with
  | nil => rfl
  | word r hr p ih =>
    rw [List.append_assoc, expand_word h' hr, ih, expand_word h' hr, List.append_assoc]
  | cons b p hno ih =>
    rw [List.cons_append, expand_cons, ih, expand_cons hno, List.cons_append]
    intro r hr hpre
    obtain ⟨c, t', hword', hmark'⟩ := h'.word r hr
    have hw : rule.1 ++ s = mark :: mark :: (a :: t ++ s) := by
      rw [hword]
      rfl
    rcases prefix_append_or (p := b :: p) hpre with hpre | ⟨x, hx, hne, hpre⟩
    · exact hno r hr hpre
    · rw [hword'] at hx
      rw [hw] at hpre
      obtain ⟨d, x, rfl⟩ := List.exists_cons_of_ne_nil hne
      obtain ⟨rfl, hpre⟩ := List.cons_prefix_cons.mp hpre
      cases p with
      | nil =>
        -- the second mark of the text after it would be the third symbol of the word
        obtain rfl := (List.cons.inj (List.cons.inj hx).2).2
        exact hmark' ((List.cons_prefix_cons.mp hpre).1 ▸ List.mem_cons_self)
      | cons e p =>
        have hmem : d ∈ c :: t' := by
          rw [(List.cons.inj (List.cons.inj hx).2).2]
          exact List.mem_append_right p List.mem_cons_self
        exact hmark' hmem

/-- A word that no rule has is still there in the end. -/
theorem foldl_other (h : Marked mark rules) {rules' : List (List α × List α)}
    (hsub : ∀ r ∈ rules', r ∈ rules) (hr : rule ∈ rules) (hnot : rule ∉ rules') (p s : List α) :
    ∃ q t, rules'.foldl (fun s r => expand [r] s) (p ++ (rule.1 ++ s)) = q ++ (rule.1 ++ t) := by
  induction rules' generalizing p s with
  | nil => exact ⟨p, s, rfl⟩
  | cons r rules' ih =>
    obtain ⟨hne, hnot⟩ := List.ne_and_not_mem_of_not_mem_cons hnot
    have hsub' : ∀ r' ∈ [r], r' ∈ rules :=
      List.forall_mem_singleton.mpr (hsub r List.mem_cons_self)
    have hnot' : rule ∉ [r] := fun hmem => hne (List.mem_singleton.mp hmem)
    rw [List.foldl_cons, expand_append_word h hr hsub', expand_other h hsub' hr hnot']
    exact ih (fun r' hr' => hsub r' (List.mem_cons_of_mem r hr')) hnot _ _

/-- Replacing one word after the other. -/
theorem follows_foldl (h : Marked mark rules) (s : List α) :
    Follows mark (expand rules s) (rules.foldl (fun s rule => expand [rule] s) s) := by
  induction rules generalizing s with
  | nil =>
    rw [expand_nil]
    exact Follows.refl s
  | cons rule rules ih =>
    have hrules : Marked mark rules := h.of_subset fun _ hr => List.mem_cons_of_mem rule hr
    exact (follows_step h s).trans (ih hrules _)

/-- Fewer rules leave the words of the others, each of which starts with the mark twice. -/
theorem follows_of_subset {rules' : List (List α × List α)} (h : Marked mark rules)
    (hsub : ∀ rule ∈ rules', rule ∈ rules) (s : List α) :
    Follows mark (expand rules' s) (expand rules s) := by
  have h' := h.of_subset hsub
  induction s using induct h with
  | nil => exact rfl
  | word r hr s ih =>
    by_cases hr' : r ∈ rules'
    · rw [expand_word h hr, expand_word h' hr']
      exact ih.append_left r.2
    · rw [expand_other h hsub hr hr']
      obtain ⟨a, t, hword, -⟩ := h.word r hr
      refine Follows.of_prefix ?_
      rw [hword]
      exact List.prefix_append [mark, mark] _
  | cons a s hno ih =>
    rw [expand_cons hno, expand_cons fun r hr => hno r (hsub r hr)]
    exact ih.append_left [a]

theorem follows_expand (h : Marked mark rules) (s : List α) : Follows mark s (expand rules s) := by
  have hnone : Follows mark (expand [] s) (expand rules s) :=
    follows_of_subset h (fun r hr => absurd hr List.not_mem_nil) s
  rwa [expand_nil] at hnone

omit [DecidableEq α] in
/-- A word has the mark at its head only, so that it does not reach from a text into two marks after
it. -/
theorem not_reaches (h : Marked mark rules) (hmem : rule ∈ rules) {p s : List α} (hp : p ≠ [])
    (hpre : rule.1 <+: p ++ mark :: mark :: s) : rule.1 <+: p := by
  refine (prefix_append_or hpre).resolve_right ?_
  rintro ⟨w, hw, hne, hreach⟩
  obtain ⟨b, r, hword, hmark⟩ := h.word rule hmem
  obtain ⟨c, w, rfl⟩ := List.exists_cons_of_ne_nil hne
  obtain ⟨rfl, hnext⟩ := List.cons_prefix_cons.mp hreach
  obtain ⟨a, p, rfl⟩ := List.exists_cons_of_ne_nil hp
  rw [hword] at hw
  cases p with
  | nil =>
    -- the first of the two marks is the second of the word
    obtain ⟨-, hw⟩ := List.cons.inj hw
    obtain ⟨-, rfl⟩ := List.cons.inj hw
    exact hmark ((List.cons_prefix_cons.mp hnext).1 ▸ List.mem_cons_self)
  | cons a' p =>
    obtain ⟨-, hw⟩ := List.cons.inj hw
    obtain ⟨-, hw⟩ := List.cons.inj hw
    exact hmark (hw ▸ List.mem_append_right p List.mem_cons_self)

/-- A text at the end that starts with the mark twice, and in which no word is, stays. -/
theorem expand_append_open (h : Marked mark rules) {s : List α}
    (hnot : ∀ rule ∈ rules, ¬ rule.1 <:+: mark :: mark :: s) (p : List α) :
    ∃ q, expand rules (p ++ mark :: mark :: s) = q ++ mark :: mark :: s := by
  induction p using induct h with
  | nil => exact ⟨[], expand_of_not_infix hnot⟩
  | word rule hrule p ih =>
    obtain ⟨q, hq⟩ := ih
    exact ⟨rule.2 ++ q, by rw [List.append_assoc, expand_word h hrule, hq, List.append_assoc]⟩
  | cons a p hno ih =>
    obtain ⟨q, hq⟩ := ih
    refine ⟨a :: q, ?_⟩
    rw [List.cons_append, expand_cons fun rule hrule hpre => hno rule hrule ?_, hq,
      List.cons_append]
    exact not_reaches h hrule (List.cons_ne_nil a p) hpre

/-- Nor does it go in a sequence of replacements. -/
theorem foldl_append_open (h : Marked mark rules) {s : List α}
    (hnot : ∀ rule ∈ rules, ¬ rule.1 <:+: mark :: mark :: s) (p : List α) :
    ∃ q, rules.foldl (fun s rule => expand [rule] s) (p ++ mark :: mark :: s) =
      q ++ mark :: mark :: s := by
  induction rules generalizing p with
  | nil => exact ⟨p, rfl⟩
  | cons rule rules ih =>
    have hrule : Marked mark [rule] := h.of_subset
      (List.forall_mem_singleton.mpr List.mem_cons_self)
    obtain ⟨hhead, hrest⟩ := List.forall_mem_cons.mp hnot
    obtain ⟨q, hq⟩ := expand_append_open hrule (List.forall_mem_singleton.mpr hhead) p
    rw [List.foldl_cons, hq]
    exact ih (h.of_subset fun _ hr => List.mem_cons_of_mem rule hr) hrest q

/-- Only the rules of words that are in a text matter. -/
theorem expand_congr_of_infix {rules' : List (List α × List α)} (h : Marked mark rules)
    (h' : Marked mark rules') {s : List α}
    (hmem : ∀ r, r.1 <:+: s → (r ∈ rules ↔ r ∈ rules')) : expand rules s = expand rules' s := by
  induction s using induct h with
  | nil => rfl
  | word r hr s ih =>
    have hr' := (hmem r (List.prefix_append r.1 s).isInfix).mp hr
    rw [expand_word h hr, expand_word h' hr',
      ih fun r' hin => hmem r' (hin.trans (List.suffix_append r.1 s).isInfix)]
  | cons a s hno ih =>
    rw [expand_cons hno, expand_cons fun r hr hpre => hno r ((hmem r hpre.isInfix).mpr hr) hpre,
      ih fun r hin => hmem r (List.infix_cons hin)]

/-- The order of the rules does not matter. -/
theorem expand_congr {rules' : List (List α × List α)} (h : Marked mark rules)
    (hmem : ∀ r, r ∈ rules ↔ r ∈ rules') (s : List α) : expand rules s = expand rules' s :=
  expand_congr_of_infix h (h.of_subset fun r hr => (hmem r).mpr hr) fun r _ => hmem r

end Sequence

/-! ## A word that the rules bring about -/

section Stray

variable [DecidableEq α] {mark : α} {rules : List (List α × List α)} {w v : List α}

/-- A text that contains a word has a first place where it does. -/
theorem exists_first {s : List α} (hw : w ≠ []) (h : w <:+: s) :
    ∃ p t, s = p ++ (w ++ t) ∧ ¬ w <:+: p := by
  induction s with
  | nil => exact absurd (List.infix_nil.mp h) hw
  | cons a s ih =>
    by_cases hpre : w <+: a :: s
    · obtain ⟨t, ht⟩ := hpre
      exact ⟨[], t, ht.symm, fun hnil => hw (List.infix_nil.mp hnil)⟩
    · obtain ⟨p, t, rfl, hp⟩ := ih ((List.infix_cons_iff.mp h).resolve_left hpre)
      refine ⟨a :: p, t, rfl, fun hin => ?_⟩
      rcases List.infix_cons_iff.mp hin with hin | hin
      · exact hpre (hin.trans (List.cons_prefix_cons.mpr ⟨rfl, List.prefix_append p _⟩))
      · exact hp hin

/-- Induction over a text from one place of a word to the next. -/
theorem first_induct (hw : w ≠ []) {motive : List α → Prop}
    (none : ∀ s, ¬ w <:+: s → motive s)
    (first : ∀ p s, ¬ w <:+: p → motive s → motive (p ++ (w ++ s))) (s : List α) : motive s := by
  by_cases hin : w <:+: s
  · obtain ⟨p, t, hs, hp⟩ := exists_first hw hin
    have hlen : t.length < s.length := by
      have := List.length_pos_of_ne_nil hw
      rw [hs, List.length_append, List.length_append]
      omega
    rw [hs]
    exact first p t hp (first_induct hw none first t)
  · exact none s hin
termination_by s.length

theorem expand_single_word (hw : w ≠ []) (s : List α) :
    expand [(w, v)] (w ++ s) = v ++ expand [(w, v)] s :=
  expand_of_find? hw (by
    rw [List.find?_singleton, if_pos (decide_eq_true (List.prefix_append w s))])

theorem expand_single_of_not_infix {s : List α} (h : ¬ w <:+: s) : expand [(w, v)] s = s :=
  expand_of_not_infix (List.forall_mem_singleton.mpr h)

/-- Induction over a text, a word of its taken as a whole. -/
theorem single_induct (hw : w ≠ []) {motive : List α → Prop} (nil : motive [])
    (word : ∀ s, motive s → motive (w ++ s))
    (cons : ∀ a s, ¬ w <+: a :: s → motive s → motive (a :: s)) (s : List α) : motive s := by
  match s with
  | [] => exact nil
  | a :: s =>
    by_cases hpre : w <+: a :: s
    · obtain ⟨t, ht⟩ := hpre
      have hlen : t.length < (a :: s).length := by
        have := List.length_pos_of_ne_nil hw
        rw [← ht, List.length_append]
        omega
      rw [← ht]
      exact word t (single_induct hw nil word cons t)
    · exact cons a s hpre (single_induct hw nil word cons s)
termination_by s.length
decreasing_by
  · exact hlen
  · exact Nat.lt_succ_self _

theorem length_expand_single (hw : w ≠ []) (s : List α) :
    (v.length ≤ w.length → (expand [(w, v)] s).length ≤ s.length) ∧
      (w.length ≤ v.length → s.length ≤ (expand [(w, v)] s).length) := by
  induction s using single_induct hw with
  | nil => exact ⟨fun _ => Nat.le_refl 0, fun _ => Nat.zero_le _⟩
  | word s ih =>
    rw [expand_single_word hw]
    simp only [List.length_append]
    exact ⟨fun h => Nat.add_le_add h (ih.1 h), fun h => Nat.add_le_add h (ih.2 h)⟩
  | cons a s hno ih =>
    rw [expand_cons (List.forall_mem_singleton.mpr hno)]
    simp only [List.length_cons]
    exact ⟨fun h => Nat.succ_le_succ (ih.1 h), fun h => Nat.succ_le_succ (ih.2 h)⟩

omit [DecidableEq α] in
/-- Two texts put together are equal where the parts are not longer on one side than on the
other. -/
theorem eq_of_append_eq {a b a' b' : List α} (h : a ++ (v ++ b) = a' ++ (v ++ b'))
    (hlen : (a.length ≤ a'.length ∧ b.length ≤ b'.length) ∨
      (a'.length ≤ a.length ∧ b'.length ≤ b.length)) : a = a' ∧ b = b' := by
  have hsum := congrArg List.length h
  simp only [List.length_append] at hsum
  obtain ⟨ha, hb⟩ := List.append_inj h (by omega)
  exact ⟨ha, List.append_cancel_left hb⟩

theorem expand_single_eq_iff (hw : w ≠ []) (hv : v ≠ w) (s : List α) :
    expand [(w, v)] s = s ↔ ¬ w <:+: s := by
  refine ⟨fun heq => ?_, expand_single_of_not_infix⟩
  induction s using single_induct hw with
  | nil => exact fun hnil => hw (List.infix_nil.mp hnil)
  | word s ih =>
    rw [expand_single_word hw] at heq
    have hlen := congrArg List.length heq
    have hexpand : (v.length ≤ w.length → (expand [(w, v)] s).length ≤ s.length) ∧
        (w.length ≤ v.length → s.length ≤ (expand [(w, v)] s).length) := length_expand_single hw s
    simp only [List.length_append] at hlen
    have hsame : v.length = w.length := by
      rcases Nat.le_total v.length w.length with hle | hle
      · have := hexpand.1 hle
        omega
      · have := hexpand.2 hle
        omega
    exact absurd (List.append_inj heq hsame).1 hv
  | cons a s hno ih =>
    rw [expand_cons (List.forall_mem_singleton.mpr hno)] at heq
    rw [List.infix_cons_iff]
    exact fun hor => hor.elim hno (ih (List.cons.inj heq).2)

variable (rules w) in
/-- Between the places where a text has `w`, there is a piece in which the rules bring it about. -/
inductive Stray : List α → Prop
  | whole {s : List α} (hs : ¬ w <:+: s) (hin : w <:+: expand rules s) : Stray s
  | head {p s : List α} (hp : ¬ w <:+: p) (hin : w <:+: expand rules p) : Stray (p ++ (w ++ s))
  | tail {p s : List α} (hp : ¬ w <:+: p) (hs : Stray s) : Stray (p ++ (w ++ s))

section Marked

variable (h : Marked mark ((w, v) :: rules))

include h

omit [DecidableEq α] in
theorem Marked.word_ne_nil : w ≠ [] := by
  obtain ⟨a, t, hword, -⟩ := h.word (w, v) List.mem_cons_self
  exact fun hnil => by simp [hnil] at hword

theorem expand_cons_of_absent {p : List α} (hp : ¬ w <:+: p) :
    expand ((w, v) :: rules) p = expand rules p := by
  refine expand_congr_of_infix h (h.of_subset fun _ hr => List.mem_cons_of_mem _ hr) fun r hin => ?_
  have hne : r ≠ (w, v) := by
    rintro rfl
    exact hp hin
  rw [List.mem_cons, or_iff_right hne]

/-- Both ways to expand a text, up to the first `w` and from there. -/
theorem expand_at_word (hnot : (w, v) ∉ rules) {p : List α} (hp : ¬ w <:+: p) (s : List α) :
    expand ((w, v) :: rules) (p ++ (w ++ s)) =
        expand rules p ++ (v ++ expand ((w, v) :: rules) s) ∧
      expand [(w, v)] (expand rules (p ++ (w ++ s))) =
        expand [(w, v)] (expand rules p) ++ (v ++ expand [(w, v)] (expand rules s)) := by
  have hsub : ∀ r ∈ rules, r ∈ (w, v) :: rules := fun r hr => List.mem_cons_of_mem _ hr
  have happend {rules' : List (List α × List α)} (hsub : ∀ r ∈ rules', r ∈ (w, v) :: rules)
      (p s : List α) :
      expand rules' (p ++ (w ++ s)) = expand rules' p ++ expand rules' (w ++ s) := by
    have hmem : (w, v) ∈ (w, v) :: rules := List.mem_cons_self
    exact expand_append_word h hmem hsub p s
  constructor
  · rw [happend fun r hr => hr, expand_cons_of_absent h hp]
    exact congrArg (expand rules p ++ ·) (expand_word h List.mem_cons_self s)
  · have hother : expand rules (w ++ s) = w ++ expand rules s :=
      expand_other h hsub List.mem_cons_self hnot s
    rw [happend hsub, hother, happend (List.forall_mem_singleton.mpr List.mem_cons_self),
      expand_single_word h.word_ne_nil]

/-- Expanding `w` after the others makes the text longer, or shorter, than expanding all at once
where its value is longer, or shorter, than `w`. -/
theorem length_expand_two (hnot : (w, v) ∉ rules) (s : List α) :
    (v.length ≤ w.length →
        (expand [(w, v)] (expand rules s)).length ≤ (expand ((w, v) :: rules) s).length) ∧
      (w.length ≤ v.length →
        (expand ((w, v) :: rules) s).length ≤ (expand [(w, v)] (expand rules s)).length) := by
  induction s using first_induct h.word_ne_nil with
  | none s hs =>
    rw [expand_cons_of_absent h hs]
    exact length_expand_single h.word_ne_nil _
  | first p s hp ih =>
    obtain ⟨hone, htwo⟩ := expand_at_word h hnot hp s
    have hlen := length_expand_single (v := v) h.word_ne_nil (expand rules p)
    rw [hone, htwo]
    simp only [List.length_append]
    refine ⟨fun hle => ?_, fun hle => ?_⟩
    · have := ih.1 hle
      have := hlen.1 hle
      omega
    · have := ih.2 hle
      have := hlen.2 hle
      omega

theorem length_parts (hnot : (w, v) ∉ rules) (p s : List α) :
    ((expand [(w, v)] p).length ≤ p.length ∧
        (expand [(w, v)] (expand rules s)).length ≤ (expand ((w, v) :: rules) s).length) ∨
      (p.length ≤ (expand [(w, v)] p).length ∧
        (expand ((w, v) :: rules) s).length ≤ (expand [(w, v)] (expand rules s)).length) := by
  have hone := length_expand_single (v := v) h.word_ne_nil p
  have htwo := length_expand_two h hnot s
  exact (Nat.le_total v.length w.length).imp (fun hle => ⟨hone.1 hle, htwo.1 hle⟩)
    fun hle => ⟨hone.2 hle, htwo.2 hle⟩

/-- Expanding `w` after the other words is expanding all in one pass, unless these bring `w`
about. -/
theorem expand_two_eq_iff (hnot : (w, v) ∉ rules) (hv : v ≠ w) (s : List α) :
    expand [(w, v)] (expand rules s) = expand ((w, v) :: rules) s ↔ ¬ Stray rules w s := by
  have hw := h.word_ne_nil
  constructor
  · intro heq hstray
    induction hstray with
    | whole hs hin =>
      rw [expand_cons_of_absent h hs, expand_single_eq_iff hw hv] at heq
      exact heq hin
    | @head p s hp hin =>
      obtain ⟨hone, htwo⟩ := expand_at_word h hnot hp s
      rw [hone, htwo] at heq
      have hparts := (eq_of_append_eq heq (length_parts h hnot _ _)).1
      exact (expand_single_eq_iff hw hv _).mp hparts hin
    | @tail p s hp _ ih =>
      obtain ⟨hone, htwo⟩ := expand_at_word h hnot hp s
      rw [hone, htwo] at heq
      exact ih (eq_of_append_eq heq (length_parts h hnot _ _)).2
  · induction s using first_induct hw with
    | none s hs =>
      intro hstray
      rw [expand_cons_of_absent h hs, expand_single_eq_iff hw hv]
      exact fun hin => hstray (.whole hs hin)
    | first p s hp ih =>
      intro hstray
      obtain ⟨hone, htwo⟩ := expand_at_word h hnot hp s
      rw [hone, htwo, ih fun hs => hstray (.tail hp hs),
        expand_single_of_not_infix fun hin => hstray (.head hp hin)]

end Marked

end Stray

end Expand
