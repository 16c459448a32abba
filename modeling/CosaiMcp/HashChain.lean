import Mathlib.Data.List.Induction
import Mathlib.Data.List.Forall2

/-!
# Hash chains

Entries of any type, each with the hash it links to and a hash of its own. A chain starts from a
genesis hash; where hashes determine entries and none is the genesis hash, the tip of a chain
determines all of it (`forall₂_of_tip_eq`).
-/

namespace HashChain

universe u v

variable {α : Type u} {η : Type v} (link hash : α → η)

/-- Each entry links to the hash of the one before it, and the first one to `h`. -/
def Linked : η → List α → Prop
  | _, [] => True
  | h, a :: as => link a = h ∧ Linked (hash a) as

/-- The hash of the last entry, or `h` where there is none. -/
def tip : η → List α → η
  | h, [] => h
  | _, a :: as => tip (hash a) as

@[simp] theorem tip_append (h : η) (as bs : List α) :
    tip hash h (as ++ bs) = tip hash (tip hash h as) bs := by
  induction as generalizing h with
  | nil => rfl
  | cons a as ih => exact ih (hash a)

theorem linked_append {h : η} {as bs : List α} :
    Linked link hash h (as ++ bs) ↔
      Linked link hash h as ∧ Linked link hash (tip hash h as) bs := by
  induction as generalizing h with
  | nil => exact ⟨fun hb => ⟨trivial, hb⟩, fun hb => hb.2⟩
  | cons a as ih =>
    constructor
    · rintro ⟨ha, hab⟩
      obtain ⟨has, hbs⟩ := ih.mp hab
      exact ⟨⟨ha, has⟩, hbs⟩
    · rintro ⟨⟨ha, has⟩, hbs⟩
      exact ⟨ha, ih.mpr ⟨has, hbs⟩⟩

theorem linked_concat {h : η} {as : List α} {a : α} :
    Linked link hash h (as ++ [a]) ↔ Linked link hash h as ∧ link a = tip hash h as :=
  
  (linked_append link hash).trans ⟨fun h => ⟨h.1, h.2.1⟩, fun h => ⟨h.1, h.2, trivial⟩⟩

variable {link hash}

/-- Two chains with one tip agree entry by entry: going back from the tip, equal hashes give
related entries and related entries link to one hash. -/
theorem forall₂_of_tip_eq {P : α → Prop} {R : α → α → Prop} {genesis : η}
    (hinj : ∀ a b, P a → P b → hash a = hash b → R a b) (hlink : ∀ a b, R a b → link a = link b)
    (hgenesis : ∀ a, P a → hash a ≠ genesis) {as bs : List α} (hP : ∀ a ∈ as, P a)
    (hQ : ∀ b ∈ bs, P b) (has : Linked link hash genesis as) (hbs : Linked link hash genesis bs)
    (htip : tip hash genesis as = tip hash genesis bs) : List.Forall₂ R as bs := by
  induction as using List.reverseRecOn generalizing bs with
  | nil =>
    rcases List.eq_nil_or_concat' bs with rfl | ⟨bs, b, rfl⟩
    · exact .nil
    · rw [tip_append] at htip
      exact absurd htip.symm (hgenesis b (hQ b (by simp)))
  | append_singleton as a ih =>
    rcases List.eq_nil_or_concat' bs with rfl | ⟨bs, b, rfl⟩
    · rw [tip_append] at htip
      exact absurd htip (hgenesis a (hP a (by simp)))
    · rw [tip_append, tip_append] at htip
      obtain ⟨has, ha⟩ := (linked_concat link hash).mp has
      obtain ⟨hbs, hb⟩ := (linked_concat link hash).mp hbs
      have hR : R a b := hinj a b (hP a (by simp)) (hQ b (by simp)) htip
      have htail : tip hash genesis as = tip hash genesis bs := by
        rw [← ha, ← hb, hlink a b hR]
      have hforall : List.Forall₂ R as bs := by
        apply ih
        · exact fun a' ha' => hP a' (List.mem_append_left [a] ha')
        · exact fun b' hb' => hQ b' (List.mem_append_left [b] hb')
        · exact has
        · exact hbs
        · exact htail
      exact List.rel_append hforall (.cons hR .nil)

end HashChain
