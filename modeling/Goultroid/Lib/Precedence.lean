import Mathlib.Data.List.Nodup
import Mathlib.Data.List.Sublists

/-!
# Precedence in a list

An element precedes another when both are in the list, in that order. In a list without duplicates this
is a strict order that is total on the elements, it only shrinks when elements leave, and the first
element that passes a test has no predecessor that passes it.
-/

namespace Goultroid

open List

variable {α : Type} {l l' : List α} {a b y : α}

/-- `a` comes before `b` in `l`. -/
def Before (l : List α) (a b : α) : Prop := [a, b].Sublist l

theorem Before.mono (h : Before l' a b) (hsub : l'.Sublist l) : Before l a b := List.Sublist.trans h hsub

theorem Before.mem_left (h : Before l a b) : a ∈ l := h.subset (by simp)

theorem Before.mem_right (h : Before l a b) : b ∈ l := h.subset (by simp)

theorem before_cons : Before (y :: l) a b ↔ (a = y ∧ b ∈ l) ∨ Before l a b := by
  constructor
  · intro h
    cases h with
    | cons _ h => exact .inr h
    | cons_cons _ h => exact .inl ⟨rfl, singleton_sublist.mp h⟩
  · rintro (⟨rfl, hb⟩ | h)
    · exact (singleton_sublist.mpr hb).cons_cons a
    · exact h.cons y

theorem before_append_singleton (h : Before (l ++ [y]) a b) : Before l a b ∨ (a ∈ l ∧ b = y) := by
  induction l with
  | nil =>
    rcases before_cons.mp h with ⟨-, hb⟩ | h
    · cases hb
    · cases h.mem_left
  | cons z l ih =>
    rcases before_cons.mp h with ⟨rfl, hb⟩ | h
    · rcases mem_append.mp hb with hb | hb
      · exact .inl (before_cons.mpr (.inl ⟨rfl, hb⟩))
      · exact .inr ⟨mem_cons_self, mem_singleton.mp hb⟩
    · rcases ih h with h | ⟨ha, hb⟩
      · exact .inl (before_cons.mpr (.inr h))
      · exact .inr ⟨mem_cons_of_mem _ ha, hb⟩

theorem before_total (ha : a ∈ l) (hb : b ∈ l) (hne : a ≠ b) : Before l a b ∨ Before l b a := by
  induction l with
  | nil => cases ha
  | cons y l ih =>
    simp only [before_cons]
    rcases mem_cons.mp ha with rfl | ha'
    · exact .inl (.inl ⟨rfl, (mem_cons.mp hb).resolve_left hne.symm⟩)
    · rcases mem_cons.mp hb with rfl | hb'
      · exact .inr (.inl ⟨rfl, ha'⟩)
      · exact (ih ha' hb').imp .inr .inr

theorem before_asymm (hnodup : l.Nodup) (h : Before l a b) : ¬ Before l b a := by
  induction l with
  | nil => cases h.mem_left
  | cons y l ih =>
    obtain ⟨hy, hnodup⟩ := nodup_cons.mp hnodup
    intro h'
    rcases before_cons.mp h with ⟨rfl, hb⟩ | hrest
    · rcases before_cons.mp h' with ⟨rfl, -⟩ | hrest'
      · exact hy hb
      · exact hy hrest'.mem_right
    · rcases before_cons.mp h' with ⟨rfl, -⟩ | hrest'
      · exact hy hrest.mem_right
      · exact ih hnodup hrest hrest'

/-- Whatever comes before the first element that passes a test does not pass it. -/
theorem Before.of_find {test : α → Bool} {x : α} (hnodup : l.Nodup) (hfind : l.find? test = some a) (h : Before l x a) :
    test x = false := by
  induction l with
  | nil => cases h.mem_left
  | cons y l ih =>
    obtain ⟨hy, hnodup⟩ := nodup_cons.mp hnodup
    cases htest : test y with
    | true =>
      rw [find?_cons_of_pos htest] at hfind
      cases hfind
      rcases before_cons.mp h with ⟨-, hmem⟩ | h
      · exact absurd hmem hy
      · exact absurd h.mem_right hy
    | false =>
      rw [find?_cons_of_neg (by simp [htest])] at hfind
      rcases before_cons.mp h with ⟨rfl, -⟩ | h
      · exact htest
      · exact ih hnodup hfind h

end Goultroid
