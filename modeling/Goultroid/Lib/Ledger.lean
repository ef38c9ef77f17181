import Mathlib.Data.List.Nodup
import Mathlib.Logic.Function.Basic
import Mathlib.Logic.Relation

/-!
# Claims on keys

A key is free or held under a token. A token is issued for a free key, once; the claim ends when it is
closed, or it is lost. Whatever is done in between, the token that holds a key is the last one issued for
it, and every claim is held, closed or lost, once (`Ledger.Fenced`).
-/

/-- Who holds which key, and what became of the claims. -/
@[ext] structure Ledger (κ τ : Type) where
  holder : κ → Option τ
  issued : List (κ × τ)
  closed : List τ
  lost : List τ

namespace Ledger

open List

variable {κ τ : Type} [DecidableEq κ] {k k' : κ} {t : τ}

section Steps

variable (l : Ledger κ τ)

def issue (k : κ) (t : τ) : Ledger κ τ :=
  { l with holder := Function.update l.holder k (some t), issued := l.issued ++ [(k, t)] }

def close (k : κ) (t : τ) : Ledger κ τ :=
  { l with holder := Function.update l.holder k none, closed := l.closed ++ [t] }

def lose (k : κ) (t : τ) : Ledger κ τ :=
  { l with holder := Function.update l.holder k none, lost := l.lost ++ [t] }

/-- The last token that was issued for the key. -/
def last (k : κ) : Option τ := (l.issued.reverse.find? (·.1 == k)).map Prod.snd

end Steps

inductive Step : Ledger κ τ → Ledger κ τ → Prop where
  | issue (l : Ledger κ τ) (k : κ) (t : τ) (hfree : l.holder k = none) (hfresh : t ∉ l.issued.map Prod.snd) :
    Step l (l.issue k t)
  | close (l : Ledger κ τ) (k : κ) (t : τ) (hheld : l.holder k = some t) : Step l (l.close k t)
  | lose (l : Ledger κ τ) (k : κ) (t : τ) (hheld : l.holder k = some t) : Step l (l.lose k t)

abbrev Steps : Ledger κ τ → Ledger κ τ → Prop := Relation.ReflTransGen Step

structure Fenced [DecidableEq τ] (l : Ledger κ τ) : Prop where
  last : ∀ k t, l.holder k = some t → l.last k = some t
  nodup : (l.issued.map Prod.snd).Nodup
  balance : ∀ k t, (k, t) ∈ l.issued → l.closed.count t + (if l.holder k = some t then 1 else 0) + l.lost.count t = 1
  known : ∀ t, t ∈ l.closed ∨ t ∈ l.lost → t ∈ l.issued.map Prod.snd

variable {l l' : Ledger κ τ}

theorem last_issue : (l.issue k t).last k' = if k = k' then some t else l.last k' := by
  simp only [last, issue, reverse_append, reverse_cons, reverse_nil, nil_append, singleton_append,
    find?_cons]
  by_cases hk : k = k'
  · simp [hk]
  · rw [beq_false_of_ne hk, if_neg hk]

theorem mem_issued_of_last (h : l.last k = some t) : (k, t) ∈ l.issued := by
  obtain ⟨⟨k', t'⟩, hfind, rfl⟩ := Option.map_eq_some_iff.mp h
  have hk : k' = k := by simpa using find?_some hfind
  subst hk
  exact mem_reverse.mp (mem_of_find?_eq_some hfind)

variable [DecidableEq τ]

section

variable (h : l.Fenced)
include h

theorem Fenced.held_issued (hk : l.holder k = some t) : (k, t) ∈ l.issued := mem_issued_of_last (h.last k t hk)

/-- A token is issued for one key. -/
theorem Fenced.key_eq (hk : (k, t) ∈ l.issued) (hk' : (k', t) ∈ l.issued) : k = k' :=
  congrArg Prod.fst (inj_on_of_nodup_map h.nodup hk hk' rfl)

theorem Fenced.issue (hfree : l.holder k = none) (hfresh : t ∉ l.issued.map Prod.snd) : (l.issue k t).Fenced := by
  have hunused (t' : τ) (ht' : t' ∈ l.closed ∨ t' ∈ l.lost) : t' ≠ t := fun heq => hfresh (heq ▸ h.known t' ht')
  refine ⟨fun k' t' hheld => ?_, ?_, fun k' t' hmem => ?_, fun t' ht' => ?_⟩
  · rw [last_issue]
    by_cases hk : k' = k
    · subst hk
      simpa [Ledger.issue] using hheld
    · rw [if_neg (Ne.symm hk)]
      exact h.last k' t' (by simpa [Ledger.issue, Function.update_of_ne hk] using hheld)
  · simp only [Ledger.issue, map_append, map_cons, map_nil]
    exact nodup_append.mpr ⟨h.nodup, nodup_singleton _, fun a ha b hb => by
      rw [mem_singleton.mp hb]
      rintro rfl
      exact hfresh ha⟩
  · rcases mem_append.mp hmem with hold | hnew
    · have hne : t' ≠ t := by
        rintro rfl
        exact hfresh (mem_map_of_mem (f := Prod.snd) hold)
      have hsame : (l.issue k t).holder k' = some t' ↔ l.holder k' = some t' := by
        by_cases hk : k' = k
        · subst hk
          simp [Ledger.issue, hfree, Ne.symm hne]
        · simp [Ledger.issue, Function.update_of_ne hk]
      simp only [hsame]
      exact h.balance k' t' hold
    · obtain ⟨rfl, rfl⟩ := Prod.mk.inj (mem_singleton.mp hnew)
      have hclosed : l.closed.count t' = 0 := count_eq_zero.mpr fun hin => hunused t' (.inl hin) rfl
      have hlost : l.lost.count t' = 0 := count_eq_zero.mpr fun hin => hunused t' (.inr hin) rfl
      simp [Ledger.issue, hclosed, hlost]
  · simp only [Ledger.issue, map_append, mem_append]
    exact .inl (h.known t' ht')

/-- The end of a claim, entered in one of the two lists. -/
theorem Fenced.release (hheld : l.holder k = some t) {closed lost : List τ}
    (hcount : ∀ t', closed.count t' + lost.count t' = l.closed.count t' + l.lost.count t' + if t' = t then 1 else 0) :
    Fenced { l with holder := Function.update l.holder k none, closed := closed, lost := lost } := by
  refine ⟨fun k' t' hk' => ?_, h.nodup, fun k' t' hmem => ?_, fun t' ht' => ?_⟩
  · by_cases hk : k' = k
    · subst hk
      simp at hk'
    · exact h.last k' t' (by simpa [Function.update_of_ne hk] using hk')
  · have hbalanced := h.balance k' t' hmem
    have hnew := hcount t'
    by_cases ht : t' = t
    · subst ht
      obtain rfl := h.key_eq hmem (h.held_issued hheld)
      simp only [hheld, Function.update_self, if_true, reduceCtorEq, if_false] at hbalanced hnew ⊢
      omega
    · have hsame : Function.update l.holder k none k' = some t' ↔ l.holder k' = some t' := by
        by_cases hk : k' = k
        · subst hk
          simp [hheld, Ne.symm ht]
        · simp [Function.update_of_ne hk]
      simp only [hsame, if_neg ht] at hbalanced hnew ⊢
      omega
  · by_cases ht : t' = t
    · subst ht
      exact mem_map.mpr ⟨_, h.held_issued hheld, rfl⟩
    · have hnew := hcount t'
      rw [if_neg ht] at hnew
      refine h.known t' ?_
      have hpos : 0 < closed.count t' ∨ 0 < lost.count t' := ht'.imp count_pos_iff.mpr count_pos_iff.mpr
      rw [← count_pos_iff, ← count_pos_iff]
      omega

theorem Fenced.step (hstep : Step l l') : l'.Fenced := by
  cases hstep with
  | issue k t hfree hfresh => exact h.issue hfree hfresh
  | close k t hheld | lose k t hheld =>
    refine h.release hheld fun t' => ?_
    simp only [count_append, count_singleton, beq_iff_eq, eq_comm (a := t)]
    omega

theorem Fenced.steps (hsteps : Steps l l') : l'.Fenced := by
  induction hsteps with
  | refl => exact h
  | tail _ hstep ih => exact ih.step hstep

/-- A claim that is neither open nor lost was closed once. -/
theorem Fenced.countP_closed (hissued : (k, t) ∈ l.issued) :
    l.closed.countP (fun t' => decide (t' = t)) = if l.holder k = some t ∨ t ∈ l.lost then 0 else 1 := by
  have hbalanced := h.balance k t hissued
  have hcount : l.closed.count t = l.closed.countP (fun t' => decide (t' = t)) := count_eq_countP
  rw [hcount] at hbalanced
  have hlost : t ∈ l.lost ↔ 0 < l.lost.count t := count_pos_iff.symm
  by_cases hheld : l.holder k = some t
  · simp only [hheld, if_true, true_or] at hbalanced ⊢
    omega
  · simp only [hheld, if_false, false_or, hlost] at hbalanced ⊢
    split_ifs <;> omega

end

def empty : Ledger κ τ := ⟨fun _ => none, [], [], []⟩

theorem fenced_empty : (empty : Ledger κ τ).Fenced where
  last _ _ h := by cases h
  nodup := nodup_nil
  balance _ _ h := by cases h
  known _ h := by rcases h with h | h <;> cases h

end Ledger
