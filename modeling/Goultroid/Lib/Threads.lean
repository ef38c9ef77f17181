import Goultroid.Lib.FinMap
import Mathlib.Algebra.Order.BigOperators.Group.List
import Mathlib.Algebra.Order.Group.Nat

/-!
# Threads over shared memory

Threads take turns on a shared state. A program says what a thread at a local state does next: it is
blocked, or it changes the shared state, moves on and starts more threads. A run interleaves the steps
of all threads with new calls from outside. `sum f` adds a weight over the threads; a counter that
shadows what the threads are doing is an equation with a `sum`, and `sum_move` says how a step moves it.
-/

namespace Threads

open List Option

variable {σ τ κ : Type}

/-- A shared state and the local states of the threads. -/
structure Pool (σ τ : Type) where
  shared : σ
  threads : List τ

/-- What thread `i` does next, under an outside choice: `none` if it has to wait. -/
abbrev Program (σ τ κ : Type) := Nat → κ → σ → τ → Option (σ × τ × List τ)

/-- A new call from outside, or the next step of a thread. -/
inductive Act (τ κ : Type) where
  | call (t : τ)
  | move (i : Nat) (choice : κ)
  deriving DecidableEq

namespace Pool

variable (prog : Program σ τ κ) (entry : τ → Bool)

def act (p : Pool σ τ) : Act τ κ → Option (Pool σ τ)
  | .call t => if entry t then some ⟨p.shared, p.threads ++ [t]⟩ else none
  | .move i choice =>
    match p.threads[i]? with
    | none => none
    | some t => (prog i choice p.shared t).map fun next => ⟨next.1, p.threads.set i next.2.1 ++ next.2.2⟩

/-- A sequence of acts that all satisfy `ok`, if none of them has to wait. -/
def acts (ok : Pool σ τ → Act τ κ → Bool) (p : Pool σ τ) : List (Act τ κ) → Option (Pool σ τ)
  | [] => some p
  | a :: rest =>
    if ok p a then
      match p.act prog entry a with
      | none => none
      | some p' => p'.acts ok rest
    else none

def sum (f : τ → Nat) (p : Pool σ τ) : Nat := (p.threads.map f).sum

end Pool

/-- The runs all of whose acts satisfy `ok`. -/
inductive Run (prog : Program σ τ κ) (entry : τ → Bool) (ok : Pool σ τ → Act τ κ → Bool) :
    Pool σ τ → Pool σ τ → Prop where
  | refl (p : Pool σ τ) : Run prog entry ok p p
  | tail {p p' p'' : Pool σ τ} (a : Act τ κ) : Run prog entry ok p p' → ok p' a = true →
    p'.act prog entry a = some p'' → Run prog entry ok p p''

variable {prog : Program σ τ κ} {entry : τ → Bool} {p p' : Pool σ τ} {ok : Pool σ τ → Act τ κ → Bool} {j i : Nat} {t t' u : τ}
  {new : List τ}

inductive Acts (prog : Program σ τ κ) (entry : τ → Bool) (p : Pool σ τ) (a : Act τ κ) (p' : Pool σ τ) : Prop where
  | call (t : τ) (ha : a = .call t) (ht : entry t = true) (heq : p' = ⟨p.shared, p.threads ++ [t]⟩)
  | move (i : Nat) (choice : κ) (t t' : τ) (shared : σ) (new : List τ) (ha : a = .move i choice)
    (ht : p.threads[i]? = some t) (hnext : prog i choice p.shared t = some (shared, t', new))
    (heq : p' = ⟨shared, p.threads.set i t' ++ new⟩)

theorem acts_of_act {a : Act τ κ} (h : p.act prog entry a = some p') : Acts prog entry p a p' := by
  cases a with
  | call t =>
    simp only [Pool.act] at h
    split_ifs at h with ht
    exact .call t rfl ht (some.inj h).symm
  | move i choice =>
    simp only [Pool.act] at h
    split at h
    · cases h
    · rename_i t ht
      obtain ⟨⟨shared, t', new⟩, hnext, heq⟩ := map_eq_some_iff.mp h
      exact .move i choice t t' shared new rfl ht hnext heq.symm

theorem Run.invariant {P : Pool σ τ → Prop} (h : Run prog entry ok p p')
    (hstep : ∀ p a p', P p → ok p a = true → Acts prog entry p a p' → P p') (hp : P p) : P p' := by
  induction h with
  | refl => exact hp
  | tail a _ hok hact ih => exact hstep _ a _ ih hok (acts_of_act hact)

theorem Run.trans {p'' : Pool σ τ} (h : Run prog entry ok p p') (h' : Run prog entry ok p' p'') : Run prog entry ok p p'' := by
  induction h' with
  | refl => exact h
  | tail a _ hok hact ih => exact .tail a ih hok hact

theorem Run.of_acts {as : List (Act τ κ)} (h : p.acts prog entry ok as = some p') : Run prog entry ok p p' := by
  induction as generalizing p with
  | nil => exact some.inj h ▸ .refl p
  | cons a as ih =>
    rw [Pool.acts] at h
    split_ifs at h with hok
    split at h
    · cases h
    · rename_i q hq
      exact (Run.tail a (.refl p) hok hq).trans (ih h)

/-- A computed sequence of acts that gets to a state with a property. -/
theorem Run.of_check {P : Pool σ τ → Prop} (as : List (Act τ κ)) [DecidablePred P]
    (h : (p.acts prog entry ok as).any (fun q => decide (P q)) = true) : ∃ q, Run prog entry ok p q ∧ P q := by
  obtain ⟨q, hq, hcheck⟩ := (any_eq_true _ _).mp h
  exact ⟨q, .of_acts hq, of_decide_eq_true hcheck⟩

section Sums

variable {threads : List τ}

theorem sum_set (f : τ → Nat) (ht : threads[i]? = some t) (t' : τ) : ((threads.set i t').map f).sum + f t = (threads.map f).sum + f t' := by
  induction threads generalizing i with
  | nil => cases ht
  | cons u threads ih =>
    cases i with
    | zero =>
      cases ht
      simp only [set_cons_zero, map_cons, sum_cons]
      omega
    | succ =>
      have hrest := ih ht
      simp only [set_cons_succ, map_cons, sum_cons]
      omega

theorem sum_move (f : τ → Nat) (ht : p.threads[i]? = some t) (shared : σ) (t' : τ) (new : List τ) :
    Pool.sum f ⟨shared, p.threads.set i t' ++ new⟩ + f t = p.sum f + f t' + (new.map f).sum := by
  have hset := sum_set f ht t'
  simp only [Pool.sum, map_append, sum_append]
  omega

theorem sum_call (f : τ → Nat) (p : Pool σ τ) (t : τ) : Pool.sum f ⟨p.shared, p.threads ++ [t]⟩ = p.sum f + f t := by
  simp [Pool.sum]

theorem le_sum (f : τ → Nat) (ht : p.threads[i]? = some t) : f t ≤ p.sum f :=
  single_le_sum (fun _ _ => Nat.zero_le _) _ (mem_map_of_mem (mem_of_getElem? ht))

theorem add_le_sum (f : τ → Nat) (ht : p.threads[i]? = some t) (hu : p.threads[j]? = some u) (hij : i ≠ j) : f t + f u ≤ p.sum f := by
  obtain ⟨hi, rfl⟩ := List.getElem?_eq_some_iff.mp ht
  have hperm := ((getElem_cons_eraseIdx_perm hi).map f).sum_eq
  have hmem : u ∈ p.threads.eraseIdx i := mem_eraseIdx_iff_getElem?.mpr ⟨j, hij.symm, hu⟩
  have hle := single_le_sum (fun _ _ => Nat.zero_le _) _ (mem_map_of_mem (f := f) hmem)
  rw [map_cons, sum_cons] at hperm
  rw [Pool.sum, ← hperm]
  exact Nat.add_le_add_left hle _

theorem sum_eq_zero_of_le {f g : τ → Nat} (hsum : p.sum g = 0) (h : ∀ t, f t ≤ g t) : p.sum f = 0 := by
  have hle : p.sum f ≤ p.sum g := sum_le_sum fun t _ => h t
  omega

end Sums

/-! ### Threads by index -/

theorem getElem?_call (h : p.threads[j]? = some u) : (p.threads ++ [t])[j]? = some u := by
  rw [List.getElem?_append_left (List.getElem?_eq_some_iff.mp h).1]
  exact h

theorem getElem?_call_cases (h : (p.threads ++ [t])[j]? = some u) : p.threads[j]? = some u ∨ u = t := by
  by_cases hlt : j < p.threads.length
  · exact .inl ((getElem?_append_left hlt).symm.trans h)
  · rw [getElem?_append_right (not_lt.mp hlt)] at h
    exact .inr (mem_singleton.mp (mem_of_getElem? h))

theorem getElem?_move_of_ne (h : p.threads[j]? = some u) (hne : i ≠ j) : (p.threads.set i t' ++ new)[j]? = some u := by
  have hlt := (List.getElem?_eq_some_iff.mp h).1
  rw [getElem?_append_left (by rwa [length_set]), getElem?_set_ne hne]
  exact h

theorem getElem?_move_self (h : p.threads[i]? = some t) : (p.threads.set i t' ++ new)[i]? = some t' := by
  have hlt := (List.getElem?_eq_some_iff.mp h).1
  rw [getElem?_append_left (by rwa [length_set]), getElem?_set_self hlt]

theorem getElem?_move_cases (h : (p.threads.set i t' ++ new)[j]? = some u) :
    (j = i ∧ u = t') ∨ (j ≠ i ∧ p.threads[j]? = some u) ∨ u ∈ new := by
  by_cases hlt : j < p.threads.length
  · rw [getElem?_append_left (by rwa [length_set])] at h
    by_cases hij : i = j
    · subst hij
      rw [getElem?_set_self hlt] at h
      exact .inl ⟨rfl, (some.inj h).symm⟩
    · rw [getElem?_set_ne hij] at h
      exact .inr (.inl ⟨Ne.symm hij, h⟩)
  · rw [getElem?_append_right (by rw [length_set]; omega)] at h
    exact .inr (.inr (mem_of_getElem? h))

end Threads
