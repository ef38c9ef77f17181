import Mathlib.Data.List.Basic
import Mathlib.Tactic.Common

/-!
# Rings

A list that grows to `n` entries and is then overwritten at a cursor that goes round holds the last `n` entries written to it.
-/

/-- The ring after the entries of `log`, newest first, have been written. From the cursor on it is in the order of writing. -/
def RingLog {α : Type} (n : Nat) (ring : List α) (cursor : Nat) (log : List α) : Prop :=
  ∃ l r, ring = l ++ r ∧ cursor = l.length ∧ (log.take n).reverse = r ++ l ∧ (ring.length < n → l = []) ∧ l.length < n

namespace RingLog

variable {α : Type} {n cursor : Nat} {ring log : List α} {a : α}

theorem nil (hn : 0 < n) : RingLog n ([] : List α) 0 [] :=
  ⟨[], [], rfl, rfl, by rw [List.take_nil]; rfl, fun _ => rfl, hn⟩

theorem length_eq (h : RingLog n ring cursor log) : ring.length = min n log.length := by
  obtain ⟨l, r, rfl, -, hlog, -⟩ := h
  have hlen := congrArg List.length hlog
  rw [List.length_reverse, List.length_take, List.length_append] at hlen
  rw [List.length_append, hlen, Nat.add_comm]

theorem append (h : RingLog n ring cursor log) (hroom : ring.length < n) : RingLog n (ring ++ [a]) cursor (a :: log) := by
  have hlen := h.length_eq
  obtain ⟨l, r, rfl, rfl, hlog, hl, hlt⟩ := h
  obtain rfl := hl hroom
  refine ⟨[], r ++ [a], rfl, rfl, ?_, fun _ => rfl, hlt⟩
  rw [List.take_of_length_le (by omega), List.append_nil] at hlog
  rw [List.take_of_length_le (Nat.succ_le_of_lt (by omega)), List.reverse_cons, hlog, List.append_nil]

/-- The cursor of a full ring is at the oldest of its entries, and that is the one that goes. -/
theorem overwrite (h : RingLog n ring cursor log) (hfull : ¬ ring.length < n) :
    ring[cursor]? = log[n - 1]? ∧ RingLog n (ring.set cursor a) (if cursor + 1 = n then 0 else cursor + 1) (a :: log) := by
  have hlen := h.length_eq
  obtain ⟨l, r, rfl, rfl, hlog, -, hlt⟩ := h
  rw [List.length_append] at hfull hlen
  obtain ⟨m, rfl⟩ : ∃ m, n = m + 1 := ⟨n - 1, by omega⟩
  have hm : m < log.length := by omega
  rw [List.take_add_one, List.getElem?_eq_getElem hm, Option.toList_some, List.reverse_append, List.reverse_singleton] at hlog
  cases r with
  | nil =>
    rw [List.length_nil] at hfull
    omega
  | cons old r =>
    obtain ⟨hold, hlog : (log.take m).reverse = r ++ l⟩ := List.cons.inj hlog
    have hset : (l ++ old :: r).set l.length a = l ++ a :: r := by simp
    rw [List.length_cons] at hfull hlen
    refine ⟨?_, ?_⟩
    · rw [List.getElem?_append_right (Nat.le_refl _), Nat.sub_self, Nat.add_sub_cancel, List.getElem?_eq_getElem hm, hold]
      rfl
    rw [hset]
    split_ifs with hround
    · obtain rfl := List.eq_nil_of_length_eq_zero (show r.length = 0 by omega)
      refine ⟨[], l ++ [a], rfl, rfl, ?_, fun _ => rfl, Nat.succ_pos m⟩
      rw [List.take_succ_cons, List.reverse_cons, hlog, List.append_nil, List.nil_append]
    · refine ⟨l ++ [a], r, by simp, by simp, ?_, fun hlt => ?_, ?_⟩
      · rw [List.take_succ_cons, List.reverse_cons, hlog, List.append_assoc]
      · rw [List.length_append, List.length_cons] at hlt
        omega
      · rw [List.length_append, List.length_singleton]
        omega

end RingLog
