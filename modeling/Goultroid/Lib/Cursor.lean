import Mathlib.Data.List.GetD
import Mathlib.Data.List.Rotate

/-!
# Round-robin cursors

A cursor walks a list and wraps around at its end. A round either moves it one place on or erases
the element under it, which puts the next element under it. `ahead l cursor k` is what the next `k`
rounds will meet; a scan of as many rounds as the list is long meets every element.
-/

namespace Cursor

open List

variable {α : Type} {l : List α} {x : α} {cursor k : Nat}

def wrap (l : List α) (cursor : Nat) : Nat := if l.length ≤ cursor then 0 else cursor

/-- The elements the next `k` rounds meet. -/
def ahead (l : List α) (cursor k : Nat) : List α := (l.rotate (wrap l cursor)).take k

theorem wrap_lt (hl : l ≠ []) (cursor : Nat) : wrap l cursor < l.length := by
  have := length_pos_iff.mpr hl
  rw [wrap]
  split_ifs <;> omega

theorem rotate_wrap (h : cursor ≤ l.length) : l.rotate (wrap l cursor) = l.drop cursor ++ l.take cursor := by
  rw [wrap]
  split_ifs with hlen
  · obtain rfl : cursor = l.length := by omega
    simp
  · rw [rotate_eq_drop_append_take h]

theorem rotate_of_lt {d : α} (h : cursor < l.length) : l.rotate cursor = l.getD cursor d :: (l.drop (cursor + 1) ++ l.take cursor) := by
  rw [rotate_eq_drop_append_take h.le, drop_eq_getElem_cons h, cons_append,
    getD_eq_getElem _ _ h]

/-- A round that erases the element under the cursor. -/
theorem mem_ahead_erase (d : α) (hl : l ≠ []) (hx : x ∈ ahead l cursor (k + 1)) :
    x = l.getD (wrap l cursor) d ∨ x ∈ ahead (l.eraseIdx (wrap l cursor)) (wrap l cursor) k := by
  have hlt := wrap_lt hl cursor
  generalize hw : wrap l cursor = i at hlt
  have hlen : (l.eraseIdx i).length = l.length - 1 := length_eraseIdx_of_lt hlt
  rw [ahead, hw, rotate_of_lt hlt, take_succ_cons] at hx
  rw [ahead, rotate_wrap (by omega : i ≤ (l.eraseIdx i).length), eraseIdx_eq_take_drop_succ]
  have htake : (l.take i).length = i := by simp; omega
  rw [drop_left' htake, take_left' htake]
  exact mem_cons.mp hx

/-- A round that moves on. -/
theorem mem_ahead_advance (d : α) (hl : l ≠ []) (hx : x ∈ ahead l cursor (k + 1)) :
    x = l.getD (wrap l cursor) d ∨ x ∈ ahead l (wrap l cursor + 1) k := by
  have hlt := wrap_lt hl cursor
  generalize hw : wrap l cursor = i at hlt
  rw [ahead, hw, rotate_of_lt hlt, take_succ_cons] at hx
  rw [ahead, rotate_wrap (by omega : i + 1 ≤ l.length), take_add_one,
    getElem?_eq_getElem hlt, ← append_assoc]
  rcases mem_cons.mp hx with hx | hx
  · exact .inl hx
  · exact .inr ((prefix_append _ _).take k |>.subset hx)

/-- A scan as long as the list meets everything. -/
theorem mem_ahead_length (hx : x ∈ l) : x ∈ ahead l cursor l.length := by
  rw [ahead, take_of_length_le (by simp)]
  exact mem_rotate.mpr hx

theorem notMem_ahead_nil : x ∉ ahead [] cursor k := by
  simp [ahead]

theorem notMem_ahead_zero : x ∉ ahead l cursor 0 := by
  simp [ahead]

end Cursor
