import Mathlib.Data.List.Basic
import Mathlib.Data.Multiset.Basic

/-!
# The array heap of Go's `container/heap`

`up`, `down`, `push`, `pop` and `remove` as the package computes them, over an array and a `less`
test. What the users of the heap need is which elements it holds: `push` adds one, `pop` takes the
root, `remove` takes the element at its index, and nothing else comes or goes. Both sifts run on
fuel; a sift moves along one branch, so the length of the array is always enough.
-/

namespace Heap

open List Multiset Array

variable {α : Type} (less : α → α → Bool) {i : Nat} {h : Array α} {x : α}

/-- `h.Less(i, j)`. -/
def lessAt (h : Array α) (i j : Nat) : Bool :=
  match h[i]?, h[j]? with
  | some a, some b => less a b
  | _, _ => false

/-- `up(h, j)`. -/
def up : Nat → Array α → Nat → Array α
  | 0, h, _ => h
  | fuel + 1, h, j =>
    let i := (j - 1) / 2
    if i = j ∨ lessAt less h j i = false then h
    else up fuel (h.swapIfInBounds i j) i

/-- The child that `down` compares with: the smaller of the two below `n`. -/
def childOf (h : Array α) (i n : Nat) : Nat :=
  if 2 * i + 2 < n ∧ lessAt less h (2 * i + 2) (2 * i + 1) = true then 2 * i + 2 else 2 * i + 1

/-- `down(h, i, n)`, with the index it ends at. -/
def down : Nat → Array α → Nat → Nat → Array α × Nat
  | 0, h, i, _ => (h, i)
  | fuel + 1, h, i, n =>
    if n ≤ 2 * i + 1 then (h, i)
    else
      let j := childOf less h i n
      if lessAt less h j i = false then (h, i)
      else down fuel (h.swapIfInBounds i j) j n

/-- `heap.Push`. -/
def push (h : Array α) (x : α) : Array α := up less (h.size + 1) (h.push x) h.size

/-- `heap.Pop`: the root and the rest. -/
def pop (h : Array α) : Option α × Array α :=
  let n := h.size - 1
  let h' := (down less h.size (h.swapIfInBounds 0 n) 0 n).1
  (h'.back?, h'.pop)

/-- `heap.Remove(h, i)`: the element at `i` and the rest. -/
def remove (h : Array α) (i : Nat) : Option α × Array α :=
  let n := h.size - 1
  let h' :=
    if n = i then h
    else
      let d := down less h.size (h.swapIfInBounds i n) i n
      if i < d.2 then d.1 else up less h.size d.1 i
  (h'.back?, h'.pop)

/-! ### A sift permutes, and keeps to its range -/

theorem swapIfInBounds_perm (h : Array α) (i j : Nat) : (h.swapIfInBounds i j).Perm h := by
  rw [swapIfInBounds_def]
  split_ifs with hi hj
  · exact swap_perm hi hj
  · exact Array.Perm.refl _
  · exact Array.Perm.refl _

theorem getElem?_swapIfInBounds_of_ne {j k : Nat} (hi : k ≠ i) (hj : k ≠ j) : (h.swapIfInBounds i j)[k]? = h[k]? := by
  rw [swapIfInBounds_def]
  split_ifs with hi' hj'
  · rw [getElem?_swap, if_neg (Ne.symm hj), if_neg (Ne.symm hi)]
  · rfl
  · rfl

theorem up_perm (fuel : Nat) (h : Array α) (j : Nat) : (up less fuel h j).Perm h := by
  induction fuel generalizing h j with
  | zero => exact Array.Perm.refl _
  | succ fuel ih =>
    rw [up]
    split_ifs
    · exact Array.Perm.refl _
    · exact (ih _ _).trans (swapIfInBounds_perm _ _ _)

theorem down_perm (fuel : Nat) (h : Array α) (i n : Nat) : (down less fuel h i n).1.Perm h := by
  induction fuel generalizing h i with
  | zero => exact Array.Perm.refl _
  | succ fuel ih =>
    rw [down]
    split_ifs
    · exact Array.Perm.refl _
    · dsimp only
      split_ifs
      · exact Array.Perm.refl _
      · exact (ih _ _).trans (swapIfInBounds_perm _ _ _)

/-- An upward sift from `j` leaves everything after `j` alone. -/
theorem up_getElem? {fuel : Nat} (h : Array α) (j k : Nat) (hk : j < k) : (up less fuel h j)[k]? = h[k]? := by
  induction fuel generalizing h j with
  | zero => rfl
  | succ fuel ih =>
    rw [up]
    split_ifs
    · rfl
    · rw [ih _ _ (by omega), getElem?_swapIfInBounds_of_ne (by omega) (by omega)]

theorem childOf_lt {n : Nat} (h : Array α) (hn : ¬ n ≤ 2 * i + 1) : childOf less h i n < n := by
  rw [childOf]
  split_ifs <;> omega

/-- A downward sift below `n` leaves everything from `n` on alone. -/
theorem down_getElem? {fuel : Nat} (h : Array α) (i n k : Nat) (hi : i < k) (hk : n ≤ k) : (down less fuel h i n).1[k]? = h[k]? := by
  induction fuel generalizing h i with
  | zero => rfl
  | succ fuel ih =>
    rw [down]
    split_ifs with hn
    · rfl
    · dsimp only
      have hj := childOf_lt less h hn
      split_ifs
      · rfl
      · rw [ih _ _ (by omega), getElem?_swapIfInBounds_of_ne (by omega) (by omega)]

/-! ### What the heap holds -/

def bag (h : Array α) : Multiset α := h.toList

theorem bag_of_perm {h' : Array α} (hp : h'.Perm h) : bag h' = bag h :=
  coe_eq_coe.mpr hp.toList

theorem bag_push (h : Array α) (x : α) : bag (push less h x) = x ::ₘ bag h := by
  rw [push, bag_of_perm (up_perm _ _ _ _)]
  simp only [bag, toList_push, cons_coe]
  exact coe_eq_coe.mpr (perm_append_singleton x h.toList)

theorem bag_back (hx : h.back? = some x) : bag h = x ::ₘ bag h.pop := by
  have hl : h.toList.getLast? = some x := by simpa [Array.back?, getLast?_eq_getElem?] using hx
  have hne : h.toList ≠ [] := by
    intro he
    rw [he] at hl
    simp at hl
  have hlast : h.toList.getLast hne = x := by
    rw [getLast?_eq_some_getLast hne] at hl
    exact Option.some.inj hl
  have happ := dropLast_append_getLast hne
  rw [hlast] at happ
  simp only [bag, toList_pop, cons_coe]
  conv_lhs => rw [← happ]
  exact coe_eq_coe.mpr (perm_append_singleton x h.toList.dropLast)

theorem back?_eq : h.back? = h[h.size - 1]? := rfl

theorem pop_fst : (pop less h).1 = h[0]? := by
  rw [pop]
  simp only [back?_eq, (down_perm _ _ _ _ _).size_eq, size_swapIfInBounds]
  rcases Nat.eq_zero_or_pos h.size with h0 | hpos
  · have : h = #[] := eq_empty_of_size_eq_zero h0
    subst this
    rfl
  · rcases Nat.eq_zero_or_pos (h.size - 1) with h1 | h1
    · -- one element: both sifts are idle
      have hs : h.size = 1 := by omega
      rw [hs]
      simp [down, swapIfInBounds_def, hs]
    · rw [down_getElem? _ _ _ _ _ h1 (le_refl _), swapIfInBounds_def, dif_pos hpos,
        dif_pos (by omega), getElem?_swap]
      simp [hpos]

theorem bag_pop (hx : h[0]? = some x) : bag h = x ::ₘ bag (pop less h).2 := by
  have hb : (pop less h).1 = some x := by rw [pop_fst, hx]
  rw [← bag_of_perm (swapIfInBounds_perm h 0 (h.size - 1)),
    ← bag_of_perm (down_perm less h.size (h.swapIfInBounds 0 (h.size - 1)) 0 (h.size - 1))]
  exact bag_back hb

theorem remove_fst (hi : i < h.size) : (remove less h i).1 = h[i]? := by
  rw [remove]
  by_cases hn : h.size - 1 = i
  · simp [hn, back?_eq]
  · have hlt : i < h.size - 1 := by omega
    simp only [if_neg hn]
    have hdown : (down less h.size (h.swapIfInBounds i (h.size - 1)) i (h.size - 1)).1[h.size - 1]?
        = h[i]? := by
      rw [down_getElem? _ _ _ _ _ hlt (le_refl _), swapIfInBounds_def, dif_pos hi,
        dif_pos (by omega), getElem?_swap]
      simp [hi]
    split_ifs
    · simp only [back?_eq, (down_perm _ _ _ _ _).size_eq, size_swapIfInBounds]
      exact hdown
    · simp only [back?_eq, (up_perm _ _ _ _).size_eq, (down_perm _ _ _ _ _).size_eq,
        size_swapIfInBounds]
      rw [up_getElem? _ _ _ _ hlt]
      exact hdown

theorem bag_remove (hx : h[i]? = some x) : bag h = x ::ₘ bag (remove less h i).2 := by
  have hi : i < h.size := by
    by_contra hc
    rw [Array.getElem?_eq_none (by omega)] at hx
    cases hx
  have hb := remove_fst less hi
  rw [hx] at hb
  have hperm : ∀ h' : Array α, h'.Perm h → h'.back? = some x → bag h = x ::ₘ bag h'.pop := by
    intro h' hp hb'
    rw [← bag_of_perm hp]
    exact bag_back hb'
  rw [remove] at hb ⊢
  dsimp only at hb ⊢
  split_ifs at hb ⊢
  · exact hperm _ (Array.Perm.refl _) hb
  · exact hperm _ ((down_perm _ _ _ _ _).trans (swapIfInBounds_perm _ _ _)) hb
  · exact hperm _ ((up_perm _ _ _ _).trans
      ((down_perm _ _ _ _ _).trans (swapIfInBounds_perm _ _ _))) hb

end Heap
