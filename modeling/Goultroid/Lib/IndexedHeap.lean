import Mathlib.Data.List.Nodup
import Mathlib.Logic.Function.Basic
import Goultroid.Lib.Heap

/-!
# Heaps whose elements know their place

The array heap of `Heap` for elements that carry their position: `Swap`, `Push` and `Pop` of the element
type write it, so that an element can be taken out without a search. The array is the one `Heap` computes
(`items_up`, `items_down`), and the positions are right after every operation (`Placed`).
-/

namespace Heap

open List Array

structure Indexed (α : Type) where
  items : Array α
  /-- the position that an element remembers -/
  index : α → Int

namespace Indexed

variable {α : Type} {h h' : Indexed α} {x y : α} {i j k : Nat}

/-- Every element stands where it says. -/
def Placed (h : Indexed α) : Prop := ∀ (i : Nat) (x : α), h.items[i]? = some x → h.index x = i

theorem Placed.eq (hp : h.Placed) (hi : h.items[i]? = some x) (hj : h.items[j]? = some x) : i = j := by
  have hindex := (hp i x hi).symm.trans (hp j x hj)
  omega

theorem Placed.nodup (hp : h.Placed) : h.items.toList.Nodup := by
  refine nodup_iff_getElem?_ne_getElem?.mpr fun i j hij hj heq => ?_
  have hsome := List.getElem?_eq_getElem hj
  have hne := hp.eq (by rw [← getElem?_toList]; exact heq.trans hsome)
    (by rw [← getElem?_toList]; exact hsome)
  omega

theorem eq_of_nodup {a : Array α} (hnodup : a.toList.Nodup) (hi : a[i]? = some x) (hj : a[j]? = some x) : i = j := by
  rw [← getElem?_toList] at hi hj
  exact (List.getElem?_inj (List.getElem?_eq_some_iff.mp hi).1 hnodup).mp (hi.trans hj.symm)

/-- Elements have changed places: the same are there, they know where, and the others have noticed nothing. -/
structure Sifted (h h' : Indexed α) : Prop where
  perm : h'.items.Perm h.items
  placed : h.Placed → h'.Placed
  index : ∀ y, y ∉ h.items → h'.index y = h.index y

theorem Sifted.refl (h : Indexed α) : Sifted h h := ⟨.refl _, id, fun _ _ => rfl⟩

theorem Sifted.mem_iff (hs : Sifted h h') : y ∈ h'.items ↔ y ∈ h.items := hs.perm.mem_iff

theorem Sifted.trans {h'' : Indexed α} (hs : Sifted h h') (hs' : Sifted h' h'') : Sifted h h'' where
  perm := hs'.perm.trans hs.perm
  placed hp := hs'.placed (hs.placed hp)
  index y hy := (hs'.index y (mt hs.mem_iff.mp hy)).trans (hs.index y hy)

variable [DecidableEq α] (less : α → α → Bool)

/-! ### Operations -/

/-- The element at `k` is told its position. -/
def note (h : Indexed α) (k : Nat) : Indexed α :=
  match h.items[k]? with
  | none => h
  | some x => { h with index := Function.update h.index x k }

def swap (h : Indexed α) (i j : Nat) : Indexed α :=
  (note { h with items := h.items.swapIfInBounds i j } i).note j

def up : Nat → Indexed α → Nat → Indexed α
  | 0, h, _ => h
  | fuel + 1, h, j =>
    let i := (j - 1) / 2
    if i = j ∨ lessAt less h.items j i = false then h
    else up fuel (h.swap i j) i

def down : Nat → Indexed α → Nat → Nat → Indexed α × Nat
  | 0, h, i, _ => (h, i)
  | fuel + 1, h, i, n =>
    if n ≤ 2 * i + 1 then (h, i)
    else
      let j := childOf less h.items i n
      if lessAt less h.items j i = false then (h, i)
      else down fuel (h.swap i j) j n

/-- `heap.Push`. -/
def push (h : Indexed α) (x : α) : Indexed α :=
  up less (h.items.size + 1) ⟨h.items.push x, Function.update h.index x h.items.size⟩ h.items.size

/-- `Pop` of the element type: the last element, which forgets its position. -/
def popBack (h : Indexed α) : Option α × Indexed α :=
  match h.items.back? with
  | none => (none, h)
  | some x => (some x, ⟨h.items.pop, Function.update h.index x (-1)⟩)

/-- `heap.Pop`. -/
def pop (h : Indexed α) : Option α × Indexed α :=
  let n := h.items.size - 1
  (down less h.items.size (h.swap 0 n) 0 n).1.popBack

/-- `heap.Remove(h, i)`. -/
def remove (h : Indexed α) (i : Nat) : Option α × Indexed α :=
  let n := h.items.size - 1
  if n = i then h.popBack
  else
    let d := down less h.items.size (h.swap i n) i n
    (if i < d.2 then d.1 else up less h.items.size d.1 i).popBack

/-- `heap.Fix(h, i)`. -/
def fix (h : Indexed α) (i : Nat) : Indexed α :=
  let d := down less h.items.size h i h.items.size
  if i < d.2 then d.1 else up less h.items.size d.1 i

/-- The element stands where it says. -/
def holds (h : Indexed α) (x : α) : Bool :=
  decide (0 ≤ h.index x) && decide (h.index x < h.items.size) && decide (h.items[(h.index x).toNat]? = some x)

/-! ### The array is that of the plain heap -/

section Items

@[simp] theorem items_note : (h.note k).items = h.items := by
  unfold note
  split <;> rfl

@[simp] theorem items_swap : (h.swap i j).items = h.items.swapIfInBounds i j := by
  simp only [swap, items_note]

theorem items_up {fuel : Nat} : (up less fuel h j).items = Heap.up less fuel h.items j := by
  induction fuel generalizing h j with
  | zero => rfl
  | succ fuel ih =>
    rw [up, Heap.up]
    split_ifs
    · rfl
    · rw [ih, items_swap]

theorem items_down {fuel : Nat} (h : Indexed α) (i n : Nat) : (down less fuel h i n).1.items = (Heap.down less fuel h.items i n).1 ∧
      (down less fuel h i n).2 = (Heap.down less fuel h.items i n).2 := by
  induction fuel generalizing h i with
  | zero => exact ⟨rfl, rfl⟩
  | succ fuel ih =>
    rw [down, Heap.down]
    split_ifs
    · exact ⟨rfl, rfl⟩
    · dsimp only
      split_ifs
      · exact ⟨rfl, rfl⟩
      · rw [← items_swap]
        exact ih _ _

theorem popBack_eq : h.popBack.1 = h.items.back? ∧ h.popBack.2.items = h.items.pop := by
  unfold popBack
  split
  · next hnone => exact ⟨hnone.symm, (back?_eq_none_iff.mp hnone) ▸ rfl⟩
  · next hsome => exact ⟨hsome.symm, rfl⟩

theorem pop_eq : (pop less h).1 = (Heap.pop less h.items).1 ∧ (pop less h).2.items = (Heap.pop less h.items).2 := by
  rw [pop, Heap.pop]
  rw [popBack_eq.1, popBack_eq.2, (items_down less _ _ _).1, items_swap]
  exact ⟨rfl, rfl⟩

theorem remove_eq : (remove less h i).2.items = (Heap.remove less h.items i).2 := by
  obtain ⟨hitems, hend⟩ := items_down less (h.swap i (h.items.size - 1)) i (h.items.size - 1)
  rw [items_swap] at hitems hend
  rw [remove, Heap.remove]
  dsimp only
  split_ifs with hn hmoved hmoved' hmoved'
  · exact popBack_eq.2
  · rw [popBack_eq.2, hitems]
  · exact absurd (hend ▸ hmoved) hmoved'
  · exact absurd (hend.symm ▸ hmoved') hmoved
  · rw [popBack_eq.2, items_up, hitems]

end Items

/-! ### Positions -/

section Placed

theorem Placed.holds_iff (hp : h.Placed) : h.holds x = true ↔ x ∈ h.items := by
  simp only [holds, Bool.and_eq_true, decide_eq_true_eq]
  constructor
  · rintro ⟨-, hat⟩
    exact mem_of_getElem? hat
  · intro hx
    obtain ⟨i, hi⟩ := getElem?_of_mem hx
    have hindex := hp i x hi
    have hlt := (Array.getElem?_eq_some_iff.mp hi).1
    rw [hindex]
    exact ⟨⟨by omega, by omega⟩, hi⟩

theorem getElem?_of_holds (hx : h.holds x = true) : h.items[(h.index x).toNat]? = some x := by
  simp only [holds, Bool.and_eq_true, decide_eq_true_eq] at hx
  exact hx.2

theorem note_index : (h.note k).index y = if h.items[k]? = some y then (k : Int) else h.index y := by
  unfold note
  split
  · next hnone => rw [hnone, if_neg (by simp)]
  · next x hx =>
    rw [hx]
    by_cases hy : y = x
    · subst hy
      simp
    · rw [if_neg fun heq => hy (Option.some.inj heq).symm]
      exact Function.update_of_ne hy _ _

theorem index_note (hy : y ∉ h.items) : (h.note k).index y = h.index y := by
  rw [note_index, if_neg fun hk => hy (mem_of_getElem? hk)]

theorem swap_sifted (h : Indexed α) (i j : Nat) : Sifted h (h.swap i j) := by
  have hperm := swapIfInBounds_perm h.items i j
  refine ⟨by rwa [items_swap], fun hp k x hk => ?_, fun y hy => ?_⟩
  · rw [items_swap] at hk
    have hnodup : (h.items.swapIfInBounds i j).toList.Nodup := hperm.toList.nodup_iff.mpr hp.nodup
    simp only [swap, note_index, items_note]
    split_ifs with hj hi
    · rw [eq_of_nodup hnodup hk hj]
    · rw [eq_of_nodup hnodup hk hi]
    · -- neither of the two that moved
      have hki : k ≠ i := fun heq => hi (heq ▸ hk)
      have hkj : k ≠ j := fun heq => hj (heq ▸ hk)
      rw [getElem?_swapIfInBounds_of_ne hki hkj] at hk
      exact hp k x hk
  · have hswap : y ∉ h.items.swapIfInBounds i j := mt hperm.mem_iff.mp hy
    rw [swap, index_note (by rwa [items_note]), index_note hswap]

theorem up_sifted (fuel : Nat) (h : Indexed α) (j : Nat) : Sifted h (up less fuel h j) := by
  induction fuel generalizing h j with
  | zero => exact .refl h
  | succ fuel ih =>
    rw [up]
    split_ifs
    · exact .refl h
    · exact (swap_sifted h _ _).trans (ih _ _)

theorem down_sifted (fuel : Nat) (h : Indexed α) (i n : Nat) : Sifted h (down less fuel h i n).1 := by
  induction fuel generalizing h i with
  | zero => exact .refl h
  | succ fuel ih =>
    rw [down]
    split_ifs
    · exact .refl h
    · dsimp only
      split_ifs
      · exact .refl h
      · exact (swap_sifted h _ _).trans (ih _ _)

theorem fix_sifted (h : Indexed α) (i : Nat) : Sifted h (fix less h i) := by
  rw [fix]
  split_ifs
  · exact down_sifted less _ h _ _
  · exact (down_sifted less _ h _ _).trans (up_sifted less _ _ _)

/-- What `heap.Remove` sifts before it takes the last element. -/
theorem remove_sifted (h : Indexed α) (i : Nat) : ∃ h', Sifted h h' ∧ remove less h i = h'.popBack := by
  rw [remove]
  split_ifs
  · exact ⟨h, .refl h, rfl⟩
  · have hdown := (swap_sifted h i (h.items.size - 1)).trans (down_sifted less h.items.size _ i (h.items.size - 1))
    dsimp only
    split_ifs
    · exact ⟨_, hdown, rfl⟩
    · exact ⟨_, hdown.trans (up_sifted less _ _ _), rfl⟩

theorem Placed.popBack (hp : h.Placed) : h.popBack.2.Placed := by
  unfold Indexed.popBack
  split
  · exact hp
  · next x hx =>
    intro i y hi
    rw [getElem?_pop] at hi
    split_ifs at hi with hlt
    have hne : y ≠ x := by
      rintro rfl
      have := hp.eq hi (back?_eq.symm.trans hx)
      omega
    exact (Function.update_of_ne hne _ _).trans (hp i y hi)

theorem index_popBack (hy : y ∉ h.items) : h.popBack.2.index y = h.index y := by
  unfold popBack
  split
  · rfl
  · next x hx =>
    have hne : y ≠ x := fun heq => hy (heq ▸ mem_of_back? hx)
    exact Function.update_of_ne hne _ _

theorem index_popBack_self (hx : h.popBack.1 = some x) : h.popBack.2.index x = -1 := by
  unfold popBack at hx ⊢
  split at hx
  · cases hx
  · next x' hx' =>
    cases hx
    exact Function.update_self _ _ _

theorem push_spec (hp : h.Placed) (hx : x ∉ h.items) : (push less h x).Placed ∧ bag (push less h x).items = x ::ₘ bag h.items ∧
    ∀ y, y ∉ h.items → y ≠ x → (push less h x).index y = h.index y := by
  have hs := up_sifted less (h.items.size + 1) ⟨h.items.push x, Function.update h.index x h.items.size⟩ h.items.size
  refine ⟨hs.placed fun i y hi => ?_, ?_, fun y hy hne => ?_⟩
  · rw [getElem?_push] at hi
    split_ifs at hi with hlast
    · cases hi
      simp [hlast]
    · have hne : y ≠ x := fun heq => hx (heq ▸ mem_of_getElem? hi)
      exact (Function.update_of_ne hne _ _).trans (hp i y hi)
  · rw [push, items_up]
    exact bag_push less h.items x
  · exact (hs.index y (by simp [hy, hne])).trans (Function.update_of_ne hne _ _)

theorem pop_spec (hp : h.Placed) (hx : h.items[0]? = some x) :
    (pop less h).1 = some x ∧ (pop less h).2.Placed ∧ bag h.items = x ::ₘ bag (pop less h).2.items ∧
      (pop less h).2.index x = -1 ∧ ∀ y, y ∉ h.items → (pop less h).2.index y = h.index y := by
  have hs := (swap_sifted h 0 (h.items.size - 1)).trans (down_sifted less h.items.size _ 0 (h.items.size - 1))
  have hfst := (pop_eq less).1.trans ((pop_fst less).trans hx)
  refine ⟨hfst, (hs.placed hp).popBack, ?_, index_popBack_self hfst, fun y hy => ?_⟩
  · rw [(pop_eq less).2]
    exact bag_pop less hx
  · exact (index_popBack (mt hs.mem_iff.mp hy)).trans (hs.index y hy)

theorem remove_spec (hp : h.Placed) (hx : h.items[i]? = some x) :
    (remove less h i).2.Placed ∧ bag h.items = x ::ₘ bag (remove less h i).2.items ∧
      ∀ y, y ∉ h.items → (remove less h i).2.index y = h.index y := by
  obtain ⟨h', hs, heq⟩ := remove_sifted less h i
  refine ⟨heq ▸ (hs.placed hp).popBack, ?_, fun y hy => ?_⟩
  · rw [remove_eq]
    exact bag_remove less hx
  · rw [heq, index_popBack (mt hs.mem_iff.mp hy), hs.index y hy]

end Placed

end Indexed

end Heap
