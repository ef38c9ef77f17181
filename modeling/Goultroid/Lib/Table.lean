import Mathlib.Data.List.Pairwise
import Mathlib.Data.List.Sort

/-!
# Tables with unique columns

The rows of a table stand in insertion order, and no two of them clash on their unique columns: an
insert that would clash is refused, an update may not touch those columns, a deletion keeps the rest
as it was. A query is a `find?` or a `filter` of the rows, and the rules below push it through the
three statements. A page is the first so many rows of a query in some order.
-/

/-- The rows of a table, oldest first, no two of which clash on the columns that `unique` reads. -/
structure Table {ρ κ : Type} (unique : ρ → κ) (clash : κ → κ → Prop) where
  rows : List ρ
  apart : rows.Pairwise fun a b => ¬ clash (unique a) (unique b)

namespace Table

variable {ρ κ : Type} {unique : ρ → κ} {clash : κ → κ → Prop}

@[ext] theorem ext {t t' : Table unique clash} (h : t.rows = t'.rows) : t = t' := by
  cases t; cases t'; cases h; rfl

def empty : Table unique clash := ⟨[], .nil⟩

section Statements

variable (t : Table unique clash)

/-- `INSERT`: refused if a row clashes with `r`. -/
def insert? [DecidableRel clash] (r : ρ) : Option (Table unique clash) :=
  if h : ∀ a ∈ t.rows, ¬ clash (unique a) (unique r) then
    some ⟨t.rows ++ [r], List.pairwise_append.mpr ⟨t.apart, List.pairwise_singleton _ _, by simpa using h⟩⟩
  else none

/-- `UPDATE … SET f WHERE p`, of columns that are not unique ones. -/
def update (p : ρ → Bool) (f : ρ → ρ) (hf : ∀ r, unique (f r) = unique r) : Table unique clash where
  rows := t.rows.map fun r => if p r then f r else r
  apart := by
    have hu : ∀ r, unique (if p r then f r else r) = unique r := by
      intro r
      split_ifs <;> simp [hf]
    simpa only [List.pairwise_map, hu] using t.apart

/-- `DELETE … WHERE p`. -/
def delete (p : ρ → Bool) : Table unique clash where
  rows := t.rows.filter fun r => !p r
  apart := t.apart.filter _

/-- How many rows `WHERE p` selects, which is what an `UPDATE` reports as affected. -/
def count (p : ρ → Bool) : Nat := t.rows.countP p

end Statements

variable {t : Table unique clash} {a r : ρ} {p q : ρ → Bool} {f : ρ → ρ} {hf : ∀ r, unique (f r) = unique r}

theorem insert?_eq_some {t' : Table unique clash} [DecidableRel clash] (h : t.insert? r = some t') :
    (∀ a ∈ t.rows, ¬ clash (unique a) (unique r)) ∧ t'.rows = t.rows ++ [r] := by
  unfold insert? at h
  split_ifs at h with hr
  cases h
  exact ⟨hr, rfl⟩

theorem insert?_eq_none [DecidableRel clash] (h : t.insert? r = none) : ∃ a ∈ t.rows, clash (unique a) (unique r) := by
  unfold insert? at h
  split_ifs at h with hr
  simpa using hr

theorem insert?_isSome [DecidableRel clash] (h : ∀ a ∈ t.rows, ¬ clash (unique a) (unique r)) : ∃ t', t.insert? r = some t' := by
  exact ⟨_, dif_pos h⟩

theorem eq_of_clash {b : ρ} [Std.Symm clash] (ha : a ∈ t.rows) (hb : b ∈ t.rows) (h : clash (unique a) (unique b)) : a = b := by
  have hsymm : Std.Symm fun a b : ρ => ¬ clash (unique a) (unique b) :=
    ⟨fun _ _ hxy hyx => hxy (Std.Symm.symm _ _ hyx)⟩
  by_contra hne
  exact t.apart.forall ha hb hne h

theorem find?_of_mem [Std.Symm clash] (ha : a ∈ t.rows) (hq : q a = true)
    (hone : ∀ b, q b = true → clash (unique a) (unique b)) : t.rows.find? q = some a := by
  cases hfind : t.rows.find? q with
  | none => exact absurd hq (List.find?_eq_none.mp hfind a ha)
  | some b =>
    have hclash := hone b (List.find?_some hfind)
    rw [eq_of_clash ha (List.mem_of_find?_eq_some hfind) hclash]

theorem mem_update : a ∈ (t.update p f hf).rows ↔ ∃ r ∈ t.rows, a = if p r then f r else r := by
  simp only [update, List.mem_map]
  exact ⟨fun ⟨r, hr, h⟩ => ⟨r, hr, h.symm⟩, fun ⟨r, hr, h⟩ => ⟨r, hr, h.symm⟩⟩

theorem find?_update (hf : ∀ r, unique (f r) = unique r) (hq : ∀ r, q (f r) = q r) :
    (t.update p f hf).rows.find? q = (t.rows.find? q).map fun r => if p r then f r else r := by
  have hcomposed : (q ∘ fun r => if p r then f r else r) = q := by
    funext r
    simp only [Function.comp_apply]
    split_ifs <;> simp [hq]
  rw [update, List.find?_map, hcomposed]

theorem mem_delete : a ∈ (t.delete p).rows ↔ a ∈ t.rows ∧ p a = false := by
  simp [delete]

theorem count_ne_zero (ha : a ∈ t.rows) (hp : p a = true) : t.count p ≠ 0 :=
  Nat.pos_iff_ne_zero.mp (List.countP_pos_iff.mpr ⟨a, ha, hp⟩)

/-- A predicate on a unique column that holds of a row selects that row alone. -/
theorem exists_split [Std.Symm clash] (ha : a ∈ t.rows) (hone : ∀ b, p b = true → clash (unique a) (unique b)) :
    ∃ before after, t.rows = before ++ a :: after ∧ (∀ b ∈ before, p b = false) ∧ ∀ b ∈ after, p b = false := by
  obtain ⟨before, after, heq⟩ := List.append_of_mem ha
  have hapart := t.apart
  rw [heq, List.pairwise_append, List.pairwise_cons] at hapart
  obtain ⟨-, ⟨hafter, -⟩, hbefore⟩ := hapart
  refine ⟨before, after, heq, ?_, ?_⟩
  · intro b hb
    refine Bool.eq_false_iff.mpr fun hpb => ?_
    exact hbefore b hb a List.mem_cons_self (Std.Symm.symm _ _ (hone b hpb))
  · intro b hb
    exact Bool.eq_false_iff.mpr fun hpb => hafter b hb (hone b hpb)

theorem count_eq_one [Std.Symm clash] (ha : a ∈ t.rows) (hp : p a = true)
    (hone : ∀ b, p b = true → clash (unique a) (unique b)) : t.count p = 1 := by
  obtain ⟨before, after, heq, hbefore, hafter⟩ := exists_split ha hone
  have hzero : ∀ rows : List ρ, (∀ b ∈ rows, p b = false) → rows.countP p = 0 := by
    intro rows hrows
    rw [List.countP_eq_zero]
    intro b hb
    simp [hrows b hb]
  rw [count, heq, List.countP_append, List.countP_cons, if_pos hp, hzero before hbefore, hzero after hafter]

theorem update_split {before after : List ρ} (hf : ∀ r, unique (f r) = unique r) (hbefore : ∀ b ∈ before, p b = false) (hp : p a = true)
    (hafter : ∀ b ∈ after, p b = false) (heq : t.rows = before ++ a :: after) : (t.update p f hf).rows = before ++ f a :: after := by
  have hkeep : ∀ rows : List ρ, (∀ b ∈ rows, p b = false) → (rows.map fun r => if p r then f r else r) = rows := by
    intro rows hrows
    refine (List.map_congr_left fun b hb => ?_).trans (List.map_id rows)
    simp [hrows b hb]
  show t.rows.map (fun r => if p r then f r else r) = _
  rw [heq, List.map_append, List.map_cons, hkeep before hbefore, hkeep after hafter, if_pos hp]

/-! ### Pages -/

section Pages

variable {r : ρ → ρ → Prop} [DecidableRel r] {l : List ρ} {k : Nat}

/-- A row that is not on the page comes after all of it, and the page is full. -/
theorem page_before [Std.Total r] [IsTrans ρ r] (ha : a ∈ l) (hpage : a ∉ (l.insertionSort r).take k) :
    ((l.insertionSort r).take k).length = k ∧ ∀ b ∈ (l.insertionSort r).take k, r b a := by
  obtain ⟨before, _, hsplit⟩ := List.append_of_mem ((List.perm_insertionSort r l).mem_iff.mpr ha)
  have hsorted := List.pairwise_insertionSort r l
  rw [hsplit] at hpage hsorted ⊢
  have hk : k ≤ before.length := by
    by_contra hlt
    refine hpage (List.mem_take_iff_getElem.mpr ⟨before.length, ?_, by simp⟩)
    simp only [List.length_append, List.length_cons]
    omega
  rw [List.take_append_of_le_length hk]
  refine ⟨by simp [hk], fun b hb => ?_⟩
  exact (List.pairwise_append.mp hsorted).2.2 b (List.mem_of_mem_take hb) a List.mem_cons_self

variable [DecidableEq ρ]

/-- In a sorted list the elements before one are those that come before it in the order. -/
theorem mem_take_iff_of_pairwise (hsorted : l.Pairwise r) (hnodup : l.Nodup) (hanti : ∀ b ∈ l, r a b → r b a → b = a) (ha : a ∈ l) :
    a ∈ l.take k ↔ l.countP (fun b => decide (r b a ∧ b ≠ a)) < k := by
  obtain ⟨before, after, rfl⟩ := List.append_of_mem ha
  obtain ⟨-, hafter, hbetween⟩ := List.pairwise_append.mp hsorted
  obtain ⟨-, _, hdisjoint⟩ := List.nodup_append.mp hnodup
  have hfirst : before.countP (fun b => decide (r b a ∧ b ≠ a)) = before.length := by
    rw [List.countP_eq_length]
    intro b hb
    exact decide_eq_true ⟨hbetween b hb a List.mem_cons_self, hdisjoint b hb a List.mem_cons_self⟩
  have hlast : after.countP (fun b => decide (r b a ∧ b ≠ a)) = 0 := by
    rw [List.countP_eq_zero]
    intro b hb hr
    obtain ⟨hba, hne⟩ := of_decide_eq_true hr
    exact hne (hanti b (by simp [hb]) (List.rel_of_pairwise_cons hafter hb) hba)
  have hcount : (before ++ a :: after).countP (fun b => decide (r b a ∧ b ≠ a)) = before.length := by
    rw [List.countP_append, List.countP_cons, hfirst, hlast, if_neg (by simp)]
    omega
  rw [hcount]
  constructor
  · intro htake
    by_contra hk
    rw [List.take_append_of_le_length (not_lt.mp hk)] at htake
    exact hdisjoint a (List.mem_of_mem_take htake) a List.mem_cons_self rfl
  · intro hk
    rw [List.mem_take_iff_getElem]
    exact ⟨before.length, by simp; omega, by simp⟩

/-- The page `ORDER BY r LIMIT k` holds the rows with fewer than `k` rows before them. -/
theorem mem_take_insertionSort [Std.Total r] [IsTrans ρ r] (hnodup : l.Nodup) (hanti : ∀ b ∈ l, r a b → r b a → b = a) :
    a ∈ (l.insertionSort r).take k ↔ a ∈ l ∧ l.countP (fun b => decide (r b a ∧ b ≠ a)) < k := by
  have hperm := List.perm_insertionSort r l
  by_cases ha : a ∈ l
  · rw [mem_take_iff_of_pairwise (List.pairwise_insertionSort r l) (hperm.nodup_iff.mpr hnodup)
      (fun b hb => hanti b (hperm.mem_iff.mp hb)) (hperm.mem_iff.mpr ha), hperm.countP_eq]
    exact (and_iff_right ha).symm
  · exact ⟨fun h => absurd (hperm.mem_iff.mp (List.mem_of_mem_take h)) ha, fun h => absurd h.1 ha⟩

end Pages

end Table
