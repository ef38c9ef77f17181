import Goultroid.Lib.FinMap
import Mathlib.Data.Finset.Card
import Mathlib.Logic.Function.Basic

/-!
# Indexes over a finite map

A finite map of records is kept beside indexes that answer questions about it: which keys have a given class
(`Partitions`), which key holds a given claim (`Inverse`), how many keys there are of a kind (`Counts`). An
index is right for what it sees of the map, its `view`; an update of the map that the view does not see needs
no work, and the others move the view at one key.
-/

namespace AList

variable {κ υ γ : Type} [DecidableEq κ] {k : κ} {v w : υ}

/-- What `f` sees of the entry at each key. -/
def view (f : υ → Option γ) (m : AList fun _ : κ => υ) (k : κ) : Option γ := (m.lookup k).bind f

section View

variable (f : υ → Option γ) {m : AList fun _ : κ => υ}

theorem view_of_lookup (h : m.lookup k = some v) : m.view f k = f v := by
  rw [view, h]
  rfl

theorem view_of_none (h : m.lookup k = none) : m.view f k = none := by
  rw [view, h]
  rfl

theorem view_insert (m : AList fun _ : κ => υ) (k : κ) (v : υ) : (m.insert k v).view f = Function.update (m.view f) k (f v) := by
  funext k'
  rw [view, lookup_insert_eq, Function.update_apply]
  split_ifs <;> rfl

theorem view_erase : (m.erase k).view f = Function.update (m.view f) k none := by
  funext k'
  rw [view, lookup_erase_eq, Function.update_apply]
  split_ifs <;> rfl

theorem view_insert_of_eq (h : m.lookup k = some w) (hf : f v = f w) : (m.insert k v).view f = m.view f := by
  rw [view_insert, hf, ← view_of_lookup f h, Function.update_eq_self]

end View

theorem erase_insert_self (m : AList fun _ : κ => υ) (k : κ) (v : υ) : (m.insert k v).erase k = m.erase k := by
  refine ext ?_
  exact List.kerase_cons_eq rfl

end AList

namespace Index

open AList (lookup_insert_eq lookup_erase_eq)

variable {κ γ : Type} [DecidableEq γ] {view : κ → Option γ} {k : κ} {g : γ}

/-! ### Classes -/

/-- The index lists the keys of every class, and no class without keys. -/
structure Partitions (view : κ → Option γ) (ix : AList fun _ : γ => Finset κ) : Prop where
  nonempty : ∀ g ids, ix.lookup g = some ids → ids.Nonempty
  mem : ∀ k g, k ∈ ix.getD g ∅ ↔ view k = some g

section Partitions

variable {ix : AList fun _ : γ => Finset κ}

theorem partitions_empty : Partitions (fun _ : κ => (none : Option γ)) ∅ where
  nonempty _ _ h := nomatch h
  mem _ _ := by simp

/-- Set the class `g` to `ids`. -/
theorem Partitions.put {view' : κ → Option γ} {ids : Finset κ} (h : Partitions view ix) (hids : ids.Nonempty)
    (hself : ∀ k, k ∈ ids ↔ view' k = some g) (hother : ∀ k g', g' ≠ g → (view' k = some g' ↔ view k = some g')) :
    Partitions view' (ix.insert g ids) where
  nonempty g' ids' hlook := by
    rw [lookup_insert_eq] at hlook
    split_ifs at hlook with heq
    · exact Option.some.inj hlook ▸ hids
    · exact h.nonempty g' ids' hlook
  mem k g' := by
    rw [AList.getD_insert]
    split_ifs with heq
    · rw [heq]
      exact hself k
    · rw [hother k g' heq]
      exact h.mem k g'

variable [DecidableEq κ]

theorem Partitions.add (h : Partitions view ix) (hk : view k = none) (g : γ) :
    Partitions (Function.update view k (some g)) (ix.insert g (insert k (ix.getD g ∅))) := by
  refine h.put (Finset.insert_nonempty _ _) (fun k' => ?_) fun k' g' hne => ?_
  · rw [Finset.mem_insert, h.mem, Function.update_apply]
    split_ifs with heq
    · simp [heq]
    · simp [heq]
  · rw [Function.update_apply]
    split_ifs with heq
    · rw [heq, hk]
      simp [Ne.symm hne]
    · rfl

theorem Partitions.drop (h : Partitions view ix) (hk : view k = some g) : Partitions (Function.update view k none)
      (if (ix.getD g ∅).erase k = ∅ then ix.erase g else ix.insert g ((ix.getD g ∅).erase k)) := by
  have hself : ∀ k', k' ∈ (ix.getD g ∅).erase k ↔ Function.update view k none k' = some g := by
    intro k'
    rw [Finset.mem_erase, h.mem, Function.update_apply]
    split_ifs with heq
    · simp [heq]
    · simp [heq]
  have hother : ∀ k' g', g' ≠ g → (Function.update view k none k' = some g' ↔ view k' = some g') := by
    intro k' g' hne
    rw [Function.update_apply]
    split_ifs with heq
    · rw [heq, hk]
      simp [Ne.symm hne]
    · rfl
  split_ifs with hempty
  · refine ⟨fun g' ids hlook => ?_, fun k' g' => ?_⟩
    · rw [lookup_erase_eq] at hlook
      split_ifs at hlook
      exact h.nonempty g' ids hlook
    · by_cases hg : g' = g
      · subst hg
        rw [AList.getD_erase_self, ← hself, hempty]
      · rw [AList.getD_erase_ne hg, hother k' g' hg]
        exact h.mem k' g'
  · exact h.put (Finset.nonempty_iff_ne_empty.mpr hempty) hself hother

theorem card_drop_le (ix : AList fun _ : γ => Finset κ) (k : κ) (g g' : γ) :
    ((if (ix.getD g ∅).erase k = ∅ then ix.erase g else ix.insert g ((ix.getD g ∅).erase k)).getD g' ∅).card ≤ (ix.getD g' ∅).card := by
  split_ifs with hempty
  · by_cases hg : g' = g
    · rw [hg, AList.getD_erase_self]
      exact Nat.zero_le _
    · rw [AList.getD_erase_ne hg]
  · rw [AList.getD_insert]
    split_ifs with hg
    · rw [hg]
      exact Finset.card_erase_le
    · exact le_refl _

end Partitions

/-! ### Claims -/

/-- The index and the claims of the keys are inverse to each other. -/
def Inverse (view : κ → Option γ) (ix : AList fun _ : γ => κ) : Prop := ∀ g k, ix.lookup g = some k ↔ view k = some g

section Inverse

variable {ix : AList fun _ : γ => κ}

theorem inverse_empty : Inverse (fun _ : κ => (none : Option γ)) ∅ := by
  intro g k
  simp

variable [DecidableEq κ]

theorem Inverse.add (h : Inverse view ix) (hk : view k = none) (hg : ix.lookup g = none) :
    Inverse (Function.update view k (some g)) (ix.insert g k) := by
  intro g' k'
  rw [lookup_insert_eq, Function.update_apply]
  split_ifs with hg' hk' hk'
  · simp [hg', hk']
  · subst hg'
    rw [← h g' k', hg]
    simp [Ne.symm hk']
  · rw [h g' k', hk', hk]
    simp [Ne.symm hg']
  · exact h g' k'

theorem Inverse.drop (h : Inverse view ix) (hk : view k = some g) : Inverse (Function.update view k none) (ix.erase g) := by
  intro g' k'
  rw [lookup_erase_eq, Function.update_apply]
  split_ifs with hg' hk' hk'
  · simp
  · subst hg'
    have hself := (h g' k).mpr hk
    rw [← h g' k', hself]
    simp [Ne.symm hk']
  · rw [h g' k', hk', hk]
    simp [Ne.symm hg']
  · exact h g' k'

end Inverse

/-! ### Counters -/

/-- The counters are those of `count`, and no counter stands at zero. -/
def Counts (count : γ → ℤ) (c : AList fun _ : γ => ℤ) : Prop :=
  ∀ g, c.lookup g = if count g = 0 then none else some (count g)

section Counts

variable {count : γ → ℤ} {c : AList fun _ : γ => ℤ}

theorem Counts.getD (h : Counts count c) (g : γ) : c.getD g 0 = count g := by
  rw [AList.getD, h g]
  split_ifs with hzero
  · exact hzero.symm
  · rfl

theorem Counts.incr (h : Counts count c) (hg : 0 ≤ count g) :
    Counts (Function.update count g (count g + 1)) (c.insert g (c.getD g 0 + 1)) := by
  intro g'
  rw [lookup_insert_eq, Function.update_apply, h.getD]
  split_ifs with hg' hzero hzero
  · omega
  · rfl
  · rw [h g', if_pos hzero]
  · rw [h g', if_neg hzero]

theorem Counts.decr (h : Counts count c) (hg : 0 < count g) : Counts (Function.update count g (count g - 1))
      (if c.getD g 0 ≤ 1 then c.erase g else c.insert g (c.getD g 0 - 1)) := by
  intro g'
  rw [Function.update_apply, h.getD]
  split_ifs with hone hg' hzero hzero hg' hzero hzero
  · rw [hg', AList.lookup_erase]
  · omega
  · rw [AList.lookup_erase_ne hg', h g', if_pos hzero]
  · rw [AList.lookup_erase_ne hg', h g', if_neg hzero]
  · omega
  · rw [hg', AList.lookup_insert]
  · rw [AList.lookup_insert_ne hg', h g', if_pos hzero]
  · rw [AList.lookup_insert_ne hg', h g', if_neg hzero]

end Counts

end Index
