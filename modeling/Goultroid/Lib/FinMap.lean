import Mathlib.Data.List.AList
import Mathlib.Algebra.BigOperators.Group.Multiset.Basic
import Mathlib.Algebra.Order.BigOperators.Group.List
import Mathlib.Algebra.Order.Group.Int
import Mathlib.Data.Multiset.AddSub
import Mathlib.Tactic.Abel

/-!
# Finite maps with zero-value reads, and totals over them

Mathlib's `AList` is the finite map. Two things are added. `getD` reads a missing key as a default,
and `total f m` adds `f k v` over the entries, in any commutative monoid: integers give counters and
byte sums, multisets give the bag of what a map of containers holds. A counter that shadows a map is
then an equation with a `total`, and the three rules `total_insert`, `total_eq_add_erase` and
`erase_of_none` say how every update of the map moves it.
-/

/-- What is found in a map can be looked at. -/
instance Option.decidableExistsSome {α : Type} {o : Option α} {P : α → Prop} [DecidablePred P] : Decidable (∃ a, o = some a ∧ P a) :=
  decidable_of_iff (o.any (fun a => decide (P a)) = true) (by simp [Option.any_eq_true])

namespace AList

open List Option

variable {κ υ M : Type} {k k' : κ} {v w d : υ} {m : AList fun _ : κ => υ}

/-- Apply `f` to every value. -/
def mapVal (f : υ → υ) (m : AList fun _ : κ => υ) : AList fun _ : κ => υ where
  entries := m.entries.map fun s => ⟨s.1, f s.2⟩
  nodupKeys := by
    have h : (m.entries.map fun s => (⟨s.1, f s.2⟩ : Sigma fun _ : κ => υ)).keys = m.entries.keys := by
      simp [List.keys, Function.comp_def]
    rw [List.NodupKeys, h]
    exact m.nodupKeys

section Entries

variable [AddCommMonoid M]

/-- The sum of `f` over the entries. -/
def total (f : κ → υ → M) (m : AList fun _ : κ => υ) : M := (m.entries.map fun s => f s.1 s.2).sum

@[simp] theorem total_empty (f : κ → υ → M) : total f (∅ : AList fun _ : κ => υ) = 0 := rfl

theorem total_zero : total (fun _ _ => (0 : M)) m = 0 := by
  simp [total]

theorem total_mapVal {f : κ → υ → M} {g : υ → υ} : total f (m.mapVal g) = total (fun k v => f k (g v)) m := by
  simp [total, mapVal, Function.comp_def]

theorem map_total {N : Type} [AddCommMonoid N] (φ : M →+ N) (f : κ → υ → M)
    (m : AList fun _ : κ => υ) : φ (total f m) = total (fun k v => φ (f k v)) m := by
  simp [total, map_list_sum, Function.comp_def]

end Entries

theorem total_one : total (fun _ _ => (1 : ℤ)) m = m.entries.length := by
  simp [total]

theorem total_ite_eq_countP (p : κ → υ → Bool) (m : AList fun _ : κ => υ) :
    total (fun k v => if p k v = true then (1 : ℤ) else 0) m = m.entries.countP fun s => p s.1 s.2 := by
  unfold total
  induction m.entries with
  | nil => rfl
  | cons s l ih =>
    rw [map_cons, sum_cons, ih, countP_cons]
    dsimp only
    split_ifs <;> omega

variable [DecidableEq κ]

/-- Read `k`, with `d` for a missing key. -/
def getD (m : AList fun _ : κ => υ) (k : κ) (d : υ) : υ := (m.lookup k).getD d

section getD

@[simp] theorem getD_empty : (∅ : AList fun _ : κ => υ).getD k d = d := rfl

@[simp] theorem getD_insert_self : (m.insert k v).getD k d = v := by
  simp [getD]

theorem getD_insert_ne (h : k' ≠ k) : (m.insert k v).getD k' d = m.getD k' d := by
  simp [getD, lookup_insert_ne h]

theorem getD_insert : (m.insert k v).getD k' d = if k' = k then v else m.getD k' d := by
  by_cases h : k' = k
  · subst h; simp
  · rw [if_neg h, getD_insert_ne h]

@[simp] theorem getD_erase_self : (m.erase k).getD k d = d := by
  simp [getD]

theorem getD_erase_ne (h : k' ≠ k) : (m.erase k).getD k' d = m.getD k' d := by
  simp [getD, lookup_erase_ne h]

theorem getD_of_lookup (h : m.lookup k = some v) : m.getD k d = v := by
  simp [getD, h]

theorem getD_of_none (h : m.lookup k = none) : m.getD k d = d := by
  simp [getD, h]

theorem getD_erase_of_default (h : m.getD k d = d) : (m.erase k).getD k' d = m.getD k' d := by
  by_cases hk : k' = k
  · subst hk; simp [h]
  · exact getD_erase_ne hk

end getD

theorem lookup_insert_eq (m : AList fun _ : κ => υ) (k k' : κ) (v : υ) :
    (m.insert k v).lookup k' = if k' = k then some v else m.lookup k' := by
  by_cases h : k' = k
  · subst h; simp
  · rw [if_neg h, lookup_insert_ne h]

theorem lookup_erase_eq (m : AList fun _ : κ => υ) (k k' : κ) : (m.erase k).lookup k' = if k' = k then none else m.lookup k' := by
  by_cases h : k' = k
  · subst h; simp
  · rw [if_neg h, lookup_erase_ne h]

theorem of_lookup_insert (h : (m.insert k v).lookup k' = some w) : k' = k ∧ w = v ∨ k' ≠ k ∧ m.lookup k' = some w := by
  rw [lookup_insert_eq] at h
  split_ifs at h with hk
  · exact .inl ⟨hk, (some.inj h).symm⟩
  · exact .inr ⟨hk, h⟩

theorem of_lookup_erase (h : (m.erase k).lookup k' = some v) : k' ≠ k ∧ m.lookup k' = some v := by
  rw [lookup_erase_eq] at h
  split_ifs at h with hk
  exact ⟨hk, h⟩

theorem mem_keys_iff_lookup : k ∈ m.keys ↔ ∃ v, m.lookup k = some v := by
  rw [← mem_keys, ← lookup_isSome, isSome_iff_exists]

theorem mem_entries_iff : (⟨k, v⟩ : Sigma fun _ : κ => υ) ∈ m.entries ↔ m.lookup k = some v :=
  (mem_lookup_iff (s := m)).symm

theorem lookup_mapVal (f : υ → υ) (m : AList fun _ : κ => υ) (k : κ) : (m.mapVal f).lookup k = (m.lookup k).map f := by
  show List.dlookup k (m.entries.map fun s => (⟨s.1, f s.2⟩ : Sigma fun _ : κ => υ)) =
    (List.dlookup k m.entries).map f
  induction m.entries with
  | nil => rfl
  | cons s l ih =>
    obtain ⟨k', v⟩ := s
    by_cases h : k = k'
    · subst h; simp
    · have hf : k ≠ (⟨k', f v⟩ : Sigma fun _ : κ => υ).1 := h
      have hv : k ≠ (⟨k', v⟩ : Sigma fun _ : κ => υ).1 := h
      rw [map_cons, dlookup_cons_ne _ _ hf, dlookup_cons_ne _ _ hv, ih]

/-- A map rebuilt entry by entry, with `f` applied to every value. -/
theorem lookup_foldl_insert {ω : Type} (f : υ → ω) (m : AList fun _ : κ => υ) (k : κ) :
    (m.entries.foldl (fun (acc : AList fun _ : κ => ω) s => acc.insert s.1 (f s.2)) ∅).lookup k = (m.lookup k).map f := by
  have key : ∀ (l : List (Sigma fun _ : κ => υ)) (acc : AList fun _ : κ => ω), l.NodupKeys →
      (l.foldl (fun acc s => acc.insert s.1 (f s.2)) acc).lookup k =
        ((List.dlookup k l).map f).or (acc.lookup k) := by
    intro l
    induction l with
    | nil => exact fun acc _ => rfl
    | cons s l ih =>
      intro acc hl
      obtain ⟨hnot, hl⟩ := nodupKeys_cons.mp hl
      rw [foldl_cons, ih _ hl, lookup_insert_eq]
      by_cases hk : k = s.1
      · rw [if_pos hk, hk, dlookup_cons_eq, dlookup_eq_none.mpr hnot]
        rfl
      · rw [if_neg hk, dlookup_cons_ne _ _ hk]
  rw [key _ _ m.nodupKeys]
  exact or_none

/-! ### Totals -/

section total

variable [AddCommMonoid M] {f g : κ → υ → M}

theorem total_insert (f : κ → υ → M) (m : AList fun _ : κ => υ) (k : κ) (v : υ) : total f (m.insert k v) = f k v + total f (m.erase k) := by
  simp only [total, entries_insert, List.map_cons, List.sum_cons]
  rfl

theorem erase_of_none (h : m.lookup k = none) : m.erase k = m :=
  ext (kerase_of_notMem_keys (by rwa [lookup_eq_none, mem_keys] at h))

theorem total_eq_add_erase (f : κ → υ → M) (h : m.lookup k = some v) : total f m = f k v + total f (m.erase k) := by
  have hmem : k ∈ m.entries.keys := by
    rw [← keys, mem_keys_iff_lookup]; exact ⟨v, h⟩
  obtain ⟨b, l1, l2, _, hl, hk⟩ := exists_of_kerase hmem
  have hb : b = v := by
    have : m.lookup k = some b := mem_entries_iff.mp (by rw [hl]; simp)
    rw [h] at this
    exact (some.inj this).symm
  subst hb
  have he : (m.erase k).entries = l1 ++ l2 := hk
  simp only [total, he]
  rw [hl]
  simp only [map_append, map_cons, sum_append, sum_cons]
  abel

theorem total_congr (h : ∀ k v, m.lookup k = some v → f k v = g k v) : total f m = total g m := by
  refine congrArg List.sum (map_congr_left ?_)
  rintro ⟨k, v⟩ hs
  exact h k v (mem_entries_iff.mp hs)

theorem total_eq_zero (h : ∀ k v, m.lookup k = some v → f k v = 0) : total f m = 0 := by
  rw [total_congr h, total_zero]

/-! How a total moves when one entry changes and the weight changes with it, at that entry only. -/

section change

theorem total_erase_congr (h : ∀ k' v', k' ≠ k → m.lookup k' = some v' → g k' v' = f k' v') :
    total g (m.erase k) = total f (m.erase k) := by
  refine total_congr fun k' v' hk => ?_
  rw [lookup_erase_eq] at hk
  split_ifs at hk with hne
  exact h k' v' hne hk

theorem total_insert_change (hk : m.lookup k = some w) (h : ∀ k' v', k' ≠ k → m.lookup k' = some v' → g k' v' = f k' v') :
    total g (m.insert k v) + f k w = total f m + g k v := by
  rw [total_insert, total_eq_add_erase f hk, total_erase_congr h]
  abel

theorem total_insert_fresh (hk : m.lookup k = none) (h : ∀ k' v', k' ≠ k → m.lookup k' = some v' → g k' v' = f k' v') :
    total g (m.insert k v) = total f m + g k v := by
  rw [total_insert, total_erase_congr h, erase_of_none hk, add_comm]

theorem total_erase_change (hk : m.lookup k = some w) (h : ∀ k' v', k' ≠ k → m.lookup k' = some v' → g k' v' = f k' v') :
    total g (m.erase k) + f k w = total f m := by
  rw [total_erase_congr h, total_eq_add_erase f hk, add_comm]

/-- What the entry of `k` adds to a total. -/
def valueAt (f : κ → υ → M) (m : AList fun _ : κ => υ) (k : κ) : M := (m.lookup k).elim 0 (f k)

theorem valueAt_of_some (h : m.lookup k = some v) : valueAt f m k = f k v := by
  rw [valueAt, h]
  rfl

theorem valueAt_of_none (h : m.lookup k = none) : valueAt f m k = 0 := by
  rw [valueAt, h]
  rfl

theorem total_eq_valueAt_add (f : κ → υ → M) (m : AList fun _ : κ => υ) (k : κ) : total f m = valueAt f m k + total f (m.erase k) := by
  cases h : m.lookup k with
  | none => rw [erase_of_none h, valueAt_of_none h, zero_add]
  | some v => rw [valueAt_of_some h, total_eq_add_erase f h]

theorem total_shift {m' : AList fun _ : κ => υ} (hm : ∀ k', k' ≠ k → m'.lookup k' = m.lookup k')
    (h : ∀ k' v', k' ≠ k → m.lookup k' = some v' → g k' v' = f k' v') : total g m' + valueAt f m k = total f m + valueAt g m' k := by
  have hperm : (m'.erase k).entries ~ (m.erase k).entries :=
    List.lookup_ext (m'.erase k).nodupKeys (m.erase k).nodupKeys fun k' v => by
      show v ∈ (m'.erase k).lookup k' ↔ v ∈ (m.erase k).lookup k'
      by_cases hk : k' = k
      · simp [lookup_erase_eq, hk]
      · simp [hk, hm k' hk]
  have hrest : total g (m'.erase k) = total f (m.erase k) :=
    (hperm.map _).sum_eq.trans (total_erase_congr h)
  rw [total_eq_valueAt_add g m' k, total_eq_valueAt_add f m k, hrest]
  abel

end change

end total

theorem mem_total {β : Type} {x : β} {f : κ → υ → Multiset β} : x ∈ total f m ↔ ∃ k v, m.lookup k = some v ∧ x ∈ f k v := by
  have key : ∀ l : List (Sigma fun _ : κ => υ),
      x ∈ (l.map fun s => f s.1 s.2).sum ↔ ∃ s ∈ l, x ∈ f s.1 s.2 := by
    intro l
    induction l with
    | nil => simp
    | cons s l ih => simp [ih]
  rw [total, key]
  constructor
  · rintro ⟨⟨k, v⟩, hs, hx⟩; exact ⟨k, v, mem_entries_iff.mp hs, hx⟩
  · rintro ⟨k, v, hs, hx⟩; exact ⟨⟨k, v⟩, mem_entries_iff.mpr hs, hx⟩

/-! ### Integer totals -/

section int

variable {f g : κ → υ → ℤ}

/-- How an update of a present key moves an integer total. -/
theorem total_insert_of_lookup (h : m.lookup k = some w) : total f (m.insert k v) = total f m - f k w + f k v := by
  rw [total_insert, total_eq_add_erase f h]; abel

theorem total_insert_of_none (h : m.lookup k = none) : total f (m.insert k v) = total f m + f k v := by
  rw [total_insert, erase_of_none h, add_comm]

theorem total_erase_of_lookup (h : m.lookup k = some w) : total f (m.erase k) = total f m - f k w := by
  rw [total_eq_add_erase f h]; abel

theorem total_nonneg (h : ∀ k v, m.lookup k = some v → 0 ≤ f k v) : 0 ≤ total f m := by
  refine sum_nonneg ?_
  intro x hx
  obtain ⟨⟨k, v⟩, hs, rfl⟩ := mem_map.mp hx
  exact h k v (mem_entries_iff.mp hs)

theorem total_mono (h : ∀ k v, m.lookup k = some v → g k v ≤ f k v) : total g m ≤ total f m := by
  refine sum_le_sum ?_
  rintro ⟨k, v⟩ hs
  exact h k v (mem_entries_iff.mp hs)

theorem le_total (h : ∀ k v, m.lookup k = some v → 0 ≤ f k v) (hk : m.lookup k = some v) : f k v ≤ total f m := by
  rw [total_eq_add_erase f hk]
  have : 0 ≤ total f (m.erase k) := total_nonneg fun k' v' h' => by
    rw [lookup_erase_eq] at h'
    split_ifs at h'
    exact h k' v' h'
  omega

end int

end AList
