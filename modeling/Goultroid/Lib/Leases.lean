import Goultroid.Lib.FinMap
import Goultroid.Lib.Table

/-!
# Leases

A book holds at most one lease for every key. A key is taken if no busy lease is in the way, a lease is
amended or given back only by its owner, and a sweep removes what is dead. A table with a unique column and a
finite map are books, and their conditional statements are these operations.

By the rules for tables an `UPDATE` or `DELETE` under a condition on one key is an `amend`, and an upsert
under a condition is a `take`, so that a proof about a store goes on with the book and forgets the rows.
-/

namespace Leases

variable {κ α β : Type} [DecidableEq κ] {k : κ}

abbrev Book (κ α : Type) := κ → Option α

namespace Book

/-- The key is taken, unless a busy lease is in the way. -/
def take (busy : α → Bool) (k : κ) (l : α) (b : Book κ α) : Book κ α × Bool :=
  if (b k).any busy then (b, false) else (Function.update b k (some l), true)

/-- The lease on the key is replaced or given back, if it is `mine`. -/
def amend (mine : α → Bool) (k : κ) (f : α → Option α) (b : Book κ α) : Book κ α × Bool :=
  if (b k).any mine then (Function.update b k ((b k).bind f), true) else (b, false)

def sweep (dead : α → Bool) (b : Book κ α) : Book κ α := fun k => (b k).filter fun l => !dead l

/-- The leases, as far as `g` shows them. -/
def view (g : α → β) (b : Book κ α) : Book κ β := fun k => (b k).map g

section Rules

variable {b : Book κ α} {l : α} {busy mine : α → Bool} {f : α → Option α}

theorem take_of_busy (h : (b k).any busy = true) : b.take busy k l = (b, false) := if_pos h

theorem take_of_free (h : (b k).any busy = false) : b.take busy k l = (Function.update b k (some l), true) :=
  if_neg (by rw [h]; simp)

theorem amend_of_mine (hk : b k = some l) (h : mine l = true) : b.amend mine k f = (Function.update b k (f l), true) := by
  have hany : (b k).any mine = true := by rw [hk]; exact h
  rw [amend, if_pos hany, hk]
  rfl

theorem amend_of_other (h : (b k).any mine = false) : b.amend mine k f = (b, false) := if_neg (by rw [h]; simp)

end Rules

section Views

variable {b : Book κ α} {g : α → β}

omit [DecidableEq κ] in
theorem any_view {p : β → Bool} : (b.view g k).any p = (b k).any fun l => p (g l) := by
  rw [view, Option.any_map]

theorem view_update {x : Option α} : view g (Function.update b k x) = Function.update (view g b) k (x.map g) := by
  funext k'
  by_cases hk : k' = k
  · subst hk
    simp [view]
  · simp [view, Function.update_of_ne hk]

theorem view_take (busy : β → Bool) (l : α) :
    ((view g (b.take (fun l => busy (g l)) k l).1, (b.take (fun l => busy (g l)) k l).2) : Book κ β × Bool) =
      (view g b).take busy k (g l) := by
  rw [take, take, any_view]
  split_ifs
  · rfl
  · rw [view_update]
    rfl

theorem view_amend {f : α → Option α} {f' : β → Option β} (mine : β → Bool) (hf : ∀ l, (f l).map g = f' (g l)) :
    ((view g (b.amend (fun l => mine (g l)) k f).1, (b.amend (fun l => mine (g l)) k f).2) : Book κ β × Bool) =
      (view g b).amend mine k f' := by
  rw [amend, amend, any_view]
  split_ifs
  · rw [view_update]
    congr 2
    rw [view, Option.bind_map, Option.map_bind]
    congr 1
    funext l
    exact hf l
  · rfl

omit [DecidableEq κ] in
theorem view_sweep (dead : β → Bool) : view g (b.sweep fun l => dead (g l)) = (view g b).sweep dead := by
  funext k
  simp only [view, sweep, Option.filter_map]
  rfl

end Views

end Book

end Leases

/-! ### Maps -/

namespace AList

variable {κ υ : Type} [DecidableEq κ]

/-- A map is a book. -/
def book (m : AList fun _ : κ => υ) : Leases.Book κ υ := fun k => m.lookup k

theorem book_insert (m : AList fun _ : κ => υ) (k : κ) (v : υ) : (m.insert k v).book = Function.update m.book k (some v) := by
  funext k'
  rw [book, lookup_insert_eq, Function.update_apply]
  rfl

theorem book_erase (m : AList fun _ : κ => υ) (k : κ) : (m.erase k).book = Function.update m.book k none := by
  funext k'
  rw [book, lookup_erase_eq, Function.update_apply]
  rfl

/-- The entries that satisfy `p` are deleted. -/
def reject (p : υ → Bool) (m : AList fun _ : κ => υ) : AList fun _ : κ => υ where
  entries := m.entries.filter fun s => !p s.2
  nodupKeys := m.nodupKeys.sublist List.filter_sublist

theorem book_reject (p : υ → Bool) (m : AList fun _ : κ => υ) : (m.reject p).book = m.book.sweep p := by
  funext k
  refine Option.ext fun v => ?_
  show (m.reject p).lookup k = some v ↔ (m.lookup k).filter (fun v => !p v) = some v
  rw [← mem_entries_iff, Option.filter_eq_some_iff, ← mem_entries_iff]
  exact List.mem_filter

end AList

/-! ### Tables -/

namespace Table

variable {κ ρ : Type} [DecidableEq κ] {unique : ρ → κ} {t t' : Table unique Eq} {k : κ} {r : ρ} {c : ρ → Bool}

/-- A table with a unique column is a book. -/
def book (t : Table unique Eq) : Leases.Book κ ρ := fun k => t.rows.find? fun r => decide (unique r = k)

theorem book_eq_some : t.book k = some r ↔ r ∈ t.rows ∧ unique r = k := by
  constructor
  · intro h
    have hkey := List.find?_some h
    exact ⟨List.mem_of_find?_eq_some h, of_decide_eq_true hkey⟩
  · rintro ⟨hr, rfl⟩
    exact find?_of_mem hr (decide_eq_true rfl) fun b hb => (of_decide_eq_true hb).symm

theorem book_insert? (h : t.insert? r = some t') : t'.book = Function.update t.book (unique r) (some r) := by
  obtain ⟨hnew, hrows⟩ := insert?_eq_some h
  funext k
  refine Option.ext fun a => ?_
  rw [book_eq_some, hrows, List.mem_append, List.mem_singleton, Function.update_apply]
  split_ifs with hk
  · subst hk
    constructor
    · rintro ⟨ha | rfl, hkey⟩
      · exact absurd hkey (hnew a ha)
      · rfl
    · intro heq
      cases heq
      exact ⟨.inr rfl, rfl⟩
  · rw [book_eq_some]
    constructor
    · rintro ⟨ha | rfl, hkey⟩
      · exact ⟨ha, hkey⟩
      · exact absurd hkey.symm hk
    · exact fun h => ⟨.inl h.1, h.2⟩

theorem book_of_insert?_none (h : t.insert? r = none) : ∃ a, t.book (unique r) = some a := by
  obtain ⟨a, ha, hkey⟩ := insert?_eq_none h
  exact ⟨a, book_eq_some.mpr ⟨ha, hkey⟩⟩

theorem book_delete (p : ρ → Bool) : (t.delete p).book = t.book.sweep p := by
  funext k
  refine Option.ext fun a => ?_
  show (t.delete p).book k = some a ↔ (t.book k).filter (fun l => !p l) = some a
  rw [book_eq_some, mem_delete, Option.filter_eq_some_iff, book_eq_some, Bool.not_eq_true']
  exact ⟨fun h => ⟨⟨h.1.1, h.2⟩, h.1.2⟩, fun h => ⟨⟨h.1.1, h.2⟩, h.1.2⟩⟩

/-- `WHERE key = k AND c` selects the row of the key, or nothing. -/
theorem count_key : (t.count fun r => decide (unique r = k) && c r) = if (t.book k).any c then 1 else 0 := by
  cases hk : t.book k with
  | none =>
    have hnone : ∀ r ∈ t.rows, unique r ≠ k := fun r hr hkey => by
      rw [book_eq_some.mpr ⟨hr, hkey⟩] at hk
      cases hk
    refine List.countP_eq_zero.mpr fun r hr => ?_
    simp [hnone r hr]
  | some a =>
    obtain ⟨ha, hkey⟩ := book_eq_some.mp hk
    have hone (b : ρ) (hb : (decide (unique b = k) && c b) = true) : unique a = unique b := by
      rw [Bool.and_eq_true, decide_eq_true_eq] at hb
      rw [hkey, hb.1]
    cases hc : c a with
    | true =>
      rw [count_eq_one ha (by simp [hkey, hc]) hone]
      simp [hc]
    | false =>
      have hzero : (t.count fun r => decide (unique r = k) && c r) = 0 := by
        refine List.countP_eq_zero.mpr fun b hb hbc => ?_
        obtain rfl := eq_of_clash ha hb (hone b hbc)
        simp [hc] at hbc
      rw [hzero]
      simp [hc]

theorem key_false (h : ((t.count fun r => decide (unique r = k) && c r) == 1) = false) (hr : r ∈ t.rows) :
    (decide (unique r = k) && c r) = false := by
  by_cases hk : unique r = k
  · rw [count_key, book_eq_some.mpr ⟨hr, hk⟩] at h
    cases hc : c r with
    | false => simp
    | true => simp [hc] at h
  · simp [hk]

/-- A statement that does not find its row changes nothing. -/
theorem update_refused (f : ρ → ρ) (hf : ∀ r, unique (f r) = unique r)
    (h : ((t.count fun r => decide (unique r = k) && c r) == 1) = false) : t.update (fun r => decide (unique r = k) && c r) f hf = t := by
  refine Table.ext ((List.map_congr_left fun r hr => ?_).trans (List.map_id _))
  simp [key_false h hr]

theorem delete_refused (h : ((t.count fun r => decide (unique r = k) && c r) == 1) = false) :
    (t.delete fun r => decide (unique r = k) && c r) = t := by
  refine Table.ext (List.filter_eq_self.mpr fun r hr => ?_)
  simp [key_false h hr]

/-- A statement that changes the row of one key under a condition. -/
theorem book_eq_amend {b : Leases.Book κ ρ} {f : ρ → Option ρ}
    (h : ∀ k', b k' = (t.book k').bind fun r => if decide (unique r = k) && c r then f r else some r) : b = (t.book.amend c k f).1 := by
  funext k'
  rw [h, Leases.Book.amend]
  cases hrow : t.book k' with
  | none =>
    split_ifs with hc
    · by_cases hk : k' = k
      · subst hk
        rw [hrow] at hc
        cases hc
      · simp [Function.update_of_ne hk, hrow]
    · simp [hrow]
  | some =>
    have hkey := (book_eq_some.mp hrow).2
    by_cases hk : k' = k
    · subst hk
      simp only [hrow, hkey, decide_true, Bool.true_and, Option.any_some, Option.bind_some]
      split_ifs
      · simp
      · simp [hrow]
    · simp only [hkey, decide_eq_false hk, Bool.false_and, Option.bind_some, Bool.false_eq_true, if_false]
      split_ifs
      · exact hrow.symm.trans (Function.update_of_ne hk _ _).symm
      · exact hrow.symm

theorem count_eq_amend {f : ρ → Option ρ} : ((t.count fun r => decide (unique r = k) && c r) == 1) = (t.book.amend c k f).2 := by
  rw [count_key, Leases.Book.amend]
  split_ifs <;> rfl

/-- `UPDATE … SET f WHERE key = k AND c`. -/
theorem amend_update (c : ρ → Bool) (f : ρ → ρ) (hf : ∀ r, unique (f r) = unique r) :
    (((t.update (fun r => decide (unique r = k) && c r) f hf).book, (t.count fun r => decide (unique r = k) && c r) == 1) :
      Leases.Book κ ρ × Bool) = t.book.amend c k fun r => some (f r) := by
  refine Prod.ext (book_eq_amend fun k' => ?_) count_eq_amend
  have hread : (t.update (fun r => decide (unique r = k) && c r) f hf).book k' =
      (t.book k').map fun r => if decide (unique r = k) && c r then f r else r :=
    find?_update hf fun r => by rw [hf]
  refine hread.trans ?_
  rw [Option.map_eq_bind]
  congr 1
  funext r
  simp only [Function.comp_apply]
  split_ifs <;> rfl

/-- `DELETE … WHERE key = k AND c`. -/
theorem amend_delete (c : ρ → Bool) :
    (((t.delete fun r => decide (unique r = k) && c r).book, (t.count fun r => decide (unique r = k) && c r) == 1) :
      Leases.Book κ ρ × Bool) = t.book.amend c k fun _ => none := by
  refine Prod.ext (book_eq_amend fun k' => ?_) count_eq_amend
  refine (congrFun (book_delete _) k').trans ?_
  show (t.book k').filter (fun r => !(decide (unique r = k) && c r)) = _
  cases t.book k' with
  | none => rfl
  | some a =>
    rw [Option.bind_some, Option.filter_some]
    cases decide (unique a = k) && c a <;> rfl

section Upsert

theorem unique_replace (r a : ρ) : unique (if unique a = unique r then r else a) = unique a := by
  split_ifs with h
  · exact h.symm
  · rfl

variable (t) (c : ρ → Bool) (r : ρ)

/-- `INSERT r … ON CONFLICT(key) DO UPDATE … WHERE c`, with all columns taken from `r`: the rows afterwards and the rows affected. -/
def upsert : Table unique Eq × Nat :=
  match t.insert? r with
  | some t' => (t', 1)
  | none =>
    (t.update (fun a => decide (unique a = unique r) && c a) (fun a => if unique a = unique r then r else a) (unique_replace r),
      t.count fun a => decide (unique a = unique r) && c a)

/-- An upsert takes the key, unless the row in the way fails the condition. -/
theorem take_upsert : (((t.upsert c r).1.book, (t.upsert c r).2 == 1) : Leases.Book κ ρ × Bool) =
    t.book.take (fun a => !c a) (unique r) r := by
  unfold upsert
  split
  · next t' hinsert =>
    have hfree : t.book (unique r) = none := by
      cases hrow : t.book (unique r) with
      | none => rfl
      | some a =>
        obtain ⟨ha, hkey⟩ := book_eq_some.mp hrow
        exact absurd hkey ((insert?_eq_some hinsert).1 a ha)
    rw [Leases.Book.take_of_free (by rw [hfree]; rfl), ← book_insert? hinsert]
    rfl
  · next hinsert =>
    obtain ⟨a, hrow⟩ := book_of_insert?_none hinsert
    have hkey := (book_eq_some.mp hrow).2
    rw [amend_update]
    cases hc : c a with
    | true =>
      rw [Leases.Book.amend_of_mine hrow hc, Leases.Book.take_of_free (by rw [hrow]; simp [hc]), if_pos hkey]
    | false => rw [Leases.Book.amend_of_other (by rw [hrow]; exact hc), Leases.Book.take_of_busy (by rw [hrow]; simp [hc])]

theorem upsert_refused (h : ((t.upsert c r).2 == 1) = false) : (t.upsert c r).1 = t := by
  unfold upsert at h ⊢
  split at h
  · cases h
  · exact update_refused _ (unique_replace r) h

end Upsert

end Table
