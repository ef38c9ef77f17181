import Goultroid.Jobs.Store

/-!
# The life of an occurrence

What the database holds of one occurrence is its row and its attempts, in the order of their leases.
`Life.Step` is the machine that this pair follows: it is opened, leased, settled, closed or cancelled,
and pruned at the end. Every transaction takes every occurrence of the database through at most one of
these steps (`step_life`), whatever it is called with.

The statements of the store are seen here from one occurrence: they leave its life alone, rewrite its
row or its attempts, or append an attempt. The transactions are composed of these lemmas and do not
look at the tables again.
-/

namespace Goultroid.Jobs

open List Option Table

/-- An occurrence with its attempts. -/
structure Life where
  occurrence : JobOccurrence
  attempts : List JobAttempt
  deriving DecidableEq

namespace Store

variable {o : JobOccurrence} {a : JobAttempt} {l : Life} {j : OccurrenceID} {e : OutboxEvent}

/-- The life of occurrence `id`, if it is in the database. -/
def life (s : Store) (id : OccurrenceID) : Option Life :=
  (s.occurrence? id).map fun o => ⟨o, s.attemptsOf id⟩

variable {s s' : Store} {id : OccurrenceID}

theorem mem_of_occurrence? (h : s.occurrence? id = some o) : o ∈ s.occurrences.rows ∧ o.id = id :=
  ⟨mem_of_find?_eq_some h, by simpa using find?_some h⟩

theorem occurrence?_of_mem (h : o ∈ s.occurrences.rows) : s.occurrence? o.id = some o :=
  find?_of_mem h (beq_self_eq_true o.id) fun _ hb => .inl (beq_iff_eq.mp hb).symm

theorem occurrence_eq {o' : JobOccurrence} (h : o ∈ s.occurrences.rows) (h' : o' ∈ s.occurrences.rows) (hid : o.id = o'.id) : o = o' :=
  eq_of_clash h h' (.inl hid)

theorem mem_of_attempt? (h : s.attempt? id = some a) : a ∈ s.attempts.rows ∧ a.id = id :=
  ⟨mem_of_find?_eq_some h, by simpa using find?_some h⟩

theorem attempt?_of_mem (h : a ∈ s.attempts.rows) : s.attempt? a.id = some a :=
  find?_of_mem h (beq_self_eq_true a.id) fun _ hb => .inl (beq_iff_eq.mp hb).symm

theorem mem_attemptsOf : a ∈ s.attemptsOf id ↔ a ∈ s.attempts.rows ∧ a.occurrenceID = id := by
  simp [attemptsOf]

theorem life_eq_some (h : s.life id = some l) : s.occurrence? id = some l.occurrence ∧ l.attempts = s.attemptsOf id := by
  obtain ⟨o, ho, rfl⟩ := map_eq_some_iff.mp h
  exact ⟨ho, rfl⟩

theorem life_of_occurrence? (h : s.occurrence? id = some o) : s.life id = some ⟨o, s.attemptsOf id⟩ := by
  simp [life, h]

theorem life_id (h : s.life id = some l) : l.occurrence.id = id :=
  (mem_of_occurrence? (life_eq_some h).1).2

/-- By the foreign key, an occurrence that is not there has no attempts. -/
theorem attemptsOf_of_life_none (h : s.life id = none) : s.attemptsOf id = [] := by
  rw [eq_nil_iff_forall_not_mem]
  intro a ha
  obtain ⟨hmem, hid⟩ := mem_attemptsOf.mp ha
  obtain ⟨o, ho, heq⟩ := s.attempts_occurrence a hmem
  have hsome := occurrence?_of_mem ho
  rw [heq, hid] at hsome
  simp [life, hsome] at h

/-! ### The statements, seen from one occurrence -/

theorem life_congr (hoccs : s'.occurrences = s.occurrences) (hatts : s'.attempts = s.attempts) : s'.life j = s.life j := by
  simp only [life, occurrence?, attemptsOf, hoccs, hatts]

@[simp] theorem life_updateSchedules {p f hf} : (s.updateSchedules p f hf).life j = s.life j := life_congr rfl rfl

theorem insertOutbox?_eq_some (h : s.insertOutbox? e = some s') :
    (∀ e' ∈ s.outbox.rows, e'.eventID ≠ e.eventID) ∧ s'.outbox.rows = s.outbox.rows ++ [e] ∧
      s'.occurrences = s.occurrences ∧ s'.attempts = s.attempts := by
  obtain ⟨t, ht, rfl⟩ := map_eq_some_iff.mp h
  obtain ⟨hfresh, hrows⟩ := insert?_eq_some ht
  exact ⟨hfresh, hrows, rfl, rfl⟩

theorem life_insertOutbox? (h : s.insertOutbox? e = some s') : s'.life j = s.life j :=
  life_congr (insertOutbox?_eq_some h).2.2.1 (insertOutbox?_eq_some h).2.2.2

theorem life_updateOccurrences {p f hf} : (s.updateOccurrences p f hf).life j =
    (s.life j).map fun l => { l with occurrence := if p l.occurrence then f l.occurrence else l.occurrence } := by
  have huniq : ∀ o, (f o).unique = o.unique := fun o => congrArg Prod.fst (hf o)
  have hid : ∀ o, (f o).id = o.id := fun o => congrArg Prod.fst (huniq o)
  have hfind : (s.updateOccurrences p f hf).occurrence? j =
      (s.occurrence? j).map fun o => if p o then f o else o :=
    find?_update huniq fun o => by simp [hid]
  simp only [life, hfind, Option.map_map]
  rfl

theorem insertOccurrence?_eq_some (h : s.insertOccurrence? o = some s') :
    (∀ o' ∈ s.occurrences.rows, ¬ JobOccurrence.Clash o'.unique o.unique) ∧
      s'.occurrences.rows = s.occurrences.rows ++ [o] ∧ s'.attempts = s.attempts := by
  unfold insertOccurrence? at h
  split_ifs at h with hjob hsched
  split at h
  · cases h
  · rename_i t ht
    cases h
    exact ⟨(insert?_eq_some ht).1, (insert?_eq_some ht).2, rfl⟩

theorem life_insertOccurrence? (h : s.insertOccurrence? o = some s') :
    s.life o.id = none ∧ ∀ j, s'.life j = if j = o.id then some ⟨o, []⟩ else s.life j := by
  obtain ⟨hfresh, hrows, hatts⟩ := insertOccurrence?_eq_some h
  have hnone : s.occurrence? o.id = none := by
    rw [occurrence?, find?_eq_none]
    intro o' ho' heq
    exact hfresh o' ho' (.inl (beq_iff_eq.mp heq))
  have hlife : s.life o.id = none := by simp [life, hnone]
  refine ⟨hlife, fun j => ?_⟩
  have hattempts : s'.attemptsOf j = s.attemptsOf j := by simp only [attemptsOf, hatts]
  have hfind : s'.occurrence? j = (s.occurrence? j).or (if o.id = j then some o else none) := by
    rw [occurrence?, hrows, find?_append]
    simp [occurrence?, find?_singleton]
  by_cases hj : j = o.id
  · subst hj
    rw [if_pos rfl, life, hfind, hnone, hattempts, attemptsOf_of_life_none hlife]
    simp
  · rw [if_neg hj, life, hfind, if_neg (Ne.symm hj), hattempts]
    simp [life]

theorem insertAttempt?_eq_some (h : s.insertAttempt? a = some s') : (∀ a' ∈ s.attempts.rows, ¬ JobAttempt.Clash a'.unique a.unique) ∧
      s'.attempts.rows = s.attempts.rows ++ [a] ∧ s'.occurrences = s.occurrences := by
  unfold insertAttempt? at h
  split_ifs at h with hocc
  split at h
  · cases h
  · rename_i t ht
    cases h
    exact ⟨(insert?_eq_some ht).1, (insert?_eq_some ht).2, rfl⟩

theorem life_insertAttempt? (h : s.insertAttempt? a = some s') :
    s'.life j = if j = a.occurrenceID then (s.life j).map fun l => { l with attempts := l.attempts ++ [a] }
      else s.life j := by
  obtain ⟨-, hrows, hoccs⟩ := insertAttempt?_eq_some h
  have hfind : s'.occurrence? j = s.occurrence? j := by simp only [occurrence?, hoccs]
  have hattempts : s'.attemptsOf j = s.attemptsOf j ++ if j = a.occurrenceID then [a] else [] := by
    rw [attemptsOf, hrows, filter_append]
    by_cases hj : j = a.occurrenceID
    · simp [attemptsOf, hj]
    · simp [attemptsOf, hj, Ne.symm hj]
  rw [life, hfind, hattempts]
  split_ifs with hj
  · simp [life, Function.comp_def]
  · simp [life]

theorem life_updateAttempts {p f} (hf : ∀ a, (f a).unique = a.unique) (ha : a ∈ s.attempts.rows) (hp : p a = true)
    (hone : ∀ b : JobAttempt, p b = true → b.id = a.id) (hlife : s.life a.occurrenceID = some l) :
    ∃ before after, l.attempts = before ++ a :: after ∧ ∀ j, (s.updateAttempts p f hf).life j =
      if j = a.occurrenceID then some { l with attempts := before ++ f a :: after } else s.life j := by
  obtain ⟨before, after, hrows, hbefore, hafter⟩ :=
    exists_split (p := p) ha fun b hb => .inl (hone b hb).symm
  have hupdate : (s.updateAttempts p f hf).attempts.rows = before ++ f a :: after :=
    update_split hf hbefore hp hafter hrows
  have hocc : (f a).occurrenceID = a.occurrenceID := congrArg (·.2.2.1) (hf a)
  obtain ⟨hfind, hattempts⟩ := life_eq_some hlife
  refine ⟨before.filter (·.occurrenceID == a.occurrenceID), after.filter (·.occurrenceID == a.occurrenceID), ?_, ?_⟩
  · rw [hattempts, attemptsOf, hrows]
    simp
  · intro j
    have hsame : (s.updateAttempts p f hf).occurrence? j = s.occurrence? j := rfl
    split_ifs with hj
    · subst hj
      rw [life, hsame, hfind, attemptsOf, hupdate]
      simp [hocc]
    · rw [life, hsame, life, attemptsOf, attemptsOf, hupdate, hrows]
      simp [hocc, Ne.symm hj]

theorem life_deleteOccurrences {p : JobOccurrence → Bool} : (s.deleteOccurrences p).life j =
    (s.life j).filter fun l => !p l.occurrence := by
  cases hfind : s.occurrence? j with
  | none =>
    have hnone : (s.deleteOccurrences p).occurrence? j = none := by
      rw [occurrence?, find?_eq_none] at hfind ⊢
      intro o ho
      exact hfind o (mem_delete.mp ho).1
    simp [life, hnone, hfind]
  | some o =>
    obtain ⟨hmem, hid⟩ := mem_of_occurrence? hfind
    rw [life_of_occurrence? hfind]
    by_cases hp : p o = true
    · have hnone : (s.deleteOccurrences p).occurrence? j = none := by
        rw [occurrence?, find?_eq_none]
        intro o' ho' heq
        obtain ⟨hmem', hkeep⟩ := mem_delete.mp ho'
        have hsame : o' = o := occurrence_eq hmem' hmem ((beq_iff_eq.mp heq).trans hid.symm)
        rw [hsame, hp] at hkeep
        cases hkeep
      rw [life, hnone]
      simp [Option.filter, hp]
    · have hp : p o = false := Bool.eq_false_iff.mpr hp
      have hkept : (s.deleteOccurrences p).occurrence? j = some o := by
        rw [← hid]
        exact occurrence?_of_mem (mem_delete.mpr ⟨hmem, hp⟩)
      have hattempts : (s.deleteOccurrences p).attemptsOf j = s.attemptsOf j := by
        show ((s.attempts.rows.filter _).filter _) = _
        rw [List.filter_filter, attemptsOf]
        apply filter_congr
        intro a ha
        by_cases haj : a.occurrenceID = j
        · have hnot : (s.occurrences.rows.any fun o => p o && o.id == a.occurrenceID) = false := by
            rw [List.any_eq_false]
            intro o' ho' hcondition
            simp only [Bool.and_eq_true, beq_iff_eq] at hcondition
            have hsame : o' = o := occurrence_eq ho' hmem (by rw [hcondition.2, haj, hid])
            rw [hsame, hp] at hcondition
            cases hcondition.1
          simp [hnot]
        · simp [haj]
      rw [life_of_occurrence? hkept, hattempts]
      simp [Option.filter, hp]

end Store

end Goultroid.Jobs
