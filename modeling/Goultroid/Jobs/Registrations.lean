import Goultroid.Jobs.Schedules

/-!
# Definitions and prepared schedules

The statements of `internal/jobs/sqlite` by which the scheduler registers a job: a definition is saved and
deleted, with the schedules and occurrences that the foreign keys take along, and a schedule that was saved
disabled is listed, deleted or published as long as nobody has touched it.
-/

namespace Goultroid.Jobs

open List Option Table

namespace Store

variable (s : Store) {p : JobSchedule → Bool}

/-- `DELETE FROM job_schedules WHERE p`, with `ON DELETE SET NULL` on the occurrences. -/
def deleteSchedules (p : JobSchedule → Bool) : Store :=
  { s with
    schedules := s.schedules.delete p
    occurrences := s.occurrences.update (fun o => s.schedules.rows.any fun sched => p sched && sched.id == o.scheduleID)
      (fun o => { o with scheduleID := [] }) fun _ => rfl
    schedules_job := fun sched hsched => s.schedules_job sched (Table.mem_delete.mp hsched).1
    occurrences_job := by
      intro o ho
      obtain ⟨r, hr, rfl⟩ := Table.mem_update.mp ho
      split_ifs <;> exact s.occurrences_job r hr
    occurrences_schedule := by
      intro o ho
      obtain ⟨r, hr, rfl⟩ := Table.mem_update.mp ho
      split_ifs with hgone
      · exact .inl rfl
      · refine (s.occurrences_schedule r hr).imp_right fun hmem => ?_
        obtain ⟨sched, hsched, hid⟩ := List.mem_map.mp hmem
        refine List.mem_map.mpr ⟨sched, Table.mem_delete.mpr ⟨hsched, ?_⟩, hid⟩
        have hkeep := List.any_eq_false.mp (Bool.eq_false_iff.mpr hgone) sched hsched
        simpa [hid] using hkeep
    attempts_occurrence := by
      intro a ha
      obtain ⟨o, ho, heq⟩ := s.attempts_occurrence a ha
      refine ⟨_, Table.mem_update.mpr ⟨o, ho, rfl⟩, ?_⟩
      rw [← heq]
      split_ifs <;> rfl }

theorem jobID_of_mem_deleteSchedules {o : JobOccurrence} (h : o ∈ (s.deleteSchedules p).occurrences.rows) :
    ∃ r ∈ s.occurrences.rows, r.jobID = o.jobID := by
  obtain ⟨r, hr, heq⟩ := mem_map.mp h
  refine ⟨r, hr, ?_⟩
  rw [← heq]
  split_ifs <;> rfl

/-- `INSERT INTO job_definitions … ON CONFLICT(id) DO UPDATE`. -/
def saveDefinition (id : GoString) : Store :=
  if id ∈ s.definitions then s
  else { s with
    definitions := s.definitions ++ [id]
    schedules_job := fun sched hsched => List.mem_append_left _ (s.schedules_job sched hsched)
    occurrences_job := fun o ho => List.mem_append_left _ (s.occurrences_job o ho) }

/-- `DELETE FROM job_definitions WHERE id = ?`, with `ON DELETE CASCADE` on schedules and occurrences. -/
def deleteDefinition (id : GoString) : Store :=
  let t := (s.deleteOccurrences (·.jobID == id)).deleteSchedules (·.jobID == id)
  { t with
    definitions := s.definitions.filter (· != id)
    schedules_job := by
      intro sched hsched
      obtain ⟨hmem, hkeep⟩ := Table.mem_delete.mp hsched
      exact List.mem_filter.mpr ⟨s.schedules_job sched hmem, by simpa using hkeep⟩
    occurrences_job := by
      intro o ho
      obtain ⟨r, hr, hjob⟩ := jobID_of_mem_deleteSchedules _ ho
      obtain ⟨hmem, hkeep⟩ := Table.mem_delete.mp hr
      rw [← hjob]
      exact List.mem_filter.mpr ⟨s.occurrences_job r hmem, by simpa using hkeep⟩ }

/-- `id = ? AND enabled = 0 AND revision = 1`. -/
def prepared (id : GoString) (sched : JobSchedule) : Bool := sched.id == id && !sched.enabled && sched.revision == 1

def deletePreparedSchedule (id : GoString) : Store := s.deleteSchedules (prepared id)

/-- The part of `PublishScheduleRegistration` that is about the schedule. -/
def publishSchedule (now : Time) (id : GoString) : Store :=
  s.updateSchedules (prepared id) fun sched => { sched with
    enabled := true
    revision := sched.revision + 1
    updatedAt := now }

/-- ASCII letters are equal to `LIKE` whatever their case. -/
def foldCase (b : UInt8) : UInt8 := if 0x41 ≤ b ∧ b ≤ 0x5A then b + 0x20 else b

/-- `id LIKE start || '%'`, for a text without wildcards. -/
def likeStart (start id : GoString) : Bool := (start.map foldCase).isPrefixOf (id.map foldCase)

def listPreparedSchedules (start : GoString) (limit : Int) : List JobSchedule :=
  ((s.schedules.rows.filter fun sched => !sched.enabled && sched.revision == 1 && likeStart start sched.id).insertionSort
    fun sched sched' => sched.id ≤ sched'.id).take (if limit ≤ 0 ∨ 256 < limit then 256 else limit.toNat)

/-! ### Lookups after a statement -/

section Lookups

variable {s} {id id' : GoString} {row : JobSchedule} {s' : Store}

theorem schedule?_deleteSchedules : (s.deleteSchedules p).schedule? id = (s.schedule? id).filter fun sched => !p sched := by
  cases hrow : s.schedule? id with
  | none =>
    rw [filter_none, schedule?, find?_eq_none]
    intro sched hsched
    exact find?_eq_none.mp hrow sched (mem_delete.mp hsched).1
  | some row =>
    obtain ⟨hmem, hid⟩ := schedule?_mem hrow
    by_cases hp : p row = true
    · rw [filter_some, if_neg (by simp [hp]), schedule?, find?_eq_none]
      intro sched hsched heq
      obtain ⟨hmem', hkeep⟩ := mem_delete.mp hsched
      have hsame := schedule?_of_mem hmem'
      rw [beq_iff_eq.mp heq, hrow] at hsame
      rw [← some.inj hsame, hp] at hkeep
      cases hkeep
    · rw [filter_some, if_pos (by simpa using hp)]
      have hkeep : row ∈ (s.deleteSchedules p).schedules.rows := mem_delete.mpr ⟨hmem, by simpa using hp⟩
      rw [← hid]
      exact schedule?_of_mem hkeep

@[simp] theorem schedule?_saveDefinition : (s.saveDefinition id).schedule? id' = s.schedule? id' := by
  unfold saveDefinition
  split_ifs <;> rfl

theorem mem_saveDefinition : id' ∈ (s.saveDefinition id).definitions ↔ id' ∈ s.definitions ∨ id' = id := by
  unfold saveDefinition
  split_ifs with h
  · exact ⟨.inl, fun hmem => hmem.elim (fun hold => hold) fun heq => heq ▸ h⟩
  · simp

theorem schedule?_deleteDefinition : (s.deleteDefinition id).schedule? id' = (s.schedule? id').filter fun sched => sched.jobID != id := by
  exact schedule?_deleteSchedules

theorem mem_deleteDefinition : id' ∈ (s.deleteDefinition id).definitions ↔ id' ∈ s.definitions ∧ id' ≠ id := by
  show id' ∈ s.definitions.filter (· != id) ↔ _
  simp

theorem schedule?_upsertSchedule (h : s.upsertSchedule row = some s') : s'.schedule? id =
    if id = row.id then some (match s.schedule? row.id with
      | none => row
      | some old => { row with revision := old.revision + 1 }) else s.schedule? id := by
  unfold upsertSchedule at h
  split_ifs at h
  split at h
  · next t hinsert =>
    cases h
    obtain ⟨hfresh, hrows⟩ := insert?_eq_some hinsert
    have hnone : s.schedule? row.id = none := by
      rw [schedule?, find?_eq_none]
      intro sched hsched heq
      exact hfresh sched hsched (beq_iff_eq.mp heq)
    show t.rows.find? (·.id == id) = _
    rw [hrows, find?_append, hnone]
    by_cases hid : id = row.id
    · subst hid
      rw [if_pos rfl, show s.schedules.rows.find? (·.id == row.id) = none from hnone]
      simp
    · rw [if_neg hid]
      simp [schedule?, Ne.symm hid]
  · next hinsert =>
    cases h
    obtain ⟨old, hold, hclash⟩ := insert?_eq_none hinsert
    have hrow : s.schedule? row.id = some old := hclash ▸ schedule?_of_mem hold
    have hupdate := find?_update (t := s.schedules) (p := (·.id == row.id)) (q := (·.id == id))
      (f := fun r => { row with id := r.id, revision := r.revision + 1 }) (fun _ => rfl) fun _ => rfl
    refine hupdate.trans ?_
    rw [hrow]
    by_cases hid : id = row.id
    · subst hid
      rw [if_pos rfl, show s.schedules.rows.find? (·.id == row.id) = some old from hrow]
      simp [hclash]
    · rw [if_neg hid]
      show (s.schedule? id).map _ = s.schedule? id
      cases hsched : s.schedule? id with
      | none => rfl
      | some =>
        rw [map_some, if_neg]
        simp [(schedule?_mem hsched).2, hid]

theorem definitions_upsertSchedule (h : s.upsertSchedule row = some s') : s'.definitions = s.definitions := by
  unfold upsertSchedule at h
  split_ifs at h
  split at h <;> exact some.inj h ▸ rfl

end Lookups

end Store

end Goultroid.Jobs
