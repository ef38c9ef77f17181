import Goultroid.Scheduler.Recovery

/-!
# The end of the recovery

When no call of the store fails, every round of `recoverPreparedScheduleRegistrations` deletes a prepared schedule
or ends the loop, unless it reads a full batch of schedules that it leaves alone: this batch it reads for ever
(`completed_jobs_endless`).

Whether a schedule is left alone depends on the row of its job, and the recovery deletes no row of a schedule that
it leaves alone (`Sweeps`). So a batch is cleared of all schedules but these (`Cleared`), by induction over the batch,
and the number of prepared schedules goes down in every round with another one in its batch.
-/

open Faults

namespace Goultroid.Scheduler

open List Option Table Bool
open Jobs (JobSchedule Store)

variable {db db' db'' : Database} {w w' w1 : World} {id : Int} {schedule : JobSchedule} {schedules : List JobSchedule}
  {clean clean' : Bool} {n : Nat}

/-- The job of the schedule has a row that is neither initializing nor pending, so that the recovery skips it. -/
def Database.declines (db : Database) (schedule : JobSchedule) : Bool :=
  ((scheduledJobIDFromScheduleID schedule.id).bind db.scheduledJob?).any fun row =>
    decide (row.status ≠ .initializing ∧ row.status ≠ .pending)

def isPrepared (schedule : JobSchedule) : Bool :=
  !schedule.enabled && schedule.revision == 1 && Store.likeStart schedulerPreparedSchedulePrefix schedule.id

def Database.preparedSchedules (db : Database) : List JobSchedule := db.store.schedules.rows.filter isPrepared

def Database.batch (db : Database) : List JobSchedule := db.store.listPreparedSchedules schedulerPreparedSchedulePrefix 256

/-- The loop, of at most `n` rounds, when every call succeeds in time. -/
def recovery (n : Nat) : Step Bool := recoverPreparedScheduleRegistrations (fun _ => none) (fun _ _ _ => none) n

/-- A round that does not end the loop. -/
def Round (w w' : World) : Prop :=
  w.db.batch.length = 256 ∧ recoverBatch (fun _ _ => none) w.db.batch w = (some true, w')

/-- The next batch is full, and the recovery skips all of it. -/
def Stuck (db : Database) : Prop := db.batch.length = 256 ∧ ∀ schedule ∈ db.batch, db.declines schedule = true

/-! ### One schedule -/

/-- Schedules are only deleted, and so are rows that the recovery does not skip. -/
structure Sweeps (db db' : Database) : Prop where
  schedules : db'.store.schedules.rows.Sublist db.store.schedules.rows
  declines : db'.declines = db.declines

theorem Sweeps.trans (h : Sweeps db db') (h' : Sweeps db' db'') : Sweeps db db'' :=
  ⟨h'.schedules.trans h.schedules, h'.declines.trans h.declines⟩

theorem Sweeps.refl (db : Database) : Sweeps db db := ⟨.refl _, rfl⟩

theorem sweeps_store {store : Store} (h : store.schedules.rows.Sublist db.store.schedules.rows) : Sweeps db { db with store := store } :=
  ⟨h, rfl⟩

theorem sweeps_deleteScheduledJob (hrow : ∀ row, db.scheduledJob? id = some row → row.status = .initializing ∨ row.status = .pending)
    (h : db.deleteScheduledJob id = some db') : Sweeps db db' := by
  obtain ⟨hapart, -, hslot⟩ := Database.deleteScheduledJob_spec h
  unfold Database.deleteScheduledJob at h
  split_ifs at h
  cases h
  refine ⟨.refl _, funext fun schedule => ?_⟩
  unfold Database.declines
  cases scheduledJobIDFromScheduleID schedule.id with
  | none => rfl
  | some id' =>
    rw [bind_some, bind_some]
    by_cases hid : id' = id
    · subst hid
      rw [map_eq_none_iff.mp (congrArg Slot.row hslot)]
      cases hold : db.scheduledJob? id' with
      | none => rfl
      | some row => rcases hrow row hold with hinitial | hpending <;> simp [*]
    · rw [hapart.rows id' hid]

theorem deleteDefinition_sweeps (definition : GoString) :
    (deleteDefinition none definition).Ensures w fun answer w' => answer = some .done ∧ Sweeps w.db w'.db := by
  refine Proc.ensures_inspect ?_
  split_ifs
  · exact ⟨rfl, sweeps_store filter_sublist⟩
  · exact ⟨rfl, .refl _⟩

/-- What becomes of schedules of which those that are not skipped are deleted, unless there is an error. -/
structure Cleared (schedules : List JobSchedule) (w : World) (clean : Bool) (w' : World) : Prop where
  sweeps : Sweeps w.db w'.db
  skipped : (∀ schedule ∈ schedules, w.db.declines schedule = true) → clean = true ∧ w' = w
  deleted : clean = true → ∀ schedule ∈ schedules, w.db.declines schedule = false →
    ∀ row ∈ w'.db.store.schedules.rows, Store.prepared schedule.id row = false

/-- The procedure does not stop, and has this outcome. -/
def Returns (Q : Bool → World → Prop) (result : Option Bool) (w' : World) : Prop := ∃ clean, result = some clean ∧ Q clean w'

theorem Cleared.acted (hdeclines : w.db.declines schedule = false) (hsweeps : Sweeps w.db w'.db)
    (hgone : clean = true → ∀ row ∈ w'.db.store.schedules.rows, Store.prepared schedule.id row = false) :
    Cleared [schedule] w clean w' where
  sweeps := hsweeps
  skipped hall := by simp [hdeclines] at hall
  deleted hclean s hs _ := by
    rw [mem_singleton.mp hs]
    exact hgone hclean

theorem discardPrepared_cleared {w₀ : World} (hdeclines : w₀.db.declines schedule = false) (h : Sweeps w₀.db w.db) :
    (discardPrepared (fun _ => none) schedule id).Ensures w (Returns (Cleared [schedule] w₀)) := by
  have hlast {w1 : World} (h1 : Sweeps w.db w1.db) : Returns (Cleared [schedule] w₀) (some true)
      { w1 with db := { w1.db with store := w1.db.store.deletePreparedSchedule schedule.id } } :=
    ⟨true, rfl, .acted hdeclines ((h.trans h1).trans (sweeps_store filter_sublist)) fun _ row hrow => (mem_delete.mp hrow).2⟩
  unfold discardPrepared
  split_ifs
  · refine (deleteDefinition_sweeps schedule.jobID).bind (fun w1 h1 => by cases h1.1) fun answer w1 h1 => ?_
    obtain rfl := some.inj h1.1
    exact hlast h1.2
  · exact hlast (.refl _)

theorem recoverPrepared_cleared : (recoverPrepared (fun _ => none) schedule).Ensures w (Returns (Cleared [schedule] w)) := by
  unfold recoverPrepared
  cases hid : scheduledJobIDFromScheduleID schedule.id with
  | none =>
    have hdeclines : w.db.declines schedule = false := by rw [Database.declines, hid]; rfl
    exact Proc.ensures_pure ⟨false, rfl, .acted hdeclines (.refl _) fun h => by cases h⟩
  | some id =>
    have hdeclines : w.db.declines schedule = (w.db.scheduledJob? id).any fun row =>
        decide (row.status ≠ .initializing ∧ row.status ≠ .pending) := by
      rw [Database.declines, hid, bind_some]
    refine Proc.ensures_read ?_
    cases hrow : w.db.scheduledJob? id with
    | none => exact discardPrepared_cleared (by rw [hdeclines, hrow]; rfl) (.refl _)
    | some row =>
      rw [hrow, any_some] at hdeclines
      dsimp only
      split_ifs with hskip
      · rw [decide_eq_true hskip] at hdeclines
        refine Proc.ensures_pure ⟨true, rfl, .refl _, fun _ => ⟨rfl, rfl⟩, fun _ s hs hnot => ?_⟩
        rw [mem_singleton.mp hs, hdeclines] at hnot
        cases hnot
      · rw [decide_eq_false hskip] at hdeclines
        have hdelete : w.db.deleteScheduledJob id = some { w.db with scheduled := w.db.scheduled.delete (·.id == id) } :=
          if_pos (by rw [hrow]; rfl)
        refine Proc.ensures_done (congrArg (Option.map _) hdelete)
          (discardPrepared_cleared hdeclines (sweeps_deleteScheduledJob ?_ hdelete))
        intro row' hrow'
        obtain rfl := mem_unique hrow hrow'
        by_contra hno
        exact hskip (not_or.mp hno)

/-! ### One batch -/

theorem Cleared.cons (h : Cleared [schedule] w clean w1) (h' : Cleared schedules w1 clean' w') :
    Cleared (schedule :: schedules) w (clean && clean') w' where
  sweeps := h.sweeps.trans h'.sweeps
  skipped hall := by
    obtain ⟨rfl, rfl⟩ := h.skipped fun s hs => hall s (mem_singleton.mp hs ▸ mem_cons_self)
    exact h'.skipped fun s hs => hall s (mem_cons_of_mem _ hs)
  deleted hclean s hs hdeclines := by
    rw [and_eq_true] at hclean
    rcases mem_cons.mp hs with rfl | hs
    · exact fun row hrow => h.deleted hclean.1 s mem_cons_self hdeclines row (h'.sweeps.schedules.subset hrow)
    · exact h'.deleted hclean.2 s hs (by rw [h.sweeps.declines]; exact hdeclines)

theorem recoverBatch_cleared (schedules : List JobSchedule) (w : World) :
    (recoverBatch (fun _ _ => none) schedules).Ensures w (Returns (Cleared schedules w)) := by
  induction schedules generalizing w with
  | nil => exact ⟨true, rfl, .refl _, fun _ => ⟨rfl, rfl⟩, fun _ s hs => absurd hs not_mem_nil⟩
  | cons schedule schedules ih =>
    refine recoverPrepared_cleared.bind (fun w1 h1 => by obtain ⟨_, h, -⟩ := h1; cases h) fun _ w1 h1 => ?_
    obtain ⟨clean, hclean, hfirst⟩ := h1
    cases hclean
    refine (ih w1).bind (fun w2 h2 => by obtain ⟨_, h, -⟩ := h2; cases h) fun _ w2 h2 => ?_
    obtain ⟨_, hclean, hrest⟩ := h2
    cases hclean
    exact Proc.ensures_pure ⟨_, rfl, hfirst.cons hrest⟩

theorem batch_eq : db.batch = (db.preparedSchedules.insertionSort fun a b => a.id ≤ b.id).take 256 := rfl

theorem mem_batch (h : schedule ∈ db.batch) : schedule ∈ db.preparedSchedules :=
  (mem_insertionSort _).mp (mem_of_mem_take h)

/-- A round deletes a prepared schedule, unless all of its batch is skipped. -/
theorem Round.deletes (h : Round w w') (hmoves : ¬ Stuck w.db) : w'.db.preparedSchedules.length < w.db.preparedSchedules.length := by
  obtain ⟨hfull, hround⟩ := h
  obtain ⟨_, hclean, hout⟩ := recoverBatch_cleared w.db.batch w
  rw [hround] at hclean hout
  cases hclean
  obtain ⟨schedule, hmem, hdeclines⟩ : ∃ schedule ∈ w.db.batch, w.db.declines schedule = false := by
    by_contra hall
    exact hmoves ⟨hfull, fun s hs => eq_true_of_not_eq_false fun hdeclines => hall ⟨s, hs, hdeclines⟩⟩
  have hsublist : w'.db.preparedSchedules.Sublist w.db.preparedSchedules := hout.sweeps.schedules.filter _
  refine lt_of_le_of_ne hsublist.length_le fun heq => ?_
  have hkept := mem_batch hmem
  rw [← hsublist.eq_of_length heq] at hkept
  obtain ⟨hrow, hprepared⟩ := mem_filter.mp hkept
  have hgone := hout.deleted rfl schedule hmem hdeclines schedule hrow
  simp only [isPrepared, and_eq_true] at hprepared
  simp [Store.prepared, hprepared.1] at hgone

theorem Round.sweeps (h : Round w w') : Sweeps w.db w'.db := by
  obtain ⟨_, -, hout⟩ := recoverBatch_cleared w.db.batch w
  rw [h.2] at hout
  exact hout.sweeps

theorem Stuck.round (h : Stuck w.db) : Round w w := by
  obtain ⟨clean, hclean, hout⟩ := recoverBatch_cleared w.db.batch w
  obtain ⟨rfl, hsame⟩ := hout.skipped h.2
  exact ⟨h.1, Prod.ext hclean hsame⟩

/-! ### The loop -/

theorem recovery_step (n : Nat) (w : World) : recovery (n + 1) w = (if w.db.batch.length = 0 then return true else do
    let clean ← recoverBatch (fun _ _ => none) w.db.batch
    if clean = false then return false
    else if w.db.batch.length < 256 then return true
    else recovery n : Step Bool) w := rfl

theorem recovery_succ (h : Round w w') : recovery (n + 1) w = recovery n w' := by
  obtain ⟨hfull, hround⟩ := h
  rw [recovery_step, hfull, if_neg (by decide), Proc.bind_eq hround, if_neg (by decide), if_neg (by decide)]

theorem recovery_last (h : ∀ w', ¬ Round w w') : (recovery 1 w).1 ≠ none := by
  obtain ⟨clean, hclean, -⟩ := recoverBatch_cleared w.db.batch w
  have hle : w.db.batch.length ≤ 256 := length_take_le ..
  rw [recovery_step]
  split_ifs with hempty hshort
  · exact some_ne_none _
  · rw [Proc.bind_eq (Prod.ext hclean rfl)]
    cases clean <;> exact some_ne_none _
  · rw [Proc.bind_eq (Prod.ext hclean rfl)]
    cases clean with
    | false => exact some_ne_none _
    | true => exact absurd ⟨by omega, Prod.ext hclean rfl⟩ (h _)

theorem endless_of_stuck (h : Stuck w.db) (n : Nat) : (recovery n w).1 = none := by
  induction n with
  | zero => rfl
  | succ n ih => rw [recovery_succ h.round, ih]

theorem endless_of_round (h : Relation.ReflTransGen Round w w') (hstuck : Stuck w'.db) (n : Nat) : (recovery n w).1 = none := by
  induction h using Relation.ReflTransGen.head_induction_on generalizing n with
  | refl => exact endless_of_stuck hstuck n
  | head hround _ ih =>
    cases n with
    | zero => rfl
    | succ n => rw [recovery_succ hround, ih]

theorem ends_of_not_stuck (h : ∀ w', Relation.ReflTransGen Round w w' → ¬ Stuck w'.db) : ∃ n, (recovery n w).1 ≠ none := by
  induction hlen : w.db.preparedSchedules.length using Nat.strong_induction_on generalizing w with
  | _ len ih =>
    by_cases hround : ∃ w', Round w w'
    · obtain ⟨w', hround⟩ := hround
      obtain ⟨n, hn⟩ := ih _ (hlen ▸ hround.deletes (h w .refl)) (fun w'' hw'' => h w'' (.head hround hw'')) rfl
      exact ⟨n + 1, by rwa [recovery_succ hround]⟩
    · exact ⟨1, recovery_last (not_exists.mp hround)⟩

theorem Stuck.count (h : Stuck db) : 256 ≤ db.preparedSchedules.countP db.declines := by
  have hall : db.batch.countP db.declines = 256 := (countP_eq_length.mpr h.2).trans h.1
  rw [← hall, batch_eq]
  exact (take_sublist _ _).countP_le.trans_eq ((perm_insertionSort _ _).countP_eq _)

/-- A round deletes a prepared schedule, unless its batch is full of schedules that are skipped; the recovery returns unless it comes
to such a batch, and it does not come to one if fewer than 256 schedules are skipped. -/
theorem recovery_ends_iff (w : World) :
    (∀ w', Round w w' → (w'.db.preparedSchedules.length < w.db.preparedSchedules.length ↔ ¬ Stuck w.db)) ∧
    ((∃ n, (recovery n w).1 ≠ none) ↔ ∀ w', Relation.ReflTransGen Round w w' → ¬ Stuck w'.db) ∧
    (w.db.preparedSchedules.countP w.db.declines < 256 → ∃ n, (recovery n w).1 ≠ none) := by
  refine ⟨fun w' hround => ⟨fun hlt hstuck => ?_, hround.deletes⟩,
    ⟨fun ⟨n, hn⟩ w' hw' hstuck => hn (endless_of_round hw' hstuck n), ends_of_not_stuck⟩, fun hfew => ?_⟩
  · have hsame := hstuck.round.2.symm.trans hround.2
    cases hsame
    exact lt_irrefl _ hlt
  · refine ends_of_not_stuck fun w' hw' hstuck => ?_
    have hsweeps : Sweeps w.db w'.db := by
      clear hstuck
      induction hw' with
      | refl => exact .refl _
      | tail _ hround ih => exact ih.trans hround.sweeps
    have hle := (hsweeps.schedules.filter isPrepared).countP_le (p := w.db.declines)
    have hcount := hstuck.count
    rw [hsweeps.declines] at hcount
    exact absurd (hcount.trans hle) (not_le.mpr hfew)

/-! ### Schedules that stay prepared -/

def preparedRow (id : Nat) : JobSchedule :=
  { id := redesignedScheduleID id, jobID := goString "job", recurrence := .once, nextDueAt := 0, enabled := false }

def jobRow (status : Nat → JobStatus) (id : Nat) : ScheduledJob := { id := id, nextRunAt := 0, status := status id }

/-- The schedules of so many jobs are still prepared. -/
def preparedJobs (count : Nat) (status : Nat → JobStatus) : World where
  db := {
    scheduled := ⟨(range' 1 count).map (jobRow status),
      pairwise_map.mpr ((pairwise_lt_range' _).imp fun h heq => h.ne (Int.ofNat.inj heq))⟩
    sequence := count
    store := { Store.ofDefinitions [goString "job"] with
      schedules := ⟨(range' 1 count).map preparedRow,
        pairwise_map.mpr ((pairwise_lt_range' _).imp fun h heq => h.ne (Int.ofNat.inj (redesignedScheduleID_inj heq)))⟩
      schedules_job := fun sched hsched => by
        obtain ⟨k, -, rfl⟩ := mem_map.mp hsched
        exact mem_singleton_self _
      occurrences_schedule := fun o ho => absurd ho not_mem_nil } }
  definitions := [goString "job"]

theorem recovery_ends_iff_two_jobs :
    let w := preparedJobs 2 fun k => if k = 1 then .completed else .pending
    w.db.preparedSchedules.countP w.db.declines = 1 ∧ ∃ n, (recovery n w).1 ≠ none :=
  ⟨by decide +kernel, (recovery_ends_iff _).2.2 (by decide +kernel)⟩

/-- The jobs of 256 prepared schedules are completed. -/
def completedJobs : World := preparedJobs 256 fun _ => .completed

theorem completed_jobs_endless : ¬ ∃ n, (recovery n completedJobs).1 ≠ none := by
  rintro ⟨n, hn⟩
  have hprepared : completedJobs.db.preparedSchedules = (range' 1 256).map preparedRow := by
    refine filter_eq_self.mpr fun sched hsched => ?_
    obtain ⟨k, -, rfl⟩ := mem_map.mp hsched
    exact likeStart_redesigned (k := k)
  refine hn (endless_of_stuck ⟨?_, fun sched hsched => ?_⟩ n)
  · rw [batch_eq, length_take, length_insertionSort, hprepared, length_map, length_range', min_self]
  · have hmem := mem_batch hsched
    rw [hprepared] at hmem
    obtain ⟨k, hk, rfl⟩ := mem_map.mp hmem
    have hrange := mem_range'_1.mp hk
    have hrow : completedJobs.db.scheduledJob? k = some (jobRow (fun _ => .completed) k) :=
      Database.scheduledJob?_of_mem (show jobRow (fun _ => .completed) k ∈ completedJobs.db.scheduled.rows from mem_map_of_mem hk)
    have hid : scheduledJobIDFromScheduleID (preparedRow k).id = some (k : Int) :=
      scheduledJobID_redesigned (by omega) (by omega)
    rw [Database.declines, hid, bind_some, hrow]
    rfl

end Goultroid.Scheduler
