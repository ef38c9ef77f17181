import Goultroid.Lib.Table
import Goultroid.Tasks.Types

/-!
# The durable job tables

`internal/jobs/domain.go` and `internal/jobs/sqlite/schema.go`: the rows of schedules, occurrences,
attempts and the outbox, with the constraints of the schema. Unique columns are part of each table, and
the foreign keys (`internal/database/db.go` turns them on for every connection) are fields of `Store`,
so that every value of the type is a database the schema accepts. The statements below are the only
way the transactions change it. A SQL `NULL` text is the empty text, which is how the store reads it
back; of `job_definitions` only the ids are kept, which is all the foreign keys read.
-/

namespace Goultroid.Jobs

/-! ### Rows -/

inductive OccurrenceState where
  | unset
  | ready
  | dispatched
  | completed
  | failed
  | cancelled
  | blocked
  | other (name : GoString) (hnew : name ∉ [[], goString "ready", goString "dispatched", goString "completed", goString "failed",
      goString "cancelled", goString "blocked"])
  deriving DecidableEq

def OccurrenceState.text : OccurrenceState → GoString
  | .unset => []
  | .ready => goString "ready"
  | .dispatched => goString "dispatched"
  | .completed => goString "completed"
  | .failed => goString "failed"
  | .cancelled => goString "cancelled"
  | .blocked => goString "blocked"
  | .other name _ => name

/-- `occurrenceTerminal`, and the three states that the SQL of the store lists. -/
def OccurrenceState.terminal : OccurrenceState → Bool
  | .completed | .failed | .cancelled => true
  | _ => false

inductive AttemptState where
  | unset
  | leased
  | running
  | completed
  | failed
  | timedOut
  | cancelled
  | abortedBeforeStart
  | deferred
  | other (name : GoString) (hnew : name ∉ [[], goString "leased", goString "running", goString "completed", goString "failed",
      goString "timed_out", goString "cancelled", goString "aborted_before_start", goString "deferred"])
  deriving DecidableEq

def AttemptState.text : AttemptState → GoString
  | .unset => []
  | .leased => goString "leased"
  | .running => goString "running"
  | .completed => goString "completed"
  | .failed => goString "failed"
  | .timedOut => goString "timed_out"
  | .cancelled => goString "cancelled"
  | .abortedBeforeStart => goString "aborted_before_start"
  | .deferred => goString "deferred"
  | .other name _ => name

namespace AttemptState

variable {state : AttemptState}

/-- `leased` or `running`: the attempt still holds its lease. -/
def active : AttemptState → Bool
  | .leased | .running => true
  | _ => false

/-- The outcomes a commit accepts. -/
def result : AttemptState → Bool
  | .completed | .failed | .timedOut | .cancelled | .abortedBeforeStart => true
  | _ => false

/-- The states after which a further attempt may be leased. -/
def terminal (state : AttemptState) : Bool := state.result || state == .deferred

@[simp] theorem active_of_result (h : state.result = true) : state.active = false := by
  cases state <;> simp_all [active, result]

theorem active_of_terminal (h : state.terminal = true) : state.active = false := by
  cases state <;> simp_all [active, terminal, result]

end AttemptState

inductive OverlapPolicy where
  | unset
  | forbid
  | replace
  | allowBounded
  | other (name : GoString)
  deriving DecidableEq

inductive MisfirePolicy where
  | unset
  | skip
  | runOnce
  | catchUpBounded
  | other (name : GoString)
  deriving DecidableEq

inductive Recurrence where
  | once
  | interval
  | other (name : GoString)
  deriving DecidableEq

structure JobSchedule where
  id : GoString
  jobID : GoString
  recurrence : Recurrence
  intervalSeconds : Int := 0
  timezone : GoString := []
  nextDueAt : Time
  misfirePolicy : MisfirePolicy := .runOnce
  overlapPolicy : OverlapPolicy := .forbid
  enabled : Bool := true
  revision : Nat := 1
  updatedAt : Time := 0
  deriving DecidableEq

structure JobOccurrence where
  id : OccurrenceID
  jobID : GoString
  scheduleID : GoString := []
  scheduledFor : Time := 0
  occurrenceKey : GoString
  state : OccurrenceState := .unset
  readyAt : Time := 0
  cancelEpoch : Nat := 0
  revision : Nat := 0
  updatedAt : Time := 0
  deriving DecidableEq

structure JobAttempt where
  id : AttemptID
  occurrenceID : OccurrenceID
  attemptNo : Nat
  taskID : TaskID
  leaseEpoch : Nat
  leaseUntil : Time
  state : AttemptState
  startedAt : Option Time := none
  finishedAt : Option Time := none
  result : List UInt8 := []
  error : GoString := []
  createdAt : Time
  deriving DecidableEq

structure OutboxEvent where
  eventID : GoString
  occurrenceID : OccurrenceID
  kind : GoString
  payload : List UInt8
  committedAt : Time
  delivered : Bool := false
  deriving DecidableEq

/-! ### Unique columns -/

namespace JobOccurrence

/-- `id PRIMARY KEY`, `occurrence_key UNIQUE`. -/
def unique (o : JobOccurrence) : OccurrenceID × GoString := (o.id, o.occurrenceKey)

/-- The columns that no statement of the store updates. -/
def fixed (o : JobOccurrence) : (OccurrenceID × GoString) × GoString × GoString × Time :=
  (o.unique, o.jobID, o.scheduleID, o.scheduledFor)

def Clash (k k' : OccurrenceID × GoString) : Prop := k.1 = k'.1 ∨ k.2 = k'.2

instance : DecidableRel Clash := fun k k' => inferInstanceAs (Decidable (k.1 = k'.1 ∨ k.2 = k'.2))

instance : Std.Symm Clash := ⟨fun _ _ h => h.imp Eq.symm Eq.symm⟩

end JobOccurrence

namespace JobAttempt

/-- `id PRIMARY KEY`, `task_id UNIQUE`, `UNIQUE(occurrence_id, attempt_no)`. -/
def unique (a : JobAttempt) : AttemptID × TaskID × OccurrenceID × Nat := (a.id, a.taskID, a.occurrenceID, a.attemptNo)

def Clash (k k' : AttemptID × TaskID × OccurrenceID × Nat) : Prop :=
  k.1 = k'.1 ∨ k.2.1 = k'.2.1 ∨ k.2.2 = k'.2.2

instance : DecidableRel Clash :=
  fun k k' => inferInstanceAs (Decidable (k.1 = k'.1 ∨ k.2.1 = k'.2.1 ∨ k.2.2 = k'.2.2))

instance : Std.Symm Clash := ⟨fun _ _ h => h.imp Eq.symm fun h => h.imp Eq.symm Eq.symm⟩

end JobAttempt

/-! ### The database -/

/-- The tables and their foreign keys. -/
structure Store where
  definitions : List GoString
  schedules : Table JobSchedule.id Eq
  occurrences : Table JobOccurrence.unique JobOccurrence.Clash
  attempts : Table JobAttempt.unique JobAttempt.Clash
  outbox : Table OutboxEvent.eventID Eq
  schedules_job : ∀ sched ∈ schedules.rows, sched.jobID ∈ definitions
  occurrences_job : ∀ o ∈ occurrences.rows, o.jobID ∈ definitions
  occurrences_schedule : ∀ o ∈ occurrences.rows, o.scheduleID = [] ∨ o.scheduleID ∈ schedules.rows.map JobSchedule.id
  attempts_occurrence : ∀ a ∈ attempts.rows, ∃ o ∈ occurrences.rows, o.id = a.occurrenceID

namespace Store

@[ext] theorem ext {s s' : Store} (hdefs : s.definitions = s'.definitions) (hschedules : s.schedules = s'.schedules)
    (hoccs : s.occurrences = s'.occurrences) (hatts : s.attempts = s'.attempts) (hout : s.outbox = s'.outbox) : s = s' := by
  cases s; cases s'; cases hdefs; cases hschedules; cases hoccs; cases hatts; cases hout; rfl

/-- No occurrence was ever materialized; the definitions and schedules are any. -/
structure Blank (s : Store) : Prop where
  occurrences : s.occurrences.rows = []
  attempts : s.attempts.rows = []
  outbox : s.outbox.rows = []

section Queries

variable (s : Store)

def occurrence? (id : OccurrenceID) : Option JobOccurrence := s.occurrences.rows.find? (·.id == id)

def occurrenceByKey? (key : GoString) : Option JobOccurrence := s.occurrences.rows.find? (·.occurrenceKey == key)

def schedule? (id : GoString) : Option JobSchedule := s.schedules.rows.find? (·.id == id)

def attempt? (id : AttemptID) : Option JobAttempt := s.attempts.rows.find? (·.id == id)

/-- `job_attempts WHERE occurrence_id = id`, in the order in which they were inserted. -/
def attemptsOf (id : OccurrenceID) : List JobAttempt := s.attempts.rows.filter (·.occurrenceID == id)

end Queries

section Statements

variable (s : Store)

/-- `INSERT INTO job_occurrences`, under the unique columns and both foreign keys. -/
def insertOccurrence? (o : JobOccurrence) : Option Store :=
  if hjob : o.jobID ∈ s.definitions then
    if hsched : o.scheduleID = [] ∨ o.scheduleID ∈ s.schedules.rows.map JobSchedule.id then
      match h : s.occurrences.insert? o with
      | none => none
      | some t => some { s with
          occurrences := t
          occurrences_job := by
            intro o' ho'
            rw [(Table.insert?_eq_some h).2, List.mem_append, List.mem_singleton] at ho'
            rcases ho' with ho' | rfl
            · exact s.occurrences_job o' ho'
            · exact hjob
          occurrences_schedule := by
            intro o' ho'
            rw [(Table.insert?_eq_some h).2, List.mem_append, List.mem_singleton] at ho'
            rcases ho' with ho' | rfl
            · exact s.occurrences_schedule o' ho'
            · exact hsched
          attempts_occurrence := by
            intro a ha
            obtain ⟨o', ho', heq⟩ := s.attempts_occurrence a ha
            exact ⟨o', by rw [(Table.insert?_eq_some h).2]; exact List.mem_append_left _ ho', heq⟩ }
    else none
  else none

/-- `UPDATE job_occurrences SET f WHERE p`. -/
def updateOccurrences (p : JobOccurrence → Bool) (f : JobOccurrence → JobOccurrence)
    (hf : ∀ o, (f o).fixed = o.fixed := by intro; rfl) : Store :=
  { s with
    occurrences := s.occurrences.update p f fun o => congrArg Prod.fst (hf o)
    occurrences_job := by
      intro o ho
      obtain ⟨r, hr, rfl⟩ := Table.mem_update.mp ho
      have hjob : (if p r then f r else r).jobID = r.jobID := by
        split_ifs
        · exact congrArg (·.2.1) (hf r)
        · rfl
      rw [hjob]
      exact s.occurrences_job r hr
    occurrences_schedule := by
      intro o ho
      obtain ⟨r, hr, rfl⟩ := Table.mem_update.mp ho
      have hsched : (if p r then f r else r).scheduleID = r.scheduleID := by
        split_ifs
        · exact congrArg (·.2.2.1) (hf r)
        · rfl
      rw [hsched]
      exact s.occurrences_schedule r hr
    attempts_occurrence := by
      intro a ha
      obtain ⟨o, ho, heq⟩ := s.attempts_occurrence a ha
      refine ⟨_, Table.mem_update.mpr ⟨o, ho, rfl⟩, ?_⟩
      rw [← heq]
      split_ifs
      · exact congrArg (·.1.1) (hf o)
      · rfl }

/-- `DELETE FROM job_occurrences WHERE p`, with the attempts that `ON DELETE CASCADE` takes along. -/
def deleteOccurrences (p : JobOccurrence → Bool) : Store :=
  { s with
    occurrences := s.occurrences.delete p
    attempts := s.attempts.delete fun a => s.occurrences.rows.any fun o => p o && o.id == a.occurrenceID
    occurrences_job := fun o ho => s.occurrences_job o (Table.mem_delete.mp ho).1
    occurrences_schedule := fun o ho => s.occurrences_schedule o (Table.mem_delete.mp ho).1
    attempts_occurrence := by
      intro a ha
      obtain ⟨ha, hkeep⟩ := Table.mem_delete.mp ha
      obtain ⟨o, ho, heq⟩ := s.attempts_occurrence a ha
      refine ⟨o, Table.mem_delete.mpr ⟨ho, ?_⟩, heq⟩
      have := List.any_eq_false.mp hkeep o ho
      simpa [heq] using this }

/-- `INSERT INTO job_attempts`, under the unique columns and the foreign key. -/
def insertAttempt? (a : JobAttempt) : Option Store :=
  if hocc : a.occurrenceID ∈ s.occurrences.rows.map JobOccurrence.id then
    match h : s.attempts.insert? a with
    | none => none
    | some t => some { s with
        attempts := t
        attempts_occurrence := by
          intro a' ha'
          rw [(Table.insert?_eq_some h).2, List.mem_append, List.mem_singleton] at ha'
          rcases ha' with ha' | rfl
          · exact s.attempts_occurrence a' ha'
          · exact List.mem_map.mp hocc }
  else none

/-- `UPDATE job_attempts SET f WHERE p`. -/
def updateAttempts (p : JobAttempt → Bool) (f : JobAttempt → JobAttempt)
    (hf : ∀ a, (f a).unique = a.unique := by intro; rfl) : Store :=
  { s with
    attempts := s.attempts.update p f hf
    attempts_occurrence := by
      intro a ha
      obtain ⟨r, hr, rfl⟩ := Table.mem_update.mp ha
      have hocc : (if p r then f r else r).occurrenceID = r.occurrenceID := by
        split_ifs
        · exact congrArg (·.2.2.1) (hf r)
        · rfl
      rw [hocc]
      exact s.attempts_occurrence r hr }

/-- `INSERT INTO job_outbox`. -/
def insertOutbox? (e : OutboxEvent) : Option Store :=
  (s.outbox.insert? e).map fun t => { s with outbox := t }

/-- `UPDATE job_schedules SET f WHERE p`. -/
def updateSchedules (p : JobSchedule → Bool) (f : JobSchedule → JobSchedule)
    (hf : ∀ sched, ((f sched).id, (f sched).jobID) = (sched.id, sched.jobID) := by intro; rfl) : Store :=
  { s with
    schedules := s.schedules.update p f fun sched => congrArg Prod.fst (hf sched)
    schedules_job := by
      intro sched hsched
      obtain ⟨r, hr, rfl⟩ := Table.mem_update.mp hsched
      have hjob : (if p r then f r else r).jobID = r.jobID := by
        split_ifs
        · exact congrArg Prod.snd (hf r)
        · rfl
      rw [hjob]
      exact s.schedules_job r hr
    occurrences_schedule := by
      intro o ho
      refine (s.occurrences_schedule o ho).imp_right fun hmem => ?_
      obtain ⟨r, hr, heq⟩ := List.mem_map.mp hmem
      refine List.mem_map.mpr ⟨_, Table.mem_update.mpr ⟨r, hr, rfl⟩, ?_⟩
      rw [← heq]
      split_ifs
      · exact congrArg Prod.fst (hf r)
      · rfl }

end Statements

end Store

end Goultroid.Jobs
