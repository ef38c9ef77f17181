import Goultroid.Jobs.Manager

/-!
# Schedules

`ProcessDueSchedules` lists the due schedules, decides from what it listed what to do about each, and
tells the store in a transaction of its own for each. In between anybody may save, disable or advance the
schedule: the transaction looks at the row again to see that it is due, and takes the next due time from
its caller.
-/

namespace Goultroid.Jobs

open List
open Threads (Pool Program)

def second : Duration := 1000000000

/-- `time.Duration(1<<63 - 1)`. -/
def maxDuration : Duration := 2 ^ 63 - 1

/-- The library functions that schedules depend on. -/
structure Calendar where
  fmt : Formats
  /-- the error of `time.LoadLocation`, if it does not know the zone -/
  loadLocation : GoString → Option GoString
  /-- `int64(d.Seconds())` -/
  seconds : Duration → Int

/-- A schedule as it is passed to `SaveSchedule` and returned by `ListDueSchedules`. -/
structure Schedule where
  id : GoString
  jobID : GoString
  recurrence : Recurrence
  interval : Duration := 0
  timezone : GoString := []
  nextDueAt : Time
  misfirePolicy : MisfirePolicy := .unset
  overlapPolicy : OverlapPolicy := .unset
  enabled : Bool := true
  revision : Nat := 1
  deriving DecidableEq

def MisfirePolicy.text : MisfirePolicy → GoString
  | .unset => []
  | .skip => goString "skip"
  | .runOnce => goString "run_once"
  | .catchUpBounded => goString "catch_up_bounded"
  | .other name => name

def OverlapPolicy.text : OverlapPolicy → GoString
  | .unset => []
  | .forbid => goString "forbid"
  | .replace => goString "replace"
  | .allowBounded => goString "allow_bounded"
  | .other name => name

/-- What `ListDueSchedules` reads of a row. -/
def JobSchedule.listed (row : JobSchedule) : Schedule where
  id := row.id
  jobID := row.jobID
  recurrence := row.recurrence
  interval := Int.bmod (row.intervalSeconds * second) (2 ^ 64)
  timezone := row.timezone
  nextDueAt := row.nextDueAt
  misfirePolicy := row.misfirePolicy
  overlapPolicy := row.overlapPolicy
  enabled := row.enabled
  revision := row.revision

/-! ### Checks -/

namespace Calendar

variable (cal : Calendar)

/-- The checks that `validateSchedulePolicy` and `SaveSchedule` make alike. -/
def timingError (sched : Schedule) : Option GoString :=
  if blank sched.id ∨ blank sched.jobID then some (goString "schedule id and job id are required")
  else
    let recurrence : Option GoString :=
      match sched.recurrence with
      | .once => if sched.interval ≠ 0 then some (goString "one-shot schedule interval must be zero") else none
      | .interval =>
        if sched.interval < second then some (goString "recurring schedule interval must be at least one second") else none
      | .other name => some (goString "unsupported recurrence " ++ cal.fmt.quote name)
    match recurrence with
    | some err => some err
    | none =>
      if sched.nextDueAt = 0 then some (goString "schedule next due time is required")
      else
        let tz := if sched.timezone = [] then goString "UTC" else sched.timezone
        (cal.loadLocation tz).map fun err => goString "invalid schedule timezone " ++ cal.fmt.quote tz ++ goString ": " ++ err

def validateSchedulePolicy (sched : Schedule) : Option GoString :=
  match cal.timingError sched with
  | some err => some err
  | none =>
    let misfire : Option GoString :=
      match sched.misfirePolicy with
      | .unset | .runOnce | .skip => none
      | .catchUpBounded => some (goString "catch_up_bounded misfire policy is not supported")
      | .other name => some (goString "invalid misfire policy " ++ cal.fmt.quote name)
    match misfire with
    | some err => some err
    | none =>
      match sched.overlapPolicy with
      | .unset | .forbid => none
      | .replace => some (goString "replace overlap policy is not supported")
      | .allowBounded => some (goString "allow_bounded overlap policy is not supported")
      | .other name => some (goString "invalid overlap policy " ++ cal.fmt.quote name)

/-- The checks of the store's `SaveSchedule`. -/
def saveError (sched : Schedule) : Option GoString :=
  match cal.timingError sched with
  | some err => some err
  | none =>
    if sched.misfirePolicy ≠ .unset ∧ sched.misfirePolicy ≠ .runOnce ∧ sched.misfirePolicy ≠ .skip then
      some (goString "unsupported misfire policy " ++ cal.fmt.quote sched.misfirePolicy.text)
    else if sched.overlapPolicy ≠ .unset ∧ sched.overlapPolicy ≠ .forbid then
      some (goString "unsupported overlap policy " ++ cal.fmt.quote sched.overlapPolicy.text)
    else none

/-- The row that `SaveSchedule` inserts. -/
def savedRow (now : Time) (sched : Schedule) : JobSchedule where
  id := sched.id
  jobID := sched.jobID
  recurrence := sched.recurrence
  intervalSeconds := cal.seconds sched.interval
  timezone := if sched.timezone = [] then goString "UTC" else sched.timezone
  nextDueAt := sched.nextDueAt
  misfirePolicy := if sched.misfirePolicy = .unset then .runOnce else sched.misfirePolicy
  overlapPolicy := if sched.overlapPolicy = .unset then .forbid else sched.overlapPolicy
  enabled := sched.enabled
  revision := sched.revision
  updatedAt := now

end Calendar

/-! ### Transactions on schedules -/

namespace Store

variable (cal : Calendar) (s : Store)

/-- `INSERT INTO job_schedules … ON CONFLICT(id) DO UPDATE SET …, revision = revision + 1`. -/
def upsertSchedule (row : JobSchedule) : Option Store :=
  if hjob : row.jobID ∈ s.definitions then
    match h : s.schedules.insert? row with
    | some t => some { s with
        schedules := t
        schedules_job := by
          intro sched hsched
          rw [(Table.insert?_eq_some h).2, List.mem_append, List.mem_singleton] at hsched
          rcases hsched with hsched | rfl
          · exact s.schedules_job sched hsched
          · exact hjob
        occurrences_schedule := by
          intro o ho
          rw [(Table.insert?_eq_some h).2, List.map_append, List.mem_append]
          exact (s.occurrences_schedule o ho).imp_right .inl }
    | none => some { s with
        schedules := s.schedules.update (·.id == row.id) (fun r => { row with id := r.id, revision := r.revision + 1 })
          fun _ => rfl
        schedules_job := by
          intro sched hsched
          obtain ⟨r, hr, rfl⟩ := Table.mem_update.mp hsched
          split_ifs
          · exact hjob
          · exact s.schedules_job r hr
        occurrences_schedule := by
          intro o ho
          refine (s.occurrences_schedule o ho).imp_right fun hmem => ?_
          obtain ⟨r, hr, heq⟩ := List.mem_map.mp hmem
          refine List.mem_map.mpr ⟨_, Table.mem_update.mpr ⟨r, hr, rfl⟩, ?_⟩
          rw [← heq]
          split_ifs <;> rfl }
  else none

def saveSchedule (now : Time) (sched : Schedule) : Except StoreError Store :=
  match cal.saveError sched with
  | some err => .error (.plain err)
  | none =>
    match s.upsertSchedule (cal.savedRow now sched) with
    | none => .error (.constraint (goString "failed to save job schedule " ++ sched.id))
    | some s' => .ok s'

def skipDueSchedule (checked now : Time) (scheduleID : GoString) (nextDue : Time) : Except StoreError Store :=
  match s.schedule? scheduleID with
  | none => .error (.sentinel .scheduleNotFound)
  | some sched =>
    if sched.enabled = false ∨ checked < sched.nextDueAt then
      .error (.plain (goString "schedule is not enabled or not due"))
    else .ok (s.updateSchedules (fun r => r.id == scheduleID && r.enabled) fun r => { r with
      nextDueAt := nextDue
      revision := r.revision + 1
      updatedAt := now })

def disableSchedule (now : Time) (id : GoString) : Store :=
  s.updateSchedules (fun r => r.id == id && r.enabled) fun r => { r with
    enabled := false
    revision := r.revision + 1
    updatedAt := now }

/-- `LIMIT ?` of the due schedules. -/
def dueLimit (limit : Int) : Nat := if limit ≤ 0 ∨ 1000 < limit then 100 else limit.toNat

/-- `ORDER BY next_due_at, id`. -/
def DueBefore (r r' : JobSchedule) : Prop := r.nextDueAt < r'.nextDueAt ∨ r.nextDueAt = r'.nextDueAt ∧ r.id ≤ r'.id

instance : DecidableRel DueBefore :=
  fun r r' => inferInstanceAs (Decidable (r.nextDueAt < r'.nextDueAt ∨ r.nextDueAt = r'.nextDueAt ∧ r.id ≤ r'.id))

def listDueSchedules (now : Time) (limit : Int) : List Schedule :=
  (((s.schedules.rows.filter fun r => r.enabled && decide (r.nextDueAt ≤ now)).insertionSort DueBefore).take
    (dueLimit limit)).map JobSchedule.listed

section Lookups

variable {s} {id : GoString} {row : JobSchedule}

theorem schedule?_mem (h : s.schedule? id = some row) : row ∈ s.schedules.rows ∧ row.id = id :=
  ⟨mem_of_find?_eq_some h, by simpa using find?_some h⟩

theorem schedule?_of_mem (h : row ∈ s.schedules.rows) : s.schedule? row.id = some row :=
  Table.find?_of_mem h (by simp) fun r hr => (beq_iff_eq.mp hr).symm

theorem schedule?_updateSchedules {p f hf} :
    (s.updateSchedules p f hf).schedule? id = (s.schedule? id).map fun r => if p r then f r else r := by
  have hid (r : JobSchedule) : (f r).id = r.id := congrArg Prod.fst (hf r)
  exact Table.find?_update hid fun r => by rw [hid r]

theorem updateSchedules_of_none {p f hf} (h : ∀ r ∈ s.schedules.rows, p r = false) : s.updateSchedules p f hf = s := by
  refine Store.ext rfl (Table.ext ?_) rfl rfl rfl
  refine (map_congr_left fun r hr => ?_).trans (map_id _)
  rw [h r hr]
  rfl

end Lookups

end Store

/-! ### Decisions -/

/-- The next due time in phase with `nextDue`, strictly after `now`. -/
def nextIntervalDueAfter (nextDue now : Time) (interval : Duration) : Except GoString Time :=
  if interval ≤ 0 then .error (goString "schedule interval must be positive")
  else if now < nextDue then .ok nextDue
  else
    -- `now.Sub(nextDue)` saturates
    let delta := min (now - nextDue) maxDuration
    if nextDue < now ∧ delta = maxDuration then .error (goString "schedule catch-up span exceeds time.Duration range")
    else
      let steps := delta / interval + 1
      if steps ≤ 0 ∨ maxDuration / interval < steps then .error (goString "schedule catch-up arithmetic overflow")
      else
        let candidate := nextDue + steps * interval
        if candidate ≤ now then .error (goString "schedule catch-up did not advance strictly after now")
        else .ok candidate

/-- What a pass does about a schedule that it listed. -/
inductive Plan where
  /-- a policy that this binary cannot honour, or times that it cannot compute with -/
  | disable (catchUp : Bool) (err : GoString)
  | skip (nextDue : Time)
  | materialize (nextDue : Time)
  deriving DecidableEq

def Calendar.plan (cal : Calendar) (now : Time) (sched : Schedule) : Plan :=
  match cal.validateSchedulePolicy sched with
  | some err => .disable false err
  | none =>
    if sched.recurrence = .once then .materialize sched.nextDueAt
    else
      let interval := if sched.interval ≤ 0 then minute else sched.interval
      match nextIntervalDueAfter sched.nextDueAt now interval with
      | .error err => .disable true err
      | .ok nextDue =>
        if sched.misfirePolicy = .skip ∧ sched.nextDueAt + interval ≤ now then .skip nextDue else .materialize nextDue

def Store.execute (cal : Calendar) (s : Store) (checked now : Time) (id : GoString) : Plan → Except StoreError Store
  | .disable _ _ => .ok (s.disableSchedule now id)
  | .skip nextDue => s.skipDueSchedule checked now id nextDue
  | .materialize nextDue => (s.materializeDueSchedule cal.fmt checked id nextDue).map Prod.fst

inductive PassError where
  | disabled (text : GoString)
  | undisabled (text : GoString) (err : StoreError)
  | store (err : StoreError)
  deriving DecidableEq

def Plan.done (id : GoString) : Plan → Option PassError
  | .disable false err => some (.disabled (goString "schedule " ++ id ++ goString ": " ++ err))
  | .disable true err => some (.disabled (goString "schedule " ++ id ++ goString " catch-up: " ++ err))
  | _ => none

def Plan.failed (id : GoString) (err : StoreError) : Plan → PassError
  | .disable false why =>
    .undisabled (goString "schedule " ++ id ++ goString " policy invalid (" ++ why ++ goString "), disable") err
  | .disable true why =>
    .undisabled (goString "schedule " ++ id ++ goString " catch-up invalid (" ++ why ++ goString "), disable") err
  | _ => .store err

/-! ### Passes and their environment -/

inductive ScheduleRequest where
  | saveSchedule (sched : Schedule)
  | skipDueSchedule (scheduleID : GoString) (nextDue : Time)
  | disableSchedule (scheduleID : GoString)
  | transaction (t : Transaction)
  deriving DecidableEq

def Store.answer (cal : Calendar) (s : Store) (checked now : Time) : ScheduleRequest → Except StoreError Store
  | .saveSchedule sched => s.saveSchedule cal now sched
  | .skipDueSchedule id nextDue => s.skipDueSchedule checked now id nextDue
  | .disableSchedule id => .ok (s.disableSchedule now id)
  | .transaction t => s.perform cal.fmt t

/-- The place of a thread. What a pass does about a materialized occurrence, which is to drive an attempt
of it, are transactions like any other. -/
inductive ScheduleTask where
  | processDueSchedules (now : Time) (limit : Int)
  | visit (now : Time) (schedules : List Schedule) (processed : Nat)
  | processed (n : Nat) (err : Option PassError)
  | request (r : ScheduleRequest)
  | answered (err : Option StoreError)
  deriving DecidableEq

/-- What the store was asked, in this order: a visit of a schedule by a pass that read the clock at `now`,
or another request. -/
inductive ScheduleEvent where
  | visit (now checked later : Time) (id : GoString)
  | request (checked later : Time) (r : ScheduleRequest)
  deriving DecidableEq

/-- The database, and what it was asked. -/
structure Timeline where
  store : Store
  events : List ScheduleEvent := []

/-- The clock readings of a transaction, and whether it is carried out. -/
structure ScheduleChoice where
  checked : Time := 0
  now : Time := 0
  fault : Bool := false

/-- The database after a transaction: an error rolls back. -/
def Store.commit (s : Store) : Except StoreError Store → Store
  | .ok s' => s'
  | .error _ => s

def Calendar.advance (cal : Calendar) (choice : ScheduleChoice) (m : Timeline) : ScheduleTask → Option (Timeline × ScheduleTask)
  | .processDueSchedules now limit =>
    if choice.fault then some (m, .processed 0 (some (.store (.plain (goString "list due job schedules")))))
    else some (m, .visit now (m.store.listDueSchedules now limit) 0)
  | .visit _ [] n => some (m, .processed n none)
  | .visit now (sched :: rest) n =>
    let plan := cal.plan now sched
    if choice.fault then some (m, .processed n (some (plan.failed sched.id (.plain (goString "database error")))))
    else
      let result := m.store.execute cal choice.checked choice.now sched.id plan
      let m' : Timeline := ⟨m.store.commit result, m.events ++ [.visit now choice.checked choice.now sched.id]⟩
      match result with
      | .error err => some (m', .processed n (some (plan.failed sched.id err)))
      | .ok _ =>
        match plan.done sched.id with
        | some err => some (m', .processed n (some err))
        | none => some (m', .visit now rest (n + 1))
  | .processed _ _ => none
  | .request r =>
    if choice.fault then some (m, .answered (some (.plain (goString "database error"))))
    else
      let result := m.store.answer cal choice.checked choice.now r
      let m' : Timeline := ⟨m.store.commit result, m.events ++ [.request choice.checked choice.now r]⟩
      match result with
      | .error err => some (m', .answered (some err))
      | .ok _ => some (m', .answered none)
  | .answered _ => none

def Calendar.program (cal : Calendar) : Program Timeline ScheduleTask ScheduleChoice := fun _ choice m task =>
  (cal.advance choice m task).map fun next => (next.1, next.2, [])

/-- The calls from outside. Only `MaterializeDueSchedule` makes occurrences of schedules. -/
def ScheduleTask.entry : ScheduleTask → Bool
  | .processDueSchedules .. => true
  | .request (.transaction (.materializeOccurrence _ occ)) => occ.scheduleID == []
  | .request _ => true
  | _ => false

def timeline (s₀ : Store) : Pool Timeline ScheduleTask := ⟨⟨s₀, []⟩, []⟩

end Goultroid.Jobs
