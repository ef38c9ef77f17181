import Goultroid.Jobs.Registrations
import Goultroid.Lib.Faults
import Goultroid.Scheduler.Claims

/-!
# Registration of scheduled jobs

`internal/scheduler/engine.go`, `registration_publish.go` and `registration_recovery.go`: a job is registered
in steps, each a statement of its own: the row, the definition that wraps its action, the schedule, which is
saved disabled, and at last the publication of row and schedule. What was done is undone if a step fails, and
what a process that stopped has left is cleaned up when the next one starts, as far as disabled schedules
show it.
-/

open Faults

namespace Goultroid.Scheduler

open Jobs (Calendar JobSchedule Schedule Store)
open Text (decimalInt)

/-- What strings and times are to the Go library, and what the jobs manager is wired to. -/
structure Wiring where
  calendar : Calendar
  /-- `strings.TrimSpace` -/
  trimSpace : GoString → GoString
  /-- the store is a `scheduleRegistrationPublisher` -/
  publisher : Bool := true
  /-- the handler of `scheduler.action` is registered -/
  handler : Bool := true

/-- The database of the scheduler and of the jobs manager; `sequence` is the last id of `scheduled_jobs`. -/
structure Database where
  scheduled : Table ScheduledJob.id Eq
  sequence : Nat
  store : Store

/-- The database and the definitions that the manager has in memory, which are lost with the process. -/
structure World where
  db : Database
  definitions : List GoString

abbrev Step := Proc World

/-! ### Names -/

def scheduledDefinitionID (jobID : Int) : GoString := goString "scheduler:job:" ++ decimalInt jobID

def schedulerPreparedSchedulePrefix : GoString := goString "sched:scheduled:"

def redesignedScheduleID (jobID : Int) : GoString := schedulerPreparedSchedulePrefix ++ decimalInt jobID

def parseDigits (s : GoString) : Option Nat :=
  if s ≠ [] ∧ s.all (fun b => 0x30 ≤ b && b ≤ 0x39) then
    some (Nat.ofDigitChars 10 (s.map fun b => Char.ofNat b.toNat) 0)
  else none

/-- `strconv.ParseInt(s, 10, 64)`. -/
def parseInt64 (s : GoString) : Option Int :=
  match s with
  | 0x2D :: digits => ((parseDigits digits).filter (· ≤ 2 ^ 63)).map fun n => -(n : Int)
  | 0x2B :: digits => ((parseDigits digits).filter (· < 2 ^ 63)).map fun n => (n : Int)
  | digits => ((parseDigits digits).filter (· < 2 ^ 63)).map fun n => (n : Int)

def scheduledJobIDFromScheduleID (scheduleID : GoString) : Option Int :=
  if schedulerPreparedSchedulePrefix.isPrefixOf scheduleID then
    let raw := scheduleID.drop schedulerPreparedSchedulePrefix.length
    if blank raw then none else (parseInt64 raw).filter (0 < ·)
  else none

/-! ### Statements -/

namespace Database

variable (db : Database)

def scheduledJob? (id : Int) : Option ScheduledJob := db.scheduled.rows.find? (·.id == id)

/-- `INSERT INTO scheduled_jobs`; there is no id after the largest. -/
def createScheduledJob (job : ScheduledJob) : Option Database :=
  if db.sequence + 1 < 2 ^ 63 then
    (db.scheduled.insert? { job with id := (db.sequence + 1 : Nat) }).map fun t =>
      { db with scheduled := t, sequence := db.sequence + 1 }
  else none

def activateScheduledJob (id : Int) : Option Database :=
  let selected : ScheduledJob → Bool := fun j => j.id == id && j.status == .initializing
  if db.scheduled.count selected = 1 then
    some { db with scheduled := db.scheduled.update selected (fun j => { j with status := .pending }) fun _ => rfl }
  else none

def deleteScheduledJob (id : Int) : Option Database :=
  if (db.scheduledJob? id).isSome then some { db with scheduled := db.scheduled.delete (·.id == id) } else none

def saveDefinition (id : GoString) : Option Database := some { db with store := db.store.saveDefinition id }

def deleteDefinition (id : GoString) : Option Database := some { db with store := db.store.deleteDefinition id }

def saveSchedule (cal : Calendar) (now : Time) (sched : Schedule) : Option Database :=
  match db.store.saveSchedule cal now sched with
  | .ok store => some { db with store := store }
  | .error _ => none

def disableSchedule (now : Time) (id : GoString) : Option Database :=
  some { db with store := db.store.disableSchedule now id }

def deletePreparedSchedule (id : GoString) : Option Database :=
  some { db with store := db.store.deletePreparedSchedule id }

/-- One transaction. -/
def publishScheduleRegistration (now : Time) (scheduleID : GoString) (scheduledJobID : Int) : Option Database :=
  if scheduleID = [] ∨ scheduledJobID ≤ 0 then none
  else
    match db.activateScheduledJob scheduledJobID with
    | none => none
    | some db =>
      if db.store.schedules.count (Store.prepared scheduleID) = 1 then
        some { db with store := db.store.publishSchedule now scheduleID }
      else none

end Database

/-! ### The jobs manager -/

def execute (fault : Option Fault) (statement : Database → Option Database) : Step Answer :=
  Proc.attempt fault fun w => (statement w.db).map fun db => { w with db := db }

variable (e : Wiring) (fault : Option Fault)

/-- `Register`, of the definition that wraps an action. -/
def register (id : GoString) : Step Answer := do
  let definitions ← Proc.inspect World.definitions
  if id ∈ definitions ∨ e.handler = false then return .refused
  else
    match ← execute fault (·.saveDefinition id) with
    | .done =>
      Proc.modify fun w => { w with definitions := id :: w.definitions }
      return .done
    | answer => return answer

def deleteDefinition (id : GoString) : Step Answer := do
  let definitions ← Proc.inspect World.definitions
  if id ∈ definitions then
    match ← execute fault (·.deleteDefinition id) with
    | .done =>
      Proc.modify fun w => { w with definitions := w.definitions.filter (· != id) }
      return .done
    | answer => return answer
  else return .done

def saveSchedule (now : Time) (sched : Schedule) : Step Answer :=
  match e.calendar.validateSchedulePolicy sched with
  | some _ => return .refused
  | none => execute fault (·.saveSchedule e.calendar now sched)

/-! ### Registration -/

inductive ActionType where
  | message
  | command
  | job
  | other (name : GoString)
  deriving DecidableEq

/-- The statements of a registration, each of which is executed at most once. -/
inductive Site where
  | create
  | saveDefinition
  | saveSchedule
  /-- the deletion of the definition whose schedule could not be saved -/
  | undefine
  /-- the deletion of the row of a job that could not be prepared -/
  | withdraw
  | activate
  | publish
  | disable
  /-- the deletions that compensate a failed publication -/
  | removeDefinition
  | removeRow
  deriving DecidableEq

structure Request where
  actionType : ActionType
  payload : GoString
  intervalSeconds : Int
  nextRunAt : Time
  now : Time
  deriving DecidableEq

structure ScheduledRegistration where
  definitionID : GoString
  ownsDefinition : Bool
  deriving DecidableEq

def redesignedSchedule (job : Request) (id : Int) (definitionID : GoString) (enabled : Bool) : Schedule where
  id := redesignedScheduleID id
  jobID := definitionID
  recurrence := if 0 < job.intervalSeconds then .interval else .once
  interval := if 0 < job.intervalSeconds then Int.bmod (job.intervalSeconds * Jobs.second) (2 ^ 64) else 0
  timezone := goString "UTC"
  nextDueAt := job.nextRunAt
  misfirePolicy := .runOnce
  overlapPolicy := .forbid
  enabled := enabled
  revision := 1

def saveRedesignedSchedule (job : Request) (id : Int) (definitionID : GoString) (enabled : Bool) : Step Answer :=
  saveSchedule e fault job.now (redesignedSchedule job id definitionID enabled)

variable (plan : Site → Option Fault) (job : Request) (id : Int)

/-- `prepareScheduledDefinition`, for a job that points at a definition of the caller. -/
def prepareTarget : Step (Option ScheduledRegistration) := do
  let targetID := e.trimSpace job.payload
  let definitions ← Proc.inspect World.definitions
  if targetID = [] ∨ targetID ∉ definitions then return none
  else
    match ← saveRedesignedSchedule e (plan .saveSchedule) job id targetID false with
    | .done => return some ⟨targetID, false⟩
    | _ => return none

/-- `prepareScheduledDefinition`, for an action that a definition of the scheduler wraps. -/
def prepareWrapper : Step (Option ScheduledRegistration) := do
  match ← register e (plan .saveDefinition) (scheduledDefinitionID id) with
  | .done =>
    match ← saveRedesignedSchedule e (plan .saveSchedule) job id (scheduledDefinitionID id) false with
    | .done => return some ⟨scheduledDefinitionID id, true⟩
    | _ =>
      let _ ← deleteDefinition (plan .undefine) (scheduledDefinitionID id)
      return none
  | _ => return none

def prepareScheduledDefinition : Step (Option ScheduledRegistration) :=
  if job.actionType = .job then prepareTarget e plan job id else prepareWrapper e plan job id

/-- Whether an owned wrapper is safe to remove after a failure, and the outcome. -/
def publishScheduledRegistration (registration : ScheduledRegistration) : Step (Bool × Answer) :=
  if e.publisher then do
    match ← execute (plan .publish) (·.publishScheduleRegistration job.now (redesignedScheduleID id) id) with
    | .refused => return (true, .refused)
    | answer => return (false, answer)
  else do
    match ← execute (plan .activate) (·.activateScheduledJob id) with
    | .done =>
      let answer ← saveRedesignedSchedule e (plan .publish) job id registration.definitionID true
      return (false, answer)
    | answer => return (true, answer)

def compensateScheduledRegistration (registration : ScheduledRegistration) (removeOwnedDefinition : Bool) :
    Step Unit := do
  let _ ← execute (plan .disable) (·.disableSchedule job.now (redesignedScheduleID id))
  if removeOwnedDefinition ∧ registration.ownsDefinition ∧ registration.definitionID ≠ [] then
    let _ ← deleteDefinition (plan .removeDefinition) registration.definitionID
  let _ ← execute (plan .removeRow) (·.deleteScheduledJob id)

def initializingRow : ScheduledJob where
  id := 0
  intervalSeconds := job.intervalSeconds
  nextRunAt := job.nextRunAt
  status := .initializing
  maxAttempts := 3

/-- What `ScheduleOnce` and `ScheduleRecurring` do alike: the id of the registered job, or nothing on an error. -/
def schedule : Step (Option Int) := do
  match ← execute (plan .create) (·.createScheduledJob (initializingRow job)) with
  | .done =>
    -- `LastInsertId`
    let id ← Proc.inspect fun w => (w.db.sequence : Int)
    match ← prepareScheduledDefinition e plan job id with
    | none =>
      let _ ← execute (plan .withdraw) (·.deleteScheduledJob id)
      return none
    | some registration =>
      match ← publishScheduledRegistration e plan job id registration with
      | (_, .done) => return some id
      | (removeOwnedDefinition, _) =>
        compensateScheduledRegistration plan job id registration removeOwnedDefinition
        return none
  | _ => return none

/-- `validateActionType`. -/
def ActionType.valid : ActionType → Bool
  | .other _ => false
  | _ => true

def scheduleOnce (when now : Time) (actionType : ActionType) (payload : GoString) : Step (Option Int) :=
  if actionType.valid then schedule e plan ⟨actionType, payload, 0, when, now⟩ else return none

def scheduleRecurring (interval : Duration) (now : Time) (actionType : ActionType) (payload : GoString) : Step (Option Int) :=
  if actionType.valid then
    if interval < Jobs.second then return none
    else if interval.tmod Jobs.second ≠ 0 then return none
    else schedule e plan ⟨actionType, payload, e.calendar.seconds interval, now + interval, now⟩
  else return none

/-! ### Recovery -/

inductive RecoverySite where
  /-- the deadline of the recovery has passed -/
  | deadline
  | read
  | deleteRow
  | deleteDefinition
  | deleteSchedule
  deriving DecidableEq

section Recovery

variable (faults : RecoverySite → Option Fault)

/-- The definition and the schedule of an interrupted registration, in this order. -/
def discardPrepared (schedule : JobSchedule) (jobID : Int) : Step Bool := do
  let removed ← if schedule.jobID = scheduledDefinitionID jobID then deleteDefinition (faults .deleteDefinition) schedule.jobID
    else pure Answer.done
  match removed with
  | .done =>
    match ← execute (faults .deleteSchedule) (·.deletePreparedSchedule schedule.id) with
    | .done => return true
    | _ => return false
  | _ => return false

/-- One schedule of a batch: whether it gave no error. -/
def recoverPrepared (schedule : JobSchedule) : Step Bool :=
  match scheduledJobIDFromScheduleID schedule.id with
  | none => return false
  | some jobID => do
    match ← Proc.query (faults .read) (·.db.scheduledJob? jobID) with
    | none => return false
    | some none => discardPrepared faults schedule jobID
    | some (some row) =>
      if row.status ≠ .initializing ∧ row.status ≠ .pending then return true
      else
        match ← execute (faults .deleteRow) (·.deleteScheduledJob jobID) with
        | .done => discardPrepared faults schedule jobID
        | _ => return false

end Recovery

/-- The schedules of a batch, until the deadline: whether none gave an error. -/
def recoverBatch (faults : Nat → RecoverySite → Option Fault) : List JobSchedule → Step Bool
  | [] => return true
  | schedule :: schedules =>
    if (faults schedules.length .deadline).isSome then return false
    else do
      let clean ← recoverPrepared (faults schedules.length) schedule
      let rest ← recoverBatch faults schedules
      return clean && rest

/-- Batch after batch, of at most so many: nothing is returned if they do not suffice. The faults are those of the batch
so many before the last, at the schedule so many before the end of the batch. -/
def recoverPreparedScheduleRegistrations (listing : Nat → Option Fault) (faults : Nat → Nat → RecoverySite → Option Fault) :
    Nat → Step Bool
  | 0 => fun w => (none, w)
  | batches + 1 => do
    match ← Proc.query (listing batches) (·.db.store.listPreparedSchedules schedulerPreparedSchedulePrefix 256) with
    | none => return false
    | some schedules =>
      if schedules.length = 0 then return true
      else
        let clean ← recoverBatch (faults batches) schedules
        if clean = false then return false
        else if schedules.length < 256 then return true
        else recoverPreparedScheduleRegistrations listing faults batches

/-! ### Runs -/

/-- A call of the scheduler, or the start of a process after the last one has stopped. -/
inductive Event where
  | scheduleOnce (when now : Time) (actionType : ActionType) (payload : GoString) (plan : Site → Option Fault)
  | scheduleRecurring (interval : Duration) (now : Time) (actionType : ActionType) (payload : GoString) (plan : Site → Option Fault)
  | start (listing : Nat → Option Fault) (faults : Nat → Nat → RecoverySite → Option Fault) (batches : Nat)

inductive Report where
  | registered (id : Int)
  | failed
  | stopped
  | recovered
  | unrecovered
  deriving DecidableEq

/-- The manager of a new process has the stored definitions. -/
def World.restart (w : World) : World := { w with definitions := w.db.store.definitions }

def World.report (result : Option (Option Int) × World) : Report × World :=
  match result with
  | (none, w) => (.stopped, w)
  | (some none, w) => (.failed, w)
  | (some (some id), w) => (.registered id, w)

def World.advance (w : World) : Event → Report × World
  | .scheduleOnce when now actionType payload plan => World.report (scheduleOnce e plan when now actionType payload w)
  | .scheduleRecurring interval now actionType payload plan =>
    World.report (scheduleRecurring e plan interval now actionType payload w)
  | .start listing faults batches =>
    match recoverPreparedScheduleRegistrations listing faults batches w.restart with
    | (none, w) => (.stopped, w)
    | (some true, w) => (.recovered, w)
    | (some false, w) => (.unrecovered, w)

/-- A call of the running process, or a new process: the flag says that there is one. -/
inductive Serve (ok : Event → Prop) : Bool × World → Bool × World → Prop where
  | start {up : Bool} {w w' : World} {listing : Nat → Option Fault} {faults : Nat → Nat → RecoverySite → Option Fault}
    {batches : Nat} {report : Report} (hok : ok (.start listing faults batches))
    (hstep : w.advance e (.start listing faults batches) = (report, w')) : Serve ok (up, w) (report != .stopped, w')
  | call {w w' : World} {event : Event} {report : Report} (hok : ok event) (hstep : w.advance e event = (report, w')) :
    Serve ok (true, w) (report != .stopped, w')

abbrev Serves (ok : Event → Prop) : Bool × World → Bool × World → Prop := Relation.ReflTransGen (Serve e ok)

end Goultroid.Scheduler
