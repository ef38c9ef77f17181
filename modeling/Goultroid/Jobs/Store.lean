import Mathlib.Data.List.Sort
import Goultroid.Jobs.Schema
import Goultroid.Lib.Text

/-!
# The transactions of the job store

`internal/jobs/sqlite/store.go`: each transaction is a function from the database to the database it
commits or to an error, on which everything it wrote is rolled back. The clock readings are arguments.
A writer-intent statement sets a column to itself and changes no row, so it does not appear.
-/

namespace Goultroid.Jobs

open List
open Text (decimal decimalInt)

/-- Texts that the Go library produces. -/
structure Formats where
  /-- `t.UTC().Format(time.RFC3339Nano)` -/
  rfc3339Nano : Time → GoString
  /-- `t.String()` -/
  timeString : Time → GoString
  /-- the verb `%q` -/
  quote : GoString → GoString

inductive Sentinel where
  | scheduleNotFound
  | occurrenceNotFound
  | attemptNotFound
  | leaseFencingLost
  | occurrenceNotReady
  deriving DecidableEq

inductive StoreError where
  /-- a sentinel error, bare or wrapped as `"%w: detail"` -/
  | sentinel (is : Sentinel) (detail : GoString := [])
  | plain (text : GoString)
  /-- a constraint refused the statement; the wrapping text -/
  | constraint (during : GoString)
  deriving DecidableEq

/-- The latest of some attempts of one occurrence. -/
def maxAttemptNo (attempts : List JobAttempt) : Nat := (attempts.map JobAttempt.attemptNo).foldr max 0

def latestOf (attempts : List JobAttempt) : Option JobAttempt :=
  attempts.find? fun a => a.attemptNo == maxAttemptNo attempts

namespace Store

variable (fmt : Formats) (s : Store) (now : Time) (occurrenceID : OccurrenceID)

/-! ### Reads -/

def countAttempts (id : OccurrenceID) : Nat := (s.attemptsOf id).length

/-- `COUNT(*) … state <> 'deferred'`. -/
def countRetryBudgetUses (id : OccurrenceID) : Nat := (s.attemptsOf id).countP (·.state != .deferred)

def countDeferrals (id : OccurrenceID) : Nat := (s.attemptsOf id).countP (·.state == .deferred)

/-- `SELECT MAX(attempt_no)`, with `0` for an occurrence without attempts. -/
def latestAttemptNo (id : OccurrenceID) : Nat := maxAttemptNo (s.attemptsOf id)

/-- `ORDER BY attempt_no DESC LIMIT 1`. -/
def latestAttempt (id : OccurrenceID) : Option JobAttempt := latestOf (s.attemptsOf id)

/-! ### Materialization -/

/-- The row of a passed occurrence, with the defaults of the fields left empty. -/
def materialized (occ : JobOccurrence) : JobOccurrence := { occ with
  readyAt := if occ.readyAt = 0 then now else occ.readyAt
  state := if occ.state = .unset then .ready else occ.state
  updatedAt := now }

/-- The canonical occurrence of the passed key. A refused insert resolves to the stored row of that key. -/
def materializeOccurrence (occ : JobOccurrence) : Except StoreError (Store × JobOccurrence) :=
  match s.insertOccurrence? (materialized now occ) with
  | some s' => .ok (s', materialized now occ)
  | none =>
    match s.occurrenceByKey? occ.occurrenceKey with
    | some existing => .ok (s, existing)
    | none => .error (.constraint (goString "failed to materialize occurrence " ++ occ.id))

/-- `UPDATE job_schedules SET next_due_at = ?, enabled = ?, …`: a one-shot schedule is disabled. -/
def advanceSchedule (scheduleID : GoString) (nextDue : Time) : Store :=
  s.updateSchedules (·.id == scheduleID) fun sched => { sched with
    nextDueAt := nextDue
    enabled := decide (sched.recurrence ≠ .once)
    revision := sched.revision + 1
    updatedAt := now }

def hasActiveOccurrence (jobID : GoString) : Bool :=
  s.occurrences.rows.any fun o => o.jobID == jobID && (o.state == .ready || o.state == .dispatched)

def scheduledOccurrence (sched : JobSchedule) : JobOccurrence where
  id := goString "occ:" ++ sched.id ++ goString ":" ++ decimalInt (unixNano sched.nextDueAt)
  jobID := sched.jobID
  scheduleID := sched.id
  scheduledFor := sched.nextDueAt
  occurrenceKey := goString "sched:" ++ sched.id ++ goString ":" ++ fmt.rfc3339Nano sched.nextDueAt
  state := .ready
  readyAt := now
  cancelEpoch := 0
  revision := 1
  updatedAt := now

/-- The insert of `MaterializeDueSchedule`: `ON CONFLICT(occurrence_key) DO UPDATE SET updated_at`. -/
def upsertOccurrence (occ : JobOccurrence) : Option Store :=
  match s.occurrenceByKey? occ.occurrenceKey with
  | some _ => some (s.updateOccurrences (·.occurrenceKey == occ.occurrenceKey) fun o => { o with updatedAt := now })
  | none => s.insertOccurrence? occ

/-- The returned occurrence is `none` when an active occurrence of the job forbids a new one. -/
def materializeDueSchedule (scheduleID : GoString) (nextDue : Time) :
    Except StoreError (Store × Option JobOccurrence) :=
  match s.schedule? scheduleID with
  | none => .error (.sentinel .scheduleNotFound)
  | some sched =>
    if sched.enabled = false ∨ now < sched.nextDueAt then
      .error (.plain (goString "schedule is not enabled or not due"))
    else if sched.overlapPolicy = .forbid ∧ s.hasActiveOccurrence sched.jobID = true then
      .ok (s.advanceSchedule now scheduleID nextDue, none)
    else
      let occ := scheduledOccurrence fmt now sched
      match s.upsertOccurrence now occ with
      | none => .error (.constraint (goString "materialize occurrence"))
      | some s' => .ok (s'.advanceSchedule now scheduleID nextDue, some occ)

/-! ### Leases -/

/-- The guards of `prepareAttemptLease` on the occurrence and its latest attempt. -/
def leaseRefusal (o : JobOccurrence) (latestNo : Nat) (latestState : AttemptState) : Option StoreError :=
  match o.state with
  | .ready =>
    if now < o.readyAt then some (.sentinel .occurrenceNotReady (goString "occurrence state is " ++ o.state.text))
    else if latestNo ≠ 0 then some (.sentinel .leaseFencingLost (goString "ready occurrence already has attempts"))
    else none
  | .dispatched =>
    if now < o.readyAt then
      some (.sentinel .occurrenceNotReady (goString "occurrence is deferred until " ++ fmt.timeString o.readyAt))
    else if latestNo = 0 then
      some (.sentinel .occurrenceNotReady (goString "dispatched occurrence has no predecessor attempt"))
    else if latestState.terminal = false then
      -- a live attempt holds the lease; a stale one is deliberately not overridden
      some (.sentinel .occurrenceNotReady
        (goString "previous attempt " ++ latestState.text ++ goString " still active"))
    else none
  | state => some (.sentinel .occurrenceNotReady (goString "occurrence state is " ++ state.text))

def leasedAttempt (attemptNo : Nat) (taskID : TaskID) (leaseDuration : Duration) : JobAttempt where
  id := goString "attempt:" ++ occurrenceID ++ goString ":" ++ decimal attemptNo
  occurrenceID := occurrenceID
  attemptNo := attemptNo
  taskID := taskID
  leaseEpoch := attemptNo
  leaseUntil := now + leaseDuration
  state := .leased
  createdAt := now

@[simp] theorem leasedAttempt_occurrenceID {no : Nat} {taskID : TaskID} {d : Duration} {id : OccurrenceID}
    : (leasedAttempt now id no taskID d).occurrenceID = id := rfl

/-- The task id of a lease: the caller's, or the canonical one. -/
def leaseTaskID (attemptNo : Nat) (taskID : Option TaskID) : TaskID :=
  taskID.getD (goString "task:" ++ occurrenceID ++ goString ":" ++ decimal attemptNo)

/-- `checked` is the clock when the readiness is checked, `now` when the rows are written; `taskID` is
`none` when the canonical one is derived. -/
def prepareLease (checked now : Time) (occurrenceID : OccurrenceID) (taskID : Option TaskID)
    (leaseDuration : Duration) : Except StoreError (Store × JobAttempt) :=
  if leaseDuration ≤ 0 ∨ taskID = some [] then .error (.plain (goString "invalid attempt lease request"))
  else match s.occurrence? occurrenceID with
  | none => .error (.sentinel .occurrenceNotFound)
  | some o =>
    let latestNo := s.latestAttemptNo occurrenceID
    let latestState := ((s.latestAttempt occurrenceID).map JobAttempt.state).getD .unset
    match leaseRefusal fmt checked o latestNo latestState with
    | some err => .error err
    | none =>
      let attemptNo := latestNo + 1
      let a := leasedAttempt now occurrenceID attemptNo (leaseTaskID occurrenceID attemptNo taskID) leaseDuration
      match s.insertAttempt? a with
      | none => .error (.constraint (goString "insert job attempt"))
      | some s' =>
        let p := fun r : JobOccurrence => r.id == occurrenceID && r.revision == o.revision &&
          r.cancelEpoch == o.cancelEpoch && (r.state == .ready || r.state == .dispatched)
        if s'.occurrences.count p = 0 then
          .error (.sentinel .leaseFencingLost
            (goString "occurrence " ++ occurrenceID ++ goString " changed concurrently"))
        else .ok (s'.updateOccurrences p fun r => { r with
          state := .dispatched, revision := r.revision + 1, updatedAt := now }, a)

def prepareAttemptLease (checked now : Time) (occurrenceID : OccurrenceID) (taskID : TaskID)
    (leaseDuration : Duration) : Except StoreError (Store × JobAttempt) :=
  s.prepareLease fmt checked now occurrenceID (some taskID) leaseDuration

def prepareNextAttemptLease (checked now : Time) (occurrenceID : OccurrenceID)
    (leaseDuration : Duration) : Except StoreError (Store × JobAttempt) :=
  s.prepareLease fmt checked now occurrenceID none leaseDuration

/-! ### Results -/

def commitAttemptDeferred (attemptID : AttemptID) (leaseEpoch : Nat) (readyAt : Time)
    (reason : GoString) : Except StoreError Store :=
  if readyAt = 0 then .error (.plain (goString "deferred attempt ready_at is required"))
  else match s.attempt? attemptID with
  | none => .error (.sentinel .leaseFencingLost)
  | some a =>
    if a.leaseEpoch ≠ leaseEpoch then .error (.sentinel .leaseFencingLost)
    else match s.occurrence? a.occurrenceID with
    | none => .error (.sentinel .leaseFencingLost)
    | some o =>
      if s.latestAttemptNo a.occurrenceID ≠ a.attemptNo ∨ o.state ≠ .dispatched then
        .error (.sentinel .leaseFencingLost)
      else if a.state = .deferred then
        if a.error = reason ∧ o.readyAt = readyAt then .ok s else .error (.sentinel .leaseFencingLost)
      else if a.state.active = false then .error (.sentinel .leaseFencingLost)
      else
        let p := fun r : JobAttempt => r.id == attemptID && r.leaseEpoch == leaseEpoch && r.state.active
        if s.attempts.count p ≠ 1 then .error (.sentinel .leaseFencingLost)
        else
          let s' := s.updateAttempts p fun r => { r with state := .deferred, error := reason, finishedAt := some now }
          let q := fun r : JobOccurrence => r.id == a.occurrenceID && r.state == .dispatched
          if s'.occurrences.count q ≠ 1 then .error (.sentinel .leaseFencingLost)
          else .ok (s'.updateOccurrences q fun r => { r with
            readyAt := readyAt, revision := r.revision + 1, updatedAt := now })

section Commit

variable (attemptID : AttemptID) (leaseEpoch : Nat) (outcome : AttemptState) (result : List UInt8) (errStr : GoString)

/-- What a first commit writes. Only completed and cancelled attempts close the occurrence. -/
def recordResult (occurrenceID : OccurrenceID) : Store :=
  let s' := s.updateAttempts (fun r => r.id == attemptID && r.leaseEpoch == leaseEpoch) fun r => { r with
    state := outcome, result := result, error := errStr, finishedAt := some now }
  if outcome = .completed ∨ outcome = .cancelled then
    let final : OccurrenceState := if outcome = .completed then .completed else .cancelled
    s'.updateOccurrences (·.id == occurrenceID) fun r => { r with
      state := final, revision := r.revision + 1, updatedAt := now }
  else s'

/-- What a commit found: the stored result is the one it brings, or it has just recorded it. -/
inductive Commit where
  | replayed
  | recorded (occurrenceID : OccurrenceID) (s : Store)

/-- The body that `CommitAttemptResult` and `CommitAttemptResultWithOutbox` share. -/
def commitAttempt : Except StoreError Commit :=
  if outcome.result = false then .error (.plain (goString "attempt result must be terminal"))
  else match s.attempt? attemptID with
  | none => .error (.sentinel .leaseFencingLost)
  | some a =>
    if a.leaseEpoch ≠ leaseEpoch then .error (.sentinel .leaseFencingLost)
    else if a.state.active = false then
      -- a lost acknowledgement: the original result and timestamps stay
      if a.state = outcome ∧ a.result = result ∧ a.error = errStr then .ok .replayed
      else .error (.sentinel .leaseFencingLost)
    else match s.occurrence? a.occurrenceID with
    | none => .error (.plain (goString "sql: no rows in result set"))
    | some o =>
      if s.latestAttemptNo a.occurrenceID ≠ a.attemptNo ∨ o.state ≠ .dispatched then
        .error (.sentinel .leaseFencingLost)
      else
        .ok (.recorded a.occurrenceID
          (s.recordResult now attemptID leaseEpoch outcome result errStr a.occurrenceID))

def commitAttemptResult : Except StoreError Store :=
  match s.commitAttempt now attemptID leaseEpoch outcome result errStr with
  | .error err => .error err
  | .ok .replayed => .ok s
  | .ok (.recorded _ s') => .ok s'

def commitAttemptResultWithOutbox (outboxEventID outboxKind : GoString) (outboxPayload : List UInt8) :
    Except StoreError Store :=
  match s.commitAttempt now attemptID leaseEpoch outcome result errStr with
  | .error err => .error err
  | .ok .replayed => .ok s
  | .ok (.recorded occID s') =>
    if outboxEventID ≠ [] ∧ outboxKind ≠ [] then
      match s'.insertOutbox? ⟨outboxEventID, occID, outboxKind, outboxPayload, now, false⟩ with
      | none => .error (.constraint (goString "insert completion outbox"))
      | some s'' => .ok s''
    else .ok s'

end Commit

/-! ### The occurrence itself -/

def deferOccurrence (readyAt : Time) : Except StoreError Store :=
  let p := fun r : JobOccurrence => r.id == occurrenceID && r.state == .dispatched
  if s.occurrences.count p = 0 then .error (.sentinel .occurrenceNotFound)
  else .ok (s.updateOccurrences p fun r => { r with readyAt := readyAt, revision := r.revision + 1, updatedAt := now })

def finalizeOccurrence (state : OccurrenceState) : Except StoreError Store :=
  if state ≠ .failed ∧ state ≠ .cancelled then
    .error (.plain (goString "finalize occurrence " ++ occurrenceID ++
      goString ": state must be failed or cancelled, got " ++ state.text))
  else match s.occurrence? occurrenceID with
  | none => .error (.sentinel .occurrenceNotFound)
  | some o =>
    if o.state = state then .ok s
    else if o.state ≠ .dispatched then
      .error (.sentinel .leaseFencingLost
        (goString "occurrence " ++ occurrenceID ++ goString " is " ++ o.state.text))
    else
      let p := fun r : JobOccurrence => r.id == occurrenceID && r.state == .dispatched
      if s.occurrences.count p = 0 then
        .error (.sentinel .leaseFencingLost
          (goString "occurrence " ++ occurrenceID ++ goString " changed concurrently"))
      else .ok (s.updateOccurrences p fun r => { r with
        state := state, revision := r.revision + 1, updatedAt := now })

def cancelOccurrence (reason : GoString) : Except StoreError Store :=
  match s.occurrence? occurrenceID with
  | none => .error (.sentinel .occurrenceNotFound)
  | some o =>
    if o.state.terminal then .ok s
    else
      let epoch := o.cancelEpoch + 1
      let s' := s.updateOccurrences (·.id == occurrenceID) fun r => { r with
        state := .cancelled, cancelEpoch := epoch, revision := r.revision + 1, updatedAt := now }
      let eventID := goString "outbox:cancel:" ++ occurrenceID ++ goString ":" ++ decimal epoch
      let payload := 0x7B :: goString "\"occurrence_id\":" ++ fmt.quote occurrenceID ++
        goString ",\"reason\":" ++ fmt.quote reason ++ goString ",\"cancel_epoch\":" ++ decimal epoch ++ [0x7D]
      match s'.insertOutbox? ⟨eventID, occurrenceID, goString "occurrence_cancelled", payload, now, false⟩ with
      | none => .error (.constraint (goString "insert cancel outbox event"))
      | some s'' => .ok s''

/-- `LIMIT ?` of `DeleteTerminalOccurrences`. -/
def pruneLimit (limit : Int) : Nat := if limit ≤ 0 then 500 else if 5000 < limit then 5000 else limit.toNat

/-- `SELECT id … ORDER BY updated_at LIMIT ?`: the terminal occurrences to prune. -/
def prunable (jobID : GoString) (before : Time) (limit : Int) : List OccurrenceID :=
  (((s.occurrences.rows.filter fun o => o.jobID == jobID && o.state.terminal && decide (o.updatedAt < before)).insertionSort
    fun o o' => o.updatedAt ≤ o'.updatedAt).take (pruneLimit limit)).map JobOccurrence.id

def deleteTerminalOccurrences (jobID : GoString) (before : Time) (limit : Int) : Except StoreError Store :=
  if jobID = [] then .error (.plain (goString "job id is required for pruning"))
  else .ok (s.deleteOccurrences fun o => (s.prunable jobID before limit).contains o.id)

end Store

/-! ### Runs -/

/-- A call of one transaction of the store, with its clock readings. -/
inductive Transaction where
  | materializeOccurrence (now : Time) (occ : JobOccurrence)
  | materializeDueSchedule (now : Time) (scheduleID : GoString) (nextDue : Time)
  | prepareAttemptLease (checked now : Time) (occurrenceID : OccurrenceID) (taskID : TaskID)
      (leaseDuration : Duration)
  | prepareNextAttemptLease (checked now : Time) (occurrenceID : OccurrenceID) (leaseDuration : Duration)
  | commitAttemptResult (now : Time) (attemptID : AttemptID) (leaseEpoch : Nat) (outcome : AttemptState)
      (result : List UInt8) (errStr : GoString)
  | commitAttemptResultWithOutbox (now : Time) (attemptID : AttemptID) (leaseEpoch : Nat) (outcome : AttemptState)
      (result : List UInt8) (errStr outboxEventID outboxKind : GoString) (outboxPayload : List UInt8)
  | commitAttemptDeferred (now : Time) (attemptID : AttemptID) (leaseEpoch : Nat) (readyAt : Time)
      (reason : GoString)
  | deferOccurrence (now : Time) (occurrenceID : OccurrenceID) (readyAt : Time)
  | finalizeOccurrence (now : Time) (occurrenceID : OccurrenceID) (state : OccurrenceState)
  | cancelOccurrence (now : Time) (occurrenceID : OccurrenceID) (reason : GoString)
  | deleteTerminalOccurrences (jobID : GoString) (before : Time) (limit : Int)
  deriving DecidableEq

namespace Store

variable (fmt : Formats) (s : Store)

/-- What a call commits, or the error it returns. -/
def perform : Transaction → Except StoreError Store
  | .materializeOccurrence now occ => (s.materializeOccurrence now occ).map Prod.fst
  | .materializeDueSchedule now scheduleID nextDue => (s.materializeDueSchedule fmt now scheduleID nextDue).map Prod.fst
  | .prepareAttemptLease checked now occ taskID lease =>
    (s.prepareAttemptLease fmt checked now occ taskID lease).map Prod.fst
  | .prepareNextAttemptLease checked now occ lease =>
    (s.prepareNextAttemptLease fmt checked now occ lease).map Prod.fst
  | .commitAttemptResult now attemptID epoch outcome result errStr =>
    s.commitAttemptResult now attemptID epoch outcome result errStr
  | .commitAttemptResultWithOutbox now attemptID epoch outcome result errStr eventID kind payload =>
    s.commitAttemptResultWithOutbox now attemptID epoch outcome result errStr eventID kind payload
  | .commitAttemptDeferred now attemptID epoch readyAt reason =>
    s.commitAttemptDeferred now attemptID epoch readyAt reason
  | .deferOccurrence now occ readyAt => s.deferOccurrence now occ readyAt
  | .finalizeOccurrence now occ state => s.finalizeOccurrence now occ state
  | .cancelOccurrence now occ reason => s.cancelOccurrence fmt now occ reason
  | .deleteTerminalOccurrences jobID before limit => s.deleteTerminalOccurrences jobID before limit

def step (t : Transaction) : Store :=
  match s.perform fmt t with
  | .ok s' => s'
  | .error _ => s

def run (ts : List Transaction) : Store := ts.foldl (step fmt) s

end Store

end Goultroid.Jobs
