import Goultroid.Lib.FinMap
import Goultroid.Lib.Threads
import Goultroid.Jobs.Store

/-!
# The drivers of attempts

`internal/jobs/manager.go`, `manager_attempt.go`, `manager_retry.go` and `manager_recovery.go`: three
drivers lease attempts and hand them to the task engine. `SubmitOccurrence` drives the first attempt of
a new occurrence, `watchAttempt` waits for the ticket of an attempt and drives the next one, and
`Recover` scans the store for what nobody watches. They share only the database and the maps under
`m.mu`; every transaction, every section under the lock and every call of the engine is a step of its
own. Of the task engine only what the drivers see of it is here: it takes an attempt or rejects it,
commits a result once, and answers on the ticket (`internal/taskengine/durability.go`).

The wakes (`signalRecovery`, `signalSchedule`) are hints to call `Recover` or the scheduler, either of
which may be called at any time here, and the number of retry loops is not bounded.
-/

namespace Goultroid.Jobs

open Text (decimal decimalInt)
open Threads (Program)

/-! ### Definitions of jobs -/

structure JobRetryPolicy where
  maxAttempts : Int := 0
  initialDelay : Duration := 0
  maxDelay : Duration := 0
  /-- the bits of the `float64` -/
  backoffMultiplier : UInt64 := 0
  maxDeferrals : Int := 0
  deriving DecidableEq

/-- What the drivers read of a definition; the rest is passed on to the engine. -/
structure JobDefinition where
  id : GoString
  handlerType : GoString
  timeout : Duration := 0
  retryPolicy : JobRetryPolicy := {}
  enabled : Bool := true
  deriving DecidableEq

def maxAttempts (policy : JobRetryPolicy) : Int :=
  if policy.maxAttempts ≤ 0 then 1 else policy.maxAttempts

def maxDeferrals (policy : JobRetryPolicy) : Int :=
  if 0 < policy.maxDeferrals then policy.maxDeferrals else maxAttempts policy + 1

def minute : Duration := 60000000000

def leaseDurationFor (def_ : JobDefinition) : Duration :=
  if def_.timeout + minute < minute then minute else def_.timeout + minute

/-! ### The meaning of results -/

/-- `execution.Semantics`. -/
structure Semantics where
  disposition : Disposition := .unset
  code : GoString := []
  retryAfter : Duration := 0
  deriving DecidableEq

namespace Semantics

def normalized (s : Semantics) : Semantics := { s with
  disposition := if s.disposition = .unset then .internal else s.disposition
  retryAfter := if s.retryAfter < 0 then 0 else s.retryAfter }

def shouldRetry (s : Semantics) : Bool :=
  s.normalized.disposition == .retryable || s.normalized.disposition == .internal

def isSuccess (s : Semantics) : Bool :=
  s.normalized.disposition == .success || s.normalized.disposition == .handled

end Semantics

/-- `TaskResult.Semantics`. -/
def semanticsOf (res : TaskResult) : Semantics :=
  if res.disposition ≠ .unset then ⟨res.disposition, res.failure.code, res.retryAfter⟩
  else match res.outcome with
    | .completed => ⟨.success, [], 0⟩
    | .cancelled => ⟨.cancelled, res.cause.text, 0⟩
    | .timedOut | .failed | .panicked | .abortedBeforeStart => ⟨.internal, res.failure.code, res.retryAfter⟩
    | .unset => ⟨.internal, res.failure.code, 0⟩

def attemptState : Outcome → AttemptState
  | .completed => .completed
  | .timedOut => .timedOut
  | .cancelled => .cancelled
  | .abortedBeforeStart => .abortedBeforeStart
  | _ => .failed

def occurrenceStateForSemantics (s : Semantics) : OccurrenceState :=
  if s.disposition = .cancelled then .cancelled else .failed

/-- The error of `client.Submit`: `execution.SemanticsOf(err)` and `err.Error()`. -/
structure Rejection where
  semantics : Semantics := {}
  message : GoString := []
  deriving DecidableEq

def abortedTaskResult (now : Time) (taskID : TaskID) (err : Rejection) : TaskResult where
  taskID := taskID
  outcome := .abortedBeforeStart
  cause := .admissionRejected
  disposition := err.semantics.disposition
  finishedAt := now
  failure := { code := err.semantics.code, message := err.message }

/-- What stays the same while the manager runs: its registrations, and what the Go library computes. -/
structure Env where
  fmt : Formats
  definitions : AList fun _ : GoString => JobDefinition
  /-- the handler types with a handler -/
  handlers : List GoString
  /-- the delay that grows with every attempt, as `float64` arithmetic has it -/
  backoff : JobRetryPolicy → Int → Duration
  /-- `json.Marshal` of an `attemptResultMetadata` -/
  marshal : Disposition → GoString → Option (List UInt8)
  /-- `json.Unmarshal` into one -/
  unmarshal : List UInt8 → Option (Disposition × GoString)

namespace Env

variable (env : Env)

def retryDelay (policy : JobRetryPolicy) (attemptsMade : Int) : Duration :=
  if policy.initialDelay ≤ 0 then 0 else env.backoff policy attemptsMade

def encodeAttemptResultMetadata (res : TaskResult) : List UInt8 :=
  if res.outcome = .completed ∨ res.outcome = .cancelled then []
  else if (semanticsOf res).disposition = .unset then []
  else (env.marshal (semanticsOf res).disposition (semanticsOf res).code).getD []

def persistedAttemptSemantics (a : JobAttempt) : Option Semantics :=
  if a.result = [] then none
  else match env.unmarshal a.result with
    | none => none
    | some (disposition, code) => if disposition = .unset then none else some ⟨disposition, code, 0⟩

/-- `Manager.commitAttemptResult`, which the engine calls with the result of an attempt. -/
def commitAttemptResult (now : Time) (a : JobAttempt) (res : TaskResult) (s : Store) : Except StoreError Store :=
  if res.cause = .rateLimited then
    if res.finishedAt = 0 then .error (.plain (goString "rate-limited task result is missing finished_at"))
    else
      let wait := if res.retryAfter < 0 then 0 else res.retryAfter
      s.commitAttemptDeferred now a.id a.leaseEpoch (res.finishedAt + wait) res.failure.message
  else
    s.commitAttemptResult now a.id a.leaseEpoch (attemptState res.outcome)
      (env.encodeAttemptResultMetadata res) res.failure.message

/-- The commit that records a rejected submission. -/
def persistAttemptResult (now : Time) (a : JobAttempt) (err : Rejection) (s : Store) : Except StoreError Store :=
  s.commitAttemptResult now a.id a.leaseEpoch .abortedBeforeStart
    (env.encodeAttemptResultMetadata (abortedTaskResult now a.taskID err)) err.message

end Env

/-! ### What the drivers read of the store -/

structure AttemptSummary where
  occurrenceState : OccurrenceState
  readyAt : Time
  latest : JobAttempt
  attemptCount : Nat
  retryBudgetUses : Nat
  deferrals : Nat
  deriving DecidableEq

structure RecoveryCandidate where
  occurrence : JobOccurrence
  summary : AttemptSummary
  deriving DecidableEq

namespace Store

variable (s : Store)

/-- `none` is `ErrAttemptNotFound`: the joins are empty for an occurrence without attempts. -/
def attemptSummary (id : OccurrenceID) : Option AttemptSummary :=
  match s.occurrence? id, s.latestAttempt id with
  | some o, some latest => some {
      occurrenceState := o.state
      readyAt := o.readyAt
      latest := latest
      attemptCount := s.countAttempts id
      retryBudgetUses := s.countRetryBudgetUses id
      deferrals := s.countDeferrals id }
  | _, _ => none

/-- `LIMIT ?` of the recovery scan. -/
def recoveryLimit (limit : Int) : Nat := if limit ≤ 0 then 50 else if 500 < limit then 500 else limit.toNat

/-- `ORDER BY ready_at ASC, id ASC`. -/
def Before (o o' : JobOccurrence) : Prop := o.readyAt < o'.readyAt ∨ o.readyAt = o'.readyAt ∧ o.id ≤ o'.id

instance : DecidableRel Before :=
  fun o o' => inferInstanceAs (Decidable (o.readyAt < o'.readyAt ∨ o.readyAt = o'.readyAt ∧ o.id ≤ o'.id))

def unresolved (limit : Int) : List JobOccurrence :=
  ((s.occurrences.rows.filter fun o => o.state == .dispatched).insertionSort Before).take (recoveryLimit limit)

/-- The limit applies to the page, before the join that drops the occurrences without attempts. -/
def listRecoveryCandidates (limit : Int) : List RecoveryCandidate :=
  (s.unresolved limit).filterMap fun o => (s.attemptSummary o.id).map (RecoveryCandidate.mk o)

end Store

/-! ### Decisions -/

inductive Ground where
  | semantics
  | deferrals
  | budget
  deriving DecidableEq

/-- What `watchAttempt` does about a result. -/
inductive Verdict where
  | untrack
  | finalize (state : OccurrenceState) (ground : Ground)
  | postpone (delay : Duration)
  | drive
  deriving DecidableEq

def Env.retryVerdict (env : Env) (policy : JobRetryPolicy) (cause : Cause) (summary : AttemptSummary) : Verdict :=
  if cause = .rateLimited then
    if maxDeferrals policy ≤ summary.deferrals then .finalize .failed .deferrals else .untrack
  else if maxAttempts policy ≤ summary.retryBudgetUses then .finalize .failed .budget
  else if 0 < env.retryDelay policy summary.retryBudgetUses then
    .postpone (env.retryDelay policy summary.retryBudgetUses)
  else .drive

def Env.watchVerdict (env : Env) (policy : JobRetryPolicy) (res : TaskResult) (summary : AttemptSummary) : Verdict :=
  if summary.occurrenceState.terminal then .untrack
  else if !(semanticsOf res).shouldRetry && !(semanticsOf res).isSuccess then
    .finalize (occurrenceStateForSemantics (semanticsOf res)) .semantics
  else match res.outcome with
    | .failed | .timedOut | .cancelled | .panicked | .abortedBeforeStart => env.retryVerdict policy res.cause summary
    | _ => .untrack

/-- What `Recover` does about a candidate. -/
inductive Finding where
  | deferred
  | stale
  | orphaned
  | finalize (state : OccurrenceState) (ground : Ground)
  | drive (definition : JobDefinition)
  deriving DecidableEq

/-- An enabled definition of the job with a registered handler. -/
def Env.driveable? (env : Env) (jobID : GoString) : Option JobDefinition :=
  (env.definitions.lookup jobID).filter fun d => d.enabled && env.handlers.contains d.handlerType

/-- The semantics that were stored with an attempt, if they say not to retry. -/
def Env.refusal? (env : Env) (a : JobAttempt) : Option Semantics :=
  if a.state = .deferred then none
  else (env.persistedAttemptSemantics a).filter fun s => !s.shouldRetry && !s.isSuccess

def withinLimits (definition : JobDefinition) (summary : AttemptSummary) : Finding :=
  if summary.latest.state = .deferred ∧ maxDeferrals definition.retryPolicy ≤ summary.deferrals then
    .finalize .failed .deferrals
  else if maxAttempts definition.retryPolicy ≤ summary.retryBudgetUses then .finalize .failed .budget
  else .drive definition

/-- A candidate that nobody watches, whose job can run. -/
def Env.judge (env : Env) (definition : JobDefinition) (summary : AttemptSummary) : Finding :=
  if summary.occurrenceState ≠ .dispatched then .stale
  else if summary.latest.state.terminal = false then .stale
  else match env.refusal? summary.latest with
  | some s => .finalize (occurrenceStateForSemantics s) .semantics
  | none => withinLimits definition summary

def Env.finding (env : Env) (now : Time) (tracked : Bool) (c : RecoveryCandidate) : Finding :=
  if now < c.occurrence.readyAt then .deferred
  else if tracked then .stale
  else match env.driveable? c.occurrence.jobID with
  | none => .orphaned
  | some definition => env.judge definition c.summary

/-! ### The state of a process, and of its task engine -/

inductive Phase where
  /-- queued or running -/
  | running
  /-- the result is known and its commit is under way -/
  | pending (res : TaskResult)
  /-- the ticket was answered without an acknowledgement; the commit may still be executed -/
  | late (res : TaskResult)
  | answered (res : TaskResult)
  /-- the process ended -/
  | lost
  deriving DecidableEq

structure Work where
  attempt : JobAttempt
  phase : Phase
  deriving DecidableEq

/-- A result whose durable acknowledgement failed or never came. -/
def uncertain (res : TaskResult) : TaskResult := { res with cause := .persistenceFailure }

/-- What `ticket.Wait` returns. -/
def Work.ticket? (w : Work) : Option TaskResult :=
  match w.phase with
  | .late res => some (uncertain res)
  | .answered res => some res
  | _ => none

def Work.lose (w : Work) : Work :=
  match w.phase with
  | .running | .pending _ | .lost => { w with phase := .lost }
  | .late res => { w with phase := .answered (uncertain res) }
  | .answered _ => w

/-- A ticket is known by the attempt it is of. -/
structure RetryItem where
  occurrenceID : OccurrenceID
  attempt : AttemptID
  deriving DecidableEq

def retryQueueCap : Nat := 256

/-- The database, the fields of the manager, and every attempt the engine ever took. A restart starts
another process. -/
structure Manager where
  store : Store
  works : AList fun _ : AttemptID => Work := ∅
  process : Nat := 0
  tracked : AList fun _ : OccurrenceID => JobDefinition := ∅
  retryQueue : List RetryItem := []
  accepting : Bool := true
  sequence : Nat := 0

namespace Manager

variable (m : Manager)

def ticket? (id : AttemptID) : Option TaskResult := (m.works.lookup id).bind Work.ticket?

def admitted (id : AttemptID) : Bool := (m.works.lookup id).isSome

/-- Everything in memory is gone. -/
def restart : Manager where
  store := m.store
  works := ⟨m.works.entries.map fun e => ⟨e.1, e.2.lose⟩, by
    simpa [List.NodupKeys, List.keys, Function.comp_def] using m.works.nodupKeys⟩
  process := m.process + 1

end Manager

/-! ### Threads -/

/-- The error that `SubmitOccurrence` returns. -/
inductive SubmitError where
  | explicit (text : GoString) (semantics : Semantics)
  | wrapped (during : GoString) (err : StoreError)
  | rejected (err : Rejection)
  deriving DecidableEq

structure RecoverReport where
  scanned : Nat := 0
  redriven : Nat := 0
  finalized : Nat := 0
  stale : Nat := 0
  orphaned : Nat := 0
  deriving DecidableEq

/-- Who drives an attempt, and on what grounds. -/
inductive Driver where
  | submit (jobID : GoString)
  | watch (item : RetryItem)
  | recover (candidate : RecoveryCandidate) (rest : List RecoveryCandidate) (report : RecoverReport)
  deriving DecidableEq

/-- Where `driveAttempt`, or the same code in `SubmitOccurrence`, is. -/
inductive DrivePc where
  | lease
  | track (a : JobAttempt)
  | client (a : JobAttempt)
  | untrack (a : JobAttempt) (err : Rejection)
  | persist (a : JobAttempt) (err : Rejection)
  | enqueue (a : JobAttempt)
  deriving DecidableEq

inductive Task where
  | submit (jobID occurrenceKey : GoString)
  | materialize (jobID occurrenceKey : GoString) (definition : JobDefinition) (sequence : Nat)
  | submitted (res : Except SubmitError (AttemptID × OccurrenceID))
  | drive (driver : Driver) (id : OccurrenceID) (definition : JobDefinition) (pc : DrivePc)
  /-- `retryLoop` between two items -/
  | retryLoop
  | watch (item : RetryItem)
  | wait (item : RetryItem) (definition : JobDefinition)
  | summary (item : RetryItem) (definition : JobDefinition) (res : TaskResult)
  | finalize (item : RetryItem) (state : OccurrenceState) (ground : Ground)
  | postpone (item : RetryItem) (delay : Duration)
  | proceed (item : RetryItem) (definition : JobDefinition)
  | untrack (item : RetryItem)
  | recover (limit : Int)
  | scan (candidates : List RecoveryCandidate) (report : RecoverReport)
  | close (c : RecoveryCandidate) (state : OccurrenceState) (ground : Ground) (rest : List RecoveryCandidate)
      (report : RecoverReport)
  | closed (c : RecoveryCandidate) (rest : List RecoveryCandidate) (report : RecoverReport)
  | recovered (res : Except StoreError RecoverReport)
  | cancel (id : OccurrenceID) (reason : GoString)
  | cancelled (id : OccurrenceID)
  /-- the engine works on the attempts it took -/
  | engine
  | quiesce
  | restart
  | returned
  deriving DecidableEq

structure Thread where
  process : Nat
  task : Task
  deriving DecidableEq

/-- What a step does not decide by itself: the clock, faults, and what the engine and its handlers do. -/
structure Choice where
  now : Time := 0
  /-- the clock when the store reads it -/
  later : Time := 0
  /-- the store call fails -/
  fault : Bool := false
  /-- the manager is stopping -/
  stop : Bool := false
  rejection : Option Rejection := none
  attempt : AttemptID := []
  result : TaskResult := {}
  /-- the ticket is answered without a commit: the attempt left the queue before it started -/
  uncommitted : Bool := false
  /-- the ticket is answered before the commit is acknowledged -/
  uncertain : Bool := false

def Choice.call {α : Type} (choice : Choice) (r : Except StoreError α) : Except StoreError α :=
  if choice.fault then .error (.plain (goString "context deadline exceeded")) else r

def Driver.failed (err : SubmitError) : Driver → Task
  | .submit _ => .submitted (.error err)
  | .watch item => .untrack item
  | .recover _ rest report => .scan rest { report with stale := report.stale + 1 }

def Driver.succeeded (a : JobAttempt) : Driver → Task
  | .submit _ => .submitted (.ok (a.id, a.occurrenceID))
  | .watch _ => .retryLoop
  | .recover _ rest report => .scan rest { report with redriven := report.redriven + 1 }

namespace Env

variable (env : Env)

/-- The checks of `SubmitOccurrence`. -/
def submitCheck (accepting : Bool) (jobID : GoString) : Except SubmitError JobDefinition :=
  if accepting = false then
    .error (.explicit (goString "job admission is closed") ⟨.retryable, goString "job_admission_closed", 0⟩)
  else match env.definitions.lookup jobID with
  | none => .error (.explicit (goString "job definition not found: " ++ jobID)
      ⟨.permanent, goString "job_definition_not_found", 0⟩)
  | some definition =>
    if env.handlers.contains definition.handlerType = false then
      .error (.explicit (goString "no handler registered for job definition " ++ jobID ++ goString " (handler: " ++
        definition.handlerType ++ goString ")") ⟨.permanent, goString "job_handler_missing", 0⟩)
    else if definition.enabled = false then
      .error (.explicit (goString "job definition is disabled: " ++ jobID)
        ⟨.permanent, goString "job_definition_disabled", 0⟩)
    else .ok definition

/-- The occurrence that `SubmitOccurrence` materializes. -/
def submittedOccurrence (now : Time) (jobID occurrenceKey : GoString) (sequence : Nat) : JobOccurrence where
  id := goString "occ:" ++ jobID ++ goString ":" ++ decimalInt (unixNano now) ++ goString ":" ++ decimal sequence
  jobID := jobID
  occurrenceKey := if occurrenceKey = [] then goString "manual:" ++ jobID ++ goString ":" ++ decimal sequence
    else occurrenceKey
  scheduledFor := now
  readyAt := now
  state := .ready

/-- A step of `driveAttempt`. -/
def drive (choice : Choice) (m : Manager) (driver : Driver) (id : OccurrenceID) (definition : JobDefinition) :
    DrivePc → Option (Manager × Task)
  | .lease =>
    match choice.call (m.store.prepareNextAttemptLease env.fmt choice.now choice.later id
      (leaseDurationFor definition)) with
    | .error err => some (m, driver.failed (.wrapped (goString "prepare job attempt") err))
    | .ok (store, a) => some ({ m with store := store }, .drive driver id definition (.track a))
  | .track a => some ({ m with tracked := m.tracked.insert id definition }, .drive driver id definition (.client a))
  | .client a =>
    match choice.rejection with
    | some err => some (m, .drive driver id definition (.untrack a err))
    | none =>
      -- the engine refuses an id that it already has
      if m.admitted a.id then none
      else some ({ m with works := m.works.insert a.id ⟨a, .running⟩ }, .drive driver id definition (.enqueue a))
  | .untrack a err => some ({ m with tracked := m.tracked.erase id }, .drive driver id definition (.persist a err))
  | .persist a err =>
    match choice.call (env.persistAttemptResult choice.now a err m.store) with
    | .error _ => some (m, driver.failed (.rejected err))
    | .ok store => some ({ m with store := store }, driver.failed (.rejected err))
  | .enqueue a =>
    if choice.stop ∨ retryQueueCap ≤ m.retryQueue.length then some (m, driver.succeeded a)
    else some ({ m with retryQueue := m.retryQueue ++ [⟨id, a.id⟩] }, driver.succeeded a)

def engineStep (choice : Choice) (m : Manager) : Option Manager :=
  match m.works.lookup choice.attempt with
  | none => none
  | some w =>
    let become (store : Store) (phase : Phase) : Manager :=
      { m with store := store, works := m.works.insert choice.attempt { w with phase := phase } }
    match w.phase with
    | .running =>
      some (become m.store (if choice.uncommitted then .answered choice.result else .pending choice.result))
    | .pending res =>
      if choice.uncertain then some (become m.store (.late res))
      else match choice.call (env.commitAttemptResult choice.now w.attempt res m.store) with
        | .error _ => some (become m.store (.answered (Jobs.uncertain res)))
        | .ok store => some (become store (.answered res))
    | .late res =>
      match choice.call (env.commitAttemptResult choice.now w.attempt res m.store) with
      | .error _ => some (become m.store (.answered (Jobs.uncertain res)))
      | .ok store => some (become store (.answered (Jobs.uncertain res)))
    | .answered _ => none
    | .lost => none

/-- A step of a thread of the running process: `none` if it has to wait or has returned. -/
def advance (choice : Choice) (m : Manager) : Task → Option (Manager × Task)
  | .submit jobID occurrenceKey =>
    match env.submitCheck m.accepting jobID with
    | .error err => some (m, .submitted (.error err))
    | .ok definition => some ({ m with sequence := m.sequence + 1 },
        .materialize jobID occurrenceKey definition (m.sequence + 1))
  | .materialize jobID occurrenceKey definition sequence =>
    match choice.call (m.store.materializeOccurrence choice.later
      (submittedOccurrence choice.now jobID occurrenceKey sequence)) with
    | .error err => some (m, .submitted (.error (.wrapped (goString "materialize job occurrence") err)))
    | .ok (store, o) => some ({ m with store := store }, .drive (.submit jobID) o.id definition .lease)
  | .submitted _ => none
  | .drive driver id definition pc => env.drive choice m driver id definition pc
  | .retryLoop =>
    if choice.stop then some (m, .returned)
    else match m.retryQueue with
      | [] => none
      | item :: rest => some ({ m with retryQueue := rest }, .watch item)
  | .watch item =>
    match m.tracked.lookup item.occurrenceID with
    | none => some (m, .retryLoop)
    | some definition => some (m, .wait item definition)
  | .wait item definition =>
    if choice.stop then some (m, .retryLoop)
    else match m.ticket? item.attempt with
      | none => none
      | some res =>
        if res.cause = .persistenceFailure then some (m, .untrack item)
        else if res.outcome = .completed then some (m, .untrack item)
        else some (m, .summary item definition res)
  | .summary item definition res =>
    if choice.fault then some (m, .untrack item)
    else match m.store.attemptSummary item.occurrenceID with
      | none => some (m, .untrack item)
      | some summary =>
        match env.watchVerdict definition.retryPolicy res summary with
        | .untrack => some (m, .untrack item)
        | .finalize state ground => some (m, .finalize item state ground)
        | .postpone delay => some (m, .postpone item delay)
        | .drive => some (m, .proceed item definition)
  | .finalize item state _ =>
    match choice.call (m.store.finalizeOccurrence choice.now item.occurrenceID state) with
    | .error _ => some (m, .retryLoop)
    | .ok store => some ({ m with store := store }, .untrack item)
  | .postpone item delay =>
    match choice.call (m.store.deferOccurrence choice.later item.occurrenceID (choice.now + delay)) with
    | .error _ => some (m, .untrack item)
    | .ok store => some ({ m with store := store }, .untrack item)
  | .proceed item definition =>
    if m.accepting then some (m, .drive (.watch item) item.occurrenceID definition .lease)
    else some (m, .retryLoop)
  | .untrack item => some ({ m with tracked := m.tracked.erase item.occurrenceID }, .retryLoop)
  | .recover limit =>
    if choice.fault then some (m, .recovered (choice.call (.ok {})))
    else some (m, .scan (m.store.listRecoveryCandidates limit) {})
  | .scan [] report => some (m, .recovered (.ok report))
  | .scan (c :: rest) report =>
    let report := { report with scanned := report.scanned + 1 }
    match env.finding choice.now (m.tracked.lookup c.occurrence.id).isSome c with
    | .deferred => some (m, .scan rest report)
    | .stale => some (m, .scan rest { report with stale := report.stale + 1 })
    | .orphaned => some (m, .scan rest { report with orphaned := report.orphaned + 1 })
    | .finalize state ground => some (m, .close c state ground rest report)
    | .drive definition => some (m, .drive (.recover c rest report) c.occurrence.id definition .lease)
  | .close c state _ rest report =>
    match choice.call (m.store.finalizeOccurrence choice.now c.occurrence.id state) with
    | .error _ => some (m, .scan rest { report with stale := report.stale + 1 })
    | .ok store => some ({ m with store := store }, .closed c rest report)
  | .closed c rest report =>
    some ({ m with tracked := m.tracked.erase c.occurrence.id },
      .scan rest { report with finalized := report.finalized + 1 })
  | .recovered _ => none
  | .cancel id reason =>
    match choice.call (m.store.cancelOccurrence env.fmt choice.now id reason) with
    | .error _ => some (m, .returned)
    | .ok store => some ({ m with store := store }, .cancelled id)
  | .cancelled id => some ({ m with tracked := m.tracked.erase id }, .returned)
  | .engine => (env.engineStep choice m).map fun m' => (m', .engine)
  | .quiesce => some ({ m with accepting := false }, .returned)
  | .restart => some (m.restart, .returned)
  | .returned => none

/-- The threads of an ended process take no further step. -/
def program : Program Manager Thread Choice := fun _ choice m t =>
  if t.process = m.process then
    (env.advance choice m t.task).map fun next => (next.1, ⟨t.process, next.2⟩, [])
  else none

end Env

def Thread.entry (t : Thread) : Bool :=
  match t.task with
  | .submit .. | .retryLoop | .recover _ | .cancel .. | .engine | .quiesce | .restart => true
  | _ => false

end Goultroid.Jobs
