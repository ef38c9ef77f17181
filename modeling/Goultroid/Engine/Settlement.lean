import Goultroid.Engine.State

/-!
# How a record ends

`settleTerminal` and what leads to it: bounded results, eviction of old terminal records, the drain
signal, the sweep of expired entries, cancellation, and the durable commit protocol of
`durability.go`. A record is loaded from the registry, changed, and stored when it settles.
-/

namespace Goultroid

namespace Engine

variable (env : Env) (e : Engine)

/-! ### The terminal tail -/

/-- `boundResult`: the capped result and the bytes it retains. -/
def boundResult (res : TaskResult) : TaskResult × Int :=
  let capped := capOutput res.output e.maxOutputBytes
  let failure : FailureInfo :=
    { code := truncateField res.failure.code e.maxFailureBytes
      message := truncateField res.failure.message e.maxFailureBytes
      detail := truncateField res.failure.detail e.maxFailureBytes }
  ({ res with output := capped.1, failure := failure },
    capped.2 + (res.disposition.text.length + failure.code.length + failure.message.length +
      failure.detail.length))

/-- `e.retainedBytes = bytes`, clamped at zero. -/
def setRetained (bytes : Int) : Engine :=
  { e with
    retainedBytes := if bytes < 0 then 0 else bytes
    faults := if bytes < 0 then { e.faults with clamped := true } else e.faults }

def checkDrained : Engine :=
  let now := e.quiesced && decide (e.activeTasks = 0) && !e.drained
  { e with drained := e.drained || now, drainDone := e.drainDone || now }

/-- The body of `evictTerminalHead`: the oldest id leaves the order, and its record the registry. -/
def evictOldest (oldestID : TaskID) (rest : List TaskID) : Engine :=
  let e := { e with terminalOrder := rest }
  match e.registry.lookup oldestID with
  | none => e
  | some oldRec =>
    if oldRec.isTerminal then
      { e.setRetained (e.retainedBytes - oldRec.retainedBytes) with
        registry := e.registry.erase oldestID }
    else e

theorem evictOldest_cases (e : Engine) (oldest : TaskID) (rest : List TaskID) :
    (∃ r, e.registry.lookup oldest = some r ∧ r.isTerminal = true ∧ e.evictOldest oldest rest =
      { ({ e with terminalOrder := rest }).setRetained (e.retainedBytes - r.retainedBytes) with
        registry := e.registry.erase oldest }) ∨
    ((∀ r, e.registry.lookup oldest = some r → r.isTerminal = false) ∧
      e.evictOldest oldest rest = { e with terminalOrder := rest }) := by
  rw [evictOldest]
  cases hr : e.registry.lookup oldest with
  | none => exact .inr ⟨fun r h => (by cases h), rfl⟩
  | some r =>
    cases hterm : r.isTerminal with
    | true => exact .inl ⟨r, rfl, hterm, by simp [hterm]⟩
    | false =>
      refine .inr ⟨fun r' h => ?_, by simp [hterm]⟩
      cases h
      exact hterm

/-- Every round shortens the order, so its length is enough fuel. -/
def evictTerminalHead (shouldEvict : Engine → Bool) : Nat → Engine → Engine
  | 0, e => e
  | fuel + 1, e =>
    if shouldEvict e then
      match e.terminalOrder with
      | [] => e
      | oldestID :: rest => evictTerminalHead shouldEvict fuel (e.evictOldest oldestID rest)
    else e

/-- The test of `evictTerminalRecords`: too many terminal records or too many retained bytes. -/
def overRetention : Bool :=
  (decide (0 < e.maxTerminalRetained) && decide (e.maxTerminalRetained < e.terminalOrder.length)) ||
    (decide (0 < e.maxRetainedBytes) && decide (e.maxRetainedBytes < e.retainedBytes))

def evictTerminalRecords : Engine :=
  evictTerminalHead overRetention e.terminalOrder.length e

/-- The test of `evictExpiredTerminal`: the oldest terminal record has outlived its TTL. -/
def oldestExpired (now : Time) (e : Engine) : Bool :=
  match e.terminalOrder with
  | [] => false
  | oldestID :: _ =>
    match e.registry.lookup oldestID with
    | none => true
    | some rec => !rec.isTerminal || decide (e.terminalTTL < timeSub now rec.finishedAt)

def evictExpiredTerminal (now : Time) : Engine :=
  if e.terminalTTL ≤ 0 then e
  else evictTerminalHead (oldestExpired now) e.terminalOrder.length e

def onTaskSettled (rec : TaskRecord) : Engine :=
  let e := { e with activeTasks := e.activeTasks - 1 }
  let e :=
    if rec.isTerminal then
      evictTerminalRecords { e with terminalOrder := e.terminalOrder ++ [rec.spec.id] }
    else e
  e.checkDrained

/-- What a terminal record keeps of its spec. -/
def stripSpec (spec : WorkSpec) : WorkSpec :=
  { spec with
    input := .nil
    job := none
    resources := []
    orderingKey := []
    handlerRef := []
    queueDeadline := 0
    executionTimeout := 0
    handler := none
    commit := none
    onComplete := none }

/-- The result names the attempt of the job even when the worker did not. -/
def fillAttempt (rec : TaskRecord) : TaskRecord :=
  match rec.spec.job with
  | none => rec
  | some job =>
    if rec.result.attemptID = [] then
      { rec with result := { rec.result with attemptID := job.attemptID } }
    else rec

/-- The callback of a settling record goes to the lane, if a credit was reserved for it. -/
def deliverResult (rec : TaskRecord) : Engine :=
  { e with
    delivery :=
      match rec.spec.onComplete, rec.callbackReserved with
      | some fn, true => (e.delivery.run (env.lane e.obs)).enqueueReserved rec.commitSeq fn rec.result
      | _, _ => e.delivery
    obs := if rec.spec.onComplete.isSome && rec.callbackReserved then e.obs + 1 else e.obs }

def detachedBytes (rec : TaskRecord) : Int :=
  let detached := terminalDetachedSpecBytes rec.spec
  if rec.retainedBytes < detached then rec.retainedBytes else detached

def closedRecord (rec : TaskRecord) : TaskRecord :=
  { rec with
    callbackReserved := rec.callbackReserved && rec.spec.onComplete.isNone
    retainedBytes := rec.retainedBytes - detachedBytes rec
    spec := stripSpec rec.spec
    permit := none
    pendingResult := {}
    done := true }

/-- `settleTerminal` up to the close of the done channel. -/
def closeRecord (rec : TaskRecord) : Engine :=
  let e := e.deliverResult env rec
  let detached := detachedBytes rec
  let clamped := rec.retainedBytes < terminalDetachedSpecBytes rec.spec ∨ e.retainedBytes - detached < 0
  { e with
    resultSlotsHeld := if 0 < e.resultSlotsHeld then e.resultSlotsHeld - 1 else e.resultSlotsHeld
    retainedBytes := if e.retainedBytes - detached < 0 then 0 else e.retainedBytes - detached
    registry := e.registry.insert rec.spec.id (closedRecord rec)
    faults := { e.faults with
      clamped := e.faults.clamped || decide clamped
      doubleClose := e.faults.doubleClose || rec.done }
    settled := e.settled ++
      [⟨rec.commitSeq, rec.spec.id, rec.state, rec.result, rec.durability, rec.spec.requiresDurability⟩] }

/-- The shared terminal tail of every completion path; `rec` carries its terminal state and result. -/
def settleTerminal (rec : TaskRecord) : Engine :=
  (e.closeRecord env (fillAttempt rec)).onTaskSettled rec

/-- Bound the result of a record, charge it, and settle. -/
def settleBounded (rec : TaskRecord) : Engine :=
  let bounded := e.boundResult rec.result
  settleTerminal env { e with retainedBytes := e.retainedBytes + bounded.2 }
    { rec with result := bounded.1, retainedBytes := rec.retainedBytes + bounded.2 }

/-! ### Expiry and cancellation of queued records -/

def queueExpiredMessage : GoString := goString "queue deadline expired before execution"

/-- The body of the loop in `sweepExpired`. -/
def settleExpired (now : Time) (e : Engine) (entry : Admission.QueueEntry) : Engine :=
  match e.registry.lookup entry.spec.id with
  | none => e
  | some rec =>
    if rec.state = .queued then
      e.settleBounded env
        { rec with
          state := .timedOut
          finishedAt := now
          errorMsg := queueExpiredMessage
          result :=
            { taskID := entry.spec.id
              outcome := .timedOut
              cause := .queueExpired
              disposition := .retryable
              finishedAt := now
              failure := { code := goString "queue_expired", message := queueExpiredMessage } } }
    else e

def sweepExpired (pool : PoolID) (now : Time) : Engine :=
  let popped := e.adm.popExpired pool now
  (popped.1.foldl (settleExpired env now) { e with adm := popped.2 }).evictExpiredTerminal now

structure CancelReceipt where
  taskID : TaskID
  accepted : Bool
  /-- `none` is the empty state of an unknown task -/
  state : Option TaskState
  reason : Cause
  deriving DecidableEq

/-- The branch of `applyCancel` for a record that has not been dispatched. -/
def cancelQueued (id : TaskID) (rec : TaskRecord) (reason : Cause) : Engine :=
  let now := env.clock e.obs
  let e := { e.tick with adm := e.adm.removeTask id }
  e.settleBounded env
    { rec with
      state := .cancelled
      cancelRequested := true
      cancelReason := reason
      finishedAt := now
      result :=
        { taskID := id
          outcome := .cancelled
          cause := reason
          disposition := .cancelled
          finishedAt := now
          failure := { code := reason.text } } }

/-- `applyCancel`, with the receipt and the error of an unknown task. -/
def applyCancel (id : TaskID) (reason : Cause) : Engine × CancelReceipt × Option TaskError :=
  match e.registry.lookup id with
  | none => (e, ⟨id, false, none, reason⟩, some .taskNotFound)
  | some rec =>
    match rec.state with
    | .created | .admitted | .queued =>
      (e.cancelQueued env id rec reason, ⟨id, true, some .cancelled, reason⟩, none)
    | .dispatching | .running =>
      (e.setRecord id { rec with cancelRequested := true, cancelReason := reason }, ⟨id, true, some rec.state, reason⟩, none)
    | .commitPending | .completed | .failed | .cancelled | .timedOut | .recoveryRequired =>
      (e, ⟨id, false, some rec.state, reason⟩, none)

/-- The tombstone loop of `applyCancelScope`; every round shortens the order. -/
def dropTombstones : Nat → Engine → Engine
  | 0, e => e
  | fuel + 1, e =>
    if 0 < e.maxScopeTombstones ∧ e.maxScopeTombstones < e.cancelledScopeOrder.length then
      match e.cancelledScopeOrder with
      | [] => e
      | oldest :: rest =>
        dropTombstones fuel
          { e with cancelledScopeOrder := rest, cancelledScopes := e.cancelledScopes.erase oldest }
    else e

/-- Whether `applyCancelScope` cancels a record. -/
def inScope (scope : ScopeIdentity) (rec : TaskRecord) : Bool :=
  rec.spec.scope.owner == scope.owner &&
    (scope.generation == 0 || rec.spec.scope.generation == scope.generation) &&
    !(rec.isTerminal || rec.state == .commitPending)

/-- One round of the cancellation loop of `applyCancelScope`, with the count so far. -/
def cancelInScope (scope : ScopeIdentity) (reason : Cause) (acc : Engine × Nat) (id : TaskID) : Engine × Nat :=
  match acc.1.registry.lookup id with
  | none => acc
  | some rec =>
    if inScope scope rec then
      let r := acc.1.applyCancel env id reason
      (r.1, if r.2.2 = none ∧ r.2.1.accepted = true then acc.2 + 1 else acc.2)
    else acc

def applyCancelScope (scope : ScopeIdentity) (reason : Cause) : Engine × Nat :=
  let order :=
    if (e.cancelledScopes.lookup scope).isSome then e.cancelledScopeOrder
    else e.cancelledScopeOrder ++ [scope]
  let e := dropTombstones order.length
    { e with cancelledScopeOrder := order, cancelledScopes := e.cancelledScopes.insert scope reason }
  (e.taskIDs env).foldl (cancelInScope env scope reason) (e.tick, 0)

/-! ### The durable commit protocol -/

def terminalStateFor : Outcome → TaskState
  | .completed => .completed
  | .timedOut => .timedOut
  | .cancelled => .cancelled
  | .unset | .failed | .panicked | .abortedBeforeStart => .failed

/-- The error message of a record that ends in `state` with `res`. -/
def errorMsgFor (state : TaskState) (res : TaskResult) (current : GoString) : GoString :=
  match state with
  | .timedOut | .cancelled | .failed => res.failure.message
  | _ => current

def releaseCommitWaiter (seq : Nat) : Engine :=
  { e with commitWaiters := e.commitWaiters.erase seq }

/-- The pending result of a record with a note on why its durability is uncertain. -/
def uncertainResult (rec : TaskRecord) (note : GoString) : TaskResult :=
  let message :=
    if rec.pendingResult.failure.message = [] then note
    else rec.pendingResult.failure.message ++ goString "; " ++ note
  { rec.pendingResult with
    cause := .persistenceFailure
    failure := { rec.pendingResult.failure with message := message } }

/-- The end of both uncertain paths: the record needs recovery, and is charged for a longer message. -/
def settleRecovery (rec : TaskRecord) (res : TaskResult) : Engine :=
  let delta := (res.failure.message.length : Int) - rec.result.failure.message.length
  let charge := if 0 < delta then delta else 0
  settleTerminal env { e with retainedBytes := e.retainedBytes + charge }
    { rec with
      durability := .recovery
      state := .recoveryRequired
      result := res
      errorMsg := res.failure.message
      retainedBytes := rec.retainedBytes + charge }

/-- `applyCommitAck`; `ackErr` is the error's text. -/
def applyCommitAck (id : TaskID) (seq : Nat) (ackErr : Option GoString) : Engine :=
  match e.registry.lookup id with
  | none => e
  | some rec =>
    if rec.state ≠ .commitPending ∨ rec.durability ≠ .pending ∨ rec.commitSeq ≠ seq then e
    else
      let e := { e.releaseCommitWaiter seq with commitPending := e.commitPending - 1 }
      match ackErr with
      | none =>
        let state := terminalStateFor rec.execOutcome
        e.settleTerminal env
          { rec with
            durability := .committed
            state := state
            result := rec.pendingResult
            errorMsg := errorMsgFor state rec.pendingResult rec.errorMsg }
      | some err =>
        let res := uncertainResult rec (goString "durable commit failed or uncertain: " ++ err)
        e.settleRecovery env rec
          { res with
            failure := { res.failure with
              message := truncateField res.failure.message e.maxFailureBytes
              detail := truncateField res.failure.detail e.maxFailureBytes } }

/-- `abandonPending`, the forced end of a pending commit; it leaves the failure detail as it is. -/
def abandonPending (rec : TaskRecord) (reason : GoString) : Engine :=
  if rec.state ≠ .commitPending then e
  else
    let e := { e.releaseCommitWaiter rec.commitSeq with commitPending := e.commitPending - 1 }
    let res := uncertainResult rec
      (goString "engine shutdown before durable acknowledgement: " ++ reason)
    e.settleRecovery env rec
      { res with
        failure := { res.failure with message := truncateField res.failure.message e.maxFailureBytes } }

/-- The commit in the durability lane, when the pump is missing or saturated. -/
def directCommit (id : TaskID) (seq : Nat) : Engine :=
  if env.durabilityAccepts e.obs then e.tick
  else e.tick.applyCommitAck env id seq (some (goString "durability commit lane saturated"))

/-- The wait for a pump that answers with a result channel. -/
def awaitPump (id : TaskID) (seq : Nat) : Engine :=
  let e := { e with commitWaiters := e.commitWaiters.insert seq () }
  if env.durabilityAccepts e.obs then e.tick
  else e.tick.applyCommitAck env id seq (some (goString "durability acknowledgement lane saturated"))

/-- `beginCommit`: the record is pending, and one of the transports takes its commit or the record
fails closed. -/
def beginCommit (rec : TaskRecord) : Engine :=
  let id := rec.spec.id
  let seq := rec.commitSeq
  let e :=
    { e with
      registry := e.registry.insert id { rec with state := .commitPending, durability := .pending }
      commitPending := e.commitPending + 1 }
  match e.commitPump with
  | none => e.directCommit env id seq
  | some pump =>
    if pump.ack && env.pumpAccepts e.obs then e.tick
    else
      -- a callback pump that refused is asked again as a plain one
      let e := if pump.ack then e.tick else e
      if env.pumpAccepts e.obs then e.tick.awaitPump env id seq else e.tick.directCommit env id seq

end Engine

end Goultroid
