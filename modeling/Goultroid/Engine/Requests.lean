import Goultroid.Engine.Dispatch

/-!
# The requests of the control loop

Admission (`admitSubmit`), the worker messages with their fences, forced shutdown, and `handleRequest`
with the timer branch of `runLoop`. A run of the coordinator is a sequence of `Event`s: any request
with any content, the sweep timer, and a worker taking the assignment out of its mailbox. Worker and
commit messages are not tied to what was dispatched, so a run may delay, repeat or forge them.
-/

namespace Goultroid

open Admission (OwnerLimits)

variable (env : Env) (e : Engine)

namespace Engine

/-! ### Admission -/

inductive SubmitError where
  | invalidSpec (err : SpecError)
  | alreadyRegistered
  | admission (err : AdmissionError)
  | scopeClosed (owner : GoString) (generation : Option Nat) (cause : Cause)
  deriving DecidableEq

/-- The spec with its handler resolved; `none` when there is none. -/
def resolveHandler (spec : WorkSpec) : Option WorkSpec :=
  if spec.handler.isNone ∧ spec.handlerRef ≠ [] ∧ e.handlerResolver = true then
    (env.resolve e.obs spec.handlerRef spec.input).map fun handler => { spec with handler := some handler }
  else if spec.handler.isNone then none
  else some spec

/-- The tombstone that closes a scope: its own generation, or the whole owner. -/
def closedScope (scope : ScopeIdentity) : Option SubmitError :=
  if scope.owner = [] then none
  else
    match e.cancelledScopes.lookup scope with
    | some cause => some (.scopeClosed scope.owner (some scope.generation) cause)
    | none =>
      match e.cancelledScopes.lookup ⟨scope.owner, 0⟩ with
      | some cause => some (.scopeClosed scope.owner none cause)
      | none => none

/-- A declared resource that no capacity can ever satisfy. -/
def unsatisfiable (requirement : ResourceRequirement) : Bool :=
  match e.resourceCapacity.lookup requirement.name with
  | none => true
  | some capacity => decide (capacity < requirement.amount)

/-- The budgets of `admitSubmit`, from the payload on. -/
def admitBudgets (spec : WorkSpec) : Except SubmitError WorkSpec :=
  if (payloadSize spec.input).isNone then
    .error (.admission ⟨.unsupportedPayload, .unsupportedPayload⟩)
  else if spec.resources.any e.unsatisfiable then
    .error (.admission ⟨.resourceUnavailable, .resourceUnavailable⟩)
  else
    match e.adm.canAdmit spec (admissionBytes spec) with
    | .error err => .error (.admission err)
    | .ok () =>
      if 0 < e.maxRetainedBytes ∧ e.maxRetainedBytes < e.retainedBytes + retainedCharge spec then
        .error (.admission ⟨.retainedBudget, .retainedBudget⟩)
      else .ok spec

/-- The checks of `admitSubmit` between its two looks at the caller's context. -/
def admitChecks (spec : WorkSpec) : Except SubmitError WorkSpec :=
  match spec.validate with
  | .error err => .error (.invalidSpec err)
  | .ok spec =>
    if (e.registry.lookup spec.id).isSome then .error .alreadyRegistered
    else
      match e.resolveHandler env spec with
      | none => .error (.admission ⟨.unknownHandler, .unknownHandler⟩)
      | some spec =>
        if spec.queueDeadline ≠ 0 ∧ spec.queueDeadline ≤ env.clock e.obs then
          .error (.admission ⟨.deadlineExpired, .deadlineExpired⟩)
        else if e.accepting = false then .error (.admission ⟨.engineQuiescing, .engineQuiescing⟩)
        else
          match e.closedScope spec.scope with
          | some err => .error err
          | none =>
            if 0 < e.resultCapacity ∧ e.resultCapacity ≤ e.resultSlotsHeld then
              .error (.admission ⟨.resultBackpressure, .resultBackpressure⟩)
            else e.admitBudgets spec

/-- The callback credit of a spec: whether one is held, or none is left. -/
def reserveCallback (spec : WorkSpec) : Option Bool × Engine :=
  if spec.onComplete.isNone then (some false, e)
  else
    let reserved := (e.delivery.run (env.lane e.obs)).reserve
    (if reserved.1 then some true else none, { e with delivery := reserved.2, obs := e.obs + 1 })

/-- The credit of a submission that lost its decision goes back. -/
def unreserveCallback (reserved : Bool) : Engine :=
  if reserved then e.withDelivery env Delivery.releaseReservation else e

/-- The registry publication that follows an accepted decision. -/
def publish (spec : WorkSpec) (reserved : Bool) (now : Time) : Engine :=
  { e with
    commitSeq := e.commitSeq + 1
    registry := e.registry.insert spec.id
      { spec := spec
        state := .queued
        retainedBytes := retainedCharge spec
        commitSeq := e.commitSeq + 1
        callbackReserved := reserved
        admittedAt := now
        queuedAt := now }
    resultSlotsHeld := e.resultSlotsHeld + 1
    retainedBytes := e.retainedBytes + retainedCharge spec
    activeTasks := e.activeTasks + 1
    adm := e.adm.enqueue ⟨spec, now, admissionBytes spec⟩ }

structure Ticket where
  taskID : TaskID
  seq : Nat
  deriving DecidableEq

/-- The end of `admitSubmit`, once the decision cell is won. -/
def accept (spec : WorkSpec) (reserved : Bool) : Engine × Ticket :=
  let e := e.tick.publish spec reserved (env.clock e.obs)
  (e.tryDispatch env spec.pool, ⟨spec.id, e.commitSeq⟩)

def linearizationCancel : SubmitError := .admission ⟨.linearizationCancel, .linearizationCancel⟩

def admitSubmit (spec : WorkSpec) : Engine × Except SubmitError Ticket :=
  if env.callerDone e.obs then (e.tick, .error linearizationCancel)
  else
    match e.tick.admitChecks env spec with
    | .error err => (e.tick.tick, .error err)
    | .ok spec =>
      let e := e.tick.tick
      if env.callerDone e.obs then (e.tick, .error linearizationCancel)
      else
        match e.tick.reserveCallback env spec with
        | (none, e) => (e, .error (.admission ⟨.deliveryBackpressure, .deliveryBackpressure⟩))
        | (some reserved, e) =>
          if env.decides e.obs then
            let r := e.tick.accept env spec reserved
            (r.1, .ok r.2)
          else (e.tick.unreserveCallback env reserved, .error linearizationCancel)

/-! ### Worker messages -/

/-- The fence of both worker messages: the permit is the record's own, by address and epoch. -/
def fenced (rec : TaskRecord) (grant : Option Permit) : Bool :=
  match grant, rec.permit with
  | some grant, some permit => permit.addr == grant.addr && grant.dispatchEpoch == rec.dispatchEpoch
  | _, _ => false

def applyWorkerStarted (id : TaskID) (grant : Option Permit) (startedAt : Time) : Engine :=
  match e.registry.lookup id with
  | none => e
  | some rec =>
    if rec.state ≠ .dispatching ∨ fenced rec grant = false then e
    else e.setRecord id { rec with state := .running, startedAt := startedAt }

def lateCancelled (res : TaskResult) (reason : Cause) : TaskResult :=
  { res with
    outcome := .cancelled
    cause := reason
    disposition := .cancelled
    failure := { res.failure with
      code := reason.text
      message :=
        if res.failure.message = [] then goString "late cancellation applied: " ++ reason.text
        else res.failure.message } }

def reported (rec : TaskRecord) (res : TaskResult) : TaskRecord :=
  { rec with
    result := if rec.cancelRequested then lateCancelled res rec.cancelReason else res
    finishedAt := res.finishedAt
    startedAt := if rec.startedAt = 0 then res.startedAt else rec.startedAt }

/-- A finished attempt gives back its resources, its owner's slot and its ordering lock. -/
def releaseAttempt (spec : WorkSpec) : Engine :=
  { e.releaseResources spec with adm := e.adm.onTaskTerminal spec }

/-- The end of `applyWorkerCompleted`: the record settles, or waits for its commit. -/
def concludeAttempt (rec : TaskRecord) : Engine :=
  let bounded := e.boundResult rec.result
  let e := { e with retainedBytes := e.retainedBytes + bounded.2 }
  let rec' := { rec with
    result := bounded.1
    errorMsg := truncateField rec.errorMsg e.maxFailureBytes
    retainedBytes := rec.retainedBytes + bounded.2 }
  if rec.spec.requiresDurability then
    e.beginCommit env { rec' with execOutcome := bounded.1.outcome, pendingResult := bounded.1 }
  else
    let state := terminalStateFor bounded.1.outcome
    e.settleTerminal env
      { rec' with state := state, errorMsg := errorMsgFor state bounded.1 rec'.errorMsg }

def applyWorkerCompleted (res : TaskResult) (grant : Option Permit) : Engine :=
  match e.registry.lookup res.taskID with
  | none => e
  | some rec =>
    if rec.state.isActive = false ∨ fenced rec grant = false then e
    else ((e.releaseAttempt rec.spec).tryDispatchAll env).concludeAttempt env (reported rec res)

/-! ### Shutdown -/

def applyQuiesce : Engine := { e with accepting := false, quiesced := true }.checkDrained

def forcedMessage (durable : Bool) : GoString :=
  if durable then
    goString "durable in-flight task abandoned by forced shutdown; effect unknown; recovery required"
  else goString "task cancelled by forced shutdown"

def forceCancelInFlight (rec : TaskRecord) : Engine :=
  if rec.state.isActive = false then e
  else
    let now := env.clock e.obs
    let e := e.tick.releaseAttempt rec.spec
    let bounded := e.boundResult
      { taskID := rec.spec.id
        attemptID := match rec.spec.job with
          | none => []
          | some job => job.attemptID
        outcome := .cancelled
        cause := .shutdown
        disposition := .cancelled
        startedAt := rec.startedAt
        finishedAt := now
        failure := { code := goString "shutdown", message := forcedMessage rec.spec.requiresDurability } }
    settleTerminal env { e with retainedBytes := e.retainedBytes + bounded.2 }
      { rec with
        cancelRequested := true
        cancelReason := .shutdown
        state := if rec.spec.requiresDurability then .recoveryRequired else .cancelled
        finishedAt := now
        result := bounded.1
        errorMsg := bounded.1.failure.message
        retainedBytes := rec.retainedBytes + bounded.2 }

/-- The body of the loop of `applyStopFinalize`. -/
def finalizeTask (id : TaskID) : Engine :=
  match e.registry.lookup id with
  | none => e
  | some rec =>
    match rec.state with
    | .queued => (e.applyCancel env id .shutdown).1
    | .dispatching | .running => e.forceCancelInFlight env rec
    | .commitPending => e.abandonPending env rec (goString "shutdown")
    | _ => e

def applyStopFinalize : Engine :=
  let e := { e with accepting := false, quiesced := true }
  ((e.taskIDs env).foldl (finalizeTask env) e.tick).checkDrained

/-! ### Reads -/

def applyResult (id : TaskID) : Option TaskResult :=
  match e.registry.lookup id with
  | none => none
  | some rec => if rec.isTerminal then some rec.result else none

structure TaskSnapshot where
  id : TaskID
  scope : ScopeIdentity
  quotaOwner : OwnerID
  pool : PoolID
  cls : PriorityClass
  state : TaskState
  admittedAt : Time
  queuedAt : Time
  startedAt : Time
  finishedAt : Time
  error : GoString
  deriving DecidableEq

def applySnapshot (id : TaskID) : Option TaskSnapshot :=
  match e.registry.lookup id with
  | none => none
  | some rec =>
    some ⟨rec.spec.id, rec.spec.scope, rec.spec.quotaOwner, rec.spec.pool, rec.spec.cls, rec.state,
      rec.admittedAt, rec.queuedAt, rec.startedAt, rec.finishedAt, rec.errorMsg⟩

/-! ### The loop -/

def sweepPools (now : Time) : Engine :=
  (e.poolIDs env).foldl (fun e pool => e.sweepExpired env pool now) e.tick

/-- The branch of `runLoop` for its sweep timer. -/
def onSweepTimer : Engine :=
  let now := env.clock e.obs
  (e.tick.sweepPools env now).sweepIdleWorkers env now

end Engine

inductive Request where
  | submit (spec : WorkSpec)
  | cancel (id : TaskID) (reason : Cause)
  | cancelScope (scope : ScopeIdentity) (reason : Cause)
  | snapshot (id : TaskID)
  | result (id : TaskID)
  | workerStarted (id : TaskID) (grant : Option Permit) (startedAt : Time)
  | workerCompleted (res : TaskResult) (grant : Option Permit) (pool : PoolID) (slotID : Int)
  | commitAck (id : TaskID) (seq : Nat) (ackErr : Option GoString)
  | sweep
  | quiesce
  | setOwnerLimits (owner : OwnerID) (limits : OwnerLimits)
  | configurePool (pool : PoolID) (cfg : PoolEngineConfig)
  | setResourceCapacity (name : GoString) (capacity : Int64)
  | stopFinalize
  deriving DecidableEq

/-- The reply to a control message; worker and commit messages get none. -/
inductive Reply where
  | none
  | ticket (outcome : Except Engine.SubmitError Engine.Ticket)
  | receipt (receipt : Engine.CancelReceipt) (err : Option TaskError)
  | count (n : Nat)
  | snapshot (snapshot : Option Engine.TaskSnapshot)
  | result (result : Option TaskResult)
  | cancelled
  | liveConfig (err : Option Engine.LiveConfigError)

namespace Engine

def handleRequest : Request → Engine × Reply
  | .submit spec =>
    let r := e.admitSubmit env spec
    (r.1, .ticket r.2)
  | .cancel id reason =>
    let r := e.applyCancel env id reason
    (r.1, .receipt r.2.1 r.2.2)
  | .cancelScope scope reason =>
    let r := e.applyCancelScope env scope reason
    (r.1, .count r.2)
  | .snapshot id => (e, .snapshot (e.applySnapshot id))
  | .result id => (e, .result (e.applyResult id))
  | .workerStarted id grant startedAt => (e.applyWorkerStarted id grant startedAt, .none)
  | .workerCompleted res grant pool slotID =>
    ((e.applyWorkerCompleted env res grant).markWorkerIdle env pool slotID, .none)
  | .commitAck id seq ackErr => (e.applyCommitAck env id seq ackErr, .none)
  | .sweep => (e.tick.sweepPools env (env.clock e.obs), .none)
  | .quiesce => (e.applyQuiesce, .none)
  | .setOwnerLimits owner limits =>
    if env.decides e.obs then ({ e.tick with adm := e.adm.setOwnerLimits owner limits }, .none)
    else (e.tick, .cancelled)
  | .configurePool pool cfg =>
    let r := e.applyPoolConfig env pool cfg
    (r.1, .liveConfig r.2)
  | .setResourceCapacity name capacity =>
    let r := e.applyResourceCapacity env name capacity
    (r.1, .liveConfig r.2)
  | .stopFinalize => (e.applyStopFinalize env, .none)

/-- A worker takes the assignment at the head of its mailbox. -/
def receive (ch : ChanID) : Engine :=
  { e with mail := e.mail.insert ch (e.mail.getD ch []).tail }

/-- `Start`, refused for an invalid configuration or a second call. -/
def start : Option Engine :=
  if e.configErr.isSome ∨ e.runStarted = true then none
  else
    let e := { e with
      accepting := true
      quiesced := false
      drained := false
      drainDone := false
      runStarted := true }
    some ((e.poolIDs env).foldl (fun e pool =>
      match e.pools.lookup pool with
      | none => e
      | some wp =>
        (List.range wp.minWorkers.toNat).foldl (fun e slot =>
          match e.spawnWorker env pool slot with
          | none => e
          | some e => e.pushIdle pool slot) e) e.tick)

end Engine

/-- What the coordinator goes through: its requests, its sweep timer, and its workers' receives. -/
inductive Event where
  | request (req : Request)
  | timer
  | receive (ch : ChanID)
  deriving DecidableEq

def Engine.step : Event → Engine
  | .request req => (e.handleRequest env req).1
  | .timer => e.onSweepTimer env
  | .receive ch => e.receive ch

def Engine.run (events : List Event) : Engine := events.foldl (Engine.step env) e

/-- The states of an engine built by `NewEngine` from `cfg`, with a commit pump and a handler resolver
installed or not, before and after `Start`, in the runs in which every step satisfies `ok`. -/
inductive ReachableBy (env : Env) (cfg : Config) (ok : Engine → Event → Prop) : Engine → Prop where
  | new (pump : Option CommitPump) (resolver : Bool) :
    ReachableBy env cfg ok { newEngine cfg with commitPump := pump, handlerResolver := resolver }
  | start {e e' : Engine} : ReachableBy env cfg ok e → e.start env = some e' → ReachableBy env cfg ok e'
  | step {e : Engine} (ev : Event) : ReachableBy env cfg ok e → e.runStarted = true → ok e ev →
    ReachableBy env cfg ok (e.step env ev)

abbrev Reachable (cfg : Config) : Engine → Prop := ReachableBy env cfg fun _ _ => True

variable {env e} {cfg : Config} {ok : Engine → Event → Prop}

theorem ReachableBy.mono {ok' : Engine → Event → Prop} (hok : ∀ e ev, ok e ev → ok' e ev) (h : ReachableBy env cfg ok e) :
    ReachableBy env cfg ok' e := by
  induction h with
  | new pump resolver => exact .new pump resolver
  | start _ hstart ih => exact .start ih hstart
  | step ev _ hstarted hev ih => exact .step ev ih hstarted (hok _ _ hev)

theorem ReachableBy.reachable (h : ReachableBy env cfg ok e) : Reachable env cfg e :=
  h.mono fun _ _ _ => trivial

end Goultroid
