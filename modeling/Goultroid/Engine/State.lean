import Goultroid.Admission.Controller
import Goultroid.Engine.Accounting
import Goultroid.Engine.Delivery

/-!
# The state of the execution coordinator

The records, pools and fields of `taskengine.Engine` that its control loop owns, its configuration,
and what the loop observes from outside. Per-pool maps with the same keys are one map of `WorkerPool`s.
A mailbox is named by a number: `mail` holds its content and `homes` the slot its worker was started
for, so that two generations of one slot are told apart. A permit carries its address, since the
fences of the source compare pointers.

The fields of `Faults` record what the source would do wrong and no result value shows: a second
close of a ticket channel, a blocked send of the loop, a selected candidate without a queued record,
a retained-bytes clamp. `settled` lists the calls of `settleTerminal`.
-/

namespace Goultroid

open Admission (Controller)

/-! ### Configuration -/

structure PoolEngineConfig where
  concurrency : Int := 0
  minConcurrency : Int := 0
  zeroIdle : Bool := false
  idleTimeout : Duration := 0
  backlogLimit : Int := 0
  payloadBudget : Int := 0
  deriving DecidableEq

structure Config where
  pools : AList fun _ : PoolID => PoolEngineConfig := ∅
  resultCapacity : Int := 0
  maxTerminalRetained : Int := 0
  decisionTimeout : Duration := 0
  inboxCapacity : Int := 0
  maxRetainedBytes : Int := 0
  maxOutputBytes : Int := 0
  maxFailureBytes : Int := 0
  deliveryConcurrency : Int := 0
  deliveryQueueCap : Int := 0
  terminalTTL : Duration := 0
  maxScopeTombstones : Int := 0
  resourceCapacities : AList fun _ : GoString => Int64 := ∅

def second : Duration := 1000000000

def defaultIdleTimeout : Duration := 10 * second

/-- The pools of `newDefaultConfig`. -/
def defaultPools : AList fun _ : PoolID => PoolEngineConfig :=
  let mib : Int := 1024 * 1024
  ((((AList.singleton (goString "general") ⟨8, 0, true, 10 * second, 200, 100 * mib⟩).insert
    (goString "interactive") ⟨32, 0, true, 10 * second, 128, 50 * mib⟩).insert
    (goString "download") ⟨3, 0, true, 15 * second, 50, 200 * mib⟩).insert
    (goString "media-process") ⟨2, 0, true, 20 * second, 20, 200 * mib⟩).insert
    (goString "scheduler") ⟨4, 0, true, 30 * second, 100, 50 * mib⟩

def defaultPoolConcurrency : Int := 4

def effectivePoolConcurrency (cfg : PoolEngineConfig) : Int :=
  if 0 < cfg.concurrency then cfg.concurrency else defaultPoolConcurrency

def effectivePoolMinimum (cfg : PoolEngineConfig) (concurrency : Int) : Int :=
  if cfg.zeroIdle then 0
  else if 0 < cfg.minConcurrency then cfg.minConcurrency
  else concurrency

inductive ConfigError where
  | resultCapacity
  | maxTerminalRetained
  | decisionTimeout
  | inboxCapacity
  | maxRetainedBytes
  | maxOutputBytes
  | maxFailureBytes
  | deliveryConcurrency
  | deliveryQueueCap
  | terminalTTL
  | maxScopeTombstones
  | emptyPoolID
  | poolConcurrency (pool : PoolID)
  | poolMinimum (pool : PoolID)
  | poolIdleTimeout (pool : PoolID)
  | poolBacklog (pool : PoolID)
  | poolBudget (pool : PoolID)
  | resourceCapacities
  deriving DecidableEq

/-- The loop of `ValidateConfig` over the pools. -/
def validatePool (pool : PoolID) (cfg : PoolEngineConfig) : Option ConfigError :=
  if pool = [] then some .emptyPoolID
  else if cfg.concurrency < 0 then some (.poolConcurrency pool)
  else if cfg.minConcurrency < 0 ∨ effectivePoolConcurrency cfg < cfg.minConcurrency then
    some (.poolMinimum pool)
  else if cfg.idleTimeout < 0 then some (.poolIdleTimeout pool)
  else if cfg.backlogLimit < 0 then some (.poolBacklog pool)
  else if cfg.payloadBudget < 0 then some (.poolBudget pool)
  else none

/-- `ValidateConfig`; `none` is a nil error. -/
def validateConfig (cfg : Config) : Option ConfigError :=
  if cfg.resultCapacity < 0 then some .resultCapacity
  else if cfg.maxTerminalRetained < 0 then some .maxTerminalRetained
  else if cfg.decisionTimeout < 0 then some .decisionTimeout
  else if cfg.inboxCapacity < 0 then some .inboxCapacity
  else if cfg.maxRetainedBytes < 0 then some .maxRetainedBytes
  else if cfg.maxOutputBytes < 0 then some .maxOutputBytes
  else if cfg.maxFailureBytes < 0 then some .maxFailureBytes
  else if cfg.deliveryConcurrency < 0 then some .deliveryConcurrency
  else if cfg.deliveryQueueCap < 0 then some .deliveryQueueCap
  else if cfg.terminalTTL < 0 then some .terminalTTL
  else if cfg.maxScopeTombstones < 0 then some .maxScopeTombstones
  else
    match cfg.pools.entries.findSome? fun s => validatePool s.1 s.2 with
    | some err => some err
    | none =>
      if cfg.resourceCapacities.entries.any fun s => s.1 == [] || decide (s.2 ≤ 0) then
        some .resourceCapacities
      else none

/-! ### Records -/

inductive DurabilityState where
  | none
  | pending
  | committed
  | recovery
  deriving DecidableEq

/-- A physical-slot grant; `addr` is the address of the allocation. -/
structure Permit where
  addr : Nat
  pool : PoolID
  taskID : TaskID
  dispatchEpoch : Nat
  deriving DecidableEq

structure TaskRecord where
  spec : WorkSpec
  state : TaskState
  permit : Option Permit := none
  dispatchEpoch : Nat := 0
  result : TaskResult := {}
  /-- the ticket's done channel is closed -/
  done : Bool := false
  cancelRequested : Bool := false
  cancelReason : Cause := .unset
  callbackReserved : Bool := false
  retainedBytes : Int
  durability : DurabilityState := .none
  pendingResult : TaskResult := {}
  execOutcome : Outcome := .unset
  commitSeq : Nat
  admittedAt : Time
  queuedAt : Time
  startedAt : Time := 0
  finishedAt : Time := 0
  errorMsg : GoString := []
  deriving DecidableEq

def TaskRecord.isTerminal (r : TaskRecord) : Bool := r.state.isTerminal

/-- `workerAssignment`. -/
structure Assignment where
  spec : WorkSpec
  permit : Permit
  deriving DecidableEq

/-- The name of a mailbox channel, one for each worker generation. -/
abbrev ChanID := Nat

/-- The worker side of a pool: its slots, in the order of the source's slices. -/
structure WorkerPool where
  config : PoolEngineConfig
  idleSlots : List Nat := []
  concurrency : Int
  minWorkers : Int
  idleTimeout : Duration
  running : List Bool
  idleSince : List Time
  mailboxes : List (Option ChanID)
  deriving DecidableEq

def runningCount (slots : List Bool) : Nat := slots.count true

/-- A call of `settleTerminal`: the record it closed, and whether its spec had a `Commit`. -/
structure Settlement where
  seq : Nat
  id : TaskID
  state : TaskState
  result : TaskResult
  durability : DurabilityState
  durable : Bool
  deriving DecidableEq

structure Faults where
  staleCandidate : Bool := false
  doubleClose : Bool := false
  mailboxBlocked : Bool := false
  clamped : Bool := false
  deriving DecidableEq

/-- An installed commit pump: whether it implements `AckCommitPump`. Sized or not, a pump that does
not is called once and answers with a result channel. -/
structure CommitPump where
  ack : Bool
  deriving DecidableEq

structure Engine where
  configErr : Option ConfigError := none
  adm : Controller
  pools : AList fun _ : PoolID => WorkerPool
  mail : AList fun _ : ChanID => List Assignment := ∅
  homes : AList fun _ : ChanID => PoolID × Nat := ∅
  /-- worker generations whose context has been cancelled -/
  retired : List ChanID := []
  nextChan : ChanID := 0
  resourceCapacity : AList fun _ : GoString => Int64
  resourceUsed : AList fun _ : GoString => Int64 := ∅
  dispatchEpoch : Nat := 0
  nextPermit : Nat := 0
  resultCapacity : Int
  resultSlotsHeld : Int := 0
  registry : AList fun _ : TaskID => TaskRecord := ∅
  cancelledScopes : AList fun _ : ScopeIdentity => Cause := ∅
  cancelledScopeOrder : List ScopeIdentity := []
  maxScopeTombstones : Int
  terminalOrder : List TaskID := []
  maxTerminalRetained : Int
  retainedBytes : Int := 0
  maxRetainedBytes : Int
  maxOutputBytes : Int
  maxFailureBytes : Int
  terminalTTL : Duration
  commitPump : Option CommitPump := none
  handlerResolver : Bool := false
  commitSeq : Nat := 0
  commitPending : Int := 0
  commitWaiters : AList fun _ : Nat => Unit := ∅
  delivery : Delivery
  accepting : Bool := false
  quiesced : Bool := false
  drained : Bool := false
  activeTasks : Int := 0
  /-- `drainDone` is closed -/
  drainDone : Bool := false
  runStarted : Bool := false
  /-- how many readings of `Env` the loop has made -/
  obs : Nat := 0
  faults : Faults := {}
  settled : List Settlement := []

def newWorkerPool (cfg : PoolEngineConfig) : WorkerPool :=
  let concurrency := effectivePoolConcurrency cfg
  { config := { cfg with concurrency := concurrency }
    concurrency := concurrency
    minWorkers := effectivePoolMinimum cfg concurrency
    idleTimeout := if cfg.idleTimeout ≤ 0 then defaultIdleTimeout else cfg.idleTimeout
    running := List.replicate concurrency.toNat false
    idleSince := List.replicate concurrency.toNat 0
    mailboxes := List.replicate concurrency.toNat none }

def newEngine (cfg : Config) : Engine :=
  let resultCapacity := if cfg.resultCapacity ≤ 0 then 1000 else cfg.resultCapacity
  let pools := if cfg.pools.entries = [] then defaultPools else cfg.pools
  let deliveryCap :=
    if cfg.deliveryQueueCap ≤ 0 then (if resultCapacity < 256 then 256 else resultCapacity)
    else cfg.deliveryQueueCap
  { configErr := validateConfig cfg
    adm := Admission.newController
      (pools.entries.foldl (fun m s => m.insert s.1 ⟨s.2.backlogLimit, s.2.payloadBudget⟩) ∅)
    pools := pools.entries.foldl (fun m s => m.insert s.1 (newWorkerPool s.2)) ∅
    resourceCapacity := cfg.resourceCapacities
    resultCapacity := resultCapacity
    maxScopeTombstones := if cfg.maxScopeTombstones ≤ 0 then 4096 else cfg.maxScopeTombstones
    maxTerminalRetained := if cfg.maxTerminalRetained = 0 then 1000 else cfg.maxTerminalRetained
    maxRetainedBytes := if cfg.maxRetainedBytes ≤ 0 then defaultMaxRetainedBytes else cfg.maxRetainedBytes
    maxOutputBytes := if cfg.maxOutputBytes ≤ 0 then defaultMaxOutputBytes else cfg.maxOutputBytes
    maxFailureBytes := if cfg.maxFailureBytes ≤ 0 then defaultMaxFailureBytes else cfg.maxFailureBytes
    terminalTTL := cfg.terminalTTL
    delivery := { queueCap := deliveryCap.toNat } }

/-! ### What the loop observes -/

/-- Everything the control loop reads from outside, in the order it reads it: reading `n` of the loop
gets the answers at `n`. No answer is excluded: what is shown holds for every iteration order of a map, and also if
a cancelled root were to recover. -/
structure Env where
  clock : Nat → Time
  rootDone : Nat → Bool
  /-- the submitting caller's context has expired -/
  callerDone : Nat → Bool
  /-- the compare-and-swap on the request's decision cell succeeds -/
  decides : Nat → Bool
  /-- what the callback lane did since the loop's last delivery operation -/
  lane : Nat → List LaneStep
  durabilityAccepts : Nat → Bool
  pumpAccepts : Nat → Bool
  resolve : Nat → GoString → Payload → Option Closure
  poolOrder : Nat → List PoolID → List PoolID
  idOrder : Nat → List TaskID → List TaskID

namespace Engine

/-- One reading has been made. -/
def tick (e : Engine) : Engine := { e with obs := e.obs + 1 }

/-- A record is reached through a pointer; the model writes it back. -/
def setRecord (e : Engine) (id : TaskID) (rec : TaskRecord) : Engine :=
  { e with registry := e.registry.insert id rec }

/-- `e.rootCtx == nil || e.rootCtx.Err() != nil`. -/
def rootGone (env : Env) (e : Engine) : Bool := !e.runStarted || env.rootDone e.obs

/-- The callback lane runs on, then the loop's own operation on it. -/
def withDelivery (env : Env) (e : Engine) (op : Delivery → Delivery) : Engine :=
  { e with delivery := op (e.delivery.run (env.lane e.obs)), obs := e.obs + 1 }

def poolIDs (env : Env) (e : Engine) : List PoolID := env.poolOrder e.obs e.pools.keys

def taskIDs (env : Env) (e : Engine) : List TaskID := env.idOrder e.obs e.registry.keys

end Engine

end Goultroid
