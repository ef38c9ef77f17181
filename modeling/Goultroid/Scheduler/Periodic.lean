import Goultroid.Lib.IndexedHeap
import Goultroid.Jobs.Manager
import Goultroid.Jobs.Registrations

/-!
# The periodic coordinator

`internal/scheduler/periodic_timer.go` over the heap of `heap.go`. Registrations and timer entries are
objects that are shared by reference: `regs` and `timers` hold them in the order in which they were made, and
a reference is a position. A registration is live as long as `entries` refers to it, but a submission or a
reconciliation that is under way keeps what it has read of a registration that was replaced in the meantime.

Every critical section is one step, and so is every call of the jobs manager: they interleave freely. The
loop sleeps on a timer and a wake channel; here it may wake at any moment. Of the jobs manager the
coordinator sees the store, which others change at the same time.
-/

namespace Goultroid.Periodic

open Jobs (Formats Store Transaction)
open Text (decimal decimalInt)

/-! ### Names -/

def periodicKey (owner name : GoString) : GoString :=
  if owner = [] ∨ owner = goString "runtime" then name else owner ++ goString "/" ++ name

def periodicDefinitionID (owner name : GoString) : GoString :=
  goString "periodic:" ++ owner ++ goString ":" ++ name

/-- `periodicIdentity`: the owner and the name. -/
abbrev Identity := GoString × GoString

/-- The key of a tick: the definition, the generation of the registration and the scheduled time. -/
def occurrenceKey (defID : GoString) (generation : Nat) (scheduledFor : Time) : GoString :=
  goString "periodic:" ++ defID ++ goString ":" ++ decimal generation ++ goString ":" ++ decimalInt (unixNano scheduledFor)

def isTick (key : GoString) : Bool := (goString "periodic:").isPrefixOf key

def periodicPruneWindow : Duration := 3600 * Jobs.second

/-! ### Objects -/

/-- `HeapIndex` is kept by the heap. -/
structure TimerEntry where
  owner : GoString
  id : GoString
  generation : Nat
  deadline : Time
  sequence : Nat := 0
  /-- the registration -/
  data : Nat
  deriving DecidableEq

structure PeriodicRegistration where
  owner : GoString
  name : GoString
  interval : Duration
  scheduledFor : Time
  nextRun : Time
  generation : Nat
  running : Bool := false
  occurrenceID : OccurrenceID := []
  runs : Nat := 0
  failures : Nat := 0
  lastRunAt : Time := 0
  lastError : GoString := []
  heapEntry : Option Nat := none
  deriving DecidableEq

namespace PeriodicRegistration

variable (reg : PeriodicRegistration)

def key : GoString := periodicKey reg.owner reg.name

def definitionID : GoString := periodicDefinitionID reg.owner reg.name

def tick : GoString := occurrenceKey reg.definitionID reg.generation reg.scheduledFor

end PeriodicRegistration

/-! ### The heap of timer entries -/

structure IndexedHeap where
  h : Heap.Indexed Nat
  seq : Nat

def IndexedHeap.new : IndexedHeap := ⟨⟨#[], fun _ => 0⟩, 0⟩

/-- `timerHeap.Less`. -/
def timerLess (timers : List TimerEntry) (i j : Nat) : Bool :=
  match timers[i]?, timers[j]? with
  | some a, some b => if a.deadline = b.deadline then decide (a.sequence < b.sequence) else decide (a.deadline < b.deadline)
  | _, _ => false

namespace IndexedHeap

def push (timers : List TimerEntry) (heap : IndexedHeap) (t : Nat) : List TimerEntry × IndexedHeap :=
  match timers[t]? with
  | none => (timers, heap)
  | some entry =>
    if entry.deadline = 0 then (timers, heap)
    else if heap.h.holds t then
      (timers, { heap with h := heap.h.fix (timerLess timers) (heap.h.index t).toNat })
    else
      let timers' := timers.set t { entry with sequence := heap.seq + 1 }
      (timers', ⟨heap.h.push (timerLess timers') t, heap.seq + 1⟩)

def remove (timers : List TimerEntry) (heap : IndexedHeap) (t : Nat) : IndexedHeap :=
  if heap.h.holds t then { heap with h := (heap.h.remove (timerLess timers) (heap.h.index t).toNat).2 } else heap

/-- `PopDue(now, maxBatch)`. -/
def popDue (timers : List TimerEntry) (now : Time) : Nat → IndexedHeap → List Nat × IndexedHeap
  | 0, heap => ([], heap)
  | maxBatch + 1, heap =>
    match heap.h.items[0]?.bind fun top => timers[top]? with
    | none => ([], heap)
    | some top =>
      if now < top.deadline then ([], heap)
      else
        let popped := heap.h.pop (timerLess timers)
        let rest := popDue timers now maxBatch { heap with h := popped.2 }
        (popped.1.toList ++ rest.1, rest.2)

end IndexedHeap

/-! ### The registry -/

/-- A tick that is handed to the jobs manager. -/
structure DueRun where
  owner : GoString
  name : GoString
  generation : Nat
  scheduledFor : Time
  deriving DecidableEq

namespace DueRun

variable (run : DueRun)

def definitionID : GoString := periodicDefinitionID run.owner run.name

def tick : GoString := occurrenceKey run.definitionID run.generation run.scheduledFor

end DueRun

/-- An occurrence whose end is awaited; the code does not keep `registration`, from which it was read. -/
structure PendingReconcile where
  key : GoString
  occurrenceID : OccurrenceID
  defID : GoString
  interval : Duration
  registration : Nat
  deriving DecidableEq

structure Registry where
  entries : AList fun _ : GoString => Nat
  /-- an identity is kept under its own definition; `Stop` leaves it there -/
  jobDefs : AList fun defID : GoString => { id : Identity // periodicDefinitionID id.1 id.2 = defID }
  regs : List PeriodicRegistration
  timers : List TimerEntry
  heap : IndexedHeap
  seq : Nat

def Registry.new : Registry := ⟨∅, ∅, [], [], .new, 0⟩

namespace Registry

variable (r : Registry)

def entry? (key : GoString) : Option (Nat × PeriodicRegistration) :=
  match r.entries.lookup key with
  | none => none
  | some q => r.regs[q]?.map fun reg => (q, reg)

def setReg (q : Nat) (reg : PeriodicRegistration) : Registry := { r with regs := r.regs.set q reg }

/-- A registration gets a timer entry of its own. -/
def hook (q : Nat) (reg : PeriodicRegistration) : Registry :=
  let t := r.timers.length
  let pushed := r.heap.push (r.timers ++ [⟨reg.owner, reg.key, reg.generation, reg.nextRun, 0, q⟩]) t
  { r with timers := pushed.1, heap := pushed.2, regs := r.regs.set q { reg with heapEntry := some t } }

def detach (q : Nat) (reg : PeriodicRegistration) : Registry :=
  match reg.heapEntry with
  | none => r
  | some t => { r with heap := r.heap.remove r.timers t, regs := r.regs.set q { reg with heapEntry := none } }

/-- The second critical section of `Register`, with the occurrence of the registration that is replaced. -/
def install (now : Time) (owner name : GoString) (interval : Duration) : Registry × OccurrenceID :=
  let key := periodicKey owner name
  let replaced : Registry × OccurrenceID :=
    match r.entry? key with
    | none => (r, [])
    | some (q, old) => (r.detach q old, if old.running then old.occurrenceID else [])
  let reg : PeriodicRegistration := {
    owner := owner
    name := name
    interval := interval
    scheduledFor := now + interval
    nextRun := now + interval
    generation := r.seq + 1 }
  let q := replaced.1.regs.length
  let enrolled := { replaced.1 with
    seq := r.seq + 1
    regs := replaced.1.regs ++ [reg]
    entries := replaced.1.entries.insert key q
    jobDefs := replaced.1.jobDefs.insert reg.definitionID ⟨(owner, name), rfl⟩ }
  (enrolled.hook q reg, replaced.2)

def drop (key : GoString) : Registry × OccurrenceID :=
  match r.entry? key with
  | none => (r, [])
  | some (q, reg) =>
    ({ r.detach q reg with entries := r.entries.erase key, jobDefs := r.jobDefs.erase reg.definitionID }, reg.occurrenceID)

/-- The registration whose task `runTaskFunc` calls. -/
def runTaskFunc (defID : GoString) : Except GoString Nat :=
  match r.jobDefs.lookup defID with
  | none => .error (goString "periodic job definition is not registered")
  | some ⟨id, _⟩ =>
    match r.entries.lookup (periodicKey id.1 id.2) with
    | none => .error (goString "periodic task is not registered")
    | some q => .ok q

/-- The entry that `Unregister` finds: the key itself, or the first entry with the name. -/
def find (order : List GoString) (name : GoString) : Option GoString :=
  match r.entry? name with
  | some _ => some name
  | none => order.find? fun key => (r.entry? key).any fun found => found.2.name == name

/-- `UnregisterByOwner` under the lock: what is left, the occurrences that were running and the count. -/
def dropOwner (owner : GoString) : List GoString → Registry → Registry × List OccurrenceID × Nat
  | [], r => (r, [], 0)
  | key :: order, r =>
    match r.entry? key with
    | none => dropOwner owner order r
    | some (_, reg) =>
      if reg.owner = owner ∨ reg.owner = goString "plugin:" ++ owner then
        let rest := dropOwner owner order (r.drop key).1
        (rest.1, (if reg.running = true ∧ reg.occurrenceID ≠ [] then [reg.occurrenceID] else []) ++ rest.2.1, rest.2.2 + 1)
      else dropOwner owner order r

/-- One entry in `syncHeapLocked`. -/
def syncEntry (key : GoString) : Registry :=
  match r.entry? key with
  | none => r
  | some (q, reg) =>
    if reg.running then r
    else
      match reg.heapEntry with
      | none => r.hook q reg
      | some t =>
        match r.timers[t]? with
        | none => r
        | some entry =>
          if entry.deadline = reg.nextRun then r
          else
            let removed := r.heap.remove r.timers t
            let pushed := removed.push (r.timers.set t { entry with deadline := reg.nextRun }) t
            { r with timers := pushed.1, heap := pushed.2 }

def syncHeapLocked (order : List GoString) : Registry := order.foldl syncEntry r

/-- One popped entry in `collectDueLocked`. -/
def collectItem (t : Nat) : Registry × List DueRun :=
  match r.timers[t]? with
  | none => (r, [])
  | some item =>
    match r.regs[item.data]? with
    | none => (r, [])
    | some reg =>
      if reg.generation ≠ item.generation ∨ reg.running then (r, [])
      else
        let scheduledFor := if reg.scheduledFor = 0 then reg.nextRun else reg.scheduledFor
        (r.setReg item.data { reg with running := true, heapEntry := none, scheduledFor := scheduledFor },
          [⟨reg.owner, reg.name, reg.generation, scheduledFor⟩])

def collectItems : List Nat → Registry → Registry × List DueRun
  | [], r => (r, [])
  | t :: items, r =>
    let first := r.collectItem t
    let rest := collectItems items first.1
    (rest.1, first.2 ++ rest.2)

def collectDueLocked (now : Time) : Registry × List DueRun :=
  let popped := IndexedHeap.popDue r.timers now 100 r.heap
  collectItems popped.1 { r with heap := popped.2 }

/-- `bindOccurrence` under the lock, and whether the registration is still the one of the run. -/
def bindOccurrence (run : DueRun) (id : OccurrenceID) : Registry × Bool :=
  match r.entry? (periodicKey run.owner run.name) with
  | none => (r, false)
  | some (q, reg) =>
    if reg.generation = run.generation ∧ reg.running = true then (r.setReg q { reg with occurrenceID := id }, true)
    else (r, false)

/-- `finishSubmission` under the lock. -/
def finishSubmission (now : Time) (run : DueRun) : Registry :=
  match r.entry? (periodicKey run.owner run.name) with
  | none => r
  | some (q, reg) =>
    if reg.generation = run.generation ∧ reg.running = true ∧ reg.occurrenceID = [] then
      r.setReg q { reg with
        running := false
        nextRun := now + 200000000
        scheduledFor := if reg.scheduledFor = 0 then run.scheduledFor else reg.scheduledFor }
    else r

/-- The occurrences that `reconcileInflight` looks after. -/
def inflight (order : List GoString) : List PendingReconcile :=
  order.filterMap fun key =>
    match r.entry? key with
    | none => none
    | some (q, reg) =>
      if reg.running = true ∧ reg.occurrenceID ≠ [] then
        some ⟨key, reg.occurrenceID, reg.definitionID, reg.interval, q⟩
      else none

/-- The critical section of `reconcileOne`: the tick is over and the next one is due an interval later. -/
def reconcileOne (item : PendingReconcile) (finished : Time) (failed : Bool) (errText : GoString) : Registry :=
  match r.entry? item.key with
  | none => r
  | some (q, reg) =>
    if reg.running = true ∧ reg.occurrenceID = item.occurrenceID then
      r.setReg q { reg with
        running := false
        occurrenceID := []
        lastRunAt := finished
        failures := if failed then reg.failures + 1 else reg.failures
        lastError := if failed then errText else []
        runs := reg.runs + 1
        scheduledFor := finished + item.interval
        nextRun := finished + item.interval }
    else r

end Registry

/-! ### The coordinator and its goroutines -/

/-- Contexts and loops are numbered: `ctx` is the current context, and `done` the loop whose channel is `c.done`. -/
structure Coordinator where
  registry : Registry
  ctx : Option Nat := none
  contexts : Nat := 0
  cancelled : List Nat := []
  running : Bool := false
  loopRunning : Bool := false
  done : Option Nat := none
  loops : Nat := 0
  /-- a jobs manager is set -/
  jobsMgr : Bool := false
  store : Store
  /-- the sequence of the jobs manager -/
  sequence : Nat := 0

structure PeriodicTaskOptions where
  owner : GoString := []
  timeout : Duration := 0
  maxAttempts : Int := 0
  retryDelay : Duration := 0
  deriving DecidableEq

inductive Result where
  | ok
  | count (n : Nat)
  | error (text : GoString)
  deriving DecidableEq

/-- What a pass of the loop keeps: the jobs manager and the context it has read, and whether anything was due. -/
structure Pass where
  jobs : Bool
  ctx : Nat
  busy : Bool
  deriving DecidableEq

inductive LoopPc where
  | pass
  | submit (pass : Pass) (runs : List DueRun)
  | lookup (pass : Pass) (run : DueRun) (rest : List DueRun)
  | bind (pass : Pass) (run : DueRun) (id : OccurrenceID) (rest : List DueRun)
  | stray (pass : Pass) (id : OccurrenceID) (rest : List DueRun)
  | finish (pass : Pass) (run : DueRun) (rest : List DueRun)
  | finished (pass : Pass) (rest : List DueRun)
  | inflight (pass : Pass)
  | reconcile (pass : Pass) (items : List PendingReconcile)
  | latest (pass : Pass) (item : PendingReconcile) (rest : List PendingReconcile)
  | settle (pass : Pass) (item : PendingReconcile) (finished : Time) (failed : Bool) (errText : GoString) (rest : List PendingReconcile)
  | prune (pass : Pass) (item : PendingReconcile) (finished : Time) (rest : List PendingReconcile)
  | settled (pass : Pass) (rest : List PendingReconcile)
  | wait (pass : Pass)
  | leave (retired : Bool)
  | ended
  deriving DecidableEq

/-- A goroutine that uses the coordinator, or one transaction of somebody else on the store. -/
inductive Task where
  | register (name : GoString) (interval : Duration) (options : PeriodicTaskOptions) (task : Bool)
  | define (owner name : GoString) (interval : Duration)
  | install (owner name : GoString) (interval : Duration)
  | unregister (name : GoString)
  | unregisterOwned (owner name : GoString)
  | unregisterByOwner (owner : GoString)
  | cancel (ids : List OccurrenceID) (reason : GoString) (result : Result)
  | notify (result : Result)
  | start
  | stop
  | stopContext (ctx : Option Nat) (jobs : Bool) (ids : List OccurrenceID)
  | stopping (jobs : Bool) (ids : List OccurrenceID)
  | setJobsManager
  | cancelContext (ctx : Nat)
  | jobs (t : Transaction)
  | loop (token : Nat) (pc : LoopPc)
  | returned (result : Result)
  deriving DecidableEq

/-- The Go library, as far as the coordinator needs it. -/
structure Env where
  fmt : Formats
  /-- `strings.TrimSpace` -/
  trimSpace : GoString → GoString

/-- What a step does not decide by itself: the clock, the order of a map, faults, and the end of a context. -/
structure Choice where
  now : Time := 0
  /-- the clock when the store reads it -/
  later : Time := 0
  order : List GoString := []
  /-- a call of the jobs manager fails without effect -/
  fault : Bool := false
  /-- `SubmitOccurrence` fails after it has materialized the occurrence -/
  rejected : Bool := false
  /-- the text of its error -/
  errText : GoString := []
  /-- the context of the caller has ended -/
  stop : Bool := false

namespace Coordinator

variable (c : Coordinator)

def new (store : Store) : Coordinator := { registry := .new, store := store }

/-- `startLoopLocked`, with the loop that it starts. -/
def startLoopLocked : Coordinator × List Task :=
  if c.running = false ∨ c.loopRunning = true ∨ c.ctx.all c.cancelled.contains = true ∨ c.registry.entries.keys = [] then (c, [])
  else ({ c with loopRunning := true, done := some c.loops, loops := c.loops + 1 }, [.loop c.loops .pass])

/-- The loop with this token is over. -/
def endLoop (token : Nat) : Coordinator :=
  if c.done = some token then { c with loopRunning := false, done := none } else c

/-- A step of `submitExecution`, up to the critical section that ends it. -/
def submitExecution (choice : Choice) (pass : Pass) (run : DueRun) (rest : List DueRun) : Coordinator × LoopPc :=
  if pass.jobs = false then (c, .finish pass run rest)
  else if choice.fault then (c, .lookup pass run rest)
  else
    let occ := Jobs.Env.submittedOccurrence choice.now run.definitionID run.tick (c.sequence + 1)
    match c.store.materializeOccurrence choice.later occ with
    | .error _ => ({ c with sequence := c.sequence + 1 }, .lookup pass run rest)
    | .ok (store, o) => ({ c with sequence := c.sequence + 1, store := store },
        if choice.rejected then .lookup pass run rest else .bind pass run o.id rest)

end Coordinator

namespace Env

variable (env : Env) (choice : Choice) (c : Coordinator)

/-- A transaction of the store whose result nobody looks at. -/
def transact (t : Transaction) : Coordinator :=
  if choice.fault then c else { c with store := c.store.step env.fmt t }

/-- The checks of `Register`, and the owner it registers for. -/
def registerCheck (name : GoString) (interval : Duration) (options : PeriodicTaskOptions) (task : Bool) : Except GoString (GoString × GoString) :=
  let owner := if env.trimSpace options.owner = [] then goString "runtime" else env.trimSpace options.owner
  let name := env.trimSpace name
  if name = [] then .error (goString "task name cannot be empty")
  else if interval ≤ 0 then .error (goString "interval must be positive")
  else if task = false then .error (goString "task function cannot be nil")
  else if options.maxAttempts < 0 then .error (goString "max attempts cannot be negative")
  else if options.retryDelay < 0 then .error (goString "retry delay cannot be negative")
  else .ok (owner, name)

def loopStep (token : Nat) : LoopPc → Option (Coordinator × LoopPc × List Task)
  | .pass =>
    match c.ctx with
    | none => some (c, .leave false, [])
    | some ctx =>
      if c.running = false then some (c, .leave false, [])
      else if c.registry.entries.keys = [] then some (c.endLoop token, .leave true, [])
      else if choice.order.isPerm c.registry.entries.keys = false then none
      else
        let collected := (c.registry.syncHeapLocked choice.order).collectDueLocked choice.now
        some ({ c with registry := collected.1 }, .submit ⟨c.jobsMgr, ctx, !collected.2.isEmpty⟩ collected.2, [])
  | .submit pass [] => some (c, .inflight pass, [])
  | .submit pass (run :: rest) =>
    let next := c.submitExecution choice pass run rest
    some (next.1, next.2, [])
  | .lookup pass run rest =>
    match if choice.fault then none else c.store.occurrenceByKey? run.tick with
    | some o => some (c, .bind pass run o.id rest, [])
    | none => some (c, .finish pass run rest, [])
  | .bind pass run id rest =>
    let bound := c.registry.bindOccurrence run id
    some ({ c with registry := bound.1 }, if bound.2 = true ∨ id = [] then .submit pass rest else .stray pass id rest, [])
  | .stray pass id rest =>
    some (env.transact choice c (.cancelOccurrence choice.now id (goString "periodic registration changed during submit")),
      .submit pass rest, [])
  | .finish pass run rest =>
    some ({ c with registry := c.registry.finishSubmission choice.now run }, .finished pass rest, [])
  | .finished pass rest => some (c.startLoopLocked.1, .submit pass rest, c.startLoopLocked.2)
  | .inflight pass =>
    if pass.jobs = false then some (c, .reconcile pass [], [])
    else if choice.order.isPerm c.registry.entries.keys = false then none
    else some (c, .reconcile pass (c.registry.inflight choice.order), [])
  | .reconcile pass [] => some (c, if pass.busy then .pass else .wait pass, [])
  | .reconcile pass (item :: rest) =>
    match if choice.fault then none else c.store.occurrence? item.occurrenceID with
    | none => some (c, .reconcile pass rest, [])
    | some o =>
      match o.state with
      | .completed => some (c, .settle pass item choice.now false [] rest, [])
      | .failed | .cancelled => some (c, .latest pass item rest, [])
      | _ => some (c, .reconcile pass rest, [])
  | .latest pass item rest =>
    match if choice.fault then none else c.store.latestAttempt item.occurrenceID with
    | none => some (c, .settle pass item choice.now true [] rest, [])
    | some latest =>
      let finished := if latest.finishedAt.getD 0 = 0 then choice.now else latest.finishedAt.getD 0
      some (c, .settle pass item finished true latest.error rest, [])
  | .settle pass item finished failed errText rest =>
    some ({ c with registry := c.registry.reconcileOne item finished failed errText }, .prune pass item finished rest, [])
  | .prune pass item finished rest =>
    some (env.transact choice c (.deleteTerminalOccurrences item.defID (finished - periodicPruneWindow) 500), .settled pass rest, [])
  | .settled pass rest => some (c.startLoopLocked.1, .reconcile pass rest, c.startLoopLocked.2)
  | .wait pass =>
    if choice.stop = false then some (c, .pass, [])
    else if c.cancelled.contains pass.ctx then some (c, .leave false, [])
    else none
  | .leave _ => some (c.endLoop token, .ended, [])
  | .ended => none

def advance : Task → Option (Coordinator × Task × List Task)
  | .register name interval options task =>
    match env.registerCheck name interval options task with
    | .error text => some (c, .returned (.error text), [])
    | .ok (owner, name) =>
      if c.running = false ∨ c.ctx = none then
        some (c, .returned (.error (goString "scheduler engine is not running: call Start() first")), [])
      else if c.jobsMgr = false then
        some (c, .returned (.error (goString "periodic execution owner is not configured")), [])
      else some (c, .define owner name interval, [])
  | .define owner name interval =>
    -- `Register` of the jobs manager, or `UpdateDefinition` if there is a definition
    if choice.fault then some (c, .returned (.error (goString "register periodic job: " ++ choice.errText)), [])
    else some ({ c with store := c.store.saveDefinition (periodicDefinitionID owner name) }, .install owner name interval, [])
  | .install owner name interval =>
    let installed := c.registry.install choice.now owner name interval
    some ({ c with registry := installed.1 },
      .cancel (if installed.2 = [] then [] else [installed.2]) (goString "periodic task re-registered") .ok, [])
  | .unregister name =>
    let name := env.trimSpace name
    if name = [] then some (c, .returned (.error (goString "task name cannot be empty")), [])
    else if choice.order.isPerm c.registry.entries.keys = false then none
    else
      match c.registry.find choice.order name with
      | none => some (c, .returned (.error (goString "task not found")), [])
      | some key =>
        let dropped := c.registry.drop key
        some ({ c with registry := dropped.1 },
          .cancel (if dropped.2 = [] ∨ c.jobsMgr = false then [] else [dropped.2]) (goString "periodic task unregistered") .ok, [])
  | .unregisterOwned owner name =>
    let key := periodicKey (env.trimSpace owner) (env.trimSpace name)
    match c.registry.entry? key with
    | none => some (c, .returned (.error (goString "task not found")), [])
    | some _ =>
      let dropped := c.registry.drop key
      some ({ c with registry := dropped.1 },
        .cancel (if dropped.2 = [] ∨ c.jobsMgr = false then [] else [dropped.2]) (goString "periodic task unregistered") .ok, [])
  | .unregisterByOwner owner =>
    let owner := env.trimSpace owner
    if owner = [] then some (c, .returned (.count 0), [])
    else if choice.order.isPerm c.registry.entries.keys = false then none
    else
      let dropped := Registry.dropOwner owner choice.order c.registry
      some ({ c with registry := dropped.1 },
        if dropped.2.2 = 0 then .returned (.count 0)
        else .cancel (if c.jobsMgr then dropped.2.1 else []) (goString "periodic tasks unregistered by owner") (.count dropped.2.2), [])
  | .cancel [] _ result => some (c, .notify result, [])
  | .cancel (id :: ids) reason result =>
    some (env.transact choice c (.cancelOccurrence choice.now id reason), .cancel ids reason result, [])
  | .notify result => some (c.startLoopLocked.1, .returned result, c.startLoopLocked.2)
  | .start =>
    if c.running then some (c, .returned (.error (goString "periodic coordinator already running")), [])
    else
      let started := ({ c with ctx := some c.contexts, contexts := c.contexts + 1, running := true } : Coordinator).startLoopLocked
      some (started.1, .returned .ok, started.2)
  | .stop =>
    if c.running = false then some (c, .returned .ok, [])
    else if choice.order.isPerm c.registry.entries.keys = false then none
    else
      let pending := (c.registry.inflight choice.order).map PendingReconcile.occurrenceID
      some ({ c with running := false, registry := { c.registry with entries := ∅, heap := .new } },
        .stopContext c.ctx c.jobsMgr pending, [])
  | .stopContext ctx jobs ids => some ({ c with cancelled := ctx.toList ++ c.cancelled }, .stopping jobs ids, [])
  | .stopping _ [] => some (c, .notify .ok, [])
  | .stopping jobs (id :: ids) =>
    if jobs = false ∨ choice.stop = true then some (c, .notify .ok, [])
    else some (env.transact choice c (.cancelOccurrence choice.now id (goString "periodic coordinator stopping")), .stopping jobs ids, [])
  | .setJobsManager => some ({ c with jobsMgr := true }, .notify .ok, [])
  | .cancelContext ctx => some ({ c with cancelled := ctx :: c.cancelled }, .returned .ok, [])
  | .jobs t => some ({ c with store := c.store.step env.fmt t }, .returned .ok, [])
  | .loop token pc => (env.loopStep choice c token pc).map fun next => (next.1, .loop token next.2.1, next.2.2)
  | .returned _ => none

def program : Threads.Program Coordinator Task Choice := fun _ choice c task => env.advance choice c task

end Env

/-- The keys of ticks are used by nobody else. -/
def foreign : Transaction → Bool
  | .materializeOccurrence _ occ => !isTick occ.occurrenceKey
  | _ => true

def Task.entry : Task → Bool
  | .register .. | .unregister _ | .unregisterOwned .. | .unregisterByOwner _ | .notify _ | .start | .stop | .setJobsManager
  | .cancelContext _ => true
  | .jobs t => foreign t
  | _ => false

def start (store : Store) : Threads.Pool Coordinator Task := ⟨.new store, []⟩

end Goultroid.Periodic
