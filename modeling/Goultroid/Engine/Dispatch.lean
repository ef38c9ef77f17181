import Goultroid.Engine.Settlement

/-!
# Workers and dispatch

`engine_dispatch.go` and `spawnWorker`: physical slots are started, retired and returned to idle, and
queued work is assigned to idle slots.

A send to a mailbox that already holds an assignment blocks the loop until the worker has taken it.
The model lets the send go through and sets `Faults.mailboxBlocked`.
-/

namespace Goultroid

namespace Admission.Controller

/-- How many entries wait in a pool; every selection takes one of them. -/
def backlog (c : Controller) (pool : PoolID) : Nat :=
  match c.pools.lookup pool with
  | none => 0
  | some ps => AList.total (fun _ rq => rq.length) ps.queues

end Admission.Controller

namespace Engine

variable (env : Env) (e : Engine) (pool : PoolID)

def idleSlots : List Nat :=
  match e.pools.lookup pool with
  | none => []
  | some wp => wp.idleSlots

def setPool (wp : WorkerPool) : Engine :=
  { e with pools := e.pools.insert pool wp }

/-! ### Slots -/

/-- `spawnWorker`: a slot that does not run gets a worker with a mailbox of its own; `none` is the
refusal. -/
def spawnWorker (slot : Nat) : Option Engine :=
  match e.pools.lookup pool with
  | none => none
  | some wp =>
    if wp.running[slot]? = some false then
      some
        { e.setPool pool
            { wp with
              running := wp.running.set slot true
              idleSince := wp.idleSince.set slot (env.clock e.obs)
              mailboxes := wp.mailboxes.set slot (some e.nextChan) } with
          mail := e.mail.insert e.nextChan []
          homes := e.homes.insert e.nextChan (pool, slot)
          nextChan := e.nextChan + 1
          obs := e.obs + 1 }
    else none

/-- `e.idleSlots[pool] = append(e.idleSlots[pool], slot)`. -/
def pushIdle (slot : Nat) : Engine :=
  match e.pools.lookup pool with
  | none => e
  | some wp => e.setPool pool { wp with idleSlots := wp.idleSlots ++ [slot] }

/-- `spawnNextWorker`, with whether a worker was started. -/
def spawnNextWorker : Bool × Engine :=
  match e.pools.lookup pool with
  | none => (false, e)
  | some wp =>
    if wp.concurrency ≤ runningCount wp.running then (false, e)
    else
      match wp.running.findIdx? (!·) with
      | none => (false, e)
      | some slot =>
        match e.spawnWorker env pool slot with
        | none => (false, e)
        | some e => (true, e.pushIdle pool slot)

/-- `retireWorker`, with whether the worker was retired. -/
def retireWorker (slot : Nat) : Bool × Engine :=
  match e.pools.lookup pool with
  | none => (false, e)
  | some wp =>
    if runningCount wp.running ≤ wp.minWorkers then (false, e)
    else
      match wp.idleSlots.idxOf? slot with
      | none => (false, e)
      | some index =>
        (true,
          { e.setPool pool
              { wp with
                idleSlots := wp.idleSlots.eraseIdx index
                running := wp.running.set slot false
                idleSince := wp.idleSince.set slot 0 } with
            retired := (wp.mailboxes.getD slot none).toList ++ e.retired })

section

variable {env e pool} {wp : WorkerPool} {slot : Nat} {e' : Engine}

theorem spawnWorker_free (hwp : e.pools.lookup pool = some wp) (h : e.spawnWorker env pool slot = some e') :
    wp.running[slot]? = some false := by
  rw [spawnWorker, hwp] at h
  exact (Option.ite_none_right_eq_some.mp h).1

theorem spawn_pushIdle_eq (hwp : e.pools.lookup pool = some wp) (h : e.spawnWorker env pool slot = some e') :
    e'.pushIdle pool slot =
      { e with
        pools := e.pools.insert pool
          { wp with
            idleSlots := wp.idleSlots ++ [slot]
            running := wp.running.set slot true
            idleSince := wp.idleSince.set slot (env.clock e.obs)
            mailboxes := wp.mailboxes.set slot (some e.nextChan) }
        mail := e.mail.insert e.nextChan []
        homes := e.homes.insert e.nextChan (pool, slot)
        nextChan := e.nextChan + 1
        obs := e.obs + 1 } := by
  rw [spawnWorker, hwp] at h
  obtain ⟨-, h⟩ := Option.ite_none_right_eq_some.mp h
  cases h
  simp [pushIdle, setPool]

theorem retireWorker_eq (h : e.retireWorker pool slot = (true, e')) :
    ∃ wp, e.pools.lookup pool = some wp ∧ slot ∈ wp.idleSlots ∧ e' =
      { e.setPool pool
          { wp with
            idleSlots := wp.idleSlots.erase slot
            running := wp.running.set slot false
            idleSince := wp.idleSince.set slot 0 } with
        retired := (wp.mailboxes.getD slot none).toList ++ e.retired } := by
  rw [retireWorker] at h
  cases hwp : e.pools.lookup pool with
  | none => simp [hwp] at h
  | some wp =>
    simp only [hwp] at h
    split_ifs at h with hmin
    · simp at h
    · cases hidx : wp.idleSlots.idxOf? slot with
      | none => simp [hidx] at h
      | some index =>
        simp only [hidx, Prod.mk.injEq, true_and] at h
        have hmem : slot ∈ wp.idleSlots := by
          by_contra hnot
          rw [List.idxOf?_eq_none_iff.mpr hnot] at hidx
          cases hidx
        have herase : wp.idleSlots.eraseIdx index = wp.idleSlots.erase slot := by
          rw [List.erase_eq_eraseIdx, hidx]
        exact ⟨wp, rfl, hmem, by rw [← h, herase]⟩

end

/-- The loop of `retireExcessWorkers`; every round that goes on takes an idle slot. -/
def retireExcessLoop (pool : PoolID) : Nat → Engine → Engine
  | 0, e => e
  | fuel + 1, e =>
    match e.pools.lookup pool with
    | none => e
    | some wp =>
      match wp.idleSlots.getLast? with
      | none => e
      | some slot =>
        if wp.concurrency < runningCount wp.running then
          match e.retireWorker pool slot with
          | (false, e) => e
          | (true, e) => retireExcessLoop pool fuel e
        else e

def retireExcessWorkers : Engine :=
  retireExcessLoop pool (e.idleSlots pool).length e

/-- The inner loop of `sweepIdleWorkers`, from index `i - 1` down; `running` is the count it keeps. -/
def sweepIdleLoop (now : Time) (pool : PoolID) (minWorkers : Int) (idleTimeout : Duration) :
    Nat → Int → Engine → Engine
  | 0, _, e => e
  | i + 1, running, e =>
    if running ≤ minWorkers then e
    else
      match e.pools.lookup pool with
      | none => e
      | some wp =>
        match wp.idleSlots[i]? with
        | none => e
        | some slot =>
          let idleSince := wp.idleSince.getD slot 0
          if idleSince ≠ 0 ∧ idleTimeout ≤ timeSub now idleSince then
            match e.retireWorker pool slot with
            | (false, e) => sweepIdleLoop now pool minWorkers idleTimeout i running e
            | (true, e) => sweepIdleLoop now pool minWorkers idleTimeout i (running - 1) e
          else sweepIdleLoop now pool minWorkers idleTimeout i running e

def sweepIdlePool (now : Time) (e : Engine) (pool : PoolID) : Engine :=
  match e.pools.lookup pool with
  | none => e
  | some wp =>
    let idleTimeout := if wp.idleTimeout ≤ 0 then defaultIdleTimeout else wp.idleTimeout
    sweepIdleLoop now pool wp.minWorkers idleTimeout wp.idleSlots.length (runningCount wp.running) e

def sweepIdleWorkers (now : Time) : Engine :=
  (e.poolIDs env).foldl (sweepIdlePool now) e.tick

/-! ### Resources -/

def resourcesAvailable (spec : WorkSpec) : Bool :=
  spec.resources.all fun requirement =>
    !decide (e.resourceCapacity.getD requirement.name 0 <
      e.resourceUsed.getD requirement.name 0 + requirement.amount)

/-- One round of `reserveResources`. -/
def reserveOne (used : AList fun _ : GoString => Int64) (requirement : ResourceRequirement) :
    AList fun _ : GoString => Int64 :=
  used.insert requirement.name (used.getD requirement.name 0 + requirement.amount)

def reserveResources (spec : WorkSpec) : Engine :=
  { e with resourceUsed := spec.resources.foldl reserveOne e.resourceUsed }

/-- One round of `releaseResources`: what is used up is dropped. -/
def releaseOne (used : AList fun _ : GoString => Int64) (requirement : ResourceRequirement) :
    AList fun _ : GoString => Int64 :=
  let left := used.getD requirement.name 0 - requirement.amount
  if left ≤ 0 then used.erase requirement.name else used.insert requirement.name left

def releaseResources (spec : WorkSpec) : Engine :=
  { e with resourceUsed := spec.resources.foldl releaseOne e.resourceUsed }

/-! ### Dispatch -/

/-- A send blocks on a nil channel, and on a mailbox whose one place is taken. -/
def sendBlocks : Option ChanID → Bool
  | none => true
  | some ch => !(e.mail.getD ch []).isEmpty

def sendAssignment (box : Option ChanID) (assignment : Assignment) : Engine :=
  { e with
    mail :=
      match box with
      | none => e.mail
      | some ch => e.mail.insert ch (e.mail.getD ch [] ++ [assignment])
    faults := { e.faults with mailboxBlocked := e.faults.mailboxBlocked || e.sendBlocks box } }

/-- The body of the dispatch loop: the slot at the head of the idle list takes the record. -/
def assign (wp : WorkerPool) (slot : Nat) (idle : List Nat)
    (rec : TaskRecord) (candidate : Admission.QueueEntry) : Engine :=
  let epoch := e.dispatchEpoch + 1
  let permit : Permit := ⟨e.nextPermit, pool, rec.spec.id, epoch⟩
  let e :=
    { e.setPool pool { wp with idleSlots := idle, idleSince := wp.idleSince.set slot 0 } with
      dispatchEpoch := epoch
      nextPermit := e.nextPermit + 1
      registry := e.registry.insert candidate.spec.id
        { rec with permit := some permit, dispatchEpoch := epoch, state := .dispatching } }
  (e.reserveResources rec.spec).sendAssignment (wp.mailboxes.getD slot none) ⟨candidate.spec, permit⟩

/-- The loop of `tryDispatch`; a round that goes on takes an entry out of the backlog. -/
def dispatchLoop (env : Env) (pool : PoolID) : Nat → Engine → Engine
  | 0, e => e
  | fuel + 1, e =>
    match e.pools.lookup pool with
    | none => e
    | some wp =>
      match wp.idleSlots with
      | [] => e
      | slot :: idle =>
        let selection := e.adm.selectCandidateEligible pool env.clock e.resourcesAvailable e.obs
        let e := { e with adm := selection.controller, obs := selection.tick }
        match selection.candidate with
        | none => e
        | some candidate =>
          match e.registry.lookup candidate.spec.id with
          | none =>
            dispatchLoop env pool fuel { e with faults := { e.faults with staleCandidate := true } }
          | some rec =>
            if rec.state = .queued then
              dispatchLoop env pool fuel (e.assign pool wp slot idle rec candidate)
            else
              dispatchLoop env pool fuel { e with faults := { e.faults with staleCandidate := true } }

/-- `tryDispatch` before and after its loop: work waits and no slot is idle. -/
def spawnIfStarved : Engine :=
  if 0 < (e.adm.poolStats pool).1 ∧ e.idleSlots pool = [] then (e.spawnNextWorker env pool).2 else e

def tryDispatch : Engine :=
  if e.rootGone env then e
  else
    let e := e.tick.sweepExpired env pool (env.clock e.obs)
    let e := e.spawnIfStarved env pool
    let e := dispatchLoop env pool (e.adm.backlog pool + 1) e
    e.spawnIfStarved env pool

/-- `for pool := range e.config.Pools { e.tryDispatch(pool) }`. -/
def tryDispatchAll : Engine := (e.poolIDs env).foldl (tryDispatch env) e.tick

def markWorkerIdle (slotID : Int) : Engine :=
  let slot := slotID.toNat
  match e.pools.lookup pool with
  | none => e
  | some wp =>
    if slotID < 0 ∨ wp.running[slot]? ≠ some true then e
    else
      let wp := { wp with idleSince := wp.idleSince.set slot (env.clock e.obs) }
      let e := e.tick
      if slot ∈ wp.idleSlots then e.setPool pool wp
      else
        let e := e.setPool pool { wp with idleSlots := wp.idleSlots ++ [slot] }
        (e.retireExcessWorkers pool).tryDispatchAll env

/-! ### Live reconfiguration -/

/-- The errors of `applyPoolConfig` and `applyResourceCapacity`. -/
inductive LiveConfigError where
  | unknownPool (pool : PoolID)
  | invalidBounds
  | negativeIdleTimeout
  | negativeBacklog
  | negativeBudget
  | poolNotConfigured
  | invalidCapacity
  | capacityInUse (name : GoString) (used : Int64)
  deriving DecidableEq

/-- The closing loop of `applyPoolConfig`; every round that goes on starts a slot. -/
def spawnMinimum (env : Env) (pool : PoolID) (minimum : Int) : Nat → Engine → Engine
  | 0, e => e
  | fuel + 1, e =>
    match e.pools.lookup pool with
    | none => e
    | some wp =>
      if runningCount wp.running < minimum then
        match e.spawnNextWorker env pool with
        | (false, e) => e
        | (true, e) => spawnMinimum env pool minimum fuel e
      else e

/-- `applyPoolConfig`, with the error that left the engine unchanged. -/
def applyPoolConfig (cfg : PoolEngineConfig) : Engine × Option LiveConfigError :=
  match e.pools.lookup pool with
  | none => (e, some (.unknownPool pool))
  | some wp =>
    let hardMax := wp.mailboxes.length
    if hardMax = 0 then (e, some (.unknownPool pool))
    else if cfg.concurrency ≤ 0 ∨ hardMax < cfg.concurrency ∨ cfg.minConcurrency < 0 ∨
        cfg.concurrency < cfg.minConcurrency then (e, some .invalidBounds)
    else if cfg.idleTimeout < 0 then (e, some .negativeIdleTimeout)
    else if cfg.backlogLimit < 0 then (e, some .negativeBacklog)
    else if cfg.payloadBudget < 0 then (e, some .negativeBudget)
    else
      let cfg := { cfg with
        minConcurrency := effectivePoolMinimum cfg cfg.concurrency
        idleTimeout := if cfg.idleTimeout = 0 then wp.idleTimeout else cfg.idleTimeout }
      match e.adm.setPoolConfig pool ⟨cfg.backlogLimit, cfg.payloadBudget⟩ with
      | .error _ => (e, some .poolNotConfigured)
      | .ok adm =>
        let e := { e with adm := adm }.setPool pool
          { wp with
            config := cfg
            concurrency := cfg.concurrency
            minWorkers := cfg.minConcurrency
            idleTimeout := cfg.idleTimeout }
        let e := e.retireExcessWorkers pool
        let e := e.tick.sweepIdleWorkers env (env.clock e.obs)
        (spawnMinimum env pool cfg.minConcurrency wp.running.length e, none)

def applyResourceCapacity (name : GoString) (capacity : Int64) : Engine × Option LiveConfigError :=
  if name = [] ∨ capacity ≤ 0 then (e, some .invalidCapacity)
  else
    let used := e.resourceUsed.getD name 0
    if capacity < used then (e, some (.capacityInUse name used))
    else
      ({ e with resourceCapacity := e.resourceCapacity.insert name capacity }.tryDispatchAll env, none)

end Engine

end Goultroid
