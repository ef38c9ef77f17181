import Goultroid.Admission.Select
import Goultroid.Engine.Requests
import Mathlib.Data.Finset.Erase
import Mathlib.Data.Finset.Insert
import Mathlib.Logic.Relation

/-!
# What the coordinator can do to its state

Every request is a sequence of `Micro` steps, one for each kind of change the source makes: a record
is published, leaves its queue, is assigned, starts, releases its attempt, settles, waits for its
commit, is evicted; a slot is started, retired, returned; a limit is changed. Invariants of the
coordinator are proved once over the constructors of `Micro`.

Between leaving one place (a queue, a worker, the pending commits) and being stored in the next, a
record is `detached`: the source holds it in a local variable while the registry still shows its old
state. Between requests nothing is detached.

An `Allowance` bounds what a sequence of steps may do, so that a result about one request can say
which records it creates, which entries leave their queue undispatched and which slots it frees.
-/

namespace Goultroid

open Admission (Controller QueueEntry)

variable {D : Finset TaskID} {id : TaskID} {r : TaskRecord}

/-- An engine in the middle of a request, with the records that are on their way between places. -/
structure Stage where
  engine : Engine
  detached : Finset TaskID

/-- The entry that `publish` files for a record. -/
def entryOf (r : TaskRecord) : QueueEntry := ⟨r.spec, r.queuedAt, admissionBytes r.spec⟩

/-- Where a record counts: in the place its state names, or nowhere while it is detached. -/
def place (detached : Finset TaskID) (id : TaskID) (r : TaskRecord) : Option TaskState :=
  if id ∈ detached then none else some r.state

theorem place_congr {D' : Finset TaskID} (h : id ∈ D' ↔ id ∈ D) : place D' id r = place D id r := by
  simp [place, h]

theorem place_of_mem (h : id ∈ D) : place D id r = none := if_pos h

theorem place_of_notMem (h : id ∉ D) : place D id r = some r.state := if_neg h

/-- A controller with the same content and the same owner and ordering state. -/
structure SameContent (c c' : Controller) : Prop where
  wf : c'.Wf 0
  waiting : c'.waiting = c.waiting
  frame : Controller.Trims c c'

/-- What `settleTerminal` is called with, for a record loaded as `r`: the spec and the identity are
those of `r`, the state is terminal, a record with a `Commit` that has left its queue carries evidence
of its commit or asks for recovery, and the record is charged `delta` more bytes. -/
structure Concludes (r rec : TaskRecord) (delta : Int) : Prop where
  spec : rec.spec = r.spec
  seq : rec.commitSeq = r.commitSeq
  done : rec.done = r.done
  callback : rec.callbackReserved = r.callbackReserved
  retained : rec.retainedBytes = r.retainedBytes + delta
  terminal : rec.isTerminal = true
  durability : r.state = .queued → rec.durability = r.durability
  evidence : r.spec.requiresDurability = true → r.state ≠ .queued →
    rec.durability = .committed ∨ rec.state = .recoveryRequired
  charge : 0 ≤ delta

/-- What `beginCommit` stores for a record loaded as `r`. -/
structure Awaits (r rec : TaskRecord) (delta : Int) : Prop where
  spec : rec.spec = r.spec
  seq : rec.commitSeq = r.commitSeq
  done : rec.done = r.done
  callback : rec.callbackReserved = r.callbackReserved
  retained : rec.retainedBytes = r.retainedBytes + delta
  state : rec.state = .commitPending
  durability : rec.durability = .pending
  durable : r.spec.requiresDurability = true
  charge : 0 ≤ delta

/-- A selection of the admission controller that found `candidate` at one of the clock readings up to
`tick`: the first of its queue that was dispatchable then. -/
structure Picks (env : Env) (e : Engine) (tick : Nat) (pool : PoolID) (candidate : QueueEntry)
    (adm : Controller) : Prop where
  took : Controller.Took e.adm candidate adm
  pool : candidate.spec.pool = pool
  unsaturated : e.adm.ownerSaturated candidate.spec.quotaOwner = false
  dispatchable : ∃ t, e.obs ≤ t ∧ t < tick ∧
    e.adm.dispatchable (env.clock t) e.resourcesAvailable candidate = true ∧
    ∀ entry, e.adm.Precedes entry candidate →
      e.adm.dispatchable (env.clock t) e.resourcesAvailable entry = false

/-- The checks of `admitSubmit` that concern the state of the engine. -/
structure Admissible (e : Engine) (spec : WorkSpec) : Prop where
  accepting : e.accepting = true
  fresh : e.registry.lookup spec.id = none
  cls : spec.cls ≠ .unset
  resources : ResourcesValid spec.resources
  satisfiable : ∀ requirement ∈ spec.resources, ∃ capacity,
    e.resourceCapacity.lookup requirement.name = some capacity ∧ requirement.amount ≤ capacity
  credit : 0 < e.resultCapacity → e.resultSlotsHeld < e.resultCapacity
  pool : ∃ ps, e.adm.pools.lookup spec.pool = some ps
  budget : 0 < e.maxRetainedBytes → e.retainedBytes + retainedCharge spec ≤ e.maxRetainedBytes

/-- `closeRecord` with the bookkeeping of `onTaskSettled` before eviction. -/
def Engine.settleRecord (env : Env) (e : Engine) (rec : TaskRecord) (delta : Int) : Engine :=
  { Engine.closeRecord env { e with retainedBytes := e.retainedBytes + delta } rec with
    activeTasks := e.activeTasks - 1
    terminalOrder := e.terminalOrder ++ [rec.spec.id] }

/-- `beginCommit` before it hands the commit to a transport. -/
def Engine.pendRecord (e : Engine) (rec : TaskRecord) (delta : Int) : Engine :=
  { e with
    retainedBytes := e.retainedBytes + delta
    registry := e.registry.insert rec.spec.id rec
    commitPending := e.commitPending + 1 }

/-- A pending commit is resolved: its waiter and its place in the count go. -/
def Engine.unpend (e : Engine) (seq : Nat) : Engine :=
  { e.releaseCommitWaiter seq with commitPending := e.commitPending - 1 }

/-- What a sequence of steps may do: publish a spec, take and return callback credits, set a resource
capacity, let a waiting entry leave its queue undispatched after so many readings, release the attempt
that holds a permit, start a worker of a pool, return a slot to idle. -/
structure Allowance where
  admits : WorkSpec → Prop
  reserve : Prop
  resize : GoString → Int64 → Prop
  leave : Nat → QueueEntry → Prop
  release : Option Permit → Prop
  spawn : PoolID → Prop
  idle : PoolID → Nat → Prop

/-- What `Start` does: it only starts workers. -/
def Allowance.starting : Allowance where
  admits _ := False
  reserve := False
  resize _ _ := False
  leave _ _ := False
  release _ := False
  spawn _ := True
  idle _ _ := False

inductive Micro (env : Env) (al : Allowance) : Stage → Stage → Prop where
  | observe {e D} (n : Nat) : e.obs ≤ n → Micro env al ⟨e, D⟩ ⟨{ e with obs := n }, D⟩
  | reserve {e D} (d : Delivery) : al.reserve → Micro env al ⟨e, D⟩ ⟨{ e with delivery := d }, D⟩
  | scopes {e D} (scopes : AList fun _ : ScopeIdentity => Cause) (order : List ScopeIdentity) :
    Micro env al ⟨e, D⟩ ⟨{ e with cancelledScopes := scopes, cancelledScopeOrder := order }, D⟩
  | regroup {e D} (adm : Controller) : SameContent e.adm adm →
    Micro env al ⟨e, D⟩ ⟨{ e with adm := adm }, D⟩
  | quiesce {e D} : Micro env al ⟨e, D⟩ ⟨{ e with accepting := false, quiesced := true }, D⟩
  | drain {e D} : Micro env al ⟨e, D⟩ ⟨e.checkDrained, D⟩
  | capacity {e D} (name : GoString) (capacity : Int64) : al.resize name capacity → 0 < capacity →
    e.resourceUsed.getD name 0 ≤ capacity →
    Micro env al ⟨e, D⟩ ⟨{ e with resourceCapacity := e.resourceCapacity.insert name capacity }, D⟩
  | publish {e D} (spec : WorkSpec) (reserved : Bool) (now : Time) : al.admits spec → Admissible e spec →
    Micro env al ⟨e, D⟩ ⟨e.publish spec reserved now, D⟩
  | unqueue {e D id r} (adm : Controller) : e.registry.lookup id = some r → r.state = .queued →
    id ∉ D → al.leave e.obs (entryOf r) → adm.Wf 0 → e.adm.waiting = entryOf r ::ₘ adm.waiting →
    Controller.Trims e.adm adm → Micro env al ⟨e, D⟩ ⟨{ e with adm := adm }, insert id D⟩
  | assign {e D wp slot tick idle r pool candidate} (adm : Controller) :
    e.pools.lookup pool = some wp → wp.idleSlots = slot :: idle → Picks env e tick pool candidate adm →
    e.registry.lookup candidate.spec.id = some r → r.state = .queued → candidate.spec.id ∉ D →
    entryOf r = candidate →
    Micro env al ⟨e, D⟩
      ⟨Engine.assign { e with adm := adm, obs := tick } pool wp slot idle r candidate, D⟩
  | started {e D id r} (startedAt : Time) : e.registry.lookup id = some r → r.state = .dispatching →
    id ∉ D → Micro env al ⟨e, D⟩
      ⟨e.setRecord id { r with state := .running, startedAt := startedAt }, D⟩
  | markCancel {e D id r} (reason : Cause) : e.registry.lookup id = some r → r.state.isActive = true →
    Micro env al ⟨e, D⟩ ⟨e.setRecord id { r with cancelRequested := true, cancelReason := reason }, D⟩
  | release {e D id r} : e.registry.lookup id = some r → r.state.isActive = true → id ∉ D →
    al.release r.permit → Micro env al ⟨e, D⟩ ⟨e.releaseAttempt r.spec, insert id D⟩
  | unpend {e D id r} : e.registry.lookup id = some r → r.state = .commitPending → id ∉ D →
    Micro env al ⟨e, D⟩ ⟨e.unpend r.commitSeq, insert id D⟩
  | settle {e D id r} (rec : TaskRecord) (delta : Int) : e.registry.lookup id = some r → id ∈ D →
    Concludes r rec delta → Micro env al ⟨e, D⟩ ⟨e.settleRecord env rec delta, D.erase id⟩
  | pend {e D id r} (rec : TaskRecord) (delta : Int) : e.registry.lookup id = some r → id ∈ D →
    r.state.isActive = true → Awaits r rec delta →
    Micro env al ⟨e, D⟩ ⟨e.pendRecord rec delta, D.erase id⟩
  | await {e D id r} : e.registry.lookup id = some r → r.state = .commitPending → id ∉ D →
    Micro env al ⟨e, D⟩ ⟨{ e with commitWaiters := e.commitWaiters.insert r.commitSeq () }, D⟩
  | evict {e D} (oldest : TaskID) (rest : List TaskID) : e.terminalOrder = oldest :: rest →
    Micro env al ⟨e, D⟩ ⟨e.evictOldest oldest rest, D⟩
  | touch {e D pool wp} (idleSince : List Time) : e.pools.lookup pool = some wp →
    Micro env al ⟨e, D⟩ ⟨e.setPool pool { wp with idleSince := idleSince }, D⟩
  | configure {e D pool wp} (cfg : PoolEngineConfig) (concurrency minWorkers : Int)
    (idleTimeout : Duration) : e.pools.lookup pool = some wp → 0 < concurrency →
    concurrency ≤ wp.mailboxes.length → 0 ≤ minWorkers → minWorkers ≤ concurrency →
    Micro env al ⟨e, D⟩ ⟨e.setPool pool { wp with
      config := cfg, concurrency := concurrency, minWorkers := minWorkers, idleTimeout := idleTimeout }, D⟩
  | spawn {e D e' pool wp slot} : e.pools.lookup pool = some wp → al.spawn pool →
    e.spawnWorker env pool slot = some e' → Micro env al ⟨e, D⟩ ⟨e'.pushIdle pool slot, D⟩
  | retire {e D e' pool slot} : e.retireWorker pool slot = (true, e') → Micro env al ⟨e, D⟩ ⟨e', D⟩
  | markIdle {e D pool wp slot} (idleSince : List Time) : e.pools.lookup pool = some wp →
    wp.running[slot]? = some true → slot ∉ wp.idleSlots → al.idle pool slot →
    Micro env al ⟨e, D⟩ ⟨e.setPool pool { wp with
      idleSince := idleSince, idleSlots := wp.idleSlots ++ [slot] }, D⟩

abbrev Steps (env : Env) (al : Allowance) : Stage → Stage → Prop :=
  Relation.ReflTransGen (Micro env al)

namespace Steps

variable {env : Env} {al : Allowance} {s s' s'' : Stage}

theorem refl (s : Stage) : Steps env al s s := Relation.ReflTransGen.refl

theorem one (h : Micro env al s s') : Steps env al s s' := Relation.ReflTransGen.single h

theorem trans (h : Steps env al s s') (h' : Steps env al s' s'') : Steps env al s s'' :=
  Relation.ReflTransGen.trans h h'

theorem tail (h : Steps env al s s') (h' : Micro env al s' s'') : Steps env al s s'' :=
  Relation.ReflTransGen.tail h h'

theorem invariant {P : Stage → Prop} (hstep : ∀ s s', Micro env al s s' → P s → P s') (h : Steps env al s s') (hs : P s) : P s' := by
  induction h with
  | refl => exact hs
  | tail _ step ih => exact hstep _ _ step ih

end Steps

end Goultroid
