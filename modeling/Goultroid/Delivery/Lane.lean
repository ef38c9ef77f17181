import Goultroid.Lib.Threads

/-!
# The goroutines of the completion-callback lane

`internal/taskengine/delivery.go` once more, now with everything that can interleave: the calls of
`reserve`, `enqueueReserved`, `drain` and `stop` and the worker loops are threads, and every atomic
counter operation, channel operation and lock is a step of its own. What is done under `drainMu` to the
fields it protects is one step; the loads that `signalDrained` makes under it are not, as nothing keeps
the counters from moving between them.
-/

namespace Goultroid.Lane

open Threads (Program Pool)

/-- The fields of `completionDelivery`. A callback is named by the thread that enqueues it. -/
structure Shared where
  queueCap : Nat
  workers : Int
  queue : List Nat := []
  reservations : Nat := 0
  pending : Int := 0
  active : Int := 0
  failed : Int := 0
  remaining : Int := 0
  stopping : Bool := false
  /-- `stopCh` is closed -/
  stopped : Bool := false
  /-- `done` is closed -/
  done : Bool := false
  workerMu : Bool := false
  drainMu : Bool := false
  drained : Bool := true
  /-- how often `drainCh` was replaced: all but the last channel are closed, and the last if `drained` -/
  generation : Nat := 0
  /-- the callbacks that have returned -/
  finished : List Nat := []
  deriving DecidableEq

def defaultDeliveryConcurrency : Int := 4

def newCompletionDelivery (workers queueCap : Int) : Shared where
  workers := if workers ≤ 0 then defaultDeliveryConcurrency else workers
  queueCap := if queueCap ≤ 0 then 256 else queueCap.toNat

namespace Shared

variable (s : Shared)

def releaseReservation : Shared :=
  if 0 < s.reservations then { s with reservations := s.reservations - 1 }
  else { s with failed := s.failed + 1 }

def markBusy : Shared :=
  if s.drained then { s with drained := false, generation := s.generation + 1 } else s

/-- The channel of generation `g` is closed. -/
def isClosed (g : Nat) : Bool := decide (g < s.generation) || s.drained

end Shared

/-! ### Parts that more than one thread runs -/

/-- Where `signalDrained` is: the loads before the lock, the lock, the loads under it, the close. -/
inductive SignalPc where
  | pending
  | active
  | queue
  | lock
  | pendingLocked
  | activeLocked
  | queueLocked
  | close
  deriving DecidableEq

/-- A step of `signalDrained`: blocked, at another place, or returned. -/
def signalDrained (s : Shared) : SignalPc → Option (Shared × Option SignalPc)
  | .pending => some (s, if s.pending ≠ 0 then none else some .active)
  | .active => some (s, if s.active ≠ 0 then none else some .queue)
  | .queue => some (s, if s.queue ≠ [] then none else some .lock)
  | .lock =>
    if s.drainMu then none
    else if s.drained then some (s, none)
    else some ({ s with drainMu := true }, some .pendingLocked)
  | .pendingLocked =>
    some (if s.pending ≠ 0 then ({ s with drainMu := false }, none) else (s, some .activeLocked))
  | .activeLocked =>
    some (if s.active ≠ 0 then ({ s with drainMu := false }, none) else (s, some .queueLocked))
  | .queueLocked =>
    some (if s.queue ≠ [] then ({ s with drainMu := false }, none) else (s, some .close))
  | .close => some ({ s with drained := true, drainMu := false }, none)

/-- Where `ensureWorkersLocked` is. -/
inductive EnsurePc where
  | stopping
  | active
  | pending (active : Int)
  | remaining (target : Int)
  | add (running target : Int)
  | go (running target : Int)
  deriving DecidableEq

/-- `target`, from the two counters. -/
def workerTarget (workers wanted : Int) : Int :=
  let target := if wanted < 1 then 1 else wanted
  if workers < target then workers else target

/-- A step of `ensureWorkersLocked`, and whether it starts a worker. -/
def ensureWorkersLocked (s : Shared) : EnsurePc → Shared × Option EnsurePc × Bool
  | .stopping => (s, if s.stopping then none else some .active, false)
  | .active => (s, some (.pending s.active), false)
  | .pending active => (s, some (.remaining (workerTarget s.workers (active + s.pending))), false)
  | .remaining target => (s, some (.add s.remaining target), false)
  | .add running target =>
    if running < target then
      ({ s with remaining := s.remaining + 1 }, some (.go (running + 1) target), false)
    else (s, none, false)
  | .go running target => (s, some (.add running target), true)

/-! ### The threads -/

inductive ReservePc where
  | lock
  | stopping
  | send
  | unlock (ok : Bool)
  | returned (ok : Bool)
  deriving DecidableEq

def reserve (s : Shared) : ReservePc → Option (Shared × ReservePc)
  | .lock => if s.workerMu then none else some ({ s with workerMu := true }, .stopping)
  | .stopping => some (s, if s.stopping then .unlock false else .send)
  | .send =>
    some (if s.reservations < s.queueCap then ({ s with reservations := s.reservations + 1 }, .unlock true)
      else (s, .unlock false))
  | .unlock ok => some ({ s with workerMu := false }, .returned ok)
  | .returned _ => none

inductive EnqueuePc where
  | lock
  | stopping
  | stopFailed
  | stopRelease
  | markBusy
  | incPending
  | send
  | ensure (pc : EnsurePc)
  | decPending
  | fullFailed
  | fullRelease
  | signal (pc : SignalPc)
  | unlock (ok : Bool)
  | returned (ok : Bool)
  deriving DecidableEq

/-- A step of thread `i` in `enqueueReserved`. -/
def enqueueReserved (i : Nat) (s : Shared) : EnqueuePc → Option (Shared × EnqueuePc × Bool)
  | .lock => if s.workerMu then none else some ({ s with workerMu := true }, .stopping, false)
  | .stopping => some (s, if s.stopping then .stopFailed else .markBusy, false)
  | .stopFailed => some ({ s with failed := s.failed + 1 }, .stopRelease, false)
  | .stopRelease => some (s.releaseReservation, .unlock false, false)
  | .markBusy => if s.drainMu then none else some (s.markBusy, .incPending, false)
  | .incPending => some ({ s with pending := s.pending + 1 }, .send, false)
  | .send =>
    some (if s.queue.length < s.queueCap then ({ s with queue := s.queue ++ [i] }, .ensure .stopping, false)
      else (s, .decPending, false))
  | .ensure pc =>
    match ensureWorkersLocked s pc with
    | (s, some pc, go) => some (s, .ensure pc, go)
    | (s, none, go) => some (s, .unlock true, go)
  | .decPending => some ({ s with pending := s.pending - 1 }, .fullFailed, false)
  | .fullFailed => some ({ s with failed := s.failed + 1 }, .fullRelease, false)
  | .fullRelease => some (s.releaseReservation, .signal .pending, false)
  | .signal pc =>
    match signalDrained s pc with
    | none => none
    | some (s, some pc) => some (s, .signal pc, false)
    | some (s, none) => some (s, .unlock false, false)
  | .unlock ok => some ({ s with workerMu := false }, .returned ok, false)
  | .returned _ => none

/-- What a `select` takes when more than one case is ready. -/
inductive Choice where
  | next
  | stop
  | timer
  | cancel
  deriving DecidableEq

inductive WorkerPc where
  | select
  | incActive (item : Nat)
  | decPending (item : Nat)
  | call (item : Nat)
  | decActive (item : Nat)
  | release (item : Nat)
  | signal (pc : SignalPc)
  | timer
  | decRemaining
  | stopping (remaining : Int)
  | pending
  | ensureLock
  | ensure (pc : EnsurePc)
  | ensureUnlock
  | exited
  deriving DecidableEq

/-- A step of a worker: `loop`, and `workerDone` from `decRemaining` on. A callback that panics returns
like any other. -/
def loop (choice : Choice) (s : Shared) : WorkerPc → Option (Shared × WorkerPc × Bool)
  | .select =>
    match choice with
    | .next =>
      match s.queue with
      | [] => none
      | item :: rest => some ({ s with queue := rest }, .incActive item, false)
    | .stop => if s.stopped then some (s, .decRemaining, false) else none
    | .timer => some (s, .timer, false)
    | .cancel => none
  | .incActive item => some ({ s with active := s.active + 1 }, .decPending item, false)
  | .decPending item => some ({ s with pending := s.pending - 1 }, .call item, false)
  | .call item => some ({ s with finished := s.finished ++ [item] }, .decActive item, false)
  | .decActive item => some ({ s with active := s.active - 1 }, .release item, false)
  | .release _ => some (s.releaseReservation, .signal .pending, false)
  | .signal pc =>
    match signalDrained s pc with
    | none => none
    | some (s, some pc) => some (s, .signal pc, false)
    | some (s, none) => some (s, .select, false)
  | .timer => some (s, if s.pending = 0 then .decRemaining else .select, false)
  | .decRemaining => some ({ s with remaining := s.remaining - 1 }, .stopping (s.remaining - 1), false)
  | .stopping remaining =>
    some (if s.stopping then ({ s with done := s.done || decide (remaining = 0) }, .exited, false)
      else (s, .pending, false))
  | .pending => some (s, if 0 < s.pending then .ensureLock else .exited, false)
  | .ensureLock => if s.workerMu then none else some ({ s with workerMu := true }, .ensure .stopping, false)
  | .ensure pc =>
    match ensureWorkersLocked s pc with
    | (s, some pc, go) => some (s, .ensure pc, go)
    | (s, none, go) => some (s, .ensureUnlock, go)
  | .ensureUnlock => some ({ s with workerMu := false }, .exited, false)
  | .exited => none

inductive DrainPc where
  | read
  | wait (generation : Nat)
  | returned (ok : Bool)
  deriving DecidableEq

/-- A step of `drain`. -/
def drain (choice : Choice) (s : Shared) : DrainPc → Option (Shared × DrainPc)
  | .read =>
    if s.drainMu then none else some (s, if s.drained then .returned true else .wait s.generation)
  | .wait generation =>
    match choice with
    | .cancel => some (s, .returned false)
    | _ => if s.isClosed generation then some (s, .read) else none
  | .returned _ => none

inductive StopPc where
  | lock
  | store
  | close
  | remaining
  | unlock
  | wait
  | returned (ok : Bool)
  deriving DecidableEq

/-- A step of `stop`. -/
def stop (choice : Choice) (s : Shared) : StopPc → Option (Shared × StopPc)
  | .lock => if s.workerMu then none else some ({ s with workerMu := true }, .store)
  | .store => some ({ s with stopping := true }, .close)
  | .close => some ({ s with stopped := true }, .remaining)
  | .remaining => some ({ s with done := s.done || decide (s.remaining = 0) }, .unlock)
  | .unlock => some ({ s with workerMu := false }, .wait)
  | .wait =>
    match choice with
    | .cancel => some (s, .returned false)
    | _ => if s.done then some (s, .returned true) else none
  | .returned _ => none

inductive Thread where
  | reserve (pc : ReservePc)
  | enqueue (pc : EnqueuePc)
  | worker (pc : WorkerPc)
  | drain (pc : DrainPc)
  | stop (pc : StopPc)
  deriving DecidableEq

def entry (t : Thread) : Bool :=
  t = .reserve .lock || t = .enqueue .lock || t = .drain .read || t = .stop .lock

def started (go : Bool) : List Thread := if go then [.worker .select] else []

def program : Program Shared Thread Choice := fun i choice s t =>
  match t with
  | .reserve pc => (reserve s pc).map fun next => (next.1, .reserve next.2, [])
  | .enqueue pc => (enqueueReserved i s pc).map fun next => (next.1, .enqueue next.2.1, started next.2.2)
  | .worker pc => (loop choice s pc).map fun next => (next.1, .worker next.2.1, started next.2.2)
  | .drain pc => (drain choice s pc).map fun next => (next.1, .drain next.2, [])
  | .stop pc => (stop choice s pc).map fun next => (next.1, .stop next.2, [])

def init (workers queueCap : Int) : Pool Shared Thread := ⟨newCompletionDelivery workers queueCap, []⟩

end Goultroid.Lane
