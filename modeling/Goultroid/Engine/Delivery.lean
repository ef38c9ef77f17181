import Goultroid.Tasks.Types

/-!
# The completion-callback lane

`internal/taskengine/delivery.go`: callback credits reserved at admission, the bounded queue of
callbacks, and its workers. The coordinator calls `reserve`, `releaseReservation` and
`enqueueReserved`; the steps of the lane's own workers (`LaneStep`) can fall between any two of them.
How many worker goroutines the lane keeps is left out: a worker step needs a queued or a running
callback, not a particular worker. The lane logs the acceptances whose callback it calls or refuses.
-/

namespace Goultroid

structure DeliveryItem where
  /-- the acceptance whose callback it is; only the log reads it -/
  seq : Nat
  fn : Closure
  res : TaskResult
  deriving DecidableEq

structure Delivery where
  queueCap : Nat
  queue : List DeliveryItem := []
  /-- callbacks a worker has taken off the queue and not returned from -/
  executing : List DeliveryItem := []
  reservations : Nat := 0
  pending : Int := 0
  active : Int := 0
  failed : Int := 0
  stopping : Bool := false
  drained : Bool := true
  /-- acceptances whose callback a worker has called -/
  invoked : List Nat := []
  /-- acceptances whose callback was not queued -/
  refused : List Nat := []
  /-- a reserved callback found the queue full -/
  overflowed : Bool := false
  /-- a release found no reservation -/
  unmatched : Bool := false
  deriving DecidableEq

namespace Delivery

variable (d : Delivery)

/-- `reserve`: the credit, if one is left, and whether it was taken. -/
def reserve : Bool × Delivery :=
  if d.stopping then (false, d)
  else if d.reservations < d.queueCap then (true, { d with reservations := d.reservations + 1 })
  else (false, d)

def releaseReservation : Delivery :=
  if 0 < d.reservations then { d with reservations := d.reservations - 1 }
  else { d with failed := d.failed + 1, unmatched := true }

def markBusy : Delivery := { d with drained := false }

def signalDrained : Delivery :=
  if d.pending ≠ 0 ∨ d.active ≠ 0 ∨ d.queue ≠ [] then d else { d with drained := true }

/-- `enqueueReserved` for a callback that is not nil. -/
def enqueueReserved (seq : Nat) (fn : Closure) (res : TaskResult) : Delivery :=
  if d.stopping then { d with failed := d.failed + 1, refused := d.refused ++ [seq] }.releaseReservation
  else
    let d := { d.markBusy with pending := d.pending + 1 }
    if d.queue.length < d.queueCap then { d with queue := d.queue ++ [⟨seq, fn, res⟩] }
    else
      ({ d with
        pending := d.pending - 1
        failed := d.failed + 1
        refused := d.refused ++ [seq]
        overflowed := true }.releaseReservation).signalDrained

end Delivery

/-- What the lane's workers and `stop` do on their own. -/
inductive LaneStep where
  | take
  | finish (index : Nat)
  | stop
  deriving DecidableEq

def Delivery.step (d : Delivery) : LaneStep → Delivery
  | .take =>
    match d.queue with
    | [] => d
    | item :: rest =>
      { d with
        queue := rest
        executing := d.executing ++ [item]
        invoked := d.invoked ++ [item.seq]
        active := d.active + 1
        pending := d.pending - 1 }
  | .finish index =>
    if index < d.executing.length then
      ({ d with executing := d.executing.eraseIdx index, active := d.active - 1 }.releaseReservation).signalDrained
    else d
  | .stop => { d with stopping := true }

def Delivery.run (d : Delivery) (steps : List LaneStep) : Delivery := steps.foldl Delivery.step d

/-- The lane runs on while the coordinator takes and returns credits, and `k` of them are out. -/
inductive Delivery.Lends (d : Delivery) : Nat → Delivery → Prop where
  | refl : Lends d 0 d
  | run {k d'} (steps : List LaneStep) : Lends d k d' → Lends d k (d'.run steps)
  | reserve {k d'} : Lends d k d' → d'.reserve.1 = true → Lends d (k + 1) d'.reserve.2
  | release {k d'} : Lends d (k + 1) d' → Lends d k d'.releaseReservation

theorem Delivery.reserve_refused {d : Delivery} (h : d.reserve.1 = false) : d.reserve.2 = d := by
  unfold Delivery.reserve at h ⊢
  split_ifs at h ⊢ <;> rfl

end Goultroid
