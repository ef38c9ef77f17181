import Goultroid.Lib.Threads
import Goultroid.Tasks.Types

/-!
# The persistence pump

`internal/jobs/persistence_pump.go`: durable commits wait in a bounded channel for workers, which are
started on demand and retire when they were idle for a while. A worker that retires decides so under the
lock and leaves in a later step; in between it still counts as a worker. An enqueue in that gap starts
nobody, and the worker makes up for it when it leaves, unless `Drain` comes in between as well.

Each counter and each ledger is a sum of weights over the threads (`Balanced`); `Shift` says how one
step moves all of them, and `program_shift` goes through the steps once. A closed channel is emptied if
somebody stays to do so (`Served`): `Staffed` asks for this at the moment at which `Drain` closes the
channel, and every later step keeps it.
-/

namespace Goultroid.Pump

open List Option Threads
open Threads (Act Acts Pool Program Run)

variable {i n : Nat}

/-- A request is named by the thread that enqueues it. -/
structure Request where
  call : Nat
  retainedBytes : Nat
  deriving DecidableEq

/-- The fields of `PersistencePump` once it was started, the operations that were executed, and the
acknowledgements that were delivered. -/
structure Shared where
  concurrency : Int
  queueCap : Nat
  maxRetainedBytes : Int := 67108864
  retainedBytes : Int := 0
  requests : List Request := []
  remaining : Int := 0
  queued : Int := 0
  active : Int := 0
  running : Bool := true
  accepting : Bool := true
  byteRejections : Nat := 0
  /-- `done` is closed -/
  done : Bool := false
  executed : List Nat := []
  acked : List Nat := []
  deriving DecidableEq

def newPersistencePump (concurrency queueCap : Int) : Shared where
  concurrency := if concurrency ≤ 0 then 2 else concurrency
  queueCap := if queueCap ≤ 0 then 256 else queueCap.toNat

inductive PumpError where
  | closed
  | queueFull
  | byteBudget
  deriving DecidableEq

def defaultPersistenceRequestBytes : Nat := 512

variable {s s' : Shared}

/-- How many workers `ensureWorkersLocked` starts. -/
def Shared.missing (s : Shared) : Nat :=
  if s.running then
    let wanted := s.active + s.queued
    let target := if wanted < 1 then 1 else wanted
    let target := if s.concurrency < target then s.concurrency else target
    (target - s.remaining).toNat
  else 0

def charged (retainedBytes : Int) : Nat :=
  if retainedBytes ≤ 0 then defaultPersistenceRequestBytes else retainedBytes.toNat

/-- The critical section of `enqueueRequest`, and how many workers it starts. -/
def enqueueRequest (call : Nat) (retainedBytes : Int) (s : Shared) : Shared × Option PumpError × Nat :=
  let bytes := charged retainedBytes
  if !s.accepting || !s.running then (s, some .closed, 0)
  else if 0 < s.maxRetainedBytes ∧ s.maxRetainedBytes - s.retainedBytes < bytes then
    ({ s with byteRejections := s.byteRejections + 1 }, some .byteBudget, 0)
  else if s.requests.length < s.queueCap then
    let s : Shared := { s with
      queued := s.queued + 1
      requests := s.requests ++ [⟨call, bytes⟩]
      retainedBytes := s.retainedBytes + bytes }
    ({ s with remaining := s.remaining + s.missing }, none, s.missing)
  else (s, some .queueFull, 0)

/-- The critical section of `Drain`. -/
def closeQueue (s : Shared) : Shared :=
  if s.running then { s with accepting := false, running := false, done := s.done || s.remaining == 0 } else s

/-- The critical section of `workerDone`, and how many workers it starts. -/
def workerDone (s : Shared) : Shared × Nat :=
  let s := { s with remaining := s.remaining - 1 }
  if s.running then
    if 0 < s.queued then ({ s with remaining := s.remaining + s.missing }, s.missing) else (s, 0)
  else ({ s with done := s.done || s.remaining == 0 }, 0)

inductive WorkerPc where
  | select
  | addActive (r : Request)
  | subQueued (r : Request)
  | process (r : Request)
  | subActive (r : Request)
  | release (r : Request)
  | acknowledge (r : Request)
  /-- the idle timer has fired -/
  | idle
  /-- on the way to `workerDone` -/
  | leave
  | gone
  deriving DecidableEq

inductive Thread where
  | enqueue (retainedBytes : Int)
  | enqueued (err : Option PumpError)
  | quiesce
  | drain
  | draining
  | setMaxRetainedBytes (max : Int)
  | returned
  | worker (pc : WorkerPc)
  deriving DecidableEq

inductive Choice where
  | next
  /-- the idle timer, an expired context -/
  | expire
  deriving DecidableEq

variable {choice : Choice}

/-- A step of `workerLoop`. -/
def workerLoop (choice : Choice) (s : Shared) : WorkerPc → Option (Shared × WorkerPc × Nat)
  | .select =>
    match choice, s.requests with
    | .expire, _ => some (s, .idle, 0)
    | .next, r :: rest => some ({ s with requests := rest }, .addActive r, 0)
    -- a closed channel is empty
    | .next, [] => if s.running then none else some (s, .leave, 0)
  | .addActive r => some ({ s with active := s.active + 1 }, .subQueued r, 0)
  | .subQueued r => some ({ s with queued := s.queued - 1 }, .process r, 0)
  | .process r =>
    match choice with
    | .next => some ({ s with executed := s.executed ++ [r.call] }, .subActive r, 0)
    | .expire => some (s, .subActive r, 0)
  | .subActive r => some ({ s with active := s.active - 1 }, .release r, 0)
  | .release r =>
    let left := s.retainedBytes - r.retainedBytes
    some ({ s with retainedBytes := if left < 0 then 0 else left }, .acknowledge r, 0)
  | .acknowledge r => some ({ s with acked := s.acked ++ [r.call] }, .select, 0)
  | .idle => some (s, if s.running && s.queued == 0 then .leave else .select, 0)
  | .leave => some ((workerDone s).1, .gone, (workerDone s).2)
  | .gone => none

/-- `n` new workers. -/
def spawn (n : Nat) : List Thread := List.replicate n (.worker .select)

variable {t t' : Thread}

def program : Program Shared Thread Choice := fun i choice s t =>
  match t with
  | .enqueue bytes =>
    let (s', err, n) := enqueueRequest i bytes s
    some (s', .enqueued err, spawn n)
  | .enqueued _ => none
  | .quiesce => some ({ s with accepting := false }, .returned, [])
  | .drain => some (closeQueue s, .draining, [])
  | .draining =>
    match choice with
    | .next => if s.done then some (s, .returned, []) else none
    | .expire => some (s, .returned, [])
  | .setMaxRetainedBytes max =>
    some (if max ≤ 0 then s else { s with maxRetainedBytes := max }, .returned, [])
  | .returned => none
  | .worker pc => (workerLoop choice s pc).map fun (s', pc', n) => (s', .worker pc', spawn n)

def Thread.entry : Thread → Bool
  | .enqueue _ | .quiesce | .drain | .setMaxRetainedBytes _ => true
  | _ => false

def init (concurrency queueCap : Int) : Pool Shared Thread := ⟨newPersistencePump concurrency queueCap, []⟩

/-! ### Weights -/

/-- The request that a worker has taken and not acknowledged. -/
def WorkerPc.request? : WorkerPc → Option Request
  | .addActive r | .subQueued r | .process r | .subActive r | .release r | .acknowledge r => some r
  | _ => none

namespace Thread

def staffed : Thread → Nat
  | .worker .gone => 0
  | .worker _ => 1
  | _ => 0

/-- A worker that is not about to leave. -/
def staying : Thread → Nat
  | .worker .gone | .worker .leave => 0
  | .worker _ => 1
  | _ => 0

/-- A worker whose request still counts as queued. -/
def uncounted : Thread → Nat
  | .worker (.addActive _) | .worker (.subQueued _) => 1
  | _ => 0

def charge : Thread → Nat
  | .worker (.acknowledge _) => 0
  | .worker pc => (pc.request?.map Request.retainedBytes).getD 0
  | _ => 0

def holds (call : Nat) : Thread → Nat
  | .worker pc => if pc.request?.map Request.call = some call then 1 else 0
  | _ => 0

def processed (call : Nat) : Thread → Nat
  | .worker (.subActive r) | .worker (.release r) | .worker (.acknowledge r) => if r.call = call then 1 else 0
  | _ => 0

end Thread

/-- The call is acknowledged by its return value, and has one request from then on. -/
def Thread.accepted (t : Thread) : Nat := if t = .enqueued none then 1 else 0

def acceptedAt (threads : List Thread) (call : Nat) : Nat := ((threads[call]?).map Thread.accepted).getD 0

/-- The state of the channel, the counters and the ledgers in terms of what the workers are doing. -/
structure Balanced (p : Pool Shared Thread) : Prop where
  remaining : p.shared.remaining = p.sum Thread.staffed
  queued : p.shared.queued = p.shared.requests.length + p.sum Thread.uncounted
  retained : p.shared.retainedBytes = (p.shared.requests.map Request.retainedBytes).sum + p.sum Thread.charge
  ledger : ∀ k, p.shared.requests.countP (·.call == k) + p.sum (Thread.holds k) + p.shared.acked.count k =
    acceptedAt p.threads k
  processed : ∀ k, p.shared.executed.count k ≤ p.sum (Thread.processed k) + p.shared.acked.count k
  closing : p.shared.done = true → p.shared.running = false ∧ p.shared.remaining = 0

/-- Somebody stays to empty the channel that was closed. -/
def Served (p : Pool Shared Thread) : Prop :=
  p.shared.running = false → p.shared.requests ≠ [] → 0 < p.sum Thread.staying

/-- When `Drain` closes a channel that is not empty, some worker is not about to leave. -/
def Staffed (p : Pool Shared Thread) : Act Thread Choice → Bool
  | .call _ => true
  | .move i _ => (p.threads[i]?).all fun t =>
    decide (t ≠ .drain) || !p.shared.running || p.shared.requests.isEmpty || decide (0 < p.sum Thread.staying)

/-! ### What a step moves -/

variable {new : List Thread}

def Shared.waiting (s : Shared) : Nat := (s.requests.map Request.retainedBytes).sum

/-- How thread `i` moves the counters and ledgers, when `n` workers are started. -/
structure Shift (i : Nat) (s : Shared) (t : Thread) (s' : Shared) (t' : Thread) (n : Nat) : Prop where
  remaining : s'.remaining + t.staffed = s.remaining + t'.staffed + n
  queued : s'.queued + s.requests.length + t.uncounted = s.queued + s'.requests.length + t'.uncounted
  retained : (t.charge : Int) ≤ s.retainedBytes →
    s'.retainedBytes + s.waiting + t.charge = s.retainedBytes + s'.waiting + t'.charge
  ledger : ∀ k, s'.requests.countP (·.call == k) + t'.holds k + s'.acked.count k + (if i = k then t.accepted else 0) =
    s.requests.countP (·.call == k) + t.holds k + s.acked.count k + (if i = k then t'.accepted else 0)
  processed : ∀ k, s'.executed.count k + t.processed k + s.acked.count k ≤
    s.executed.count k + t'.processed k + s'.acked.count k
  closing : s'.done = true → (s.done = true ∧ (s.running = true ∨ s'.running = s.running ∧
    (s'.remaining = s.remaining ∨ t.staffed = 1))) ∨ s'.running = false ∧ s'.remaining = 0
  serving : s'.running = false → s'.requests ≠ [] → s.requests ≠ [] ∧ t.staying ≤ t'.staying ∧
    (s.running = false ∨ t = .drain)

/-- A thread that has no part in any request. -/
def Thread.aside : Thread → Bool
  | .worker _ => false
  | .enqueued err => err.isSome
  | _ => true

theorem Thread.weights_of_aside (h : t.aside = true) : t.staffed = 0 ∧ t.staying = 0 ∧ t.uncounted = 0 ∧
    t.charge = 0 ∧ (∀ k, t.holds k = 0) ∧ (∀ k, t.processed k = 0) ∧ t.accepted = 0 := by
  cases t with
  | worker => cases h
  | enqueued err =>
    cases err with
    | none => cases h
    | some => exact ⟨rfl, rfl, rfl, rfl, fun _ => rfl, fun _ => rfl, rfl⟩
  | _ => exact ⟨rfl, rfl, rfl, rfl, fun _ => rfl, fun _ => rfl, rfl⟩

theorem Thread.aside_of_entry (h : t.entry = true) : t.aside = true := by
  cases t with
  | worker | enqueued => cases h
  | _ => rfl

/-- Two states that differ in the settings alone. -/
structure SameView (s s' : Shared) : Prop where
  remaining : s'.remaining = s.remaining
  queued : s'.queued = s.queued
  retained : s'.retainedBytes = s.retainedBytes
  requests : s'.requests = s.requests
  executed : s'.executed = s.executed
  acked : s'.acked = s.acked
  running : s'.running = s.running
  done : s'.done = s.done

theorem Shift.aside (hview : SameView s s') (ht : t.aside = true) (ht' : t'.aside = true) : Shift i s t s' t' 0 := by
  obtain ⟨hstaffed, _, huncounted, hchar, hholds, hprocessed, haccepted⟩ := Thread.weights_of_aside ht
  obtain ⟨hstaffed', _, huncounted', hchar', hholds', hprocessed', haccepted'⟩ := Thread.weights_of_aside ht'
  have hwait : s'.waiting = s.waiting := by rw [Shared.waiting, Shared.waiting, hview.requests]
  refine ⟨?_, ?_, fun _ => ?_, fun k => ?_, fun k => ?_, fun hdone => ?_, fun hrunning hreq => ?_⟩
  · rw [hview.remaining, hstaffed, hstaffed']
    simp
  · rw [hview.queued, hview.requests, huncounted, huncounted']
  · rw [hview.retained, hwait, hchar, hchar']
  · rw [hview.requests, hview.acked, hholds, hholds', haccepted, haccepted']
  · rw [hview.executed, hview.acked, hprocessed, hprocessed']
  · rw [hview.done] at hdone
    exact .inl ⟨hdone, .inr ⟨hview.running, .inl hview.remaining⟩⟩
  · rw [hview.running] at hrunning
    rw [hview.requests] at hreq
    exact ⟨hreq, by omega, .inl hrunning⟩

theorem Shift.of_same (hremaining : s'.remaining = s.remaining)
    (hstaffed : t'.staffed = t.staffed) (hrunning : s'.running = s.running) (hdone : s'.done = s.done)
    (hqueued : s'.queued + s.requests.length + t.uncounted = s.queued + s'.requests.length + t'.uncounted)
    (hretained : (t.charge : Int) ≤ s.retainedBytes → s'.retainedBytes + s.waiting + t.charge = s.retainedBytes + s'.waiting + t'.charge)
    (hledger : ∀ k, s'.requests.countP (·.call == k) + t'.holds k + s'.acked.count k + (if i = k then t.accepted else 0) =
      s.requests.countP (·.call == k) + t.holds k + s.acked.count k + (if i = k then t'.accepted else 0))
    (hprocessed : ∀ k, s'.executed.count k + t.processed k + s.acked.count k ≤ s.executed.count k + t'.processed k + s'.acked.count k)
    (hserves : s.running = false → s'.requests ≠ [] → s.requests ≠ [] ∧ t.staying ≤ t'.staying) : Shift i s t s' t' 0 := by
  refine ⟨?_, hqueued, hretained, hledger, hprocessed, fun h => ?_, fun hstop hreq => ?_⟩
  · rw [hremaining, hstaffed]
    simp
  · rw [hdone] at h
    exact .inl ⟨h, .inr ⟨hrunning, .inl hremaining⟩⟩
  · rw [hrunning] at hstop
    obtain ⟨hne, hle⟩ := hserves hstop hreq
    exact ⟨hne, hle, .inl hstop⟩

theorem enqueue_shift {bytes : Int} : Shift i s (.enqueue bytes) (enqueueRequest i bytes s).1 (.enqueued (enqueueRequest i bytes s).2.1)
      (enqueueRequest i bytes s).2.2 := by
  unfold enqueueRequest
  dsimp only
  split_ifs with hclosed hbytes hroom
  iterate 2
    · exact .aside ⟨rfl, rfl, rfl, rfl, rfl, rfl, rfl, rfl⟩ rfl rfl
  · simp only [Bool.or_eq_true, Bool.not_eq_true', not_or, Bool.not_eq_false] at hclosed
    obtain ⟨_, hrunning⟩ := hclosed
    refine ⟨?_, ?_, fun _ => ?_, fun k => ?_, fun k => le_rfl, fun hdone => ?_, fun hstop => ?_⟩
    · simp [Thread.staffed]
    · simp [Thread.uncounted]
      omega
    · simp [Thread.charge, Shared.waiting]
      omega
    · by_cases hk : i = k
      · simp [Thread.holds, Thread.accepted, countP_append, hk]
        omega
      · simp [Thread.holds, countP_append, hk]
    · exact .inl ⟨hdone, .inl hrunning⟩
    · rw [show s.running = true from hrunning] at hstop
      cases hstop
  · exact .aside ⟨rfl, rfl, rfl, rfl, rfl, rfl, rfl, rfl⟩ rfl rfl

theorem drain_shift : Shift i s .drain (closeQueue s) .draining 0 := by
  unfold closeQueue
  split_ifs with hrunning
  · refine ⟨by simp [Thread.staffed], rfl, fun _ => rfl, fun k => rfl, fun k => le_rfl, fun hdone => ?_,
      fun _ hreq => ⟨hreq, le_rfl, .inr rfl⟩⟩
    simp only [Bool.or_eq_true, beq_iff_eq] at hdone
    rcases hdone with hdone | hnone
    · exact .inl ⟨hdone, .inl hrunning⟩
    · exact .inr ⟨rfl, hnone⟩
  · exact .aside ⟨rfl, rfl, rfl, rfl, rfl, rfl, rfl, rfl⟩ rfl rfl

theorem leave_shift : Shift i s (.worker .leave) (workerDone s).1 (.worker .gone) (workerDone s).2 := by
  unfold workerDone
  dsimp only
  split_ifs with hrunning hqueued
  iterate 2
    · refine ⟨?_, rfl, fun _ => rfl, fun k => rfl, fun k => le_rfl, fun hdone => .inl ⟨hdone, .inl hrunning⟩, fun hstop => ?_⟩
      · simp only [Thread.staffed]
        omega
      · rw [show s.running = true from hrunning] at hstop
        cases hstop
  · refine ⟨?_, rfl, fun _ => rfl, fun k => rfl, fun k => le_rfl, fun hdone => ?_,
      fun hstop hreq => ⟨hreq, le_rfl, .inl hstop⟩⟩
    · simp only [Thread.staffed]
      omega
    · simp only [Bool.or_eq_true, beq_iff_eq] at hdone
      rcases hdone with hdone | hnone
      · exact .inl ⟨hdone, .inr ⟨rfl, .inr rfl⟩⟩
      · exact .inr ⟨by simpa using hrunning, hnone⟩

theorem worker_shift {pc pc' : WorkerPc} (h : workerLoop choice s pc = some (s', pc', n)) : Shift i s (.worker pc) s' (.worker pc') n := by
  cases pc with
  | select =>
    cases choice with
    | expire =>
      cases h
      exact .of_same rfl rfl rfl rfl rfl (fun _ => rfl) (fun k => rfl) (fun k => le_rfl) fun _ hne => ⟨hne, le_rfl⟩
    | next =>
      simp only [workerLoop] at h
      cases hreq : s.requests with
      | cons r =>
        rw [hreq] at h
        cases h
        refine .of_same rfl rfl rfl rfl ?_ (fun _ => ?_) (fun k => ?_) (fun k => le_rfl) fun _ _ => ⟨by simp [hreq], le_rfl⟩
        · simp only [Thread.uncounted, hreq, length_cons]
          omega
        · simp only [Thread.charge, WorkerPc.request?, Shared.waiting, hreq, map_cons, sum_cons, map_some,
            map_none, getD_some, getD_none]
          omega
        · simp only [Thread.holds, WorkerPc.request?, Thread.accepted, hreq, countP_cons, beq_iff_eq]
          by_cases hk : r.call = k
          · simp [hk]
          · simp [hk]
      | nil =>
        rw [hreq] at h
        split_ifs at h with hrunning
        cases h
        exact .of_same rfl rfl rfl rfl rfl (fun _ => rfl) (fun k => rfl) (fun k => le_rfl) fun _ hne => absurd hreq hne
  | addActive | subActive =>
    cases h
    exact .of_same rfl rfl rfl rfl rfl (fun _ => rfl) (fun k => rfl) (fun k => le_rfl) fun _ hne => ⟨hne, le_rfl⟩
  | subQueued =>
    cases h
    refine .of_same rfl rfl rfl rfl ?_ (fun _ => rfl) (fun k => rfl) (fun k => le_rfl) fun _ hne => ⟨hne, le_rfl⟩
    simp only [Thread.uncounted]
    omega
  | process =>
    cases choice with
    | next =>
      cases h
      refine .of_same rfl rfl rfl rfl rfl (fun _ => rfl) (fun k => rfl) (fun k => ?_) fun _ hne => ⟨hne, le_rfl⟩
      simp only [Thread.processed, count_append, count_singleton, beq_iff_eq]
      split_ifs <;> omega
    | expire =>
      cases h
      refine .of_same rfl rfl rfl rfl rfl (fun _ => rfl) (fun k => rfl) (fun k => ?_) fun _ hne => ⟨hne, le_rfl⟩
      simp only [Thread.processed]
      omega
  | release =>
    cases h
    refine .of_same rfl rfl rfl rfl rfl (fun hle => ?_) (fun k => rfl) (fun k => le_rfl) fun _ hne => ⟨hne, le_rfl⟩
    simp only [Thread.charge, WorkerPc.request?, map_some, getD_some] at hle ⊢
    simp only [Shared.waiting]
    omega
  | acknowledge =>
    cases h
    refine .of_same rfl rfl rfl rfl rfl (fun _ => rfl) (fun k => ?_) (fun k => ?_) fun _ hne => ⟨hne, le_rfl⟩
    · simp only [Thread.holds, WorkerPc.request?, map_some, map_none, Thread.accepted, count_append,
        count_singleton, beq_iff_eq, Option.some.injEq, reduceCtorEq, if_false]
      split_ifs <;> omega
    · simp only [Thread.processed, count_append, count_singleton, beq_iff_eq]
      split_ifs <;> omega
  | idle =>
    simp only [workerLoop] at h
    cases hretire : s.running && s.queued == 0 with
    | false =>
      rw [hretire] at h
      cases h
      exact .of_same rfl rfl rfl rfl rfl (fun _ => rfl) (fun k => rfl) (fun k => le_rfl) fun _ hne => ⟨hne, le_rfl⟩
    | true =>
      rw [hretire] at h
      cases h
      refine .of_same rfl rfl rfl rfl rfl (fun _ => rfl) (fun k => rfl) (fun k => le_rfl) fun hstop => ?_
      rw [hstop] at hretire
      cases hretire
  | leave =>
    cases h
    exact leave_shift
  | gone => cases h

theorem program_shift (h : program i choice s t = some (s', t', new)) : ∃ n, new = spawn n ∧ Shift i s t s' t' n := by
  have hview : SameView s s := ⟨rfl, rfl, rfl, rfl, rfl, rfl, rfl, rfl⟩
  cases t with
  | enqueue =>
    cases h
    exact ⟨_, rfl, enqueue_shift⟩
  | enqueued | returned => cases h
  | quiesce =>
    cases h
    exact ⟨0, rfl, .aside ⟨rfl, rfl, rfl, rfl, rfl, rfl, rfl, rfl⟩ rfl rfl⟩
  | drain =>
    cases h
    exact ⟨0, rfl, drain_shift⟩
  | draining =>
    cases choice with
    | next =>
      simp only [program] at h
      split_ifs at h
      cases h
      exact ⟨0, rfl, .aside hview rfl rfl⟩
    | expire =>
      cases h
      exact ⟨0, rfl, .aside hview rfl rfl⟩
  | setMaxRetainedBytes =>
    cases h
    refine ⟨0, rfl, .aside ?_ rfl rfl⟩
    split_ifs
    · exact hview
    · exact ⟨rfl, rfl, rfl, rfl, rfl, rfl, rfl, rfl⟩
  | worker =>
    obtain ⟨⟨s1, pc', n⟩, hloop, heq⟩ := map_eq_some_iff.mp h
    cases heq
    exact ⟨n, rfl, worker_shift hloop⟩

/-! ### Runs -/

theorem sum_spawn {f : Thread → Nat} : ((spawn n).map f).sum = n * f (.worker .select) := by
  simp [spawn]

section Runs

variable {threads : List Thread} {p p' : Pool Shared Thread} {a : Act Thread Choice}

theorem acceptedAt_append {k : Nat} (h : ∀ u ∈ new, u.accepted = 0) : acceptedAt (threads ++ new) k = acceptedAt threads k := by
  unfold acceptedAt
  by_cases hk : k < threads.length
  · rw [getElem?_append_left hk]
  · rw [getElem?_append_right (by omega), getElem?_eq_none (show threads.length ≤ k by omega)]
    cases hnew : new[k - threads.length]? with
    | none => rfl
    | some u => exact h u (mem_of_getElem? hnew)

theorem acceptedAt_set (ht : threads[i]? = some t) (t' : Thread) (k : Nat) :
    acceptedAt (threads.set i t') k + (if i = k then t.accepted else 0) = acceptedAt threads k + (if i = k then t'.accepted else 0) := by
  unfold acceptedAt
  by_cases hk : i = k
  · subst hk
    rw [List.getElem?_set_self (List.getElem?_eq_some_iff.mp ht).1, ht, if_pos rfl, if_pos rfl]
    exact Nat.add_comm _ _
  · rw [getElem?_set_ne hk, if_neg hk, if_neg hk]

theorem Balanced.call (hp : Balanced p) (h : t.entry = true) : Balanced ⟨p.shared, p.threads ++ [t]⟩ := by
  obtain ⟨hstaffed, -, huncounted, hchar, hholds, hprocessed, _⟩ := Thread.weights_of_aside (Thread.aside_of_entry h)
  refine ⟨?_, ?_, ?_, fun k => ?_, fun k => ?_, hp.closing⟩
  · rw [sum_call, hstaffed]
    exact hp.remaining
  · rw [sum_call, huncounted]
    exact hp.queued
  · rw [sum_call, hchar]
    exact hp.retained
  · rw [sum_call, hholds, Nat.add_zero, hp.ledger k, acceptedAt_append]
    intro u hu
    rwa [mem_singleton.mp hu]
  · rw [sum_call, hprocessed]
    exact hp.processed k

theorem Balanced.move (hp : Balanced p) (ht : p.threads[i]? = some t) (h : Shift i p.shared t s' t' n) :
    Balanced ⟨s', p.threads.set i t' ++ spawn n⟩ := by
  have hsum (f : Thread → Nat) : Pool.sum f ⟨s', p.threads.set i t' ++ spawn n⟩ + f t =
      p.sum f + f t' + n * f (.worker .select) := by
    rw [sum_move f ht s' t' (spawn n), sum_spawn]
  refine ⟨?_, ?_, ?_, fun k => ?_, fun k => ?_, fun hdone => ?_⟩
  · have hstaffed := hsum Thread.staffed
    have hbefore := hp.remaining
    have hmoved := h.remaining
    simp only [show Thread.staffed (.worker .select) = 1 from rfl] at hstaffed
    dsimp only
    omega
  · have huncounted := hsum Thread.uncounted
    have hbefore := hp.queued
    have hmoved := h.queued
    simp only [show Thread.uncounted (.worker .select) = 0 from rfl] at huncounted
    dsimp only
    omega
  · have hchar := hsum Thread.charge
    have hbefore := hp.retained
    have hle := le_sum Thread.charge ht
    have hmoved := h.retained (by omega)
    simp only [show Thread.charge (.worker .select) = 0 from rfl] at hchar
    simp only [Shared.waiting] at hmoved
    dsimp only
    omega
  · have hholds := hsum (Thread.holds k)
    have hbefore := hp.ledger k
    have hmoved := h.ledger k
    simp only [show Thread.holds k (.worker .select) = 0 from rfl] at hholds
    have hset := acceptedAt_set ht t' k
    have hnew : acceptedAt (p.threads.set i t' ++ spawn n) k = acceptedAt (p.threads.set i t') k :=
      acceptedAt_append (fun u hu => by rw [eq_of_mem_replicate hu]; rfl)
    dsimp only
    omega
  · have hprocessed := hsum (Thread.processed k)
    have hbefore := hp.processed k
    have hmoved := h.processed k
    dsimp only
    omega
  · rcases h.closing hdone with ⟨hold, hrest⟩ | hnew
    · obtain ⟨hstop, hnone⟩ := hp.closing hold
      rcases hrest with hrunning | ⟨hrunning, hremaining | hstaffed⟩
      · rw [hstop] at hrunning
        cases hrunning
      · exact ⟨hrunning.trans hstop, hremaining.trans hnone⟩
      · have hle := le_sum Thread.staffed ht
        have hbefore := hp.remaining
        omega
    · exact hnew

theorem balanced_init (concurrency queueCap : Int) : Balanced (init concurrency queueCap) where
  remaining := rfl
  queued := rfl
  retained := rfl
  ledger _ := rfl
  processed _ := le_rfl
  closing h := by cases h

theorem Balanced.act (hp : Balanced p) (h : Acts program Thread.entry p a p') : Balanced p' := by
  cases h with
  | call t ha ht heq =>
    subst heq
    exact hp.call ht
  | move i _ t t' s' new ha ht hnext heq =>
    subst heq
    obtain ⟨n, rfl, hshift⟩ := program_shift hnext
    exact hp.move ht hshift

theorem Served.act (hp : Served p) (hok : Staffed p a = true) (h : Acts program Thread.entry p a p') : Served p' := by
  cases h with
  | call t ha ht heq =>
    subst heq
    intro hstop hreq
    rw [sum_call]
    have := hp hstop hreq
    omega
  | move i _ t t' s' new ha ht hnext heq =>
    subst ha heq
    obtain ⟨n, rfl, hshift⟩ := program_shift hnext
    intro hstop hreq
    obtain ⟨hbefore, hle, hrunning | rfl⟩ := hshift.serving hstop hreq
    · have hsum := sum_move Thread.staying ht s' t' (spawn n)
      have := hp hrunning hbefore
      omega
    · have hsum := sum_move Thread.staying ht s' t' (spawn n)
      simp only [Staffed, ht, all_some, Bool.or_eq_true, decide_eq_true_eq, ne_eq, not_true_eq_false, false_or,
        Bool.not_eq_true', List.isEmpty_iff, decide_false, Bool.false_eq_true] at hok
      rcases hok with (hok | hok) | hok
      · have := hp hok hbefore
        omega
      · exact absurd hok hbefore
      · omega

end Runs

/-- A worker is between the receipt of a request and the end of its operation. -/
def Thread.operating : Thread → Bool
  | .worker (.acknowledge _) => false
  | .worker pc => pc.request?.isSome
  | _ => false

theorem Thread.charge_of_not_operating (h : t.operating = false) : t.charge = 0 := by
  cases t with
  | worker pc => cases pc <;> first | rfl | cases h
  | _ => rfl

theorem Thread.holds_le (k : Nat) (t : Thread) : t.holds k ≤ t.staffed := by
  cases t with
  | worker pc =>
    cases pc <;> simp only [holds, staffed, WorkerPc.request?] <;> split_ifs <;> simp_all
  | _ => exact le_rfl

theorem Thread.staying_le (t : Thread) : t.staying ≤ t.staffed := by
  cases t with
  | worker pc => cases pc <;> simp [staying, staffed]
  | _ => exact le_rfl

theorem Thread.processed_le (k : Nat) (t : Thread) : t.processed k ≤ t.holds k := by
  cases t with
  | worker pc => cases pc <;> simp [processed, holds, WorkerPc.request?]
  | _ => exact le_rfl

/-- For every interleaving in which `Drain` does not close a channel that nobody stays to empty. A request
whose enqueue returned nil is executed and acknowledged at most once, and has been acknowledged when `done`
is closed. While no operation is running, the retained bytes are those of the requests in the channel. -/
theorem accepted_acknowledged_before_done (concurrency queueCap : Int) (p : Pool Shared Thread)
    (h : Run program Thread.entry Staffed (init concurrency queueCap) p) : (∀ k, p.threads[k]? = some (.enqueued none) →
      p.shared.executed.count k ≤ 1 ∧ p.shared.acked.count k ≤ 1 ∧ (p.shared.done = true → p.shared.acked.count k = 1)) ∧
    ((∀ t ∈ p.threads, t.operating = false) → p.shared.retainedBytes = (p.shared.requests.map Request.retainedBytes).sum) := by
  have hbalanced : Balanced p := h.invariant (fun _ _ _ hp _ hacts => hp.act hacts) (balanced_init _ _)
  have hserved : Served p := by
    refine h.invariant (fun _ _ _ hp hok hacts => Served.act hp hok hacts) fun hstop => ?_
    cases hstop
  refine ⟨fun k hk => ?_, fun hidle => ?_⟩
  · have hledger := hbalanced.ledger k
    rw [show acceptedAt p.threads k = 1 by rw [acceptedAt, hk]; rfl] at hledger
    have hprocessed := hbalanced.processed k
    have hle : p.sum (Thread.processed k) ≤ p.sum (Thread.holds k) := sum_le_sum fun t _ => t.processed_le k
    refine ⟨by omega, by omega, fun hdone => ?_⟩
    obtain ⟨hstop, _⟩ := hbalanced.closing hdone
    have hstaffed : p.sum Thread.staffed = 0 := by
      have := hbalanced.remaining
      omega
    have hholds := sum_eq_zero_of_le hstaffed (Thread.holds_le k)
    have hstay := sum_eq_zero_of_le hstaffed Thread.staying_le
    have hempty : p.shared.requests = [] := by
      by_contra hne
      have := hserved hstop hne
      omega
    rw [hempty, hholds, countP_nil] at hledger
    omega
  · have hchar : p.sum Thread.charge = 0 := by
      refine sum_eq_zero fun n hn => ?_
      obtain ⟨t, ht, rfl⟩ := mem_map.mp hn
      exact Thread.charge_of_not_operating (hidle t ht)
    rw [hbalanced.retained, hchar]
    simp

/-- A request is enqueued, and worker 1 takes it from the channel to its acknowledgement. -/
def oneRequest : List (Act Thread Choice) :=
  [.call (.enqueue 100), .move 0 .next] ++ List.replicate 7 (.move 1 .next)

/-- `Drain` finds worker 1 waiting. -/
theorem accepted_acknowledged_before_done_one :
    ∃ p, Run program Thread.entry Staffed (init 1 1) p ∧ p.threads[0]? = some (.enqueued none) ∧ p.shared.done = true ∧
      (∀ k, p.threads[k]? = some (.enqueued none) →
        p.shared.executed.count k ≤ 1 ∧ p.shared.acked.count k ≤ 1 ∧ (p.shared.done = true → p.shared.acked.count k = 1)) ∧
      ((∀ t ∈ p.threads, t.operating = false) → p.shared.retainedBytes = (p.shared.requests.map Request.retainedBytes).sum) := by
  obtain ⟨p, hrun, hreturned, hdone⟩ : ∃ p, Run program Thread.entry Staffed (init 1 1) p ∧
      p.threads[0]? = some (.enqueued none) ∧ p.shared.done = true :=
    Run.of_check (oneRequest ++ [.call .drain, .move 2 .next, .move 1 .next, .move 1 .next]) (by decide +kernel)
  exact ⟨p, hrun, hreturned, hdone, accepted_acknowledged_before_done 1 1 p hrun⟩

/-- Worker 1 decides to retire. Before it leaves, a second request is accepted, which starts nobody, and
`Drain` closes the channel. -/
def drainedWhileRetiring : List (Act Thread Choice) :=
  oneRequest ++ [.move 1 .expire, .move 1 .next, .call (.enqueue 100), .move 2 .next, .call .drain, .move 3 .next,
    .move 1 .next, .move 3 .next]

/-- `Drain` has returned, and the accepted request is still in the channel. -/
theorem accepted_request_lost : ∃ p, Run program Thread.entry (fun _ _ => true) (init 1 1) p ∧ p.threads[2]? = some (.enqueued none) ∧
      p.threads[3]? = some .returned ∧ p.shared.done = true ∧ p.shared.executed.count 2 = 0 ∧ p.shared.acked.count 2 = 0 ∧
      p.shared.remaining = 0 := by
  exact Run.of_check drainedWhileRetiring (by decide +kernel)

end Goultroid.Pump
