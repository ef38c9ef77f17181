import Goultroid.Engine.Requests

/-!
# The engine with its physical workers

`physicalWorker` and `sendInternal`: each worker generation waits at its own mailbox, executes what it
receives, and hands one completion to the inbox of the control loop. A worker whose context is
cancelled leaves while it waits, with or without an assignment in its mailbox. Once the root context is
cancelled a completion may be refused by the inbox, and when the loop exits it discards what is queued;
`lost` keeps both.

The loop handles completions in any order, at any time after they are handed over. Every other request
of the loop, among them `WorkerStarted`, has any content at any time.
-/

namespace Goultroid

inductive Phase where
  | waiting
  | executing (assignment : Assignment)
  | reporting (assignment : Assignment) (result : TaskResult)
  | exited
  deriving DecidableEq

/-- A worker generation that has received an assignment, with the arguments of `physicalWorker`. -/
structure Worker where
  pool : PoolID
  slot : Nat
  phase : Phase
  deriving DecidableEq

/-- An `opWorkerCompleted` request. -/
structure Report where
  pool : PoolID
  slot : Nat
  assignment : Assignment
  result : TaskResult
  deriving DecidableEq

def Report.request (report : Report) : Request :=
  .workerCompleted report.result (some report.assignment.permit) report.pool report.slot

structure System where
  engine : Engine
  /-- the workers by their mailbox; one that is not listed waits for its first assignment -/
  workers : AList fun _ : ChanID => Worker := ∅
  inbox : List Report := []
  lost : List Report := []
  /-- the control loop has exited -/
  stopped : Bool := false

inductive SystemEvent where
  | control (req : Request)
  | timer
  | complete (report : Report)
  | receive (ch : ChanID)
  | finish (ch : ChanID) (result : TaskResult)
  | handOver (ch : ChanID)
  | refuse (ch : ChanID)
  | exit (ch : ChanID)
  | shutDown

def Request.isCompletion : Request → Bool
  | .workerCompleted _ _ _ _ => true
  | _ => false

namespace System

def waits (sys : System) (ch : ChanID) : Bool :=
  match sys.workers.lookup ch with
  | none => true
  | some worker => worker.phase == .waiting

def setWorker (sys : System) (ch : ChanID) (worker : Worker) : System :=
  { sys with workers := sys.workers.insert ch worker }

def rootDone (env : Env) (sys : System) : Bool := env.rootDone sys.engine.obs

/-- A step of the control loop, which runs from `Start` until it exits. -/
def control (env : Env) (sys : System) (ev : Event) : Option System :=
  if sys.engine.runStarted = true ∧ sys.stopped = false then
    some { sys with engine := sys.engine.step env ev }
  else none

/-- One step of the loop or of a worker; `none` when it cannot happen. -/
def step (env : Env) (sys : System) : SystemEvent → Option System
  | .control req => if req.isCompletion then none else sys.control env (.request req)
  | .timer => sys.control env .timer
  | .complete report =>
    if report ∈ sys.inbox then
      { sys with inbox := sys.inbox.erase report }.control env (.request report.request)
    else none
  | .receive ch =>
    if sys.waits ch then
      match sys.engine.mail.lookup ch, sys.engine.homes.lookup ch with
      | some (assignment :: _), some home =>
        some ({ sys with engine := sys.engine.receive ch }.setWorker ch
          ⟨home.1, home.2, .executing assignment⟩)
      | _, _ => none
    else none
  | .finish ch result =>
    match sys.workers.lookup ch with
    | some ⟨pool, slot, .executing assignment⟩ =>
      some (sys.setWorker ch
        ⟨pool, slot, .reporting assignment { result with taskID := assignment.spec.id }⟩)
    | _ => none
  | .handOver ch =>
    match sys.workers.lookup ch with
    | some ⟨pool, slot, .reporting assignment result⟩ =>
      if sys.stopped then none
      else some { sys.setWorker ch ⟨pool, slot, .waiting⟩ with
        inbox := sys.inbox ++ [⟨pool, slot, assignment, result⟩] }
    | _ => none
  | .refuse ch =>
    match sys.workers.lookup ch with
    | some ⟨pool, slot, .reporting assignment result⟩ =>
      if sys.rootDone env then
        some { sys.setWorker ch ⟨pool, slot, .waiting⟩ with
          lost := sys.lost ++ [⟨pool, slot, assignment, result⟩] }
      else none
    | _ => none
  | .exit ch =>
    match sys.engine.homes.lookup ch with
    | none => none
    | some home =>
      if sys.waits ch ∧ (ch ∈ sys.engine.retired ∨ sys.rootDone env = true) then
        some (sys.setWorker ch ⟨home.1, home.2, .exited⟩)
      else none
  | .shutDown =>
    if sys.rootDone env then
      some { sys with inbox := [], lost := sys.lost ++ sys.inbox, stopped := true }
    else none

/-- A run of the system; `none` when one of its steps cannot happen. -/
def run (env : Env) (sys : System) (events : List SystemEvent) : Option System :=
  events.foldlM (step env) sys

end System

inductive SystemReachable (env : Env) (cfg : Config) : System → Prop where
  | new (pump : Option CommitPump) (resolver : Bool) :
    SystemReachable env cfg { engine := { newEngine cfg with commitPump := pump, handlerResolver := resolver } }
  | start {sys : System} {e : Engine} : SystemReachable env cfg sys → sys.engine.start env = some e →
    SystemReachable env cfg { sys with engine := e }
  | step {sys sys' : System} (ev : SystemEvent) : SystemReachable env cfg sys → sys.step env ev = some sys' →
    SystemReachable env cfg sys'

theorem SystemReachable.run {env : Env} {cfg : Config} {sys sys' : System} {events : List SystemEvent} (h : SystemReachable env cfg sys)
    (hrun : sys.run env events = some sys') : SystemReachable env cfg sys' := by
  induction events generalizing sys with
  | nil =>
    cases hrun
    exact h
  | cons ev events ih =>
    obtain ⟨_, hstep, hrest⟩ := Option.bind_eq_some_iff.mp hrun
    exact ih (.step ev h hstep) hrest

end Goultroid
