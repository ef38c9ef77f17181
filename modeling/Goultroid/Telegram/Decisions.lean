import Mathlib.Data.List.Sort
import Goultroid.Tasks.Types

/-!
# The decision pipeline of the dispatcher

The hook registry with its routing index (`dispatcher_handlers.go`), the loop over the decision hooks of a message
(`executeDecisionHandlersEnvelope`) and the way of a message through `dispatch`. What a hook, its state gate, the clock
and the task engine do in the turn of a handler is a `Turn`; the loop leaves a trace of the hooks it starts and of how
they end. A nil hook is not registered, and a registered hook is known by its id.

Every operation leaves a sound registry: a bucket is the sorted filter of the handlers, and the sorting is stable
(`Sound.apply`). A turn is described once (`decisionTurn_spec`), with the hook that it starts, when the message passes
and what may still come after it. The trace of the loop is then an induction over the handlers.
-/

namespace Goultroid.Dispatcher

open List

variable {expired : Bool}

/-! ### The registry -/

inductive MessageHookLane where
  | decision | event
  deriving DecidableEq

/-- One routing clause; the masks are bit sets, and zero stands for any. -/
structure MessageHookInterest where
  directions : UInt8 := 0
  peers : UInt8 := 0
  commands : UInt8 := 0
  requireText : Bool := false
  requireMention : Bool := false
  requireReply : Bool := false
  requireMedia : Bool := false

structure MessageHookRouting where
  lane : MessageHookLane := .decision
  interests : List MessageHookInterest := []

inductive HandlerFailurePolicy where
  | failOpen | failClosed
  deriving DecidableEq

def prioritySecurity : Int := 10

def failurePolicyForPriority (priority : Int) : HandlerFailurePolicy :=
  if priority ≤ prioritySecurity then .failClosed else .failOpen

structure PrioritizedHandler where
  id : Nat
  priority : Int
  failurePolicy : HandlerFailurePolicy
  routing : MessageHookRouting
  /-- Whether there is a state gate. -/
  stateGate : Bool
  scope : ScopeIdentity

structure MessageHandlerBucket where
  decision : List PrioritizedHandler := []
  event : List PrioritizedHandler := []

/-- The dispatcher's hooks; the index is nil until the first one is registered. -/
structure Registry where
  messageHandlers : List PrioritizedHandler := []
  nextHandlerID : Nat := 0
  messageRouteIndex : Option (UInt8 → MessageHandlerBucket) := none

/-- Bit `n` of a message class. -/
def classBit (cls n : UInt8) : Bool := cls &&& (1 <<< n) != 0

/-- Whether a mask has the bit; a zero mask stands for `any`. -/
def maskHas (mask any bit : UInt8) : Bool := (if mask = 0 then any else mask) &&& bit != 0

def peerMask (cls : UInt8) : UInt8 :=
  match ((cls >>> 1) &&& 3).toNat with
  | 1 => 1
  | 2 => 2
  | 3 => 4
  | _ => 8

def messageHookInterestMatchesClass (interest : MessageHookInterest) (cls : UInt8) : Bool :=
  maskHas interest.directions 3 (if classBit cls 0 then 2 else 1) && maskHas interest.peers 15 (peerMask cls) &&
    maskHas interest.commands 3 (if classBit cls 3 then 2 else 1) && (!interest.requireText || classBit cls 4) &&
    (!interest.requireMention || classBit cls 5) && (!interest.requireReply || classBit cls 6) &&
    (!interest.requireMedia || classBit cls 7)

def messageHookRoutingMatchesClass (routing : MessageHookRouting) (cls : UInt8) : Bool :=
  routing.interests.isEmpty || routing.interests.any (messageHookInterestMatchesClass · cls)

/-- One handler enters the bucket of every class that its routing matches. -/
def indexHandler (idx : UInt8 → MessageHandlerBucket) (h : PrioritizedHandler) (cls : UInt8) : MessageHandlerBucket :=
  if messageHookRoutingMatchesClass h.routing cls = false then idx cls
  else if h.routing.lane = .event then { idx cls with event := (idx cls).event ++ [h] }
  else { idx cls with decision := (idx cls).decision ++ [h] }

/-- `sort.SliceStable` by priority. -/
def sortHandlers (handlers : List PrioritizedHandler) : List PrioritizedHandler :=
  handlers.insertionSort fun a b => a.priority ≤ b.priority

namespace Registry

def rebuildMessageHandlerIndexLocked (r : Registry) : Registry :=
  { r with messageRouteIndex := some (r.messageHandlers.foldl indexHandler fun _ => {}) }

def addMessageHandler (r : Registry) (priority : Int) (scope : ScopeIdentity) (routing : MessageHookRouting)
    (stateGate : Bool) : Registry :=
  let id := r.nextHandlerID + 1
  let handler := ⟨id, priority, failurePolicyForPriority priority, routing, stateGate, scope⟩
  { r with nextHandlerID := id, messageHandlers := sortHandlers (r.messageHandlers ++ [handler]) }.rebuildMessageHandlerIndexLocked

/-- The function that `addMessageHandler` returns. -/
def removeMessageHandler (r : Registry) (id : Nat) : Registry :=
  if r.messageHandlers.any (·.id == id) then
    { r with messageHandlers := r.messageHandlers.eraseP (·.id == id) }.rebuildMessageHandlerIndexLocked
  else r

def messageHandlersForClass (r : Registry) (cls : UInt8) : MessageHandlerBucket :=
  match r.messageRouteIndex with
  | none => {}
  | some idx => idx cls

end Registry

inductive RegistryOp where
  | add (priority : Int) (scope : ScopeIdentity) (routing : MessageHookRouting) (stateGate : Bool)
  | remove (id : Nat)

def Registry.apply (r : Registry) : RegistryOp → Registry
  | .add priority scope routing stateGate => r.addMessageHandler priority scope routing stateGate
  | .remove id => r.removeMessageHandler id

def Registry.after (history : List RegistryOp) : Registry := history.foldl Registry.apply {}

/-! ### One turn of the loop -/

inductive HookEnd where
  | returned | intercepted | failed | panicked
  deriving DecidableEq

/-- What becomes of an admitted task while the loop waits for it. -/
inductive TaskRun where
  /-- It ends in the queue, or its handler finds a context that has ended. -/
  | unstarted
  /-- The hook ends; `cancelled`: a cancellation was requested meanwhile, and the engine applies it to the result. -/
  | ran (how : HookEnd) (cancelled : Bool)
  /-- The loop goes on without it: the wait is over, or the engine is forced to shut down. -/
  | running
  deriving DecidableEq

/-- What happens in the turn of a handler. -/
structure Turn where
  /-- The answer of the state gate, `none` if it panics. -/
  gate : Option Bool := some true
  /-- A hook that the loop went on without intercepts now. -/
  late : Bool := false
  /-- The shared context has ended when the loop looks at it. -/
  lapsed : Bool := false
  /-- The end of a hook that runs in the loop itself. -/
  direct : HookEnd := .returned
  remaining : Bool := true
  client : Bool := true
  accepted : Bool := true
  task : TaskRun := .ran .returned false
  /-- The shared context has ended when the hook or the wait is over. -/
  overrun : Bool := false
  /-- The wait ends with the shared context, if that has ended. -/
  waitErr : Bool := false

inductive Event where
  | started (id : Nat)
  /-- The hook ends within its turn; `expired`: the shared context had ended by the end of the turn. -/
  | ended (id : Nat) (how : HookEnd) (expired : Bool)
  /-- A hook that the loop went on without intercepts. -/
  | late
  deriving DecidableEq

def TaskRun.succeeded : TaskRun → Bool
  | .ran _ cancelled => !cancelled
  | _ => false

def TaskRun.how : TaskRun → HookEnd
  | .ran how _ => how
  | _ => .returned

def TaskRun.events (id : Nat) (expired : Bool) : TaskRun → List Event
  | .unstarted => []
  | .ran how _ => [.started id, .ended id how expired]
  | .running => [.started id]

def safeExecuteMessageHook (policy : HandlerFailurePolicy) : HookEnd → Bool
  | .returned => false
  | .intercepted => true
  | .failed | .panicked => policy == .failClosed

def messageHookStateInterested (h : PrioritizedHandler) (gate : Option Bool) : Bool :=
  !h.stateGate || gate.getD true

structure TurnEnd where
  denied : Bool
  expired : Bool
  events : List Event

/-- The body of the loop in `executeDecisionHandlersEnvelope`. -/
def decisionTurn (h : PrioritizedHandler) (t : Turn) (expired : Bool) : TurnEnd :=
  let failClosed := h.failurePolicy == .failClosed
  if messageHookStateInterested h t.gate = false then ⟨false, expired, []⟩
  else if expired || t.lapsed then ⟨failClosed, true, []⟩
  else if h.scope.owner = [] ∧ h.scope.generation = 0 then
    ⟨t.overrun && failClosed || safeExecuteMessageHook h.failurePolicy t.direct, t.overrun,
      [.started h.id, .ended h.id t.direct t.overrun]⟩
  else if !t.remaining || !t.client || !t.accepted then ⟨failClosed, false, []⟩
  else
    let events := t.task.events h.id t.overrun
    if t.waitErr && t.overrun || !t.task.succeeded then ⟨failClosed, t.overrun, events⟩
    else ⟨t.overrun && failClosed || safeExecuteMessageHook h.failurePolicy t.task.how, t.overrun, events⟩

def lateEvents : Bool → List Event
  | true => [.late]
  | false => []

/-- `executeDecisionHandlersEnvelope`: whether the message is denied, and the trace. -/
def executeDecisionHandlers (turns : Nat → Turn) : List PrioritizedHandler → Bool → Bool × List Event
  | [], _ => (false, [])
  | h :: hs, expired =>
    let turn := decisionTurn h (turns h.id) expired
    let events := lateEvents (turns h.id).late ++ turn.events
    if turn.denied then (true, events)
    else
      let rest := executeDecisionHandlers turns hs turn.expired
      (rest.1, events ++ rest.2)

/-! ### The way of a message -/

inductive ChatType where
  | «private» | group | supergroup | channel | other
  deriving DecidableEq

structure MessageEnvelope where
  outgoing : Bool := false
  chatType : ChatType := .private
  isCommand : Bool := false
  text : GoString := []
  mentioned : Bool := false
  mentions : List Int := []
  replyToID : Int := 0
  media : Bool := false

def classifyCanonicalMessageRoute (message : MessageEnvelope) : UInt8 :=
  let bit (set : Bool) (n : UInt8) : UInt8 := if set then 1 <<< n else 0
  let peer : UInt8 := match message.chatType with
    | .private => 1
    | .group => 2
    | .supergroup | .channel => 3
    | .other => 0
  bit message.outgoing 0 ||| (peer <<< 1) ||| bit message.isCommand 3 ||| bit (message.text != []) 4 |||
    bit (message.mentioned || message.mentions != []) 5 ||| bit (message.replyToID != 0) 6 ||| bit message.media 7

/-- What `dispatch` reads of a message and of the services around it. -/
structure Ingress where
  admitted : Bool := true
  fresh : Bool := true
  senderConsistent : Bool := true
  message : MessageEnvelope := {}
  cmdExists : Bool := false
  /-- `IsHandled` or `IsSuppressedCommands` of the shared decision. -/
  settled : Bool := false
  hasCommandIdentity : Bool := true
  canInvoke : Bool := true
  /-- No idempotency manager, or no legacy claim and a new one. -/
  claimed : Bool := true
  publishes : Bool := true
  peerResolved : Bool := true
  submitted : Bool := true

inductive Reached where
  | publication | commandAdmission | eventHooks
  deriving DecidableEq

/-- The rest of `dispatch`, once the decision hooks let the message pass. -/
def Ingress.reached (i : Ingress) : List Reached :=
  if i.settled then []
  else if i.cmdExists && !(i.hasCommandIdentity && i.canInvoke && i.claimed) then []
  else
    let published := if i.publishes then [Reached.publication] else []
    if !i.message.isCommand || !i.cmdExists then published ++ [.eventHooks]
    else if !i.peerResolved then published
    else if !i.submitted then published ++ [.commandAdmission]
    else published ++ [.commandAdmission, .eventHooks]

/-- `dispatch`: the trace of the decision hooks, and what the message reaches. -/
def Registry.dispatch (r : Registry) (i : Ingress) (turns : Nat → Turn) : List Event × List Reached :=
  if !i.admitted || !i.fresh || !i.senderConsistent then ([], [])
  else
    let handlers := r.messageHandlersForClass (classifyCanonicalMessageRoute i.message)
    let decision := executeDecisionHandlers turns handlers.decision false
    (decision.2, if decision.1 then [] else i.reached)

/-! ### The index and the order of the handlers -/

variable {h : PrioritizedHandler} {hs : List PrioritizedHandler} {t : Turn} {turns : Nat → Turn} {r : Registry}

def filterHandlers (handlers : List PrioritizedHandler) (cls : UInt8) : MessageHandlerBucket where
  decision := handlers.filter fun h => messageHookRoutingMatchesClass h.routing cls && h.routing.lane == .decision
  event := handlers.filter fun h => messageHookRoutingMatchesClass h.routing cls && h.routing.lane == .event

/-- The order of priority, and of registration within a priority. -/
def Before (a b : PrioritizedHandler) : Prop := a.priority < b.priority ∨ a.priority = b.priority ∧ a.id < b.id

theorem foldl_indexHandler {idx : UInt8 → MessageHandlerBucket} {cls : UInt8} : hs.foldl indexHandler idx cls =
      ⟨(idx cls).decision ++ (filterHandlers hs cls).decision, (idx cls).event ++ (filterHandlers hs cls).event⟩ := by
  induction hs generalizing idx with
  | nil => simp [filterHandlers]
  | cons h hs ih =>
    rw [foldl_cons, ih, indexHandler]
    cases hmatch : messageHookRoutingMatchesClass h.routing cls <;> cases hlane : h.routing.lane <;>
      simp [filterHandlers, hmatch, hlane]

/-- A handler that comes before every later one of its priority finds its place. -/
theorem pairwise_orderedInsert {a : PrioritizedHandler} (hordered : hs.Pairwise Before)
    (ha : ∀ b ∈ hs, a.priority ≤ b.priority → Before a b) : (hs.orderedInsert (fun a b => a.priority ≤ b.priority) a).Pairwise Before := by
  induction hs with
  | nil => simp
  | cons b hs ih =>
    obtain ⟨hb, hrest⟩ := pairwise_cons.mp hordered
    rw [List.orderedInsert]
    split_ifs with hle
    · refine pairwise_cons.mpr ⟨fun c hc => ha c hc ?_, hordered⟩
      rcases mem_cons.mp hc with rfl | hmem
      · exact hle
      · rcases hb c hmem with hlt | ⟨heq, -⟩ <;> omega
    · refine pairwise_cons.mpr ⟨fun c hc => ?_, ih hrest fun c hc => ha c (mem_cons_of_mem b hc)⟩
      rcases (mem_orderedInsert _).mp hc with rfl | hmem
      · exact .inl (not_le.mp hle)
      · exact hb c hmem

theorem pairwise_sortHandlers (hstable : hs.Pairwise fun a b => a.priority ≤ b.priority → Before a b) :
    (sortHandlers hs).Pairwise Before := by
  induction hs with
  | nil => exact .nil
  | cons a hs ih =>
    obtain ⟨ha, hrest⟩ := pairwise_cons.mp hstable
    exact pairwise_orderedInsert (ih hrest) fun b hb => ha b ((mem_insertionSort _).mp hb)

namespace Registry

/-- The registry between two operations. -/
structure Sound (r : Registry) : Prop where
  index : ∀ cls, r.messageHandlersForClass cls = filterHandlers r.messageHandlers cls
  ordered : r.messageHandlers.Pairwise Before
  issued : ∀ h ∈ r.messageHandlers, h.id ≤ r.nextHandlerID
  policy : ∀ h ∈ r.messageHandlers, h.failurePolicy = failurePolicyForPriority h.priority

theorem index_rebuild (cls : UInt8) : r.rebuildMessageHandlerIndexLocked.messageHandlersForClass cls =
    filterHandlers r.messageHandlers cls := by
  simp [rebuildMessageHandlerIndexLocked, messageHandlersForClass, foldl_indexHandler]

theorem Sound.apply (hsound : r.Sound) (op : RegistryOp) : (r.apply op).Sound := by
  cases op with
  | add priority scope routing stateGate =>
    have hmem : ∀ h ∈ (r.addMessageHandler priority scope routing stateGate).messageHandlers, h ∈ r.messageHandlers ∨
        h = ⟨r.nextHandlerID + 1, priority, failurePolicyForPriority priority, routing, stateGate, scope⟩ := by
      intro h hh
      simpa using (mem_insertionSort _).mp hh
    refine ⟨index_rebuild, pairwise_sortHandlers ?_, fun h hh => ?_, fun h hh => ?_⟩
    · refine pairwise_append.mpr ⟨hsound.ordered.imp ?_, by simp, fun a ha b hb hle => ?_⟩
      · exact fun hab _ => hab
      have hid := hsound.issued a ha
      obtain rfl := mem_singleton.mp hb
      rcases hle.lt_or_eq with hlt | heq
      · exact .inl hlt
      · exact .inr ⟨heq, Nat.lt_succ_of_le hid⟩
    · rcases hmem h hh with hold | rfl
      · exact (hsound.issued h hold).trans (Nat.le_succ _)
      · exact le_rfl
    · rcases hmem h hh with hold | rfl
      · exact hsound.policy h hold
      · rfl
  | remove =>
    rw [Registry.apply, removeMessageHandler]
    split_ifs
    · exact ⟨index_rebuild, hsound.ordered.sublist eraseP_sublist, fun h hh => hsound.issued h (mem_of_mem_eraseP hh),
        fun h hh => hsound.policy h (mem_of_mem_eraseP hh)⟩
    · exact hsound

theorem sound_after (history : List RegistryOp) : (after history).Sound := by
  refine List.foldlRecOn history Registry.apply ⟨fun _ => rfl, .nil, by simp, by simp⟩ fun r hsound op _ => hsound.apply op

end Registry

/-! ### What the loop guarantees -/

def Event.starts : Event → Option Nat
  | .started id => some id
  | _ => none

def Event.intercepts : Event → Bool
  | .started _ => false
  | .ended _ how _ => how == .intercepted
  | .late => true

/-- If the first of two events is an interception, the second starts no hook. -/
def Final (a b : Event) : Prop := a.intercepts = true → b.starts = none

instance : DecidableRel Final := fun _ _ => inferInstanceAs (Decidable (_ → _))

/-- No interception is lost: no hook intercepts after the loop went on without it, and none that fails open intercepts
in a task that is cancelled meanwhile. -/
def Kept (h : PrioritizedHandler) (t : Turn) : Prop :=
  t.late = false ∧ (h.failurePolicy = .failOpen → t.task ≠ .ran .intercepted true)

/-- What a turn leaves behind: at most its own hook is started, none once the shared context has ended; a handler that
fails closed lets the message pass only after its hook has returned in time. -/
theorem decisionTurn_spec (h : PrioritizedHandler) (t : Turn) (expired : Bool) :
    ((decisionTurn h t expired).events.filterMap Event.starts = [] ∨ (decisionTurn h t expired).events.filterMap Event.starts = [h.id]) ∧
    (expired = true → (decisionTurn h t expired).expired = true ∧ (decisionTurn h t expired).events = []) ∧
    (h.failurePolicy = .failClosed → messageHookStateInterested h t.gate = true → (decisionTurn h t expired).denied = false →
      .ended h.id .returned false ∈ (decisionTurn h t expired).events) ∧ (decisionTurn h t expired).events.Pairwise Final := by
  rcases t with ⟨gate, late, lapsed, direct, remaining, client, accepted, task, overrun, waitErr⟩
  unfold decisionTurn
  split_ifs with hgate hlapsed hscope htask hfail
  · simp [hgate]
  · simp_all
  · cases direct <;> simp_all [Event.starts, Final, Event.intercepts, safeExecuteMessageHook]
  · simp_all
  · cases task <;> simp_all [TaskRun.events, Event.starts, Final, Event.intercepts]
  · cases task with
    | ran how =>
      cases how <;> simp_all [TaskRun.events, TaskRun.how, Event.starts, Final, Event.intercepts, safeExecuteMessageHook]
    | unstarted | running => simp_all [TaskRun.succeeded]

/-- A message that passes a turn in which a hook intercepted has no time left. -/
theorem decisionTurn_final (hkept : Kept h t) (hpass : (decisionTurn h t expired).denied = false) :
    (decisionTurn h t expired).expired = true ∨ ∀ e ∈ (decisionTurn h t expired).events, e.intercepts = false := by
  rcases t with ⟨gate, late, lapsed, direct, remaining, client, accepted, task, overrun, waitErr⟩
  have htask := hkept.2
  unfold decisionTurn at hpass ⊢
  split_ifs at hpass ⊢ with hgate hlapsed hscope huns hfail
  · simp
  · simp
  · cases direct <;> simp_all [Event.intercepts, safeExecuteMessageHook]
  · simp
  · cases task with
    | ran how =>
      cases hpolicy : h.failurePolicy <;> cases how <;> simp_all [TaskRun.events, TaskRun.succeeded, Event.intercepts]
    | unstarted | running => simp [TaskRun.events, Event.intercepts]
  · cases task with
    | ran how => cases how <;> simp_all [TaskRun.events, TaskRun.how, Event.intercepts, safeExecuteMessageHook]
    | unstarted | running => simp [TaskRun.events, Event.intercepts]

/-- The hooks that are started are some of the handlers, in their order. -/
theorem starts_sublist (expired : Bool) :
    ((executeDecisionHandlers turns hs expired).2.filterMap Event.starts).Sublist (hs.map (·.id)) := by
  induction hs generalizing expired with
  | nil => exact .slnil
  | cons h hs ih =>
    have hrest := ih (decisionTurn h (turns h.id) expired).expired
    rw [executeDecisionHandlers]
    rcases (decisionTurn_spec h (turns h.id) expired).1 with hown | hown <;> split_ifs <;>
      cases (turns h.id).late <;> simp [lateEvents, filterMap_cons, hown, hrest, hrest.cons, Event.starts]

/-- A message passes only if every hook that fails closed, and is not gated out, has returned in time. -/
theorem returned_of_passed (hpass : (executeDecisionHandlers turns hs expired).1 = false)
    (hmem : h ∈ hs) (hpolicy : h.failurePolicy = .failClosed) (hgate : messageHookStateInterested h (turns h.id).gate = true) :
    .ended h.id .returned false ∈ (executeDecisionHandlers turns hs expired).2 := by
  induction hs generalizing expired with
  | nil => cases hmem
  | cons h' hs ih =>
    rw [executeDecisionHandlers] at hpass ⊢
    split_ifs at hpass ⊢ with hdenied
    rcases mem_cons.mp hmem with rfl | hmem
    · have hown := (decisionTurn_spec h (turns h.id) expired).2.2.1 hpolicy hgate (by simpa using hdenied)
      simp [hown]
    · simp [ih hpass hmem]

/-- If no interception is lost, no hook is started after one. -/
theorem final_of_kept (hkept : ∀ h ∈ hs, Kept h (turns h.id)) (expired : Bool) :
    (executeDecisionHandlers turns hs expired).2.Pairwise Final ∧
      (expired = true → ∀ e ∈ (executeDecisionHandlers turns hs expired).2, e.starts = none) := by
  induction hs generalizing expired with
  | nil => exact ⟨.nil, by simp [executeDecisionHandlers]⟩
  | cons h hs ih =>
    obtain ⟨-, hexp, -, hown⟩ := decisionTurn_spec h (turns h.id) expired
    have hlate := (hkept h mem_cons_self).1
    obtain ⟨hrest, hnone⟩ := ih (fun h hh => hkept h (mem_cons_of_mem _ hh)) (decisionTurn h (turns h.id) expired).expired
    rw [executeDecisionHandlers, hlate]
    split_ifs with hdenied
    · refine ⟨hown, fun hx e he => ?_⟩
      simp [lateEvents, (hexp hx).2] at he
    · refine ⟨pairwise_append.mpr ⟨hown, hrest, fun a ha b hb hintercepts => ?_⟩, fun hx e he => ?_⟩
      · -- an interception in this turn leaves no time for the rest
        rcases decisionTurn_final (hkept h mem_cons_self) (by simpa using hdenied) with hx | hfree
        · exact hnone hx b hb
        · simp [hfree a ha] at hintercepts
      · refine hnone (hexp hx).1 e ?_
        simpa [lateEvents, (hexp hx).2] using he

/-- Security decisions fail closed, hooks are started in the order of priority and registration, the index is the filter
of the registered handlers, and no hook is started after an interception if no interception is lost. -/
theorem decisions_fail_closed (history : List RegistryOp) (i : Ingress) (turns : Nat → Turn) :
    ((Registry.dispatch (.after history) i turns).2 ≠ [] → ∀ h ∈ (Registry.after history).messageHandlers,
      h.routing.lane = .decision → h.priority ≤ prioritySecurity →
      messageHookRoutingMatchesClass h.routing (classifyCanonicalMessageRoute i.message) = true →
      ¬(h.stateGate = true ∧ (turns h.id).gate = some false) →
      .ended h.id .returned false ∈ (Registry.dispatch (.after history) i turns).1) ∧
    (∃ started : List PrioritizedHandler, started.Sublist (Registry.after history).messageHandlers ∧ started.Pairwise Before ∧
      (Registry.dispatch (.after history) i turns).1.filterMap Event.starts = started.map (·.id)) ∧
    ((∀ h ∈ (Registry.after history).messageHandlers, Kept h (turns h.id)) →
      (Registry.dispatch (.after history) i turns).1.Pairwise Final) ∧
    ∀ cls, (Registry.after history).messageHandlersForClass cls = filterHandlers (Registry.after history).messageHandlers cls := by
  have hsound := Registry.sound_after history
  have hbucket := hsound.index (classifyCanonicalMessageRoute i.message)
  have hsub := filter_sublist (p := fun h : PrioritizedHandler => messageHookRoutingMatchesClass h.routing
    (classifyCanonicalMessageRoute i.message) && h.routing.lane == .decision) (l := (Registry.after history).messageHandlers)
  unfold Registry.dispatch
  split_ifs with hin
  · exact ⟨fun hne => absurd rfl hne, ⟨[], by simp, .nil, rfl⟩, fun _ => .nil, hsound.index⟩
  · rw [hbucket]
    refine ⟨fun hreached h hmem hlane hprior hmatch hgate => ?_, ?_, fun hkept => ?_, hsound.index⟩
    · refine returned_of_passed (by by_contra hdenied; simp [hdenied] at hreached)
        (mem_filter.mpr ⟨hmem, by simp [hmatch, hlane]⟩) ?_ ?_
      · rw [hsound.policy h hmem, failurePolicyForPriority, if_pos hprior]
      · cases hstate : h.stateGate <;> rcases hopen : (turns h.id).gate with - | - | - <;>
          simp_all [messageHookStateInterested]
    · obtain ⟨started, hstarted, heq⟩ := sublist_map_iff.mp (starts_sublist false)
      exact ⟨started, hstarted.trans hsub, hsound.ordered.sublist (hstarted.trans hsub), heq⟩
    · exact (final_of_kept (fun h hh => hkept h (hsub.subset hh)) false).1

/-- A feature hook, a moderation hook and a gated security hook of three plugins. -/
def pluginHooks : List RegistryOp :=
  [.add 50 ⟨goString "afk", 1⟩ {} false, .add 20 ⟨goString "filters", 1⟩ {} false,
    .add prioritySecurity ⟨goString "blacklist", 1⟩ {} true]

theorem decisions_fail_closed_passed : (Registry.dispatch (.after pluginHooks) {} fun _ => {}).2 = [.publication, .eventHooks] ∧
    .ended 3 .returned false ∈ (Registry.dispatch (.after pluginHooks) {} fun _ => {}).1 ∧
    (Registry.dispatch (.after pluginHooks) {} fun _ => {}).1.Pairwise Final := by
  have hreached : (Registry.dispatch (.after pluginHooks) {} fun _ => {}).2 = [.publication, .eventHooks] := by decide +kernel
  obtain ⟨hsecond, -, hfinal, -⟩ := decisions_fail_closed pluginHooks {} fun _ => {}
  refine ⟨hreached, ?_, hfinal fun _ _ => ⟨rfl, fun _ => nofun⟩⟩
  exact hsecond (by simp [hreached]) ⟨3, prioritySecurity, .failClosed, {}, true, ⟨goString "blacklist", 1⟩⟩ (.head _) rfl le_rfl rfl nofun

/-- The moderation plugin is unloaded while its hook runs: the hook intercepts in a cancelled task, so that the feature
hook is started and the message is published. -/
theorem interception_lost : (Registry.dispatch (.after pluginHooks) {} fun id =>
    if id = 2 then { task := .ran .intercepted true } else {}) =
    ([.started 3, .ended 3 .returned false, .started 2, .ended 2 .intercepted false, .started 1, .ended 1 .returned false],
      [.publication, .eventHooks]) := by
  decide +kernel

end Goultroid.Dispatcher
