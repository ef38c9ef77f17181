import Goultroid.Tasks.Types
import Mathlib.Data.List.Basic
import Mathlib.Data.List.FinRange
import Mathlib.Tactic.Common

/-!
# The event bus

`internal/core/events.go`: subscriptions, the counters that tell a producer without a lock whether somebody wants an event, and the two
ways to publish. The counters are exact, but the fast path of `Publish` takes a priority out of range for the normal one, which
`PublishDurable` does not (`publications_agree_iff`).

A subscription and its end move one counter together with one subscriber, so every call keeps `Exact`, and the test of the fast path is
a test on the subscribers themselves (`hasSubscribersAtPriority_iff`). Both ways to publish then go through the same list, and they
differ only where the fast path reads another priority than the loop.
-/

namespace Goultroid.Events

open List

/-- `PriorityCritical` is 0, `PriorityHigh` 1. -/
def priorityNormal : Fin 4 := 2
def priorityLow : Fin 4 := 3

def builtinEventTypes : List GoString :=
  [goString "message.created", goString "message.edited", goString "messages.deleted", goString "callback.query",
    goString "reaction.updated", goString "inline.chosen", goString "admin.action", goString "pmpermit.action",
    goString "setting.changed", goString "job.lifecycle", goString "group.service"]

def builtinEventTypeIndex (t : GoString) : Option Nat :=
  if t ∈ builtinEventTypes then some (builtinEventTypes.idxOf t) else none

/-- An event that is no `PrioritizedEvent` has the normal priority. -/
structure Event where
  type : GoString
  priority : Int := priorityNormal.val

structure EventSubscriber where
  eventType : GoString
  id : Nat
  owner : GoString
  minPriority : Fin 4
  deriving DecidableEq

structure EventBus where
  subscribers : List EventSubscriber := []
  nextID : Nat := 0
  subscriberInterest : Nat → Fin 4 → Int := fun _ _ => 0
  middlewares : List GoString := []
  started : Bool := false
  closed : Bool := false

inductive PublishError where
  | eventBusClosed | eventBusNotStarted | contextDone | handlerFailed

/-- A priority, or the default where it is out of range. -/
def inRange (priority : Int) (default : Fin 4) : Fin 4 := if priority < 0 ∨ 3 < priority then default else .ofNat 4 priority.toNat

namespace EventBus

variable (b : EventBus)

/-- `b.subscribers[t]`. -/
def subscribersOf (t : GoString) : List EventSubscriber := b.subscribers.filter (·.eventType = t)

def addSubscriberInterest (t : GoString) (priority : Fin 4) (delta : Int) : EventBus :=
  { b with subscriberInterest := fun i p =>
      b.subscriberInterest i p + if builtinEventTypeIndex t = some i ∧ priority = p then delta else 0 }

def hasSubscribersAtPriority (t : GoString) (priority : Int) : Bool :=
  let priority := inRange priority priorityNormal
  match builtinEventTypeIndex t with
  | some idx => (finRange 4).any fun minPriority => priority ≤ minPriority && decide (0 < b.subscriberInterest idx minPriority)
  | none => (b.subscribersOf t).any (priority ≤ ·.minPriority)

/-- `SubscribeWithOptions`, to which the other ways to subscribe come down. -/
def subscribeWithOptions (t owner : GoString) (minPriority : Int) : EventBus :=
  if b.closed then b
  else
    let minPrio := inRange minPriority priorityLow
    { b with
      nextID := b.nextID + 1
      subscribers := ⟨t, b.nextID + 1, owner, minPrio⟩ :: b.subscribers }.addSubscriberInterest t minPrio 1

/-- `Subscription.Close`. -/
def closeSubscription (t : GoString) (id : Nat) : EventBus :=
  match b.subscribers.find? fun s => s.eventType = t ∧ s.id = id with
  | none => b
  | some s => { b with subscribers := b.subscribers.erase s }.addSubscriberInterest t s.minPriority (-1)

/-- The subscribers that the loops of both ways to publish do not skip. -/
def accepting (event : Event) : List EventSubscriber := (b.subscribersOf event.type).filter (event.priority ≤ ·.minPriority.val)

/-- `Publish`: for whom there is a job, and whether its queue had room; otherwise it counts as dropped. -/
def publish (event : Event) (room : EventSubscriber → Bool) : List (EventSubscriber × Bool) :=
  if b.hasSubscribersAtPriority event.type event.priority = false ∨ b.closed = true ∨ b.started = false then []
  else (b.accepting event).map fun s => (s, room s)

/-- The loop of `PublishDurable`: who is invoked, up to the first failure. -/
def deliver (done fails : EventSubscriber → Bool) : List EventSubscriber → List EventSubscriber × Option PublishError
  | [] => ([], none)
  | s :: rest =>
    if done s then ([], some .contextDone)
    else if fails s then ([s], some .handlerFailed)
    else (s :: (deliver done fails rest).1, (deliver done fails rest).2)

/-- What a handler does depends on the middlewares around it. -/
def publishDurable (event : Event) (done : EventSubscriber → Bool) (fails : List GoString → EventSubscriber → Bool) :
    List EventSubscriber × Option PublishError :=
  if b.closed then ([], some .eventBusClosed)
  else if b.started = false then ([], some .eventBusNotStarted)
  else deliver done (fails b.middlewares) (b.accepting event)

inductive Call where
  | start
  | subscribe (t owner : GoString) (minPriority : Int)
  | close (t : GoString) (id : Nat)
  | use (mw : List GoString)
  | closeContext

def step : Call → EventBus
  | .start => { b with started := b.started || !b.closed }
  | .subscribe t owner minPriority => b.subscribeWithOptions t owner minPriority
  | .close t id => b.closeSubscription t id
  | .use mw => { b with middlewares := b.middlewares ++ mw }
  | .closeContext => { b with closed := true, subscribers := [], subscriberInterest := fun _ _ => 0 }

/-- The counters say how many subscribers of a type have a priority. -/
def Exact : Prop :=
  ∀ i p, b.subscriberInterest i p = b.subscribers.countP fun s => builtinEventTypeIndex s.eventType = some i ∧ s.minPriority = p

section Runs

variable {b} {p : Int} {t : GoString}

theorem Exact.step (h : b.Exact) (call : Call) : (b.step call).Exact := by
  cases call with
  | start | use => exact h
  | closeContext => exact fun _ _ => rfl
  | subscribe =>
    unfold EventBus.step subscribeWithOptions
    split_ifs
    · exact h
    · intro i p
      simp only [addSubscriberInterest, countP_cons, h i p]
      split_ifs <;> simp_all
  | close t id =>
    show (b.closeSubscription t id).Exact
    unfold closeSubscription
    split
    · exact h
    · next s hfind =>
      obtain ⟨rfl, -⟩ : s.eventType = t ∧ s.id = id := by simpa using find?_some hfind
      intro i p
      have hcount := (perm_cons_erase (mem_of_find?_eq_some hfind)).countP_eq fun s =>
        builtinEventTypeIndex s.eventType = some i ∧ s.minPriority = p
      simp only [addSubscriberInterest, h i p, hcount, countP_cons]
      split_ifs <;> simp_all

theorem exact_run (h : b.Exact) (calls : List Call) : (calls.foldl step b).Exact := by
  induction calls generalizing b with
  | nil => exact h
  | cons call calls ih => exact ih (h.step call)

/-- The counters answer for the subscribers themselves. -/
theorem hasSubscribersAtPriority_iff (h : b.Exact) : b.hasSubscribersAtPriority t p = true ↔
    ∃ s ∈ b.subscribersOf t, inRange p priorityNormal ≤ s.minPriority := by
  unfold hasSubscribersAtPriority
  split
  · next idx hidx =>
    have hof (s : EventSubscriber) : s.eventType = t ↔ builtinEventTypeIndex s.eventType = some idx := by
      refine ⟨fun heq => heq ▸ hidx, fun hs => ?_⟩
      unfold builtinEventTypeIndex at hidx hs
      split_ifs at hidx hs with ht hs'
      exact (idxOf_inj hs').mp (Option.some.inj (hs.trans hidx.symm))
    simp [subscribersOf, hof, h idx, countP_pos_iff]
    tauto
  · simp

/-- Only a priority below the range can be taken for one that fewer subscribers accept. -/
theorem fast_path_iff (h : b.Exact) : ((∃ s ∈ b.subscribersOf t, p ≤ s.minPriority.val) → b.hasSubscribersAtPriority t p = true) ↔
      0 ≤ p ∨ ∀ s ∈ b.subscribersOf t, ∃ s' ∈ b.subscribersOf t, priorityNormal ≤ s'.minPriority := by
  rw [hasSubscribersAtPriority_iff h]
  by_cases hlow : 0 ≤ p
  · refine iff_of_true (fun ⟨s, hs, hle⟩ => ⟨s, hs, ?_⟩) (.inl hlow)
    have hmax := s.minPriority.isLt
    rw [inRange, if_neg (by omega), Fin.le_def, Fin.val_ofNat]
    omega
  · rw [inRange, if_pos (.inl (by omega))]
    constructor
    · exact fun hfast => .inr fun s hs => hfast ⟨s, hs, by omega⟩
    · rintro (hp | hsome) ⟨s, hs, -⟩
      · exact absurd hp hlow
      · exact hsome s hs

theorem deliver_all {l : List EventSubscriber} : (deliver (fun _ => false) (fun _ => false) l).1 = l := by
  induction l with
  | nil => rfl
  | cons s l ih => simp [deliver, ih]

end Runs

end EventBus

open EventBus

/-- After any calls the counters are exact. The fast path lets everything through that somebody accepts, and `Publish` addresses those whom
`PublishDurable` invokes, exactly for events that are not below the critical priority or of a type whose subscribers, if there are any,
include one that accepts normal events. -/
theorem publications_agree_iff (calls : List Call) (event : Event) (room : EventSubscriber → Bool) :
    let b : EventBus := calls.foldl step {}
    (∀ i p, b.subscriberInterest i p =
      b.subscribers.countP fun s => builtinEventTypeIndex s.eventType = some i ∧ s.minPriority = p) ∧
    ((((∃ s ∈ b.subscribersOf event.type, event.priority ≤ s.minPriority.val) →
        b.hasSubscribersAtPriority event.type event.priority = true) ∧
      ∀ s, s ∈ (b.publish event room).map Prod.fst ↔ s ∈ (b.publishDurable event (fun _ => false) fun _ _ => false).1) ↔
      0 ≤ event.priority ∨ ∀ s ∈ b.subscribersOf event.type, ∃ s' ∈ b.subscribersOf event.type, priorityNormal ≤ s'.minPriority) := by
  intro b
  have h : b.Exact := exact_run (fun _ _ => rfl) calls
  rw [← fast_path_iff h]
  refine ⟨h, fun hboth => hboth.1, fun hfast => ⟨hfast, fun s => ?_⟩⟩
  unfold publish publishDurable
  by_cases hopen : b.closed = true ∨ b.started = false
  · rw [if_pos (.inr hopen)]
    split_ifs <;> simp_all
  · rw [if_neg (not_or.mp hopen).1, if_neg (not_or.mp hopen).2, deliver_all]
    split_ifs with hnone
    · -- the fast path returned: nobody accepts the event
      refine iff_of_false (by simp) fun hs => ?_
      obtain ⟨hmem, hle⟩ := mem_filter.mp hs
      rw [hfast ⟨s, hmem, of_decide_eq_true hle⟩] at hnone
      exact hopen (by simpa using hnone)
    · simp

/-- An event below the critical priority is delivered by `PublishDurable`; `Publish` neither queues nor counts it. -/
theorem critical_subscriber_skipped :
    let b : EventBus := [.subscribe (goString "job.lifecycle") [] 0, .start].foldl step {}
    let event : Event := ⟨goString "job.lifecycle", -1⟩
    b.publish event (fun _ => true) = [] ∧
      (b.publishDurable event (fun _ => false) fun _ _ => false).1 = [⟨goString "job.lifecycle", 1, [], 0⟩] := by
  decide +kernel

end Goultroid.Events
