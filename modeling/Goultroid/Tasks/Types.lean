import Mathlib.Algebra.Group.Int.Defs
import Mathlib.Algebra.Group.Nat.Defs
import Mathlib.Data.List.Basic

/-!
# The vocabulary of the execution runtime

The types of `internal/tasks` and `internal/execution` that the admission controller and the task
engine exchange. A Go string is its bytes, an enumeration whose Go type is an open `string` keeps an
`other` constructor for the remaining values, a function value is known only by its name, and times
and durations are nanoseconds, with the zero time at `0`.
-/

namespace Goultroid

open List

/-- A Go string: its bytes, valid UTF-8 or not. -/
abbrev GoString := List UInt8

instance : LawfulBEq GoString := inferInstance

/-- The bytes of a string literal of the source. -/
def goString (s : String) : GoString := s.toUTF8.data.toList

/-- `strings.TrimSpace(s) == ""`: every rune of `s` is white space. -/
def blank : GoString → Bool
  | [] => true
  | 0xC2 :: b :: rest => (b == 0x85 || b == 0xA0) && blank rest
  | 0xE1 :: 0x9A :: b :: rest => b == 0x80 && blank rest
  | 0xE2 :: 0x80 :: b :: rest =>
    ((0x80 ≤ b && b ≤ 0x8A) || b == 0xA8 || b == 0xA9 || b == 0xAF) && blank rest
  | 0xE2 :: 0x81 :: b :: rest => b == 0x9F && blank rest
  | 0xE3 :: 0x80 :: b :: rest => b == 0x80 && blank rest
  | b :: rest => ((0x09 ≤ b && b ≤ 0x0D) || b == 0x20) && blank rest

abbrev TaskID := GoString
abbrev OwnerID := GoString
abbrev PoolID := GoString
abbrev AttemptID := GoString
abbrev OccurrenceID := GoString

/-- Nanoseconds since Go's zero time. -/
abbrev Time := Int

abbrev Duration := Int

/-- `t.Sub(u)`, saturating at the range of `time.Duration`. -/
def timeSub (t u : Time) : Duration := max (-2 ^ 63) (min (2 ^ 63 - 1) (t - u))

/-- `t.UnixNano()`, where the result fits. -/
def unixNano (t : Time) : Int := t - 62135596800000000000

/-- `t.UnixNano()` as an `int64`. -/
def unixNano64 (t : Time) : Int := Int.bmod (unixNano t) (2 ^ 64)

/-- The name of a function value; nothing else about it is observed by the coordinator. -/
abbrev Closure := Nat

inductive PriorityClass where
  | unset
  | interactive
  | normal
  | background
  | maintenance
  | other (name : GoString)
  deriving DecidableEq

def PriorityClass.text : PriorityClass → GoString
  | .unset => []
  | .interactive => goString "interactive"
  | .normal => goString "normal"
  | .background => goString "background"
  | .maintenance => goString "maintenance"
  | .other name => name

structure ScopeIdentity where
  owner : GoString
  generation : Nat
  deriving DecidableEq

structure OccurrenceRef where
  jobID : GoString
  occurrenceID : OccurrenceID
  attemptID : AttemptID
  leaseEpoch : Nat
  deriving DecidableEq

inductive Outcome where
  | unset
  | completed
  | failed
  | timedOut
  | cancelled
  | panicked
  | abortedBeforeStart
  deriving DecidableEq

inductive Cause where
  | unset
  | none
  | timeout
  | userCancel
  | shutdown
  | queueExpired
  | quotaExceeded
  | panicked
  | persistenceFailure
  | scopeClosed
  | leaseLost
  | rateLimited
  | admissionRejected
  | other (name : GoString)
  deriving DecidableEq

def Cause.text : Cause → GoString
  | .unset => []
  | .none => goString "none"
  | .timeout => goString "timeout"
  | .userCancel => goString "user_cancel"
  | .shutdown => goString "shutdown"
  | .queueExpired => goString "queue_expired"
  | .quotaExceeded => goString "quota_exceeded"
  | .panicked => goString "panic"
  | .persistenceFailure => goString "persistence_failure"
  | .scopeClosed => goString "scope_closed"
  | .leaseLost => goString "lease_lost"
  | .rateLimited => goString "rate_limited"
  | .admissionRejected => goString "admission_rejected"
  | .other name => name

/-- `execution.Disposition`. -/
inductive Disposition where
  | unset
  | success
  | handled
  | rejected
  | retryable
  | permanent
  | cancelled
  | internal
  | other (name : GoString)
  deriving DecidableEq

def Disposition.text : Disposition → GoString
  | .unset => []
  | .success => goString "success"
  | .handled => goString "handled"
  | .rejected => goString "rejected"
  | .retryable => goString "retryable"
  | .permanent => goString "permanent"
  | .cancelled => goString "cancelled"
  | .internal => goString "internal"
  | .other name => name

inductive TaskState where
  | created
  | admitted
  | queued
  | dispatching
  | running
  | commitPending
  | completed
  | failed
  | cancelled
  | timedOut
  | recoveryRequired
  deriving DecidableEq

namespace TaskState

/-- The five states `taskRecord.isTerminal` lists. -/
def isTerminal : TaskState → Bool
  | completed | failed | timedOut | cancelled | recoveryRequired => true
  | _ => false

/-- A task that holds a physical slot, an owner credit and its resources. -/
def isActive : TaskState → Bool
  | dispatching | running => true
  | _ => false

end TaskState

structure FailureInfo where
  code : GoString := []
  message : GoString := []
  detail : GoString := []
  deriving DecidableEq

/-- A Go `any` as the engine tells payloads apart: `payloadSize` and `capOutput` look at the kind of
the value and at its size. -/
inductive Payload where
  | nil
  | string (s : GoString)
  | bytes (b : List UInt8)
  | byteArray (b : List UInt8)
  | scalar (size : Nat)
  | mutable
  deriving DecidableEq

structure TaskResult where
  taskID : TaskID := []
  attemptID : AttemptID := []
  outcome : Outcome := .unset
  cause : Cause := .unset
  disposition : Disposition := .unset
  startedAt : Time := 0
  finishedAt : Time := 0
  retryAfter : Duration := 0
  output : Payload := .nil
  failure : FailureInfo := {}
  deriving DecidableEq

/-- A declared amount of a named resource, in Go's `int64`. -/
structure ResourceRequirement where
  name : GoString
  amount : Int64
  deriving DecidableEq

structure WorkSpec where
  id : TaskID
  scope : ScopeIdentity := ⟨[], 0⟩
  quotaOwner : OwnerID
  pool : PoolID
  cls : PriorityClass := .unset
  orderingKey : GoString := []
  queueDeadline : Time := 0
  executionTimeout : Duration := 0
  handlerRef : GoString := []
  input : Payload := .nil
  job : Option OccurrenceRef := none
  resources : List ResourceRequirement := []
  handler : Option Closure := none
  commit : Option Closure := none
  onComplete : Option Closure := none
  deriving DecidableEq

variable {s t : WorkSpec}

/-- `WorkSpec.RequiresDurability`. -/
def WorkSpec.requiresDurability (s : WorkSpec) : Bool := s.commit.isSome

/-- The queue deadline has passed at `now`; a zero deadline never does. -/
def WorkSpec.expiredAt (s : WorkSpec) (now : Time) : Bool :=
  s.queueDeadline != 0 && decide (s.queueDeadline < now)

/-! ### Errors -/

/-- The structured rejection reasons. -/
inductive AdmissionReason where
  | ownerQueueFull
  | poolBacklogFull
  | payloadBudget
  | unsupportedPayload
  | resourceUnavailable
  | resultBackpressure
  | deliveryBackpressure
  | deadlineExpired
  | scopeClosed
  | engineQuiescing
  | unknownHandler
  | linearizationCancel
  | retainedBudget
  deriving DecidableEq

/-- The sentinel errors of `internal/tasks` and `internal/admission`. -/
inductive TaskError where
  | engineQuiescing
  | ownerQueueFull
  | poolBacklogFull
  | payloadBudget
  | unsupportedPayload
  | resourceUnavailable
  | resultBackpressure
  | deliveryBackpressure
  | deadlineExpired
  | scopeClosed
  | unknownHandler
  | linearizationCancel
  | retainedBudget
  | taskNotFound
  | poolNotConfigured
  deriving DecidableEq

/-- `tasks.AdmissionError`. -/
structure AdmissionError where
  reason : AdmissionReason
  err : TaskError
  deriving DecidableEq

/-! ### Validation -/

/-- The errors of `WorkSpec.Validate`. -/
inductive SpecError where
  | emptyID
  | emptyOwner
  | emptyPool
  | noHandler
  | invalidClass
  | negativeTimeout
  | badResource
  | duplicateResource
  deriving DecidableEq

/-- The resource loop of `Validate`; `seen` holds the names already met. -/
def validateResources : List ResourceRequirement → List GoString → Except SpecError Unit
  | [], _ => .ok ()
  | requirement :: rest, seen =>
    if blank requirement.name || requirement.amount ≤ 0 then .error .badResource
    else if requirement.name ∈ seen then .error .duplicateResource
    else validateResources rest (requirement.name :: seen)

/-- The second half of `Validate`, once the class default is filled in. -/
def WorkSpec.validateTail (s : WorkSpec) : Except SpecError WorkSpec :=
  match s.cls with
  | .unset | .other _ => .error .invalidClass
  | .interactive | .normal | .background | .maintenance =>
    if s.executionTimeout < 0 then .error .negativeTimeout
    else (validateResources s.resources []).map fun _ => s

/-- `WorkSpec.Validate`, which also fills in the default class. -/
def WorkSpec.validate (s : WorkSpec) : Except SpecError WorkSpec :=
  if blank s.id then .error .emptyID
  else if blank s.quotaOwner then .error .emptyOwner
  else if blank s.pool then .error .emptyPool
  else if s.handler.isNone && blank s.handlerRef then .error .noHandler
  else (if s.cls = .unset then { s with cls := .normal } else s).validateTail

/-- What validation promises about the resources of a spec. -/
structure ResourcesValid (l : List ResourceRequirement) : Prop where
  positive : ∀ requirement ∈ l, 0 < requirement.amount
  distinct : (l.map (·.name)).Nodup

theorem validateResources_ok {l : List ResourceRequirement} {seen : List GoString} (h : validateResources l seen = .ok ()) :
    ResourcesValid l ∧ ∀ requirement ∈ l, requirement.name ∉ seen := by
  induction l generalizing seen with
  | nil => exact ⟨⟨by simp, by simp⟩, by simp⟩
  | cons requirement _ ih =>
    rw [validateResources] at h
    split_ifs at h with hbad hdup
    obtain ⟨hvalid, hfresh⟩ := ih h
    have hpos : 0 < requirement.amount := by
      simp only [Bool.or_eq_true, decide_eq_true_eq, not_or] at hbad
      exact Int64.not_le.mp hbad.2
    refine ⟨⟨?_, ?_⟩, ?_⟩
    · intro r hr
      rcases mem_cons.mp hr with rfl | hr
      · exact hpos
      · exact hvalid.positive r hr
    · rw [map_cons, nodup_cons]
      refine ⟨fun hmem => ?_, hvalid.distinct⟩
      obtain ⟨r, hr, hname⟩ := mem_map.mp hmem
      exact hfresh r hr (by simp [hname])
    · intro r hr
      rcases mem_cons.mp hr with rfl | hr
      · exact hdup
      · exact fun hs => hfresh r hr (mem_cons_of_mem _ hs)

theorem WorkSpec.validateTail_ok (h : s.validateTail = .ok t) : t = s ∧ t.cls ≠ .unset ∧ ResourcesValid t.resources := by
  have hres : ∀ {r : Except SpecError Unit}, r.map (fun _ => s) = .ok t → r = .ok () ∧ s = t := by
    intro r hr
    cases r with
    | error => cases hr
    | ok => cases hr; exact ⟨rfl, rfl⟩
  rw [validateTail] at h
  split at h
  · cases h
  · cases h
  all_goals
    rename_i hcls
    split_ifs at h
    obtain ⟨hok, rfl⟩ := hres h
    exact ⟨rfl, by simp [hcls], (validateResources_ok hok).1⟩

theorem WorkSpec.validate_ok (h : s.validate = .ok t) :
    t = { s with cls := t.cls } ∧ t.cls ≠ .unset ∧ ResourcesValid t.resources := by
  rw [validate] at h
  split_ifs at h with _ _ _ _ hc
  iterate 2
    · obtain ⟨rfl, hrest⟩ := validateTail_ok h
      exact ⟨rfl, hrest⟩

end Goultroid
