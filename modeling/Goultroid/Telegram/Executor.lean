import Goultroid.Lib.Text
import Goultroid.Tasks.Types

/-!
# The RPC executor

`RPCExecutor.Do` of `internal/telegram/rpc_executor.go`: an operation is tried under a retry policy, each try after a reservation. What the
limiter, the clock, the context, the sleeper and the operation do is read from a tape with an entry for each attempt. An operation that
is not idempotent is repeated after a FloodWait only, and its failure asks the caller for another try exactly where an error came back
after the end of the context (`mutation_repeated_iff`).

Only a FloodWait leads to another attempt of such an operation (`afterError_ok`). An induction over the attempts gives the form of every
run: calls that were rejected with a FloodWait, and one that ends it (`attempts_spec`). What the failure asks for is a case split over the
classes of errors (`afterError_error`).
-/

namespace Goultroid.Rpc

open List

/-! ### Semantics of results -/

inductive Disposition where
  | success | handled | rejected | retryable | permanent | cancelled | internal
  deriving DecidableEq

/-- `execution.Semantics`. -/
structure Semantics where
  disposition : Disposition
  code : GoString := []
  retryAfter : Duration := 0
  deriving DecidableEq

def Semantics.shouldRetry (s : Semantics) : Bool := s.disposition == .retryable || s.disposition == .internal

/-- An error, by what the executor asks of its chain. -/
structure GoError where
  text : GoString := []
  /-- `tgerr.AsFloodWait` -/
  floodWait : Option Duration := none
  /-- the type that `tgerr.Is` compares -/
  rpcType : Option GoString := none
  isCanceled : Bool := false
  isDeadlineExceeded : Bool := false
  /-- `ExecutionSemantics`, if there is a carrier -/
  semantics : Option Semantics := none
  /-- `RateLimitWait`, if there is a carrier -/
  rateLimitWait : Option Duration := none
  deriving DecidableEq

def explicitSemantics (err : GoError) : Option Semantics :=
  match err.semantics, err.rateLimitWait with
  | some s, _ => some s
  | none, some wait => some ⟨.retryable, goString "rate_limited", max wait 0⟩
  | none, none =>
    if err.isCanceled then some ⟨.cancelled, goString "context_cancelled", 0⟩
    else if err.isDeadlineExceeded then some ⟨.retryable, goString "deadline_exceeded", 0⟩
    else none

/-- `core.NewRateLimitError`; the cause stays in the chain. -/
def rateLimitError (wait : Duration) (err : GoError) : GoError :=
  { err with semantics := some ⟨.retryable, goString "rate_limited", max wait 0⟩, rateLimitWait := some wait }

/-! ### Classification -/

inductive RPCErrorClass where
  | unknown | success | transient | floodWait | stalePeer | permission | auth | invalidRequest
  deriving DecidableEq

def RPCErrorClass.text : RPCErrorClass → GoString
  | .success => goString "success"
  | .transient => goString "transient"
  | .floodWait => goString "flood_wait"
  | .stalePeer => goString "stale_peer"
  | .permission => goString "permission"
  | .auth => goString "auth"
  | .invalidRequest => goString "invalid_request"
  | .unknown => goString "unknown"

def stalePeerTypes : List String := ["PEER_ID_INVALID", "USER_ID_INVALID", "CHANNEL_INVALID", "CHAT_ID_INVALID", "INPUT_USER_DEACTIVATED"]

def permissionTypes : List String :=
  ["CHAT_ADMIN_REQUIRED", "CHAT_WRITE_FORBIDDEN", "USER_BANNED_IN_CHANNEL", "USER_BANNED", "CHANNEL_PRIVATE", "USER_NOT_MUTUAL_CONTACT",
    "RIGHT_FORBIDDEN"]

def authTypes : List String := ["AUTH_KEY_UNREGISTERED", "SESSION_REVOKED", "USER_DEACTIVATED", "USER_DEACTIVATED_BAN"]

def invalidRequestTypes : List String :=
  ["MESSAGE_ID_INVALID", "MESSAGE_TOO_LONG", "USERNAME_INVALID", "USERNAME_NOT_OCCUPIED", "USER_NOT_FOUND"]

/-- `tgerr.Is`. -/
def GoError.isType (err : GoError) (types : List String) : Bool := err.rpcType.any fun t => (types.map goString).contains t

/-- `ClassifyRPCError` of an error. -/
def classifyRPCError (err : GoError) : RPCErrorClass :=
  if err.floodWait.isSome then .floodWait
  else if err.isType stalePeerTypes then .stalePeer
  else if err.isType permissionTypes then .permission
  else if err.isType authTypes then .auth
  else if err.isType invalidRequestTypes then .invalidRequest
  else if err.isType ["RPC_CALL_FAIL"] then .transient
  else if ["TIMEOUT", "CONNECTION RESET", "TEMPORAR", "EOF"].any fun s => Text.contains (Text.toUpper err.text) (goString s) then .transient
  else .unknown

/-! ### Failures -/

structure RPCFailure where
  errorClass : RPCErrorClass
  attempts : Nat
  retryAfter : Duration := 0
  ambiguous : Bool := false
  err : GoError
  deriving DecidableEq

def RPCFailure.executionSemantics (f : RPCFailure) : Semantics :=
  if f.ambiguous then ⟨.permanent, goString "rpc_ambiguous", 0⟩
  else
    match f.errorClass with
    | .floodWait =>
      let wait := if f.retryAfter ≤ 0 then ((explicitSemantics f.err).map Semantics.retryAfter).getD f.retryAfter else f.retryAfter
      ⟨.retryable, goString "rpc_flood_wait", wait⟩
    | .transient | .stalePeer => ⟨.retryable, goString "rpc_" ++ f.errorClass.text, 0⟩
    | .permission | .auth | .invalidRequest => ⟨.permanent, goString "rpc_" ++ f.errorClass.text, 0⟩
    | .success => ⟨.success, [], 0⟩
    | .unknown => (explicitSemantics f.err).getD ⟨.internal, goString "rpc_unknown", 0⟩

/-! ### The executor -/

inductive RPCOperationKind where
  | readOnly | idempotentMutation | nonIdempotentMutation
  deriving DecidableEq

/-- What holds during one `Do`: the operation, the policy in force, the context and the start. -/
structure Setting where
  kind : RPCOperationKind
  /-- there is a way to refresh the peer -/
  refreshes : Bool := false
  maxAttempts : Nat
  maxElapsed : Duration := 0
  inlineFloodWaitMax : Duration := 0
  startTime : Time := 0
  deadline : Option Time := none
  canDurablyYield : Bool := false
  durableLimiterInlineWaitMax : Duration := 0

/-- A reservation, and what happens around it. -/
structure Reserved where
  allowed : Bool := true
  retryAfter : Duration := 0
  now : Time := 0
  later : Time := 0
  sleepErr : Option GoError := none
  ctxErr : Option GoError := none

structure Attempt where
  now : Time := 0
  ctxErr : Option GoError := none
  reserved : List Reserved := [{}]
  /-- what the operation returns -/
  outcome : Option GoError
  /-- the context is over when the operation has returned -/
  ctxDone : Bool := false
  refreshErr : Option GoError := none
  /-- the clock before a wait -/
  waitNow : Time := 0
  waitLater : Time := 0
  backoff : Duration := 0
  sleepErr : Option GoError := none

namespace Setting

variable (s : Setting)

/-- A wait that does not fit in the elapsed budget. -/
def overElapsed (now : Time) (wait : Duration) : Bool := 0 < s.maxElapsed && s.maxElapsed < now + wait - s.startTime

def overDeadline (now : Time) (wait : Duration) : Bool := s.deadline.any fun d => d < now + wait

/-- The inner loop, up to a granted reservation; `waited` is the time that was waited inline. -/
def reserve (attempt : Nat) : Duration → List Reserved → Option (Except RPCFailure Duration)
  | _, [] => none
  | waited, r :: rest =>
    let deferred : RPCFailure := ⟨.floodWait, attempt - 1, r.retryAfter, false, rateLimitError r.retryAfter {}⟩
    if r.allowed then some (.ok waited)
    else if r.retryAfter ≤ 0 then some (.error ⟨.floodWait, attempt - 1, 0, false, rateLimitError 0 {}⟩)
    else if s.canDurablyYield = true ∧
        (s.durableLimiterInlineWaitMax - waited ≤ 0 ∨ s.durableLimiterInlineWaitMax - waited < r.retryAfter) then some (.error deferred)
    else if s.overElapsed r.now r.retryAfter then some (.error { deferred with err := { deferred.err with isDeadlineExceeded := true } })
    else if s.overDeadline r.later r.retryAfter then some (.error deferred)
    else
      match r.sleepErr, r.ctxErr with
      | some err, _ | none, some err => some (.error ⟨.unknown, attempt - 1, r.retryAfter, false, err⟩)
      | none, none => reserve attempt (if s.canDurablyYield then waited + r.retryAfter else waited) rest

/-- What follows an error of the operation: a failure, or another attempt. -/
def afterError (attempt : Nat) (refreshedPeer : Bool) (a : Attempt) (err : GoError) : Except RPCFailure Bool :=
  let failure : RPCFailure := { errorClass := classifyRPCError err, attempts := attempt, err := err }
  if err.isCanceled = true ∨ err.isDeadlineExceeded = true ∨ a.ctxDone = true then .error failure
  else
    match classifyRPCError err with
    | .stalePeer =>
      if refreshedPeer = false ∧ s.refreshes = true ∧ a.refreshErr = none then
        if s.kind = .nonIdempotentMutation then .error { failure with ambiguous := true } else .ok true
      else .error failure
    | .floodWait =>
      let wait := if err.floodWait.getD 0 ≤ 0 then 1000000000 else err.floodWait.getD 0
      let limited := { failure with retryAfter := wait, err := rateLimitError wait err }
      if s.canDurablyYield = true ∨ s.inlineFloodWaitMax < wait then .error limited
      else if s.overElapsed a.waitNow wait ∨ s.overDeadline a.waitLater wait ∨ s.maxAttempts ≤ attempt then .error limited
      else
        match a.sleepErr with
        | some sleepErr => .error { limited with err := sleepErr }
        | none => .ok refreshedPeer
    | .transient =>
      if s.kind = .nonIdempotentMutation then .error { failure with ambiguous := true }
      else if s.maxAttempts ≤ attempt ∨ s.overElapsed a.waitNow a.backoff ∨ s.overDeadline a.waitLater a.backoff then .error failure
      else
        match a.sleepErr with
        | some sleepErr => .error { failure with err := sleepErr }
        | none => .ok refreshedPeer
    | _ => .error failure

end Setting

structure Call where
  err : Option GoError
  ctxDone : Bool
  deriving DecidableEq

inductive Result where
  /-- the tape ends before `Do` returns -/
  | running
  | ok
  | failed (f : RPCFailure)
  deriving DecidableEq

/-- The loop of `Do`, with the invocations it makes. -/
def Setting.attempts (s : Setting) : Nat → Bool → Duration → List Attempt → List Call × Result
  | attempt, _, _, [] =>
    ([], if s.maxAttempts < attempt then
        .failed { errorClass := .unknown, attempts := s.maxAttempts, err := { text := goString "retry attempts exhausted" } }
      else .running)
  | attempt, refreshedPeer, waited, a :: rest =>
    if s.maxAttempts < attempt then
      ([], .failed { errorClass := .unknown, attempts := s.maxAttempts, err := { text := goString "retry attempts exhausted" } })
    else if 0 < s.maxElapsed ∧ s.maxElapsed ≤ a.now - s.startTime then
      ([], .failed { errorClass := .unknown, attempts := attempt - 1, err := { isDeadlineExceeded := true } })
    else
      match a.ctxErr, s.reserve attempt waited a.reserved with
      | some err, _ => ([], .failed { errorClass := .unknown, attempts := attempt - 1, err := err })
      | none, none => ([], .running)
      | none, some (.error f) => ([], .failed f)
      | none, some (.ok waited) =>
        match a.outcome with
        | none => ([⟨none, a.ctxDone⟩], .ok)
        | some err =>
          match s.afterError attempt refreshedPeer a err with
          | .error f => ([⟨some err, a.ctxDone⟩], .failed f)
          | .ok refreshedPeer =>
            let next := s.attempts (attempt + 1) refreshedPeer waited rest
            (⟨some err, a.ctxDone⟩ :: next.1, next.2)

/-- `Do`. -/
def Setting.run (s : Setting) (tape : List Attempt) : List Call × Result := s.attempts 1 false 0 tape

/-! ### Repetitions -/

/-- The error came back after the end of the context, or reports it. -/
def Call.ended (c : Call) : Bool := c.err.any fun err => err.isCanceled || err.isDeadlineExceeded || c.ctxDone

/-- The call failed, and nobody knows whether the server has done its work. -/
def Call.unknownEffect (c : Call) : Bool := c.ended || c.err.any fun err => classifyRPCError err == .transient

/-- By its class and the semantics it carries the error asks for another try. -/
def Call.asksRetry (c : Call) : Bool :=
  c.err.any fun err => (RPCFailure.executionSemantics { errorClass := classifyRPCError err, attempts := 0, err := err }).shouldRetry

section Mutation

variable {s : Setting} {a : Attempt} {err : GoError} {attempt : Nat} {refreshedPeer : Bool}

theorem ended_iff : Call.ended ⟨some err, a.ctxDone⟩ = true ↔ err.isCanceled = true ∨ err.isDeadlineExceeded = true ∨ a.ctxDone = true := by
  simp [Call.ended, or_assoc]

/-- Only a FloodWait leads to another attempt. -/
theorem afterError_ok {refreshedPeer' : Bool} (hkind : s.kind = .nonIdempotentMutation)
    (h : s.afterError attempt refreshedPeer a err = .ok refreshedPeer') :
    classifyRPCError err = .floodWait ∧ Call.ended ⟨some err, a.ctxDone⟩ = false := by
  unfold Setting.afterError at h
  by_cases hended : err.isCanceled = true ∨ err.isDeadlineExceeded = true ∨ a.ctxDone = true
  · rw [if_pos hended] at h
    cases h
  · rw [if_neg hended] at h
    refine ⟨?_, Bool.eq_false_iff.mpr fun hover => hended (ended_iff.mp hover)⟩
    split at h
    · split_ifs at h
    · next hclass => exact hclass
    · rw [if_pos hkind] at h
      cases h
    · cases h

theorem afterError_error {f : RPCFailure} (hkind : s.kind = .nonIdempotentMutation)
    (h : s.afterError attempt refreshedPeer a err = .error f) (hunknown : Call.unknownEffect ⟨some err, a.ctxDone⟩ = true) :
    f.executionSemantics.shouldRetry = (Call.ended ⟨some err, a.ctxDone⟩ && Call.asksRetry ⟨some err, a.ctxDone⟩) := by
  unfold Setting.afterError at h
  by_cases hended : err.isCanceled = true ∨ err.isDeadlineExceeded = true ∨ a.ctxDone = true
  · rw [if_pos hended] at h
    cases h
    rw [ended_iff.mpr hended, Bool.true_and]
    rfl
  · rw [if_neg hended] at h
    have hgoes : Call.ended ⟨some err, a.ctxDone⟩ = false := Bool.eq_false_iff.mpr fun hover => hended (ended_iff.mp hover)
    -- the context goes on, so that the error is a transient one, which is reported as ambiguous
    have hclass : classifyRPCError err = .transient := by simpa [Call.unknownEffect, hgoes] using hunknown
    simp only [hclass, hkind, if_true] at h
    cases h
    rw [hgoes]
    rfl

/-- Every call but the last was rejected with a FloodWait, and a call with an unknown effect is the end. -/
theorem attempts_spec {tape : List Attempt} (hkind : s.kind = .nonIdempotentMutation) (attempt : Nat) (refreshedPeer : Bool)
    (waited : Duration) :
    (∀ c ∈ (s.attempts attempt refreshedPeer waited tape).1.dropLast, c.err.map classifyRPCError = some .floodWait ∧ c.ended = false) ∧
      ∀ c ∈ (s.attempts attempt refreshedPeer waited tape).1, c.unknownEffect = true →
        ∃ f, (s.attempts attempt refreshedPeer waited tape).2 = .failed f ∧ f.executionSemantics.shouldRetry = (c.ended && c.asksRetry) := by
  induction tape generalizing attempt refreshedPeer waited with
  | nil => simp [Setting.attempts]
  | cons a rest ih =>
    rw [Setting.attempts]
    split_ifs
    · simp
    · simp
    · split
      · simp
      · simp
      · simp
      · next waited' _ _ =>
        split
        · simp [Call.unknownEffect, Call.ended]
        · next err _ =>
          split
          · next f hfail =>
            refine ⟨by simp, fun c hc hunknown => ⟨f, rfl, ?_⟩⟩
            rw [mem_singleton.mp hc] at hunknown ⊢
            exact afterError_error hkind hfail hunknown
          · next refreshedPeer' hagain =>
            obtain ⟨hclass, hgoes⟩ := afterError_ok hkind hagain
            obtain ⟨hbefore, hlast⟩ := ih (attempt + 1) refreshedPeer' waited'
            refine ⟨fun c hc => ?_, fun c hc hunknown => ?_⟩
            · by_cases hnil : (s.attempts (attempt + 1) refreshedPeer' waited' rest).1 = []
              · simp [hnil] at hc
              · rw [dropLast_cons_of_ne_nil hnil] at hc
                rcases mem_cons.mp hc with rfl | hc
                · exact ⟨by simp [hclass], hgoes⟩
                · exact hbefore c hc
            · rcases mem_cons.mp hc with rfl | hc
              · simp [Call.unknownEffect, hgoes, hclass] at hunknown
              · exact hlast c hc hunknown

end Mutation

/-- An operation that is not idempotent is invoked again after a FloodWait only. A failure after an invocation with an unknown effect asks
for no other try, exactly if no error that comes back after the end of the context asks for one. -/
theorem mutation_repeated_iff (s : Setting) (hkind : s.kind = .nonIdempotentMutation) (tape : List Attempt) :
    ((∀ c ∈ (s.run tape).1.dropLast, c.err.map classifyRPCError = some .floodWait) ∧
      ∀ c ∈ (s.run tape).1, c.unknownEffect = true → ∀ f, (s.run tape).2 = .failed f → f.executionSemantics.shouldRetry = false) ↔
    ∀ c ∈ (s.run tape).1, c.ended = true → c.asksRetry = false := by
  obtain ⟨hbefore, hlast⟩ := attempts_spec hkind 1 false 0
  constructor
  · rintro ⟨-, hquiet⟩ c hc hended
    have hunknown : c.unknownEffect = true := by rw [Call.unknownEffect, hended, Bool.true_or]
    obtain ⟨f, hfail, hretry⟩ := hlast c hc hunknown
    have hfalse := hquiet c hc hunknown f hfail
    rwa [hretry, hended, Bool.true_and] at hfalse
  · refine fun hasks => ⟨fun c hc => (hbefore c hc).1, fun c hc hunknown f hfail => ?_⟩
    obtain ⟨f', hfail', hretry⟩ := hlast c hc hunknown
    obtain rfl : f = f' := Result.failed.inj (hfail.symm.trans hfail')
    rw [hretry]
    cases hended : c.ended with
    | false => rfl
    | true => rw [hasks c hc hended, Bool.and_false]

/-- After a FloodWait of a second the message is sent again, and the connection breaks. -/
def brokenSend : List Attempt := [{ outcome := some { floodWait := some 1000000000 } }, { outcome := some { text := goString "unexpected EOF" } }]

theorem mutation_repeated_iff_broken :
    let s : Setting := { kind := .nonIdempotentMutation, maxAttempts := 3, inlineFloodWaitMax := 5000000000 }
    (s.run brokenSend).1.length = 2 ∧ (∀ c ∈ (s.run brokenSend).1, c.ended = true → c.asksRetry = false) ∧
      ∀ c ∈ (s.run brokenSend).1, c.unknownEffect = true → ∀ f, (s.run brokenSend).2 = .failed f → f.executionSemantics.shouldRetry = false := by
  intro s
  have hasks : ∀ c ∈ (s.run brokenSend).1, c.ended = true → c.asksRetry = false := by decide +kernel
  exact ⟨by decide +kernel, hasks, ((mutation_repeated_iff s rfl brokenSend).mpr hasks).2⟩

/-- The deadline passes while the message is sent: the failure asks the caller to send it again. -/
theorem mutation_asks_for_repetition : let s : Setting := { kind := .nonIdempotentMutation, maxAttempts := 3 }
    let tape : List Attempt := [{ outcome := some { text := goString "context deadline exceeded", isDeadlineExceeded := true }, ctxDone := true }]
    ∃ c ∈ (s.run tape).1, c.unknownEffect = true ∧ ∃ f, (s.run tape).2 = .failed f ∧ f.executionSemantics.shouldRetry = true := by
  refine ⟨⟨some { text := goString "context deadline exceeded", isDeadlineExceeded := true }, true⟩, by decide +kernel, by decide +kernel,
    { errorClass := .unknown, attempts := 1, err := { text := goString "context deadline exceeded", isDeadlineExceeded := true } }, ?_, ?_⟩
  · decide +kernel
  · decide +kernel

end Goultroid.Rpc
