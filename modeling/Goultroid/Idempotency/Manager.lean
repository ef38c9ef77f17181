import Goultroid.Lib.Leases
import Goultroid.Lib.Machine
import Goultroid.Tasks.Types

/-!
# Idempotency claims

`internal/idempotency`: a manager keeps its claims in a map, or in the SQLite table of its repository. Every
call reads the clock before it enters its critical section or sends its statement, so that the clock is a
parameter of the call and need not go forward from one call to the next. The cleanup worker is not modelled:
`evictExpired` is a call that may come at any moment, and `signalCleanup` only hastens it.
-/

namespace Goultroid.Idempotency

/-! ### Data -/

inductive ClaimStatus where
  | accepted
  | processing
  | reserved
  deriving DecidableEq

inductive Error where
  /-- `ErrClaimNotOwned` -/
  | claimNotOwned
  | text (text : GoString)
  deriving DecidableEq

structure Entry where
  key : GoString
  token : GoString := []
  status : ClaimStatus := .accepted
  createdAt : Time
  expiresAt : Time
  deriving DecidableEq

/-- A row of `idempotency_keys`. -/
structure Row where
  key : GoString
  createdAtMs : Int
  expiresAtMs : Int
  status : ClaimStatus
  claimToken : GoString
  deriving DecidableEq

abbrev Keys := Table Row.key Eq

/-- `t.UnixMilli()`. -/
def unixMilli (t : Time) : Int := (t - 62135596800000000000) / 1000000

/-- `time.UnixMilli(ms)`. -/
def ofUnixMilli (ms : Int) : Time := ms * 1000000 + 62135596800000000000

/-! ### The repository -/

inductive Fault where
  /-- `ExecContext` fails, with or without the effect of the statement -/
  | exec (done : Bool) (text : GoString)
  /-- `RowsAffected` fails -/
  | rowsAffected (text : GoString)
  deriving DecidableEq

namespace SQLiteRepository

/-- A statement with the rows it affects, and what is made of its result. -/
def exec (during : GoString) (fault : Option Fault) (t : Keys) (statement : Keys × Nat) : Keys × Except Error Bool :=
  match fault with
  | some (.exec done text) => (if done then statement.1 else t, .error (.text (during ++ text)))
  | some (.rowsAffected text) => (statement.1, .error (.text text))
  | none => (statement.1, .ok (statement.2 == 1))

variable (fault : Option Fault) (t : Keys)

def claim (key : GoString) (createdAt expiresAt : Time) : Keys × Except Error Bool :=
  exec (goString "claim idempotency key: ") fault t
    (t.upsert (fun row => decide (row.expiresAtMs ≤ unixMilli createdAt)) ⟨key, unixMilli createdAt, unixMilli expiresAt, .accepted, []⟩)

def beginClaim (key token : GoString) (createdAt expiresAt : Time) : Keys × Except Error Bool :=
  exec (goString "begin idempotency claim: ") fault t
    (t.upsert (fun row => decide (row.expiresAtMs ≤ unixMilli createdAt)) ⟨key, unixMilli createdAt, unixMilli expiresAt, .processing, token⟩)

/-- `status = 'processing' AND claim_token = ?`. -/
def processing (token : GoString) (row : Row) : Bool := decide (row.status = .processing) && decide (row.claimToken = token)

def acceptClaim (key token : GoString) (expiresAt : Time) : Keys × Except Error Bool :=
  exec (goString "accept idempotency claim: ") fault t
    (t.update (fun row => decide (row.key = key) && processing token row)
        (fun row => { row with status := .accepted, claimToken := [], expiresAtMs := unixMilli expiresAt }) fun _ => rfl,
      t.count fun row => decide (row.key = key) && processing token row)

def reserveClaim (key token : GoString) (expiresAt : Time) : Keys × Except Error Bool :=
  exec (goString "reserve idempotency claim: ") fault t
    (t.update (fun row => decide (row.key = key) && processing token row)
        (fun row => { row with status := .reserved, expiresAtMs := unixMilli expiresAt }) fun _ => rfl,
      t.count fun row => decide (row.key = key) && processing token row)

/-- `status IN ('processing', 'reserved') AND claim_token = ?`. -/
def held (token : GoString) (row : Row) : Bool :=
  decide (row.status = .processing ∨ row.status = .reserved) && decide (row.claimToken = token)

def releaseClaim (key token : GoString) : Keys × Except Error Bool :=
  exec (goString "release idempotency claim: ") fault t
    (t.delete fun row => decide (row.key = key) && held token row, t.count fun row => decide (row.key = key) && held token row)

/-- A query fails as a statement does, without effect. -/
def isProcessed (key : GoString) (now : Time) : Except Error Bool :=
  match fault with
  | some (.exec _ text) | some (.rowsAffected text) => .error (.text text)
  | none => .ok (decide (0 < t.count fun row => decide (row.key = key) && decide (unixMilli now < row.expiresAtMs)))

def deleteExpired (now : Time) : Keys × Except Error Bool :=
  exec [] fault t (t.delete fun row => decide (row.expiresAtMs ≤ unixMilli now), t.count fun row => decide (row.expiresAtMs ≤ unixMilli now))

end SQLiteRepository

/-! ### The manager -/

structure Manager where
  entries : AList fun _ : GoString => Entry := ∅
  /-- the table of the repository, if there is one -/
  repo : Option Keys := none

namespace Manager

variable (m : Manager) (fault : Option Fault)

def stored (result : Keys × Except Error Bool) : Manager × Except Error Bool := ({ m with repo := some result.1 }, result.2)

/-- `CheckAndSet`, from where the paths of the repository and the map part. -/
def claim (key : GoString) (now expiresAt : Time) : Manager × Except Error Bool :=
  match m.repo with
  | some t => m.stored (SQLiteRepository.claim fault t key now expiresAt)
  | none =>
    if (m.entries.lookup key).any fun e => decide (now < e.expiresAt) then (m, .ok false)
    else ({ m with entries := m.entries.insert key { key := key, createdAt := now, expiresAt := expiresAt } }, .ok true)

/-- `Begin`, from where the paths part. -/
def beginClaim (key token : GoString) (now expiresAt : Time) : Manager × Except Error Bool :=
  match m.repo with
  | some t => m.stored (SQLiteRepository.beginClaim fault t key token now expiresAt)
  | none =>
    if (m.entries.lookup key).any fun e => decide (now < e.expiresAt) then (m, .ok false)
    else ({ m with entries := m.entries.insert key {
      key := key, token := token, status := .processing, createdAt := now, expiresAt := expiresAt } }, .ok true)

/-- `Accept`, from where the paths part. -/
def acceptClaim (key token : GoString) (expiresAt : Time) : Manager × Except Error Bool :=
  match m.repo with
  | some t => m.stored (SQLiteRepository.acceptClaim fault t key token expiresAt)
  | none =>
    match m.entries.lookup key with
    | none => (m, .ok false)
    | some current =>
      if current.status ≠ .processing ∨ current.token ≠ token then (m, .ok false)
      else ({ m with entries := m.entries.insert key { current with status := .accepted, token := [], expiresAt := expiresAt } }, .ok true)

/-- `Reserve`, from where the paths part. -/
def reserveClaim (key token : GoString) (expiresAt : Time) : Manager × Except Error Bool :=
  match m.repo with
  | some t => m.stored (SQLiteRepository.reserveClaim fault t key token expiresAt)
  | none =>
    match m.entries.lookup key with
    | none => (m, .ok false)
    | some current =>
      if current.status ≠ .processing ∨ current.token ≠ token then (m, .ok false)
      else ({ m with entries := m.entries.insert key { current with status := .reserved, expiresAt := expiresAt } }, .ok true)

/-- `Release`, from where the paths part. -/
def releaseClaim (key token : GoString) : Manager × Except Error Bool :=
  match m.repo with
  | some t => m.stored (SQLiteRepository.releaseClaim fault t key token)
  | none =>
    match m.entries.lookup key with
    | none => (m, .ok false)
    | some current =>
      if (current.status ≠ .processing ∧ current.status ≠ .reserved) ∨ current.token ≠ token then (m, .ok false)
      else ({ m with entries := m.entries.erase key }, .ok true)

/-- `IsProcessedContext`, from where the paths part. -/
def isProcessed (key : GoString) (now : Time) : Except Error Bool :=
  match m.repo with
  | some t => SQLiteRepository.isProcessed fault t key now
  | none => .ok ((m.entries.lookup key).any fun e => decide (now < e.expiresAt))

/-- `ended`: the context of the worker is over. -/
def evictExpired (now : Time) (ended : Bool) : Manager :=
  match m.repo with
  | some t => if ended then m else { m with repo := some (SQLiteRepository.deleteExpired fault t now).1 }
  | none => { m with entries := m.entries.reject fun e => decide (e.expiresAt < now) }

end Manager

/-! ### Claims -/

structure ExecutionClaim where
  key : GoString
  token : GoString
  done : Bool := false
  deriving DecidableEq

def defaultTTL : Duration := 600 * 1000000000

def normalTTL (ttl : Duration) : Duration := if ttl ≤ 0 then defaultTTL else ttl

/-- `newClaimToken`, for what `rand.Read` and `hex.EncodeToString` give. -/
def newClaimToken (random : Except GoString GoString) : Except Error GoString :=
  match random with
  | .error text => .error (.text (goString "generate idempotency claim token: " ++ text))
  | .ok token => .ok token

inductive Answer where
  /-- the claim of `Begin`, if it is new -/
  | begun (claim : Option Nat)
  | flag (value : Bool)
  | done
  | error (error : Error)
  deriving DecidableEq

inductive Op where
  | begin (key : GoString) (ttl : Duration) (now : Time) (random : Except GoString GoString)
  | accept (claim : Nat) (ttl : Duration) (now : Time)
  | reserve (claim : Nat) (ttl : Duration) (now : Time)
  | release (claim : Nat)
  | checkAndSet (key : GoString) (ttl : Duration) (now : Time)
  | isProcessed (key : GoString) (now : Time)
  | evictExpired (now : Time) (ended : Bool)

/-- An operation, and how the database fails in it. -/
structure Call where
  op : Op
  fault : Option Fault := none

/-- The manager and the claims it has handed out. -/
structure State where
  manager : Manager
  claims : List ExecutionClaim := []

namespace State

variable (s : State) (trimSpace : GoString → GoString) (fault : Option Fault)

/-- A method of claim `i`, under its lock: `done` says whether it is over once the store has agreed. -/
def settle (i : Nat) (c : ExecutionClaim) (done : Bool) (result : Manager × Except Error Bool) : State × Answer :=
  match result with
  | (m, .error e) => ({ s with manager := m }, .error e)
  | (m, .ok false) => ({ s with manager := m }, .error .claimNotOwned)
  | (m, .ok true) => ({ manager := m, claims := s.claims.set i { c with done := done } }, .done)

def begin (key : GoString) (ttl : Duration) (now : Time) (random : Except GoString GoString) : State × Answer :=
  let cleanKey := trimSpace key
  if cleanKey = [] then (s, .error (.text (goString "idempotency key cannot be empty")))
  else
    match newClaimToken random with
    | .error e => (s, .error e)
    | .ok token =>
      match s.manager.beginClaim fault cleanKey token now (now + normalTTL ttl) with
      | (m, .error e) => ({ s with manager := m }, .error e)
      | (m, .ok false) => ({ s with manager := m }, .begun none)
      | (m, .ok true) => (⟨m, s.claims ++ [⟨cleanKey, token, false⟩]⟩, .begun (some s.claims.length))

def accept (i : Nat) (ttl : Duration) (now : Time) : State × Answer :=
  match s.claims[i]? with
  | none => (s, .done)
  | some c =>
    if c.done then (s, .done)
    else s.settle i c true (s.manager.acceptClaim fault c.key c.token (now + normalTTL ttl))

def reserve (i : Nat) (ttl : Duration) (now : Time) : State × Answer :=
  match s.claims[i]? with
  | none => (s, .done)
  | some c =>
    if c.done then (s, .error .claimNotOwned)
    else s.settle i c false (s.manager.reserveClaim fault c.key c.token (now + normalTTL ttl))

def release (i : Nat) : State × Answer :=
  match s.claims[i]? with
  | none => (s, .done)
  | some c =>
    if c.done then (s, .done)
    else s.settle i c true (s.manager.releaseClaim fault c.key c.token)

def checkAndSet (key : GoString) (ttl : Duration) (now : Time) : State × Answer :=
  let cleanKey := trimSpace key
  if cleanKey = [] then (s, .error (.text (goString "idempotency key cannot be empty")))
  else
    match s.manager.claim fault cleanKey now (now + normalTTL ttl) with
    | (m, .error e) => ({ s with manager := m }, .error e)
    | (m, .ok claimed) => ({ s with manager := m }, .flag claimed)

def isProcessed (key : GoString) (now : Time) : Answer :=
  let cleanKey := trimSpace key
  if cleanKey = [] then .flag false
  else
    match s.manager.isProcessed fault cleanKey now with
    | .error e => .error e
    | .ok value => .flag value

end State

/-- `trimSpace` is `strings.TrimSpace`. -/
def serve (trimSpace : GoString → GoString) : Machine State Call Answer := fun s call =>
  match call.op with
  | .begin key ttl now random => s.begin trimSpace call.fault key ttl now random
  | .accept i ttl now => s.accept call.fault i ttl now
  | .reserve i ttl now => s.reserve call.fault i ttl now
  | .release i => s.release call.fault i
  | .checkAndSet key ttl now => s.checkAndSet trimSpace call.fault key ttl now
  | .isProcessed key now => (s, s.isProcessed trimSpace call.fault key now)
  | .evictExpired now ended => ({ s with manager := s.manager.evictExpired call.fault now ended }, .done)

def inMemory : State := ⟨{}, []⟩

def durable (t : Keys) : State := ⟨{ repo := some t }, []⟩

end Goultroid.Idempotency
