import Goultroid.Interaction.Session
import Goultroid.Lib.FinMap
import Goultroid.Lib.IndexedHeap
import Mathlib.Data.Finset.Card

/-!
# The interaction runtime

`runtime.go`, `runtime_internal.go`, `session.go`, `input.go` and `durable.go` of `internal/interaction`, with
the SQLite store of `sqlite/store.go`. Every critical section of the mutex is one function of the runtime;
an operation is one or two of them with reads of the catalog in between. Expiry items are shared by
reference: `items` holds them in the order in which they were made, and a reference is a position.

A section sees the clock, the feature catalog and the durable store, and the store may refuse any write or
deletion. Session contexts and the counters of `Stats` are left out.
-/

namespace Goultroid.Interaction

/-! ### The durable store -/

/-- `DurableSession`; the zero time stands for no input deadline. -/
structure DurableSession where
  session : Session
  version : GoString
  inputExpires : Time := 0
  deriving DecidableEq

/-- A row of `interaction_sessions`. Times are 64-bit nanoseconds since 1970. -/
structure Row where
  id : GoString
  featureID : GoString
  version : GoString
  actorID : Int
  chatID : Int
  messageID : Int
  inlineMessageID : GoString
  state : List UInt8
  revision : Nat
  createdAt : Int
  expiresAt : Int
  inputExpiresAt : Int
  deriving DecidableEq

/-- `time.Unix(0, n)`. -/
def ofUnixNano (n : Int) : Time := n + 62135596800000000000

def nullableTime (at_ : Time) : Int := if at_ = 0 then 0 else unixNano64 at_

/-- The row that `Save` writes. The driver takes no number with the high bit set. -/
def DurableSession.encode (d : DurableSession) : Option Row :=
  if d.session.revision < 2 ^ 63 then
    some {
      id := d.session.id
      featureID := d.session.featureID
      version := d.version
      actorID := d.session.binding.actorID
      chatID := d.session.binding.chatID
      messageID := d.session.binding.messageID
      inlineMessageID := d.session.binding.inlineMessageID
      state := d.session.state
      revision := d.session.revision
      createdAt := unixNano64 d.session.createdAt
      expiresAt := unixNano64 d.session.expiresAt
      inputExpiresAt := nullableTime d.inputExpires }
  else none

/-- What `Load` scans from a row. The scope is not stored. -/
def Row.decode (row : Row) : DurableSession where
  session := {
    id := row.id
    featureID := row.featureID
    scope := ⟨[], 0⟩
    binding := ⟨row.actorID, row.chatID, row.messageID, row.inlineMessageID⟩
    state := row.state
    revision := row.revision
    createdAt := ofUnixNano row.createdAt
    expiresAt := ofUnixNano row.expiresAt }
  version := row.version
  inputExpires := if row.inputExpiresAt ≠ 0 then ofUnixNano row.inputExpiresAt else 0

/-- The table, by its primary key. -/
abbrev Store := AList fun _ : GoString => Row

/-- `ORDER BY created_at, id`. -/
def Row.before (a b : Row) : Bool :=
  decide (a.createdAt < b.createdAt ∨ (a.createdAt = b.createdAt ∧ a.id ≤ b.id))

def Store.load (s : Store) : List DurableSession :=
  ((s.entries.map (·.2)).mergeSort Row.before).map Row.decode

/-! ### State -/

structure InputBindingKey where
  actorID : Int
  chatID : Int
  deriving DecidableEq

structure InputClaim where
  key : InputBindingKey
  expiresAt : Time
  deriving DecidableEq

/-- `index` is kept by the heap. -/
structure ExpiryItem where
  id : GoString
  expiresAt : Time
  deriving DecidableEq

structure SessionEntry where
  session : Session
  durableVersion : GoString
  expiry : Option Nat := none
  input : Option InputClaim := none
  deriving DecidableEq

structure Runtime where
  config : Config
  closed : Bool := false
  sessions : AList fun _ : GoString => SessionEntry := ∅
  byScope : AList fun _ : ScopeIdentity => Finset GoString := ∅
  actorCounts : AList fun _ : Int => Int := ∅
  items : List ExpiryItem := []
  expiries : Heap.Indexed Nat := ⟨#[], fun _ => -1⟩
  inputs : AList fun _ : InputBindingKey => GoString := ∅
  stateBytes : Int := 0
  durable : Option Store := none
  preserveDurable : Bool := false

/-- `Catalog` with `durabilityCatalog`. -/
structure Catalog where
  featureScope : GoString → Option ScopeIdentity
  hasAction : GoString → GoString → Bool
  durabilityVersion : GoString → GoString

/-- What a section meets outside: the time, the catalog and a store that may refuse. -/
structure Env where
  now : Time
  catalog : Catalog
  saveRefused : Bool := false
  deleteRefused : GoString → Bool := fun _ => false
  loadRefused : Bool := false

/-- `expiryHeap.Less`. -/
def expiryLess (items : List ExpiryItem) (i j : Nat) : Bool :=
  match items[i]?, items[j]? with
  | some a, some b => decide (a.expiresAt < b.expiresAt)
  | _, _ => false

def inputKeyFromBinding (b : Binding) : Except Err InputBindingKey :=
  if b.actorID = 0 ∨ b.chatID = 0 ∨ b.inlineMessageID ≠ [] then .error .invalidBinding
  else .ok ⟨b.actorID, b.chatID⟩

/-- What a call of `removeLockedContext` came to. -/
inductive Removal where
  | absent
  | refused
  | removed
  deriving DecidableEq

namespace Runtime

variable (env : Env) (r : Runtime) (id : GoString)

/-- `NewRuntime`. -/
def new (config : Config) : Option Runtime := config.normalized.map fun c => { config := c }

/-! ### Inner functions -/

/-- `saveDurableLocked`: `none` if the store refuses. -/
def saveDurableLocked (session : Session) (input : Option InputClaim) : Option Runtime :=
  match r.durable with
  | none => some r
  | some store =>
    let version := env.catalog.durabilityVersion session.featureID
    if version = [] then some r
    else if env.saveRefused then none
    else
      match ({ session := session, version := version, inputExpires := (input.map (·.expiresAt)).getD 0 }
        : DurableSession).encode with
      | none => none
      | some row => some { r with durable := some (store.insert session.id row) }

def checkCapacityLocked (scope : ScopeIdentity) (actorID : Int) (stateBytes : Nat) : Bool :=
  if r.config.maxSessions ≤ r.sessions.entries.length then false
  else if r.config.maxSessionsPerScope ≤ (r.byScope.getD scope ∅).card then false
  else if actorID ≠ 0 ∧ r.config.maxSessionsPerActor ≤ r.actorCounts.getD actorID 0 then false
  else if r.config.maxTotalStateBytes < r.stateBytes + stateBytes then false
  else true

/-- `uniqueIDLocked`, on the draws of the generator. -/
def uniqueIDLocked : Nat → List (Option GoString) → Option GoString
  | 0, _ => none
  | _ + 1, [] => none
  | _ + 1, none :: _ => none
  | attempts + 1, some id :: draws =>
    if validSessionID id = false then none
    else match r.sessions.lookup id with
      | none => some id
      | some _ => uniqueIDLocked attempts draws

def indexSessionLocked (e : SessionEntry) : Runtime :=
  { r with
    byScope := r.byScope.insert e.session.scope (insert e.session.id (r.byScope.getD e.session.scope ∅))
    actorCounts :=
      if e.session.binding.actorID ≠ 0 then
        r.actorCounts.insert e.session.binding.actorID (r.actorCounts.getD e.session.binding.actorID 0 + 1)
      else r.actorCounts
    stateBytes := r.stateBytes + e.session.state.length }

def scheduleExpiryLocked (expiresAt : Time) : Runtime :=
  match r.sessions.lookup id with
  | none => r
  | some e =>
    match e.expiry with
    | none =>
      let items := r.items ++ [⟨e.session.id, expiresAt⟩]
      { r with
        items := items
        sessions := r.sessions.insert id { e with expiry := some r.items.length }
        expiries := r.expiries.push (expiryLess items) r.items.length }
    | some t =>
      let items := r.items.modify t fun item => { item with expiresAt := expiresAt }
      { r with
        items := items
        expiries :=
          -- `heap.Fix` does nothing at a negative index
          if 0 ≤ r.expiries.index t then r.expiries.fix (expiryLess items) (r.expiries.index t).toNat
          else r.expiries }

def clearInputLocked : Runtime :=
  match r.sessions.lookup id with
  | none => r
  | some e =>
    match e.input with
    | none => r
    | some claim =>
      { r with
        sessions := r.sessions.insert id { e with input := none }
        inputs := if r.inputs.lookup claim.key = some e.session.id then r.inputs.erase claim.key else r.inputs }

/-- `removeLockedContext` once the row is gone. -/
def forget (e : SessionEntry) : Runtime :=
  let r := r.clearInputLocked id
  let ids := (r.byScope.getD e.session.scope ∅).erase id
  { r with
    sessions := r.sessions.erase id
    expiries :=
      match e.expiry with
      | none => r.expiries
      | some t =>
        if 0 ≤ r.expiries.index t then (r.expiries.remove (expiryLess r.items) (r.expiries.index t).toNat).2
        else r.expiries
    byScope := if ids = ∅ then r.byScope.erase e.session.scope else r.byScope.insert e.session.scope ids
    actorCounts :=
      if e.session.binding.actorID ≠ 0 then
        if r.actorCounts.getD e.session.binding.actorID 0 ≤ 1 then r.actorCounts.erase e.session.binding.actorID
        else r.actorCounts.insert e.session.binding.actorID (r.actorCounts.getD e.session.binding.actorID 0 - 1)
      else r.actorCounts
    stateBytes := r.stateBytes - e.session.state.length }

/-- Whether the removal of an entry has to delete its row first. -/
def mustDelete (e : SessionEntry) : Bool :=
  r.durable.isSome && !r.preserveDurable && decide (e.durableVersion ≠ [])

/-- `removeLockedContext`. -/
def removeLocked : Runtime × Removal :=
  match r.sessions.lookup id with
  | none => (r, .absent)
  | some e =>
    if r.mustDelete e then
      if env.deleteRefused id then (r, .refused)
      else (({ r with durable := r.durable.map fun store => store.erase id } : Runtime).forget id e, .removed)
    else (r.forget id e, .removed)

/-- The loop of `pruneExpiredLocked`, with the items whose removal was refused. -/
def pruneLoop : Nat → Runtime → List Nat → Nat → Runtime × List Nat × Nat
  | 0, r, retry, removed => (r, retry, removed)
  | fuel + 1, r, retry, removed =>
    match r.expiries.items[0]? with
    | none => (r, retry, removed)
    | some t =>
      match r.items[t]? with
      | none => (r, retry, removed)
      | some item =>
        if env.now < item.expiresAt then (r, retry, removed)
        else
          let r := { r with expiries := (r.expiries.pop (expiryLess r.items)).2 }
          match r.sessions.lookup item.id with
          | none => pruneLoop fuel r retry removed
          | some e =>
            if e.expiry ≠ some t then pruneLoop fuel r retry removed
            else
              match r.removeLocked env item.id with
              | (r, .refused) => pruneLoop fuel r (retry ++ [t]) removed
              | (r, .removed) => pruneLoop fuel r retry (removed + 1)
              | (r, .absent) => pruneLoop fuel r retry removed

def pushBack (r : Runtime) (t : Nat) : Runtime :=
  match r.items[t]? with
  | none => r
  | some item =>
    match r.sessions.lookup item.id with
    | none => r
    | some e => if e.expiry ≠ some t then r else { r with expiries := r.expiries.push (expiryLess r.items) t }

def pruneExpiredLocked : Runtime × Nat :=
  let result := pruneLoop env r.expiries.items.size r [] 0
  (result.2.1.foldl pushBack result.1, result.2.2)

/-- One round of `pruneExpiredInputsLocked`. -/
def pruneInput (r : Runtime) (key : InputBindingKey) (id : GoString) : Runtime :=
  match r.sessions.lookup id with
  | none => { r with inputs := r.inputs.erase key }
  | some e =>
    match e.input with
    | none => { r with inputs := r.inputs.erase key }
    | some claim =>
      if claim.key ≠ key then { r with inputs := r.inputs.erase key }
      else if env.now < claim.expiresAt then r
      else { r with
        sessions := r.sessions.insert id { e with input := none }
        inputs := r.inputs.erase key }

def pruneExpiredInputsLocked : Runtime :=
  r.inputs.entries.foldl (fun acc s => pruneInput env acc s.1 s.2) r

def setSession (e : SessionEntry) (s : Session) : Runtime :=
  { r with sessions := r.sessions.insert id { e with session := s } }

end Runtime

/-! ### Sections -/

inductive Reply where
  | done
  | failed (err : Err)
  | session (s : Session)
  /-- `Cancel` and `ReleaseInput` -/
  | answer (ok : Bool)
  /-- `CancelScopeContext` and `PruneExpired`: how many were removed, and whether a deletion failed -/
  | removed (n : Nat) (failed : Bool)
  /-- `TakeInput` without a claim -/
  | unclaimed
  deriving DecidableEq

namespace Runtime

variable (env : Env) (r : Runtime) (id : GoString) (scope : ScopeIdentity) (d : DurableSession)

/-- The second section of `Create`. -/
def create (featureID : GoString) (binding : Binding) (state : List UInt8) (ttl : Duration)
    (draws : List (Option GoString)) : Runtime × Reply :=
  if r.closed then (r, .failed .closed)
  else
    let r := (r.pruneExpiredLocked env).1
    if r.checkCapacityLocked scope binding.actorID state.length = false then (r, .failed .capacity)
    else match r.uniqueIDLocked 4 draws with
      | none => (r, .failed .identifier)
      | some id =>
        let expiresAt := env.now + ttl
        let snapshot : Session := {
          id := id
          featureID := featureID
          scope := scope
          binding := binding
          state := state
          revision := 1
          createdAt := env.now
          expiresAt := expiresAt }
        let entry : SessionEntry := { session := snapshot, durableVersion := env.catalog.durabilityVersion featureID }
        match r.saveDurableLocked env snapshot none with
        | none => (r, .failed .store)
        | some r =>
          let r := { r with sessions := r.sessions.insert id entry }
          let r := r.indexSessionLocked entry
          (r.scheduleExpiryLocked id expiresAt, .session snapshot)

/-- The section of `loadCurrentSession`. -/
def load (includeState : Bool) : Runtime × Reply :=
  if r.closed then (r, .failed .closed)
  else match r.sessions.lookup id with
    | none => ((r.pruneExpiredLocked env).1, .failed .notFound)
    | some e =>
      if e.session.expiresAt ≤ env.now then ((r.removeLocked env id).1, .failed .expired)
      else (r, .session (if includeState then e.session else { e.session with state := [] }))

def cancelIfScope : Runtime × Reply :=
  match r.sessions.lookup id with
  | none => (r, .done)
  | some e => if e.session.scope = scope then ((r.removeLocked env id).1, .done) else (r, .done)

/-- The section of `UpdateState`. A zero `ttl` keeps the deadline. -/
def updateState (request : UpdateRequest) (ttl : Duration) : Runtime × Reply :=
  match r.sessions.lookup id with
  | none => (r, .failed .notFound)
  | some e =>
    if e.session.scope ≠ scope then (r, .failed .notFound)
    else if e.session.expiresAt ≤ env.now then ((r.removeLocked env id).1, .failed .expired)
    else if e.session.revision ≠ request.expectedRevision then (r, .failed .revisionConflict)
    else
      let newTotal := r.stateBytes - e.session.state.length + request.state.length
      if r.config.maxTotalStateBytes < newTotal then (r, .failed .capacity)
      else
        let next := { e.session with
          state := request.state
          revision := e.session.revision + 1
          expiresAt := if request.ttl ≠ 0 then env.now + ttl else e.session.expiresAt }
        match r.saveDurableLocked env next none with
        | none => (r, .failed .store)
        | some r =>
          let r := r.clearInputLocked id
          let r := { r with stateBytes := newTotal }
          let e := { e with input := none }
          let session := { e.session with state := request.state, revision := e.session.revision + 1 }
          if request.ttl ≠ 0 then
            let session := { session with expiresAt := env.now + ttl }
            ((r.setSession id e session).scheduleExpiryLocked id session.expiresAt, .session session)
          else (r.setSession id e session, .session session)

/-- The section of `BindTarget`. -/
def bindTarget (expectedRevision : Nat) (target : TargetBinding) : Runtime × Reply :=
  match r.sessions.lookup id with
  | none => (r, .failed .notFound)
  | some e =>
    if e.session.scope ≠ scope then (r, .failed .notFound)
    else if e.session.expiresAt ≤ env.now then ((r.removeLocked env id).1, .failed .expired)
    else if e.session.revision ≠ expectedRevision then (r, .failed .revisionConflict)
    else match e.session.binding.withTarget target with
      | .error err => (r, .failed err)
      | .ok binding =>
        let next := { e.session with binding := binding }
        match r.saveDurableLocked env next e.input with
        | none => (r, .failed .store)
        | some r =>
          let session := { e.session with binding := binding }
          (r.setSession id e session, .session session)

/-- The section of `Touch`. -/
def touch (ttl : Duration) : Runtime × Reply :=
  match r.sessions.lookup id with
  | none => (r, .failed .notFound)
  | some e =>
    if e.session.scope ≠ scope then (r, .failed .notFound)
    else if e.session.expiresAt ≤ env.now then ((r.removeLocked env id).1, .failed .expired)
    else
      let next := { e.session with expiresAt := env.now + ttl }
      match r.saveDurableLocked env next e.input with
      | none => (r, .failed .store)
      | some r =>
        let session := { e.session with expiresAt := env.now + ttl }
        ((r.setSession id e session).scheduleExpiryLocked id session.expiresAt, .session session)

/-- The claim of another session on `key` goes if it has expired: `none` if it has not. -/
def displace (key : InputBindingKey) : Option Runtime :=
  match r.inputs.lookup key with
  | none => some r
  | some existingID =>
    if existingID = id then some r
    else match r.sessions.lookup existingID with
      | none => some { r with inputs := r.inputs.erase key }
      | some existing =>
        match existing.input with
        | none => some (r.clearInputLocked existingID)
        | some claim => if env.now < claim.expiresAt then none else some (r.clearInputLocked existingID)

/-- The section of `ArmInput`. -/
def armInput (key : InputBindingKey) (request : UpdateRequest) (ttl : Duration) : Runtime × Reply :=
  match r.sessions.lookup id with
  | none => (r, .failed .notFound)
  | some e =>
    if e.session.scope ≠ scope then (r, .failed .notFound)
    else if e.session.expiresAt ≤ env.now then ((r.removeLocked env id).1, .failed .expired)
    else if e.session.revision ≠ request.expectedRevision then (r, .failed .revisionConflict)
    else match r.displace env id key with
      | none => (r, .failed .inputBusy)
      | some r =>
        let newTotal := r.stateBytes - e.session.state.length + request.state.length
        if r.config.maxTotalStateBytes < newTotal then (r, .failed .capacity)
        else
          let next := { e.session with state := request.state, revision := e.session.revision + 1 }
          let nextInputExpiry :=
            if next.expiresAt < env.now + ttl then next.expiresAt else env.now + ttl
          match r.saveDurableLocked env next (some ⟨key, nextInputExpiry⟩) with
          | none => (r, .failed .store)
          | some r =>
            let r := r.clearInputLocked id
            let r := { r with stateBytes := newTotal }
            let session := { e.session with state := request.state, revision := e.session.revision + 1 }
            let expiresAt := if session.expiresAt < env.now + ttl then session.expiresAt else env.now + ttl
            let r := r.setSession id { e with input := some ⟨key, expiresAt⟩ } session
            ({ r with inputs := r.inputs.insert key id }, .session session)

/-- The section of `TakeInput`. -/
def takeInput (key : InputBindingKey) : Runtime × Reply :=
  if r.closed then (r, .failed .closed)
  else match r.inputs.lookup key with
    | none => (r, .unclaimed)
    | some id =>
      match r.sessions.lookup id with
      | none => ({ r with inputs := r.inputs.erase key }, .unclaimed)
      | some e =>
        match e.input with
        | none => ({ r with inputs := r.inputs.erase key }, .unclaimed)
        | some claim =>
          if claim.key ≠ key then ({ r with inputs := r.inputs.erase key }, .unclaimed)
          else if claim.expiresAt ≤ env.now then (r.clearInputLocked id, .failed .inputExpired)
          else if e.session.expiresAt ≤ env.now then ((r.removeLocked env id).1, .failed .expired)
          else
            let next := { e.session with revision := e.session.revision + 1 }
            match r.saveDurableLocked env next none with
            | none => (r, .failed .store)
            | some r =>
              let r := r.clearInputLocked id
              let session := { e.session with revision := e.session.revision + 1 }
              (r.setSession id { e with input := none } session, .session session)

def releaseInput : Runtime × Reply :=
  match r.sessions.lookup id with
  | none => (r, .answer false)
  | some e =>
    match e.input with
    | none => (r, .answer false)
    | some _ =>
      match r.saveDurableLocked env e.session none with
      | none => (r, .answer false)
      | some r => (r.clearInputLocked id, .answer true)

def cancel : Runtime × Reply :=
  let result := r.removeLocked env id
  (result.1, .answer (decide (result.2 = .removed)))

/-- The removals of `CancelScopeContext`, in the order in which the map was read. -/
def removeAll (env : Env) : List GoString → Runtime → Nat → Bool → Runtime × Nat × Bool
  | [], r, removed, failed => (r, removed, failed)
  | id :: ids, r, removed, failed =>
    match r.removeLocked env id with
    | (r, .refused) => removeAll env ids r removed true
    | (r, .removed) => removeAll env ids r (removed + 1) failed
    | (r, .absent) => removeAll env ids r removed failed

/-- `CancelScopeContext`. `order` is the order in which the map of the scope's sessions is read; with any other
list nothing happens. -/
def cancelScope (order : List GoString) : Runtime × Reply :=
  if isZero scope then (r, .removed 0 false)
  else
    let result := removeAll env (if order.toFinset = r.byScope.getD scope ∅ then order else []) r 0 false
    (result.1, .removed result.2.1 result.2.2)

def pruneExpired : Runtime × Reply :=
  let result := (r.pruneExpiredInputsLocked env).pruneExpiredLocked env
  (result.1, .removed result.2 false)

/-- Whether `RestoreDurable` rejects a row before it looks at the runtime. -/
def rejects : Bool :=
  (env.catalog.featureScope d.session.featureID).isNone || decide (d.version = []) ||
    decide (d.version ≠ env.catalog.durabilityVersion d.session.featureID) ||
    decide (d.session.expiresAt ≤ env.now) || !validSessionID d.session.id || decide (d.session.revision = 0) ||
    decide (d.session.binding.validate ≠ none) || decide (r.config.maxStateBytes < d.session.state.length)

/-- The claim that a row brings back: an error if it cannot. -/
def restoredInput : Except Err (Option InputClaim) :=
  if d.inputExpires ≠ 0 ∧ env.now < d.inputExpires then
    match inputKeyFromBinding d.session.binding with
    | .error err => .error err
    | .ok key => if (r.inputs.lookup key).isSome then .error .inputBusy else .ok (some ⟨key, d.inputExpires⟩)
  else .ok none

/-- A rejected row is deleted: `none` if the store refuses. -/
def reject : Option Runtime :=
  if env.deleteRefused d.session.id then none
  else some { r with durable := r.durable.map fun store => store.erase d.session.id }

/-- One row of `RestoreDurable`: `none` if a deletion was refused. -/
def restoreRow : Option Runtime :=
  if r.rejects env d then r.reject env d
  else match r.sessions.lookup d.session.id with
    | some _ => some r
    | none =>
      let scope := (env.catalog.featureScope d.session.featureID).getD ⟨[], 0⟩
      if r.checkCapacityLocked scope d.session.binding.actorID d.session.state.length = false then r.reject env d
      else match r.restoredInput env d with
        | .error _ => r.reject env d
        | .ok input =>
          let s := { d.session with scope := scope }
          let entry : SessionEntry := { session := s, durableVersion := d.version, input := input }
          let r := match input with
            | none => r
            | some claim => { r with inputs := r.inputs.insert claim.key s.id }
          let r := { r with sessions := r.sessions.insert s.id entry }
          let r := r.indexSessionLocked entry
          some (r.scheduleExpiryLocked s.id s.expiresAt)

def restoreRows (env : Env) : List DurableSession → Runtime → Runtime × Reply
  | [], r => (r, .done)
  | d :: rows, r =>
    match r.restoreRow env d with
    | none => (r, .failed .store)
    | some r => restoreRows env rows r

def restoreDurable : Runtime × Reply :=
  if r.closed then (r, .failed .closed)
  else match r.durable with
    | none => (r, .done)
    | some store => if env.loadRefused then (r, .failed .store) else restoreRows env (Store.load store) r

def setDurableStore (store : Store) : Runtime × Reply :=
  if r.closed || r.durable.isSome || decide (r.sessions.entries.length ≠ 0) then (r, .failed .invalidConfig)
  else ({ r with durable := some store }, .done)

def preserveDurableOnShutdown : Runtime × Reply := ({ r with preserveDurable := true }, .done)

def close : Runtime × Reply :=
  if r.closed then (r, .done)
  else
    ({ r with
      closed := true
      sessions := ∅
      byScope := ∅
      actorCounts := ∅
      expiries := { r.expiries with items := #[] }
      inputs := ∅
      stateBytes := 0 }, .done)

end Runtime

/-- The critical sections of the runtime, with what they get from the rest of their operation. -/
inductive Section where
  | create (scope : ScopeIdentity) (featureID : GoString) (binding : Binding) (state : List UInt8) (ttl : Duration)
    (draws : List (Option GoString))
  | load (id : GoString) (includeState : Bool)
  | cancelIfScope (id : GoString) (scope : ScopeIdentity)
  | updateState (id : GoString) (scope : ScopeIdentity) (request : UpdateRequest) (ttl : Duration)
  | bindTarget (id : GoString) (scope : ScopeIdentity) (expectedRevision : Nat) (target : TargetBinding)
  | touch (id : GoString) (scope : ScopeIdentity) (ttl : Duration)
  | armInput (id : GoString) (scope : ScopeIdentity) (key : InputBindingKey) (request : UpdateRequest) (ttl : Duration)
  | takeInput (key : InputBindingKey)
  | releaseInput (id : GoString)
  | cancel (id : GoString)
  | cancelScope (scope : ScopeIdentity) (order : List GoString)
  | pruneExpired
  | restoreDurable
  | setDurableStore (store : Store)
  | preserveDurableOnShutdown
  | close

def Section.run (env : Env) (r : Runtime) : Section → Runtime × Reply
  | .create scope featureID binding state ttl draws => r.create env scope featureID binding state ttl draws
  | .load id includeState => r.load env id includeState
  | .cancelIfScope id scope => r.cancelIfScope env id scope
  | .updateState id scope request ttl => r.updateState env id scope request ttl
  | .bindTarget id scope expectedRevision target => r.bindTarget env id scope expectedRevision target
  | .touch id scope ttl => r.touch env id scope ttl
  | .armInput id scope key request ttl => r.armInput env id scope key request ttl
  | .takeInput key => r.takeInput env key
  | .releaseInput id => r.releaseInput env id
  | .cancel id => r.cancel env id
  | .cancelScope scope order => r.cancelScope env scope order
  | .pruneExpired => r.pruneExpired env
  | .restoreDurable => r.restoreDurable env
  | .setDurableStore store => r.setDurableStore store
  | .preserveDurableOnShutdown => r.preserveDurableOnShutdown
  | .close => r.close

end Goultroid.Interaction
