import Goultroid.Lib.Cursor
import Goultroid.Lib.FinMap
import Goultroid.Lib.Heap
import Goultroid.Tasks.Types

/-!
# The admission controller

`internal/admission`: the ready queues of every pool under hierarchical deficit round robin, the
deadline index, owner quotas and ordering locks. A Go map is an `AList`; the two-level maps of
`poolState` (class, then owner) are maps on pairs. A ready queue is its FIFO content and the
deadline index is the heap array, where the source's `HeapIndex` is the position of the entry.

`SelectCandidateEligible` reads the clock once per owner it scans, so it takes the clock and the
number of readings made so far, and returns the new number.
-/

namespace Goultroid.Admission

structure OwnerLimits where
  maxWaiting : Int
  maxActive : Int
  weight : Int
  maxPayloadByte : Int
  deriving DecidableEq

/-- Limits as the controller keeps them: `normalizeOwnerLimits` has filled every quota. -/
structure Quota extends OwnerLimits where
  maxWaiting_pos : 0 < maxWaiting
  maxActive_pos : 0 < maxActive
  weight_pos : 0 < weight
  maxPayloadByte_pos : 0 < maxPayloadByte
  deriving DecidableEq

def defaultOwnerLimits : Quota where
  maxWaiting := 50
  maxActive := 10
  weight := 1
  maxPayloadByte := 50 * 1024 * 1024
  maxWaiting_pos := by decide
  maxActive_pos := by decide
  weight_pos := by decide
  maxPayloadByte_pos := by decide

/-- A non-positive limit is replaced by the default. -/
def orDefault (value default : Int) : Int := if value ≤ 0 then default else value

theorem orDefault_pos {value : Int} {default : Int} (h : 0 < default) : 0 < orDefault value default := by
  rw [orDefault]
  split_ifs <;> omega

def normalizeOwnerLimits (limits : OwnerLimits) : Quota where
  maxWaiting := orDefault limits.maxWaiting defaultOwnerLimits.maxWaiting
  maxActive := orDefault limits.maxActive defaultOwnerLimits.maxActive
  weight := orDefault limits.weight defaultOwnerLimits.weight
  maxPayloadByte := orDefault limits.maxPayloadByte defaultOwnerLimits.maxPayloadByte
  maxWaiting_pos := orDefault_pos defaultOwnerLimits.maxWaiting_pos
  maxActive_pos := orDefault_pos defaultOwnerLimits.maxActive_pos
  weight_pos := orDefault_pos defaultOwnerLimits.weight_pos
  maxPayloadByte_pos := orDefault_pos defaultOwnerLimits.maxPayloadByte_pos

structure QueueEntry where
  spec : WorkSpec
  enqueuedAt : Time
  payloadSize : Int
  deriving DecidableEq

/-! ### The ready queue -/

/-- The entries of a `ReadyQueue` from head to tail. -/
abbrev ReadyQueue := List QueueEntry

namespace ReadyQueue

def push (q : ReadyQueue) (entry : QueueEntry) : ReadyQueue := q ++ [entry]

def remove (q : ReadyQueue) (id : TaskID) : ReadyQueue := q.eraseP fun entry => entry.spec.id == id

def firstMatching (q : ReadyQueue) (accept : QueueEntry → Bool) : Option QueueEntry := q.find? accept

end ReadyQueue

/-! ### The deadline index -/

abbrev DeadlineIndex := Array QueueEntry

namespace DeadlineIndex

/-- `deadlineHeap.Less`. -/
def less (a b : QueueEntry) : Bool := decide (a.spec.queueDeadline < b.spec.queueDeadline)

/-- Entries without a deadline are not indexed. -/
def push (d : DeadlineIndex) (entry : QueueEntry) : DeadlineIndex :=
  if entry.spec.queueDeadline = 0 then d else Heap.push less d entry

/-- An entry that is not in the heap is left alone. -/
def remove (d : DeadlineIndex) (entry : QueueEntry) : DeadlineIndex :=
  match d.findIdx? (· == entry) with
  | none => d
  | some index => (Heap.remove less d index).2

/-- The loop of `PopExpired`; every round takes an entry, so the size is enough fuel. -/
def popExpiredLoop (now : Time) : Nat → DeadlineIndex → List QueueEntry × DeadlineIndex
  | 0, d => ([], d)
  | fuel + 1, d =>
    match d[0]? with
    | none => ([], d)
    | some top =>
      if now < top.spec.queueDeadline then ([], d)
      else
        let rest := popExpiredLoop now fuel (Heap.pop less d).2
        (top :: rest.1, rest.2)

def popExpired (d : DeadlineIndex) (now : Time) : List QueueEntry × DeadlineIndex :=
  popExpiredLoop now d.size d

end DeadlineIndex

/-! ### Pools -/

structure PoolConfig where
  backlogLimit : Int
  payloadBudget : Int
  deriving DecidableEq

def defaultPoolConfig : PoolConfig := ⟨500, 100 * 1024 * 1024⟩

structure PoolState where
  config : PoolConfig
  deadlineIndex : DeadlineIndex := #[]
  queues : AList fun _ : PriorityClass × OwnerID => ReadyQueue := ∅
  classDeficits : AList fun _ : PriorityClass => Int := ∅
  activeClasses : List PriorityClass := []
  classCursor : Nat := 0
  ownerQuantums : AList fun _ : PriorityClass × OwnerID => Int := ∅
  ownerDeficits : AList fun _ : PriorityClass × OwnerID => Int := ∅
  activeOwners : AList fun _ : PriorityClass => List OwnerID := ∅
  ownerCursor : AList fun _ : PriorityClass => Nat := ∅
  totalWaiting : Int := 0
  totalBytes : Int := 0

/-- `classQuantums`, which `newPoolState` fills and nothing changes. -/
def classQuantums : PriorityClass → Int
  | .interactive => 8
  | .normal => 4
  | .background => 2
  | .maintenance => 1
  | .unset | .other _ => 0

def newPoolState (cfg : PoolConfig) : PoolState := { config := cfg }

namespace PoolState

variable (ps : PoolState) (cls : PriorityClass) (owner : OwnerID)

/-- `ps.queues[class][owner]`, a missing queue reading as an empty one. -/
def queue : ReadyQueue :=
  ps.queues.getD (cls, owner) []

/-- A class whose credit is spent gets its quantum again. -/
def refillClass : PoolState :=
  let quantum := if classQuantums cls ≤ 0 then 1 else classQuantums cls
  if ps.classDeficits.getD cls 0 ≤ 0 then
    { ps with classDeficits := ps.classDeficits.insert cls quantum }
  else ps

/-- An owner whose credit is spent gets its weight again. -/
def refillOwner : PoolState :=
  let weight := ps.ownerQuantums.getD (cls, owner) 0
  let quantum := if weight ≤ 0 then 1 else weight
  if ps.ownerDeficits.getD (cls, owner) 0 ≤ 0 then
    { ps with ownerDeficits := ps.ownerDeficits.insert (cls, owner) quantum }
  else ps

/-- An owner met with an empty queue leaves the rotation; `owners` are those that stay. -/
def dropOwner (owners : List OwnerID) : PoolState :=
  { ps with
    ownerDeficits := ps.ownerDeficits.erase (cls, owner)
    ownerQuantums := ps.ownerQuantums.erase (cls, owner)
    queues := ps.queues.erase (cls, owner)
    activeOwners := ps.activeOwners.insert cls owners }

/-- A class without active owners leaves the rotation. -/
def dropClass : PoolState :=
  { ps with
    classDeficits := ps.classDeficits.insert cls 0
    activeClasses := ps.activeClasses.eraseIdx ps.classCursor }

/-- No owner of the class had a candidate: its turn ends. -/
def passClass (cursor : Nat) : PoolState :=
  { ps with
    ownerCursor := ps.ownerCursor.insert cls cursor
    classDeficits := ps.classDeficits.insert cls 0
    classCursor := ps.classCursor + 1 }

def wrapClassCursor : PoolState :=
  { ps with classCursor := Cursor.wrap ps.activeClasses ps.classCursor }

end PoolState

/-- The class an entry is filed under: an empty class counts as normal. -/
def fileClass (spec : WorkSpec) : PriorityClass :=
  if spec.cls = .unset then .normal else spec.cls

structure Controller where
  pools : AList fun _ : PoolID => PoolState := ∅
  ownerLimits : AList fun _ : OwnerID => Quota := ∅
  ownerActiveCount : AList fun _ : OwnerID => Int := ∅
  ownerWaitingCount : AList fun _ : OwnerID => Int := ∅
  ownerWaitingBytes : AList fun _ : OwnerID => Int := ∅
  orderingLocks : AList fun _ : GoString => TaskID := ∅
  taskByID : AList fun _ : TaskID => QueueEntry := ∅

def newController (poolConfigs : AList fun _ : PoolID => PoolConfig) : Controller where
  pools := poolConfigs.entries.foldl (fun pools s => pools.insert s.1 (newPoolState s.2)) ∅

namespace Controller

variable (c : Controller) (pool : PoolID) (ps : PoolState) (cls : PriorityClass) (owner : OwnerID)

/-- A pool's state is reached through a pointer; the model writes it back. -/
def setPool : Controller :=
  { c with pools := c.pools.insert pool ps }

def poolStats : Int × Int :=
  match c.pools.lookup pool with
  | some state => (state.totalWaiting, state.totalBytes)
  | none => (0, 0)

def setPoolConfig (cfg : PoolConfig) : Except TaskError Controller :=
  match c.pools.lookup pool with
  | none => .error .poolNotConfigured
  | some state => .ok (c.setPool pool { state with config := cfg })

/-- The inner loop of `SetOwnerLimits`: an owner in rotation with another weight starts over. -/
def refreshWeight (weight : Int) (state : PoolState) : PoolState :=
  [.interactive, .normal, .background, .maintenance].foldl (fun state cls =>
    match state.ownerQuantums.lookup (cls, owner) with
    | none => state
    | some previous =>
      if previous = weight then state
      else { state with
        ownerQuantums := state.ownerQuantums.insert (cls, owner) weight
        ownerDeficits := state.ownerDeficits.insert (cls, owner) 0 }) state

def setOwnerLimits (limits : OwnerLimits) : Controller :=
  let limits := normalizeOwnerLimits limits
  { c with
    ownerLimits := c.ownerLimits.insert owner limits
    pools := c.pools.mapVal (refreshWeight owner limits.weight) }

def getOwnerLimits : Quota := c.ownerLimits.getD owner defaultOwnerLimits

def canAdmit (spec : WorkSpec) (payloadBytes : Int) : Except AdmissionError Unit :=
  match c.pools.lookup spec.pool with
  | none => .error ⟨.poolBacklogFull, .poolNotConfigured⟩
  | some ps =>
    if 0 < ps.config.backlogLimit ∧ ps.config.backlogLimit ≤ ps.totalWaiting then
      .error ⟨.poolBacklogFull, .poolBacklogFull⟩
    else if 0 < ps.config.payloadBudget ∧ ps.config.payloadBudget < ps.totalBytes + payloadBytes then
      .error ⟨.payloadBudget, .payloadBudget⟩
    else
      let limits := c.getOwnerLimits spec.quotaOwner
      if 0 < limits.maxWaiting ∧ limits.maxWaiting ≤ c.ownerWaitingCount.getD spec.quotaOwner 0 then
        .error ⟨.ownerQueueFull, .ownerQueueFull⟩
      else if 0 < limits.maxPayloadByte ∧
          limits.maxPayloadByte < c.ownerWaitingBytes.getD spec.quotaOwner 0 + payloadBytes then
        .error ⟨.payloadBudget, .payloadBudget⟩
      else .ok ()

def ensureActiveClass : PoolState :=
  if cls ∈ ps.activeClasses then ps else { ps with activeClasses := ps.activeClasses ++ [cls] }

def ensureActiveOwner : PoolState :=
  let owners := ps.activeOwners.getD cls []
  if owner ∈ owners then ps
  else
    let ps := { ps with activeOwners := ps.activeOwners.insert cls (owners ++ [owner]) }
    if (ps.ownerQuantums.lookup (cls, owner)).isSome then ps
    else
      let weight := if (c.getOwnerLimits owner).weight ≤ 0 then 1 else (c.getOwnerLimits owner).weight
      { ps with ownerQuantums := ps.ownerQuantums.insert (cls, owner) weight }

/-- The pool side of `Enqueue`. -/
def fileEntry (entry : QueueEntry) : PoolState :=
  { ps with
    queues := ps.queues.insert (cls, owner) ((ps.queue cls owner).push entry)
    deadlineIndex := DeadlineIndex.push ps.deadlineIndex entry
    totalWaiting := ps.totalWaiting + 1
    totalBytes := ps.totalBytes + entry.payloadSize }

def enqueue (entry : QueueEntry) : Controller :=
  let spec := entry.spec
  match c.pools.lookup spec.pool with
  | none => c
  | some ps =>
    let cls := fileClass spec
    let owner := spec.quotaOwner
    let ps := fileEntry ps cls owner entry
    let ps := c.ensureActiveOwner (ensureActiveClass ps cls) cls owner
    { c.setPool spec.pool ps with
      ownerWaitingCount := c.ownerWaitingCount.insert owner (c.ownerWaitingCount.getD owner 0 + 1)
      ownerWaitingBytes :=
        c.ownerWaitingBytes.insert owner (c.ownerWaitingBytes.getD owner 0 + entry.payloadSize)
      taskByID := c.taskByID.insert spec.id entry }

def compactOwnerCounters : Controller :=
  { c with
    ownerWaitingCount :=
      if c.ownerWaitingCount.getD owner 0 = 0 then c.ownerWaitingCount.erase owner
      else c.ownerWaitingCount
    ownerWaitingBytes :=
      if c.ownerWaitingBytes.getD owner 0 = 0 then c.ownerWaitingBytes.erase owner
      else c.ownerWaitingBytes
    ownerActiveCount :=
      if c.ownerActiveCount.getD owner 0 = 0 then c.ownerActiveCount.erase owner
      else c.ownerActiveCount }

/-- The owner side of taking an entry out of its queue: the counters of its owner and the index by
task. -/
def forgetWaiting (entry : QueueEntry) : Controller :=
  let c' := compactOwnerCounters
    { c with
      ownerWaitingCount := c.ownerWaitingCount.insert owner (c.ownerWaitingCount.getD owner 0 - 1)
      ownerWaitingBytes :=
        c.ownerWaitingBytes.insert owner (c.ownerWaitingBytes.getD owner 0 - entry.payloadSize) }
    owner
  { c' with taskByID := c'.taskByID.erase entry.spec.id }

/-! ### Selection -/

/-- The match of `FirstMatching` in the owner scan. -/
def dispatchable (now : Time) (eligible : WorkSpec → Bool) (entry : QueueEntry) : Bool :=
  !entry.spec.expiredAt now &&
    (entry.spec.orderingKey == [] || (c.orderingLocks.lookup entry.spec.orderingKey).isNone) &&
    eligible entry.spec

/-- `limits.MaxActive > 0 && c.ownerActiveCount[owner] >= limits.MaxActive`. -/
def ownerSaturated : Bool :=
  let limits := c.getOwnerLimits owner
  decide (0 < limits.maxActive ∧ limits.maxActive ≤ c.ownerActiveCount.getD owner 0)

/-- How the owner loop of one class ends: at a candidate of the owner under the cursor, or with every
owner tried. -/
inductive OwnerScan where
  | found (ps : PoolState) (owner : OwnerID) (cursor : Nat) (candidate : QueueEntry) (tick : Nat)
  | exhausted (ps : PoolState) (cursor : Nat) (tick : Nat)

/-- The owner loop of `SelectCandidateEligible`, with `tries` rounds to go. -/
def scanOwners (cls : PriorityClass) (clock : Nat → Time) (eligible : WorkSpec → Bool) :
    Nat → PoolState → List OwnerID → Nat → Nat → OwnerScan
  | 0, ps, _, cursor, tick => .exhausted ps cursor tick
  | tries + 1, ps, owners, cursor, tick =>
    if owners = [] then .exhausted ps cursor tick
    else
      let cursor := Cursor.wrap owners cursor
      let owner := owners.getD cursor []
      let ps := ps.refillOwner cls owner
      if ps.queue cls owner = [] then
        let owners := owners.eraseIdx cursor
        scanOwners cls clock eligible tries (ps.dropOwner cls owner owners) owners cursor tick
      else if c.ownerSaturated owner then
        scanOwners cls clock eligible tries ps owners (cursor + 1) tick
      else
        match (ps.queue cls owner).firstMatching (c.dispatchable (clock tick) eligible) with
        | none => scanOwners cls clock eligible tries ps owners (cursor + 1) (tick + 1)
        | some candidate => .found ps owner cursor candidate (tick + 1)

/-- The pool after a selection: both credits are debited, the entry leaves its queue and the deadline
index, and the cursors move on when the owner's or the class's credit is spent. -/
def debit (cursor : Nat) (candidate : QueueEntry) : PoolState :=
  let classDeficit := ps.classDeficits.getD cls 0 - 1
  let ownerDeficit := ps.ownerDeficits.getD (cls, owner) 0 - 1
  let rq := (ps.queue cls owner).remove candidate.spec.id
  let spent := ownerDeficit ≤ 0 ∨ rq = []
  { ps with
    classDeficits := ps.classDeficits.insert cls classDeficit
    ownerDeficits := ps.ownerDeficits.insert (cls, owner) (if spent then 0 else ownerDeficit)
    queues := ps.queues.insert (cls, owner) rq
    deadlineIndex := DeadlineIndex.remove ps.deadlineIndex candidate
    totalWaiting := ps.totalWaiting - 1
    totalBytes := ps.totalBytes - candidate.payloadSize
    ownerCursor := ps.ownerCursor.insert cls (if spent then cursor + 1 else cursor)
    classCursor := if classDeficit ≤ 0 then ps.classCursor + 1 else ps.classCursor }

/-- The owner's active count and the ordering lock of a selected candidate. -/
def activate (spec : WorkSpec) : Controller :=
  { c with
    ownerActiveCount := c.ownerActiveCount.insert owner (c.ownerActiveCount.getD owner 0 + 1)
    orderingLocks :=
      if spec.orderingKey = [] then c.orderingLocks
      else c.orderingLocks.insert spec.orderingKey spec.id }

/-- The branch of the owner loop that found a candidate. -/
def takeCandidate (cursor : Nat) (candidate : QueueEntry) : Controller :=
  ((c.setPool pool (debit ps cls owner cursor candidate)).forgetWaiting owner candidate).activate
    owner candidate.spec

/-- The candidate, if any, the controller after the call and the clock readings made so far. -/
structure Selection where
  candidate : Option QueueEntry
  controller : Controller
  tick : Nat

/-- The class loop of `SelectCandidateEligible`, with `tries` rounds to go. -/
def scanClasses (pool : PoolID) (clock : Nat → Time) (eligible : WorkSpec → Bool) : Nat → PoolState → Nat → Selection
  | 0, ps, tick => ⟨none, c.setPool pool ps, tick⟩
  | tries + 1, ps, tick =>
    if ps.activeClasses = [] then ⟨none, c.setPool pool ps, tick⟩
    else
      let ps := ps.wrapClassCursor
      let cls := ps.activeClasses.getD ps.classCursor .unset
      let ps := ps.refillClass cls
      let owners := ps.activeOwners.getD cls []
      if owners = [] then scanClasses pool clock eligible tries (ps.dropClass cls) tick
      else
        match c.scanOwners cls clock eligible owners.length ps owners (ps.ownerCursor.getD cls 0) tick with
        | .found ps owner cursor candidate tick =>
          ⟨some candidate, c.takeCandidate pool ps cls owner cursor candidate, tick⟩
        | .exhausted ps cursor tick =>
          scanClasses pool clock eligible tries (ps.passClass cls cursor) tick

def selectCandidateEligible (clock : Nat → Time) (eligible : WorkSpec → Bool) (tick : Nat) : Selection :=
  match c.pools.lookup pool with
  | none => ⟨none, c, tick⟩
  | some ps =>
    if ps.activeClasses = [] then ⟨none, c, tick⟩
    else c.scanClasses pool clock eligible ps.activeClasses.length ps tick

/-! ### Leaving the queue, leaving the worker -/

def onTaskTerminal (spec : WorkSpec) : Controller :=
  let owner := spec.quotaOwner
  let active := c.ownerActiveCount.getD owner 0
  let released := compactOwnerCounters
    { c with
      ownerActiveCount :=
        if 0 < active then c.ownerActiveCount.insert owner (active - 1) else c.ownerActiveCount }
    owner
  { released with
    orderingLocks :=
      if spec.orderingKey ≠ [] ∧ c.orderingLocks.lookup spec.orderingKey = some spec.id then
        c.orderingLocks.erase spec.orderingKey
      else c.orderingLocks }

/-- The pool side of taking an entry out of its queue, with what `deadlines` does to the index. -/
def unfileEntry (entry : QueueEntry) (deadlines : DeadlineIndex) : PoolState :=
  let key := (fileClass entry.spec, entry.spec.quotaOwner)
  { ps with
    queues :=
      match ps.queues.lookup key with
      | none => ps.queues
      | some rq => ps.queues.insert key (ReadyQueue.remove rq entry.spec.id)
    deadlineIndex := deadlines
    totalWaiting := ps.totalWaiting - 1
    totalBytes := ps.totalBytes - entry.payloadSize }

/-- `RemoveTask`, without the entry it also returns. -/
def removeTask (id : TaskID) : Controller :=
  match c.taskByID.lookup id with
  | none => c
  | some entry =>
    match c.pools.lookup entry.spec.pool with
    | none => c
    | some ps =>
      let ps := unfileEntry ps entry (DeadlineIndex.remove ps.deadlineIndex entry)
      (c.setPool entry.spec.pool ps).forgetWaiting entry.spec.quotaOwner entry

/-- The loop of `PopExpired` over the entries the deadline index gave up. -/
def forgetExpired (pool : PoolID) : List QueueEntry → PoolState → Controller → Controller
  | [], _, c => c
  | entry :: rest, ps, c =>
    let ps := unfileEntry ps entry ps.deadlineIndex
    forgetExpired pool rest ps ((c.setPool pool ps).forgetWaiting entry.spec.quotaOwner entry)

def popExpired (now : Time) : List QueueEntry × Controller :=
  match c.pools.lookup pool with
  | none => ([], c)
  | some ps =>
    let expired := DeadlineIndex.popExpired ps.deadlineIndex now
    let ps := { ps with deadlineIndex := expired.2 }
    (expired.1, forgetExpired pool expired.1 ps (c.setPool pool ps))

end Controller

end Goultroid.Admission
