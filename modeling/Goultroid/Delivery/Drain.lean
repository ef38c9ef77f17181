import Goultroid.Delivery.Lane

/-!
# When a drained lane is empty

`drain` returns when it reads `drained`, and `signalDrained` sets it when it has seen no pending and no
active callback and an empty queue. A callback counts as pending only after its `enqueueReserved` has
marked the lane busy, and between the two `signalDrained` can see nothing of it. In the runs in which no
`signalDrained` takes its lock just then, a drained lane is empty.

The threads are counted by the stage at which they are in what `signalDrained` looks at, and each
counter of the lane is a sum of such counts (`Balanced`). A step takes one thread from one stage to
another (`Shift`), from which `Balanced.shift` computes the new counts. Between its loads
`signalDrained` holds the lock, and the invariant says what follows from the loads that it has made:
nothing is marked, then nothing is fresh, then nothing is outstanding. The callbacks themselves are
followed from their send to their return (`Placed`).
-/

namespace Goultroid.Lane

open List Threads
open Threads (Pool Act Run Acts)

variable {s s' : Shared} {pc : SignalPc} {next : Option SignalPc} {t t' : Thread} {i k : Nat} {p p' : Pool Shared Thread}
  {a : Act Thread Choice} {go : Bool} {choice : Choice} {new : List Thread}

/-! ### What a step does -/

/-- The part that a thread has in what `signalDrained` looks at. -/
inductive Stage where
  | other
  /-- an `enqueueReserved` that has marked the lane busy, and not counted its callback -/
  | marked
  | sending
  /-- an `enqueueReserved` that found the queue full, before it takes its count back -/
  | full
  /-- a worker that has received a callback, before it counts it as active -/
  | taken
  | counted
  | calling
  /-- a worker whose callback has returned and is still counted as active -/
  | returned
  /-- a `signalDrained` in front of its lock -/
  | locking
  /-- a `signalDrained` under its lock -/
  | checkPending
  | checkActive
  | checkQueue
  | closing
  deriving DecidableEq

def SignalPc.stage : SignalPc → Stage
  | .pendingLocked => .checkPending
  | .activeLocked => .checkActive
  | .queueLocked => .checkQueue
  | .close => .closing
  | .lock => .locking
  | .pending | .active | .queue => .other

def Thread.stage : Thread → Stage
  | .enqueue .incPending => .marked
  | .enqueue .send => .sending
  | .enqueue .decPending => .full
  | .enqueue (.signal pc) => pc.stage
  | .worker (.incActive _) => .taken
  | .worker (.decPending _) => .counted
  | .worker (.call _) => .calling
  | .worker (.decActive _) => .returned
  | .worker (.signal pc) => pc.stage
  | _ => .other

/-- What `signalDrained` and `drain` look at is the same, and no callback has returned. -/
structure SameView (s s' : Shared) : Prop where
  pending : s'.pending = s.pending
  active : s'.active = s.active
  queue : s'.queue = s.queue
  drained : s'.drained = s.drained
  drainMu : s'.drainMu = s.drainMu
  finished : s'.finished = s.finished

theorem SameView.refl (s : Shared) : SameView s s := ⟨rfl, rfl, rfl, rfl, rfl, rfl⟩

/-- What a step of a thread does to what `signalDrained` looks at. -/
inductive Shift (s s' : Shared) : Stage → Stage → Prop where
  | same (stage : Stage) (h : SameView s s') : Shift s s' stage stage
  | mark (hmu : s.drainMu = false) (h : SameView { s with drained := false } s') : Shift s s' .other .marked
  | count (h : SameView { s with pending := s.pending + 1 } s') : Shift s s' .marked .sending
  | send (item : Nat) (h : SameView { s with queue := s.queue ++ [item] } s') : Shift s s' .sending .other
  | refuse (h : SameView s s') : Shift s s' .sending .full
  | uncount (h : SameView { s with pending := s.pending - 1 } s') : Shift s s' .full .other
  | take (item : Nat) (rest : List Nat) (hqueue : s.queue = item :: rest)
    (h : SameView { s with queue := rest } s') : Shift s s' .other .taken
  | activate (h : SameView { s with active := s.active + 1 } s') : Shift s s' .taken .counted
  | call (h : SameView { s with pending := s.pending - 1 } s') : Shift s s' .counted .calling
  | finish (item : Nat) (h : SameView { s with finished := s.finished ++ [item] } s') : Shift s s' .calling .returned
  | deactivate (h : SameView { s with active := s.active - 1 } s') : Shift s s' .returned .other
  | approach (h : SameView s s') : Shift s s' .other .locking
  | leave (h : SameView s s') : Shift s s' .locking .other
  | lock (hmu : s.drainMu = false) (hdrained : s.drained = false) (h : SameView { s with drainMu := true } s') :
    Shift s s' .locking .checkPending
  | noPending (hzero : s.pending = 0) (h : SameView s s') : Shift s s' .checkPending .checkActive
  | noActive (hzero : s.active = 0) (h : SameView s s') : Shift s s' .checkActive .checkQueue
  | noQueued (hzero : s.queue = []) (h : SameView s s') : Shift s s' .checkQueue .closing
  | unlock (stage : Stage) (hlocked : stage = .checkPending ∨ stage = .checkActive ∨ stage = .checkQueue)
    (h : SameView { s with drainMu := false } s') : Shift s s' stage .other
  | close (h : SameView { s with drained := true, drainMu := false } s') : Shift s s' .closing .other

theorem releaseReservation_view : SameView s s.releaseReservation := by
  unfold Shared.releaseReservation
  split_ifs <;> exact ⟨rfl, rfl, rfl, rfl, rfl, rfl⟩

theorem ensureWorkersLocked_view (s : Shared) (pc : EnsurePc) : SameView s (ensureWorkersLocked s pc).1 := by
  cases pc with
  | add =>
    unfold ensureWorkersLocked
    dsimp only
    split_ifs <;> exact ⟨rfl, rfl, rfl, rfl, rfl, rfl⟩
  | _ => exact .refl s

theorem signalDrained_shift (h : signalDrained s pc = some (s', next)) : Shift s s' pc.stage (next.elim .other SignalPc.stage) := by
  cases pc with
  | pending | active =>
    cases h
    split_ifs
    · exact .same .other (.refl s)
    · exact .same .other (.refl s)
  | queue =>
    cases h
    split_ifs
    · exact .same .other (.refl s)
    · exact .approach (.refl s)
  | lock =>
    simp only [signalDrained] at h
    split_ifs at h with hmu hdrained
    · cases h
      exact .leave (.refl s)
    · cases h
      exact .lock (by simpa using hmu) (by simpa using hdrained) (.refl _)
  | pendingLocked =>
    simp only [signalDrained] at h
    split_ifs at h with hzero
    · cases h
      exact .unlock _ (.inl rfl) (.refl _)
    · cases h
      exact .noPending (by simpa using hzero) (.refl _)
  | activeLocked =>
    simp only [signalDrained] at h
    split_ifs at h with hzero
    · cases h
      exact .unlock _ (.inr (.inl rfl)) (.refl _)
    · cases h
      exact .noActive (by simpa using hzero) (.refl _)
  | queueLocked =>
    simp only [signalDrained] at h
    split_ifs at h with hzero
    · cases h
      exact .unlock _ (.inr (.inr rfl)) (.refl _)
    · cases h
      exact .noQueued (by simpa using hzero) (.refl _)
  | close =>
    cases h
    exact .close (.refl _)

/-- The callback that a worker has received and that has not returned. -/
def Thread.holding : Thread → Option Nat
  | .worker (.incActive item) | .worker (.decPending item) | .worker (.call item) => some item
  | _ => none

/-- An `enqueueReserved` that has sent its callback. -/
def Thread.sent : Thread → Bool
  | .enqueue (.ensure _) | .enqueue (.unlock true) | .enqueue (.returned true) => true
  | _ => false

/-- What a step of thread `i` does with the callbacks. -/
inductive Carries (i : Nat) (s s' : Shared) (t t' : Thread) : Prop where
  | same (hqueue : s'.queue = s.queue) (hfinished : s'.finished = s.finished) (hholding : t'.holding = t.holding)
    (hsent : t'.sent = true → t.sent = true)
  | send (hqueue : s'.queue = s.queue ++ [i]) (hfinished : s'.finished = s.finished) (hholding : t'.holding = t.holding)
  | take (item : Nat) (rest : List Nat) (hqueue : s.queue = item :: rest) (hqueue' : s'.queue = rest)
    (hfinished : s'.finished = s.finished) (hholding : t.holding = none) (hholding' : t'.holding = some item)
    (hsent : t'.sent = false)
  | finish (item : Nat) (hqueue : s'.queue = s.queue) (hholding : t.holding = some item)
    (hfinished : s'.finished = s.finished ++ [item]) (hsent : t'.sent = false)

/-- A step that leaves the queue and the log alone. -/
structure SameItems (s s' : Shared) : Prop where
  queue : s'.queue = s.queue
  finished : s'.finished = s.finished

theorem signalDrained_items (h : signalDrained s pc = some (s', next)) : SameItems s s' := by
  cases pc with
  | close =>
    cases h
    exact ⟨rfl, rfl⟩
  | _ =>
    simp only [signalDrained] at h
    split_ifs at h <;> cases h <;> exact ⟨rfl, rfl⟩

/-- What a step of thread `i` does to the counts, and with the callbacks. -/
structure Moves (i : Nat) (s s' : Shared) (t t' : Thread) : Prop where
  shift : Shift s s' t.stage t'.stage
  carries : Carries i s s' t t'

theorem Moves.quiet (ht : t.stage = .other) (ht' : t'.stage = .other) (h : SameView s s') (hholding : t'.holding = t.holding)
    (hsent : t'.sent = true → t.sent = true) : Moves i s s' t t' := by
  refine ⟨?_, .same h.queue h.finished hholding hsent⟩
  rw [ht, ht']
  exact .same _ h

theorem Moves.signal (h : signalDrained s pc = some (s', next)) (ht : t.stage = pc.stage) (ht' : t'.stage = next.elim .other SignalPc.stage)
    (hholding : t'.holding = t.holding) (hsent : t'.sent = true → t.sent = true) : Moves i s s' t t' := by
  refine ⟨?_, .same (signalDrained_items h).queue (signalDrained_items h).finished hholding hsent⟩
  rw [ht, ht']
  exact signalDrained_shift h

theorem enqueueReserved_moves {pc' : EnqueuePc} {pc : EnqueuePc} (h : enqueueReserved i s pc = some (s', pc', go)) :
    Moves i s s' (.enqueue pc) (.enqueue pc') := by
  cases pc with
  | lock =>
    simp only [enqueueReserved] at h
    split_ifs at h
    cases h
    exact .quiet rfl rfl ⟨rfl, rfl, rfl, rfl, rfl, rfl⟩ rfl nofun
  | stopping =>
    simp only [enqueueReserved] at h
    split_ifs at h <;> cases h <;> exact .quiet rfl rfl (.refl s) rfl nofun
  | stopFailed | fullFailed =>
    cases h
    exact .quiet rfl rfl ⟨rfl, rfl, rfl, rfl, rfl, rfl⟩ rfl nofun
  | stopRelease | fullRelease =>
    cases h
    exact .quiet rfl rfl releaseReservation_view rfl nofun
  | markBusy =>
    simp only [enqueueReserved] at h
    split_ifs at h with hmu
    cases h
    have hview : SameView { s with drained := false } s.markBusy := by
      unfold Shared.markBusy
      split_ifs with hdrained
      · exact ⟨rfl, rfl, rfl, rfl, rfl, rfl⟩
      · exact ⟨rfl, rfl, rfl, by simpa using hdrained, rfl, rfl⟩
    exact ⟨.mark (by simpa using hmu) hview, .same hview.queue hview.finished rfl nofun⟩
  | incPending =>
    cases h
    exact ⟨.count (.refl _), .same rfl rfl rfl nofun⟩
  | send =>
    simp only [enqueueReserved] at h
    split_ifs at h <;> cases h
    · exact ⟨.send i (.refl _), .send rfl rfl rfl⟩
    · exact ⟨.refuse (.refl _), .same rfl rfl rfl nofun⟩
  | ensure pc =>
    have hview := ensureWorkersLocked_view s pc
    simp only [enqueueReserved] at h
    split at h <;> rename_i heq <;> rw [heq] at hview <;> cases h <;> exact .quiet rfl rfl hview rfl fun _ => rfl
  | decPending =>
    cases h
    exact ⟨.uncount (.refl _), .same rfl rfl rfl nofun⟩
  | signal =>
    simp only [enqueueReserved] at h
    split at h
    · cases h
    iterate 2
      · rename_i heq
        cases h
        exact .signal heq rfl rfl rfl nofun
  | unlock ok =>
    cases h
    refine .quiet rfl rfl ⟨rfl, rfl, rfl, rfl, rfl, rfl⟩ rfl fun hx => ?_
    cases ok with
    | false => cases hx
    | true => rfl
  | returned => cases h

theorem loop_moves {pc pc' : WorkerPc} (h : loop choice s pc = some (s', pc', go)) : Moves i s s' (.worker pc) (.worker pc') := by
  have hsent : (Thread.worker pc').sent = true → (Thread.worker pc).sent = true := nofun
  cases pc with
  | select =>
    cases choice with
    | next =>
      simp only [loop] at h
      split at h
      · cases h
      · rename_i item rest hqueue
        cases h
        exact ⟨.take item rest hqueue (.refl _), .take item rest hqueue rfl rfl rfl rfl rfl⟩
    | stop =>
      simp only [loop] at h
      split_ifs at h
      cases h
      exact .quiet rfl rfl (.refl s) rfl hsent
    | timer =>
      cases h
      exact .quiet rfl rfl (.refl s) rfl hsent
    | cancel => cases h
  | incActive =>
    cases h
    exact ⟨.activate (.refl _), .same rfl rfl rfl hsent⟩
  | decPending =>
    cases h
    exact ⟨.call (.refl _), .same rfl rfl rfl hsent⟩
  | call item =>
    cases h
    exact ⟨.finish item (.refl _), .finish item rfl rfl rfl rfl⟩
  | decActive =>
    cases h
    exact ⟨.deactivate (.refl _), .same rfl rfl rfl hsent⟩
  | release =>
    cases h
    exact .quiet rfl rfl releaseReservation_view rfl hsent
  | signal =>
    simp only [loop] at h
    split at h
    · cases h
    iterate 2
      · rename_i heq
        cases h
        exact .signal heq rfl rfl rfl hsent
  | timer | pending =>
    simp only [loop] at h
    split_ifs at h <;> cases h <;> exact .quiet rfl rfl (.refl s) rfl hsent
  | decRemaining | ensureUnlock =>
    cases h
    exact .quiet rfl rfl ⟨rfl, rfl, rfl, rfl, rfl, rfl⟩ rfl hsent
  | stopping =>
    simp only [loop] at h
    split_ifs at h <;> cases h <;> exact .quiet rfl rfl ⟨rfl, rfl, rfl, rfl, rfl, rfl⟩ rfl hsent
  | ensureLock =>
    simp only [loop] at h
    split_ifs at h
    cases h
    exact .quiet rfl rfl ⟨rfl, rfl, rfl, rfl, rfl, rfl⟩ rfl hsent
  | ensure pc =>
    have hview := ensureWorkersLocked_view s pc
    simp only [loop] at h
    split at h <;> rename_i heq <;> rw [heq] at hview <;> cases h <;> exact .quiet rfl rfl hview rfl hsent
  | exited => cases h

theorem reserve_view {pc pc' : ReservePc} (h : reserve s pc = some (s', pc')) : SameView s s' := by
  cases pc with
  | lock =>
    simp only [reserve] at h
    split_ifs at h
    cases h
    exact ⟨rfl, rfl, rfl, rfl, rfl, rfl⟩
  | stopping =>
    cases h
    exact .refl s
  | send =>
    simp only [reserve] at h
    split_ifs at h <;> cases h <;> exact ⟨rfl, rfl, rfl, rfl, rfl, rfl⟩
  | unlock =>
    cases h
    exact ⟨rfl, rfl, rfl, rfl, rfl, rfl⟩
  | returned => cases h

theorem drain_same {pc pc' : DrainPc} (h : drain choice s pc = some (s', pc')) : s' = s := by
  cases pc with
  | read =>
    simp only [drain] at h
    split_ifs at h <;> cases h <;> rfl
  | wait =>
    simp only [drain] at h
    split at h
    · cases h
      rfl
    · split_ifs at h
      cases h
      rfl
  | returned => cases h

theorem stop_view {pc pc' : StopPc} (h : stop choice s pc = some (s', pc')) : SameView s s' := by
  cases pc with
  | lock =>
    simp only [stop] at h
    split_ifs at h
    cases h
    exact ⟨rfl, rfl, rfl, rfl, rfl, rfl⟩
  | store | close | remaining | unlock =>
    cases h
    exact ⟨rfl, rfl, rfl, rfl, rfl, rfl⟩
  | wait =>
    simp only [stop] at h
    split at h
    · cases h
      exact .refl s
    · split_ifs at h
      cases h
      exact .refl s
  | returned => cases h

theorem program_moves (h : program i choice s t = some (s', t', new)) : Moves i s s' t t' ∧ ∀ u ∈ new, u = .worker .select := by
  have hnew : ∀ go, ∀ u ∈ started go, u = .worker .select := by
    intro go u hu
    cases go with
    | false => cases hu
    | true => exact mem_singleton.mp hu
  cases t with
  | reserve =>
    obtain ⟨next, hnext, heq⟩ := Option.map_eq_some_iff.mp h
    cases heq
    exact ⟨.quiet rfl rfl (reserve_view hnext) rfl nofun, nofun⟩
  | enqueue =>
    obtain ⟨next, hnext, heq⟩ := Option.map_eq_some_iff.mp h
    cases heq
    exact ⟨enqueueReserved_moves hnext, hnew _⟩
  | worker =>
    obtain ⟨next, hnext, heq⟩ := Option.map_eq_some_iff.mp h
    cases heq
    exact ⟨loop_moves hnext, hnew _⟩
  | drain =>
    obtain ⟨next, hnext, heq⟩ := Option.map_eq_some_iff.mp h
    cases heq
    rw [drain_same hnext]
    exact ⟨.quiet rfl rfl (.refl s) rfl nofun, nofun⟩
  | stop =>
    obtain ⟨next, hnext, heq⟩ := Option.map_eq_some_iff.mp h
    cases heq
    exact ⟨.quiet rfl rfl (stop_view hnext) rfl nofun, nofun⟩

/-! ### Counting threads -/

def count (p : Pool Shared Thread) (stage : Stage) : Nat := p.sum fun t => if t.stage = stage then 1 else 0

/-- The callbacks that are marked, queued or received, and not called yet. -/
def fresh (s : Shared) (c : Stage → Nat) : Nat :=
  c .marked + c .sending + c .taken + c .counted + s.queue.length

/-- The callbacks that are marked and have not returned, or are still counted as active. -/
def outstanding (s : Shared) (c : Stage → Nat) : Nat := fresh s c + c .calling + c .returned

/-- The counters, the lock, and what `signalDrained` knows under it, when `c` threads are at each stage. -/
structure Balanced (s : Shared) (c : Stage → Nat) : Prop where
  pending : s.pending = c .sending + c .full + c .taken + c .counted + s.queue.length
  active : s.active = c .counted + c .calling + c .returned
  lock : c .checkPending + c .checkActive + c .checkQueue + c .closing = if s.drainMu then 1 else 0
  drained : s.drained = true → outstanding s c = 0
  checkPending : 0 < c .checkPending → c .marked = 0
  checkActive : 0 < c .checkActive → fresh s c = 0
  checkQueue : 0 < c .checkQueue + c .closing → outstanding s c = 0

/-- One thread has gone from `a` to `b`. -/
def Moved (c c' : Stage → Nat) (a b : Stage) : Prop :=
  ∀ stage, stage ≠ .other → c' stage + (if a = stage then 1 else 0) = c stage + if b = stage then 1 else 0

theorem Balanced.shift {c c' : Stage → Nat} {a b : Stage} (h : Balanced s c)
    (hshift : Shift s s' a b) (hmoved : Moved c c' a b) (hguard : a = .locking → c .marked = 0) : Balanced s' c' := by
  obtain ⟨hpending, hactive, hlock, hdrained, hcheckPending, hcheckActive, hcheckQueue⟩ := h
  have h1 := hmoved .marked (by decide)
  have h2 := hmoved .sending (by decide)
  have h3 := hmoved .full (by decide)
  have h4 := hmoved .taken (by decide)
  have h5 := hmoved .counted (by decide)
  have h₆ := hmoved .calling (by decide)
  have h₇ := hmoved .returned (by decide)
  have h₈ := hmoved .checkPending (by decide)
  have h₉ := hmoved .checkActive (by decide)
  have h10 := hmoved .checkQueue (by decide)
  have h11 := hmoved .closing (by decide)
  cases hshift with
  | same stage hview =>
    obtain ⟨hp, ha, hq, hd, hm, -⟩ := hview
    constructor <;> grind -ring -linarith [outstanding, fresh]
  | unlock stage hlocked hview =>
    obtain ⟨hp, ha, hq, hd, hm, -⟩ := hview
    rcases hlocked with rfl | rfl | rfl <;> simp only [reduceCtorEq, if_true, if_false] at * <;>
      constructor <;> grind -ring -linarith [outstanding, fresh]
  | mark | count | send | refuse | uncount | take | activate | call | finish | deactivate | approach | leave | lock | noPending
    | noActive | noQueued | close =>
    rename_i hview
    obtain ⟨hp, ha, hq, hd, hm, -⟩ := hview
    constructor <;> grind -ring -linarith [outstanding, fresh]

theorem moved_of_move (ht : p.threads[i]? = some t) (hnew : ∀ u ∈ new, u = .worker .select) :
    Moved (count p) (count ⟨s, p.threads.set i t' ++ new⟩) t.stage t'.stage := by
  intro stage hstage
  have hzero : (new.map fun u => if u.stage = stage then 1 else 0).sum = 0 := by
    apply sum_eq_zero
    intro n hn
    obtain ⟨u, hu, rfl⟩ := mem_map.mp hn
    rw [hnew u hu]
    exact if_neg (Ne.symm hstage)
  have hsum := sum_move (fun u : Thread => if u.stage = stage then 1 else 0) ht s t' new
  rw [hzero, add_zero] at hsum
  exact hsum

/-- No `signalDrained` takes its lock while an `enqueueReserved` has marked the lane busy and has not
counted its callback. -/
def guarded (p : Pool Shared Thread) : Act Thread Choice → Bool
  | .call _ => true
  | .move i _ =>
    !(p.threads[i]? = some (.enqueue (.signal .lock)) || p.threads[i]? = some (.worker (.signal .lock))) ||
      p.threads.all (· ≠ .enqueue .incPending)

theorem Thread.of_locking (h : t.stage = .locking) : t = .enqueue (.signal .lock) ∨ t = .worker (.signal .lock) := by
  cases t with
  | enqueue pc =>
    cases pc with
    | signal pc => cases pc <;> first | exact .inl rfl | cases h
    | _ => cases h
  | worker pc =>
    cases pc with
    | signal pc => cases pc <;> first | exact .inr rfl | cases h
    | _ => cases h
  | _ => cases h

theorem Thread.of_marked (h : t.stage = .marked) : t = .enqueue .incPending := by
  cases t with
  | enqueue pc =>
    cases pc with
    | incPending => rfl
    | signal pc => cases pc <;> cases h
    | _ => cases h
  | worker pc =>
    cases pc with
    | signal pc => cases pc <;> cases h
    | _ => cases h
  | _ => cases h

theorem Balanced.act (h : Balanced p.shared (count p))
    (hguard : guarded p a = true) (hact : Acts program entry p a p') : Balanced p'.shared (count p') := by
  cases hact with
  | call t ha ht heq =>
    have hother : t.stage = .other := by
      simp only [entry, Bool.or_eq_true, decide_eq_true_eq] at ht
      rcases ht with ((rfl | rfl) | rfl) | rfl <;> rfl
    subst heq
    refine h.shift (.same .other (.refl _)) (fun stage hstage => ?_) (nofun)
    have hsum := sum_call (fun u : Thread => if u.stage = stage then 1 else 0) p t
    rw [hother] at hsum
    rw [Nat.add_right_cancel_iff]
    exact hsum.trans (by rw [if_neg (Ne.symm hstage)]; rfl)
  | move i _ t t' shared new ha ht hnext heq =>
    obtain ⟨hmoves, hnew⟩ := program_moves hnext
    subst heq
    refine h.shift hmoves.shift (moved_of_move ht hnew) fun hlocking => ?_
    apply sum_eq_zero
    intro n hn
    obtain ⟨u, hu, rfl⟩ := mem_map.mp hn
    rw [ha, guarded, ht] at hguard
    have hnone : ∀ u ∈ p.threads, u ≠ .enqueue .incPending := by
      rcases Thread.of_locking hlocking with rfl | rfl <;> simpa using hguard
    exact if_neg fun hmarked => hnone u hu (Thread.of_marked hmarked)

theorem balanced_init (workers queueCap : Int) : Balanced (init workers queueCap).shared (count (init workers queueCap)) :=
  ⟨rfl, rfl, rfl, fun _ => rfl, fun h => absurd h (lt_irrefl 0), fun h => absurd h (lt_irrefl 0),
    fun h => absurd h (lt_irrefl 0)⟩

/-! ### Where a callback is -/

/-- A callback that was sent is queued, received by a worker, or has returned. -/
def Placed (p : Pool Shared Thread) (k : Nat) : Prop :=
  k ∈ p.shared.queue ∨ (∃ (j : Nat) (u : Thread), p.threads[j]? = some u ∧ u.holding = some k) ∨ k ∈ p.shared.finished

def Tracked (p : Pool Shared Thread) : Prop :=
  ∀ (k : Nat) (u : Thread), p.threads[k]? = some u → u.sent = true → Placed p k

theorem Placed.move (h : Placed p k) (ht : p.threads[i]? = some t) (hcarries : Carries i p.shared s' t t') :
    Placed ⟨s', p.threads.set i t' ++ new⟩ k := by
  have hkeep : ∀ {j : Nat} {u : Thread}, p.threads[j]? = some u → u.holding = some k → t'.holding = t.holding →
      ∃ (j : Nat) (u : Thread), (p.threads.set i t' ++ new)[j]? = some u ∧ u.holding = some k := by
    intro j u hu hholding hsame
    by_cases hij : i = j
    · subst hij
      rw [ht] at hu
      cases hu
      exact ⟨i, t', getElem?_move_self ht, hsame.trans hholding⟩
    · exact ⟨j, u, getElem?_move_of_ne hu hij, hholding⟩
  have hother : ∀ {j : Nat} {u : Thread}, p.threads[j]? = some u → u.holding = some k → t.holding ≠ some k →
      ∃ (j : Nat) (u : Thread), (p.threads.set i t' ++ new)[j]? = some u ∧ u.holding = some k := by
    intro j u hu hholding hne
    refine ⟨j, u, getElem?_move_of_ne hu fun hij => hne ?_, hholding⟩
    subst hij
    rw [ht] at hu
    cases hu
    exact hholding
  cases hcarries with
  | same hqueue hfinished hholding =>
    rcases h with h | ⟨j, u, hu, hk⟩ | h
    · exact .inl (hqueue ▸ h)
    · exact .inr (.inl (hkeep hu hk hholding))
    · exact .inr (.inr (hfinished ▸ h))
  | send hqueue hfinished hholding =>
    rcases h with h | ⟨j, u, hu, hk⟩ | h
    · exact .inl (hqueue ▸ mem_append_left _ h)
    · exact .inr (.inl (hkeep hu hk hholding))
    · exact .inr (.inr (hfinished ▸ h))
  | take item _ hqueue hqueue' hfinished hholding hholding' =>
    rcases h with h | ⟨j, u, hu, hk⟩ | h
    · rw [hqueue] at h
      rcases mem_cons.mp h with rfl | h
      · exact .inr (.inl ⟨i, t', getElem?_move_self ht, hholding'⟩)
      · exact .inl (hqueue' ▸ h)
    · exact .inr (.inl (hother hu hk (by simp [hholding])))
    · exact .inr (.inr (hfinished ▸ h))
  | finish item hqueue hholding hfinished =>
    rcases h with h | ⟨j, u, hu, hk⟩ | h
    · exact .inl (hqueue ▸ h)
    · by_cases hitem : item = k
      · subst hitem
        exact .inr (.inr (hfinished ▸ mem_append_right _ (mem_singleton_self item)))
      · exact .inr (.inl (hother hu hk (by simp [hholding, hitem])))
    · exact .inr (.inr (hfinished ▸ mem_append_left _ h))

theorem Tracked.act (h : Tracked p) (hact : Acts program entry p a p') : Tracked p' := by
  cases hact with
  | call t ha ht heq =>
    subst heq
    intro k u hu hsent
    rcases getElem?_call_cases hu with hu | rfl
    · rcases h k u hu hsent with hk | ⟨j, v, hv, hk⟩ | hk
      · exact .inl hk
      · exact .inr (.inl ⟨j, v, getElem?_call hv, hk⟩)
      · exact .inr (.inr hk)
    · simp only [entry, Bool.or_eq_true, decide_eq_true_eq] at ht
      rcases ht with ((rfl | rfl) | rfl) | rfl <;> cases hsent
  | move i _ t t' _ new ha ht hnext heq =>
    subst heq
    obtain ⟨⟨-, hcarries⟩, hnew⟩ := program_moves hnext
    intro k u hu hsent
    rcases getElem?_move_cases hu with ⟨rfl, rfl⟩ | ⟨-, hu⟩ | hu
    · cases hcarries with
      | same hqueue hfinished hholding hsent' =>
        exact (h k t ht (hsent' hsent)).move ht (.same hqueue hfinished hholding hsent')
      | send hqueue =>
        exact .inl (hqueue ▸ mem_append_right _ (mem_singleton_self k))
      | take item _ hqueue _ hfinished hholding _ hsent' | finish item hqueue hholding hfinished hsent' => simp [hsent'] at hsent
    · exact (h k u hu hsent).move ht hcarries
    · rw [hnew u hu] at hsent
      cases hsent

/-- In a drained lane every callback that was sent has returned. -/
theorem Balanced.finished (h : Balanced p.shared (count p)) (hdrained : p.shared.drained = true)
    (hk : Placed p k) : k ∈ p.shared.finished := by
  have hzero := h.drained hdrained
  unfold outstanding fresh at hzero
  rcases hk with hk | ⟨j, u, hu, hk⟩ | hk
  · have := length_pos_of_mem hk
    omega
  · have hle : ∀ stage, u.stage = stage → 1 ≤ count p stage := fun stage hstage =>
      (if_pos hstage).symm.trans_le (le_sum (fun t : Thread => if t.stage = stage then 1 else 0) hu)
    cases u with
    | worker pc =>
      cases pc with
      | incActive =>
        have := hle .taken rfl
        omega
      | decPending =>
        have := hle .counted rfl
        omega
      | call =>
        have := hle .calling rfl
        omega
      | _ => cases hk
    | _ => cases hk
  · exact hk

/-! ### Runs -/

theorem Carries.finished_subset (h : Carries i s s' t t') : s.finished ⊆ s'.finished := by
  cases h with
  | same hqueue hfinished | send hqueue hfinished | take item rest hqueue hqueue' hfinished =>
    rw [hfinished]
    exact List.Subset.refl _
  | finish item hqueue _ hfinished =>
    rw [hfinished]
    exact subset_append_left _ _

/-- `drain` returns without an error only when it reads `drained`. -/
theorem drained_of_returned (h : program i choice s t = some (s', .drain (.returned true), new)) : s' = s ∧ s.drained = true := by
  cases t with
  | drain pc =>
    obtain ⟨⟨s1, pc'⟩, hnext, heq⟩ := Option.map_eq_some_iff.mp h
    cases heq
    refine ⟨drain_same hnext, ?_⟩
    cases pc with
    | read =>
      simp only [drain] at hnext
      split_ifs at hnext with hmu hdrained
      · exact hdrained
      · cases hnext
    | wait =>
      simp only [drain] at hnext
      split at hnext
      · cases hnext
      · split_ifs at hnext
        cases hnext
    | returned => cases hnext
  | _ =>
    obtain ⟨_, hnext, heq⟩ := Option.map_eq_some_iff.mp h
    cases heq

/-- What holds from the begin of a `drain` by thread `d` on, for a callback `j` enqueued before it. -/
structure DrainedAfter (d j : Nat) (p : Pool Shared Thread) : Prop where
  balanced : Balanced p.shared (count p)
  tracked : Tracked p
  enqueued : p.threads[j]? = some (.enqueue (.returned true))
  finished : p.threads[d]? = some (.drain (.returned true)) → j ∈ p.shared.finished

theorem DrainedAfter.act {d j : Nat} (h : DrainedAfter d j p)
    (hguard : guarded p a = true) (hact : Acts program entry p a p') : DrainedAfter d j p' := by
  refine ⟨h.balanced.act hguard hact, h.tracked.act hact, ?_, fun hdone => ?_⟩
  · cases hact with
    | call t ha ht heq =>
      subst heq
      exact getElem?_call h.enqueued
    | move i choice t t' shared new ha ht hnext heq =>
      subst heq
      refine getElem?_move_of_ne h.enqueued fun hij => ?_
      subst hij
      rw [h.enqueued] at ht
      cases ht
      cases hnext
  · cases hact with
    | call t ha ht heq =>
      subst heq
      refine h.finished ?_
      rcases getElem?_call_cases hdone with hdone | rfl
      · exact hdone
      · cases ht
    | move i choice t t' shared new ha ht hnext heq =>
      subst heq
      rcases getElem?_move_cases hdone with ⟨-, rfl⟩ | ⟨-, hold⟩ | hmem
      · obtain ⟨rfl, hdrained⟩ := drained_of_returned hnext
        exact h.balanced.finished hdrained (h.tracked j _ h.enqueued rfl)
      · exact (program_moves hnext).1.carries.finished_subset (h.finished hold)
      · cases (program_moves hnext).2 _ hmem

/-- In the runs in which no `signalDrained` takes its lock between the two steps with which an
`enqueueReserved` marks the lane busy and counts its callback: a drained lane has nothing queued, pending
or active once no enqueue is in progress, and when a `drain` returns without an error, every callback
whose `enqueueReserved` had returned `true` before that `drain` began has returned. -/
theorem drain_waits_for_callbacks {workers queueCap : Int} {p : Pool Shared Thread}
    (h : Run program entry guarded (init workers queueCap) p) :
    (p.shared.drained = true → (∀ pc, .enqueue pc ∈ p.threads → ∃ ok, pc = .returned ok) →
      p.shared.queue = [] ∧ p.shared.pending = 0 ∧ p.shared.active = 0) ∧
    ∀ p', Run program entry guarded ⟨p.shared, p.threads ++ [.drain .read]⟩ p' →
      p'.threads[p.threads.length]? = some (.drain (.returned true)) →
      ∀ j, p.threads[j]? = some (.enqueue (.returned true)) → j ∈ p'.shared.finished := by
  have hinv : Balanced p.shared (count p) ∧ Tracked p :=
    h.invariant (P := fun p => Balanced p.shared (count p) ∧ Tracked p)
      (fun _ _ _ hp hok hact => ⟨hp.1.act hok hact, hp.2.act hact⟩)
      ⟨balanced_init workers queueCap, nofun⟩
  refine ⟨fun hdrained hquiet => ?_, fun p' hrun hdone j hj => ?_⟩
  · have hzero := hinv.1.drained hdrained
    have hpending := hinv.1.pending
    have hactive := hinv.1.active
    have hfull : count p .full = 0 := by
      apply sum_eq_zero
      intro n hn
      obtain ⟨u, hu, rfl⟩ := mem_map.mp hn
      refine if_neg fun hstage => ?_
      cases u with
      | enqueue pc =>
        obtain ⟨ok, rfl⟩ := hquiet pc hu
        cases hstage
      | worker pc =>
        cases pc with
        | signal pc => cases pc <;> cases hstage
        | _ => cases hstage
      | _ => cases hstage
    unfold outstanding fresh at hzero
    exact ⟨length_eq_zero_iff.mp (by omega), by omega, by omega⟩
  · have hcall : Acts program entry p (.call (.drain .read) : Act Thread Choice)
        ⟨p.shared, p.threads ++ [.drain .read]⟩ := .call _ rfl rfl rfl
    have hbegin : DrainedAfter p.threads.length j ⟨p.shared, p.threads ++ [.drain .read]⟩ := by
      refine ⟨hinv.1.act rfl hcall, hinv.2.act hcall, getElem?_call hj, fun hread => ?_⟩
      rw [getElem?_append_right le_rfl, Nat.sub_self] at hread
      cases hread
    exact (hrun.invariant (fun _ _ _ hp hok hact => hp.act hok hact) hbegin).finished hdone

def moves (i n : Nat) : List (Act Thread Choice) := List.replicate n (.move i .next)

/-- One callback is reserved, enqueued, received and called, and its worker goes on to `signalDrained`. -/
def oneCallback : List (Act Thread Choice) :=
  .call (.reserve .lock) :: moves 0 4 ++ .call (.enqueue .lock) :: moves 1 13 ++ moves 2 14

theorem drain_waits_for_callbacks_one : ∃ p p', Run program entry guarded (init 1 2) p ∧ p.threads[1]? = some (.enqueue (.returned true)) ∧
      Run program entry guarded ⟨p.shared, p.threads ++ [.drain .read]⟩ p' ∧
      p'.threads[p.threads.length]? = some (.drain (.returned true)) ∧ 1 ∈ p'.shared.finished := by
  obtain ⟨p, hrun, hreturned, p', hp', hdone⟩ : ∃ p, Run program entry guarded (init 1 2) p ∧
      p.threads[1]? = some (.enqueue (.returned true)) ∧
      ∃ p', Pool.acts program entry guarded ⟨p.shared, p.threads ++ [.drain .read]⟩ (moves 3 1) = some p' ∧
        p'.threads[p.threads.length]? = some (.drain (.returned true)) := Run.of_check oneCallback (by decide +kernel)
  have hdrain := (drain_waits_for_callbacks hrun).2 p' (Run.of_acts hp') hdone 1 hreturned
  exact ⟨p, p', hrun, hreturned, .of_acts hp', hdone, hdrain⟩

/-- The worker of a first callback finds the lane empty after the second `enqueueReserved` has marked it
busy and before that has counted its callback, and the lane counts as drained with the second callback
in its queue. -/
def drainRace : List (Act Thread Choice) :=
  .call (.reserve .lock) :: moves 0 4 ++ .call (.reserve .lock) :: moves 1 4 ++
    .call (.enqueue .lock) :: moves 2 13 ++ moves 3 4 ++
    .call (.enqueue .lock) :: moves 4 3 ++ moves 3 10 ++ moves 4 8

theorem drain_returns_before_callback : ∃ p p', Run program entry (fun _ _ => true) (init 1 2) p ∧
      p.threads[4]? = some (.enqueue (.returned true)) ∧ Run program entry (fun _ _ => true) ⟨p.shared, p.threads ++ [.drain .read]⟩ p' ∧
      p'.threads[p.threads.length]? = some (.drain (.returned true)) ∧
      4 ∉ p'.shared.finished ∧ p'.shared.queue = [4] ∧ p'.shared.pending = 1 := by
  obtain ⟨p, hrun, hreturned, p', hp', hdone⟩ : ∃ p, Run program entry (fun _ _ => true) (init 1 2) p ∧
      p.threads[4]? = some (.enqueue (.returned true)) ∧
      ∃ p', Pool.acts program entry (fun _ _ => true) ⟨p.shared, p.threads ++ [.drain .read]⟩ (moves 5 1) = some p' ∧
        p'.threads[p.threads.length]? = some (.drain (.returned true)) ∧ 4 ∉ p'.shared.finished ∧ p'.shared.queue = [4] ∧
        p'.shared.pending = 1 := Run.of_check drainRace (by decide +kernel)
  exact ⟨p, p', hrun, hreturned, .of_acts hp', hdone⟩

end Goultroid.Lane
