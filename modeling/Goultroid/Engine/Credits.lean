import Goultroid.Engine.Lifecycle
import Goultroid.Engine.QueueRegistry

/-!
# Result credits, pending commits and the drain

The credits an engine holds are its live records, the pending count and the commit waiters are those
of the records that wait for their commit, the terminal order lists the terminal records, and the
drain is signalled only when no record is live.

Each count is a `total` over the registry of what one record adds (`liveOne`, `pendingOne`), and a
step changes one record. A record that is published adds one to the live ones; one that settles
takes one away and is listed as terminal; a pending commit is counted when its record is stored, and
its record leaves the count when the commit is resolved.
-/

namespace Goultroid

open List AList Engine

variable {id : TaskID} {r r' : TaskRecord} {env : Env} {s s' : Stage} {cfg : Config} {e : Engine} {al : Allowance} {D D' : Finset TaskID}

/-! ### Credits -/

def liveOne (_ : TaskID) (r : TaskRecord) : ℤ := if (!r.isTerminal) = true then 1 else 0

theorem liveOne_of_live (h : r.isTerminal = false) : liveOne id r = 1 := by
  rw [liveOne, h]
  rfl

theorem liveOne_of_terminal (h : r.isTerminal = true) : liveOne id r = 0 := by
  rw [liveOne, h]
  rfl

theorem liveOne_nonneg (id : TaskID) (r : TaskRecord) : 0 ≤ liveOne id r := by
  unfold liveOne
  split_ifs <;> decide

structure Credits (e : Engine) : Prop where
  live : e.activeTasks = AList.total liveOne e.registry
  held : e.resultSlotsHeld = e.activeTasks
  positive : 0 < e.resultCapacity
  bound : e.resultSlotsHeld ≤ e.resultCapacity
  nodup : e.terminalOrder.Nodup
  order : ∀ id, id ∈ e.terminalOrder ↔ ∃ r, e.registry.lookup id = some r ∧ r.isTerminal = true
  closed : e.quiesced = true → e.accepting = false
  drained : e.drainDone = true → e.quiesced = true ∧ e.activeTasks = 0

namespace Credits

variable {e' : Engine}

/-- Everything but the registry that `Credits` is about. -/
structure Same (e e' : Engine) : Prop where
  activeTasks : e'.activeTasks = e.activeTasks
  held : e'.resultSlotsHeld = e.resultSlotsHeld
  capacity : e'.resultCapacity = e.resultCapacity
  order : e'.terminalOrder = e.terminalOrder
  accepting : e'.accepting = e.accepting
  quiesced : e'.quiesced = e.quiesced
  drainDone : e'.drainDone = e.drainDone

section

variable (h : Credits e)
include h

theorem of_same (hsame : Same e e') (hlive : AList.total liveOne e'.registry = AList.total liveOne e.registry)
    (hterm : ∀ id, (∃ r, e'.registry.lookup id = some r ∧ r.isTerminal = true) ↔
      ∃ r, e.registry.lookup id = some r ∧ r.isTerminal = true) : Credits e' := by
  refine ⟨?_, ?_, ?_, ?_, ?_, fun id => ?_, ?_, ?_⟩
  · rw [hsame.activeTasks, hlive]
    exact h.live
  · rw [hsame.held, hsame.activeTasks]
    exact h.held
  · rw [hsame.capacity]
    exact h.positive
  · rw [hsame.held, hsame.capacity]
    exact h.bound
  · rw [hsame.order]
    exact h.nodup
  · rw [hsame.order, hterm]
    exact h.order id
  · rw [hsame.quiesced, hsame.accepting]
    exact h.closed
  · rw [hsame.drainDone, hsame.quiesced, hsame.activeTasks]
    exact h.drained

theorem congr (hsame : Same e e') (hreg : e'.registry = e.registry) : Credits e' :=
  h.of_same hsame (by rw [hreg]) fun id => by rw [hreg]

theorem update (hsame : Same e e') (hr : e.registry.lookup id = some r) (hreg : e'.registry = e.registry.insert id r')
    (hlive : r.isTerminal = false) (hlive' : r'.isTerminal = false) : Credits e' := by
  refine h.of_same hsame ?_ fun id' => ?_
  · rw [hreg, total_insert_of_lookup hr, liveOne_of_live hlive, liveOne_of_live hlive']
    omega
  · rw [hreg, lookup_insert_eq]
    split_ifs with hid
    · subst hid
      constructor
      · rintro ⟨x, hx, hterm⟩
        cases hx
        rw [hlive'] at hterm
        cases hterm
      · rintro ⟨x, hx, hterm⟩
        rw [hr] at hx
        cases hx
        rw [hlive] at hterm
        cases hterm
    · exact Iff.rfl

theorem publish {spec : WorkSpec} (hadm : Admissible e spec) (reserved : Bool) (now : Time) : Credits (e.publish spec reserved now) := by
  have hheld := h.held
  have hcredit := hadm.credit h.positive
  refine ⟨?_, ?_, h.positive, ?_, h.nodup, fun id => ?_, h.closed, fun hdrain => ?_⟩
  · show e.activeTasks + 1 = AList.total liveOne (e.registry.insert spec.id _)
    rw [total_insert_of_none hadm.fresh, liveOne_of_live rfl, ← h.live]
  · show e.resultSlotsHeld + 1 = e.activeTasks + 1
    omega
  · show e.resultSlotsHeld + 1 ≤ e.resultCapacity
    omega
  · rw [show (e.publish spec reserved now).terminalOrder = e.terminalOrder from rfl, h.order]
    show _ ↔ ∃ r, (e.registry.insert spec.id _).lookup id = some r ∧ _
    rw [lookup_insert_eq]
    split_ifs with hid
    · subst hid
      constructor
      · rintro ⟨x, hx, -⟩
        rw [hadm.fresh] at hx
        cases hx
      · rintro ⟨x, hx, hterm⟩
        cases hx
        cases hterm
    · exact Iff.rfl
  · have haccepting := h.closed (h.drained hdrain).1
    rw [hadm.accepting] at haccepting
    cases haccepting

theorem settle {delta : Int} {rec : TaskRecord}
    (hr : e.registry.lookup id = some r) (hlive : r.isTerminal = false) (hrec : Concludes r rec delta)
    (hid : rec.spec.id = id) : Credits (e.settleRecord env rec delta) := by
  subst hid
  have hone : 1 ≤ e.activeTasks := by
    have hle := le_total (fun id' r' _ => liveOne_nonneg id' r') hr
    rw [liveOne_of_live hlive, ← h.live] at hle
    exact hle
  have hheld := h.held
  have hbound := h.bound
  have hslots : (e.settleRecord env rec delta).resultSlotsHeld = e.resultSlotsHeld - 1 :=
    if_pos (show 0 < e.resultSlotsHeld by omega)
  have hterm : (Engine.closedRecord rec).isTerminal = true := hrec.terminal
  have hnot : rec.spec.id ∉ e.terminalOrder := by
    rw [h.order]
    rintro ⟨x, hx, hxterm⟩
    rw [hr] at hx
    cases hx
    rw [hlive] at hxterm
    cases hxterm
  refine ⟨?_, ?_, h.positive, ?_, ?_, fun id => ?_, h.closed, fun hdrain => ?_⟩
  · show e.activeTasks - 1 = AList.total liveOne (e.registry.insert rec.spec.id (Engine.closedRecord rec))
    rw [total_insert_of_lookup hr, liveOne_of_live hlive, liveOne_of_terminal hterm, ← h.live]
    omega
  · show _ = e.activeTasks - 1
    omega
  · rw [hslots]
    show _ ≤ e.resultCapacity
    omega
  · show (e.terminalOrder ++ [rec.spec.id]).Nodup
    rw [nodup_append]
    refine ⟨h.nodup, nodup_singleton _, fun a ha b hb => ?_⟩
    rw [mem_singleton] at hb
    rintro rfl
    exact hnot (hb ▸ ha)
  · show id ∈ e.terminalOrder ++ [rec.spec.id] ↔
      ∃ x, (e.registry.insert rec.spec.id (Engine.closedRecord rec)).lookup id = some x ∧ _
    rw [mem_append, mem_singleton, h.order, lookup_insert_eq]
    split_ifs with hid
    · subst hid
      exact ⟨fun _ => ⟨_, rfl, hterm⟩, fun _ => .inr rfl⟩
    · simp [hid]
  · have hzero := (h.drained hdrain).2
    omega

theorem evict {oldest : TaskID} {rest : List TaskID} (hlist : e.terminalOrder = oldest :: rest) : Credits (e.evictOldest oldest rest) := by
  obtain ⟨r, hr, hterm⟩ := (h.order oldest).mp (by rw [hlist]; exact mem_cons_self)
  have hnodup := h.nodup
  rw [hlist, nodup_cons] at hnodup
  rcases e.evictOldest_cases oldest rest with ⟨x, hx, hxterm, heq⟩ | ⟨hnot, -⟩
  · rw [heq]
    refine ⟨?_, h.held, h.positive, h.bound, hnodup.2, fun id => ?_, h.closed, h.drained⟩
    · show e.activeTasks = AList.total liveOne (e.registry.erase oldest)
      rw [total_erase_of_lookup hx, liveOne_of_terminal hxterm, ← h.live]
      omega
    · show id ∈ rest ↔ ∃ y, (e.registry.erase oldest).lookup id = some y ∧ _
      rw [lookup_erase_eq]
      split_ifs with hid
      · subst hid
        exact ⟨fun hmem => absurd hmem hnodup.1, fun ⟨y, hy, _⟩ => by cases hy⟩
      · rw [← h.order, hlist]
        simp [hid]
  · rw [hnot r hr] at hterm
    cases hterm

theorem quiesce : Credits { e with accepting := false, quiesced := true } :=
  ⟨h.live, h.held, h.positive, h.bound, h.nodup, h.order, fun _ => rfl,
    fun hdrain => ⟨rfl, (h.drained hdrain).2⟩⟩

theorem checkDrained : Credits e.checkDrained := by
  refine ⟨h.live, h.held, h.positive, h.bound, h.nodup, h.order, h.closed, fun hdrain => ?_⟩
  replace hdrain : (e.drainDone || (e.quiesced && decide (e.activeTasks = 0) && !e.drained)) = true := hdrain
  rw [Bool.or_eq_true] at hdrain
  rcases hdrain with hold | hnow
  · exact h.drained hold
  · simp only [Bool.and_eq_true, decide_eq_true_eq] at hnow
    exact hnow.1

end

end Credits

theorem Micro.credits (step : Micro env al s s') (h : Coherent s) (hc : Credits s.engine) : Credits s'.engine := by
  cases step with
  | observe | reserve | scopes | regroup | capacity | unqueue | release | unpend | await | touch | configure
    | markIdle => exact hc.congr ⟨rfl, rfl, rfl, rfl, rfl, rfl, rfl⟩ rfl
  | quiesce => exact hc.quiesce
  | drain => exact hc.checkDrained
  | publish spec reserved now hal hadm => exact hc.publish hadm reserved now
  | assign adm hwp _ _ hr hstate =>
    exact hc.update ⟨rfl, rfl, rfl, rfl, rfl, rfl, rfl⟩ hr rfl (isTerminal_of_queued hstate) rfl
  | started _ hr hstate =>
    refine hc.update ⟨rfl, rfl, rfl, rfl, rfl, rfl, rfl⟩ hr rfl ?_ rfl
    rw [TaskRecord.isTerminal, hstate]
    rfl
  | markCancel _ hr hact =>
    have hlive := Coherent.not_terminal_of_active hact
    exact hc.update ⟨rfl, rfl, rfl, rfl, rfl, rfl, rfl⟩ hr rfl hlive hlive
  | settle rec delta hr hD hrec =>
    have hlive := h.live_of_detached hr hD
    exact hc.settle hr hlive hrec (h.id_of_spec hr hrec.spec)
  | @pend e D id r rec delta hr hD hact hrec =>
    have hreg := h.registry_pendRecord hr hrec
    refine hc.update ⟨rfl, rfl, rfl, rfl, rfl, rfl, rfl⟩ hr hreg (Coherent.not_terminal_of_active hact) ?_
    rw [TaskRecord.isTerminal, hrec.state]
    rfl
  | evict _ _ hlist => exact hc.evict hlist
  | spawn hwp hal hspawn =>
    rw [spawn_pushIdle_eq hwp hspawn]
    exact hc.congr ⟨rfl, rfl, rfl, rfl, rfl, rfl, rfl⟩ rfl
  | retire hretire =>
    obtain ⟨wp, -, -, rfl⟩ := retireWorker_eq hretire
    exact hc.congr ⟨rfl, rfl, rfl, rfl, rfl, rfl, rfl⟩ rfl

theorem newEngine_credits (pump : Option CommitPump) (resolver : Bool) :
    Credits { newEngine cfg with commitPump := pump, handlerResolver := resolver } := by
  have hpos : 0 < (newEngine cfg).resultCapacity := by
    show 0 < if cfg.resultCapacity ≤ 0 then 1000 else cfg.resultCapacity
    split_ifs
    · decide
    · omega
  refine ⟨rfl, rfl, hpos, le_of_lt hpos, nodup_nil, fun id => ?_, fun _ => rfl, nofun⟩
  constructor
  · intro hx
    cases hx
  · rintro ⟨r, hr, -⟩
    cases hr

theorem Reachable.credits (h : Reachable env cfg e) : Credits e :=
  (Reachable.invariant (P := fun s => Credits s.engine) newEngine_credits
    (fun _ he _ _ => ⟨he.live, he.held, he.positive, he.bound, he.nodup, he.order, fun hx => (by cases hx),
      nofun⟩)
    (fun _ _ _ he => he.congr ⟨rfl, rfl, rfl, rfl, rfl, rfl, rfl⟩ rfl)
    (fun _ _ he => he.congr ⟨rfl, rfl, rfl, rfl, rfl, rfl, rfl⟩ rfl)
    (fun _ _ _ step hs he => step.credits hs he) h)

/-! ### Pending commits -/

def pendingOne (D : Finset TaskID) (id : TaskID) (r : TaskRecord) : ℤ :=
  if place D id r = some .commitPending then 1 else 0

section Pending

theorem pendingOne_congr (h : id ∈ D' ↔ id ∈ D) : pendingOne D' id r = pendingOne D id r := by
  rw [pendingOne, pendingOne, place_congr h]

theorem pendingOne_of_mem (h : id ∈ D) : pendingOne D id r = 0 := by
  rw [pendingOne, place_of_mem h, if_neg (by simp)]

theorem pendingOne_of_state (h : r.state ≠ .commitPending) : pendingOne D id r = 0 := by
  by_cases hD : id ∈ D
  · exact pendingOne_of_mem hD
  · rw [pendingOne, place_of_notMem hD, if_neg (by simpa using h)]

theorem pendingOne_of_pending (h : r.state = .commitPending) (hD : id ∉ D) : pendingOne D id r = 1 := by
  rw [pendingOne, place_of_notMem hD, h, if_pos rfl]

end Pending

/-- The pending count and the commit waiters are those of the records that wait for their commit. -/
structure Commits (s : Stage) : Prop where
  pending : s.engine.commitPending = AList.total (pendingOne s.detached) s.engine.registry
  waiters : ∀ seq, (s.engine.commitWaiters.lookup seq).isSome = true → ∃ id r,
    s.engine.registry.lookup id = some r ∧ r.commitSeq = seq ∧ r.state = .commitPending ∧ id ∉ s.detached

namespace Commits

section

variable (h : Commits ⟨e, D⟩) {e' : Engine}
include h

theorem congr (hreg : e'.registry = e.registry)
    (hpending : e'.commitPending = e.commitPending) (hwait : e'.commitWaiters = e.commitWaiters) : Commits ⟨e', D⟩ := by
  refine ⟨?_, ?_⟩ <;> simp only [hreg, hpending, hwait]
  · exact h.pending
  · exact h.waiters

/-- A step that concerns one record, which was not counted. -/
theorem shift (hreg : ∀ id', id' ≠ id → e'.registry.lookup id' = e.registry.lookup id')
    (hD : ∀ id', id' ≠ id → (id' ∈ D' ↔ id' ∈ D)) (hnot : valueAt (pendingOne D) e.registry id = 0)
    (hpending : e'.commitPending = e.commitPending + valueAt (pendingOne D') e'.registry id)
    (hwait : e'.commitWaiters = e.commitWaiters) : Commits ⟨e', D'⟩ := by
  refine ⟨?_, fun seq hseq => ?_⟩
  · have htotal := total_shift (g := pendingOne D') hreg fun id' _ hne _ => pendingOne_congr (hD id' hne)
    rw [hnot, add_zero] at htotal
    rw [hpending, htotal, h.pending]
  · obtain ⟨id', x, hx, hxseq, hxst, hxD⟩ := h.waiters seq (hwait ▸ hseq)
    have hne : id' ≠ id := by
      rintro rfl
      rw [valueAt_of_some hx, pendingOne_of_pending hxst hxD] at hnot
      cases hnot
    exact ⟨id', x, (hreg id' hne).trans hx, hxseq, hxst, fun hmem => hxD ((hD id' hne).mp hmem)⟩

theorem change (hr : e.registry.lookup id = some r)
    (hreg : e'.registry = e.registry.insert id r') (hD : ∀ id', id' ≠ id → (id' ∈ D' ↔ id' ∈ D))
    (hnot : pendingOne D id r = 0) (hpending : e'.commitPending = e.commitPending + pendingOne D' id r')
    (hwait : e'.commitWaiters = e.commitWaiters) : Commits ⟨e', D'⟩ := by
  refine h.shift (fun id' hne => by rw [hreg, lookup_insert_ne hne]) hD ((valueAt_of_some hr).trans hnot) ?_ hwait
  rw [hpending, hreg, valueAt_of_some (lookup_insert _)]

theorem detach (hr : e.registry.lookup id = some r) (hnot : r.state ≠ .commitPending) (hreg : e'.registry = e.registry)
    (hpending : e'.commitPending = e.commitPending) (hwait : e'.commitWaiters = e.commitWaiters) : Commits ⟨e', insert id D⟩ := by
  refine h.shift (fun _ _ => by rw [hreg]) (fun _ => Coherent.mem_insert_iff_of_ne) ?_ ?_ hwait
  · rw [valueAt_of_some hr, pendingOne_of_state hnot]
  · rw [hpending, hreg, valueAt_of_some hr, pendingOne_of_state hnot, add_zero]

/-- A pending commit is resolved: its record leaves the count and its waiter goes. -/
theorem unpend (hr : e.registry.lookup id = some r)
    (hstate : r.state = .commitPending) (hD : id ∉ D) : Commits ⟨e.unpend r.commitSeq, insert id D⟩ := by
  refine ⟨?_, fun seq hseq => ?_⟩
  · have htotal := total_shift (f := pendingOne D) (g := pendingOne (insert id D)) (m := e.registry) (fun _ _ => rfl)
      fun id' x hne _ => pendingOne_congr (Coherent.mem_insert_iff_of_ne hne)
    rw [valueAt_of_some hr, valueAt_of_some hr, pendingOne_of_pending hstate hD,
      pendingOne_of_mem (Finset.mem_insert_self id D)] at htotal
    have hold := h.pending
    show e.commitPending - 1 = AList.total (pendingOne (insert id D)) e.registry
    dsimp only at hold
    omega
  · replace hseq : ((e.commitWaiters.erase r.commitSeq).lookup seq).isSome = true := hseq
    rw [lookup_erase_eq] at hseq
    split_ifs at hseq with hne
    · cases hseq
    · obtain ⟨id', x, hx, hxseq, hxst, hxD⟩ := h.waiters seq hseq
      refine ⟨id', x, hx, hxseq, hxst, fun hmem => ?_⟩
      rcases Finset.mem_insert.mp hmem with rfl | hmem
      · rw [hr] at hx
        cases hx
        exact hne hxseq.symm
      · exact hxD hmem

end

end Commits

theorem Micro.commits (step : Micro env al s s') (h : Coherent s) (hc : Commits s) : Commits s' := by
  cases step with
  | observe | reserve | scopes | regroup | quiesce | drain | capacity | touch | configure | markIdle =>
    exact hc.congr rfl rfl rfl
  | @publish e D spec reserved now hal hadm =>
    have hself : (e.publish spec reserved now).registry.lookup spec.id = some _ := lookup_insert e.registry
    refine hc.shift (fun _ => lookup_insert_ne) (fun _ _ => Iff.rfl) (valueAt_of_none hadm.fresh) ?_ rfl
    rw [valueAt_of_some hself, pendingOne_of_state (by simp), add_zero]
    rfl
  | unqueue adm hr hstate =>
    exact hc.detach hr (by simp [hstate]) rfl rfl rfl
  | assign adm hwp _ _ hr hstate | started _ hr hstate =>
    exact hc.change hr rfl (fun _ _ => Iff.rfl) (pendingOne_of_state (by simp [hstate]))
      (by rw [pendingOne_of_state (by simp)]; exact (add_zero _).symm) rfl
  | @markCancel e D id r reason hr hact =>
    have hnot : r.state ≠ .commitPending := by
      intro hstate
      simp [hstate, TaskState.isActive] at hact
    refine hc.change hr rfl (fun _ _ => Iff.rfl) (pendingOne_of_state hnot) ?_ rfl
    rw [pendingOne_of_state]
    · exact (add_zero _).symm
    · exact hnot
  | @release e D id r hr hact hD hal =>
    refine hc.detach hr ?_ rfl rfl rfl
    intro hstate
    simp [hstate, TaskState.isActive] at hact
  | unpend hr hstate hD => exact hc.unpend hr hstate hD
  | @settle e D id r rec delta hr hD hrec =>
    have hreg := h.registry_settleRecord env hr hrec
    have hstate : (Engine.closedRecord rec).state ≠ .commitPending := by
      have hterm := hrec.terminal
      intro hpending
      rw [TaskRecord.isTerminal, show rec.state = .commitPending from hpending] at hterm
      cases hterm
    refine hc.change hr hreg (fun _ => Coherent.mem_erase_iff_of_ne) (pendingOne_of_mem hD) ?_ rfl
    rw [pendingOne_of_state hstate]
    exact (add_zero _).symm
  | @pend e D id r rec delta hr hD hact hrec =>
    have hreg := h.registry_pendRecord hr hrec
    refine hc.change hr hreg (fun _ => Coherent.mem_erase_iff_of_ne) (pendingOne_of_mem hD) ?_ rfl
    rw [pendingOne_of_pending hrec.state (Finset.notMem_erase id D)]
    rfl
  | @await e D id r hr hstate hD =>
    refine ⟨hc.pending, fun seq hseq => ?_⟩
    rw [lookup_insert_eq] at hseq
    split_ifs at hseq with heq
    · exact ⟨id, r, hr, heq.symm, hstate, hD⟩
    · exact hc.waiters seq hseq
  | @evict e D oldest rest hlist =>
    rcases e.evictOldest_cases oldest rest with ⟨r, hr, hterm, heq⟩ | ⟨-, heq⟩
    · have hstate : r.state ≠ .commitPending := by
        intro hpending
        rw [TaskRecord.isTerminal, hpending] at hterm
        cases hterm
      rw [heq]
      refine hc.shift (fun _ => lookup_erase_ne) (fun _ _ => Iff.rfl) ?_ ?_ rfl
      · rw [valueAt_of_some hr, pendingOne_of_state hstate]
      · rw [valueAt_of_none (lookup_erase oldest _), add_zero]
        rfl
    · rw [heq]
      exact hc.congr rfl rfl rfl
  | spawn hwp hal hspawn =>
    rw [spawn_pushIdle_eq hwp hspawn]
    exact hc.congr rfl rfl rfl
  | retire hretire =>
    obtain ⟨wp, -, -, rfl⟩ := retireWorker_eq hretire
    exact hc.congr rfl rfl rfl

theorem Reachable.commits (h : Reachable env cfg e) : Commits ⟨e, ∅⟩ :=
  (Reachable.invariant (P := Commits) (fun _ _ => ⟨rfl, nofun⟩)
    (fun _ he _ _ => he.congr rfl rfl rfl) (fun _ _ _ he => he.congr rfl rfl rfl)
    (fun _ _ he => he.congr rfl rfl rfl) (fun _ _ _ step hs he => step.commits hs he) h)

/-! ### The drain -/

theorem Reachable.run_drainDone {events : List Event} (h : Reachable env cfg e) (hdrain : e.drainDone = true) :
    Reachable env cfg (e.run env events) ∧ (e.run env events).drainDone = true := by
  induction events generalizing e with
  | nil => exact ⟨h, hdrain⟩
  | cons ev events ih =>
    exact ih (.step ev h (h.runStarted (.inr hdrain)) trivial) ((step_onward h.coherent ev).drainDone hdrain)

theorem Credits.activeTasks_eq (h : Credits e) : e.activeTasks = e.recordCount fun r => !r.isTerminal := by
  rw [h.live, ← total_eq_recordCount]
  rfl

theorem Commits.pending_eq (h : Commits ⟨e, ∅⟩) : e.commitPending = e.recordCount fun r => r.state == .commitPending := by
  rw [← total_eq_recordCount]
  refine h.pending.trans (total_congr fun id r _ => ?_)
  rw [pendingOne, place_of_notMem (Finset.notMem_empty id)]
  simp

theorem Credits.terminal_of_drainDone (h : Credits e) (hdrain : e.drainDone = true)
    (hr : e.registry.lookup id = some r) : r.isTerminal = true := by
  by_contra hlive
  have hle := le_total (fun id' r' _ => liveOne_nonneg id' r') hr
  rw [liveOne_of_live (by simpa using hlive), ← h.live, (h.drained hdrain).2] at hle
  omega

/-- In every reachable state: the credits held are the active tasks and the number of records that are
not terminal, at most the result capacity; the pending count is the number of records that wait for
their commit, and only those have a commit waiter; the terminal order lists the terminal records, each
once; and once the drain is closed no record is live, then or later in the run. -/
theorem credits_and_drain_accounted {env : Env} {cfg : Config} {e : Engine} (h : Reachable env cfg e) : e.resultSlotsHeld = e.activeTasks ∧
    e.activeTasks = (e.recordCount fun r => !r.isTerminal) ∧ e.resultSlotsHeld ≤ e.resultCapacity ∧
    e.commitPending = (e.recordCount fun r => r.state == .commitPending) ∧ (∀ seq, (e.commitWaiters.lookup seq).isSome = true →
      ∃ id r, e.registry.lookup id = some r ∧ r.commitSeq = seq ∧ r.state = .commitPending) ∧ e.terminalOrder.Nodup ∧
    (∀ id, id ∈ e.terminalOrder ↔ ∃ r, e.registry.lookup id = some r ∧ r.isTerminal = true) ∧
    (e.drainDone = true → ∀ events id r, (e.run env events).registry.lookup id = some r → r.isTerminal = true) := by
  have hcredits := h.credits
  have hcommits := h.commits
  refine ⟨hcredits.held, hcredits.activeTasks_eq, hcredits.bound, hcommits.pending_eq, fun seq hseq => ?_,
    hcredits.nodup, hcredits.order, fun hdrain events id r hr => ?_⟩
  · obtain ⟨id, r, hr, hrseq, hstate, -⟩ := hcommits.waiters seq hseq
    exact ⟨id, r, hr, hrseq, hstate⟩
  · obtain ⟨hreach, hdrain'⟩ := h.run_drainDone hdrain
    exact hreach.credits.terminal_of_drainDone hdrain' hr

theorem credits_and_drain_accounted_solo :
    let e := Engine.solo 1 [submitted "a", submitted "b", .request .quiesce, .request .stopFinalize]
    e.terminalOrder.Nodup ∧ e.drainDone = true ∧
      ∀ events id r, (e.run .quiet events).registry.lookup id = some r → r.isTerminal = true := by
  have hres := credits_and_drain_accounted
    (Reachable.solo 1 [submitted "a", submitted "b", .request .quiesce, .request .stopFinalize])
  have hdrain : (Engine.solo 1
      [submitted "a", submitted "b", .request .quiesce, .request .stopFinalize]).drainDone = true := by
    decide +kernel
  exact ⟨hres.2.2.2.2.2.1, hdrain, hres.2.2.2.2.2.2.2 hdrain⟩

end Goultroid
