import Goultroid.Engine.Assignments
import Goultroid.Engine.Lifecycle
import Goultroid.Engine.Workers

/-!
# Physical slots are conserved

The engine runs with its workers. `System.outside` is the bag of assignments that have left their
mailbox: with a worker, in the inbox of the loop, or lost after the root context was cancelled. Every
step of the system keeps the `Tally` for this bag. A completion takes its token out of it, and by then
no record in flight holds the token's permit.

A receive takes a token from its mailbox to `outside`, a report leaves it there, and only the handling
of a completion takes it away, with the return of its slot (`Tally.completed`). Whether the completion
passes the fence or is stale, no record in flight holds its permit afterwards (`Tally.completes`), and
so the slot can be given out again.
-/

namespace Goultroid

open List Multiset AList Option Engine

variable {ch : ChanID} {assignment : Assignment} {report : Report} {env : Env} {pool : PoolID} {cfg : Config} {sys : System} {e : Engine}
  {D : Finset TaskID} {t : Token} {worker : Worker} {ev : Event}

/-! ### Tokens outside the mailboxes -/

def Worker.tokens (worker : Worker) : Multiset Token :=
  match worker.phase with
  | .executing assignment | .reporting assignment _ => {⟨worker.pool, worker.slot, assignment⟩}
  | .waiting | .exited => 0

def Report.token (report : Report) : Token := ⟨report.pool, report.slot, report.assignment⟩

/-- The bag of what workers have received and the loop has not handled. -/
def System.outside (sys : System) : Multiset Token :=
  AList.total (fun _ worker => worker.tokens) sys.workers + ((sys.inbox ++ sys.lost).map Report.token : List Token)

def System.outstanding (sys : System) : Multiset Token := sys.engine.mailTokens + sys.outside

theorem Engine.redispatch_advances (h : Coherent ⟨e, D⟩) :
    Advances env (.dispatching env e.obs) D e ((e.retireExcessWorkers pool).tryDispatchAll env) := by
  have hretire : Advances env (.dispatching env e.obs) D e (e.retireExcessWorkers pool) :=
    retireExcessWorkers_advances e pool
  exact hretire.trans (tryDispatchAll_advances (hretire.ready (Ready.dispatching env h)) fun _ => trivial)

/-! ### A completion -/

namespace Tally

variable {outside : Multiset Token}

theorem returned (h : Tally ⟨e, D⟩ outside) (ht : t ∈ outside) (hfree : Relinquished t.assignment.permit ⟨e, D⟩) :
    ∃ wp, e.pools.lookup t.pool = some wp ∧ wp.running[t.slot]? = some true ∧ t.slot ∉ wp.idleSlots ∧
      ∀ idleSince, Tally ⟨e.setPool t.pool { wp with
        idleSince := idleSince, idleSlots := wp.idleSlots ++ [t.slot] }, D⟩ (outside.erase t) := by
  obtain ⟨wp, hwp, hrun, hnot, hslots⟩ := h.slots.returned ht
  refine ⟨wp, hwp, hrun, hnot, fun idleSince =>
    ⟨hslots idleSince, fun {id r} hr hact hD => ?_, fun t' ht' => ?_, ?_⟩⟩
  · obtain ⟨slot, permit, hpermit, htask, hepoch, hmem⟩ := h.holder hr hact hD
    refine ⟨slot, permit, hpermit, htask, hepoch, ?_⟩
    have hne : (⟨r.spec.pool, slot, ⟨r.spec, permit⟩⟩ : Token) ≠ t := by
      rintro rfl
      exact hfree.free hr hact hD hpermit
    rcases mem_add.mp hmem with hmem | hmem
    · exact mem_add.mpr (.inl hmem)
    · exact Multiset.mem_add.mpr (.inr ((Multiset.mem_erase_of_ne hne).mpr hmem))
  · refine h.issued t' ?_
    rcases mem_add.mp ht' with ht' | ht'
    · exact mem_add.mpr (.inl ht')
    · exact mem_add.mpr (.inr (mem_of_mem_erase ht'))
  · refine nodup_of_le (map_le_map ?_) h.nodup
    exact add_le_add (le_refl e.mailTokens) (erase_le t outside)

theorem permit_taskID {r : TaskRecord} {permit : Permit} (h : Tally ⟨e, D⟩ outside) {id : TaskID}
    (hr : e.registry.lookup id = some r) (hact : r.state.isActive = true) (hD : id ∉ D)
    (hpermit : r.permit = some permit) : permit.taskID = id ∧ permit.dispatchEpoch = r.dispatchEpoch := by
  obtain ⟨_, _, hpermit', htask, hepoch, -⟩ := h.holder hr hact hD
  obtain rfl := mem_unique hpermit hpermit'
  exact ⟨htask, hepoch⟩

/-- After `applyWorkerCompleted` no record in flight holds the permit of the completion. -/
theorem completes (hs : Coherent ⟨e, ∅⟩) (h : Tally ⟨e, ∅⟩ outside)
    (hin : report.token ∈ outside) (hname : report.result.taskID = report.assignment.spec.id) :
    let e1 := e.applyWorkerCompleted env report.result (some report.assignment.permit)
    Coherent ⟨e1, ∅⟩ ∧ Tally ⟨e1, ∅⟩ outside ∧ Relinquished report.assignment.permit ⟨e1, ∅⟩ := by
  intro e1
  obtain ⟨hold, htask⟩ := h.issued _ (mem_add.mpr (.inr hin))
  have hid : report.assignment.permit.taskID = report.result.taskID := htask.trans hname.symm
  rcases applyWorkerCompleted_cases (Ready.dispatching env hs) (fun _ => trivial) report.result
    (some report.assignment.permit) with ⟨hstale, hnone⟩ | ⟨r, hr, hact, hfenced, hsteps⟩
  · rw [show e1 = e from hstale]
    refine ⟨hs, h, hold, fun {id r} hr hact hD hpermit => ?_⟩
    obtain ⟨hid', hepoch⟩ := h.permit_taskID hr hact hD hpermit
    have hfenced := hnone r (by rw [← hid, hid']; exact hr) hact
    rw [← Bool.not_eq_true, fenced_iff] at hfenced
    exact hfenced ⟨_, _, rfl, hpermit, rfl, hepoch⟩
  · have hrel : Micro env { Allowance.dispatching env e.obs with release := fun _ => True } ⟨e, ∅⟩
        ⟨e.releaseAttempt r.spec, {report.result.taskID}⟩ :=
      .release hr hact (Finset.notMem_empty _) trivial
    have hs' := hrel.coherent hs
    have hfree : Relinquished report.assignment.permit ⟨e.releaseAttempt r.spec, {report.result.taskID}⟩ := by
      refine ⟨hold, fun {id x} hx hact' hD hpermit => hD ?_⟩
      obtain ⟨hid', -⟩ := h.permit_taskID hx hact' (Finset.notMem_empty id) hpermit
      rw [← hid', hid]
      exact Finset.mem_singleton_self _
    exact ⟨hsteps.coherent hs', hsteps.ledger (fun _ _ => id) hs' (h.step hs (fun _ _ => id) hrel),
      hsteps.relinquished (fun _ _ => id) hs' hfree⟩

/-- The slot of a completion is busy, so it goes back to idle; the loop then retires and dispatches. -/
theorem completed (env : Env) (hs : Coherent ⟨e, ∅⟩) (h : Tally ⟨e, ∅⟩ outside)
    (hin : report.token ∈ outside) (hname : report.result.taskID = report.assignment.spec.id) :
    let e1 := e.applyWorkerCompleted env report.result (some report.assignment.permit)
    ∃ e2, Steps env { Allowance.dispatching env e1.obs with idle := fun _ _ => True } ⟨e1, ∅⟩ ⟨e2, ∅⟩ ∧
      e2.registry = e1.registry ∧ e2.mailTokens = e1.mailTokens ∧
      Tally ⟨e2, ∅⟩ (outside.erase report.token) ∧
      e.step env (.request report.request) = (e2.retireExcessWorkers report.pool).tryDispatchAll env := by
  intro e1
  obtain ⟨hs1, h1, hfree⟩ := h.completes hs hin hname
  have htick : Steps env (.dispatching env e1.obs) ⟨e1, ∅⟩ ⟨e1.tick, ∅⟩ := tick_steps e1 ∅
  obtain ⟨wp, hwp, hrun, hnot, hledger⟩ := (htick.ledger (fun _ _ => id) hs1 h1).returned hin
    (htick.relinquished (fun _ _ => id) hs1 hfree)
  replace hwp : e1.pools.lookup report.pool = some wp := hwp
  replace hrun : wp.running[report.slot]? = some true := hrun
  replace hnot : report.slot ∉ wp.idleSlots := hnot
  refine ⟨_, (tick_steps e1 ∅).tail (.markIdle _ hwp hrun hnot trivial), rfl, rfl,
    hledger (wp.idleSince.set report.slot (env.clock e1.obs)), ?_⟩
  show e1.markWorkerIdle env report.pool report.slot = _
  simp only [Engine.markWorkerIdle, hwp, Int.toNat_natCast, hrun, hnot]
  rfl

theorem request (env : Env) (hs : Coherent ⟨e, ∅⟩) (h : Tally ⟨e, ∅⟩ outside)
    (hin : report.token ∈ outside) (hname : report.result.taskID = report.assignment.spec.id) :
    Tally ⟨e.step env (.request report.request), ∅⟩ (outside.erase report.token) := by
  obtain ⟨hs1, -, -⟩ := h.completes hs hin hname
  obtain ⟨e2, hmark, -, -, h2, heq⟩ := h.completed env hs hin hname
  have hs2 := hmark.coherent hs1
  rw [heq]
  exact (redispatch_advances hs2).steps.ledger (fun _ _ => id) hs2 h2

theorem receive {rest : List Assignment} {home : PoolID × Nat} (h : Tally ⟨e, D⟩ outside)
    (hmail : e.mail.lookup ch = some (assignment :: rest)) (hhome : e.homes.lookup ch = some home) :
    Tally ⟨e.receive ch, D⟩ (⟨home.1, home.2, assignment⟩ ::ₘ outside) := by
  have htok : (e.receive ch).mailTokens + (⟨home.1, home.2, assignment⟩ ::ₘ outside) =
      e.mailTokens + outside := by
    rw [mailTokens_receive hmail hhome, add_cons, cons_add]
  refine ⟨h.slots.receive hmail hhome, fun hr hact hD => ?_, ?_, ?_⟩
  · rw [htok]
    exact h.holder hr hact hD
  · rw [htok]
    exact h.issued
  · rw [htok]
    exact h.nodup

theorem congr {e' : Engine} (h : Tally ⟨e, D⟩ outside) (hpools : e'.pools = e.pools) (hmail : e'.mail = e.mail)
    (hhomes : e'.homes = e.homes) (hretired : e'.retired = e.retired) (hnext : e'.nextChan = e.nextChan)
    (hfaults : e'.faults.mailboxBlocked = e.faults.mailboxBlocked) (hreg : e'.registry = e.registry)
    (hpermit : e'.nextPermit = e.nextPermit) : Tally ⟨e', D⟩ outside := by
  obtain ⟨hslots, htok⟩ := SameLedger.of_eq hpools hmail hhomes hretired hnext hfaults outside h.slots
  refine ⟨hslots, fun hr hact hD => ?_, ?_, ?_⟩
  · rw [htok]
    exact h.holder (hreg ▸ hr) hact hD
  · rw [htok, hpermit]
    exact h.issued
  · rw [htok]
    exact h.nodup

end Tally

/-! ### Workers -/

namespace System

theorem outside_setWorker (h : sys.workers.lookup ch = some worker) (worker' : Worker) :
    (sys.setWorker ch worker').outside + worker.tokens = sys.outside + worker'.tokens := by
  have htotal := total_insert_change (f := fun _ w => w.tokens) (g := fun _ w => w.tokens) (v := worker')
    h fun _ _ _ _ => rfl
  show _ + _ + worker.tokens = _ + _ + worker'.tokens
  rw [add_right_comm, add_right_comm _ _ worker'.tokens]
  exact congrArg (· + _) htotal

theorem outside_setWorker_of_waits (h : sys.waits ch = true) (worker' : Worker) :
    (sys.setWorker ch worker').outside = sys.outside + worker'.tokens := by
  cases hw : sys.workers.lookup ch with
  | none =>
    have htotal := total_insert_fresh (f := fun _ w => w.tokens) (g := fun _ w => w.tokens)
      (v := worker') hw fun _ _ _ _ => rfl
    show _ + _ = _ + _ + worker'.tokens
    rw [add_right_comm]
    exact congrArg (· + _) htotal
  | some worker =>
    have hphase : worker.phase = .waiting := by simpa [waits, hw] using h
    have htok : worker.tokens = 0 := by simp [Worker.tokens, hphase]
    have hset := outside_setWorker hw worker'
    rwa [htok, add_zero] at hset

theorem outside_erase (h : report ∈ sys.inbox) :
    sys.outside = report.token ::ₘ ({ sys with inbox := sys.inbox.erase report } : System).outside := by
  have hperm : (sys.inbox ++ sys.lost).Perm (report :: (sys.inbox.erase report ++ sys.lost)) :=
    (perm_cons_erase h).append_right sys.lost
  have hmap := coe_eq_coe.mpr (hperm.map Report.token)
  rw [outside, hmap, List.map_cons, ← Multiset.cons_coe, Multiset.add_cons]
  rfl

end System

/-- A system whose ledger is in order; every report is about the task of its assignment. -/
structure Conserved (sys : System) : Prop where
  coherent : Coherent ⟨sys.engine, ∅⟩
  ledger : Tally ⟨sys.engine, ∅⟩ sys.outside
  reports : ∀ report ∈ sys.inbox, report.result.taskID = report.assignment.spec.id
  workers : ∀ {ch pool slot assignment result}, sys.workers.lookup ch =
    some ⟨pool, slot, .reporting assignment result⟩ → result.taskID = assignment.spec.id

theorem Tally.control {outside : Multiset Token} (hs : Coherent ⟨e, ∅⟩) (h : Tally ⟨e, ∅⟩ outside) (hev : ∀ ch, ev ≠ .receive ch)
    (hidle : ∀ pool slot, ¬(ev.allowance env e.obs).idle pool slot) : Coherent ⟨e.step env ev, ∅⟩ ∧ Tally ⟨e.step env ev, ∅⟩ outside := by
  rcases step_cases env hs ev with hsteps | ⟨owner, limits, -, heq⟩ | ⟨ch, hch, -⟩
  · exact ⟨hsteps.coherent hs, hsteps.ledger hidle hs h⟩
  · rw [heq]
    have htick : Steps env (.dispatching env e.obs) ⟨e, ∅⟩ ⟨e.tick, ∅⟩ := tick_steps e ∅
    exact ⟨(htick.coherent hs).setOwnerLimits owner limits,
      (htick.ledger (fun _ _ => id) hs h).congr rfl rfl rfl rfl rfl rfl rfl rfl⟩
  · exact absurd hch (hev ch)

namespace Conserved

section

variable (h : Conserved sys) {sys' : System} {inbox lost : List Report} {result : TaskResult}
include h

theorem control (hev : ∀ ch, ev ≠ .receive ch) (hidle : ∀ pool slot, ¬(ev.allowance env sys.engine.obs).idle pool slot)
    (hstep : sys.control env ev = some sys') : Conserved sys' := by
  unfold System.control at hstep
  split_ifs at hstep
  cases hstep
  obtain ⟨hs, hledger⟩ := h.ledger.control h.coherent hev hidle
  exact ⟨hs, hledger, h.reports, h.workers⟩

theorem complete (hin : report ∈ sys.inbox)
    (hstep : { sys with inbox := sys.inbox.erase report }.control env (.request report.request) = some sys') :
    Conserved sys' := by
  unfold System.control at hstep
  split_ifs at hstep
  cases hstep
  have hout := System.outside_erase hin
  have hledger := h.ledger.request env h.coherent (by rw [hout]; exact mem_cons_self _ _)
    (h.reports report hin)
  rw [hout, Multiset.erase_cons_head] at hledger
  refine ⟨?_, hledger, fun report' hr => h.reports report' (mem_of_mem_erase hr), h.workers⟩
  rcases step_cases env h.coherent (.request report.request) with hsteps | ⟨_, _, hev, -⟩ | ⟨_, hev, -⟩
  · exact hsteps.coherent h.coherent
  · cases hev
  · cases hev

theorem setWorker
    (hout : ({ sys.setWorker ch worker with inbox := inbox, lost := lost } : System).outside = sys.outside)
    (hinbox : ∀ report ∈ inbox, report.result.taskID = report.assignment.spec.id)
    (hphase : ∀ assignment result, worker.phase = .reporting assignment result →
      result.taskID = assignment.spec.id) :
    Conserved { sys.setWorker ch worker with inbox := inbox, lost := lost } := by
  refine ⟨h.coherent, ?_, hinbox, fun {ch' pool slot assignment result} hw => ?_⟩
  · rw [hout]
    exact h.ledger
  · replace hw : (sys.workers.insert ch worker).lookup ch' = _ := hw
    rw [lookup_insert_eq] at hw
    split_ifs at hw
    · exact hphase assignment result (by rw [some.inj hw])
    · exact h.workers hw

theorem receive (hstep : sys.step env (.receive ch) = some sys') : Conserved sys' := by
  simp only [System.step] at hstep
  split_ifs at hstep with hwaits
  split at hstep
  · rename_i assignment rest home hmail hhome
    cases hstep
    have hout := System.outside_setWorker_of_waits hwaits ⟨home.1, home.2, .executing assignment⟩
    have hledger := h.ledger.receive hmail hhome
    rw [← singleton_add, add_comm] at hledger
    refine ⟨h.coherent.congr rfl rfl, ?_, h.reports, fun {ch' pool slot assignment' result} hw => ?_⟩
    · show Tally ⟨sys.engine.receive ch, ∅⟩ (sys.setWorker ch ⟨home.1, home.2, .executing assignment⟩).outside
      rw [hout]
      exact hledger
    · replace hw : (sys.workers.insert ch ⟨home.1, home.2, .executing assignment⟩).lookup ch' = _ := hw
      rw [lookup_insert_eq] at hw
      split_ifs at hw
      · cases hw
      · exact h.workers hw
  · cases hstep

theorem finish (hstep : sys.step env (.finish ch result) = some sys') : Conserved sys' := by
  simp only [System.step] at hstep
  split at hstep
  · rename_i pool slot assignment hw
    cases hstep
    have hout := System.outside_setWorker hw
      ⟨pool, slot, .reporting assignment { result with taskID := assignment.spec.id }⟩
    refine h.setWorker (add_right_cancel hout) h.reports fun assignment' result' hphase => ?_
    cases hphase
    rfl
  · cases hstep

theorem leaves {slot : Nat}
    (hw : sys.workers.lookup ch = some ⟨pool, slot, .reporting assignment result⟩)
    (hperm : (inbox ++ lost).Perm (⟨pool, slot, assignment, result⟩ :: (sys.inbox ++ sys.lost)))
    (hinbox : ∀ report ∈ inbox, report ∈ sys.inbox ∨ report = ⟨pool, slot, assignment, result⟩) :
    Conserved { sys.setWorker ch ⟨pool, slot, .waiting⟩ with inbox := inbox, lost := lost } := by
  refine h.setWorker ?_ (fun report hr => ?_) (fun _ _ hphase => by cases hphase)
  · have hout := System.outside_setWorker hw ⟨pool, slot, .waiting⟩
    have hmap := coe_eq_coe.mpr (hperm.map Report.token)
    show _ + ((inbox ++ lost).map Report.token : Multiset Token) = sys.outside
    rw [hmap, List.map_cons, ← Multiset.cons_coe, Multiset.add_cons, ← Multiset.singleton_add, add_comm]
    exact hout.trans (add_zero _)
  · rcases hinbox report hr with hr | rfl
    · exact h.reports report hr
    · exact h.workers hw

theorem step (ev : SystemEvent) (hstep : sys.step env ev = some sys') : Conserved sys' := by
  cases ev with
  | control =>
    simp only [System.step] at hstep
    split_ifs at hstep with hreq
    refine h.control (fun ch hch => by cases hch) (fun pool slot => ?_) hstep
    rintro ⟨res, _, _, hev, -⟩
    cases hev
    exact hreq rfl
  | timer => exact h.control (fun ch hch => by cases hch) (fun pool slot ⟨_, _, _, hev, _⟩ => by cases hev) hstep
  | complete =>
    simp only [System.step] at hstep
    split_ifs at hstep with hin
    exact h.complete hin hstep
  | receive => exact h.receive hstep
  | finish => exact h.finish hstep
  | handOver =>
    simp only [System.step] at hstep
    split at hstep
    · rename_i pool slot assignment result hw
      split_ifs at hstep
      cases hstep
      refine h.leaves hw ?_ fun report hr => ?_
      · rw [append_assoc]
        exact perm_middle
      · simpa using hr
    · cases hstep
  | refuse =>
    simp only [System.step] at hstep
    split at hstep
    · rename_i pool slot assignment result hw
      split_ifs at hstep
      cases hstep
      refine h.leaves hw ?_ fun report hr => .inl hr
      rw [← append_assoc]
      exact perm_append_singleton _ _
    · cases hstep
  | exit =>
    simp only [System.step] at hstep
    split at hstep
    · cases hstep
    · rename_i home hhome
      split_ifs at hstep with hwaits
      cases hstep
      have hout := System.outside_setWorker_of_waits hwaits.1 ⟨home.1, home.2, .exited⟩
      exact h.setWorker (hout.trans (add_zero _)) h.reports fun _ _ hphase => by cases hphase
  | shutDown =>
    simp only [System.step] at hstep
    split_ifs at hstep
    cases hstep
    refine ⟨h.coherent, ?_, fun _ hr => absurd hr not_mem_nil, h.workers⟩
    have hout : ({ sys with inbox := [], lost := sys.lost ++ sys.inbox, stopped := true } : System).outside =
        sys.outside := by
      have hperm : (sys.lost ++ sys.inbox).Perm (sys.inbox ++ sys.lost) := perm_append_comm
      exact congrArg (AList.total (fun _ w => w.tokens) sys.workers + ·)
        (coe_eq_coe.mpr (hperm.map Report.token))
    rw [hout]
    exact h.ledger

end

end Conserved

/-! ### Whole runs -/

theorem newEngine_pools {wp : WorkerPool} (h : (newEngine cfg).pools.lookup pool = some wp) : ∃ c, wp = newWorkerPool c := by
  unfold newEngine at h
  rw [lookup_foldl_insert, map_eq_some_iff] at h
  obtain ⟨c, -, rfl⟩ := h
  exact ⟨c, rfl⟩

theorem newWorkerPool_not_running {c : PoolEngineConfig} (slot : Nat) : (newWorkerPool c).running[slot]? ≠ some true := by
  simp only [newWorkerPool, getElem?_replicate]
  split_ifs <;> simp

theorem newEngine_slots : Slots (newEngine cfg) 0 where
  nodup hwp := by
    obtain ⟨c, rfl⟩ := newEngine_pools hwp
    exact nodup_nil
  running hwp hmem := by
    obtain ⟨c, rfl⟩ := newEngine_pools hwp
    exact absurd hmem not_mem_nil
  length hwp := by
    obtain ⟨c, rfl⟩ := newEngine_pools hwp
    simp [newWorkerPool]
  box hwp hrun := by
    obtain ⟨c, rfl⟩ := newEngine_pools hwp
    exact absurd hrun (newWorkerPool_not_running _)
  home hwp hbox := by
    obtain ⟨c, rfl⟩ := newEngine_pools hwp
    simp only [newWorkerPool, getElem?_replicate] at hbox
    split_ifs at hbox
    cases hbox
  homes_lt h := by cases h
  mail_lt h := by cases h
  retired_lt h := absurd h not_mem_nil
  stale h := absurd h not_mem_nil
  count pool slot := by
    have hbusy : (newEngine cfg).busy pool slot = false := by
      cases hwp : (newEngine cfg).pools.lookup pool with
      | none => simp [Engine.busy, hwp]
      | some =>
        obtain ⟨c, rfl⟩ := newEngine_pools hwp
        simp [busy_of_lookup hwp, newWorkerPool_not_running]
    rw [hbusy]
    rfl
  unblocked := rfl

theorem SystemReachable.conserved (h : SystemReachable env cfg sys) : Conserved sys := by
  induction h with
  | new =>
    refine ⟨newEngine_coherent, ?_, fun _ hr => absurd hr not_mem_nil, nofun⟩
    refine ⟨newEngine_slots.congr rfl rfl rfl rfl rfl rfl, fun hr _ _ => ?_,
      fun t ht => absurd ht (notMem_zero t), nodup_zero⟩
    cases hr
  | start hprev hstart ih =>
    obtain ⟨-, -, hsteps⟩ := start_eq hstart
    have hopen : Coherent ⟨Engine.opened _, ∅⟩ := ih.coherent.congr rfl rfl
    exact ⟨hsteps.coherent hopen, hsteps.ledger (fun _ _ => id) hopen
      (ih.ledger.congr rfl rfl rfl rfl rfl rfl rfl rfl), ih.reports, ih.workers⟩
  | step ev hprev hstep ih => exact ih.step ev hstep

/-- The record is the assignment of this slot of its pool. -/
def System.Occupies (sys : System) (r : TaskRecord) (slot : Nat) : Prop :=
  ∃ permit, r.permit = some permit ∧ (⟨r.spec.pool, slot, ⟨r.spec, permit⟩⟩ : Token) ∈ sys.outstanding

namespace Tally

variable {s : Stage} {outside : Multiset Token}

theorem busy_of_token (h : Tally s outside) (ht : t ∈ s.engine.mailTokens + outside) : s.engine.busy t.pool t.slot = true := by
  have hcount := h.slots.count t.pool t.slot
  have hpos : 0 < (s.engine.mailTokens + outside).countP (Token.At t.pool t.slot) :=
    countP_pos.mpr ⟨t, ht, rfl, rfl⟩
  by_contra hnot
  rw [if_neg hnot] at hcount
  omega

theorem eq_of_slot {t' : Token} (h : Tally s outside) (ht : t ∈ s.engine.mailTokens + outside)
    (ht' : t' ∈ s.engine.mailTokens + outside) (hat : Token.At t.pool t.slot t') : t' = t := by
  have hcount := h.slots.count t.pool t.slot
  rw [if_pos (h.busy_of_token ht)] at hcount
  obtain ⟨rest, hrest⟩ := exists_cons_of_mem ht
  rw [hrest, countP_cons_of_pos _ ⟨rfl, rfl⟩] at hcount
  rw [hrest] at ht'
  rcases mem_cons.mp ht' with heq | hin
  · exact heq
  · have hpos : 0 < rest.countP (Token.At t.pool t.slot) := countP_pos.mpr ⟨t', hin, hat⟩
    omega

end Tally

/-- In every run of the engine with its workers: the idle slots of a pool are different running slots; a
running slot has a mailbox of a generation that is not retired, and is either idle with that mailbox
empty and no assignment outstanding, or has exactly one outstanding; a slot that does not run has none;
a record in flight is the assignment of a busy slot of its pool, and no two of them of the same slot. The
loop has never blocked on a mailbox, and a retired worker cannot receive. -/
theorem slots_conserved {env : Env} {cfg : Config} {sys : System} (h : SystemReachable env cfg sys) :
    (∀ pool wp, sys.engine.pools.lookup pool = some wp → wp.idleSlots.Nodup ∧ (∀ slot ∈ wp.idleSlots, wp.running[slot]? = some true) ∧
      (∀ slot : Nat, wp.running[slot]? = some true → ∃ ch, wp.mailboxes[slot]? = some (some ch) ∧ ch ∉ sys.engine.retired ∧
        (slot ∈ wp.idleSlots ∧ sys.engine.mail.lookup ch = some [] ∧ sys.outstanding.countP (Token.At pool slot) = 0 ∨
          slot ∉ wp.idleSlots ∧ sys.outstanding.countP (Token.At pool slot) = 1)) ∧
      ∀ slot : Nat, wp.running[slot]? ≠ some true → sys.outstanding.countP (Token.At pool slot) = 0) ∧
    (∀ id r, sys.engine.registry.lookup id = some r → r.state.isActive = true →
      ∃ slot wp, sys.Occupies r slot ∧ sys.engine.pools.lookup r.spec.pool = some wp ∧
        wp.running[slot]? = some true ∧ slot ∉ wp.idleSlots) ∧
    (∀ id id' r r' slot, sys.engine.registry.lookup id = some r → sys.engine.registry.lookup id' = some r' →
      r.state.isActive = true → r'.state.isActive = true → r'.spec.pool = r.spec.pool →
      sys.Occupies r slot → sys.Occupies r' slot → id' = id) ∧ sys.engine.faults.mailboxBlocked = false ∧
    ∀ ch ∈ sys.engine.retired, sys.step env (.receive ch) = none := by
  obtain ⟨hcoherent, hledger, -, -⟩ := h.conserved
  have hslots := hledger.slots
  refine ⟨fun pool wp hwp => ⟨hslots.nodup hwp, fun slot => hslots.running hwp, fun slot hrun => ?_,
    fun slot hrun => ?_⟩, fun id r hr hact => ?_, ?_, hslots.unblocked, fun ch hretired => ?_⟩
  · obtain ⟨ch, hbox, hlive⟩ := hslots.box hwp hrun
    have hcount := hslots.count pool slot
    have hbusy : sys.engine.busy pool slot = _ := busy_of_lookup hwp
    refine ⟨ch, hbox, hlive, ?_⟩
    by_cases hidle : slot ∈ wp.idleSlots
    · have hfree : sys.engine.busy pool slot = false := by simp [hbusy, hidle]
      rw [if_neg (by simp [hfree])] at hcount
      exact .inl ⟨hidle, hslots.mailbox_empty hwp hfree hbox, hcount⟩
    · rw [if_pos (by simp [hbusy, hidle, hrun])] at hcount
      exact .inr ⟨hidle, hcount⟩
  · have hcount := hslots.count pool slot
    rw [if_neg (by simp [busy_of_lookup hwp, hrun])] at hcount
    exact hcount
  · obtain ⟨slot, permit, hpermit, -, -, hmem⟩ := hledger.holder hr hact (Finset.notMem_empty id)
    have hbusy := hledger.busy_of_token hmem
    cases hwp : sys.engine.pools.lookup r.spec.pool with
    | none => simp [Engine.busy, hwp] at hbusy
    | some wp =>
      rw [busy_of_lookup hwp, decide_eq_true_eq] at hbusy
      exact ⟨slot, wp, ⟨permit, hpermit, hmem⟩, rfl, hbusy⟩
  · rintro id id' r r' slot hr hr' hact _ hpool ⟨permit, hpermit, hmem⟩ ⟨_, _, hmem'⟩
    have htoken := hledger.eq_of_slot hmem hmem' ⟨hpool, rfl⟩
    have hspec : r'.spec = r.spec := congrArg (·.assignment.spec) htoken
    rw [← hcoherent.key hr, ← hcoherent.key hr', hspec]
  · simp only [System.step]
    split_ifs
    · split
      · rename_i assignment rest home hmail hhome
        cases hslots.stale hretired hmail
      · rfl
    · rfl

def System.solo (concurrency : Nat) (events : List SystemEvent) : Option System :=
  { engine := Engine.launch .quiet (onePool concurrency) : System }.run .quiet events

theorem SystemReachable.solo {concurrency : Nat} {events : List SystemEvent}
    (h : System.solo concurrency events = some sys) : SystemReachable .quiet (onePool concurrency) sys :=
  (SystemReachable.start (.new none false) (start_launch (onePool_valid concurrency))).run h

/-- One worker executes a task and reports, and the loop handles the report. -/
def relayed (id : String) : List SystemEvent :=
  [.receive 0, .finish 0 { outcome := .completed }, .handOver 0,
    .complete ⟨goString "pool", 0, ⟨{ plainSpec id with cls := .normal }, ⟨0, goString "pool", goString id, 1⟩⟩,
      { taskID := goString id, outcome := .completed }⟩]

theorem slots_conserved_solo :
    ∃ sys, System.solo 1 (.control (.submit (plainSpec "a")) :: .control (.submit (plainSpec "b")) :: relayed "a") =
        some sys ∧ sys.engine.stateOf "b" = some .dispatching ∧ sys.engine.faults.mailboxBlocked = false := by
  have hstate : (System.solo 1 (.control (.submit (plainSpec "a")) :: .control (.submit (plainSpec "b")) ::
      relayed "a")).map (·.engine.stateOf "b") = some (some .dispatching) := by decide +kernel
  obtain ⟨sys, hrun, hb⟩ := map_eq_some_iff.mp hstate
  exact ⟨sys, hrun, hb, (slots_conserved (SystemReachable.solo hrun)).2.2.2.1⟩

end Goultroid
