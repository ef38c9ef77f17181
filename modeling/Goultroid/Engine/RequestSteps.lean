import Goultroid.Engine.DispatchSteps

/-!
# Requests in steps

Every event of the control loop is a sequence of `Micro` steps under an allowance that names what the
event may do, apart from the two that change nothing a step can change: new owner limits and a worker
that empties its mailbox. Queues and registry agree in every reachable state.

The branches of a handler are listed by the outcome of the checks that the source makes
(`admitSubmit_cases`, `applyWorkerCompleted_cases`), and each is put together from the sequences of
`DispatchSteps` and `SettlementSteps`; `Engine.step_cases` collects the events.
`ReachableBy.invariant` is the induction that the other modules use: what initial states have and
every permitted step from a coherent stage keeps, holds in every reachable state.
-/

namespace Goultroid

open List AList Option Engine
open Admission (Controller QueueEntry OwnerLimits)

variable {e e' : Engine} {env : Env} {P : Stage → Prop} {cfg : Config} {ok : Engine → Event → Prop} {D : Finset TaskID}

namespace Engine

variable {spec spec' : WorkSpec} {id : TaskID} {n : Nat} {d : Delivery} {reserved : Bool} {al : Allowance} {grant : Option Permit}
  {r : TaskRecord}

/-! ### Admission -/

theorem admitBudgets_ok (h : e.admitBudgets spec = .ok spec') : spec' = spec ∧ (∀ requirement ∈ spec.resources, ∃ capacity,
      e.resourceCapacity.lookup requirement.name = some capacity ∧ requirement.amount ≤ capacity) ∧
      (∃ ps, e.adm.pools.lookup spec.pool = some ps) ∧
      (0 < e.maxRetainedBytes → e.retainedBytes + retainedCharge spec ≤ e.maxRetainedBytes) := by
  unfold admitBudgets at h
  split at h
  · cases h
  split at h
  · cases h
  rename_i hres
  split at h
  · cases h
  rename_i hadmission
  split at h
  · cases h
  rename_i hbudget
  refine ⟨(Except.ok.inj h).symm, ?_, ?_, fun hpos => ?_⟩
  · intro requirement hmem
    have hsatisfiable : e.unsatisfiable requirement = false := by
      by_contra hnot
      exact hres (any_eq_true.mpr ⟨requirement, hmem, by simpa using hnot⟩)
    unfold unsatisfiable at hsatisfiable
    cases hcap : e.resourceCapacity.lookup requirement.name with
    | none => simp [hcap] at hsatisfiable
    | some capacity =>
      simp only [hcap, decide_eq_false_iff_not] at hsatisfiable
      exact ⟨capacity, rfl, Int64.not_lt.mp hsatisfiable⟩
  · unfold Controller.canAdmit at hadmission
    cases hps : e.adm.pools.lookup spec.pool with
    | none => simp [hps] at hadmission
    | some ps => exact ⟨ps, rfl⟩
  · by_contra hover
    exact hbudget ⟨hpos, by omega⟩

theorem resolveHandler_eq (h : e.resolveHandler env spec = some spec') :
    ∃ handler, spec' = { spec with handler := handler } := by
  unfold resolveHandler at h
  split_ifs at h
  · obtain ⟨handler, -, rfl⟩ := map_eq_some_iff.mp h
    exact ⟨some handler, rfl⟩
  · exact ⟨spec.handler, (some.inj h).symm⟩

theorem admitChecks_ok (h : e.admitChecks env spec = .ok spec') :
    Admissible e spec' ∧ ∃ cls handler, spec' = { spec with cls := cls, handler := handler } := by
  unfold admitChecks at h
  split at h
  · cases h
  rename_i valid hvalid
  split at h
  · cases h
  rename_i hfresh
  split at h
  · cases h
  rename_i resolved hresolve
  split at h
  · cases h
  split at h
  · cases h
  rename_i haccepting
  split at h
  · cases h
  split at h
  · cases h
  rename_i hcredits
  obtain ⟨handler, rfl⟩ := resolveHandler_eq hresolve
  obtain ⟨rfl, hsatisfiable, hpool, hbudget⟩ := admitBudgets_ok h
  obtain ⟨hsame, hcls, hresources⟩ := WorkSpec.validate_ok hvalid
  refine ⟨⟨by simpa using haccepting, by simpa using hfresh, hcls, hresources, hsatisfiable, fun hpos => ?_, hpool,
    hbudget⟩, valid.cls, handler, by rw [hsame]⟩
  by_contra hfull
  exact hcredits ⟨hpos, by omega⟩

theorem admissible_observe (h : Admissible e spec) (d : Delivery) (n : Nat) :
    Admissible { e with delivery := d, obs := n } spec :=
  ⟨h.accepting, h.fresh, h.cls, h.resources, h.satisfiable, h.credit, h.pool, h.budget⟩

/-- An engine after more readings, with the callback lane as it is then. -/
def lend (e : Engine) (n : Nat) (d : Delivery) : Engine := { e with obs := n, delivery := d }

@[simp] theorem lend_tick : e.tick.lend n d = e.lend n d := rfl

@[simp] theorem tick_lend : (e.lend n d).tick = e.lend (n + 1) d := rfl

@[simp] theorem lend_lend {m : Nat} {d' : Delivery} : (e.lend n d).lend m d' = e.lend m d' := rfl

/-- What a submission does before its decision: a credit is taken for the callback, or there is none to
take. -/
theorem reserveCallback_lends (env : Env) (e : Engine) (spec : WorkSpec) : ∃ d n, e.obs ≤ n ∧ (e.reserveCallback env spec).2 = e.lend n d ∧
      ((e.reserveCallback env spec).1 = none ∧ e.delivery.Lends 0 d ∨ (e.reserveCallback env spec).1 = some spec.onComplete.isSome ∧
          e.delivery.Lends spec.onComplete.isSome.toNat d) := by
  unfold reserveCallback
  cases hfn : spec.onComplete with
  | none => exact ⟨e.delivery, e.obs, le_rfl, rfl, .inr ⟨rfl, .refl⟩⟩
  | some =>
    refine ⟨_, e.obs + 1, Nat.le_succ _, rfl, ?_⟩
    have hrun := Delivery.Lends.run (env.lane e.obs) (.refl (d := e.delivery))
    cases hres : (e.delivery.run (env.lane e.obs)).reserve.1 with
    | false =>
      refine .inl ⟨by simp [hres], ?_⟩
      rw [Delivery.reserve_refused hres]
      exact hrun
    | true => exact .inr ⟨by simp [hres], hrun.reserve hres⟩

theorem unreserveCallback_lends (e : Engine) {d : Delivery} (h : d.Lends reserved.toNat e.delivery) :
    ∃ d' n, e.obs ≤ n ∧ e.unreserveCallback env reserved = e.lend n d' ∧ d.Lends 0 d' := by
  cases reserved with
  | false => exact ⟨e.delivery, e.obs, le_rfl, rfl, h⟩
  | true => exact ⟨_, e.obs + 1, Nat.le_succ _, rfl, (h.run (env.lane e.obs)).release⟩

/-- What a submission comes to: nothing but readings and lane steps, or `accept` of an admissible spec,
with the credit of its callback. -/
inductive Submitted (env : Env) (e : Engine) (spec : WorkSpec) (out : Engine × Except SubmitError Ticket) :
    Prop where
  | rejected (n : Nat) (d : Delivery) (err : SubmitError) (hobs : e.obs ≤ n) (hlends : e.delivery.Lends 0 d)
    (heq : out = (e.lend n d, .error err))
  | accepted (n : Nat) (d : Delivery) (spec' : WorkSpec) (hobs : e.obs ≤ n)
    (hspec : ∃ cls handler, spec' = { spec with cls := cls, handler := handler })
    (hlends : e.delivery.Lends spec'.onComplete.isSome.toNat d) (hadmission : Admissible (e.lend n d) spec')
    (heq : out = ((accept env (e.lend n d) spec' spec'.onComplete.isSome).1,
      .ok (accept env (e.lend n d) spec' spec'.onComplete.isSome).2))

theorem admitSubmit_cases : Submitted env e spec (e.admitSubmit env spec) := by
  have hrejected : ∀ n err, e.obs ≤ n → Submitted env e spec (e.lend n e.delivery, .error err) :=
    fun n err hobs => .rejected n e.delivery err hobs .refl rfl
  unfold admitSubmit
  split_ifs
  · exact hrejected _ _ (Nat.le_succ _)
  · split
    · exact hrejected _ _ (Nat.le_add_right _ 2)
    · rename_i spec' hchecks
      obtain ⟨hadmission, hspec⟩ := admitChecks_ok hchecks
      dsimp only
      split_ifs
      · exact hrejected _ _ (Nat.le_add_right _ 3)
      · obtain ⟨d, n, hobs, heq, hlends⟩ := reserveCallback_lends env e.tick.tick.tick spec'
        replace hobs : e.obs + 3 ≤ n := hobs
        simp only [lend_tick] at heq
        split
        · rename_i e' hres
          rw [hres] at heq hlends
          obtain ⟨-, hlends⟩ := hlends.resolve_right fun h => by cases h.1
          dsimp only at heq
          exact .rejected n d _ (by omega) hlends (by rw [heq])
        · rename_i reserved e' hres
          rw [hres] at heq hlends
          obtain ⟨hreserved, hcredits⟩ := hlends.resolve_left fun h => by cases h.1
          cases hreserved
          dsimp only at heq
          rw [heq, tick_lend]
          split_ifs
          · exact .accepted (n + 1) d spec' (by omega) hspec hcredits (admissible_observe hadmission d (n + 1)) rfl
          · obtain ⟨d', n', hobs', heq', hlends'⟩ := unreserveCallback_lends (e.lend (n + 1) d) hcredits
            replace hobs' : n + 1 ≤ n' := hobs'
            exact .rejected n' d' _ (by omega) hlends' (by rw [heq', lend_lend])

theorem accept_steps (h : Ready env al ⟨e, D⟩) (hadmission : Admissible e spec) (hal : al.admits spec) (hspawn : ∀ pool, al.spawn pool) :
    Steps env al ⟨e, D⟩ ⟨(e.accept env spec reserved).1, D⟩ := by
  have hpub : Steps env al ⟨e, D⟩ ⟨e.tick.publish spec reserved (env.clock e.obs), D⟩ :=
    (tick_steps e D).tail (.publish spec reserved _ hal (admissible_observe hadmission _ _))
  exact hpub.trans (tryDispatch_advances (hpub.ready h) (hspawn spec.pool)).steps

theorem lend_steps (hreserve : al.reserve) (hobs : e.obs ≤ n) : Steps env al ⟨e, D⟩ ⟨e.lend n d, D⟩ :=
  (Steps.one (.observe n hobs)).tail (.reserve d hreserve)

theorem admitSubmit_steps (h : Ready env al ⟨e, D⟩)
    (hal : ∀ cls handler, al.admits { spec with cls := cls, handler := handler }) (hreserve : al.reserve)
    (hspawn : ∀ pool, al.spawn pool) : Steps env al ⟨e, D⟩ ⟨(e.admitSubmit env spec).1, D⟩ := by
  cases admitSubmit_cases with
  | rejected n d err hobs hlends heq =>
    rw [heq]
    exact lend_steps hreserve hobs
  | accepted n d _ hobs hspec hlends hadmission heq =>
    obtain ⟨cls, handler, rfl⟩ := hspec
    have hlend : Steps env al ⟨e, D⟩ ⟨e.lend n d, D⟩ := lend_steps hreserve hobs
    rw [heq]
    exact hlend.trans (accept_steps (hlend.ready h) hadmission (hal cls handler) hspawn)

/-! ### Worker messages -/

theorem applyWorkerStarted_steps {startedAt : Time} : Steps env al ⟨e, ∅⟩ ⟨e.applyWorkerStarted id grant startedAt, ∅⟩ := by
  unfold applyWorkerStarted
  cases hr : e.registry.lookup id with
  | none => exact Steps.refl _
  | some =>
    dsimp only
    split_ifs with hfence
    · exact Steps.refl _
    · push Not at hfence
      exact Steps.one (.started startedAt hr hfence.1 (Finset.notMem_empty id))

theorem concludeAttempt_steps (h : Coherent ⟨e, D⟩) {rec : TaskRecord}
    (hr : e.registry.lookup id = some r) (hD : id ∈ D) (hact : r.state.isActive = true)
    (hspec : rec.spec = r.spec) (hseq : rec.commitSeq = r.commitSeq) (hdone : rec.done = r.done)
    (hcallback : rec.callbackReserved = r.callbackReserved) (hretained : rec.retainedBytes = r.retainedBytes) :
    Steps env al ⟨e, D⟩ ⟨e.concludeAttempt env rec, D.erase id⟩ := by
  unfold concludeAttempt
  have hchar : rec.retainedBytes + (e.boundResult rec.result).2 =
      r.retainedBytes + (e.boundResult rec.result).2 := by rw [hretained]
  split_ifs with hdurable
  · exact beginCommit_steps h hr hD hact
      ⟨hspec, hseq, hdone, hcallback, hchar, rfl, rfl, by rw [← hspec]; exact hdurable,
        boundResult_nonneg⟩
  · refine settleTerminal_steps hr hD
      ⟨hspec, hseq, hdone, hcallback, hchar, isTerminal_terminalStateFor, ?_, ?_,
        boundResult_nonneg⟩
    · intro hqueued
      exact absurd hqueued (Coherent.not_queued_of_active hact)
    · intro hcommits
      rw [hspec] at hdurable
      exact absurd hcommits hdurable

/-- A completion that passes the fence releases the attempt, dispatches and concludes; any other changes
nothing. -/
theorem applyWorkerCompleted_cases (h : Ready env al ⟨e, ∅⟩) (hspawn : ∀ pool, al.spawn pool) (res : TaskResult) (grant : Option Permit) :
    (e.applyWorkerCompleted env res grant = e ∧ ∀ r, e.registry.lookup res.taskID = some r →
      r.state.isActive = true → fenced r grant = false) ∨
    ∃ r, e.registry.lookup res.taskID = some r ∧ r.state.isActive = true ∧ fenced r grant = true ∧
      Steps env al ⟨e.releaseAttempt r.spec, {res.taskID}⟩ ⟨e.applyWorkerCompleted env res grant, ∅⟩ := by
  unfold applyWorkerCompleted
  cases hr : e.registry.lookup res.taskID with
  | none => exact .inl ⟨rfl, fun _ hx => by cases hx⟩
  | some r =>
    dsimp only
    split_ifs with hfence
    · refine .inl ⟨rfl, fun x hx hact => ?_⟩
      cases hx
      rw [hact] at hfence
      exact hfence.resolve_left Bool.noConfusion
    · simp only [not_or, Bool.not_eq_false] at hfence
      obtain ⟨hact, hfenced⟩ := hfence
      refine .inr ⟨r, rfl, hact, hfenced, ?_⟩
      have hfirst : Micro env { al with release := fun _ => True } ⟨e, ∅⟩
          ⟨e.releaseAttempt r.spec, insert res.taskID ∅⟩ :=
        .release hr hact (Finset.notMem_empty _) trivial
      have hcoherent := hfirst.coherent h.coherent
      have hready : Ready env al ⟨e.releaseAttempt r.spec, insert res.taskID ∅⟩ := ⟨hcoherent, h.expires⟩
      have hdispatch := tryDispatchAll_advances hready hspawn
      have hkept := hdispatch.keeps res.taskID r hr (Coherent.not_queued_of_active hact)
        (Coherent.not_terminal_of_active hact)
      have hconclude : Steps env al _ ⟨concludeAttempt env _ (reported r res),
          (insert res.taskID ∅ : Finset TaskID).erase res.taskID⟩ :=
        concludeAttempt_steps (hdispatch.steps.coherent hcoherent) hkept
          (Finset.mem_insert_self _ _) hact rfl rfl rfl rfl rfl
      rw [Finset.erase_insert (Finset.notMem_empty _)] at hconclude
      exact hdispatch.steps.trans hconclude

theorem applyWorkerCompleted_steps (h : Ready env al ⟨e, ∅⟩) (hspawn : ∀ pool, al.spawn pool) (res : TaskResult)
    (hrel : ∀ r, fenced r grant = true → al.release r.permit) : Steps env al ⟨e, ∅⟩ ⟨e.applyWorkerCompleted env res grant, ∅⟩ := by
  rcases applyWorkerCompleted_cases h hspawn res grant with ⟨hstale, -⟩ | ⟨r, hr, hact, hfenced, hsteps⟩
  · rw [hstale]
  · have hfirst : Micro env al ⟨e, ∅⟩ ⟨e.releaseAttempt r.spec, insert res.taskID ∅⟩ :=
      .release hr hact (Finset.notMem_empty _) (hrel r hfenced)
    exact (Steps.one hfirst).trans hsteps

/-! ### Shutdown -/

theorem applyQuiesce_steps : Steps env al ⟨e, D⟩ ⟨e.applyQuiesce, D⟩ :=
  (Steps.one .quiesce).tail .drain

theorem forceCancelInFlight_steps (hr : e.registry.lookup id = some r)
    (hD : id ∉ D) (hrel : ∀ permit, al.release permit) : Steps env al ⟨e, D⟩ ⟨e.forceCancelInFlight env r, D⟩ := by
  unfold forceCancelInFlight
  split
  · exact Steps.refl _
  · rename_i hact
    have hact' : r.state.isActive = true := by simpa using hact
    have hrel : Steps env al ⟨e, D⟩ ⟨e.tick.releaseAttempt r.spec, insert id D⟩ :=
      (tick_steps e D).tail (.release hr hact' hD (hrel _))
    refine hrel.trans ?_
    rw [show (⟨_, D⟩ : Stage) = ⟨_, (insert id D).erase id⟩ by rw [Finset.erase_insert hD]]
    refine settleTerminal_steps (e := e.tick.releaseAttempt r.spec) hr (Finset.mem_insert_self id D)
      ⟨rfl, rfl, rfl, rfl, rfl, ?_, ?_, ?_, boundResult_nonneg⟩
    · split_ifs <;> rfl
    · intro hqueued
      exact absurd hqueued (Coherent.not_queued_of_active hact')
    · intro hcommits _
      exact .inr (if_pos hcommits)

theorem finalizeTask_steps (h : Coherent ⟨e, ∅⟩) (hleave : ∀ n entry, al.leave n entry) (hrel : ∀ permit, al.release permit) :
    Steps env al ⟨e, ∅⟩ ⟨e.finalizeTask env id, ∅⟩ := by
  unfold finalizeTask
  cases hr : e.registry.lookup id with
  | none => exact Steps.refl _
  | some =>
    have hnot := Finset.notMem_empty id
    dsimp only
    split
    · exact applyCancel_steps h hnot fun _ _ n => hleave n _
    iterate 2
      · exact forceCancelInFlight_steps hr hnot hrel
    · exact abandonPending_steps hr hnot
    · exact Steps.refl _

theorem applyStopFinalize_steps (h : Coherent ⟨e, ∅⟩) (hleave : ∀ n entry, al.leave n entry) (hrel : ∀ permit, al.release permit) :
    Steps env al ⟨e, ∅⟩ ⟨e.applyStopFinalize env, ∅⟩ := by
  have hfold : ∀ (ids : List TaskID) (e : Engine), Coherent ⟨e, ∅⟩ →
      Steps env al ⟨e, ∅⟩ ⟨ids.foldl (finalizeTask env) e, ∅⟩ := by
    intro ids
    induction ids with
    | nil => intro e _; exact Steps.refl _
    | cons id ids ih =>
      intro e he
      have hstep : Steps env al ⟨e, ∅⟩ ⟨e.finalizeTask env id, ∅⟩ := finalizeTask_steps he hleave hrel
      exact hstep.trans (ih _ (hstep.coherent he))
  have hquiesced : Steps env al ⟨e, ∅⟩ ⟨({ e with accepting := false, quiesced := true }).tick, ∅⟩ :=
    (Steps.one .quiesce).trans (tick_steps _ _)
  exact (hquiesced.trans (hfold _ _ (hquiesced.coherent h))).tail .drain

/-! ### Sweeps and start -/

theorem sweepPools_steps {now : Time} (h : Ready env al ⟨e, D⟩) (hcover : al.Covers now e.obs) :
    Steps env al ⟨e, D⟩ ⟨e.sweepPools env now, D⟩ := by
  have htick : Steps env al ⟨e, D⟩ ⟨e.tick, D⟩ := tick_steps e D
  have hfold : Advances env al D e.tick (e.sweepPools env now) := Advances.foldl e.obs
    (fun x pool hlo hx => sweepExpired_advances hx.coherent pool (hcover.mono hlo))
    (e.poolIDs env) (Nat.le_succ e.obs) (htick.ready h)
  exact htick.trans hfold.steps

theorem onSweepTimer_steps (h : Ready env al ⟨e, D⟩) : Steps env al ⟨e, D⟩ ⟨e.onSweepTimer env, D⟩ := by
  have htick : Steps env al ⟨e, D⟩ ⟨e.tick, D⟩ := tick_steps e D
  have hsweep : Steps env al ⟨e.tick, D⟩ ⟨e.tick.sweepPools env (env.clock e.obs), D⟩ :=
    sweepPools_steps (htick.ready h) (h.expires e.obs le_rfl)
  exact (htick.trans hsweep).trans sweepIdleWorkers_steps

/-- The state `Start` puts an engine in before it starts the workers. -/
def opened (e : Engine) : Engine :=
  { e with
    accepting := true
    quiesced := false
    drained := false
    drainDone := false
    runStarted := true }

theorem steps_foldl {α : Type*} {f : Engine → α → Engine} (hf : ∀ e a, Steps env al ⟨e, ∅⟩ ⟨f e a, ∅⟩) (l : List α) (e : Engine) :
    Steps env al ⟨e, ∅⟩ ⟨l.foldl f e, ∅⟩ := by
  induction l generalizing e with
  | nil => exact Steps.refl _
  | cons a l ih => exact (hf e a).trans (ih _)

theorem start_eq (h : e.start env = some e') : e.configErr = none ∧ e.runStarted = false ∧ Steps env .starting ⟨e.opened, ∅⟩ ⟨e', ∅⟩ := by
  unfold start at h
  split_ifs at h with href
  simp only [not_or, Bool.not_eq_true, isSome_eq_false_iff, isNone_iff_eq_none] at href
  cases h
  refine ⟨href.1, href.2, (tick_steps e.opened ∅).trans (steps_foldl (fun e pool => ?_) _ _)⟩
  split
  · exact Steps.refl _
  · refine steps_foldl (fun e slot => ?_) _ _
    split
    · exact Steps.refl _
    · next hspawn => exact (spawn_advances trivial hspawn).steps

end Engine

/-! ### Events -/

/-- The permit a message carries is the record's own: the same allocation and the same epoch. -/
def TaskRecord.Holds (r : TaskRecord) (grant : Option Permit) : Prop :=
  ∃ g p, grant = some g ∧ r.permit = some p ∧ p.addr = g.addr ∧ g.dispatchEpoch = r.dispatchEpoch

theorem fenced_iff (r : TaskRecord) (grant : Option Permit) : Engine.fenced r grant = true ↔ r.Holds grant := by
  unfold Engine.fenced TaskRecord.Holds
  cases grant with
  | none => simp
  | some =>
    cases r.permit with
    | none | some => simp

def Event.cancels (ev : Event) (entry : QueueEntry) : Prop :=
  match ev with
  | .request (.cancel id _) => entry.spec.id = id
  | .request (.cancelScope scope _) => Engine.scopeCovers scope entry.spec
  | .request .stopFinalize => True
  | _ => False

/-- The events that call `tryDispatch`. -/
def Event.dispatches (ev : Event) : Prop :=
  match ev with
  | .request (.submit _) | .request (.workerCompleted _ _ _ _) | .request (.setResourceCapacity _ _) => True
  | _ => False

/-- The deadline of an entry had passed at one of the readings from `lo` up to `n`. -/
def Late (env : Env) (lo n : Nat) (entry : QueueEntry) : Prop :=
  ∃ m, lo ≤ m ∧ m < n ∧ entry.spec.queueDeadline ≠ 0 ∧ entry.spec.queueDeadline ≤ env.clock m

/-- What an event may do that begins after `lo` readings: only a submission publishes, and what it
publishes is the submitted spec with a class and a handler; only a new capacity is set; an entry leaves
its queue when it is cancelled or late; an attempt is released by the completion with its permit, or by
`Stop`; workers are started by what dispatches, and by a new configuration of their pool; and a slot is
freed by the completion that names it. -/
def Event.allowance (env : Env) (ev : Event) (lo : Nat) : Allowance where
  admits spec' := ∃ spec cls handler, ev = .request (.submit spec) ∧
    spec' = { spec with cls := cls, handler := handler }
  reserve := ∃ spec, ev = .request (.submit spec)
  resize name capacity := ev = .request (.setResourceCapacity name capacity)
  leave n entry := ev.cancels entry ∨ Late env lo n entry
  release permit := ev = .request .stopFinalize ∨ ∃ res grant pool slotID p,
    ev = .request (.workerCompleted res (some grant) pool slotID) ∧ permit = some p ∧ p.addr = grant.addr
  spawn pool := ev.dispatches ∨ ∃ cfg, ev = .request (.configurePool pool cfg)
  idle pool slot := ∃ res grant slotID,
    ev = .request (.workerCompleted res grant pool slotID) ∧ slotID.toNat = slot

theorem Event.allowance_expires (env : Env) (ev : Event) (lo : Nat) : (ev.allowance env lo).Expires env lo :=
  fun m hm _ hne hdue n hn => .inr ⟨m, hm, by omega, hne, hdue⟩

/-- What dispatch may do after `lo` readings: late entries leave their queue and workers are started. -/
def Allowance.dispatching (env : Env) (lo : Nat) : Allowance where
  admits _ := False
  reserve := False
  resize _ _ := False
  leave n entry := Late env lo n entry
  release _ := False
  spawn _ := True
  idle _ _ := False

theorem Ready.dispatching (env : Env) (h : Coherent ⟨e, D⟩) : Ready env (.dispatching env e.obs) ⟨e, D⟩ :=
  ⟨h, fun m hm _ hne hdue n hn => ⟨m, hm, by omega, hne, hdue⟩⟩

/-- What a step of the control loop is: a sequence of `Micro` steps, new limits for an owner, or a
worker's receive. -/
theorem Engine.step_cases (env : Env) (h : Coherent ⟨e, ∅⟩) (ev : Event) :
    Steps env (ev.allowance env e.obs) ⟨e, ∅⟩ ⟨e.step env ev, ∅⟩ ∨
    (∃ owner limits, ev = .request (.setOwnerLimits owner limits) ∧
      e.step env ev = { e.tick with adm := e.adm.setOwnerLimits owner limits }) ∨
    ∃ ch, ev = .receive ch ∧ e.step env ev = e.receive ch := by
  have hready : Ready env (ev.allowance env e.obs) ⟨e, ∅⟩ := ⟨h, ev.allowance_expires env e.obs⟩
  cases ev with
  | timer => exact .inl (onSweepTimer_steps hready)
  | receive ch => exact .inr (.inr ⟨ch, rfl, rfl⟩)
  | request req =>
    cases req with
    | submit spec =>
      exact .inl (admitSubmit_steps hready (fun cls handler => ⟨spec, cls, handler, rfl, rfl⟩)
        ⟨spec, rfl⟩ fun _ => .inl trivial)
    | cancel id =>
      exact .inl (applyCancel_steps h (Finset.notMem_empty id) fun r hr n => .inl (h.key hr))
    | cancelScope scope reason =>
      exact .inl (applyCancelScope_steps h scope reason fun entry hcover n => .inl hcover)
    | snapshot | result => exact .inl (Steps.refl _)
    | workerStarted => exact .inl applyWorkerStarted_steps
    | workerCompleted res grant pool slotID =>
      have hcompleted := applyWorkerCompleted_steps hready (fun _ => .inl trivial) res fun r hfenced => by
        obtain ⟨g, p, rfl, hpermit, haddr, -⟩ := (fenced_iff r grant).mp hfenced
        exact .inr ⟨res, g, pool, slotID, p, rfl, hpermit, haddr⟩
      have hidle := markWorkerIdle_advances (hcompleted.ready hready) ⟨res, grant, slotID, rfl, rfl⟩
        fun _ => .inl trivial
      exact .inl (hcompleted.trans hidle.steps)
    | commitAck id => exact .inl (applyCommitAck_steps (Finset.notMem_empty id))
    | sweep =>
      have htick : Steps env (Event.allowance env (.request .sweep) e.obs) ⟨e, ∅⟩ ⟨e.tick, ∅⟩ :=
        tick_steps e ∅
      exact .inl (htick.trans (sweepPools_steps (htick.ready hready) (hready.expires e.obs le_rfl)))
    | quiesce => exact .inl applyQuiesce_steps
    | setOwnerLimits owner limits =>
      cases hdec : env.decides e.obs with
      | true =>
        refine .inr (.inl ⟨owner, limits, rfl, ?_⟩)
        simp [Engine.step, handleRequest, hdec]
      | false =>
        left
        have heq : e.step env (.request (.setOwnerLimits owner limits)) = e.tick := by
          simp [Engine.step, handleRequest, hdec]
        rw [heq]
        exact tick_steps e ∅
    | configurePool pool cfg => exact .inl (applyPoolConfig_steps h (.inr ⟨cfg, rfl⟩))
    | setResourceCapacity => exact .inl (applyResourceCapacity_steps hready rfl fun _ => .inl trivial)
    | stopFinalize => exact .inl (applyStopFinalize_steps h (fun _ _ => .inl trivial) fun _ => .inl rfl)

/-! ### Reachable states -/

theorem newEngine_coherent {pump : Option CommitPump} {resolver : Bool} :
    Coherent ⟨{ newEngine cfg with commitPump := pump, handlerResolver := resolver }, ∅⟩ where
  key h := by cases h
  past h := by cases h
  detached h := absurd h (Finset.notMem_empty _)
  adm := Controller.newController_wf _
  queue := (Controller.newController_waiting _).trans (total_empty _).symm
  active _ := (getD_empty).trans (total_empty _).symm

theorem Coherent.setOwnerLimits (h : Coherent ⟨e, ∅⟩) (owner : OwnerID) (limits : OwnerLimits) :
    Coherent ⟨{ e with adm := e.adm.setOwnerLimits owner limits }, ∅⟩ :=
  ⟨h.key, h.past, h.detached, Controller.setOwnerLimits_wf h.adm,
    (Controller.setOwnerLimits_waiting _ _ _).trans h.queue, h.active⟩

/-- The allowances of the sequences of steps in a run whose events satisfy `ok`. -/
def Permitted (env : Env) (ok : Engine → Event → Prop) (al : Allowance) : Prop :=
  al = .starting ∨ ∃ e ev, ok e ev ∧ al = Event.allowance env ev e.obs

section Invariant

variable (hnew : ∀ pump resolver, P ⟨{ newEngine cfg with commitPump := pump, handlerResolver := resolver }, ∅⟩)
  (hopen : ∀ e, P ⟨e, ∅⟩ → e.configErr = none → e.runStarted = false → P ⟨e.opened, ∅⟩)
  (hlim : ∀ e owner limits, P ⟨e, ∅⟩ → P ⟨{ e with adm := e.adm.setOwnerLimits owner limits }, ∅⟩)
  (hrec : ∀ e ch, P ⟨e, ∅⟩ → P ⟨e.receive ch, ∅⟩)
include hlim hrec

/-- A property that new limits and a receive keep, and every `Micro` step of the event from a coherent
stage, is kept by the event. -/
theorem Engine.step_invariant (ev : Event) (hmicro : ∀ s s', Micro env (ev.allowance env e.obs) s s' → Coherent s → P s → P s')
    (hcoherent : Coherent ⟨e, ∅⟩) (h : P ⟨e, ∅⟩) : Coherent ⟨e.step env ev, ∅⟩ ∧ P ⟨e.step env ev, ∅⟩ := by
  have hrun : ∀ {s'}, Steps env (ev.allowance env e.obs) ⟨e, ∅⟩ s' → Coherent s' ∧ P s' := fun hsteps =>
    hsteps.keeps hmicro hcoherent h
  rcases step_cases env hcoherent ev with hsteps | ⟨owner, limits, -, heq⟩ | ⟨ch, -, heq⟩
  · exact hrun hsteps
  · rw [heq]
    obtain ⟨hcoherent', hP⟩ := hrun (tick_steps e ∅)
    exact ⟨hcoherent'.setOwnerLimits owner limits, hlim _ owner limits hP⟩
  · rw [heq]
    exact ⟨hcoherent.congr rfl rfl, hrec e ch h⟩

include hnew hopen

/-- A property of stages that the initial states have, that `Start`, new limits and a receive keep, and
that every `Micro` step of a permitted allowance from a coherent stage keeps, holds in every state
reached. -/
theorem ReachableBy.invariant (hmicro : ∀ al s s', Permitted env ok al → Micro env al s s' → Coherent s → P s → P s')
    (h : ReachableBy env cfg ok e) : Coherent ⟨e, ∅⟩ ∧ P ⟨e, ∅⟩ := by
  induction h with
  | new pump resolver => exact ⟨newEngine_coherent, hnew pump resolver⟩
  | start hprev hstart ih =>
    obtain ⟨hcfg, hnot, hsteps⟩ := start_eq hstart
    exact hsteps.keeps (fun s s' => hmicro _ s s' (.inl rfl)) (ih.1.congr rfl rfl) (hopen _ ih.2 hcfg hnot)
  | @step e ev hprev hstarted hok ih =>
    exact step_invariant hlim hrec ev
      (fun s s' => hmicro _ s s' (.inr ⟨e, ev, hok, rfl⟩)) ih.1 ih.2

theorem Reachable.invariant (hmicro : ∀ al s s', Micro env al s s' → Coherent s → P s → P s') (h : Reachable env cfg e) : P ⟨e, ∅⟩ :=
  (ReachableBy.invariant hnew hopen hlim hrec (fun al s s' _ => hmicro al s s') h).2

end Invariant

theorem ReachableBy.coherent (h : ReachableBy env cfg ok e) : Coherent ⟨e, ∅⟩ :=
  (ReachableBy.invariant (P := fun _ => True) (fun _ _ => trivial) (fun _ _ _ _ => trivial)
    (fun _ _ _ _ => trivial) (fun _ _ _ => trivial) (fun _ _ _ _ _ _ _ => trivial) h).1

theorem Engine.step_onward (h : Coherent ⟨e, ∅⟩) (ev : Event) : Onward e (e.step env ev) := by
  rcases step_cases env h ev with hsteps | ⟨owner, limits, -, heq⟩ | ⟨ch, -, heq⟩
  · exact hsteps.onward
  · rw [heq]
    exact ⟨Nat.le_succ _, id, rfl, rfl⟩
  · rw [heq]
    exact ⟨le_rfl, id, rfl, rfl⟩

theorem ReachableBy.run {events : List Event} {ok : Event → Prop} (h : ReachableBy env cfg (fun _ => ok) e) (hstarted : e.runStarted = true)
    (hok : ∀ ev ∈ events, ok ev) : ReachableBy env cfg (fun _ => ok) (e.run env events) := by
  induction events generalizing e with
  | nil => exact h
  | cons ev events ih =>
    refine ih (.step ev h hstarted (hok ev (by simp))) ?_ fun x hx => hok x (mem_cons_of_mem _ hx)
    exact (step_onward h.coherent ev).runStarted.trans hstarted

theorem Engine.start_runStarted (h : e.start env = some e') : e'.runStarted = true := by
  obtain ⟨-, -, hsteps⟩ := start_eq h
  exact hsteps.onward.runStarted

theorem ReachableBy.runStarted (h : ReachableBy env cfg ok e) (hnew : e.accepting = true ∨ e.drainDone = true) : e.runStarted = true := by
  cases h with
  | new => rcases hnew with hnew | hnew <;> cases hnew
  | start hprev hstart => exact start_runStarted hstart
  | step ev hprev hstarted => exact (step_onward hprev.coherent ev).runStarted.trans hstarted

theorem ReachableBy.valid (h : ReachableBy env cfg ok e) (hstarted : e.runStarted = true) : validateConfig cfg = none := by
  have hboth : (e.runStarted = false → e.configErr = validateConfig cfg) ∧
      (e.runStarted = true → validateConfig cfg = none) := by
    clear hstarted
    induction h with
    | new => exact ⟨fun _ => rfl, nofun⟩
    | start hprev hstart ih =>
      obtain ⟨hcfg, hnot, -⟩ := start_eq hstart
      have hvalid := (ih.1 hnot).symm.trans hcfg
      refine ⟨fun hx => ?_, fun _ => hvalid⟩
      rw [start_runStarted hstart] at hx
      cases hx
    | step ev hprev hstarted hok ih =>
      refine ⟨fun hx => ?_, fun _ => ih.2 hstarted⟩
      rw [(step_onward hprev.coherent ev).runStarted, hstarted] at hx
      cases hx
  exact hboth.2 hstarted

/-- A new engine after `Start`. -/
def Engine.launch (env : Env) (cfg : Config) : Engine := ((newEngine cfg).start env).getD (newEngine cfg)

theorem Engine.start_launch (h : validateConfig cfg = none) : (newEngine cfg).start env = some (Engine.launch env cfg) := by
  have hcfg : (newEngine cfg).configErr = none := h
  have hnot : (newEngine cfg).runStarted = false := rfl
  unfold Engine.launch Engine.start
  rw [if_neg (by simp [hcfg, hnot])]
  rfl

theorem Engine.launch_runStarted (h : validateConfig cfg = none) : (Engine.launch env cfg).runStarted = true :=
  start_runStarted (start_launch h)

theorem ReachableBy.launch (env : Env) (h : validateConfig cfg = none) : ReachableBy env cfg ok (Engine.launch env cfg) :=
  .start (.new none false) (start_launch h)

end Goultroid
