import Goultroid.Engine.SettlementSteps

/-!
# Dispatch in steps

Every function of `Engine/Dispatch` is a sequence of `Micro` steps. A selection of the controller
always finds a queued record, so the branch of the dispatch loop that drops a stale candidate is
never taken.

A round of a loop is a few steps, followed by the rest of the loop. `Advances` composes them and
carries along that no record past its queue is touched, which the caller needs in order to go on
with the record that it has in hand.
-/

namespace Goultroid

open Admission (Controller)

namespace Engine

variable {e e' : Engine} {env : Env} {pool : PoolID} {slot : Nat} {al : Allowance} {D : Finset TaskID} {now : Time} {cfg : PoolEngineConfig}

/-! ### Slots -/

theorem spawnWorker_pool (h : e.spawnWorker env pool slot = some e') : ∃ wp, e.pools.lookup pool = some wp := by
  cases hwp : e.pools.lookup pool with
  | none => simp [spawnWorker, hwp] at h
  | some wp => exact ⟨wp, rfl⟩

theorem spawn_advances (hal : al.spawn pool) (h : e.spawnWorker env pool slot = some e') : Advances env al D e (e'.pushIdle pool slot) := by
  obtain ⟨wp, hwp⟩ := spawnWorker_pool h
  refine .of_registry (Steps.one (.spawn hwp hal h)) ?_
  rw [spawn_pushIdle_eq hwp h]

theorem spawnNextWorker_advances (hal : al.spawn pool) : Advances env al D e (e.spawnNextWorker env pool).2 := by
  unfold spawnNextWorker
  split
  · exact .refl e
  · split_ifs
    · exact .refl e
    · split
      · exact .refl e
      · split
        · exact .refl e
        · exact spawn_advances hal ‹_›

theorem retireWorker_false (h : e.retireWorker pool slot = (false, e')) : e' = e := by
  unfold retireWorker at h
  split at h
  · exact (Prod.mk.inj h).2.symm
  · split_ifs at h
    · exact (Prod.mk.inj h).2.symm
    · split at h
      · exact (Prod.mk.inj h).2.symm
      · cases (Prod.mk.inj h).1

theorem retireExcessLoop_advances (fuel : Nat) (e : Engine) : Advances env al D e (retireExcessLoop pool fuel e) := by
  induction fuel generalizing e with
  | zero => exact .refl e
  | succ fuel ih =>
    unfold retireExcessLoop
    split
    · exact .refl e
    · split
      · exact .refl e
      · split_ifs
        · split
          · rename_i heq
            rw [retireWorker_false heq]
            exact .refl e
          · rename_i e' heq
            refine (Advances.of_registry (Steps.one (.retire heq)) ?_).trans (ih e')
            obtain ⟨wp, -, -, rfl⟩ := retireWorker_eq heq
            rfl
        · exact .refl e

theorem retireExcessWorkers_advances (e : Engine) (pool : PoolID) : Advances env al D e (e.retireExcessWorkers pool) :=
  retireExcessLoop_advances _ e

theorem sweepIdleLoop_steps (pool : PoolID) (minWorkers : Int) (idleTimeout : Duration) (i : Nat) (running : Int) (e : Engine) :
    Steps env al ⟨e, D⟩ ⟨sweepIdleLoop now pool minWorkers idleTimeout i running e, D⟩ := by
  induction i generalizing running e with
  | zero => exact Steps.refl _
  | succ i ih =>
    unfold sweepIdleLoop
    split_ifs
    · exact Steps.refl _
    · split
      · exact Steps.refl _
      · split
        · exact Steps.refl _
        · dsimp only
          split_ifs
          · split
            · rename_i heq
              rw [retireWorker_false heq]
              exact ih _ _
            · exact (Steps.one (.retire ‹_›)).trans (ih _ _)
          · exact ih _ _

theorem sweepIdlePool_steps : Steps env al ⟨e, D⟩ ⟨sweepIdlePool now e pool, D⟩ := by
  unfold sweepIdlePool
  split
  · exact Steps.refl _
  · exact sweepIdleLoop_steps _ _ _ _ _ _

theorem sweepIdleWorkers_steps : Steps env al ⟨e, D⟩ ⟨e.sweepIdleWorkers env now, D⟩ := by
  have hfold : ∀ (l : List PoolID) (e : Engine),
      Steps env al ⟨e, D⟩ ⟨l.foldl (sweepIdlePool now) e, D⟩ := by
    intro l
    induction l with
    | nil => intro e; exact Steps.refl _
    | cons _ l ih => intro e; exact sweepIdlePool_steps.trans (ih _)
  exact (tick_steps e D).trans (hfold _ _)

/-! ### Dispatch -/

/-- A selected candidate is a queued record, which the head of the idle list takes. -/
theorem assign_advances {wp : WorkerPool} {idle : List Nat} {candidate : Admission.QueueEntry} (h : Coherent ⟨e, D⟩) {tick : Nat}
    {adm : Controller}
    (hwp : e.pools.lookup pool = some wp) (hidle : wp.idleSlots = slot :: idle)
    (hpick : Picks env e tick pool candidate adm) :
    ∃ r, e.registry.lookup candidate.spec.id = some r ∧ r.state = .queued ∧
      Advances env al D e
        (Engine.assign { e with adm := adm, obs := tick } pool wp slot idle r candidate) := by
  have hmem : candidate ∈ e.adm.waiting := by simp [hpick.took.waiting]
  obtain ⟨r, hr, hstate, hD, hentry⟩ := h.of_waiting hmem
  refine ⟨r, hr, hstate, Steps.one (.assign adm hwp hidle hpick hr hstate hD hentry), ?_⟩
  intro id x hx hq _
  show (e.registry.insert candidate.spec.id _).lookup id = some x
  rw [AList.lookup_insert_ne]
  · exact hx
  · rintro rfl
    rw [hr] at hx
    cases hx
    exact hq hstate

theorem dispatchLoop_advances {fuel : Nat} (h : Coherent ⟨e, D⟩) : Advances env al D e (dispatchLoop env pool fuel e) := by
  induction fuel generalizing e with
  | zero => exact .refl e
  | succ fuel ih =>
    unfold dispatchLoop
    cases hwp : e.pools.lookup pool with
    | none => exact .refl e
    | some wp =>
      dsimp only
      cases hidle : wp.idleSlots with
      | nil => exact .refl e
      | cons =>
        have hspec := Controller.selectCandidateEligible_spec h.adm pool env.clock e.resourcesAvailable e.obs
        set selection := e.adm.selectCandidateEligible pool env.clock e.resourcesAvailable e.obs
        cases hc : selection.candidate with
        | none =>
          obtain ⟨hwf, hwait, hframe, -⟩ := hspec.none hc
          have hreg : Micro env al ⟨e, D⟩ ⟨{ e with adm := selection.controller }, D⟩ :=
            .regroup _ ⟨hwf, hwait, hframe⟩
          exact .of_registry ((Steps.one hreg).tail (.observe selection.tick hspec.tick)) rfl
        | some candidate =>
          obtain ⟨htook, hpool, hfree, hready⟩ := hspec.some candidate hc
          obtain ⟨r, hr, hstate, hassigned⟩ := assign_advances h hwp hidle ⟨htook, hpool, hfree, hready⟩
          dsimp only
          rw [hr]
          dsimp only
          rw [if_pos hstate]
          exact hassigned.trans (ih (hassigned.steps.coherent h))

theorem spawnIfStarved_advances (hal : al.spawn pool) : Advances env al D e (e.spawnIfStarved env pool) := by
  unfold spawnIfStarved
  split_ifs
  · exact spawnNextWorker_advances hal
  · exact .refl e

theorem tryDispatch_advances (h : Ready env al ⟨e, D⟩) (hal : al.spawn pool) : Advances env al D e (e.tryDispatch env pool) := by
  unfold tryDispatch
  split_ifs
  · exact .refl e
  · have htick : Advances env al D e e.tick := .of_registry (tick_steps e D) rfl
    have hsweep := htick.trans (sweepExpired_advances (htick.ready h).coherent pool (h.expires e.obs le_rfl))
    have hspawn := hsweep.trans (spawnIfStarved_advances hal)
    exact hspawn.trans ((dispatchLoop_advances (hspawn.ready h).coherent).trans
      (spawnIfStarved_advances hal))

theorem tryDispatchAll_advances (h : Ready env al ⟨e, D⟩) (hal : ∀ pool, al.spawn pool) : Advances env al D e (e.tryDispatchAll env) := by
  have htick : Advances env al D e e.tick := .of_registry (tick_steps e D) rfl
  exact htick.trans (.foldl 0 (fun e pool _ he => tryDispatch_advances he (hal pool)) _ (Nat.zero_le _) (htick.ready h))

theorem markWorkerIdle_advances {slotID : Int} (h : Ready env al ⟨e, D⟩) (hidle : al.idle pool slotID.toNat) (hal : ∀ pool, al.spawn pool) :
    Advances env al D e (e.markWorkerIdle env pool slotID) := by
  unfold markWorkerIdle
  cases hwp : e.pools.lookup pool with
  | none => exact .refl e
  | some wp =>
    dsimp only
    split_ifs with hrun hin
    · exact .refl e
    · exact .of_registry ((tick_steps e D).tail (.touch _ hwp)) rfl
    · push Not at hrun
      have hmark : Advances env al D e (e.tick.setPool pool { wp with
          idleSince := wp.idleSince.set slotID.toNat (env.clock e.obs)
          idleSlots := wp.idleSlots ++ [slotID.toNat] }) :=
        .of_registry ((tick_steps e D).tail (.markIdle _ hwp hrun.2 hin hidle)) rfl
      have hretire := hmark.trans (retireExcessWorkers_advances _ pool)
      exact hretire.trans (tryDispatchAll_advances (hretire.ready h) hal)

/-! ### Live reconfiguration -/

theorem spawnMinimum_steps {minimum : Int} (hal : al.spawn pool) (fuel : Nat) (e : Engine) :
    Steps env al ⟨e, D⟩ ⟨spawnMinimum env pool minimum fuel e, D⟩ := by
  induction fuel generalizing e with
  | zero => exact Steps.refl _
  | succ fuel ih =>
    unfold spawnMinimum
    split
    · exact Steps.refl _
    · split_ifs
      · have hspawn : Steps env al ⟨e, D⟩ ⟨(e.spawnNextWorker env pool).2, D⟩ :=
          (spawnNextWorker_advances hal).steps
        split
        · rwa [‹e.spawnNextWorker env pool = _›] at hspawn
        · rw [‹e.spawnNextWorker env pool = _›] at hspawn
          exact hspawn.trans (ih _)
      · exact Steps.refl _

theorem effectivePoolMinimum_bounds {concurrency : Int} (hpos : 0 < concurrency) (hle : cfg.minConcurrency ≤ concurrency) :
    0 ≤ effectivePoolMinimum cfg concurrency ∧ effectivePoolMinimum cfg concurrency ≤ concurrency := by
  unfold effectivePoolMinimum
  split_ifs <;> omega

theorem applyPoolConfig_steps (h : Coherent ⟨e, D⟩) (hal : al.spawn pool) :
    Steps env al ⟨e, D⟩ ⟨(e.applyPoolConfig env pool cfg).1, D⟩ := by
  unfold applyPoolConfig
  cases hwp : e.pools.lookup pool with
  | none => exact Steps.refl _
  | some =>
    dsimp only
    split
    · exact Steps.refl _
    split
    · exact Steps.refl _
    rename_i hbounds
    push Not at hbounds
    obtain ⟨hpos, hle, -, hminle⟩ := hbounds
    split
    · exact Steps.refl _
    split
    · exact Steps.refl _
    split
    · exact Steps.refl _
    split
    · exact Steps.refl _
    · rename_i adm hadm
      obtain ⟨hwf, hwait, hframe⟩ := Controller.setPoolConfig_wf h.adm hadm
      have hreg : Micro env al ⟨e, D⟩ ⟨{ e with adm := adm }, D⟩ := .regroup _ ⟨hwf, hwait, hframe⟩
      obtain ⟨hlow, hhigh⟩ := effectivePoolMinimum_bounds hpos hminle
      exact ((((Steps.one hreg).tail
        (.configure _ cfg.concurrency _ _ hwp hpos hle hlow hhigh)).trans
        (retireExcessWorkers_advances _ pool).steps).trans
        ((tick_steps _ D).trans sweepIdleWorkers_steps)).trans (spawnMinimum_steps hal _ _)

theorem applyResourceCapacity_steps {name : GoString} {capacity : Int64} (h : Ready env al ⟨e, D⟩)
    (hal : al.resize name capacity) (hspawn : ∀ pool, al.spawn pool) :
    Steps env al ⟨e, D⟩ ⟨(e.applyResourceCapacity env name capacity).1, D⟩ := by
  unfold applyResourceCapacity
  dsimp only
  split_ifs with hvalid hused
  · exact Steps.refl _
  · exact Steps.refl _
  · have hpos : 0 < capacity := Int64.not_le.mp fun hle => hvalid (.inr hle)
    have hset : Steps env al ⟨e, D⟩
        ⟨{ e with resourceCapacity := e.resourceCapacity.insert name capacity }, D⟩ :=
      Steps.one (.capacity name capacity hal hpos (Int64.not_lt.mp hused))
    exact hset.trans (tryDispatchAll_advances (hset.ready h) hspawn).steps

end Engine

end Goultroid
