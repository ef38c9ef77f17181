import Goultroid.Engine.QueueRegistry

/-!
# The work in flight

`inFlight` is the bag of specs that are dispatching or running. `FlightChange` says what a step does
to it and to the state that is charged for it: the ordering locks, the owner limits and the resources.

The bag is a `total` over the registry. Most steps leave it alone, because the record that they store
is in flight before and after or at neither time. `Micro.flightChange` goes through the steps once,
and the results on locks, quotas and resources look at the change only.
-/

namespace Goultroid

open Multiset AList
open Admission (Controller QueueEntry)

variable {s : Stage} {D D' : Finset TaskID} {r : TaskRecord}

def flightBag (D : Finset TaskID) (id : TaskID) (r : TaskRecord) : Multiset WorkSpec :=
  if activeAt D id r = true then {r.spec} else 0

/-- The specs of the dispatching and running records. -/
def inFlight (s : Stage) : Multiset WorkSpec := AList.total (flightBag s.detached) s.engine.registry

section Bag

variable {id : TaskID}

theorem flightBag_congr (h : id ∈ D' ↔ id ∈ D) : flightBag D' id r = flightBag D id r := by
  rw [flightBag, flightBag, activeAt, activeAt, place_congr h]

theorem flightBag_of_state (h : r.state.isActive = false) : flightBag D id r = 0 := by
  rw [flightBag, if_neg]
  by_cases hD : id ∈ D
  · rw [activeAt_of_mem hD]
    decide
  · rw [activeAt_of_notMem hD, h]
    decide

theorem flightBag_of_mem (h : id ∈ D) : flightBag D id r = 0 := by
  rw [flightBag, activeAt_of_mem h, if_neg (by decide)]

theorem flightBag_of_active (h : r.state.isActive = true) (hD : id ∉ D) : flightBag D id r = {r.spec} := by
  rw [flightBag, activeAt_of_notMem hD, h, if_pos rfl]

end Bag

theorem mem_inFlight {spec : WorkSpec} (h : Coherent s) :
    spec ∈ inFlight s ↔ ∃ r, s.engine.registry.lookup spec.id = some r ∧ r.state.isActive = true ∧
      spec.id ∉ s.detached ∧ r.spec = spec := by
  rw [inFlight, mem_total]
  constructor
  · rintro ⟨id, r, hr, hmem⟩
    have hid := h.key hr
    by_cases hD : id ∈ s.detached
    · rw [flightBag_of_mem hD] at hmem
      cases hmem
    · cases hact : r.state.isActive with
      | false =>
        rw [flightBag_of_state hact] at hmem
        cases hmem
      | true =>
        rw [flightBag_of_active hact hD, mem_singleton] at hmem
        subst hmem hid
        exact ⟨r, hr, hact, hD, rfl⟩
  · rintro ⟨r, hr, hact, hD, rfl⟩
    refine ⟨r.spec.id, r, hr, ?_⟩
    rw [flightBag_of_active hact hD]
    exact mem_singleton_self _

/-! ### What a step does to it -/

/-- The state that the work in flight is charged to stays. -/
structure SameCharge (e e' : Engine) : Prop where
  locks : e'.adm.orderingLocks = e.adm.orderingLocks
  limits : e'.adm.ownerLimits = e.adm.ownerLimits
  used : e'.resourceUsed = e.resourceUsed

inductive FlightChange (env : Env) (al : Allowance) (s s' : Stage) : Prop where
  | same (hflight : inFlight s' = inFlight s) (hcharge : SameCharge s.engine s'.engine)
    (hcapacity : s'.engine.resourceCapacity = s.engine.resourceCapacity)
  | capacity (name : GoString) (capacity : Int64) (hal : al.resize name capacity) (hpos : 0 < capacity)
    (hle : s.engine.resourceUsed.getD name 0 ≤ capacity) (hflight : inFlight s' = inFlight s)
    (hcharge : SameCharge s.engine s'.engine)
    (hcapacity : s'.engine.resourceCapacity = s.engine.resourceCapacity.insert name capacity)
  | assign (pool : PoolID) (candidate : QueueEntry) (tick : Nat)
    (hpick : Picks env s.engine tick pool candidate s'.engine.adm)
    (hflight : inFlight s' = candidate.spec ::ₘ inFlight s)
    (hnew : ∀ spec ∈ inFlight s, spec.id ≠ candidate.spec.id)
    (hused : s'.engine.resourceUsed = candidate.spec.resources.foldl Engine.reserveOne s.engine.resourceUsed)
    (hcapacity : s'.engine.resourceCapacity = s.engine.resourceCapacity)
  | release (spec : WorkSpec) (hflight : inFlight s = spec ::ₘ inFlight s')
    (hadm : s'.engine.adm = s.engine.adm.onTaskTerminal spec)
    (hused : s'.engine.resourceUsed = spec.resources.foldl Engine.releaseOne s.engine.resourceUsed)
    (hcapacity : s'.engine.resourceCapacity = s.engine.resourceCapacity)

section Change

variable {id : TaskID} {e e' : Engine} {r' : TaskRecord}

theorem inFlight_insert (hr : e.registry.lookup id = some r) (hreg : e'.registry = e.registry.insert id r')
    (hD : ∀ id', id' ≠ id → (id' ∈ D' ↔ id' ∈ D)) : inFlight ⟨e', D'⟩ + flightBag D id r = inFlight ⟨e, D⟩ + flightBag D' id r' := by
  have htotal := total_insert_change (f := flightBag D) (g := flightBag D') (v := r') hr
    fun id' x hne _ => flightBag_congr (hD id' hne)
  rw [inFlight, inFlight, hreg]
  exact htotal

theorem inFlight_insert_same (hr : e.registry.lookup id = some r)
    (hreg : e'.registry = e.registry.insert id r') (hD : ∀ id', id' ≠ id → (id' ∈ D' ↔ id' ∈ D))
    (hbag : flightBag D' id r' = flightBag D id r) : inFlight ⟨e', D'⟩ = inFlight ⟨e, D⟩ := by
  have hinsert := inFlight_insert hr hreg hD
  rw [hbag] at hinsert
  exact add_right_cancel hinsert

theorem inFlight_detach (hr : e.registry.lookup id = some r) (hreg : e'.registry = e.registry) :
    inFlight ⟨e', insert id D⟩ + flightBag D id r = inFlight ⟨e, D⟩ := by
  have htotal := total_shift (f := flightBag D) (g := flightBag (insert id D)) (m := e.registry) (fun _ _ => rfl)
    fun id' x hne _ => flightBag_congr (Coherent.mem_insert_iff_of_ne hne)
  rw [valueAt_of_some hr, valueAt_of_some hr, flightBag_of_mem (Finset.mem_insert_self id D), add_zero] at htotal
  rw [inFlight, inFlight, hreg]
  exact htotal

theorem isActive_queued {state : TaskState} (h : state = .queued) : state.isActive = false := by
  rw [h]
  rfl

end Change

theorem Micro.flightChange {env : Env} {al : Allowance} {s' : Stage} (step : Micro env al s s') (h : Coherent s) :
    FlightChange env al s s' := by
  cases step with
  | observe | reserve | scopes | quiesce | drain | await | touch | configure | markIdle =>
    exact .same rfl ⟨rfl, rfl, rfl⟩ rfl
  | regroup adm hadm => exact .same rfl ⟨hadm.frame.locks, hadm.frame.limits, rfl⟩ rfl
  | capacity name capacity hal hpos hle => exact .capacity name capacity hal hpos hle rfl ⟨rfl, rfl, rfl⟩ rfl
  | @publish e D spec reserved now hal hadmissible =>
    obtain ⟨ps, hps⟩ := hadmissible.pool
    obtain ⟨-, -, hframe⟩ := Controller.enqueue_wf h.adm ⟨spec, now, admissionBytes spec⟩ hps (h.fresh_waiting hadmissible)
    refine .same ?_ ⟨hframe.locks, hframe.limits, rfl⟩ rfl
    show AList.total (flightBag D) (e.registry.insert spec.id _) = AList.total (flightBag D) e.registry
    rw [total_insert_fresh (f := flightBag D) hadmissible.fresh fun _ _ _ _ => rfl,
      flightBag_of_state rfl, add_zero]
  | @unqueue e D id r adm hr hstate hD hleave hwf hwait hframe =>
    have hdetach := inFlight_detach (D := D) hr (show ({ e with adm := adm }).registry = e.registry from rfl)
    rw [flightBag_of_state (isActive_queued hstate), add_zero] at hdetach
    exact .same hdetach ⟨hframe.locks, hframe.limits, rfl⟩ rfl
  | @assign e D wp slot tick idle r pool candidate adm hwp hidle hpick hr hstate hD hentry =>
    subst hentry
    set e' := Engine.assign { e with adm := adm } pool wp slot idle r (entryOf r) with he'
    have hinsert := inFlight_insert (D := D) hr (show e'.registry = e.registry.insert _ _ from rfl)
      fun _ _ => Iff.rfl
    rw [flightBag_of_state (isActive_queued hstate), flightBag_of_active rfl hD, add_zero, add_comm,
      singleton_add] at hinsert
    refine .assign pool (entryOf r) tick hpick hinsert (fun spec hspec heq => ?_) rfl rfl
    obtain ⟨x, hx, hact, -, -⟩ := (mem_inFlight h).mp hspec
    rw [heq, hr] at hx
    cases hx
    rw [isActive_queued hstate] at hact
    cases hact
  | @started e D id r startedAt hr hstate hD =>
    refine .same (inFlight_insert_same hr rfl (fun _ _ => Iff.rfl) ?_) ⟨rfl, rfl, rfl⟩ rfl
    rw [flightBag_of_active rfl hD, flightBag_of_active (by rw [hstate]; rfl) hD]
  | markCancel _ hr =>
    exact .same (inFlight_insert_same hr rfl (fun _ _ => Iff.rfl) rfl) ⟨rfl, rfl, rfl⟩ rfl
  | @release e D id r hr hact hD hal =>
    have hdetach := inFlight_detach (D := D) hr (show (e.releaseAttempt r.spec).registry = e.registry from rfl)
    rw [flightBag_of_active hact hD, add_comm, singleton_add] at hdetach
    exact .release r.spec hdetach.symm rfl rfl rfl
  | @unpend e D id r hr hstate hD =>
    have hdetach := inFlight_detach (D := D) hr (show (e.unpend r.commitSeq).registry = e.registry from rfl)
    rw [flightBag_of_state (by rw [hstate]; rfl), add_zero] at hdetach
    exact .same hdetach ⟨rfl, rfl, rfl⟩ rfl
  | @settle e D id r rec delta hr hD hrec =>
    have hreg := h.registry_settleRecord env hr hrec
    refine .same (inFlight_insert_same hr hreg (fun _ => Coherent.mem_erase_iff_of_ne) ?_)
      ⟨rfl, rfl, rfl⟩ rfl
    rw [flightBag_of_mem hD]
    exact flightBag_of_state (isActive_of_isTerminal hrec.terminal)
  | @pend e D id r rec delta hr hD hact hrec =>
    have hreg := h.registry_pendRecord hr hrec
    refine .same (inFlight_insert_same hr hreg (fun _ => Coherent.mem_erase_iff_of_ne) ?_)
      ⟨rfl, rfl, rfl⟩ rfl
    rw [flightBag_of_mem hD, flightBag_of_state (by rw [hrec.state]; rfl)]
  | @evict e D oldest rest hlist =>
    rcases e.evictOldest_cases oldest rest with ⟨r, hr, hterm, heq⟩ | ⟨-, heq⟩
    · rw [heq]
      refine .same ?_ ⟨rfl, rfl, rfl⟩ rfl
      have htotal := total_erase_change (f := flightBag D) (g := flightBag D) hr fun _ _ _ _ => rfl
      rwa [flightBag_of_state (isActive_of_isTerminal hterm), add_zero] at htotal
    · rw [heq]
      exact .same rfl ⟨rfl, rfl, rfl⟩ rfl
  | spawn hwp hal hspawn =>
    rw [Engine.spawn_pushIdle_eq hwp hspawn]
    exact .same rfl ⟨rfl, rfl, rfl⟩ rfl
  | retire hretire =>
    obtain ⟨wp, -, -, rfl⟩ := Engine.retireWorker_eq hretire
    exact .same rfl ⟨rfl, rfl, rfl⟩ rfl

/-! ### Counting by owner -/

def ownerLoad (s : Stage) (owner : OwnerID) : Nat := (inFlight s).countP (·.quotaOwner = owner)

theorem Coherent.active_eq_ownerLoad (h : Coherent s) (owner : OwnerID) :
    s.engine.adm.ownerActiveCount.getD owner 0 = ownerLoad s owner := by
  have hmap := map_total
    ((Nat.castAddMonoidHom ℤ).comp (Multiset.countPAddMonoidHom fun spec : WorkSpec => spec.quotaOwner = owner))
    (flightBag s.detached) s.engine.registry
  rw [h.active]
  refine (total_congr fun id r _ => ?_).trans hmap.symm
  have hone : Multiset.countP (fun spec : WorkSpec => spec.quotaOwner = owner) {r.spec} =
      if r.spec.quotaOwner = owner then 1 else 0 := by
    rw [← cons_zero, countP_cons, countP_zero, zero_add]
  simp only [activeOf, flightBag]
  by_cases hact : activeAt s.detached id r = true
  · simp [hact, hone]
  · simp [hact]

end Goultroid
