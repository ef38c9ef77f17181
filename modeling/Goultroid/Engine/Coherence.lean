import Goultroid.Engine.Micro

/-!
# Queues and registry agree

`Coherent`: the entries waiting in the controller are the queued records of the registry, and an
owner's active count is its number of dispatching and running records, at every stage of every
request, when detached records are left out. Every `Micro` step keeps it.

Both sides are sums over the registry: `queuedBag` and `activeOf` say what one record adds to the
waiting entries and to the active count of an owner. A step concerns one record, so it is enough to
compare what this record adds before and after with what the step does to the controller
(`Coherent.shift`). A detached record adds nothing, which lets a record leave its queue in one step
and be stored in another. `Steps.keeps` is the rule for everything else that is proved over `Micro`
steps.
-/

namespace Goultroid

open Multiset AList
open Admission (Controller QueueEntry)

variable {id : TaskID} {r : TaskRecord} {D D' : Finset TaskID} {state : TaskState} {s s' : Stage} {o : OwnerID} {env : Env} {al : Allowance}

/-! ### Records by place -/

def queuedBag (D : Finset TaskID) (id : TaskID) (r : TaskRecord) : Multiset QueueEntry :=
  if place D id r = some .queued then {entryOf r} else 0

/-- The record is dispatching or running, and not detached. -/
def activeAt (D : Finset TaskID) (id : TaskID) (r : TaskRecord) : Bool :=
  (place D id r).any TaskState.isActive

/-- What a record adds to the active count of `owner`. -/
def activeOf (owner : OwnerID) (D : Finset TaskID) (id : TaskID) (r : TaskRecord) : ℤ :=
  if activeAt D id r = true ∧ r.spec.quotaOwner = owner then 1 else 0

theorem queuedBag_congr (h : id ∈ D' ↔ id ∈ D) : queuedBag D' id r = queuedBag D id r := by
  rw [queuedBag, queuedBag, place_congr h]

theorem activeOf_congr (h : id ∈ D' ↔ id ∈ D) : activeOf o D' id r = activeOf o D id r := by
  rw [activeOf, activeOf, activeAt, activeAt, place_congr h]

theorem activeAt_of_notMem (h : id ∉ D) : activeAt D id r = r.state.isActive := by
  rw [activeAt, place_of_notMem h]
  rfl

theorem activeAt_of_mem (h : id ∈ D) : activeAt D id r = false := by
  rw [activeAt, place_of_mem h]
  rfl

theorem queuedBag_of_state (h : r.state ≠ .queued) : queuedBag D id r = 0 := by
  rw [queuedBag, if_neg]
  rw [place]
  split_ifs
  · simp
  · simpa using h

theorem queuedBag_of_queued (h : r.state = .queued) (hD : id ∉ D) : queuedBag D id r = {entryOf r} := by
  rw [queuedBag, place_of_notMem hD, h, if_pos rfl]

theorem queuedBag_of_mem (h : id ∈ D) : queuedBag D id r = 0 := by
  rw [queuedBag, place_of_mem h, if_neg (by simp)]

theorem activeOf_of_state (h : r.state.isActive = false) : activeOf o D id r = 0 := by
  rw [activeOf, if_neg]
  rintro ⟨hx, -⟩
  by_cases hD : id ∈ D
  · rw [activeAt_of_mem hD] at hx
    cases hx
  · rw [activeAt_of_notMem hD, h] at hx
    cases hx

theorem activeOf_of_mem (h : id ∈ D) : activeOf o D id r = 0 := by
  rw [activeOf, activeAt_of_mem h, if_neg (by simp)]

theorem activeOf_of_active (h : r.state.isActive = true) (hD : id ∉ D) : activeOf o D id r = if o = r.spec.quotaOwner then 1 else 0 := by
  rw [activeOf, activeAt_of_notMem hD, h]
  simp [eq_comm]

/-- Queues and registry agree, up to the detached records. -/
structure Coherent (s : Stage) : Prop where
  key : ∀ {id r}, s.engine.registry.lookup id = some r → r.spec.id = id
  past : ∀ {id r}, s.engine.registry.lookup id = some r → r.state ≠ .created ∧ r.state ≠ .admitted
  detached : ∀ {id}, id ∈ s.detached →
    ∃ r, s.engine.registry.lookup id = some r ∧ r.isTerminal = false
  adm : s.engine.adm.Wf 0
  queue : s.engine.adm.waiting = AList.total (queuedBag s.detached) s.engine.registry
  active : ∀ owner, s.engine.adm.ownerActiveCount.getD owner 0 =
    AList.total (activeOf owner s.detached) s.engine.registry

namespace Coherent

variable {e e' : Engine} {id' : TaskID} {spec : WorkSpec}

section

variable (h : Coherent ⟨e, D⟩)
include h

theorem congr (hreg : e'.registry = e.registry) (hadm : e'.adm = e.adm) : Coherent ⟨e', D⟩ := by
  refine ⟨?_, ?_, ?_, ?_, ?_, ?_⟩ <;> simp only [hreg, hadm]
  · exact h.key
  · exact h.past
  · exact h.detached
  · exact h.adm
  · exact h.queue
  · exact h.active

theorem regroup {adm : Controller} (hadm : SameContent e.adm adm) :
    Coherent ⟨{ e with adm := adm }, D⟩ :=
  ⟨h.key, h.past, h.detached, hadm.wf, hadm.waiting.trans h.queue,
    fun o => (hadm.frame.active o).trans (h.active o)⟩

/-- A waiting entry is the entry of a queued record. -/
theorem of_waiting {entry : QueueEntry} (hmem : entry ∈ e.adm.waiting) :
    ∃ r, e.registry.lookup entry.spec.id = some r ∧ r.state = .queued ∧ entry.spec.id ∉ D ∧ entryOf r = entry := by
  rw [h.queue] at hmem
  obtain ⟨id, r, hr, hin⟩ := mem_total.mp hmem
  have hq : place D id r = some .queued ∧ entry = entryOf r := by
    rw [queuedBag] at hin
    split_ifs at hin with hp
    · exact ⟨hp, mem_singleton.mp hin⟩
    · cases hin
  have hid : entry.spec.id = id := by rw [hq.2]; exact h.key hr
  have hD : id ∉ D := by
    intro hD
    rw [place_of_mem hD] at hq
    cases hq.1
  have hstate : r.state = .queued := by
    rw [place_of_notMem hD] at hq
    exact Option.some.inj hq.1
  exact ⟨r, hid ▸ hr, hstate, hid ▸ hD, hq.2.symm⟩

theorem waiting_of (hr : e.registry.lookup id = some r) (hstate : r.state = .queued) (hD : id ∉ D) : entryOf r ∈ e.adm.waiting := by
  rw [h.queue]
  refine mem_total.mpr ⟨id, r, hr, ?_⟩
  rw [queuedBag, place_of_notMem hD, hstate]
  exact mem_singleton_self _

theorem active_pos (hr : e.registry.lookup id = some r) (hact : r.state.isActive = true) (hD : id ∉ D) :
    0 < e.adm.ownerActiveCount.getD r.spec.quotaOwner 0 := by
  rw [h.active]
  have hone : activeOf r.spec.quotaOwner D id r = 1 :=
    if_pos ⟨(activeAt_of_notMem hD).trans hact, rfl⟩
  have hle := le_total (f := activeOf r.spec.quotaOwner D) (fun id' r' _ => by
    rw [activeOf]; split_ifs <;> decide) hr
  rw [hone] at hle
  exact hle

/-- A step that concerns one record only. -/
theorem shift (hreg : ∀ id', id' ≠ id → e'.registry.lookup id' = e.registry.lookup id') (hD : ∀ id', id' ≠ id → (id' ∈ D' ↔ id' ∈ D))
    (hnew : ∀ x, e'.registry.lookup id = some x → x.spec.id = id ∧ x.state ≠ .created ∧ x.state ≠ .admitted)
    (hdetached : id ∈ D' → ∃ x, e'.registry.lookup id = some x ∧ x.isTerminal = false) (hadm : e'.adm.Wf 0)
    (hqueue : e'.adm.waiting + valueAt (queuedBag D) e.registry id = e.adm.waiting + valueAt (queuedBag D') e'.registry id)
    (hactive : ∀ o, e'.adm.ownerActiveCount.getD o 0 + valueAt (activeOf o D) e.registry id =
      e.adm.ownerActiveCount.getD o 0 + valueAt (activeOf o D') e'.registry id) : Coherent ⟨e', D'⟩ := by
  refine ⟨fun {id' x} hx => ?_, fun {id' x} hx => ?_, fun {id'} hid => ?_, hadm, ?_, fun o => ?_⟩
  · rcases eq_or_ne id' id with rfl | hne
    · exact (hnew x hx).1
    · exact h.key ((hreg id' hne).symm.trans hx)
  · rcases eq_or_ne id' id with rfl | hne
    · exact (hnew x hx).2
    · exact h.past ((hreg id' hne).symm.trans hx)
  · rcases eq_or_ne id' id with rfl | hne
    · exact hdetached hid
    · rw [hreg id' hne]
      exact h.detached ((hD id' hne).mp hid)
  · have htotal := total_shift (g := queuedBag D') hreg fun id' _ hne _ => queuedBag_congr (hD id' hne)
    refine add_right_cancel (b := valueAt (queuedBag D) e.registry id) ?_
    rw [hqueue, htotal, h.queue]
  · have htotal := total_shift (g := activeOf o D') hreg fun id' _ hne _ => activeOf_congr (hD id' hne)
    refine add_right_cancel (b := valueAt (activeOf o D) e.registry id) ?_
    rw [hactive, htotal, h.active]

theorem change {r' : TaskRecord} (hr : e.registry.lookup id = some r) (hreg : e'.registry = e.registry.insert id r')
    (hD : ∀ id', id' ≠ id → (id' ∈ D' ↔ id' ∈ D)) (hkey : r'.spec.id = id) (hpast : r'.state ≠ .created ∧ r'.state ≠ .admitted)
    (hdetached : id ∈ D' → r'.isTerminal = false) (hadm : e'.adm.Wf 0)
    (hqueue : e'.adm.waiting + queuedBag D id r = e.adm.waiting + queuedBag D' id r')
    (hactive : ∀ o, e'.adm.ownerActiveCount.getD o 0 + activeOf o D id r =
      e.adm.ownerActiveCount.getD o 0 + activeOf o D' id r') : Coherent ⟨e', D'⟩ := by
  have hself : e'.registry.lookup id = some r' := by rw [hreg, lookup_insert]
  refine h.shift (fun id' hne => by rw [hreg, lookup_insert_ne hne]) hD (fun x hx => ?_)
    (fun hin => ⟨r', hself, hdetached hin⟩) hadm ?_ fun o => ?_
  · obtain rfl := Option.mem_unique hself hx
    exact ⟨hkey, hpast⟩
  · rw [valueAt_of_some hr, valueAt_of_some hself, hqueue]
  · rw [valueAt_of_some hr, valueAt_of_some hself, hactive]

end

/-! ### Steps -/

theorem mem_insert_iff_of_ne (h : id' ≠ id) : id' ∈ insert id D ↔ id' ∈ D := by
  simp [h]

theorem mem_erase_iff_of_ne (h : id' ≠ id) : id' ∈ D.erase id ↔ id' ∈ D := by
  simp [h]

section

variable (h : Coherent ⟨e, D⟩) {delta : Int}
include h

theorem live_of_detached (hr : e.registry.lookup id = some r) (hD : id ∈ D) : r.isTerminal = false := by
  obtain ⟨x, hx, hlive⟩ := h.detached hD
  obtain rfl := Option.mem_unique hx hr
  exact hlive

theorem id_of_spec {rec : TaskRecord} (hr : e.registry.lookup id = some r) (hspec : rec.spec = r.spec) : rec.spec.id = id :=
  (congrArg WorkSpec.id hspec).trans (h.key hr)

theorem registry_settleRecord (env : Env) {rec : TaskRecord} (hr : e.registry.lookup id = some r) (hrec : Concludes r rec delta) :
    (e.settleRecord env rec delta).registry = e.registry.insert id (Engine.closedRecord rec) := by
  rw [← h.id_of_spec hr hrec.spec]
  rfl

theorem registry_pendRecord {rec : TaskRecord} (hr : e.registry.lookup id = some r)
    (hrec : Awaits r rec delta) : (e.pendRecord rec delta).registry = e.registry.insert id rec := by
  rw [← h.id_of_spec hr hrec.spec]
  rfl

theorem detach (hr : e.registry.lookup id = some r) (hreg : e'.registry = e.registry) (hterm : r.isTerminal = false) (hadm : e'.adm.Wf 0)
    (hqueue : e'.adm.waiting + queuedBag D id r = e.adm.waiting) (hactive : ∀ o, e'.adm.ownerActiveCount.getD o 0 + activeOf o D id r =
      e.adm.ownerActiveCount.getD o 0) : Coherent ⟨e', insert id D⟩ := by
  have hself : e'.registry.lookup id = some r := by rw [hreg, hr]
  have hin := Finset.mem_insert_self id D
  refine h.shift (fun id' _ => by rw [hreg]) (fun _ => mem_insert_iff_of_ne) (fun x hx => ?_) (fun _ => ⟨r, hself, hterm⟩)
    hadm ?_ fun o => ?_
  · rw [hreg] at hx
    exact ⟨h.key hx, h.past hx⟩
  · rw [valueAt_of_some hr, valueAt_of_some hself, queuedBag_of_mem hin, hqueue, add_zero]
  · rw [valueAt_of_some hr, valueAt_of_some hself, activeOf_of_mem hin, hactive, add_zero]

end

theorem not_terminal_of_active (h : r.state.isActive = true) : r.isTerminal = false := by
  rw [TaskRecord.isTerminal]
  cases hs : r.state <;> simp_all [TaskState.isActive, TaskState.isTerminal]

theorem not_queued_of_active (h : r.state.isActive = true) : r.state ≠ .queued := by
  intro hq
  simp [hq, TaskState.isActive] at h

theorem fresh_waiting (h : Coherent ⟨e, D⟩) (hadmissible : Admissible e spec) : ∀ x ∈ e.adm.waiting, x.spec.id ≠ spec.id := by
  intro x hx hid
  obtain ⟨r, hr, -⟩ := h.of_waiting hx
  rw [hid, hadmissible.fresh] at hr
  cases hr

theorem publish (h : Coherent ⟨e, D⟩) (hadmissible : Admissible e spec) (reserved : Bool)
    (now : Time) : Coherent ⟨e.publish spec reserved now, D⟩ := by
  obtain ⟨ps, hps⟩ := hadmissible.pool
  have hD : spec.id ∉ D := by
    intro hD
    obtain ⟨r, hr, -⟩ := h.detached hD
    rw [hadmissible.fresh] at hr
    cases hr
  obtain ⟨hwf, hwait, hframe⟩ :=
    Controller.enqueue_wf h.adm ⟨spec, now, admissionBytes spec⟩ hps (h.fresh_waiting hadmissible)
  have hself : (e.publish spec reserved now).registry.lookup spec.id = some _ := lookup_insert e.registry
  refine h.shift (fun _ => lookup_insert_ne) (fun _ _ => Iff.rfl) (fun x hx => ?_) (fun hin => absurd hin hD) hwf ?_ fun o => ?_
  · obtain rfl := Option.mem_unique hself hx
    exact ⟨rfl, by simp⟩
  · rw [valueAt_of_none hadmissible.fresh, valueAt_of_some hself, queuedBag_of_queued rfl hD, add_zero, add_comm]
    exact hwait
  · rw [valueAt_of_none hadmissible.fresh, valueAt_of_some hself, activeOf_of_state rfl, add_zero, add_zero]
    exact hframe.active o

theorem evict (h : Coherent ⟨e, D⟩) (oldest : TaskID) (rest : List TaskID) : Coherent ⟨e.evictOldest oldest rest, D⟩ := by
  rcases e.evictOldest_cases oldest rest with ⟨r, hr, hterm, heq⟩ | ⟨-, heq⟩
  · have hD : oldest ∉ D := by
      intro hD
      obtain ⟨r', hr', hterm'⟩ := h.detached hD
      rw [show e.registry.lookup oldest = some r' from hr'] at hr
      cases hr
      rw [hterm] at hterm'
      cases hterm'
    have hq : r.state ≠ .queued := by
      intro hq
      simp [TaskRecord.isTerminal, hq, TaskState.isTerminal] at hterm
    have ha : r.state.isActive = false := by
      cases hs : r.state <;> simp_all [TaskRecord.isTerminal, TaskState.isTerminal, TaskState.isActive]
    have hself : (e.registry.erase oldest).lookup oldest = none := lookup_erase oldest e.registry
    rw [heq]
    refine h.shift (fun _ => lookup_erase_ne) (fun _ _ => Iff.rfl) (fun x hx => ?_) (fun hin => absurd hin hD) h.adm ?_ fun o => ?_
    · cases hself.symm.trans hx
    · rw [valueAt_of_some hr, valueAt_of_none hself, queuedBag_of_state hq]
      rfl
    · rw [valueAt_of_some hr, valueAt_of_none hself, activeOf_of_state ha]
      rfl
  · rw [heq]
    exact h.congr rfl rfl

end Coherent

theorem isActive_of_isTerminal (h : state.isTerminal = true) : state.isActive = false := by
  cases state <;> simp_all [TaskState.isTerminal, TaskState.isActive]

theorem ne_queued_of_isTerminal (h : state.isTerminal = true) : state ≠ .queued := by
  rintro rfl
  simp [TaskState.isTerminal] at h

theorem past_of_isTerminal (h : state.isTerminal = true) : state ≠ .created ∧ state ≠ .admitted := by
  constructor <;> rintro rfl <;> simp [TaskState.isTerminal] at h

theorem past_of_isActive (h : state.isActive = true) : state ≠ .created ∧ state ≠ .admitted := by
  constructor <;> rintro rfl <;> simp [TaskState.isActive] at h

open Coherent in
theorem Micro.coherent (step : Micro env al s s') (h : Coherent s) : Coherent s' := by
  cases step with
  | observe | reserve | scopes | quiesce | drain | capacity | await | touch | configure | markIdle =>
    exact h.congr rfl rfl
  | regroup adm hadm => exact h.regroup hadm
  | publish spec reserved now hal hadmissible => exact h.publish hadmissible reserved now
  | unqueue adm hr hstate hD _ hwf hwait hframe =>
    refine h.detach hr rfl ?_ hwf ?_ fun o => ?_
    · simp [TaskRecord.isTerminal, hstate, TaskState.isTerminal]
    · rw [queuedBag_of_queued hstate hD, hwait, add_comm, singleton_add]
    · rw [activeOf_of_state (by simp [hstate, TaskState.isActive]), add_zero]
      exact hframe.active o
  | assign adm hwp _ hpick hr hstate hD hentry =>
    subst hentry
    have hkey := h.key hr
    refine h.change hr rfl (fun _ _ => Iff.rfl) hkey (by simp) (fun hin => absurd hin hD)
      hpick.took.wf ?_ fun o => ?_
    · rw [queuedBag_of_queued hstate hD, queuedBag_of_state (by simp), add_zero,
        hpick.took.waiting, add_comm, singleton_add]
      rfl
    · rw [activeOf_of_state (by simp [hstate, TaskState.isActive]), activeOf_of_active rfl hD]
      exact (add_zero _).trans (hpick.took.active o)
  | started _ hr hstate hD =>
    have hkey := h.key hr
    refine h.change hr rfl (fun _ _ => Iff.rfl) hkey (by simp) (fun hin => absurd hin hD)
      h.adm ?_ fun o => ?_
    · rw [queuedBag_of_state (by simp [hstate]), queuedBag_of_state (by simp)]
      rfl
    · rw [activeOf_of_active (by simp [hstate, TaskState.isActive]) hD, activeOf_of_active rfl hD]
      rfl
  | @markCancel e D id r reason hr hact =>
    have hkey := h.key hr
    have hnone : ∀ x : TaskRecord, x.state = r.state → queuedBag D id x = 0 := fun x hx =>
      queuedBag_of_state (hx ▸ not_queued_of_active hact)
    refine h.change hr rfl (fun _ _ => Iff.rfl) hkey (past_of_isActive hact)
      (fun _ => not_terminal_of_active hact) h.adm ?_ fun o => rfl
    rw [hnone r rfl, hnone]
    · rfl
    · rfl
  | release hr hact hD =>
    refine h.detach hr rfl (not_terminal_of_active hact) (Controller.onTaskTerminal_wf h.adm) ?_
      fun o => ?_
    · rw [queuedBag_of_state (not_queued_of_active hact), add_zero]
      rfl
    · rw [activeOf_of_active hact hD]
      have hactive := Controller.onTaskTerminal_active _ _ o (h.active_pos hr hact hD)
      show (Controller.onTaskTerminal _ _).ownerActiveCount.getD o 0 + _ = _
      omega
  | unpend hr hstate =>
    refine h.detach hr rfl (by simp [TaskRecord.isTerminal, hstate, TaskState.isTerminal]) h.adm ?_
      fun o => ?_
    · rw [queuedBag_of_state (by simp [hstate]), add_zero]
      rfl
    · rw [activeOf_of_state (by simp [hstate, TaskState.isActive]), add_zero]
      rfl
  | @settle e D id r rec delta hr hD hrec =>
    have hstate : (Engine.closedRecord rec).state.isTerminal = true := hrec.terminal
    have hreg := h.registry_settleRecord env hr hrec
    have hid := h.id_of_spec hr hrec.spec
    refine h.change hr hreg (fun _ => mem_erase_iff_of_ne) hid (past_of_isTerminal hstate)
      (fun hin => absurd hin (Finset.notMem_erase _ _)) h.adm ?_ fun o => ?_
    · rw [queuedBag_of_mem hD, queuedBag_of_state (ne_queued_of_isTerminal hstate)]
      rfl
    · rw [activeOf_of_mem hD, activeOf_of_state (isActive_of_isTerminal hstate)]
      rfl
  | @pend e D id r rec delta hr hD hact hrec =>
    have hreg := h.registry_pendRecord hr hrec
    refine h.change hr hreg (fun _ => mem_erase_iff_of_ne) (h.id_of_spec hr hrec.spec) (by simp [hrec.state])
      (fun hin => absurd hin (Finset.notMem_erase _ _)) h.adm ?_ fun o => ?_
    · rw [queuedBag_of_mem hD, queuedBag_of_state (by simp [hrec.state])]
      rfl
    · rw [activeOf_of_mem hD, activeOf_of_state (by simp [hrec.state, TaskState.isActive])]
      rfl
  | evict oldest rest => exact h.evict oldest rest
  | spawn hwp hal hspawn =>
    rw [Engine.spawn_pushIdle_eq hwp hspawn]
    exact h.congr rfl rfl
  | retire hretire =>
    obtain ⟨wp, -, -, rfl⟩ := Engine.retireWorker_eq hretire
    exact h.congr rfl rfl

/-- What every `Micro` step from a coherent stage keeps, a run from a coherent stage keeps. -/
theorem Steps.keeps {P : Stage → Prop} (hstep : ∀ x y, Micro env al x y → Coherent x → P x → P y) (h : Steps env al s s')
    (hs : Coherent s) (hP : P s) : Coherent s' ∧ P s' :=
  Steps.invariant (P := fun x => Coherent x ∧ P x)
    (fun x y step hx => ⟨step.coherent hx.1, hstep x y step hx.1 hx.2⟩) h ⟨hs, hP⟩

theorem Steps.coherent (h : Steps env al s s') (hs : Coherent s) : Coherent s' :=
  Steps.invariant (fun _ _ step => step.coherent) h hs

end Goultroid
