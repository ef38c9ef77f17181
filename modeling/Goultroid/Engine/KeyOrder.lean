import Goultroid.Engine.Exclusion
import Goultroid.Engine.Resources
import Mathlib

/-!
# Order within an ordering key

A queue lists its entries in the order of their admission and a selection takes the first that is
dispatchable, so a task overtakes an earlier one with its key only where the earlier one was expired or
lacked a resource that the later one does not need. When every task of a key declares what the tasks
waiting with that key declare, only expired ones are overtaken, and those are never dispatched.

`KeyOrder` carries this through a run: entries of one queue stand in the order of their acceptance, an
entry covers the resources of those of its key in front of it, and where a record is in flight the
earlier ones of its domain that wait have expired. At a dispatch the candidate passed the test that the
entries in front of it failed. They have its key, and no requirement that it does not have, so only
their deadline can have kept them back (`expired_of_passed`).
-/

namespace Goultroid

open List Multiset AList Bool
open Admission (Controller QueueEntry OwnerLimits fileClass)

variable {s s' : Stage} {r r' : TaskRecord} {env : Env} {al : Allowance} {n : Nat} {spec : WorkSpec} {e e' : Engine} {now : Time}
  {ev : Event} {cfg : Config}

/-- The tasks that an ordering key keeps in order: one pool, class and quota owner, and one key. -/
structure SameDomain (spec spec' : WorkSpec) : Prop where
  pool : spec.pool = spec'.pool
  cls : spec.cls = spec'.cls
  owner : spec.quotaOwner = spec'.quotaOwner
  key : spec.orderingKey = spec'.orderingKey

/-! ### What a step does to the queues -/

/-- A record in a later stage: the same acceptance, and neither queued nor in flight unless it was. -/
structure Continues (r r' : TaskRecord) : Prop where
  seq : r'.commitSeq = r.commitSeq
  spec : r'.isTerminal = false → r'.spec = r.spec
  active : r'.state.isActive = true → r.state.isActive = true
  queued : r'.state = .queued → r.state = .queued

theorem Continues.refl (r : TaskRecord) : Continues r r := ⟨rfl, fun _ => rfl, id, id⟩

inductive QueueChange (env : Env) (al : Allowance) (s s' : Stage) : Prop where
  | stay (horder : ∀ a b, s'.engine.adm.Precedes a b → s.engine.adm.Precedes a b)
    (hwaiting : ∀ a ∈ s'.engine.adm.waiting, a ∈ s.engine.adm.waiting)
    (hrecord : ∀ id r', s'.engine.registry.lookup id = some r' →
      ∃ r, s.engine.registry.lookup id = some r ∧ Continues r r')
    (hseq : s'.engine.commitSeq = s.engine.commitSeq)
  | publish (spec : WorkSpec) (reserved : Bool) (now : Time) (hal : al.admits spec)
    (hadmission : Admissible s.engine spec) (heq : s'.engine = s.engine.publish spec reserved now)
  | assign {pool : PoolID} {candidate : QueueEntry} {tick : Nat} {r r' : TaskRecord}
    (hpick : Picks env s.engine tick pool candidate s'.engine.adm)
    (hr : s.engine.registry.lookup candidate.spec.id = some r) (hstate : r.state = .queued)
    (hentry : entryOf r = candidate)
    (hreg : s'.engine.registry = s.engine.registry.insert candidate.spec.id r')
    (hspec : r'.spec = r.spec) (hrseq : r'.commitSeq = r.commitSeq) (hstate' : r'.state ≠ .queued)
    (hseq : s'.engine.commitSeq = s.engine.commitSeq) (hobs : s'.engine.obs = tick)

namespace QueueChange

variable {D D' : Finset TaskID}

theorem same (hadm : e'.adm = e.adm) (hreg : e'.registry = e.registry) (hseq : e'.commitSeq = e.commitSeq) :
    QueueChange env al ⟨e, D⟩ ⟨e', D'⟩ := by
  refine .stay ?_ ?_ (fun id r hr => ⟨r, ?_, .refl r⟩) hseq
  · rw [hadm]
    exact fun _ _ h => h
  · rw [hadm]
    exact fun _ h => h
  · rwa [hreg] at hr

theorem store {id : TaskID} (hadm : e'.adm = e.adm) (hr : e.registry.lookup id = some r)
    (hreg : e'.registry = e.registry.insert id r') (hcontinues : Continues r r')
    (hseq : e'.commitSeq = e.commitSeq) : QueueChange env al ⟨e, D⟩ ⟨e', D'⟩ := by
  refine .stay ?_ ?_ (fun id' x hx => ?_) hseq
  · rw [hadm]
    exact fun _ _ h => h
  · rw [hadm]
    exact fun _ h => h
  · rw [hreg] at hx
    rcases of_lookup_insert hx with ⟨hid, rfl⟩ | ⟨hid, hx⟩
    · exact ⟨r, hid ▸ hr, hcontinues⟩
    · exact ⟨x, hx, .refl x⟩

end QueueChange

theorem Micro.queueChange (step : Micro env al s s') (h : Coherent s) : QueueChange env al s s' := by
  cases step with
  | observe | reserve | scopes | quiesce | drain | capacity | unpend | await | touch | configure | markIdle =>
    exact .same rfl rfl rfl
  | regroup adm hadm =>
    exact .stay hadm.frame.order (fun a ha => hadm.waiting ▸ ha) (fun _ r hr => ⟨r, hr, .refl r⟩) rfl
  | publish spec reserved now hal hadmission => exact .publish spec reserved now hal hadmission rfl
  | unqueue adm hr hstate hD _ hwf hwaiting hframe =>
    refine .stay hframe.order (fun a ha => ?_) (fun _ r hr => ⟨r, hr, .refl r⟩) rfl
    rw [hwaiting]
    exact mem_cons_of_mem ha
  | assign adm hwp _ hpick hr hstate hD hentry =>
    exact .assign hpick hr hstate hentry rfl rfl rfl (by simp) rfl rfl
  | started _ hr hstate =>
    exact .store rfl hr rfl ⟨rfl, fun _ => rfl, fun _ => by rw [hstate]; rfl, nofun⟩ rfl
  | markCancel _ hr =>
    exact .store rfl hr rfl ⟨rfl, fun _ => rfl, id, id⟩ rfl
  | release hr => exact .stay (fun _ _ h => h) (fun _ h => h) (fun _ r hr => ⟨r, hr, .refl r⟩) rfl
  | @settle e D id r rec delta hr hD hrec =>
    have hid : rec.spec.id = id := (congrArg WorkSpec.id hrec.spec).trans (h.key hr)
    subst hid
    have hterm : (Engine.closedRecord rec).state.isTerminal = true := hrec.terminal
    refine .store rfl hr rfl ⟨hrec.seq, fun hlive => ?_, fun hact => ?_, fun hqueued => ?_⟩ rfl
    · rw [TaskRecord.isTerminal, hterm] at hlive
      cases hlive
    · rw [isActive_of_isTerminal hterm] at hact
      cases hact
    · exact absurd hqueued (ne_queued_of_isTerminal hterm)
  | @pend e D id r rec delta hr hD hact hrec =>
    have hid : rec.spec.id = id := (congrArg WorkSpec.id hrec.spec).trans (h.key hr)
    subst hid
    refine .store rfl hr rfl ⟨hrec.seq, fun _ => hrec.spec, fun _ => hact, fun hqueued => ?_⟩ rfl
    rw [hrec.state] at hqueued
    cases hqueued
  | @evict e D oldest rest hlist =>
    rcases e.evictOldest_cases oldest rest with ⟨r, -, -, heq⟩ | ⟨-, heq⟩
    · rw [heq]
      refine .stay (fun _ _ h => h) (fun _ h => h) (fun id x hx => ⟨x, ?_, .refl x⟩) rfl
      obtain ⟨-, hx⟩ := of_lookup_erase hx
      exact hx
    · rw [heq]
      exact .same rfl rfl rfl
  | spawn hwp hal hspawn =>
    rw [Engine.spawn_pushIdle_eq hwp hspawn]
    exact .same rfl rfl rfl
  | retire hretire =>
    obtain ⟨wp, -, -, rfl⟩ := Engine.retireWorker_eq hretire
    exact .same rfl rfl rfl

/-! ### Order and overtaking -/

/-- The deadline of a task had passed at one of the first `n` readings. -/
def WorkSpec.ExpiredBy (env : Env) (n : Nat) (spec : WorkSpec) : Prop :=
  ∃ t, t < n ∧ spec.expiredAt (env.clock t) = true

theorem WorkSpec.ExpiredBy.mono {m : Nat} (h : spec.ExpiredBy env n) (hle : n ≤ m) : spec.ExpiredBy env m := by
  obtain ⟨t, ht, hexp⟩ := h
  exact ⟨t, by omega, hexp⟩

theorem WorkSpec.ExpiredBy.at {t : Nat} (hclock : Monotone env.clock)
    (h : spec.ExpiredBy env n) (hle : n ≤ t) : spec.expiredAt (env.clock t) = true := by
  obtain ⟨t0, ht0, hexp⟩ := h
  have hclock' := hclock (show t0 ≤ t by omega)
  simp only [WorkSpec.expiredAt, and_eq_true, bne_iff_ne, ne_eq, decide_eq_true_eq] at hexp ⊢
  exact ⟨hexp.1, lt_of_lt_of_le hexp.2 hclock'⟩

structure KeyOrder (env : Env) (s : Stage) : Prop where
  bound : ∀ {id r}, s.engine.registry.lookup id = some r → r.commitSeq ≤ s.engine.commitSeq
  order : ∀ {a b ra rb}, s.engine.adm.Precedes a b → s.engine.registry.lookup a.spec.id = some ra →
    s.engine.registry.lookup b.spec.id = some rb → ra.commitSeq < rb.commitSeq
  covers : ∀ {a b}, s.engine.adm.Precedes a b → a.spec.orderingKey = b.spec.orderingKey →
    b.spec.orderingKey ≠ [] → a.spec.resources ⊆ b.spec.resources
  overtaken : ∀ {id r a ra}, s.engine.registry.lookup id = some r → r.state.isActive = true →
    a ∈ s.engine.adm.waiting → s.engine.registry.lookup a.spec.id = some ra → SameDomain a.spec r.spec →
    r.spec.orderingKey ≠ [] → ra.commitSeq < r.commitSeq → a.spec.ExpiredBy env s.engine.obs

/-- What is dispatchable covers the resources of what waits in front of it, so that was expired. -/
theorem expired_of_passed {b a : QueueEntry} (hb : e.adm.dispatchable now e.resourcesAvailable b = true)
    (ha : e.adm.dispatchable now e.resourcesAvailable a = false)
    (hkey : a.spec.orderingKey = b.spec.orderingKey) (hcovers : a.spec.resources ⊆ b.spec.resources) : a.spec.expiredAt now = true := by
  simp only [Controller.dispatchable, and_eq_true] at hb
  obtain ⟨⟨-, hfree⟩, havailable⟩ := hb
  have havailable' : e.resourcesAvailable a.spec = true := by
    rw [Engine.resourcesAvailable, all_eq_true] at havailable ⊢
    exact fun requirement hmem => havailable requirement (hcovers hmem)
  rw [← hkey] at hfree
  rw [Controller.dispatchable, hfree, havailable', Bool.and_true, Bool.and_true] at ha
  simpa using ha

namespace KeyOrder

section

variable (h : KeyOrder env s)
include h

theorem stay (horder : ∀ a b, s'.engine.adm.Precedes a b → s.engine.adm.Precedes a b)
    (hwaiting : ∀ a ∈ s'.engine.adm.waiting, a ∈ s.engine.adm.waiting) (hrecord : ∀ id r', s'.engine.registry.lookup id = some r' →
      ∃ r, s.engine.registry.lookup id = some r ∧ Continues r r')
    (hseq : s'.engine.commitSeq = s.engine.commitSeq) (hobs : s.engine.obs ≤ s'.engine.obs) : KeyOrder env s' := by
  refine ⟨fun {id r'} hr' => ?_, fun {a b ra rb} hab hra hrb => ?_, fun hab => h.covers (horder _ _ hab),
    fun {id r' a ra'} hr' hact ha hra hdomain hkey hlt => ?_⟩
  · obtain ⟨r, hr, hcontinues⟩ := hrecord id r' hr'
    rw [hcontinues.seq, hseq]
    exact h.bound hr
  · obtain ⟨xa, hxa, hcontinues⟩ := hrecord _ ra hra
    obtain ⟨xb, hxb, hcontinues'⟩ := hrecord _ rb hrb
    rw [hcontinues.seq, hcontinues'.seq]
    exact h.order (horder _ _ hab) hxa hxb
  · obtain ⟨r, hr, hcontinues⟩ := hrecord id r' hr'
    obtain ⟨ra, hra, hcontinues'⟩ := hrecord _ ra' hra
    have hspec := hcontinues.spec (Coherent.not_terminal_of_active hact)
    rw [hspec] at hdomain hkey
    rw [hcontinues.seq, hcontinues'.seq] at hlt
    exact (h.overtaken hr (hcontinues.active hact) (hwaiting a ha) hra hdomain hkey hlt).mono hobs

theorem publish {reserved : Bool} (hs : Coherent s)
    (hadmission : Admissible s.engine spec) (heq : s'.engine = s.engine.publish spec reserved now)
    (hcovers : ∀ a ∈ s.engine.adm.waiting, a.spec.pool = spec.pool → a.spec.quotaOwner = spec.quotaOwner →
      a.spec.orderingKey = spec.orderingKey → spec.orderingKey ≠ [] → a.spec.resources ⊆ spec.resources) : KeyOrder env s' := by
  obtain ⟨ps, hps⟩ := hadmission.pool
  set entry : QueueEntry := ⟨spec, now, admissionBytes spec⟩ with hentry
  have hfresh := hs.fresh_waiting hadmission
  have hadm : s'.engine.adm = s.engine.adm.enqueue entry := by rw [heq]; rfl
  obtain ⟨hwf, hwaiting, -⟩ := Controller.enqueue_wf hs.adm entry hps hfresh
  have hprecedes : ∀ a b, s'.engine.adm.Precedes a b →
      s.engine.adm.Precedes a b ∨ (b = entry ∧ a ∈ s.engine.adm.waiting) := by
    intro a b hab
    rw [hadm] at hab
    exact Controller.enqueue_precedes hps hab
  have hlook : ∀ {id r}, s'.engine.registry.lookup id = some r →
      (id = spec.id ∧ r.commitSeq = s.engine.commitSeq + 1 ∧ r.state = .queued) ∨
        (id ≠ spec.id ∧ s.engine.registry.lookup id = some r) := by
    intro id r hr
    rw [heq] at hr
    rcases of_lookup_insert hr with ⟨hid, rfl⟩ | ⟨hid, hr⟩
    · exact .inl ⟨hid, rfl, rfl⟩
    · exact .inr ⟨hid, hr⟩
  have hold : ∀ {a r}, a ∈ s.engine.adm.waiting → s'.engine.registry.lookup a.spec.id = some r →
      s.engine.registry.lookup a.spec.id = some r := by
    intro a r ha hr
    rcases hlook hr with ⟨hid, -⟩ | ⟨-, hr⟩
    · exact absurd hid (hfresh a ha)
    · exact hr
  have hseq : s'.engine.commitSeq = s.engine.commitSeq + 1 := by rw [heq]; rfl
  have hobs : s'.engine.obs = s.engine.obs := by rw [heq]; rfl
  refine ⟨fun {id r} hr => ?_, fun {a b ra rb} hab hra hrb => ?_, fun {a b} hab hkey hne => ?_,
    fun {id r a ra} hr hact ha hra hdomain hkey hlt => ?_⟩
  · rcases hlook hr with ⟨-, hnew, -⟩ | ⟨-, hr⟩
    · omega
    · have := h.bound hr
      omega
  · rcases hprecedes a b hab with hab | ⟨rfl, ha⟩
    · obtain ⟨ha, hb⟩ := hs.adm.mem_of_precedes hab
      exact h.order hab (hold ha hra) (hold hb hrb)
    · have hle := h.bound (hold ha hra)
      rcases hlook hrb with ⟨-, hnew, -⟩ | ⟨hne, -⟩
      · omega
      · exact absurd rfl hne
  · rcases hprecedes a b hab with hab' | ⟨rfl, ha⟩
    · exact h.covers hab' hkey hne
    · obtain ⟨-, -, -, hpool, -, howner⟩ := (hadm ▸ hwf : s'.engine.adm.Wf 0).of_precedes hab
      exact hcovers a ha hpool howner hkey hne
  · rcases hlook hr with ⟨-, -, hqueued⟩ | ⟨-, hr⟩
    · rw [hqueued] at hact
      cases hact
    · rw [hadm, hwaiting] at ha
      rcases mem_cons.mp ha with rfl | ha
      · have hle := h.bound hr
        rcases hlook hra with ⟨-, hnew, -⟩ | ⟨hne, -⟩
        · omega
        · exact absurd rfl hne
      · rw [hobs]
        exact h.overtaken hr hact ha (hold ha hra) hdomain hkey hlt

/-- A task is dispatched ahead of an earlier one of its key only when that was expired. -/
theorem assign {tick : Nat} {pool : PoolID} {candidate : QueueEntry} (hs : Coherent s)
    (hpick : Picks env s.engine tick pool candidate s'.engine.adm)
    (hr : s.engine.registry.lookup candidate.spec.id = some r) (hentry : entryOf r = candidate)
    (hreg : s'.engine.registry = s.engine.registry.insert candidate.spec.id r') (hspec : r'.spec = r.spec)
    (hrseq : r'.commitSeq = r.commitSeq) (hseq : s'.engine.commitSeq = s.engine.commitSeq)
    (hobs : s'.engine.obs = tick) : KeyOrder env s' := by
  obtain ⟨t, hlo, hhi, hready, hfirst⟩ := hpick.dispatchable
  have hcandidate : r.spec = candidate.spec := congrArg QueueEntry.spec hentry
  have hwaiting : ∀ a ∈ s'.engine.adm.waiting, a ∈ s.engine.adm.waiting := by
    intro a ha
    rw [hpick.took.waiting]
    exact mem_cons_of_mem ha
  have hother : ∀ {a}, a ∈ s'.engine.adm.waiting → a.spec.id ≠ candidate.spec.id := by
    intro a ha hid
    have hu := hs.adm.unique
    rw [hpick.took.waiting, Multiset.map_cons, Multiset.nodup_cons] at hu
    exact hu.1 (hid ▸ mem_map_of_mem _ ha)
  have hlook : ∀ {id x}, s'.engine.registry.lookup id = some x →
      ∃ y, s.engine.registry.lookup id = some y ∧ x.commitSeq = y.commitSeq ∧
        (id = candidate.spec.id ∧ x = r' ∨ x = y) := by
    intro id x hx
    rw [hreg] at hx
    rcases of_lookup_insert hx with ⟨hid, rfl⟩ | ⟨hid, hx⟩
    · exact ⟨r, hid ▸ hr, hrseq, .inl ⟨hid, rfl⟩⟩
    · exact ⟨x, hx, rfl, .inr rfl⟩
  refine ⟨fun {id x} hx => ?_, fun {a b ra rb} hab hra hrb => ?_,
    fun hab => h.covers (hpick.took.order _ _ hab), fun {id x a ra} hx hact ha hra hdomain hkey hlt => ?_⟩
  · obtain ⟨y, hy, hyseq, -⟩ := hlook hx
    rw [hyseq, hseq]
    exact h.bound hy
  · obtain ⟨xa, hxa, hseqa, -⟩ := hlook hra
    obtain ⟨xb, hxb, hseqb, -⟩ := hlook hrb
    rw [hseqa, hseqb]
    exact h.order (hpick.took.order _ _ hab) hxa hxb
  · obtain ⟨xa, hxa, hseqa, -⟩ := hlook hra
    obtain ⟨y, hy, hyseq, hxy⟩ := hlook hx
    rw [hseqa, hyseq] at hlt
    rcases hxy with ⟨rfl, rfl⟩ | rfl
    · -- the candidate itself: whatever waits in front of it was not dispatchable at the reading
      rw [hr] at hy
      cases hy
      rw [hspec, hcandidate] at hdomain hkey
      have hmem : candidate ∈ s.engine.adm.waiting := by simp [hpick.took.waiting]
      have hne : a ≠ candidate := fun heq => hother ha (by rw [heq])
      have hclass : fileClass a.spec = fileClass candidate.spec := by
        rw [fileClass, fileClass, hdomain.cls]
      rcases hs.adm.precedes_total (hwaiting a ha) hmem hne hdomain.pool hclass hdomain.owner with hab | hba
      · refine ⟨t, by omega, ?_⟩
        exact expired_of_passed hready (hfirst a hab) hdomain.key (h.covers hab hdomain.key hkey)
      · have := h.order hba hr hxa
        omega
    · exact (h.overtaken hy hact (hwaiting a ha) hxa hdomain hkey hlt).mono (by omega)

theorem change (hs : Coherent s) (hchan : QueueChange env al s s') (hobs : s.engine.obs ≤ s'.engine.obs)
    (hcovers : ∀ spec, al.admits spec → ∀ a ∈ s.engine.adm.waiting, a.spec.pool = spec.pool →
      a.spec.quotaOwner = spec.quotaOwner → a.spec.orderingKey = spec.orderingKey → spec.orderingKey ≠ [] →
      a.spec.resources ⊆ spec.resources) : KeyOrder env s' := by
  cases hchan with
  | stay horder hwaiting hrecord hseq => exact h.stay horder hwaiting hrecord hseq hobs
  | publish spec _ now hal hadmission heq => exact h.publish hs hadmission heq (hcovers spec hal)
  | assign hpick hr _ hentry hreg hspec hrseq _ hseq hobs' =>
    exact h.assign hs hpick hr hentry hreg hspec hrseq hseq hobs'

end

end KeyOrder

/-! ### Runs -/

/-- A task that is submitted with an ordering key declares every resource requirement of the tasks that
wait with that key in its pool and for its quota owner. -/
def CoversKey (e : Engine) (ev : Event) : Prop :=
  ∀ spec, ev = .request (.submit spec) → ∀ entry ∈ e.adm.waiting, entry.spec.pool = spec.pool →
    entry.spec.quotaOwner = spec.quotaOwner → entry.spec.orderingKey = spec.orderingKey →
    spec.orderingKey ≠ [] → entry.spec.resources ⊆ spec.resources

/-- What waits during an event waited before it, or is the task that the event submits. -/
def FromEvent (e : Engine) (ev : Event) (s : Stage) : Prop :=
  ∀ a ∈ s.engine.adm.waiting, a ∈ e.adm.waiting ∨
    ∃ spec, ev = .request (.submit spec) ∧ a.spec.resources = spec.resources

theorem FromEvent.change (h : FromEvent e ev s)
    (hs : Coherent s) (hchan : QueueChange env (ev.allowance env e.obs) s s') : FromEvent e ev s' := by
  intro a ha
  cases hchan with
  | stay _ hwaiting => exact h a (hwaiting a ha)
  | publish spec _ now hal hadmission heq =>
    obtain ⟨ps, hps⟩ := hadmission.pool
    obtain ⟨-, hwaiting, -⟩ := Controller.enqueue_wf hs.adm ⟨spec, now, admissionBytes spec⟩ hps (hs.fresh_waiting hadmission)
    have hadm : s'.engine.adm = s.engine.adm.enqueue ⟨spec, now, admissionBytes spec⟩ := by rw [heq]; rfl
    rw [hadm, hwaiting] at ha
    rcases mem_cons.mp ha with rfl | ha
    · obtain ⟨submitted, cls, _, hev, rfl⟩ := hal
      exact .inr ⟨submitted, hev, rfl⟩
    · exact h a ha
  | assign hpick =>
    refine h a ?_
    rw [hpick.took.waiting]
    exact mem_cons_of_mem ha

theorem KeyOrder.setOwnerLimits (h : KeyOrder env ⟨e, ∅⟩) (owner : OwnerID)
    (limits : OwnerLimits) : KeyOrder env ⟨{ e with adm := e.adm.setOwnerLimits owner limits }, ∅⟩ := by
  refine h.stay (fun a b hab => Controller.setOwnerLimits_precedes e.adm owner limits hab) (fun a ha => ?_)
    (fun id r hr => ⟨r, hr, .refl r⟩) rfl le_rfl
  rw [← Controller.setOwnerLimits_waiting e.adm owner limits]
  exact ha

theorem KeyOrder.congr (h : KeyOrder env ⟨e, ∅⟩) (hreg : e'.registry = e.registry)
    (hadm : e'.adm = e.adm) (hseq : e'.commitSeq = e.commitSeq) (hobs : e.obs ≤ e'.obs) : KeyOrder env ⟨e', ∅⟩ := by
  refine h.stay ?_ ?_ (fun id r hr => ⟨r, hreg ▸ hr, .refl r⟩) hseq hobs
  · rw [hadm]
    exact fun _ _ hab => hab
  · rw [hadm]
    exact fun _ ha => ha

theorem KeyOrder.step (h : KeyOrder env ⟨e, ∅⟩) (hs : Coherent ⟨e, ∅⟩) (hok : CoversKey e ev) : KeyOrder env ⟨e.step env ev, ∅⟩ := by
  rcases Engine.step_cases env hs ev with hsteps | ⟨owner, limits, -, heq⟩ | ⟨ch, -, heq⟩
  · refine (Steps.keeps (P := fun s => KeyOrder env s ∧ FromEvent e ev s)
      (fun s s' step hx hboth => ?_) hsteps hs ⟨h, fun a ha => .inl ha⟩).2.1
    have hchan := step.queueChange hx
    refine ⟨hboth.1.change hx hchan step.onward.obs_le fun spec hal a ha => ?_, hboth.2.change hx hchan⟩
    obtain ⟨submitted, cls, _, hev, rfl⟩ := hal
    intro hpool howner hkey hne
    rcases hboth.2 a ha with hold | ⟨spec, hev', hres⟩
    · exact hok submitted hev a hold hpool howner hkey hne
    · rw [hev] at hev'
      cases hev'
      rw [hres]
      exact List.Subset.refl _
  · have htick : KeyOrder env ⟨e.tick, ∅⟩ := h.congr rfl rfl rfl (Nat.le_succ _)
    rw [heq]
    exact htick.setOwnerLimits owner limits
  · rw [heq]
    exact h.congr rfl rfl rfl le_rfl

theorem newEngine_keyOrder {pump : Option CommitPump} {resolver : Bool} :
    KeyOrder env ⟨{ newEngine cfg with commitPump := pump, handlerResolver := resolver }, ∅⟩ := by
  refine ⟨fun hr => (by cases hr), fun _ hra => (by cases hra), fun {a b} hab => ?_, fun hr => (by cases hr)⟩
  have hmem := (newEngine_coherent.adm.mem_of_precedes hab).1
  replace hmem : a ∈ (Admission.newController _).waiting := hmem
  rw [Controller.newController_waiting] at hmem
  cases hmem

theorem ReachableBy.keyOrder (h : ReachableBy env cfg CoversKey e) : KeyOrder env ⟨e, ∅⟩ := by
  induction h with
  | new => exact newEngine_keyOrder
  | @start e e' hprev hstart ih =>
    obtain ⟨-, -, hsteps⟩ := Engine.start_eq hstart
    have hopen : KeyOrder env ⟨e.opened, ∅⟩ := ih.congr rfl rfl rfl le_rfl
    exact (Steps.keeps (fun s s' step hx horder =>
        horder.change hx (step.queueChange hx) step.onward.obs_le fun _ (hal : False) => hal.elim)
      hsteps (hprev.coherent.congr rfl rfl) hopen).2
  | step ev hprev _ hok ih => exact ih.step hprev.coherent hok

/-! ### What was overtaken stays behind -/

/-- The task accepted as `seq` in the domain of `spec` is not in flight, and expired if it waits. -/
structure Passed (env : Env) (spec : WorkSpec) (seq : Nat) (s : Stage) : Prop where
  past : seq ≤ s.engine.commitSeq
  idle : ∀ {id r}, s.engine.registry.lookup id = some r → r.commitSeq = seq → SameDomain r.spec spec →
    r.state.isActive = false ∧ (r.state = .queued → r.spec.ExpiredBy env s.engine.obs)

namespace Passed

variable {seq : Nat}

theorem stay (h : Passed env spec seq s) (hrecord : ∀ id r', s'.engine.registry.lookup id = some r' →
      ∃ r, s.engine.registry.lookup id = some r ∧ Continues r r')
    (hseq : s'.engine.commitSeq = s.engine.commitSeq) (hobs : s.engine.obs ≤ s'.engine.obs) : Passed env spec seq s' := by
  refine ⟨hseq ▸ h.past, fun {id r'} hr' hrseq hdomain => ?_⟩
  obtain ⟨r, hr, hcontinues⟩ := hrecord id r' hr'
  cases hterm : r'.isTerminal with
  | true =>
    refine ⟨isActive_of_isTerminal hterm, fun hqueued => ?_⟩
    exact absurd hqueued (ne_queued_of_isTerminal hterm)
  | false =>
    have hspec := hcontinues.spec hterm
    rw [hspec] at hdomain
    obtain ⟨hidle, hexp⟩ := h.idle hr (hcontinues.seq ▸ hrseq) hdomain
    refine ⟨?_, fun hqueued => ?_⟩
    · by_contra hact
      rw [hcontinues.active (by simpa using hact)] at hidle
      cases hidle
    · rw [hspec]
      exact (hexp (hcontinues.queued hqueued)).mono hobs

theorem change (hclock : Monotone env.clock) (h : Passed env spec seq s)
    (hchan : QueueChange env al s s') (hobs : s.engine.obs ≤ s'.engine.obs) : Passed env spec seq s' := by
  cases hchan with
  | stay _ _ hrecord hseq => exact h.stay hrecord hseq hobs
  | publish _ _ now hal _ heq =>
    refine ⟨?_, fun {id r} hr hrseq hdomain => ?_⟩
    · rw [heq]
      exact h.past.trans (Nat.le_succ _)
    · rw [heq] at hr ⊢
      rcases of_lookup_insert hr with ⟨-, rfl⟩ | ⟨-, hr⟩
      · -- the new record has a later number
        have hpast := h.past
        replace hrseq : s.engine.commitSeq + 1 = seq := hrseq
        omega
      · exact h.idle hr hrseq hdomain
  | @assign pool candidate tick r r' hpick hr hstate hentry hreg hspec hrseq hstate' hseq hobs' =>
    obtain ⟨t, hlo, hhi, hready, -⟩ := hpick.dispatchable
    refine ⟨hseq ▸ h.past, fun {id x} hx hxseq hdomain => ?_⟩
    rw [hreg] at hx
    rcases of_lookup_insert hx with ⟨-, rfl⟩ | ⟨-, hx⟩
    · -- the candidate was not expired at the reading
      rw [hspec] at hdomain
      obtain ⟨-, hexp⟩ := h.idle hr (hrseq ▸ hxseq) hdomain
      have hlate := (hexp hstate).at hclock hlo
      have hcandidate : r.spec = candidate.spec := congrArg QueueEntry.spec hentry
      rw [hcandidate] at hlate
      simp [Controller.dispatchable, hlate] at hready
    · obtain ⟨hidle, hexp⟩ := h.idle hx hxseq hdomain
      exact ⟨hidle, fun hqueued => (hexp hqueued).mono hobs⟩

theorem run (hclock : Monotone env.clock) (h : Passed env spec seq ⟨e, ∅⟩) (hs : Coherent ⟨e, ∅⟩)
    (events : List Event) : Passed env spec seq ⟨e.run env events, ∅⟩ := by
  induction events generalizing e with
  | nil => exact h
  | cons ev events ih =>
    have hstep := Engine.step_invariant (P := Passed env spec seq)
      (fun e owner limits he => he.stay (fun id r hr => ⟨r, hr, .refl r⟩) rfl le_rfl)
      (fun e ch he => he.stay (fun id r hr => ⟨r, hr, .refl r⟩) rfl le_rfl) ev
      (fun s s' step hs' he => he.change hclock (step.queueChange hs') step.onward.obs_le) hs h
    exact ih hstep.2 hstep.1

end Passed

/-- In every run in which a keyed task declares what the waiting tasks of its key declare, with a clock
that is never set back: once a task with an ordering key is in flight, no task of its pool, class, owner
and key that was admitted before it is in flight, then or later. -/
theorem keyed_tasks_dispatched_in_order {env : Env} {cfg : Config} {e : Engine} (hclock : Monotone env.clock)
    (h : ReachableBy env cfg CoversKey e) {id : TaskID} {r : TaskRecord} (hr : e.registry.lookup id = some r)
    (hact : r.state.isActive = true) (hkey : r.spec.orderingKey ≠ []) (events : List Event) {id' : TaskID}
    {r' : TaskRecord} (hr' : (e.run env events).registry.lookup id' = some r') (hact' : r'.state.isActive = true)
    (hdomain : SameDomain r'.spec r.spec) : r.commitSeq ≤ r'.commitSeq := by
  by_contra hear
  have horder := h.keyOrder
  have hs := h.coherent
  have hpassed : Passed env r.spec r'.commitSeq ⟨e, ∅⟩ := by
    have hbound : r.commitSeq ≤ e.commitSeq := horder.bound hr
    refine ⟨show r'.commitSeq ≤ e.commitSeq by omega, fun {idx x} hx hseq hxdom => ⟨?_, fun hqueued => ?_⟩⟩
    · by_contra hxact
      have hxact' : x.state.isActive = true := by simpa using hxact
      have hmem : ∀ {id r}, e.registry.lookup id = some r → r.state.isActive = true →
          r.spec ∈ inFlight ⟨e, ∅⟩ := by
        intro id r hr hact
        have hid := hs.key hr
        subst hid
        exact (mem_inFlight hs).mpr ⟨r, hr, hact, Finset.notMem_empty _, rfl⟩
      have hid := h.reachable.exclusive.eq_of_key (hmem hr hact) (hmem hx hxact') hkey hxdom.key
      rw [hs.key hr, hs.key hx] at hid
      subst hid
      have heq : some x = some r := hx.symm.trans hr
      cases heq
      omega
    · have hwait := hs.waiting_of hx hqueued (Finset.notMem_empty idx)
      have hid := hs.key hx
      subst hid
      exact horder.overtaken hr hact hwait hx hxdom hkey (by rw [hseq]; omega)
  have hidle := ((hpassed.run hclock hs events).idle hr' rfl hdomain).1
  rw [hact'] at hidle
  cases hidle

def keyedGpu (id : String) (amount : Int64) : WorkSpec := { gpuSpec id amount with orderingKey := goString "k" }

instance (spec spec' : WorkSpec) : Decidable (SameDomain spec spec') :=
  decidable_of_iff (spec.pool = spec'.pool ∧ spec.cls = spec'.cls ∧ spec.quotaOwner = spec'.quotaOwner ∧
    spec.orderingKey = spec'.orderingKey) ⟨fun ⟨h₁, h₂, h₃, h₄⟩ => ⟨h₁, h₂, h₃, h₄⟩, fun ⟨h₁, h₂, h₃, h₄⟩ => ⟨h₁, h₂, h₃, h₄⟩⟩

theorem CoversKey.submit (hs : Coherent ⟨e, ∅⟩) (hall : (e.registry.entries.all fun s =>
      s.2.state != .queued || s.2.spec.resources.all (· ∈ spec.resources)) = true) : CoversKey e (.request (.submit spec)) := by
  intro _ hev _ hentry _ _ _ _
  cases hev
  obtain ⟨r, hr, hqueued, -, rfl⟩ := hs.of_waiting hentry
  have hcovers := all_eq_true.mp hall _ (mem_entries_iff.mpr hr)
  simp only [hqueued, bne_self_eq_false, Bool.false_or, List.all_eq_true, decide_eq_true_eq] at hcovers
  exact hcovers

theorem CoversKey.other (hev : ∀ spec, ev ≠ .request (.submit spec)) : CoversKey e ev :=
  fun spec heq => absurd heq (hev spec)

/-- Three tasks of one key with the same requirement are dispatched one after the other. -/
theorem keyed_tasks_dispatched_in_order_gpu :
    let e := (Engine.launch .quiet gpuPool).run .quiet [.request (.submit (keyedGpu "a" 3)),
      .request (.submit (keyedGpu "b" 3)), .request (.submit (keyedGpu "c" 3)), completed "a" 0 0]
    ∃ r r', e.registry.lookup (goString "b") = some r ∧
      (e.run .quiet [completed "b" 1 0]).registry.lookup (goString "c") = some r' ∧
      r.commitSeq ≤ r'.commitSeq := by
  intro e
  have hvalid : validateConfig gpuPool = none := by decide +kernel
  have hlaunch : ReachableBy .quiet gpuPool CoversKey (Engine.launch .quiet gpuPool) := .launch .quiet hvalid
  have ha := ReachableBy.step (.request (.submit (keyedGpu "a" 3))) hlaunch (by decide +kernel)
    (.submit hlaunch.coherent (by decide +kernel))
  have hb := ReachableBy.step (.request (.submit (keyedGpu "b" 3))) ha (by decide +kernel)
    (.submit ha.coherent (by decide +kernel))
  have hc := ReachableBy.step (.request (.submit (keyedGpu "c" 3))) hb (by decide +kernel)
    (.submit hb.coherent (by decide +kernel))
  have hdone := ReachableBy.step (completed "a" 0 0) hc (by decide +kernel) (.other (by simp [completed]))
  obtain ⟨r, hr, hact, hkey, r', hr', hact', hdomain⟩ : ∃ r, e.registry.lookup (goString "b") = some r ∧
      r.state.isActive = true ∧ r.spec.orderingKey ≠ [] ∧
      ∃ r', (e.run .quiet [completed "b" 1 0]).registry.lookup (goString "c") = some r' ∧ r'.state.isActive = true ∧
        SameDomain r'.spec r.spec := by
    decide +kernel
  have hclock : Monotone Env.quiet.clock := fun m n hmn => by
    show (m : ℤ) + 1 ≤ n + 1
    omega
  exact ⟨r, r', hr, hr', keyed_tasks_dispatched_in_order hclock hdone hr hact hkey _ hr' hact' hdomain⟩

/-- Three of the four units are taken. A task of key `k` that needs two waits, a later task of the same
key that needs one is dispatched at once, and the earlier one after it. -/
theorem keyed_task_overtaken : let e := (Engine.launch .quiet gpuPool).run .quiet [.request (.submit (gpuSpec "x" 3)),
      .request (.submit (keyedGpu "a" 2)), .request (.submit (keyedGpu "b" 1))]
    Reachable .quiet gpuPool e ∧ e.stateOf "a" = some .queued ∧
      ∃ r r', e.registry.lookup (goString "b") = some r ∧
        (e.run .quiet [completed "x" 0 0, completed "b" 1 1]).registry.lookup (goString "a") = some r' ∧
        r.state.isActive = true ∧ r'.state.isActive = true ∧ r.spec.orderingKey ≠ [] ∧
        SameDomain r'.spec r.spec ∧ r'.commitSeq < r.commitSeq := by
  intro e
  have hvalid : validateConfig gpuPool = none := by decide +kernel
  have hreach : Reachable .quiet gpuPool e :=
    (ReachableBy.launch .quiet hvalid).run (Engine.launch_runStarted hvalid) fun _ _ => trivial
  obtain ⟨r, hr, r', hr', hflight⟩ : ∃ r, e.registry.lookup (goString "b") = some r ∧
      ∃ r', (e.run .quiet [completed "x" 0 0, completed "b" 1 1]).registry.lookup (goString "a") = some r' ∧
        r.state.isActive = true ∧ r'.state.isActive = true ∧ r.spec.orderingKey ≠ [] ∧ SameDomain r'.spec r.spec ∧
        r'.commitSeq < r.commitSeq := by
    decide +kernel
  exact ⟨hreach, by decide +kernel, r, r', hr, hr', hflight⟩

end Goultroid
