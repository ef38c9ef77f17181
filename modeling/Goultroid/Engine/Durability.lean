import Goultroid.Engine.Lifecycle

/-!
# Durable tickets

A task with a `Commit` should have its ticket closed only when its commit is acknowledged or the task
asks for recovery. Every record that has left its queue keeps to this. A queued one does not: when it
is cancelled, expires or is finalized it settles at once, with no commit made. `Spares` is the
condition on a step that no such record is touched, and in every run of such steps every durable
ticket has its evidence.

`Evident` is kept by every step whose allowance lets no waiting durable entry leave undispatched: a
record then leaves its queue only by being assigned, and from there it settles through the commit
protocol, with its evidence at hand. What an event allows is computed from the event and from the
readings of the clock that it makes (`keeps_of_not_expires`).
-/

namespace Goultroid

open List AList Engine
open Admission (QueueEntry)

variable {spec : WorkSpec} {s s' : Stage} {env : Env} {ev : Event} {e : Engine} {al : Allowance}

/-- The ticket of a durable task was closed on an acknowledged commit, or asks for recovery. -/
def Settlement.HasEvidence (x : Settlement) : Prop :=
  x.durable = true → x.durability = .committed ∨ x.state = .recoveryRequired

/-- A queued record that a step may not take out of its queue undispatched: it has a `Commit`, and it
waits. -/
def TaskRecord.Unattempted (r : TaskRecord) : Prop :=
  r.state = .queued ∧ r.spec.requiresDurability = true

/-- No entry of this spec may leave its queue undispatched during the first `last` readings. -/
def Allowance.Keeps (al : Allowance) (last : Nat) (spec : WorkSpec) : Prop :=
  ∀ n, n ≤ last → ∀ entry : QueueEntry, entry.spec = spec → ¬al.leave n entry

/-- Durable records that wait stay in their queues, and what has settled has its evidence. -/
structure Evident (al : Allowance) (last : Nat) (s : Stage) : Prop where
  waits : ∀ {id r}, s.engine.registry.lookup id = some r → r.Unattempted →
    id ∉ s.detached ∧ al.Keeps last r.spec
  log : ∀ x ∈ s.engine.settled, x.HasEvidence

namespace Evident

variable {id : TaskID} {last : Nat}

section

variable {D : Finset TaskID} (h : Evident al last ⟨e, D⟩) {e' : Engine} {r : TaskRecord}
include h

theorem congr (hreg : e'.registry = e.registry) (hlog : e'.settled = e.settled) : Evident al last ⟨e', D⟩ := by
  refine ⟨fun {id r} hr => ?_, ?_⟩
  · rw [show e'.registry = e.registry from hreg] at hr
    exact h.waits hr
  · rw [hlog]
    exact h.log

theorem detach (hr : e.registry.lookup id = some r) (hnot : ¬r.Unattempted) (hreg : e'.registry = e.registry)
    (hlog : e'.settled = e.settled) : Evident al last ⟨e', insert id D⟩ := by
  have hsame := h.congr hreg hlog
  refine ⟨fun {id' x} hx hwait => ?_, hsame.log⟩
  obtain ⟨hD, hkeep⟩ := hsame.waits hx hwait
  refine ⟨fun hmem => ?_, hkeep⟩
  rcases Finset.mem_insert.mp hmem with rfl | hmem
  · rw [show e'.registry = e.registry from hreg, hr] at hx
    cases hx
    exact hnot hwait
  · exact hD hmem

theorem replace {D' : Finset TaskID} (hstate : r.state ≠ .queued) (hreg : e'.registry = e.registry.insert id r) (hD : D' ⊆ D)
    (hlog : ∀ x ∈ e'.settled, x.HasEvidence) : Evident al last ⟨e', D'⟩ := by
  refine ⟨fun {id' x} hx hwait => ?_, hlog⟩
  rw [show e'.registry = e.registry.insert id r from hreg] at hx
  rcases of_lookup_insert hx with ⟨-, rfl⟩ | ⟨-, hx⟩
  · exact absurd hwait.1 hstate
  · obtain ⟨hnot, hkeep⟩ := h.waits hx hwait
    exact ⟨fun hmem => hnot (hD hmem), hkeep⟩

theorem publish (hD : spec.id ∉ D) (hkeep : spec.requiresDurability = true → al.Keeps last spec) (reserved : Bool) (now : Time) :
    Evident al last ⟨e.publish spec reserved now, D⟩ := by
  refine ⟨fun {id x} hx hwait => ?_, h.log⟩
  rcases of_lookup_insert hx with ⟨hid, rfl⟩ | ⟨hid, hx⟩
  · exact ⟨hid ▸ hD, hkeep hwait.2⟩
  · exact h.waits hx hwait

theorem settle {delta : Int} {rec : TaskRecord} (hr : e.registry.lookup id = some r) (hD : id ∈ D) (hrec : Concludes r rec delta) :
    Evident al last ⟨e.settleRecord env rec delta, D.erase id⟩ := by
  have hterm : (Engine.closedRecord rec).state.isTerminal = true := hrec.terminal
  refine h.replace (ne_queued_of_isTerminal hterm) rfl (Finset.erase_subset id D) fun x hx hdurable => ?_
  rcases mem_append.mp hx with hx | hx
  · exact h.log x hx hdurable
  · obtain rfl := mem_singleton.mp hx
    replace hdurable : r.spec.requiresDurability = true := hrec.spec ▸ hdurable
    apply hrec.evidence hdurable
    intro hqueued
    exact (h.waits hr ⟨hqueued, hdurable⟩).1 hD

end

theorem step (h : Evident al last s) (hs : Coherent s) (hadm : ∀ spec, al.admits spec → spec.requiresDurability = true → al.Keeps last spec)
    (hobs : s.engine.obs ≤ last) (step : Micro env al s s') : Evident al last s' := by
  cases step with
  | observe | reserve | scopes | regroup | quiesce | drain | capacity | await | touch | configure | markIdle =>
    exact h.congr rfl rfl
  | publish spec reserved now hal hok =>
    refine h.publish (fun hD => ?_) (hadm spec hal) reserved now
    obtain ⟨r, hr, -⟩ := hs.detached hD
    rw [hok.fresh] at hr
    cases hr
  | unqueue adm hr hstate hD hleave =>
    -- the entry was allowed to leave, so its record is not one that is kept
    refine h.detach hr (fun hwait => ?_) rfl rfl
    exact (h.waits hr hwait).2 _ hobs _ rfl hleave
  | assign | started =>
    exact h.replace (by simp) rfl (Finset.Subset.refl _) h.log
  | markCancel _ hr hact =>
    refine h.replace ?_ rfl (Finset.Subset.refl _) h.log
    exact Coherent.not_queued_of_active hact
  | release hr hact =>
    exact h.detach hr (fun hwait => Coherent.not_queued_of_active hact hwait.1) rfl rfl
  | unpend hr hstate =>
    refine h.detach hr (fun hwait => ?_) rfl rfl
    have hqueued := hwait.1
    rw [hstate] at hqueued
    cases hqueued
  | settle rec delta hr hD hrec => exact h.settle hr hD hrec
  | pend rec delta hr hD hact hrec =>
    exact h.replace (by simp [hrec.state]) rfl (Finset.erase_subset _ _) h.log
  | @evict e D oldest rest hlist =>
    rcases e.evictOldest_cases oldest rest with ⟨r, hr, hterm, heq⟩ | ⟨-, heq⟩
    · rw [heq]
      refine ⟨fun {id x} hx hwait => ?_, h.log⟩
      obtain ⟨-, hx⟩ := of_lookup_erase hx
      exact h.waits hx hwait
    · rw [heq]
      exact h.congr rfl rfl
  | spawn hwp hal hspawn =>
    rw [spawn_pushIdle_eq hwp hspawn]
    exact h.congr rfl rfl
  | retire hretire =>
    obtain ⟨wp, -, -, rfl⟩ := retireWorker_eq hretire
    exact h.congr rfl rfl

end Evident

/-- A sequence of steps that keeps the durable records of its start and of its submission in their
queues settles with evidence. -/
theorem Steps.evident (h : Steps env al s s') (hs : Coherent s)
    (hadm : ∀ spec, al.admits spec → spec.requiresDurability = true → al.Keeps s'.engine.obs spec)
    (hevident : Evident al s'.engine.obs s) : Evident al s'.engine.obs s' := by
  -- from the front, so that the readings still to come bound those made so far
  induction h using Relation.ReflTransGen.head_induction_on with
  | refl => exact hevident
  | head step rest ih =>
    have hobs := step.onward.obs_le.trans (Steps.onward rest).obs_le
    exact ih (step.coherent hs) (hevident.step hs hadm hobs step)

/-- A reading of the step that begins after `lo` readings and ends after `hi` reaches the deadline. -/
def WorkSpec.ExpiresIn (env : Env) (lo hi : Nat) (spec : WorkSpec) : Prop :=
  ∃ n, lo ≤ n ∧ n < hi ∧ spec.queueDeadline ≠ 0 ∧ spec.queueDeadline ≤ env.clock n

/-- The step takes no waiting durable record out of its queue undispatched: it does not ask to cancel
one, and its clock readings reach the deadline of none, nor of a durable task it submits. -/
structure Spares (env : Env) (e : Engine) (ev : Event) : Prop where
  cancel : ∀ id r, e.registry.lookup id = some r → r.Unattempted → ¬ev.cancels (entryOf r)
  waiting : ∀ id r, e.registry.lookup id = some r → r.Unattempted →
    ¬r.spec.ExpiresIn env e.obs (e.step env ev).obs
  submitted : ∀ spec, ev = .request (.submit spec) → spec.requiresDurability = true →
    ¬spec.ExpiresIn env e.obs (e.step env ev).obs

theorem Event.cancels_congr {entry entry' : QueueEntry} (h : entry.spec = entry'.spec)
    (hcancels : ev.cancels entry) : ev.cancels entry' := by
  unfold Event.cancels at hcancels ⊢
  rwa [← h]

theorem keeps_of_not_expires {lo hi : Nat} (hcancels : ∀ entry : QueueEntry, entry.spec = spec → ¬ev.cancels entry)
    (hexp : ¬spec.ExpiresIn env lo hi) : (ev.allowance env lo).Keeps hi spec := by
  intro n hn entry hentry hleave
  rcases hleave with hout | ⟨m, hlo, hm, hne, hdue⟩
  · exact hcancels entry hentry hout
  · rw [hentry] at hne hdue
    exact hexp ⟨m, hlo, by omega, hne, hdue⟩

theorem ReachableBy.evidence {cfg : Config} (h : ReachableBy env cfg (Spares env) e) : ∀ x ∈ e.settled, x.HasEvidence := by
  induction h with
  | new =>
    intro x hx
    cases hx
  | start hprev hstart ih =>
    obtain ⟨-, -, hsteps⟩ := start_eq hstart
    refine (hsteps.evident (hprev.coherent.congr rfl rfl) (fun spec hadm => hadm.elim) ⟨?_, ih⟩).log
    exact fun _ _ => ⟨Finset.notMem_empty _, fun _ _ _ _ hleave => hleave⟩
  | @step e ev hprev hstarted hok ih =>
    rcases step_cases env hprev.coherent ev with hsteps | ⟨owner, limits, -, heq⟩ | ⟨ch, -, heq⟩
    · refine (hsteps.evident hprev.coherent ?_ ⟨fun {id r} hr hwait => ⟨Finset.notMem_empty id, ?_⟩, ih⟩).log
      · rintro spec ⟨submitted, cls, _, rfl, rfl⟩ hdurable
        exact keeps_of_not_expires (fun _ _ hcancels => hcancels) (hok.submitted submitted rfl hdurable)
      · refine keeps_of_not_expires (fun entry hentry hcancels => ?_) (hok.waiting id r hr hwait)
        exact hok.cancel id r hr hwait (ev.cancels_congr hentry hcancels)
    · rw [heq]
      exact ih
    · rw [heq]
      exact ih

/-- A task with a `Commit` and, unless it is zero, a queue deadline. -/
def durableSpec (id : String) (deadline : Time) : WorkSpec :=
  { plainSpec id with commit := some 0, queueDeadline := deadline }

theorem Spares.of_none_waiting (hnone : (e.registry.entries.all fun s => s.2.state != .queued || !s.2.spec.requiresDurability) = true)
    (hsub : ∀ spec, ev = .request (.submit spec) → spec.queueDeadline = 0) : Spares env e ev := by
  have hnot : ∀ id r, e.registry.lookup id = some r → ¬r.Unattempted := by
    rintro id r hr ⟨hqueued, hdurable⟩
    have hall := all_eq_true.mp hnone _ (mem_entries_iff.mpr hr)
    simp [hqueued, hdurable] at hall
  refine ⟨fun id r hr hwait => absurd hwait (hnot id r hr), fun id r hr hwait => absurd hwait (hnot id r hr),
    fun spec hev _ hexp => ?_⟩
  obtain ⟨n, -, -, hne, -⟩ := hexp
  exact hne (hsub spec hev)

end Goultroid
