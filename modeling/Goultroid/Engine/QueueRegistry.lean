import Goultroid.Engine.Lifecycle

/-!
# The admission controller and the registry agree

In every reachable state the entries of the ready queues are the queued records, each filed once in
its own place, and the counters of the controller are the counts they stand for. So a selected
candidate always has a queued record.

This is read off two invariants, `Coherent` of the registry and `Controller.Wf` of the controller:
the waiting entries are those of the queued records, and at the same time the content of the queues,
of which the counters are functions.
-/

namespace Goultroid

open AList Engine
open Admission (QueueEntry fileClass)

variable {env : Env} {e : Engine}

def Engine.recordCount (e : Engine) (p : TaskRecord → Bool) : Nat := e.registry.entries.countP (p ·.2)

theorem Engine.total_eq_recordCount (e : Engine) (p : TaskRecord → Bool) :
    AList.total (fun _ r => if p r = true then (1 : ℤ) else 0) e.registry = e.recordCount p :=
  total_ite_eq_countP (fun _ r => p r) e.registry

theorem Reachable.staleCandidate {cfg : Config} (h : Reachable env cfg e) : e.faults.staleCandidate = false :=
  (Reachable.invariant (P := fun s => s.engine.faults.staleCandidate = false) (fun _ _ => rfl)
    (fun _ he _ _ => he) (fun _ _ _ he => he) (fun _ _ he => he)
    (fun _ _ _ step _ he => step.onward.staleCandidate.trans he) h)

namespace Coherent

theorem mem_waiting_ids (h : Coherent ⟨e, ∅⟩) (id : TaskID) :
    id ∈ e.adm.waiting.map (·.spec.id) ↔ ∃ r, e.registry.lookup id = some r ∧ r.state = .queued := by
  rw [Multiset.mem_map]
  constructor
  · rintro ⟨_, hmem, rfl⟩
    obtain ⟨r, hr, hstate, -, -⟩ := h.of_waiting hmem
    exact ⟨r, hr, hstate⟩
  · rintro ⟨r, hr, hstate⟩
    exact ⟨entryOf r, h.waiting_of hr hstate (Finset.notMem_empty id), h.key hr⟩

theorem active_eq_recordCount (h : Coherent ⟨e, ∅⟩) (owner : OwnerID) : e.adm.ownerActiveCount.getD owner 0 =
      e.recordCount fun r => r.state.isActive && r.spec.quotaOwner == owner := by
  rw [← total_eq_recordCount, h.active]
  refine total_congr fun id r _ => ?_
  rw [activeOf, activeAt_of_notMem (Finset.notMem_empty id)]
  simp

end Coherent

/-- In every reachable state: the ids in the ready queues are those of the queued records, each once;
every entry lies in the queue of its own pool, class and owner and is the spec of its record; the
totals of a pool and of an owner are the count and the payload sum of their waiting entries; the active
count of an owner is its number of dispatching and running records; and no dispatch ever met a
candidate without a queued record. -/
theorem queues_agree_with_registry {env : Env} {cfg : Config} {e : Engine} (h : Reachable env cfg e) :
    (e.adm.waiting.map (·.spec.id)).Nodup ∧
    (∀ id, id ∈ e.adm.waiting.map (·.spec.id) ↔ ∃ r, e.registry.lookup id = some r ∧ r.state = .queued) ∧
    (∀ pool ps cls owner rq entry, e.adm.pools.lookup pool = some ps → ps.queues.lookup (cls, owner) = some rq → entry ∈ rq →
      entry.spec.pool = pool ∧ entry.spec.cls = cls ∧ entry.spec.quotaOwner = owner ∧
        ∃ r, e.registry.lookup entry.spec.id = some r ∧ r.state = .queued ∧ r.spec = entry.spec) ∧
    (∀ pool ps, e.adm.pools.lookup pool = some ps →
      ps.totalWaiting = ps.waiting.card ∧ ps.totalBytes = (ps.waiting.map (·.payloadSize)).sum) ∧
    (∀ owner, e.adm.ownerWaitingCount.getD owner 0 = (e.adm.waiting.filter (·.spec.quotaOwner = owner)).card ∧
      e.adm.ownerWaitingBytes.getD owner 0 = ((e.adm.waiting.filter (·.spec.quotaOwner = owner)).map (·.payloadSize)).sum) ∧
    (∀ owner, e.adm.ownerActiveCount.getD owner 0 = e.recordCount fun r => r.state.isActive && r.spec.quotaOwner == owner) ∧
    e.faults.staleCandidate = false := by
  have hcoherent := h.coherent
  have hadm := hcoherent.adm
  refine ⟨hadm.unique, hcoherent.mem_waiting_ids, ?_,
    fun pool ps hps => ⟨(hadm.pools pool ps hps).count, (hadm.pools pool ps hps).bytes⟩,
    fun owner => ⟨hadm.ownerCount owner, hadm.ownerBytes owner⟩, hcoherent.active_eq_recordCount,
    h.staleCandidate⟩
  intro pool ps cls owner rq entry hps hrq hmem
  obtain ⟨hpool, hkey⟩ := (hadm.pools pool ps hps).home _ _ hrq entry hmem
  obtain ⟨hcls, howner⟩ := Prod.mk.inj hkey
  have hwait : entry ∈ e.adm.waiting :=
    mem_total.mpr ⟨pool, ps, hps, mem_total.mpr ⟨(cls, owner), rq, hrq, hmem⟩⟩
  obtain ⟨r, hr, hstate, -, hentry⟩ := hcoherent.of_waiting hwait
  have hspec : r.spec = entry.spec := congrArg QueueEntry.spec hentry
  have hclasses : LiveSpecs (·.cls ≠ .unset) e := h.liveSpecs fun _ _ hadmissible => hadmissible.cls
  have hclass : fileClass entry.spec = entry.spec.cls := by
    rw [fileClass, if_neg (hspec ▸ hclasses _ _ hr (isTerminal_of_queued hstate))]
  exact ⟨hpool, (hcls.trans hclass).symm, howner.symm, r, hr, hstate, hspec⟩

theorem queues_agree_with_registry_solo :
    let e := Engine.solo 1 [submitted "a", submitted "b"]
    e.adm.ownerActiveCount.getD (goString "owner") 0 = 1 ∧ e.faults.staleCandidate = false := by
  have hres := queues_agree_with_registry (Reachable.solo 1 [submitted "a", submitted "b"])
  exact ⟨(hres.2.2.2.2.2.1 _).trans (by decide +kernel), hres.2.2.2.2.2.2⟩

end Goultroid
