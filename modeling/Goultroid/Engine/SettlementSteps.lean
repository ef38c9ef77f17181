import Goultroid.Engine.Coherence
import Mathlib.Data.Finset.Basic
import Mathlib.Data.Finset.Dedup
import Mathlib.Data.Finset.Lattice.Lemmas

/-!
# Settlement in steps

Every function of `Engine/Settlement` is a sequence of `Micro` steps: the terminal tail, the sweep of
expired entries, cancellation and the commit protocol. A state that is `Ready` stays so along any
sequence, so the sequences of a request compose.

`settleTerminal_eq` cuts the terminal tail into three parts: the record settles, old records are
evicted, the drain is signalled. Every way to end a record comes down to it. The loop of the sweep is
an induction over the popped entries, with those that are still to be settled as the detached ones
(`settleExpired_foldl`).
-/

namespace Goultroid

open List Multiset
open Admission (Controller QueueEntry)

variable {e : Engine} {now : Time} {al : Allowance} {lo hi : Nat} {env : Env} {s s' : Stage}

/-! ### Ready states -/

/-- Entries whose deadline is at most `now` may leave once `lo` readings have been made. -/
def Allowance.Covers (al : Allowance) (now : Time) (lo : Nat) : Prop :=
  ∀ entry : QueueEntry, entry.spec.queueDeadline ≠ 0 → entry.spec.queueDeadline ≤ now →
    ∀ n, lo ≤ n → al.leave n entry

/-- Entries may leave after any reading from `lo` on that shows their deadline has passed. -/
def Allowance.Expires (al : Allowance) (env : Env) (lo : Nat) : Prop :=
  ∀ n, lo ≤ n → al.Covers (env.clock n) (n + 1)

theorem Allowance.Covers.mono (h : al.Covers now lo) (hle : lo ≤ hi) : al.Covers now hi :=
  fun entry hne hdue n hn => h entry hne hdue n (hle.trans hn)

theorem Allowance.Expires.mono (h : al.Expires env lo) (hle : lo ≤ hi) : al.Expires env hi :=
  fun n hn => h n (hle.trans hn)

/-- What every step keeps: readings are not undone, a finished drain stays finished, the coordinator is started by `Start` only,
and no candidate is found stale. -/
structure Onward (e e' : Engine) : Prop where
  obs_le : e.obs ≤ e'.obs
  drainDone : e.drainDone = true → e'.drainDone = true
  runStarted : e'.runStarted = e.runStarted
  staleCandidate : e'.faults.staleCandidate = e.faults.staleCandidate

theorem Micro.onward (step : Micro env al s s') : Onward s.engine s'.engine := by
  cases step with
  | observe n hn => exact ⟨hn, id, rfl, rfl⟩
  | drain =>
    refine ⟨le_rfl, fun h => ?_, rfl, rfl⟩
    show (_ || _) = true
    rw [h]
    rfl
  | assign adm hwp _ hpick =>
    obtain ⟨t, hlo, hhi, -⟩ := hpick.dispatchable
    exact ⟨hlo.trans hhi.le, id, rfl, rfl⟩
  | @settle e D id r rec delta hr hD hrec =>
    refine ⟨?_, fun h => h, rfl, rfl⟩
    show e.obs ≤ if _ then e.obs + 1 else e.obs
    split_ifs
    · exact Nat.le_succ _
    · exact le_rfl
  | @evict e D oldest rest hlist =>
    rcases e.evictOldest_cases oldest rest with ⟨r, -, -, heq⟩ | ⟨-, heq⟩
    · rw [heq]
      refine ⟨Nat.le_refl e.obs, id, rfl, ?_⟩
      show (if _ then _ else _ : Faults).staleCandidate = _
      split_ifs <;> rfl
    · rw [heq]
      exact ⟨le_rfl, id, rfl, rfl⟩
  | spawn hwp hal hspawn =>
    rw [Engine.spawn_pushIdle_eq hwp hspawn]
    exact ⟨Nat.le_succ _, id, rfl, rfl⟩
  | retire hretire =>
    obtain ⟨wp, -, -, rfl⟩ := Engine.retireWorker_eq hretire
    exact ⟨le_rfl, id, rfl, rfl⟩
  | _ => exact ⟨le_rfl, fun h => h, rfl, rfl⟩

theorem Steps.onward (h : Steps env al s s') : Onward s.engine s'.engine := by
  induction h with
  | refl => exact ⟨le_rfl, id, rfl, rfl⟩
  | tail _ step ih =>
    have hlast := step.onward
    exact ⟨ih.obs_le.trans hlast.obs_le, fun h => hlast.drainDone (ih.drainDone h), hlast.runStarted.trans ih.runStarted,
      hlast.staleCandidate.trans ih.staleCandidate⟩

/-- Queues and registry agree, and every expiry from here on is allowed. -/
structure Ready (env : Env) (al : Allowance) (s : Stage) : Prop where
  coherent : Coherent s
  expires : al.Expires env s.engine.obs

theorem Steps.ready (h : Steps env al s s') (hs : Ready env al s) : Ready env al s' :=
  ⟨h.coherent hs.coherent, hs.expires.mono h.onward.obs_le⟩

/-- A sequence of steps that leaves every record past its queue, and not terminal, as it is. -/
structure Advances (env : Env) (al : Allowance) (D : Finset TaskID) (e e' : Engine) : Prop where
  steps : Steps env al ⟨e, D⟩ ⟨e', D⟩
  keeps : ∀ id r, e.registry.lookup id = some r → r.state ≠ .queued → r.isTerminal = false →
    e'.registry.lookup id = some r

namespace Advances

variable {D : Finset TaskID} {e' : Engine}

theorem refl (e : Engine) : Advances env al D e e := ⟨Steps.refl _, fun _ _ hr _ _ => hr⟩

theorem trans {e'' : Engine} (h : Advances env al D e e') (h' : Advances env al D e' e'') : Advances env al D e e'' :=
  ⟨h.steps.trans h'.steps, fun id r hr hq ht => h'.keeps id r (h.keeps id r hr hq ht) hq ht⟩

theorem of_registry (h : Steps env al ⟨e, D⟩ ⟨e', D⟩) (hreg : e'.registry = e.registry) : Advances env al D e e' :=
  ⟨h, fun _ _ hr _ _ => hreg ▸ hr⟩

theorem ready (h : Advances env al D e e') (hs : Ready env al ⟨e, D⟩) : Ready env al ⟨e', D⟩ :=
  h.steps.ready hs

theorem foldl {α : Type*} {body : Engine → α → Engine} (lo : Nat)
    (hbody : ∀ e a, lo ≤ e.obs → Ready env al ⟨e, D⟩ → Advances env al D e (body e a)) (l : List α)
    (hlo : lo ≤ e.obs) (h : Ready env al ⟨e, D⟩) : Advances env al D e (l.foldl body e) := by
  induction l generalizing e with
  | nil => exact refl e
  | cons a l ih =>
    have hstep := hbody e a hlo h
    exact hstep.trans (ih (hlo.trans hstep.steps.onward.obs_le) (hstep.ready h))

end Advances

namespace Engine

variable {D : Finset TaskID} {shouldEvict : Engine → Bool} {fuel seq : Nat} {delta : Int} {res : TaskResult} {entry : QueueEntry}
  {entries : List QueueEntry} {reason : Cause} {scope : ScopeIdentity} {id : TaskID} {r rec : TaskRecord}

/-! ### The terminal tail -/

theorem tick_steps (e : Engine) (D : Finset TaskID) : Steps env al ⟨e, D⟩ ⟨e.tick, D⟩ :=
  Steps.one (.observe (e.obs + 1) (Nat.le_succ _))

theorem evictTerminalHead_invariant {P : Engine → Prop}
    (hP : ∀ e oldest rest, e.terminalOrder = oldest :: rest → P e → P (e.evictOldest oldest rest)) (fuel : Nat) (h : P e) :
    P (evictTerminalHead shouldEvict fuel e) := by
  induction fuel generalizing e with
  | zero => exact h
  | succ fuel ih =>
    rw [evictTerminalHead]
    split_ifs
    · split
      · exact h
      · exact ih (hP _ _ _ ‹_› h)
    · exact h

theorem evictTerminalHead_steps : Steps env al ⟨e, D⟩ ⟨evictTerminalHead shouldEvict fuel e, D⟩ :=
  evictTerminalHead_invariant (P := fun e' => Steps env al ⟨e, D⟩ ⟨e', D⟩)
    (fun _ _ _ hlist hsteps => hsteps.tail (.evict _ _ hlist)) fuel (Steps.refl _)

theorem evictTerminalHead_lookup (hr : e.registry.lookup id = some r) (hterm : r.isTerminal = false) :
    (evictTerminalHead shouldEvict fuel e).registry.lookup id = some r := by
  refine evictTerminalHead_invariant (P := fun e => e.registry.lookup id = some r) (fun e oldest rest _ hr => ?_) fuel hr
  rcases e.evictOldest_cases oldest rest with ⟨r', hr', hterm', heq⟩ | ⟨-, heq⟩
  · rw [heq]
    rw [AList.lookup_erase_ne]
    · exact hr
    · rintro rfl
      rw [hr] at hr'
      cases hr'
      rw [hterm] at hterm'
      cases hterm'
  · rw [heq]
    exact hr

theorem evictExpiredTerminal_steps : Steps env al ⟨e, D⟩ ⟨e.evictExpiredTerminal now, D⟩ := by
  rw [evictExpiredTerminal]
  split_ifs
  · exact Steps.refl _
  · exact evictTerminalHead_steps

theorem evictExpiredTerminal_lookup (hr : e.registry.lookup id = some r) (hterm : r.isTerminal = false) :
    (e.evictExpiredTerminal now).registry.lookup id = some r := by
  rw [evictExpiredTerminal]
  split_ifs
  · exact hr
  · exact evictTerminalHead_lookup hr hterm

theorem fillAttempt_eq (rec : TaskRecord) : ∃ res, fillAttempt rec = { rec with result := res } := by
  rw [fillAttempt]
  split
  · exact ⟨rec.result, rfl⟩
  · split_ifs
    · exact ⟨_, rfl⟩
    · exact ⟨rec.result, rfl⟩

theorem concludes_fillAttempt (h : Concludes r rec delta) : Concludes r (fillAttempt rec) delta := by
  obtain ⟨res, hres⟩ := fillAttempt_eq rec
  rw [hres]
  exact ⟨h.spec, h.seq, h.done, h.callback, h.retained, h.terminal, h.durability, h.evidence, h.charge⟩

/-- The terminal tail: the record settles, old records are evicted, and the drain is signalled. -/
theorem settleTerminal_eq (hterm : rec.isTerminal = true) :
    settleTerminal env { e with retainedBytes := e.retainedBytes + delta } rec =
      (evictTerminalRecords (e.settleRecord env (fillAttempt rec) delta)).checkDrained := by
  obtain ⟨res, hres⟩ := fillAttempt_eq rec
  rw [settleTerminal, onTaskSettled, if_pos hterm, hres]
  rfl

theorem settleTerminal_steps (hr : e.registry.lookup id = some r) (hD : id ∈ D) (hrec : Concludes r rec delta) :
    Steps env al ⟨e, D⟩
      ⟨settleTerminal env { e with retainedBytes := e.retainedBytes + delta } rec, D.erase id⟩ := by
  have hset : Micro env al ⟨e, D⟩ ⟨e.settleRecord env (fillAttempt rec) delta, D.erase id⟩ :=
    .settle _ _ hr hD (concludes_fillAttempt hrec)
  rw [settleTerminal_eq hrec.terminal]
  exact ((Steps.one hset).trans (evictTerminalHead_steps)).tail .drain

theorem settleTerminal_lookup
    (hterm : rec.isTerminal = true) (hne : id ≠ rec.spec.id) (hr : e.registry.lookup id = some r)
    (hlive : r.isTerminal = false) :
    (settleTerminal env { e with retainedBytes := e.retainedBytes + delta } rec).registry.lookup id =
      some r := by
  rw [settleTerminal_eq hterm]
  apply evictTerminalHead_lookup ?_ hlive
  obtain ⟨res, hres⟩ := fillAttempt_eq rec
  show (e.registry.insert (fillAttempt rec).spec.id _).lookup id = some r
  rw [hres, AList.lookup_insert_ne hne, hr]

theorem capOutput_nonneg (output : Payload) (maxBytes : Int) : 0 ≤ (capOutput output maxBytes).2 := by
  unfold capOutput
  split
  · dsimp only
    split_ifs <;> omega
  · split_ifs
    · omega
    · exact Int.natCast_nonneg _
  all_goals exact le_rfl

theorem boundResult_nonneg : 0 ≤ (e.boundResult res).2 := by
  have hcap := capOutput_nonneg res.output e.maxOutputBytes
  unfold boundResult
  dsimp only
  omega

theorem settleBounded_steps (hr : e.registry.lookup id = some r) (hD : id ∈ D) (hrec : Concludes r rec 0) :
    Steps env al ⟨e, D⟩ ⟨e.settleBounded env rec, D.erase id⟩ := by
  have hretained := hrec.retained
  refine settleTerminal_steps hr hD
    ⟨hrec.spec, hrec.seq, hrec.done, hrec.callback, ?_, hrec.terminal, hrec.durability, hrec.evidence,
      boundResult_nonneg⟩
  show rec.retainedBytes + _ = r.retainedBytes + _
  omega

theorem settleBounded_lookup (hterm : rec.isTerminal = true)
    (hne : id ≠ rec.spec.id) (hr : e.registry.lookup id = some r) (hlive : r.isTerminal = false) :
    (e.settleBounded env rec).registry.lookup id = some r :=
  settleTerminal_lookup hterm hne hr hlive

/-! ### Expiry -/

theorem concludes_queued (hstate : r.state = .queued) (hspec : rec.spec = r.spec)
    (hseq : rec.commitSeq = r.commitSeq) (hdone : rec.done = r.done)
    (hcallback : rec.callbackReserved = r.callbackReserved) (hretained : rec.retainedBytes = r.retainedBytes)
    (hterm : rec.isTerminal = true) (hdurability : rec.durability = r.durability) : Concludes r rec 0 :=
  ⟨hspec, hseq, hdone, hcallback, by omega, hterm, fun _ => hdurability, fun _ hne => absurd hstate hne, le_rfl⟩

theorem isTerminal_of_queued (h : r.state = .queued) : r.isTerminal = false := by
  rw [TaskRecord.isTerminal, h]
  rfl

theorem settleExpired_steps (now : Time) (hr : e.registry.lookup entry.spec.id = some r) (hstate : r.state = .queued)
    (hD : entry.spec.id ∈ D) : Steps env al ⟨e, D⟩ ⟨e.settleExpired env now entry, D.erase entry.spec.id⟩ := by
  rw [settleExpired, hr]
  dsimp only
  rw [if_pos hstate]
  exact settleBounded_steps hr hD (concludes_queued hstate rfl rfl rfl rfl rfl rfl rfl)

theorem settleExpired_lookup (hkey : ∀ {id r}, e.registry.lookup id = some r → r.spec.id = id) (hne : id ≠ entry.spec.id)
    (hr : e.registry.lookup id = some r) (hlive : r.isTerminal = false) : (e.settleExpired env now entry).registry.lookup id = some r := by
  rw [settleExpired]
  split
  · exact hr
  · rename_i rec hrec
    split_ifs
    · refine settleBounded_lookup rfl ?_ hr hlive
      rw [hkey hrec]
      exact hne
    · exact hr

def idSet (entries : List QueueEntry) : Finset TaskID := (entries.map (·.spec.id)).toFinset

theorem idSet_cons_union : idSet (entry :: entries) ∪ D = idSet entries ∪ insert entry.spec.id D := by
  ext id
  simp only [idSet, List.map_cons, List.toFinset_cons, Finset.mem_union, Finset.mem_insert]
  tauto

theorem erase_idSet_cons (hnot : entry.spec.id ∉ entries.map (·.spec.id)) (hD : entry.spec.id ∉ D) :
    (idSet (entry :: entries) ∪ D).erase entry.spec.id = idSet entries ∪ D := by
  have hmem : entry.spec.id ∉ idSet entries ∪ D := by
    simpa [idSet, hD] using hnot
  rw [idSet_cons_union, Finset.union_insert, Finset.erase_insert hmem]

theorem unqueue_steps {rest : Multiset QueueEntry} (al : Allowance) (expired : List QueueEntry) (h : Coherent ⟨e, D⟩)
    (hwait : e.adm.waiting = (expired : Multiset QueueEntry) + rest)
    (hleave : ∀ entry ∈ expired, al.leave e.obs entry) :
    ∃ adm : Controller, adm.Wf 0 ∧ adm.waiting = rest ∧ Controller.Trims e.adm adm ∧
      Steps env al ⟨e, D⟩ ⟨{ e with adm := adm }, idSet expired ∪ D⟩ := by
  induction expired generalizing e D with
  | nil =>
    refine ⟨e.adm, h.adm, by simpa using hwait, Controller.Trims.refl _, ?_⟩
    rw [show idSet [] ∪ D = D from Finset.empty_union D]
  | cons entry expired ih =>
    have hmem : entry ∈ e.adm.waiting := by simp [hwait]
    obtain ⟨r, hr, hstate, hD, hentry⟩ := h.of_waiting hmem
    obtain ⟨hwf, hw, hframe⟩ := Controller.removeTask_wf h.adm hmem
    have hstep : Micro env al ⟨e, D⟩
        ⟨{ e with adm := e.adm.removeTask entry.spec.id }, insert entry.spec.id D⟩ :=
      .unqueue _ hr hstate hD (hentry ▸ hleave entry (by simp)) hwf (hentry ▸ hw) hframe
    have hw' : (e.adm.removeTask entry.spec.id).waiting = (expired : Multiset QueueEntry) + rest := by
      have hboth := hw.symm.trans hwait
      rw [← cons_coe, cons_add] at hboth
      exact (Multiset.cons_inj_right entry).mp hboth
    obtain ⟨adm, hadm, hrest, hframe', hsteps⟩ := ih (hstep.coherent h) hw'
      fun x hx => hleave x (mem_cons_of_mem _ hx)
    refine ⟨adm, hadm, hrest, hframe.trans hframe', ?_⟩
    rw [idSet_cons_union]
    exact (Steps.one hstep).trans hsteps

/-- The loop of `sweepExpired` settles every entry that was popped, and nothing else. -/
theorem settleExpired_foldl (al : Allowance) (now : Time) (expired : List QueueEntry)
    (h : Coherent ⟨e, idSet expired ∪ D⟩) (hnodup : (expired.map (·.spec.id)).Nodup) (hD : ∀ entry ∈ expired, entry.spec.id ∉ D)
    (hqueued : ∀ entry ∈ expired, ∃ r, e.registry.lookup entry.spec.id = some r ∧ r.state = .queued) :
    Steps env al ⟨e, idSet expired ∪ D⟩ ⟨expired.foldl (settleExpired env now) e, D⟩ ∧
      ∀ id r, (∀ entry ∈ expired, id ≠ entry.spec.id) → e.registry.lookup id = some r →
        r.isTerminal = false → (expired.foldl (settleExpired env now) e).registry.lookup id = some r := by
  induction expired generalizing e with
  | nil =>
    rw [show idSet [] ∪ D = D from Finset.empty_union D]
    exact ⟨Steps.refl _, fun _ _ _ hr _ => hr⟩
  | cons entry expired ih =>
    obtain ⟨hnot, hnodup⟩ := nodup_cons.mp hnodup
    obtain ⟨r, hr, hstate⟩ := hqueued entry (by simp)
    have hmem : entry.spec.id ∈ idSet (entry :: expired) ∪ D := by simp [idSet]
    have hstep : Steps env al _ _ := settleExpired_steps now hr hstate hmem
    rw [erase_idSet_cons hnot (hD entry (by simp))] at hstep
    obtain ⟨hrest, hkeep⟩ := ih (hstep.coherent h) hnodup
      (fun x hx => hD x (mem_cons_of_mem _ hx)) fun x hx => by
        obtain ⟨r', hr', hstate'⟩ := hqueued x (mem_cons_of_mem _ hx)
        have hne : x.spec.id ≠ entry.spec.id := by
          intro heq
          exact hnot (mem_map.mpr ⟨x, hx, heq⟩)
        exact ⟨r', settleExpired_lookup h.key hne hr' (isTerminal_of_queued hstate'), hstate'⟩
    refine ⟨hstep.trans hrest, fun id x hne hx hlive => ?_⟩
    refine hkeep id x (fun y hy => hne y (mem_cons_of_mem _ hy)) ?_ hlive
    exact settleExpired_lookup h.key (hne entry (by simp)) hx hlive

theorem settleSwept_advances {pool : PoolID} (h : Coherent ⟨e, D⟩) (hcover : al.Covers now e.obs) :
    Advances env al D e ((e.adm.popExpired pool now).1.foldl (settleExpired env now)
      { e with adm := (e.adm.popExpired pool now).2 }) := by
  obtain ⟨hwf, hwait, hframe, hdue⟩ := Controller.popExpired_wf h.adm
  set popped := e.adm.popExpired pool now with hpop
  obtain ⟨adm, hadm, hrest, hframe', hunqueue⟩ := unqueue_steps al popped.1 h hwait
    fun entry hmem => hcover entry (hdue entry hmem).2.1 (hdue entry hmem).2.2 _ le_rfl
  have hsame : SameContent adm popped.2 :=
    ⟨hwf, hrest.symm, ⟨hframe.limits.trans hframe'.limits.symm, hframe.locks.trans hframe'.locks.symm,
      fun o => (hframe.active o).trans (hframe'.active o).symm,
      fun p => (hframe.pools p).trans (hframe'.pools p).symm⟩,
      fun _ _ hab => hframe'.order_of_same h.adm hadm hwf hframe hrest hab⟩
  have hremoved : Steps env al ⟨e, D⟩ ⟨{ e with adm := popped.2 }, idSet popped.1 ∪ D⟩ :=
    hunqueue.tail (.regroup _ hsame)
  have hqueued : ∀ entry ∈ popped.1, ∃ r, e.registry.lookup entry.spec.id = some r ∧
      r.state = .queued ∧ entry.spec.id ∉ D := by
    intro entry hmem
    obtain ⟨r, hr, hstate, hD, -⟩ := h.of_waiting (show entry ∈ e.adm.waiting by simp [hwait, hmem])
    exact ⟨r, hr, hstate, hD⟩
  have hnodup : (popped.1.map (·.spec.id)).Nodup := by
    have hall := h.adm.unique
    rw [show e.adm.waiting = _ from hwait, map_add] at hall
    exact coe_nodup.mp (nodup_add.mp hall).1
  obtain ⟨hset, hkeep⟩ := settleExpired_foldl al now popped.1 (hremoved.coherent h) hnodup
    (fun entry hmem => by
      obtain ⟨r, -, -, hD⟩ := hqueued entry hmem
      exact hD)
    fun entry hmem => by
      obtain ⟨r, hr, hstate, -⟩ := hqueued entry hmem
      exact ⟨r, hr, hstate⟩
  refine ⟨hremoved.trans hset, fun id r hr hq hlive => hkeep id r (fun entry hmem heq => ?_) hr hlive⟩
  obtain ⟨r', hr', hstate', -⟩ := hqueued entry hmem
  rw [← heq, hr] at hr'
  cases hr'
  exact hq hstate'

theorem sweepExpired_advances (h : Coherent ⟨e, D⟩) (pool : PoolID)
    (hcover : al.Covers now e.obs) : Advances env al D e (e.sweepExpired env pool now) :=
  (settleSwept_advances h hcover).trans
    ⟨evictExpiredTerminal_steps, fun _ _ hr _ hlive => evictExpiredTerminal_lookup hr hlive⟩

/-! ### Cancellation -/

theorem cancelQueued_steps (h : Coherent ⟨e, D⟩) (hr : e.registry.lookup id = some r) (hstate : r.state = .queued) (hD : id ∉ D)
    (hleave : ∀ n, al.leave n (entryOf r)) : Steps env al ⟨e, D⟩ ⟨e.cancelQueued env id r reason, D⟩ := by
  have hid : (entryOf r).spec.id = id := h.key hr
  obtain ⟨hwf, hwait, hframe⟩ := Controller.removeTask_wf h.adm (h.waiting_of hr hstate hD)
  rw [hid] at hwf hwait hframe
  have hunqueue : Micro env al ⟨e.tick, D⟩ ⟨{ e.tick with adm := e.adm.removeTask id }, insert id D⟩ :=
    .unqueue _ hr hstate hD (hleave _) hwf hwait hframe
  have hset : Steps env al ⟨{ e.tick with adm := e.adm.removeTask id }, insert id D⟩
      ⟨e.cancelQueued env id r reason, (insert id D).erase id⟩ :=
    settleBounded_steps hr (Finset.mem_insert_self id D)
      (concludes_queued hstate rfl rfl rfl rfl rfl rfl rfl)
  rw [Finset.erase_insert hD] at hset
  exact ((tick_steps e D).tail hunqueue).trans hset

theorem applyCancel_steps (h : Coherent ⟨e, D⟩) (hD : id ∉ D) (hleave : ∀ r, e.registry.lookup id = some r → ∀ n, al.leave n (entryOf r)) :
    Steps env al ⟨e, D⟩ ⟨(e.applyCancel env id reason).1, D⟩ := by
  rw [applyCancel]
  cases hr : e.registry.lookup id with
  | none => exact Steps.refl _
  | some r =>
    have hmark (hact : r.state.isActive = true) : Steps env al ⟨e, D⟩
        ⟨e.setRecord id { r with cancelRequested := true, cancelReason := reason }, D⟩ :=
      Steps.one (.markCancel reason hr hact)
    dsimp only
    split
    · exact absurd ‹_› (h.past hr).1
    · exact absurd ‹_› (h.past hr).2
    · exact cancelQueued_steps h hr ‹_› hD (hleave r hr)
    iterate 2
      · exact hmark (by simp only [*, TaskState.isActive])
    all_goals exact Steps.refl _

theorem dropTombstones_steps (e : Engine) : Steps env al ⟨e, D⟩ ⟨dropTombstones fuel e, D⟩ := by
  induction fuel generalizing e with
  | zero => exact Steps.refl _
  | succ fuel ih =>
    rw [dropTombstones]
    split_ifs
    · split
      · exact Steps.refl _
      · exact (Steps.one (.scopes _ _)).trans (ih _)
    · exact Steps.refl _

/-- The records `applyCancelScope` cancels are those of its owner and generation. -/
def scopeCovers (scope : ScopeIdentity) (spec : WorkSpec) : Prop :=
  spec.scope.owner = scope.owner ∧ (scope.generation = 0 ∨ spec.scope.generation = scope.generation)

theorem scopeCovers_of_inScope (h : inScope scope r = true) : scopeCovers scope r.spec := by
  simp only [inScope, Bool.and_eq_true, Bool.or_eq_true, beq_iff_eq] at h
  exact h.1

theorem cancelInScope_steps (reason : Cause) (hleave : ∀ entry : QueueEntry, scopeCovers scope entry.spec → ∀ n, al.leave n entry)
    (ids : List TaskID) (e : Engine) (n : Nat) (h : Coherent ⟨e, ∅⟩) :
    Steps env al ⟨e, ∅⟩ ⟨(ids.foldl (cancelInScope env scope reason) (e, n)).1, ∅⟩ := by
  induction ids generalizing e n with
  | nil => exact Steps.refl _
  | cons id ids ih =>
    rw [List.foldl_cons, cancelInScope]
    cases hr : e.registry.lookup id with
    | none => exact ih e n h
    | some r =>
      dsimp only
      by_cases hin : inScope scope r = true
      · have hstep : Steps env al ⟨e, ∅⟩ ⟨(e.applyCancel env id reason).1, ∅⟩ := by
          refine applyCancel_steps h (Finset.notMem_empty id) fun r' hr' => ?_
          rw [hr] at hr'
          cases hr'
          exact hleave _ (scopeCovers_of_inScope hin)
        rw [if_pos hin]
        exact hstep.trans (ih _ _ (hstep.coherent h))
      · rw [if_neg hin]
        exact ih e n h

theorem applyCancelScope_steps (h : Coherent ⟨e, ∅⟩) (scope : ScopeIdentity) (reason : Cause)
    (hleave : ∀ entry : QueueEntry, scopeCovers scope entry.spec → ∀ n, al.leave n entry) :
    Steps env al ⟨e, ∅⟩ ⟨(e.applyCancelScope env scope reason).1, ∅⟩ := by
  unfold applyCancelScope
  dsimp only
  set e1 : Engine := dropTombstones _ _ with he1
  have hdrop : Steps env al ⟨e, ∅⟩ ⟨e1, ∅⟩ := (Steps.one (.scopes _ _)).trans (dropTombstones_steps _)
  have htick : Steps env al ⟨e, ∅⟩ ⟨e1.tick, ∅⟩ := hdrop.trans (tick_steps _ _)
  exact htick.trans (cancelInScope_steps reason hleave _ _ 0 (htick.coherent h))

/-! ### The commit protocol -/

theorem isTerminal_terminalStateFor {outcome : Outcome} : (terminalStateFor outcome).isTerminal = true := by
  cases outcome <;> rfl

theorem settleTerminal_steps_zero (hr : e.registry.lookup id = some r) (hD : id ∈ D) (hrec : Concludes r rec 0) :
    Steps env al ⟨e, D⟩ ⟨e.settleTerminal env rec, D.erase id⟩ := by
  have hsteps : Steps env al _ _ := settleTerminal_steps hr hD hrec
  rwa [show { e with retainedBytes := e.retainedBytes + 0 } = e by rw [add_zero]] at hsteps

theorem settleRecovery_steps (hr : e.registry.lookup id = some r) (hD : id ∈ D) (hstate : r.state = .commitPending) :
    Steps env al ⟨e, D⟩ ⟨e.settleRecovery env r res, D.erase id⟩ := by
  refine settleTerminal_steps hr hD ⟨rfl, rfl, rfl, rfl, rfl, rfl, ?_, fun _ _ => .inr rfl, ?_⟩
  · intro hqueued
    rw [hstate] at hqueued
    cases hqueued
  · split_ifs <;> omega

theorem applyCommitAck_steps {ackErr : Option GoString} (hD : id ∉ D) : Steps env al ⟨e, D⟩ ⟨e.applyCommitAck env id seq ackErr, D⟩ := by
  rw [applyCommitAck]
  cases hr : e.registry.lookup id with
  | none => exact Steps.refl _
  | some r =>
    dsimp only
    split_ifs with hfence
    · exact Steps.refl _
    · push Not at hfence
      obtain ⟨hstate, -, rfl⟩ := hfence
      have hunpend : Micro env al ⟨e, D⟩ ⟨e.unpend r.commitSeq, insert id D⟩ := .unpend hr hstate hD
      have hmem := Finset.mem_insert_self id D
      refine (Steps.one hunpend).trans ?_
      rw [show (⟨_, D⟩ : Stage) = ⟨_, (insert id D).erase id⟩ by rw [Finset.erase_insert hD]]
      cases ackErr with
      | none =>
        refine settleTerminal_steps_zero hr hmem
          ⟨rfl, rfl, rfl, rfl, (add_zero _).symm, isTerminal_terminalStateFor, ?_, fun _ _ => .inl rfl, le_rfl⟩
        intro hqueued
        rw [hstate] at hqueued
        cases hqueued
      | some => exact settleRecovery_steps hr hmem hstate

theorem abandonPending_steps {reason : GoString} (hr : e.registry.lookup id = some r)
    (hD : id ∉ D) : Steps env al ⟨e, D⟩ ⟨e.abandonPending env r reason, D⟩ := by
  rw [abandonPending]
  split_ifs with hstate
  · exact Steps.refl _
  · push Not at hstate
    have hunpend : Micro env al ⟨e, D⟩ ⟨e.unpend r.commitSeq, insert id D⟩ := .unpend hr hstate hD
    refine (Steps.one hunpend).trans ?_
    rw [show (⟨_, D⟩ : Stage) = ⟨_, (insert id D).erase id⟩ by rw [Finset.erase_insert hD]]
    exact settleRecovery_steps hr (Finset.mem_insert_self id D) hstate

theorem directCommit_steps (hD : id ∉ D) : Steps env al ⟨e, D⟩ ⟨e.directCommit env id seq, D⟩ := by
  rw [directCommit]
  split_ifs
  · exact tick_steps e D
  · exact (tick_steps e D).trans (applyCommitAck_steps hD)

theorem awaitPump_steps (hr : e.registry.lookup id = some r) (hstate : r.state = .commitPending) (hseq : r.commitSeq = seq) (hD : id ∉ D) :
    Steps env al ⟨e, D⟩ ⟨e.awaitPump env id seq, D⟩ := by
  subst hseq
  have hawait : Micro env al ⟨e, D⟩ ⟨{ e with commitWaiters := e.commitWaiters.insert r.commitSeq () }, D⟩ :=
    .await hr hstate hD
  rw [awaitPump]
  split_ifs
  · exact (Steps.one hawait).trans (tick_steps _ D)
  · exact ((Steps.one hawait).trans (tick_steps _ D)).trans (applyCommitAck_steps hD)

theorem beginCommit_steps (h : Coherent ⟨e, D⟩)
    (hr : e.registry.lookup id = some r) (hD : id ∈ D) (hact : r.state.isActive = true)
    (hrec : Awaits r { rec with state := .commitPending, durability := .pending } delta) :
    Steps env al ⟨e, D⟩
      ⟨beginCommit env { e with retainedBytes := e.retainedBytes + delta } rec, D.erase id⟩ := by
  have hid : rec.spec.id = id := (congrArg WorkSpec.id hrec.spec).trans (h.key hr)
  subst hid
  set rec' := { rec with state := .commitPending, durability := .pending } with hrec'
  have hpend : Micro env al ⟨e, D⟩ ⟨e.pendRecord rec' delta, D.erase rec.spec.id⟩ :=
    .pend rec' delta hr hD hact hrec
  have hnot : rec.spec.id ∉ D.erase rec.spec.id := Finset.notMem_erase _ _
  have hr' : (e.pendRecord rec' delta).registry.lookup rec.spec.id = some rec' :=
    AList.lookup_insert e.registry
  refine (Steps.one hpend).trans ?_
  rw [beginCommit]
  dsimp only
  split
  · exact directCommit_steps hnot
  · split_ifs
    · exact tick_steps _ _
    · exact (tick_steps _ _).trans ((tick_steps _ _).trans
        (awaitPump_steps (e := (e.pendRecord rec' delta).tick.tick) hr' rfl rfl hnot))
    · exact (tick_steps _ _).trans ((tick_steps _ _).trans (directCommit_steps hnot))
    · exact (tick_steps _ _).trans
        (awaitPump_steps (e := (e.pendRecord rec' delta).tick) hr' rfl rfl hnot)
    · exact (tick_steps _ _).trans (directCommit_steps hnot)

end Engine

end Goultroid
