import Goultroid.Jobs.Budget

/-!
# Rejected submissions

An attempt whose submission the engine rejects is recorded as `aborted_before_start`, and the budget is
the number of attempts that are not deferred: a rejection uses it up like a run. What `Recover` and
`watchAttempt` count before they give an occurrence up is the number of attempts the engine took, as long
as none of the attempts is recorded so (`Task.counted`) and, for `watchAttempt`, none was leased after the
one it watched, since that one may not have reached the engine yet.

What a driver counted of the attempts up to the one it saw is still true when it acts
(`RecoveryCandidate.Seen`, `RetryItem.Exhausted`). An attempt that is over was taken by the engine, or is
recorded as aborted before its start (`Manager.Sound`). Under the condition there is none of the latter,
and so the count is the number of attempts that the engine took.
-/

namespace Goultroid.Jobs

open List Option Store Bool
open Threads (Pool Act Run)

def Manager.admittedOf (m : Manager) (id : OccurrenceID) : Nat :=
  (m.store.attemptsOf id).countP fun a => m.admitted a.id

/-- The occurrence that the next step finalizes because its budget is used up. -/
def Task.givesUp : Task → Option OccurrenceID
  | .finalize item _ .budget => some item.occurrenceID
  | .close c _ .budget _ _ => some c.occurrence.id
  | _ => none

/-- No attempt of the occurrence is recorded as aborted before its start. -/
def Manager.noneAborted (m : Manager) (id : OccurrenceID) : Bool :=
  (m.store.attemptsOf id).all fun a => a.state != .abortedBeforeStart

/-- `SubmitOccurrence` leases occurrences of its own job, and an occurrence is given up for its budget only
if none of its attempts was aborted before its start and the watched one is the latest. -/
def Task.counted (m : Manager) (task : Task) : Bool :=
  task.ownJob m && match task with
  | .finalize item _ .budget =>
    m.noneAborted item.occurrenceID && (m.store.latestAttempt item.occurrenceID).all fun a => a.id == item.attempt
  | .close c _ .budget _ _ => m.noneAborted c.occurrence.id
  | _ => true

section

variable {m : Manager} {id : OccurrenceID} {env : Env} {l : Life}

theorem Manager.Sound.admitted_of_over {a : JobAttempt} (hm : m.Sound env) (hl : m.store.life id = some l)
    (hnone : m.noneAborted id = true) (ha : a ∈ l.attempts) (hover : a.state.active = false) : m.admitted a.id = true := by
  rw [Manager.noneAborted, ← (Store.life_eq_some hl).2, List.all_eq_true] at hnone
  rcases hm.settled id l hl a ha hover with haborted | hadmitted
  · have hne := hnone a ha
    rw [haborted] at hne
    cases hne
  · exact hadmitted

theorem Manager.Sound.admittedOf_eq {last : JobAttempt} (hm : m.Sound env) (hl : m.store.life id = some l) (hnone : m.noneAborted id = true)
    (hlast : l.attempts.getLast? = some last) (hadmitted : m.admitted last.id = true) : m.admittedOf id = l.attempts.length := by
  rw [Manager.admittedOf, ← (life_eq_some hl).2, countP_eq_length]
  intro a ha
  obtain ⟨init, heq⟩ := getLast?_eq_some_iff.mp hlast
  have hover : ∀ b ∈ init, b.state.active = false := fun b hb => (hm.ordered id l hl).past b (by simpa [heq] using hb)
  rw [heq] at ha
  rcases mem_append.mp ha with hinit | hsingleton
  · exact hm.admitted_of_over hl hnone (by rw [heq]; exact ha) (hover a hinit)
  · rw [mem_singleton.mp hsingleton]
    exact hadmitted

theorem RecoveryCandidate.Seen.uses_le_admittedOf {c : RecoveryCandidate} (h : c.Seen m) (hm : m.Sound env)
    (hover : c.summary.latest.state.active = false) (hnone : m.noneAborted c.occurrence.id = true) :
    c.summary.retryBudgetUses ≤ m.admittedOf c.occurrence.id := by
  obtain ⟨l, hl, -, hcount⟩ := h
  obtain ⟨i, ha, huses, -⟩ := hcount hover
  have htaken : (l.attempts.take (i + 1)).countP (fun a => m.admitted a.id) = (l.attempts.take (i + 1)).length := by
    rw [countP_eq_length]
    intro a htake
    exact hm.admitted_of_over hl hnone (mem_of_mem_take htake) ((hm.ordered _ l hl).over_take ha hover a htake)
  calc c.summary.retryBudgetUses = budgetUses (l.attempts.take (i + 1)) := huses.symm
    _ ≤ (l.attempts.take (i + 1)).length := countP_le_length
    _ = (l.attempts.take (i + 1)).countP (fun a => m.admitted a.id) := htaken.symm
    _ ≤ m.admittedOf c.occurrence.id := by
      rw [Manager.admittedOf, ← (life_eq_some hl).2]
      exact (take_sublist _ _).countP_le

theorem RetryItem.Exhausted.le_admittedOf {d : JobDefinition} {item : RetryItem} (h : item.Exhausted env m)
    (hm : m.Sound env) (hnone : m.noneAborted item.occurrenceID = true)
    (hlatest : ((m.store.latestAttempt item.occurrenceID).all fun a => a.id == item.attempt) = true)
    (hl : m.store.life item.occurrenceID = some l) (hd : env.definitions.lookup l.occurrence.jobID = some d) :
    maxAttempts d.retryPolicy ≤ m.admittedOf item.occurrenceID := by
  obtain ⟨⟨l', hl', i, a, ha, -⟩, hadmitted, l'', _, hl'', hdef, hlen⟩ := h
  obtain rfl := mem_unique hl hl'
  obtain rfl := mem_unique hl hl''
  obtain rfl := mem_unique hd hdef
  rw [Store.latestAttempt, ← (life_eq_some hl).2, (hm.ordered _ l hl).numbered.latestOf_eq] at hlatest
  cases hlast : l.attempts.getLast? with
  | none => simp [getLast?_eq_none_iff.mp hlast] at ha
  | some =>
    rw [hlast, all_some, beq_iff_eq] at hlatest
    rw [hm.admittedOf_eq hl hnone hlast (by rw [hlatest]; exact hadmitted)]
    exact hlen

end

/-- In every interleaving of submissions, watchers, recovery passes, cancellations, results and restarts
whose steps meet the condition: whoever is about to finalize an occurrence because its budget is used up,
under that condition, does so after at least as many of its attempts went to the engine as its job allows. -/
theorem budget_spent_on_admitted (env : Env) (s₀ : Store) (h₀ : s₀.Blank) (p : Pool Manager Thread)
    (hrun : Run env.program Thread.entry (Guarded Task.counted) (start s₀) p) :
    ∀ t ∈ p.threads, t.task.counted p.shared = true → ∀ id, t.task.givesUp = some id →
      ∀ o, p.shared.store.occurrence? id = some o → ∀ d, env.definitions.lookup o.jobID = some d →
        max 1 d.retryPolicy.maxAttempts ≤ (p.shared.admittedOf id : Int) := by
  intro t ht hcount id hgives o ho d hd
  have hown : ∀ m task, Task.counted m task = true → task.ownJob m = true := by
    intro m task h
    exact (and_eq_true _ _ ▸ h).1
  obtain ⟨hsound, hfits⟩ := run_inv hown h₀ hrun
  have hl := life_of_occurrence? ho
  have hfit := hfits t ht
  rw [← maxAttempts_eq_max]
  unfold Task.givesUp at hgives
  split at hgives
  · rename_i item state htask
    cases hgives
    simp only [htask, Task.counted, and_eq_true] at hcount
    rw [htask] at hfit
    exact (hfit rfl).le_admittedOf hsound hcount.2.1 hcount.2.2 hl hd
  · rename_i c state rest report htask
    cases hgives
    simp only [htask, Task.counted, and_eq_true] at hcount
    rw [htask] at hfit
    obtain ⟨hover, _, ⟨l, hl', hdef⟩, _⟩ := hfit.2 rfl
    obtain rfl := mem_unique hl hl'
    obtain rfl := mem_unique hd hdef
    have hle := (hfit.1 c mem_cons_self).uses_le_admittedOf hsound hover hcount.2
    omega
  · cases hgives

/-- The one attempt that is allowed fails, and the retry loop, thread 2, is about to give the occurrence up. -/
def exhausted : List (Act Thread Choice) := failedOnce ++ .call ⟨0, .retryLoop⟩ :: stepsAt 2 4 20

theorem budget_spent_on_admitted_exhausted :
    ∃ p, Run (oneJob { maxAttempts := 1 }).program Thread.entry (Guarded Task.counted) (start oneJobStore) p ∧
      (∃ t ∈ p.threads, t.task.counted p.shared = true ∧ t.task.givesUp = some firstOccurrence) ∧
      ∀ t ∈ p.threads, t.task.counted p.shared = true → ∀ id, t.task.givesUp = some id →
        ∀ o, p.shared.store.occurrence? id = some o →
          ∀ d, (oneJob { maxAttempts := 1 }).definitions.lookup o.jobID = some d →
            max 1 d.retryPolicy.maxAttempts ≤ (p.shared.admittedOf id : Int) := by
  obtain ⟨p, hrun, hgives⟩ :
      ∃ p, Run (oneJob { maxAttempts := 1 }).program Thread.entry (Guarded Task.counted) (start oneJobStore) p ∧
        ∃ t ∈ p.threads, t.task.counted p.shared = true ∧ t.task.givesUp = some firstOccurrence :=
    Run.of_check exhausted (by decide +kernel)
  exact ⟨p, hrun, hgives, budget_spent_on_admitted _ oneJobStore (blank_ofDefinitions _) p hrun⟩

/-- The engine rejects the only submission, and a recovery pass, thread 1, comes to the occurrence. -/
def rejectedOnce : List (Act Thread Choice) :=
  submission :: stepsAt 0 4 10 ++ [.move 0 { rejection := some {} }] ++ stepsAt 0 2 10 ++
    .call ⟨0, .recover 10⟩ :: stepsAt 1 2 20

/-- The pass finalizes the occurrence as failed because its budget is used up, and the engine never took
an attempt. -/
theorem failed_without_admission :
    oneJobStore.Blank ∧ ∃ p p', Run (oneJob { maxAttempts := 1 }).program Thread.entry (fun _ _ => true) (start oneJobStore) p ∧
      (∃ t, p.threads[1]? = some t ∧ t.task.givesUp = some firstOccurrence) ∧ p.shared.admittedOf firstOccurrence = 0 ∧
      p.act (oneJob { maxAttempts := 1 }).program Thread.entry (.move 1 { now := 20 }) = some p' ∧
      (p'.shared.store.occurrence? firstOccurrence).map JobOccurrence.state = some .failed := by
  obtain ⟨p, hrun, hgives, hnone, p', hfail⟩ :
      ∃ p, Run (oneJob { maxAttempts := 1 }).program Thread.entry (fun _ _ => true) (start oneJobStore) p ∧
        (∃ t, p.threads[1]? = some t ∧ t.task.givesUp = some firstOccurrence) ∧ p.shared.admittedOf firstOccurrence = 0 ∧
        ∃ p', p.act (oneJob { maxAttempts := 1 }).program Thread.entry (.move 1 { now := 20 }) = some p' ∧
          (p'.shared.store.occurrence? firstOccurrence).map JobOccurrence.state = some .failed :=
    Run.of_check rejectedOnce (by decide +kernel)
  exact ⟨blank_ofDefinitions _, p, p', hrun, hgives, hnone, hfail⟩

end Goultroid.Jobs
