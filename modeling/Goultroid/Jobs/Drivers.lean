import Goultroid.Jobs.Manager
import Goultroid.Jobs.Protocol

/-!
# What a step of a driver does

Every step of a driver runs at most one transaction, or changes one of the maps, or is a step of the
engine on one attempt (`Task.Change`). None of them takes anything back: an attempt keeps its place among
the attempts of its occurrence, and its row once it is over (`Life.Extends`), and the engine forgets no
attempt and no answer (`Manager.Grows`).

`Env.advance_step` lists the steps of the drivers once, each with what it was conditioned on
(`Task.Step`), and `Task.Step.change` keeps only the effect. The modules on runs use the effect where
they need what the manager keeps, and the step where they follow one driver.
-/

namespace Goultroid.Jobs

open List AList

variable {task : Task} {w : Work} {id : OccurrenceID} {env : Env} {m m' : Manager} {n : Nat} {k : AttemptID} {res : TaskResult}

/-! ### Lives only grow -/

theorem countP_take_le {α : Type*} {p : α → Bool} {xs ys : List α}
    (h : ∀ (k : Nat) (x : α), xs[k]? = some x → ∃ y, ys[k]? = some y ∧ (p y = true → p x = true)) (hn : n ≤ xs.length) :
    (ys.take n).countP p ≤ (xs.take n).countP p := by
  induction n generalizing xs ys with
  | zero => simp
  | succ n ih =>
    cases xs with
    | nil => simp at hn
    | cons x =>
      obtain ⟨y, hy, hp⟩ := h 0 x rfl
      cases ys with
      | nil => simp at hy
      | cons =>
        cases hy
        have hrest := ih (fun k z hz => h (k + 1) z hz) (by simpa using hn)
        simp only [take_succ_cons, countP_cons]
        split_ifs with h1 h2 <;> first | omega | exact absurd (hp h1) h2

namespace Life

variable {l l' : Life} {a : JobAttempt} {scope : Scope}

theorem Extends.length_le (h : l.Extends l') : l.attempts.length ≤ l'.attempts.length := by
  by_contra hlt
  obtain ⟨a', ha', -⟩ := h.attempts l'.attempts.length _ (getElem?_eq_getElem (not_le.mp hlt))
  simp at ha'

theorem Extends.uses_le (h : l.Extends l') (hn : n ≤ l.attempts.length) :
    (l'.attempts.take n).countP (·.state != .deferred) ≤ (l.attempts.take n).countP (·.state != .deferred) := by
  refine countP_take_le (fun k a ha => ?_) hn
  obtain ⟨a', ha', -, hover⟩ := h.attempts k a ha
  refine ⟨a', ha', fun hp => ?_⟩
  by_contra hdef
  have hstate : a.state = .deferred := by simpa using hdef
  rw [hover (by rw [hstate]; rfl)] at hp
  exact hdef hp

theorem Extends.take_eq (h : l.Extends l') (hn : n ≤ l.attempts.length)
    (hover : ∀ a ∈ l.attempts.take n, a.state.active = false) : l'.attempts.take n = l.attempts.take n := by
  apply ext_getElem?
  intro k
  by_cases hk : k < n
  · rw [getElem?_take_of_lt hk, getElem?_take_of_lt hk]
    have hget := getElem?_eq_getElem (lt_of_lt_of_le hk hn)
    obtain ⟨a', ha', -, hsame⟩ := h.attempts k _ hget
    have hmem : l.attempts[k] ∈ l.attempts.take n := by
      rw [mem_take_iff_getElem]
      exact ⟨k, by omega, rfl⟩
    rw [ha', hget, hsame (hover _ hmem)]
  · rw [getElem?_eq_none (by simp; omega), getElem?_eq_none (by simp; omega)]

theorem Ordered.over_take {k : Nat} (hl : l.Ordered) (ha : l.attempts[k]? = some a) (hover : a.state.active = false) :
    ∀ b ∈ l.attempts.take (k + 1), b.state.active = false := by
  intro b hb
  obtain ⟨hk, hka⟩ := List.getElem?_eq_some_iff.mp ha
  obtain ⟨i, hi, rfl⟩ := mem_take_iff_getElem.mp hb
  by_cases heq : i = k
  · subst heq
    rw [hka]
    exact hover
  · apply hl.past
    rw [dropLast_eq_take, mem_take_iff_getElem]
    exact ⟨i, by omega, rfl⟩

theorem Step.grows {k : Option Life} (h : Step scope (some l) k) (hprunes : ¬ scope.prunes) : ∃ l', k = some l' ∧ l.Extends l' := by
  cases k with
  | some l' => exact ⟨l', rfl, h.extends⟩
  | none =>
    cases h with
    | pruned _ _ hp => exact absurd hp hprunes

theorem Step.mem_attempts {k : Option Life} (h : Step scope k (some l)) (ha : a ∈ l.attempts) :
    (∃ l0, k = some l0 ∧ a ∈ l0.attempts) ∨ a.state = .leased ∨ scope.settles a.id a.state := by
  cases h with
  | stay => exact .inl ⟨l, rfl, ha⟩
  | opened => cases ha
  | touched l0 | closed l0 => exact .inl ⟨l0, rfl, ha⟩
  | leased l0 o b now _ hfixed hstate hb =>
    rcases mem_append.mp ha with ha | ha
    · exact .inl ⟨l0, rfl, ha⟩
    · rw [mem_singleton.mp ha]
      exact .inr (.inl hb)
  | settled l0 o b b' _ _ hstate hfixed hsplit _ _ _ _ _ _ hset =>
    rcases mem_append.mp ha with ha | ha
    · exact .inl ⟨l0, rfl, by rw [hsplit]; exact mem_append_left _ ha⟩
    · rcases mem_cons.mp ha with rfl | ha
      · exact .inr (.inr hset)
      · exact .inl ⟨l0, rfl, by rw [hsplit]; exact mem_append_right _ (mem_cons_of_mem _ ha)⟩

end Life

/-! ### What a step changes -/

inductive Phase.Next : Phase → Phase → Prop where
  | finished (res : TaskResult) : Next .running (.pending res)
  | dropped (res : TaskResult) : Next .running (.answered res)
  | unacknowledged (res : TaskResult) : Next (.pending res) (.late res)
  | acknowledged (res : TaskResult) : Next (.pending res) (.answered res)
  | refused (res : TaskResult) : Next (.pending res) (.answered (uncertain res))
  | executed (res : TaskResult) : Next (.late res) (.answered (uncertain res))

def settledState (res : TaskResult) : AttemptState :=
  if res.cause = .rateLimited then .deferred else attemptState res.outcome

def Scope.nothing : Scope := ⟨fun _ => False, fun _ => False, fun _ _ => False, False⟩

/-- Anything but new occurrences. -/
def Scope.closed : Scope := { fresh := fun _ => False }

def Work.scope (w : Work) (res : TaskResult) : Scope :=
  { Scope.nothing with settles := fun k state => k = w.attempt.id ∧ state = settledState res }

def Task.scope : Task → Scope
  | .materialize .. => { Scope.nothing with fresh := (· = .ready) }
  | .drive _ id _ .lease => { Scope.nothing with leases := (· = id) }
  | .drive _ _ _ (.persist a _) =>
    { Scope.nothing with settles := fun k state => k = a.id ∧ state = .abortedBeforeStart }
  | _ => .nothing

inductive Task.Change (env : Env) (m : Manager) : Task → Manager → Prop where
  /-- only the sequence, the admission flag or the head of the queue -/
  | same {task : Task} {m' : Manager} (hstore : m'.store = m.store) (hworks : m'.works = m.works)
    (htracked : m'.tracked = m.tracked) (hqueue : ∀ item ∈ m'.retryQueue, item ∈ m.retryQueue) : Change env m task m'
  | wrote {task : Task} {s' : Store} (t : Transaction) (hperform : m.store.perform env.fmt t = .ok s')
    (hwithin : t.Within task.scope) : Change env m task { m with store := s' }
  | tracked (driver : Driver) (id : OccurrenceID) (definition : JobDefinition) (a : JobAttempt) :
    Change env m (.drive driver id definition (.track a)) { m with tracked := m.tracked.insert id definition }
  | untracked {task : Task} (id : OccurrenceID) : Change env m task { m with tracked := m.tracked.erase id }
  | took (driver : Driver) (id : OccurrenceID) (definition : JobDefinition) (a : JobAttempt)
    (hnew : m.admitted a.id = false) :
    Change env m (.drive driver id definition (.client a)) { m with works := m.works.insert a.id ⟨a, .running⟩ }
  | queued (driver : Driver) (id : OccurrenceID) (definition : JobDefinition) (a : JobAttempt) :
    Change env m (.drive driver id definition (.enqueue a)) { m with retryQueue := m.retryQueue ++ [⟨id, a.id⟩] }
  | worked (k : AttemptID) (w : Work) (phase : Phase) (hw : m.works.lookup k = some w) (hnext : w.phase.Next phase) :
    Change env m .engine { m with works := m.works.insert k { w with phase := phase } }
  | committed (k : AttemptID) (w : Work) (res : TaskResult) (phase : Phase) {s' : Store} (t : Transaction)
    (hw : m.works.lookup k = some w)
    (hphase : w.phase = .pending res ∧ phase = .answered res ∨ w.phase = .late res ∧ phase = .answered (uncertain res))
    (hperform : m.store.perform env.fmt t = .ok s') (hwithin : t.Within (w.scope res)) :
    Change env m .engine { m with store := s', works := m.works.insert k { w with phase := phase } }
  | restarted : Change env m .restart m.restart

inductive Task.Step (env : Env) (choice : Choice) (m : Manager) : Task → Manager → Task → Prop where
  | unsubmitted {jobID key : GoString} {err : SubmitError} : Step env choice m (.submit jobID key) m (.submitted (.error err))
  | entered {jobID key : GoString} {definition : JobDefinition} (hcheck : env.submitCheck m.accepting jobID = .ok definition) :
    Step env choice m (.submit jobID key) { m with sequence := m.sequence + 1 } (.materialize jobID key definition (m.sequence + 1))
  | unmaterialized {jobID key : GoString} {definition : JobDefinition} {n : Nat} {err : SubmitError} :
    Step env choice m (.materialize jobID key definition n) m (.submitted (.error err))
  | materialized {jobID key : GoString} {n : Nat} {s' : Store} {o : JobOccurrence} {definition : JobDefinition}
    (hok : m.store.materializeOccurrence choice.later (Env.submittedOccurrence choice.now jobID key n) = .ok (s', o)) :
    Step env choice m (.materialize jobID key definition n) { m with store := s' } (.drive (.submit jobID) o.id definition .lease)
  | unleased {driver : Driver} {occ : OccurrenceID} {definition : JobDefinition} {err : SubmitError} :
    Step env choice m (.drive driver occ definition .lease) m (driver.failed err)
  | leased {occ : OccurrenceID} {definition : JobDefinition} {s' : Store} {a : JobAttempt} {driver : Driver}
    (hok : m.store.prepareNextAttemptLease env.fmt choice.now choice.later occ (leaseDurationFor definition) = .ok (s', a)) :
    Step env choice m (.drive driver occ definition .lease) { m with store := s' } (.drive driver occ definition (.track a))
  | track {driver : Driver} {occ : OccurrenceID} {definition : JobDefinition} {a : JobAttempt} :
    Step env choice m (.drive driver occ definition (.track a)) { m with tracked := m.tracked.insert occ definition }
      (.drive driver occ definition (.client a))
  | rejected {driver : Driver} {occ : OccurrenceID} {definition : JobDefinition} {a : JobAttempt} {err : Rejection} :
    Step env choice m (.drive driver occ definition (.client a)) m (.drive driver occ definition (.untrack a err))
  | taken {driver : Driver} {occ : OccurrenceID} {definition : JobDefinition} {a : JobAttempt} (hnew : m.admitted a.id = false) :
    Step env choice m (.drive driver occ definition (.client a)) { m with works := m.works.insert a.id ⟨a, .running⟩ }
      (.drive driver occ definition (.enqueue a))
  | untracked {driver : Driver} {occ : OccurrenceID} {definition : JobDefinition} {a : JobAttempt} {err : Rejection} :
    Step env choice m (.drive driver occ definition (.untrack a err)) { m with tracked := m.tracked.erase occ }
      (.drive driver occ definition (.persist a err))
  | unpersisted {driver : Driver} {occ : OccurrenceID} {definition : JobDefinition} {a : JobAttempt} {err : Rejection} :
    Step env choice m (.drive driver occ definition (.persist a err)) m (driver.failed (.rejected err))
  | persisted {a : JobAttempt} {err : Rejection} {s' : Store} {driver : Driver} {occ : OccurrenceID} {definition : JobDefinition}
    (hok : env.persistAttemptResult choice.now a err m.store = .ok s') :
    Step env choice m (.drive driver occ definition (.persist a err)) { m with store := s' } (driver.failed (.rejected err))
  | dropped {driver : Driver} {occ : OccurrenceID} {definition : JobDefinition} {a : JobAttempt}
    (hfull : choice.stop = true ∨ retryQueueCap ≤ m.retryQueue.length) :
    Step env choice m (.drive driver occ definition (.enqueue a)) m (driver.succeeded a)
  | enqueued {driver : Driver} {occ : OccurrenceID} {definition : JobDefinition} {a : JobAttempt} :
    Step env choice m (.drive driver occ definition (.enqueue a)) { m with retryQueue := m.retryQueue ++ [⟨occ, a.id⟩] } (driver.succeeded a)
  | left : Step env choice m .retryLoop m .returned
  | dequeued {item : RetryItem} {rest : List RetryItem} (hqueue : m.retryQueue = item :: rest) :
    Step env choice m .retryLoop { m with retryQueue := rest } (.watch item)
  | unwatched {item : RetryItem} (hnone : m.tracked.lookup item.occurrenceID = none) : Step env choice m (.watch item) m .retryLoop
  | watched {definition : JobDefinition} {item : RetryItem} (hsome : m.tracked.lookup item.occurrenceID = some definition) :
    Step env choice m (.watch item) m (.wait item definition)
  | stopped {item : RetryItem} {definition : JobDefinition} (hstop : choice.stop = true) :
    Step env choice m (.wait item definition) m .retryLoop
  | over {item : RetryItem} {definition : JobDefinition} : Step env choice m (.wait item definition) m (.untrack item)
  | failed {res : TaskResult} {item : RetryItem} {definition : JobDefinition} (hres : m.ticket? item.attempt = some res)
    (hcause : res.cause ≠ .persistenceFailure) :
    Step env choice m (.wait item definition) m (.summary item definition res)
  | given {item : RetryItem} {definition : JobDefinition} {res : TaskResult} :
    Step env choice m (.summary item definition res) m (.untrack item)
  | finalizes {found : AttemptSummary} {res : TaskResult} {state : OccurrenceState} {ground : Ground} {item : RetryItem}
    {definition : JobDefinition} (hsummary : m.store.attemptSummary item.occurrenceID = some found)
    (hverdict : env.watchVerdict definition.retryPolicy res found = .finalize state ground) :
    Step env choice m (.summary item definition res) m (.finalize item state ground)
  | postpones {item : RetryItem} {definition : JobDefinition} {res : TaskResult} {delay : Duration} :
    Step env choice m (.summary item definition res) m (.postpone item delay)
  | proceeds {found : AttemptSummary} {res : TaskResult} {item : RetryItem} {definition : JobDefinition}
    (hsummary : m.store.attemptSummary item.occurrenceID = some found)
    (hverdict : env.watchVerdict definition.retryPolicy res found = .drive) :
    Step env choice m (.summary item definition res) m (.proceed item definition)
  | unfinalized {state : OccurrenceState} {item : RetryItem} {ground : Ground}
    (herr : (choice.call (m.store.finalizeOccurrence choice.now item.occurrenceID state)).isOk = false) :
    Step env choice m (.finalize item state ground) m .retryLoop
  | finalized {state : OccurrenceState} {s' : Store} {item : RetryItem} {ground : Ground}
    (hok : m.store.finalizeOccurrence choice.now item.occurrenceID state = .ok s') :
    Step env choice m (.finalize item state ground) { m with store := s' } (.untrack item)
  | unpostponed {item : RetryItem} {delay : Duration} : Step env choice m (.postpone item delay) m (.untrack item)
  | postponed {delay : Time} {s' : Store} {item : RetryItem}
    (hok : m.store.deferOccurrence choice.later item.occurrenceID (choice.now + delay) = .ok s') :
    Step env choice m (.postpone item delay) { m with store := s' } (.untrack item)
  | again {item : RetryItem} {definition : JobDefinition} :
    Step env choice m (.proceed item definition) m (.drive (.watch item) item.occurrenceID definition .lease)
  | quiet {item : RetryItem} {definition : JobDefinition} (hquiet : m.accepting = false) :
    Step env choice m (.proceed item definition) m .retryLoop
  | forgotten {item : RetryItem} : Step env choice m (.untrack item) { m with tracked := m.tracked.erase item.occurrenceID } .retryLoop
  | unlisted {limit : Int} {res : Except StoreError RecoverReport} : Step env choice m (.recover limit) m (.recovered res)
  | listed {limit : Int} : Step env choice m (.recover limit) m (.scan (m.store.listRecoveryCandidates limit) {})
  | scanned {report : RecoverReport} : Step env choice m (.scan [] report) m (.recovered (.ok report))
  | skipped {c : RecoveryCandidate} {rest : List RecoveryCandidate} {report report' : RecoverReport} :
    Step env choice m (.scan (c :: rest) report) m (.scan rest report')
  | closes {c : RecoveryCandidate} {state : OccurrenceState} {ground : Ground} {rest : List RecoveryCandidate}
    {report report' : RecoverReport} (hfinding : env.finding choice.now (m.tracked.lookup c.occurrence.id).isSome c = .finalize state ground) :
    Step env choice m (.scan (c :: rest) report) m (.close c state ground rest report')
  | drives {c : RecoveryCandidate} {definition : JobDefinition} {rest : List RecoveryCandidate} {report report' : RecoverReport}
    (hfinding : env.finding choice.now (m.tracked.lookup c.occurrence.id).isSome c = .drive definition) :
    Step env choice m (.scan (c :: rest) report) m (.drive (.recover c rest report') c.occurrence.id definition .lease)
  | unclosed {c : RecoveryCandidate} {state : OccurrenceState} {ground : Ground} {rest : List RecoveryCandidate}
    {report report' : RecoverReport} : Step env choice m (.close c state ground rest report) m (.scan rest report')
  | closed {state : OccurrenceState} {s' : Store} {c : RecoveryCandidate} {ground : Ground} {rest : List RecoveryCandidate}
    {report : RecoverReport} (hok : m.store.finalizeOccurrence choice.now c.occurrence.id state = .ok s') :
    Step env choice m (.close c state ground rest report) { m with store := s' } (.closed c rest report)
  | cleared {c : RecoveryCandidate} {rest : List RecoveryCandidate} {report report' : RecoverReport} :
    Step env choice m (.closed c rest report) { m with tracked := m.tracked.erase c.occurrence.id } (.scan rest report')
  | uncancelled {occ : OccurrenceID} {reason : GoString} : Step env choice m (.cancel occ reason) m .returned
  | cancelled {occ : OccurrenceID} {reason : GoString} {s' : Store}
    (hok : m.store.cancelOccurrence env.fmt choice.now occ reason = .ok s') :
    Step env choice m (.cancel occ reason) { m with store := s' } (.cancelled occ)
  | freed {occ : OccurrenceID} : Step env choice m (.cancelled occ) { m with tracked := m.tracked.erase occ } .returned
  | engine {store : Store} {works : AList fun _ : AttemptID => Work}
    (hstep : env.engineStep choice m = some { m with store := store, works := works }) :
    Step env choice m .engine { m with store := store, works := works } .engine
  | quiesced : Step env choice m .quiesce { m with accepting := false } .returned
  | restarted : Step env choice m .restart m.restart .returned

section Inversion

variable {choice : Choice} {task' : Task}

theorem Choice.call_eq_ok {α : Type} {r : Except StoreError α} {x : α} (h : choice.call r = .ok x) : r = .ok x := by
  unfold Choice.call at h
  split_ifs at h
  exact h

theorem Env.commitAttemptResult_perform {now : Time} {s s' : Store} (h : env.commitAttemptResult now w.attempt res s = .ok s') :
    ∃ t, s.perform env.fmt t = .ok s' ∧ t.Within (w.scope res) := by
  unfold Env.commitAttemptResult at h
  by_cases hrate : res.cause = .rateLimited
  · rw [if_pos hrate] at h
    by_cases hzero : res.finishedAt = 0
    · rw [if_pos hzero] at h
      cases h
    · rw [if_neg hzero] at h
      exact ⟨.commitAttemptDeferred now w.attempt.id w.attempt.leaseEpoch _ _, h, rfl, by rw [settledState, if_pos hrate]⟩
  · rw [if_neg hrate] at h
    exact ⟨.commitAttemptResult now w.attempt.id w.attempt.leaseEpoch _ _ _, h, rfl, by rw [settledState, if_neg hrate]⟩

theorem Env.engineStep_change (h : env.engineStep choice m = some m') : Task.Change env m .engine m' := by
  unfold Env.engineStep at h
  split at h
  · cases h
  · rename_i w hw
    split at h
    · rename_i hphase
      cases h
      refine .worked _ w _ hw ?_
      rw [hphase]
      split_ifs
      · exact .dropped _
      · exact .finished _
    · rename_i res hphase
      split_ifs at h with huncommitted
      · cases h
        exact .worked _ w _ hw (by rw [hphase]; exact .unacknowledged res)
      · split at h
        · cases h
          exact .worked _ w _ hw (by rw [hphase]; exact .refused res)
        · rename_i s' hok
          cases h
          obtain ⟨t, hperform, hwithin⟩ := commitAttemptResult_perform (Choice.call_eq_ok hok)
          exact .committed _ w res _ t hw (.inl ⟨hphase, rfl⟩) hperform hwithin
    · rename_i res hphase
      split at h
      · cases h
        exact .worked _ w _ hw (by rw [hphase]; exact .executed res)
      · rename_i s' hok
        cases h
        obtain ⟨t, hperform, hwithin⟩ := commitAttemptResult_perform (Choice.call_eq_ok hok)
        exact .committed _ w res _ t hw (.inr ⟨hphase, rfl⟩) hperform hwithin
    · cases h
    · cases h

theorem Env.engineStep_shape (h : env.engineStep choice m = some m') : ∃ store works, m' = { m with store := store, works := works } := by
  unfold Env.engineStep at h
  split at h
  · cases h
  · split at h
    · exact ⟨_, _, (Option.some.inj h).symm⟩
    · split_ifs at h
      · exact ⟨_, _, (Option.some.inj h).symm⟩
      · split at h <;> exact ⟨_, _, (Option.some.inj h).symm⟩
    · split at h <;> exact ⟨_, _, (Option.some.inj h).symm⟩
    · cases h
    · cases h

theorem Env.drive_step {driver : Driver} {definition : JobDefinition} {pc : DrivePc}
    (h : env.drive choice m driver id definition pc = some (m', task')) :
    Task.Step env choice m (.drive driver id definition pc) m' task' := by
  cases pc with
  | lease =>
    simp only [Env.drive] at h
    split at h <;> cases h
    · exact .unleased
    · next hok => exact .leased (Choice.call_eq_ok hok)
  | track =>
    cases h
    exact .track
  | client =>
    simp only [Env.drive] at h
    split at h
    · cases h
      exact .rejected
    · split_ifs at h with hnew
      cases h
      exact .taken (Bool.eq_false_iff.mpr hnew)
  | untrack =>
    cases h
    exact .untracked
  | persist =>
    simp only [Env.drive] at h
    split at h <;> cases h
    · exact .unpersisted
    · next hok => exact .persisted (Choice.call_eq_ok hok)
  | enqueue =>
    simp only [Env.drive] at h
    split_ifs at h with hfull <;> cases h
    · exact .dropped hfull
    · exact .enqueued

theorem Env.advance_step (h : env.advance choice m task = some (m', task')) : Task.Step env choice m task m' task' := by
  cases task with
  | submit =>
    simp only [Env.advance] at h
    split at h <;> cases h
    · exact .unsubmitted
    · next hcheck => exact .entered hcheck
  | materialize =>
    simp only [Env.advance] at h
    split at h <;> cases h
    · exact .unmaterialized
    · next hok => exact .materialized (Choice.call_eq_ok hok)
  | drive => exact drive_step h
  | retryLoop =>
    simp only [Env.advance] at h
    split_ifs at h
    · cases h
      exact .left
    · split at h <;> cases h
      next hqueue => exact .dequeued hqueue
  | watch =>
    simp only [Env.advance] at h
    split at h <;> cases h
    · next hnone => exact .unwatched hnone
    · next hsome => exact .watched hsome
  | wait =>
    simp only [Env.advance] at h
    split_ifs at h with hstop
    · cases h
      exact .stopped hstop
    · split at h
      · cases h
      · next hres =>
        split_ifs at h with hcause hcommit <;> cases h
        · exact .over
        · exact .over
        · exact .failed hres hcause
  | summary =>
    simp only [Env.advance] at h
    split_ifs at h
    · cases h
      exact .given
    · split at h
      · cases h
        exact .given
      · next hsummary =>
        split at h <;> cases h
        · exact .given
        · next hverdict => exact .finalizes hsummary hverdict
        · exact .postpones
        · next hverdict => exact .proceeds hsummary hverdict
  | finalize =>
    simp only [Env.advance] at h
    split at h <;> cases h
    · next herr => exact .unfinalized (by rw [herr]; rfl)
    · next hok => exact .finalized (Choice.call_eq_ok hok)
  | postpone =>
    simp only [Env.advance] at h
    split at h <;> cases h
    · exact .unpostponed
    · next hok => exact .postponed (Choice.call_eq_ok hok)
  | proceed =>
    simp only [Env.advance] at h
    split_ifs at h with haccepting <;> cases h
    · exact .again
    · exact .quiet (Bool.eq_false_iff.mpr haccepting)
  | untrack =>
    cases h
    exact .forgotten
  | recover =>
    simp only [Env.advance] at h
    split_ifs at h <;> cases h
    · exact .unlisted
    · exact .listed
  | scan candidates =>
    cases candidates with
    | nil =>
      cases h
      exact .scanned
    | cons =>
      simp only [Env.advance] at h
      split at h <;> cases h
      iterate 3
        · exact .skipped
      · next hfinding => exact .closes hfinding
      · next hfinding => exact .drives hfinding
  | close =>
    simp only [Env.advance] at h
    split at h <;> cases h
    · exact .unclosed
    · next hok => exact .closed (Choice.call_eq_ok hok)
  | closed =>
    cases h
    exact .cleared
  | cancel =>
    simp only [Env.advance] at h
    split at h <;> cases h
    · exact .uncancelled
    · next hok => exact .cancelled (Choice.call_eq_ok hok)
  | cancelled =>
    cases h
    exact .freed
  | engine =>
    obtain ⟨m1, hstep, heq⟩ := Option.map_eq_some_iff.mp h
    cases heq
    obtain ⟨_, _, rfl⟩ := engineStep_shape hstep
    exact .engine hstep
  | quiesce =>
    cases h
    exact .quiesced
  | restart =>
    cases h
    exact .restarted
  | submitted | recovered | returned => cases h

theorem Task.Change.stay (task : Task) : Task.Change env m task m := .same rfl rfl rfl fun _ h => h

theorem Task.Step.change (h : Task.Step env choice m task m' task') : task.Change env m m' := by
  cases h with
  | entered | quiesced => exact .same rfl rfl rfl fun _ h => h
  | @materialized jobID key sequence s' o definition hok =>
    refine .wrote (.materializeOccurrence choice.later (Env.submittedOccurrence choice.now jobID key sequence)) ?_ rfl
    simp [Store.perform, hok, Except.map]
  | @leased id definition s' a driver hok =>
    refine .wrote (.prepareNextAttemptLease choice.now choice.later id (leaseDurationFor definition)) ?_ rfl
    simp [Store.perform, hok, Except.map]
  | track => exact .tracked _ _ _ _
  | taken hnew => exact .took _ _ _ _ hnew
  | untracked | forgotten | cleared | freed => exact .untracked _
  | @persisted a err s' driver id definition hok =>
    exact .wrote (.commitAttemptResult choice.now a.id a.leaseEpoch .abortedBeforeStart _ _) hok ⟨rfl, rfl⟩
  | enqueued => exact .queued _ _ _ _
  | dequeued hqueue => exact .same rfl rfl rfl fun i hi => by rw [hqueue]; exact mem_cons_of_mem _ hi
  | @finalized state s' item ground hok => exact .wrote (.finalizeOccurrence choice.now item.occurrenceID state) hok trivial
  | @postponed delay s' item hok =>
    exact .wrote (.deferOccurrence choice.later item.occurrenceID (choice.now + delay)) hok trivial
  | @closed state s' c ground rest report hok => exact .wrote (.finalizeOccurrence choice.now c.occurrence.id state) hok trivial
  | @cancelled id reason s' hok => exact .wrote (.cancelOccurrence choice.now id reason) hok trivial
  | engine hstep => exact Env.engineStep_change hstep
  | restarted => exact .restarted
  | _ => exact .stay _

theorem Env.advance_change (h : env.advance choice m task = some (m', task')) : task.Change env m m' := (Env.advance_step h).change

end Inversion

/-! ### What is never taken back -/

/-- The engine may have committed a deferral of the attempt, or may still do so unseen. -/
def Phase.mayDefer : Phase → Bool
  | .running | .pending _ => false
  | .late _ | .lost => true
  | .answered res => res.cause == .rateLimited || res.cause == .persistenceFailure

/-- The ticket keeps its answer, and what may have been deferred stays so. -/
structure Work.Grows (w w' : Work) : Prop where
  attempt : w'.attempt = w.attempt
  ticket : ∀ res, w.ticket? = some res → w'.ticket? = some res
  mayDefer : w.phase.mayDefer = true → w'.phase.mayDefer = true

theorem Work.Grows.refl (w : Work) : w.Grows w := ⟨rfl, fun _ h => h, fun h => h⟩

theorem Phase.Next.grows {phase : Phase} (h : w.phase.Next phase) : w.Grows { w with phase := phase } := by
  obtain ⟨a, _⟩ := w
  cases h with
  | executed =>
    refine ⟨rfl, fun r hr => ?_, fun _ => by simp [Phase.mayDefer, uncertain]⟩
    simpa [Work.ticket?] using hr
  | _ => exact ⟨rfl, by simp [Work.ticket?], by simp [Phase.mayDefer]⟩

theorem Work.grows_lose (w : Work) : w.Grows w.lose := by
  obtain ⟨a, phase⟩ := w
  cases phase with
  | answered => exact .refl _
  | late res => exact (Phase.Next.executed res).grows
  | _ => exact ⟨rfl, by simp [Work.ticket?], by simp [Phase.mayDefer, Work.lose]⟩

namespace Manager

structure Grows (m m' : Manager) : Prop where
  lives : ∀ id l, m.store.life id = some l → ∃ l', m'.store.life id = some l' ∧ l.Extends l'
  works : ∀ k w, m.works.lookup k = some w → ∃ w', m'.works.lookup k = some w' ∧ w.Grows w'

theorem Grows.ticket (h : m.Grows m') (hres : m.ticket? k = some res) : m'.ticket? k = some res := by
  obtain ⟨w, hw, hres⟩ := Option.bind_eq_some_iff.mp hres
  obtain ⟨w', hw', hgrows⟩ := h.works k w hw
  exact Option.bind_eq_some_iff.mpr ⟨w', hw', hgrows.ticket res hres⟩

theorem Grows.admitted (h : m.Grows m') (hk : m.admitted k = true) : m'.admitted k = true := by
  obtain ⟨w, hw⟩ := Option.isSome_iff_exists.mp hk
  obtain ⟨w', hw', -⟩ := h.works k w hw
  exact Option.isSome_iff_exists.mpr ⟨w', hw'⟩

theorem lookup_restart : m.restart.works.lookup k = (m.works.lookup k).map Work.lose :=
  dlookup_map₂ (l := m.works.entries) (f := fun _ => Work.lose) k

end Manager

/-! ### The transactions of a step -/

namespace Task

theorem not_prunes : ¬ task.scope.prunes := by
  cases task with
  | drive _ occ _ pc => cases pc <;> exact id
  | _ => exact id

theorem scope_leases (h : task.scope.leases id) : ∃ driver definition, task = .drive driver id definition .lease := by
  cases task with
  | drive driver occ definition pc =>
    cases pc with
    | lease =>
      obtain rfl : id = occ := h
      exact ⟨driver, definition, rfl⟩
    | _ => exact h.elim
  | _ => exact h.elim

theorem scope_settles {state : AttemptState} (h : task.scope.settles k state) : state = .abortedBeforeStart := by
  cases task with
  | drive _ occ _ pc =>
    cases pc with
    | persist => exact h.2
    | _ => exact h.elim
  | _ => exact h.elim

end Task

theorem rateLimited_of_settledState (h : settledState res = .deferred) : res.cause = .rateLimited := by
  by_contra hrate
  rw [settledState, if_neg hrate] at h
  unfold attemptState at h
  split at h <;> cases h

theorem Task.Change.step (h : task.Change env m m') (hworks : ∀ k w, m.works.lookup k = some w → w.attempt.id = k) :
    ∃ scope : Scope, (∀ j, Life.Step scope (m.store.life j) (m'.store.life j)) ∧ ¬ scope.prunes ∧
      (∀ id, scope.leases id → ∃ driver definition, task = .drive driver id definition .lease) ∧
      ∀ k state, scope.settles k state → (state = .abortedBeforeStart ∨ m'.admitted k = true) ∧
        (state = .deferred → ∃ w, m'.works.lookup k = some w ∧ w.phase.mayDefer = true) := by
  have hnot (hstore : m'.store = m.store) : ∃ scope : Scope,
      (∀ j, Life.Step scope (m.store.life j) (m'.store.life j)) ∧ ¬ scope.prunes ∧
      (∀ id, scope.leases id → ∃ driver definition, task = .drive driver id definition .lease) ∧
      ∀ k state, scope.settles k state → (state = .abortedBeforeStart ∨ m'.admitted k = true) ∧
        (state = .deferred → ∃ w, m'.works.lookup k = some w ∧ w.phase.mayDefer = true) :=
    ⟨.nothing, fun j => by rw [hstore]; exact .stay _, id, fun _ h => h.elim, fun _ _ h => h.elim⟩
  cases h with
  | same hstore => exact hnot hstore
  | wrote t hperform hwithin =>
    refine ⟨task.scope, fun j => Store.perform_life hperform hwithin j, task.not_prunes, fun _ h => scope_leases h, ?_⟩
    intro k state hset
    have hstate := scope_settles hset
    exact ⟨.inl hstate, fun hdef => by simp [hstate] at hdef⟩
  | committed k w res phase t hw hphase hperform hwithin =>
    refine ⟨w.scope res, fun j => Store.perform_life hperform hwithin j, id, fun _ h => h.elim, ?_⟩
    rintro k' state ⟨rfl, rfl⟩
    rw [hworks k w hw]
    refine ⟨.inr (by simp [Manager.admitted]), fun hdef => ⟨_, lookup_insert _, ?_⟩⟩
    have hrate := rateLimited_of_settledState hdef
    rcases hphase with ⟨-, rfl⟩ | ⟨-, rfl⟩
    · simp [Phase.mayDefer, hrate]
    · simp [Phase.mayDefer, uncertain]
  | _ => exact hnot rfl

theorem Task.Change.grows (h : task.Change env m m')
    (hworks : ∀ k w, m.works.lookup k = some w → w.attempt.id = k) : m.Grows m' where
  lives := by
    intro id l hl
    obtain ⟨_, hstep, hprunes, -⟩ := h.step hworks
    have hid := hstep id
    rw [hl] at hid
    exact hid.grows hprunes
  works := by
    intro k w hw
    have hmoved (k0 : AttemptID) (w0 : Work) (phase : Phase) (hw0 : m.works.lookup k0 = some w0)
        (hnext : w0.phase.Next phase) :
        ∃ w', (m.works.insert k0 { w0 with phase := phase }).lookup k = some w' ∧ w.Grows w' := by
      by_cases hk : k = k0
      · subst hk
        obtain rfl := Option.mem_unique hw hw0
        exact ⟨_, lookup_insert _, hnext.grows⟩
      · exact ⟨w, by rw [lookup_insert_ne hk]; exact hw, .refl w⟩
    cases h with
    | same _ hworks => exact ⟨w, by rw [hworks]; exact hw, .refl w⟩
    | took _ id _ a hnew =>
      have hk : k ≠ a.id := by
        rintro rfl
        simp [Manager.admitted, hw] at hnew
      exact ⟨w, by rw [lookup_insert_ne hk]; exact hw, .refl w⟩
    | worked k0 w0 phase hw0 hnext => exact hmoved k0 w0 phase hw0 hnext
    | committed k0 w0 res phase t hw0 hphase =>
      refine hmoved k0 w0 phase hw0 ?_
      rcases hphase with ⟨hbefore, rfl⟩ | ⟨hbefore, rfl⟩ <;> rw [hbefore]
      · exact .acknowledged res
      · exact .executed res
    | restarted => exact ⟨w.lose, by rw [Manager.lookup_restart, hw]; rfl, w.grows_lose⟩
    | _ => exact ⟨w, hw, .refl w⟩

end Goultroid.Jobs
