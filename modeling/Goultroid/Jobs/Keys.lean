import Goultroid.Jobs.Budget
import Goultroid.Jobs.Recovery

/-!
# Occurrence keys

`MaterializeOccurrence` is idempotent on the occurrence key: a key that is stored already resolves to the
occurrence that has it, whatever its job and state are, and `SubmitOccurrence` goes on with that one. A
key therefore has to belong to the submitted job, and the key that `Trigger` derives from the sequence of
the process has to be new. Neither is checked; here is when it holds.

For the job of a key a submission is followed from its materialization on (`Submission`): an occurrence
keeps its job, so the key had to be right once. For triggers, `GivenOut` says that the numbers in stored
keys and those of pending triggers were given out, the latter once each, and that no pending one is
stored. So the next number is in no key, and a trigger that materializes inserts its own.
-/

namespace Goultroid.Jobs

open List Store Jobs.Env Threads
open Text (append_cut colon_notMem_decimal decimal)
open Threads (Act Acts Pool Run)

variable {o : JobOccurrence} {s s' : Store} {key jobID : GoString} {n : Nat} {now : Time}

/-- The key under which `SubmitOccurrence` materializes. -/
def submittedKey (jobID occurrenceKey : GoString) (sequence : Nat) : GoString :=
  (Env.submittedOccurrence 0 jobID occurrenceKey sequence).occurrenceKey

theorem submittedOccurrence_key {occurrenceKey : GoString} :
    (Env.submittedOccurrence now jobID occurrenceKey n).occurrenceKey = submittedKey jobID occurrenceKey n := rfl

theorem Store.mem_of_occurrenceByKey? (h : s.occurrenceByKey? key = some o) : o ∈ s.occurrences.rows ∧ o.occurrenceKey = key :=
  ⟨mem_of_find?_eq_some h, by simpa using find?_some h⟩

/-! ### Keys of other jobs -/

/-- No occurrence of another job has the key that is materialized. -/
def Task.ownKey (m : Manager) : Task → Bool
  | .materialize jobID key _ sequence =>
    (m.store.occurrenceByKey? (submittedKey jobID key sequence)).all fun o => o.jobID == jobID
  | _ => true

/-- `SubmitOccurrence` drives an occurrence of its own job. -/
def Task.Own (m : Manager) : Task → Prop
  | .drive (.submit jobID) id _ _ => ∃ l, m.store.life id = some l ∧ l.occurrence.jobID = jobID
  | _ => True

section OwnJobs

variable {env : Env} {choice : Choice} {m m' : Manager} {task task' : Task} {p : Pool Manager Thread}

theorem Task.Own.mono (h : task.Own m) (hgrows : m.Grows m') : task.Own m' := by
  cases task with
  | drive driver id =>
    cases driver with
    | submit jobID =>
      obtain ⟨l, hl, hjob⟩ := h
      obtain ⟨l', hl', hext⟩ := hgrows.lives id l hl
      exact ⟨l', hl', hext.jobID.trans hjob⟩
    | _ => trivial
  | _ => trivial

theorem Task.Change.works_id (h : task.Change env m m') (hworks : ∀ k w, m.works.lookup k = some w → w.attempt.id = k) :
    ∀ k w, m'.works.lookup k = some w → w.attempt.id = k := by
  have hinsert {k0 : AttemptID} {w0 : Work} (hid : w0.attempt.id = k0) :
      ∀ k w, (m.works.insert k0 w0).lookup k = some w → w.attempt.id = k := by
    intro k w hw
    by_cases hk : k = k0
    · subst hk
      obtain rfl := Option.some.inj ((AList.lookup_insert _).symm.trans hw)
      exact hid
    · rw [AList.lookup_insert_ne hk] at hw
      exact hworks k w hw
  cases h with
  | same _ hsame => rw [hsame]; exact hworks
  | took => exact hinsert rfl
  | worked k0 w0 phase hw0 | committed k0 w0 res phase t hw0 => exact hinsert (hworks k0 w0 hw0)
  | restarted =>
    intro k w hw
    rw [Manager.lookup_restart] at hw
    obtain ⟨w0, hw0, rfl⟩ := Option.map_eq_some_iff.mp hw
    rw [w0.grows_lose.attempt]
    exact hworks k w0 hw0
  | _ => exact hworks

/-- The tasks that `SubmitOccurrence` goes through once it was let in. -/
def Task.submitting : Task → Bool
  | .materialize .. => true
  | .drive (.submit _) .. => true
  | _ => false

def Task.materializing : Task → Bool
  | .materialize .. => true
  | _ => false

inductive Submission (choice : Choice) (m : Manager) : Task → Manager → Task → Prop where
  | entered (jobID key : GoString) (definition : JobDefinition) :
    Submission choice m (.submit jobID key) { m with sequence := m.sequence + 1 }
      (.materialize jobID key definition (m.sequence + 1))
  | refused (jobID key : GoString) (definition : JobDefinition) (sequence : Nat) (err : SubmitError) :
    Submission choice m (.materialize jobID key definition sequence) m (.submitted (.error err))
  | materialized (jobID key : GoString) (definition : JobDefinition) (sequence : Nat) (s' : Store) (o : JobOccurrence)
    (hok : m.store.materializeOccurrence choice.later (Env.submittedOccurrence choice.now jobID key sequence) = .ok (s', o)) :
    Submission choice m (.materialize jobID key definition sequence) { m with store := s' }
      (.drive (.submit jobID) o.id definition .lease)
  | driven (jobID : GoString) (id : OccurrenceID) (definition : JobDefinition) (pc pc' : DrivePc) (m' : Manager)
    (hsequence : m'.sequence = m.sequence) (hprocess : m'.process = m.process) :
    Submission choice m (.drive (.submit jobID) id definition pc) m' (.drive (.submit jobID) id definition pc')
  | restarted : Submission choice m .restart m.restart .returned
  | apart (task : Task) (m' : Manager) (task' : Task) (hsequence : m'.sequence = m.sequence)
    (hprocess : m'.process = m.process) (htask : task.materializing = false) (htask' : task'.submitting = false) :
    Submission choice m task m' task'

theorem Task.Step.submission (h : Task.Step env choice m task m' task') : Submission choice m task m' task' := by
  have hgoes {driver : Driver} {id : OccurrenceID} {definition : JobDefinition} (pc pc' : DrivePc) {m1 : Manager}
      (hsequence : m1.sequence = m.sequence) (hprocess : m1.process = m.process) :
      Submission choice m (.drive driver id definition pc) m1 (.drive driver id definition pc') := by
    cases driver with
    | submit => exact .driven _ _ _ _ _ _ hsequence hprocess
    | _ => exact .apart _ _ _ hsequence hprocess rfl rfl
  have hfail (driver : Driver) (err : SubmitError) : (driver.failed err).submitting = false := by cases driver <;> rfl
  have hsucceeded (driver : Driver) (a : JobAttempt) : (driver.succeeded a).submitting = false := by cases driver <;> rfl
  cases h with
  | entered => exact .entered _ _ _
  | unmaterialized => exact .refused ..
  | materialized hok => exact .materialized _ _ _ _ _ _ hok
  | leased | track | rejected | taken | untracked => exact hgoes _ _ rfl rfl
  | unleased | unpersisted | persisted => exact .apart _ _ _ rfl rfl rfl (hfail _ _)
  | dropped | enqueued => exact .apart _ _ _ rfl rfl rfl (hsucceeded _ _)
  | restarted => exact .restarted
  | _ => exact .apart _ _ _ rfl rfl rfl rfl

theorem own_of_materialized {definition : JobDefinition}
    (hok : m.store.materializeOccurrence choice.later (Env.submittedOccurrence choice.now jobID key n) = .ok (s', o))
    (hkey : (Task.materialize jobID key definition n).ownKey m = true) : ∃ l, s'.life o.id = some l ∧ l.occurrence.jobID = jobID := by
  rcases materializeOccurrence_ok hok with ⟨rfl, hinsert⟩ | ⟨rfl, hfound⟩
  · have hlife := (life_insertOccurrence? hinsert).2 (Store.materialized choice.later
      (Env.submittedOccurrence choice.now jobID key n)).id
    rw [if_pos rfl] at hlife
    exact ⟨_, hlife, rfl⟩
  · rw [submittedOccurrence_key] at hfound
    have hlife := life_of_occurrence? (occurrence?_of_mem (mem_of_occurrenceByKey? hfound).1)
    refine ⟨_, hlife, ?_⟩
    simpa [Task.ownKey, hfound] using hkey

theorem Submission.own (h : Submission choice m task m' task') (hown : task.Own m') (hkey : task.ownKey m = true) : task'.Own m' := by
  cases h with
  | materialized _ key _ _ s' o hok => exact own_of_materialized hok hkey
  | driven => exact hown
  | apart _ _ _ _ _ _ htask' =>
    cases task' with
    | drive driver =>
      cases driver with
      | submit => cases htask'
      | _ => trivial
    | _ => trivial
  | _ => trivial

/-- Every submission drives an occurrence of its job. -/
structure OwnJobs (p : Pool Manager Thread) : Prop where
  works : ∀ k w, p.shared.works.lookup k = some w → w.attempt.id = k
  own : ∀ t ∈ p.threads, t.task.Own p.shared

theorem OwnJobs.start (s₀ : Store) : OwnJobs (start s₀) where
  works k w hw := by cases hw
  own t ht := by cases ht

theorem OwnJobs.step {a : Act Thread Choice} {p' : Pool Manager Thread} (hp : OwnJobs p) (hok : Guarded Task.ownKey p a = true)
    (h : Acts env.program Thread.entry p a p') : OwnJobs p' := by
  rcases program_cases h hok with ⟨t, ht, rfl⟩ | ⟨i, t, choice, m', task', -, ht, htask, hadvance, rfl⟩
  · refine ⟨hp.works, fun u hu => ?_⟩
    rcases mem_append.mp hu with hu | hu
    · exact hp.own u hu
    · obtain ⟨_, task⟩ := t
      rw [mem_singleton.mp hu]
      cases task <;> trivial
  · have hchan := advance_change hadvance
    have hgrows := hchan.grows hp.works
    refine ⟨hchan.works_id hp.works, fun u hu => ?_⟩
    rcases mem_or_eq_of_mem_set hu with hu | rfl
    · exact (hp.own u hu).mono hgrows
    · exact (advance_step hadvance).submission.own ((hp.own t (mem_of_getElem? ht)).mono hgrows) htask

end OwnJobs

/-- As long as no key of another job is submitted, whatever `SubmitOccurrence` leases and hands to the engine
for a job is an occurrence of that job. -/
theorem submission_keeps_to_its_job (env : Env) (s₀ : Store) (p : Pool Manager Thread)
    (h : Run env.program Thread.entry (Guarded Task.ownKey) (start s₀) p) (t : Thread) (ht : t ∈ p.threads)
    (jobID : GoString) (id : OccurrenceID) (definition : JobDefinition) (pc : DrivePc)
    (htask : t.task = .drive (.submit jobID) id definition pc) : ∃ o, p.shared.store.occurrence? id = some o ∧ o.jobID = jobID := by
  have hp : OwnJobs p := h.invariant (fun _ _ _ hp hok hacts => hp.step hok hacts) (.start s₀)
  have hown := hp.own t ht
  rw [htask] at hown
  obtain ⟨l, hl, hjob⟩ := hown
  exact ⟨l.occurrence, (life_eq_some hl).1, hjob⟩

def twoJobs : Env where
  fmt := plainFormats
  definitions := ((∅ : AList fun _ : GoString => JobDefinition).insert (goString "a")
    { id := goString "a", handlerType := goString "first" }).insert (goString "b")
      { id := goString "b", handlerType := goString "second" }
  handlers := [goString "first", goString "second"]
  backoff := fun _ _ => 0
  marshal := fun _ _ => none
  unmarshal := fun _ => none

def twoJobStore : Store := .ofDefinitions [goString "a", goString "b"]

def Task.handed : Task → Option (GoString × OccurrenceID)
  | .drive (.submit jobID) id _ (.enqueue _) => some (jobID, id)
  | _ => none

theorem Task.of_handed {t : Task} {id : OccurrenceID} (h : t.handed = some (jobID, id)) :
    ∃ definition a, t = .drive (.submit jobID) id definition (.enqueue a) := by
  unfold Task.handed at h
  split at h
  · cases h
    exact ⟨_, _, rfl⟩
  · cases h

/-- Job `a` is submitted under a key, and its lease fails; then, as thread 1, job `b` is submitted under `key`. -/
def submittedAfter (key : GoString) : List (Act Thread Choice) :=
  .call ⟨0, .submit (goString "a") (goString "k")⟩ :: stepsAt 0 2 10 ++ [.move 0 { fault := true },
    .call ⟨0, .submit (goString "b") key⟩] ++ stepsAt 1 5 20

theorem submission_keeps_to_its_job_fresh :
    ∃ p t id definition pc, Run twoJobs.program Thread.entry (Guarded Task.ownKey) (start twoJobStore) p ∧ t ∈ p.threads ∧
      t.task = .drive (.submit (goString "b")) id definition pc ∧ ∃ o, p.shared.store.occurrence? id = some o ∧ o.jobID = goString "b" := by
  obtain ⟨p, hrun, t, ht, ⟨_, id⟩, hhanded, rfl⟩ :
      ∃ p, Run twoJobs.program Thread.entry (Guarded Task.ownKey) (start twoJobStore) p ∧
        ∃ t, p.threads[1]? = some t ∧ ∃ job, t.task.handed = some job ∧ job.1 = goString "b" :=
    Run.of_check (submittedAfter (goString "l")) (by decide +kernel)
  obtain ⟨definition, a, htask⟩ := Task.of_handed hhanded
  have hmem := mem_of_getElem? ht
  exact ⟨p, t, id, definition, _, hrun, hmem, htask,
    submission_keeps_to_its_job twoJobs twoJobStore p hrun t hmem _ id definition _ htask⟩

/-- Under a key of job `a`, the handler of job `b` is run for an occurrence of job `a`. -/
theorem submission_for_another_job :
    ∃ p t id definition a o, Run twoJobs.program Thread.entry (fun _ _ => true) (start twoJobStore) p ∧ t ∈ p.threads ∧
      t.task = .drive (.submit (goString "b")) id definition (.enqueue a) ∧
      p.shared.store.occurrence? id = some o ∧ o.jobID = goString "a" := by
  obtain ⟨p, hrun, t, ht, ⟨_, id⟩, hhanded, rfl, o, ho⟩ :
      ∃ p, Run twoJobs.program Thread.entry (fun _ _ => true) (start twoJobStore) p ∧
        ∃ t, p.threads[1]? = some t ∧ ∃ job, t.task.handed = some job ∧ job.1 = goString "b" ∧
          ∃ o, p.shared.store.occurrence? job.2 = some o ∧ o.jobID = goString "a" :=
    Run.of_check (submittedAfter (goString "k")) (by decide +kernel)
  obtain ⟨definition, a, htask⟩ := Task.of_handed hhanded
  exact ⟨p, t, id, definition, a, o, hrun, mem_of_getElem? ht, htask, ho⟩

/-! ### Keys of triggers -/

def manualKey (jobID : GoString) (sequence : Nat) : GoString := submittedKey jobID [] sequence

/-- The key could be that of a trigger. -/
def isManual (key : GoString) : Bool := (goString "manual:").isPrefixOf key

theorem manualKey_eq : manualKey jobID n = goString "manual:" ++ jobID ++ goString ":" ++ decimal n := rfl

theorem isManual_manualKey : isManual (manualKey jobID n) = true := by
  rw [isManual, isPrefixOf_iff_prefix, manualKey_eq, append_assoc, append_assoc]
  exact prefix_append ..

theorem manualKey_inj {i j : GoString} {k : Nat} (h : manualKey i n = manualKey j k) : i = j ∧ n = k := by
  have heq : goString "manual:" ++ i ++ 0x3A :: decimal n = goString "manual:" ++ j ++ 0x3A :: decimal k := by
    simpa [manualKey_eq, goString_colon] using h
  obtain ⟨hjob, hno⟩ := append_cut (colon_notMem_decimal n) (colon_notMem_decimal k) heq
  exact ⟨append_cancel_left hjob, Text.decimal_inj hno⟩

theorem submittedKey_of_ne_nil (h : key ≠ []) :
    submittedKey jobID key n = key := if_neg h

theorem isManual_sched : isManual (goString "sched:" ++ key) = false := by
  have hbytes : goString "sched:" = [0x73, 0x63, 0x68, 0x65, 0x64, 0x3A] := by decide
  have hmanual : goString "manual:" = [0x6D, 0x61, 0x6E, 0x75, 0x61, 0x6C, 0x3A] := by decide
  simp [isManual, hbytes, hmanual, List.isPrefixOf]

def Transaction.inserts (key : GoString) : Transaction → Prop
  | .materializeOccurrence _ occ => key = occ.occurrenceKey
  | .materializeDueSchedule .. => isManual key = false
  | _ => False

def Store.HasKey (s : Store) (key : GoString) : Prop := ∃ id l, s.life id = some l ∧ l.occurrence.occurrenceKey = key

section Triggers

variable {fmt : Formats} {env : Env} {task : Task} {p p' : Pool Manager Thread} {a : Act Thread Choice} {m' : Manager} {s₀ : Store}
  {t : Thread} {i : Nat}

theorem Store.hasKey_of_insert (hinsert : s.insertOccurrence? o = some s') (h : s'.HasKey key) : s.HasKey key ∨ key = o.occurrenceKey := by
  obtain ⟨id, l, hl, rfl⟩ := h
  rw [(life_insertOccurrence? hinsert).2 id] at hl
  split_ifs at hl with hid
  · cases hl
    exact .inr rfl
  · exact .inl ⟨id, l, hl, rfl⟩

/-- Steps that open no occurrence bring no key. -/
theorem Store.hasKey_of_steps {s' : Store} (scope : Scope) (hsteps : ∀ id, Life.Step scope (s.life id) (s'.life id))
    (hfresh : ∀ state, ¬ scope.fresh state) (h : s'.HasKey key) : s.HasKey key := by
  obtain ⟨id, l, hl, rfl⟩ := h
  obtain ⟨l0, hl0, hstep⟩ := (hl ▸ hsteps id).source hfresh
  exact ⟨id, l0, hl0, (congrArg (·.1.2) hstep.extends.fixed).symm⟩

theorem Store.hasKey_of_perform {t : Transaction} (hperform : s.perform fmt t = .ok s') (h : s'.HasKey key) :
    s.HasKey key ∨ t.inserts key := by
  cases t with
  | materializeOccurrence =>
    obtain ⟨o, hok⟩ := ok_of_map_fst hperform
    rcases materializeOccurrence_ok hok with ⟨rfl, hinsert⟩ | ⟨rfl, -⟩
    · have hkeys := hasKey_of_insert hinsert h
      exact hkeys
    · exact .inl h
  | materializeDueSchedule now scheduleID nextDue =>
    obtain ⟨res, hok⟩ := ok_of_map_fst hperform
    have hadvance {s1 : Store} (h : (s1.advanceSchedule now scheduleID nextDue).HasKey key) : s1.HasKey key := by
      obtain ⟨id, l, hl, hkey⟩ := h
      exact ⟨id, l, hl, hkey⟩
    obtain ⟨sched, s1, -, rfl, ⟨-, rfl⟩ | ⟨-, hupsert, -⟩⟩ := materializeDueSchedule_ok hok
    · exact .inl (hadvance h)
    · rcases upsertOccurrence_eq_some hupsert with hinsert | rfl
      · refine (hasKey_of_insert hinsert (hadvance h)).imp_right ?_
        rintro rfl
        show isManual (goString "sched:" ++ sched.id ++ goString ":" ++ fmt.rfc3339Nano sched.nextDueAt) = false
        exact isManual_sched
      · refine .inl (hasKey_of_steps .closed (fun id => ?_) (fun _ hfresh => hfresh) (hadvance h))
        apply updateOccurrences_step
        intro o
        rfl
  | _ => exact .inl (hasKey_of_steps .closed (perform_life hperform (by trivial)) (fun _ hfresh => hfresh) h)

theorem Task.Change.hasKey {m : Manager} (hchan : task.Change env m m') (htask : task.materializing = false)
    (h : m'.store.HasKey key) : m.store.HasKey key := by
  have hfresh : ∀ state, ¬ task.scope.fresh state := by
    intro state hstate
    cases task with
    | materialize => cases htask
    | drive _ id _ pc => cases pc <;> exact hstate
    | _ => exact hstate
  cases hchan with
  | same hstore => rwa [hstore] at h
  | wrote t hperform hwithin => exact hasKey_of_steps _ (perform_life hperform hwithin) hfresh h
  | committed k w res _ t hw _ hperform hwithin =>
    exact hasKey_of_steps _ (perform_life hperform hwithin) (fun _ hstate => hstate) h
  | _ => exact h

/-- The number of a trigger of the running process that has not materialized its occurrence yet. -/
def Thread.trigger? (process : Nat) (t : Thread) : Option Nat :=
  match t.task with
  | .materialize _ key _ n => if key = [] ∧ t.process = process then some n else none
  | _ => none

theorem Thread.trigger?_of_entry (h : t.entry = true) (process : Nat) : t.trigger? process = none := by
  obtain ⟨q, task⟩ := t
  cases task <;> first | rfl | cases h

/-- What happens to a process and its database: a thread of the manager steps, or somebody else, such as
the pruning of old occurrences, uses the database. -/
inductive Event where
  | act (a : Act Thread Choice)
  | transaction (t : Transaction)

/-- Only triggers use their keys, and no occurrence of a trigger is stored when a process starts. -/
def Event.reserves (p : Pool Manager Thread) : Event → Bool
  | .act (.call _) => true
  | .act (.move i _) => (p.threads[i]?).all fun t =>
    match t.task with
    | .materialize _ key _ _ => !isManual key
    | .restart => p.shared.store.occurrences.rows.all fun o => !isManual o.occurrenceKey
    | _ => true
  | .transaction (.materializeOccurrence _ occ) => !isManual occ.occurrenceKey
  | .transaction _ => true

/-- The states that a database and its processes go through, if every event satisfies `ok`. -/
inductive History (env : Env) (ok : Pool Manager Thread → Event → Bool) (p : Pool Manager Thread) :
    Pool Manager Thread → Prop where
  | refl : History env ok p p
  | act {p' p'' : Pool Manager Thread} (a : Act Thread Choice) : History env ok p p' → ok p' (.act a) = true →
    p'.act env.program Thread.entry a = some p'' → History env ok p p''
  | transaction {p' : Pool Manager Thread} (t : Transaction) : History env ok p p' → ok p' (.transaction t) = true →
    History env ok p ⟨{ p'.shared with store := p'.shared.store.step env.fmt t }, p'.threads⟩

theorem History.of_run {ok : Pool Manager Thread → Event → Bool} (h : Run env.program Thread.entry (fun p a => ok p (.act a)) p p') :
    History env ok p p' := by
  induction h with
  | refl => exact .refl
  | tail a _ hok hact ih => exact .act a ih hok hact

/-- The numbers of stored triggers were given out, those of pending ones as well, once each, and none of
these is stored. -/
structure GivenOut (p : Pool Manager Thread) : Prop where
  stored : ∀ key, p.shared.store.HasKey key → isManual key = true → ∃ jobID n, key = manualKey jobID n ∧ n ≤ p.shared.sequence
  pending : ∀ (i : Nat) (t : Thread) (n : Nat), p.threads[i]? = some t → t.trigger? p.shared.process = some n →
    n ≤ p.shared.sequence ∧ ∀ jobID, ¬ p.shared.store.HasKey (manualKey jobID n)
  distinct : ∀ (i j : Nat) (t u : Thread) (n : Nat), p.threads[i]? = some t → p.threads[j]? = some u →
    t.trigger? p.shared.process = some n → u.trigger? p.shared.process = some n → i = j
  upcoming : ∀ (i : Nat) (t : Thread), p.threads[i]? = some t → p.shared.process < t.process → t.task.materializing = false

theorem GivenOut.not_hasKey (hp : GivenOut p) (hn : p.shared.sequence < n) : ¬ p.shared.store.HasKey (manualKey jobID n) := by
  intro hkey
  obtain ⟨_, n', heq, hn'⟩ := hp.stored _ hkey isManual_manualKey
  have := (manualKey_inj heq).2
  omega

theorem GivenOut.call (hp : GivenOut p) (ht : t.entry = true) : GivenOut ⟨p.shared, p.threads ++ [t]⟩ := by
  have hpending {j n : Nat} {u : Thread} (hu : (p.threads ++ [t])[j]? = some u)
      (hn : u.trigger? p.shared.process = some n) : p.threads[j]? = some u := by
    rcases getElem?_call_cases hu with hu | rfl
    · exact hu
    · rw [Thread.trigger?_of_entry ht] at hn
      cases hn
  refine ⟨hp.stored, fun j u n hu hn => hp.pending j u n (hpending hu hn) hn,
    fun i j u v n hu hv hun hvn => hp.distinct i j u v n (hpending hu hun) (hpending hv hvn) hun hvn, fun j u hu hlt => ?_⟩
  rcases getElem?_call_cases hu with hu | rfl
  · exact hp.upcoming j u hu hlt
  · obtain ⟨q, task⟩ := u
    cases task <;> first | rfl | cases ht

/-- A step that inserts at most the key of its own number, and begins at most one trigger, with the next number. -/
theorem GivenOut.move {task' : Task} (hp : GivenOut p) (ht : p.threads[i]? = some t)
    (hprocess : t.process = p.shared.process) (hsame : m'.process = p.shared.process) (hle : p.shared.sequence ≤ m'.sequence)
    (hkeys : ∀ key, m'.store.HasKey key → isManual key = true → p.shared.store.HasKey key ∨
      ∃ jobID n, key = manualKey jobID n ∧ t.trigger? p.shared.process = some n)
    (hnew : ∀ n, Thread.trigger? p.shared.process ⟨t.process, task'⟩ = some n → p.shared.sequence < n ∧ n ≤ m'.sequence) :
    GivenOut ⟨m', p.threads.set i ⟨t.process, task'⟩ ++ []⟩ := by
  refine ⟨fun key hkey hmanual => ?_, fun j u n hu hn => ?_, fun j k u v n hu hv hun hvn => ?_, fun j u hu hlt => ?_⟩
  · rcases hkeys key hkey hmanual with hkey | ⟨jobID, n, rfl, hn⟩
    · obtain ⟨jobID, n, rfl, hn⟩ := hp.stored key hkey hmanual
      exact ⟨jobID, n, rfl, hn.trans hle⟩
    · exact ⟨jobID, n, rfl, (hp.pending i t n ht hn).1.trans hle⟩
  · simp only [hsame] at hn
    rcases getElem?_move_cases hu with ⟨rfl, rfl⟩ | ⟨hne, hu⟩ | hu
    · obtain ⟨hlt, hle'⟩ := hnew n hn
      refine ⟨hle', fun jobID hkey => ?_⟩
      rcases hkeys _ hkey isManual_manualKey with hkey | ⟨jobID', n', heq, hn'⟩
      · exact hp.not_hasKey hlt hkey
      · have hgiven := (hp.pending j t n' ht hn').1
        have := (manualKey_inj heq).2
        omega
    · obtain ⟨hgiven, hfree⟩ := hp.pending j u n hu hn
      refine ⟨hgiven.trans hle, fun jobID hkey => ?_⟩
      rcases hkeys _ hkey isManual_manualKey with hkey | ⟨jobID', n', heq, hn'⟩
      · exact hfree jobID hkey
      · obtain rfl := (manualKey_inj heq).2
        exact hne (hp.distinct j i u t n hu ht hn hn')
    · cases hu
  · simp only [hsame] at hun hvn
    rcases getElem?_move_cases hu with ⟨rfl, rfl⟩ | ⟨-, hu'⟩ | hu'
    · rcases getElem?_move_cases hv with ⟨rfl, rfl⟩ | ⟨-, hv'⟩ | hv'
      · rfl
      · have hgiven := (hp.pending k v n hv' hvn).1
        have := (hnew n hun).1
        omega
      · cases hv'
    · rcases getElem?_move_cases hv with ⟨rfl, rfl⟩ | ⟨-, hv'⟩ | hv'
      · have hgiven := (hp.pending j u n hu' hun).1
        have := (hnew n hvn).1
        omega
      · exact hp.distinct j k u v n hu' hv' hun hvn
      · cases hv'
    · cases hu'
  · simp only [hsame] at hlt
    rcases getElem?_move_cases hu with ⟨rfl, rfl⟩ | ⟨-, hu⟩ | hu
    · simp only [hprocess] at hlt
      omega
    · exact hp.upcoming j u hu hlt
    · cases hu

/-- A process that starts on a database without occurrences of triggers may begin to count again. -/
theorem GivenOut.restart (hp : GivenOut p) (hblank : ∀ key, p.shared.store.HasKey key → isManual key = false) :
    GivenOut ⟨p.shared.restart, p.threads.set i ⟨t.process, .returned⟩ ++ []⟩ := by
  have hcalls {j : Nat} {u : Thread} (hu : (p.threads.set i ⟨t.process, .returned⟩ ++ [])[j]? = some u)
      (hlt : p.shared.process < u.process) : u.task.materializing = false := by
    rcases getElem?_move_cases hu with ⟨rfl, rfl⟩ | ⟨-, hu⟩ | hu
    · rfl
    · exact hp.upcoming j u hu hlt
    · cases hu
  have hidle {j n : Nat} {u : Thread} (hu : (p.threads.set i ⟨t.process, .returned⟩ ++ [])[j]? = some u)
      (hn : u.trigger? (p.shared.process + 1) = some n) : False := by
    unfold Thread.trigger? at hn
    split at hn
    · rename_i htask
      split_ifs at hn with hcondition
      have hcall := hcalls hu (by omega)
      rw [htask] at hcall
      cases hcall
    · cases hn
  refine ⟨fun key hkey hmanual => ?_, fun j u n hu hn => (hidle hu hn).elim,
    fun j k u v n hu hv hun hvn => (hidle hu hun).elim, fun j u hu hlt => hcalls hu ?_⟩
  · have := hblank key hkey
    simp_all
  · have hlt' : p.shared.process + 1 < u.process := hlt
    omega

theorem Store.hasKey_of_mem (h : o ∈ s.occurrences.rows) : s.HasKey o.occurrenceKey :=
  ⟨o.id, _, life_of_occurrence? (occurrence?_of_mem h), rfl⟩

theorem Store.mem_of_hasKey (h : s.HasKey key) : ∃ o ∈ s.occurrences.rows, o.occurrenceKey = key := by
  obtain ⟨id, l, hl, hkey⟩ := h
  exact ⟨l.occurrence, (mem_of_occurrence? (life_eq_some hl).1).1, hkey⟩

theorem GivenOut.step (hp : GivenOut p) (hok : Event.reserves p (.act a) = true)
    (h : Acts env.program Thread.entry p a p') : GivenOut p' := by
  cases h with
  | call t ha hentry heq =>
    subst heq
    exact hp.call hentry
  | move i _ t t' _ new ha ht hnext heq =>
    subst ha heq
    simp only [Event.reserves, ht, Option.all_some] at hok
    unfold Env.program at hnext
    split_ifs at hnext with hprocess
    obtain ⟨⟨m', task'⟩, hadvance, hpair⟩ := Option.map_eq_some_iff.mp hnext
    obtain ⟨rfl, hrest⟩ := Prod.mk.inj hpair
    obtain ⟨rfl, rfl⟩ := Prod.mk.inj hrest
    have hchan := advance_change hadvance
    have hsubmission := (advance_step hadvance).submission
    obtain ⟨process, task⟩ := t
    cases hsubmission with
    | entered jobID key =>
      refine hp.move ht hprocess rfl (Nat.le_succ _) (fun key hkey _ => .inl hkey) fun n hn => ?_
      simp only [Thread.trigger?] at hn
      split_ifs at hn
      cases hn
      exact ⟨Nat.lt_succ_self _, le_rfl⟩
    | refused => exact hp.move ht hprocess rfl le_rfl (fun key hkey _ => .inl hkey) nofun
    | materialized jobID key definition sequence s' o hmaterialized =>
      refine hp.move ht hprocess rfl le_rfl (fun key' hkey' hmanual => ?_) nofun
      rcases materializeOccurrence_ok hmaterialized with ⟨rfl, hinsert⟩ | ⟨rfl, -⟩
      · refine (hasKey_of_insert hinsert hkey').imp_right fun hnew => ?_
        have hsub : key' = submittedKey jobID key sequence := hnew
        by_cases hkey : key = []
        · subst hkey
          exact ⟨jobID, sequence, hsub, if_pos ⟨rfl, hprocess⟩⟩
        · rw [submittedKey_of_ne_nil hkey] at hsub
          subst hsub
          simp [hmanual] at hok
      · exact .inl hkey'
    | driven jobID id definition pc pc' m'' hsequence hsame =>
      exact hp.move ht hprocess hsame hsequence.ge (fun key hkey _ => .inl (hchan.hasKey rfl hkey)) nofun
    | restarted =>
      refine hp.restart fun key hkey => ?_
      obtain ⟨o, ho, rfl⟩ := mem_of_hasKey hkey
      simpa using all_eq_true.mp hok o ho
    | apart _ _ _ hsequence hsame htask htask' =>
      refine hp.move ht hprocess hsame hsequence.ge (fun key hkey _ => .inl (hchan.hasKey htask hkey)) fun n hn => ?_
      cases task' with
      | materialize => cases htask'
      | _ => cases hn

theorem GivenOut.transaction (hp : GivenOut p) {t : Transaction} (hok : Event.reserves p (.transaction t) = true) :
    GivenOut ⟨{ p.shared with store := p.shared.store.step env.fmt t }, p.threads⟩ := by
  have hkeys {key : GoString} (hkey : (p.shared.store.step env.fmt t).HasKey key) (hmanual : isManual key = true) :
      p.shared.store.HasKey key := by
    unfold Store.step at hkey
    split at hkey
    · rename_i s' hperform
      rcases hasKey_of_perform hperform hkey with hkey | hinserted
      · exact hkey
      · cases t with
        | materializeOccurrence now occ =>
          obtain rfl : key = occ.occurrenceKey := hinserted
          simp [Event.reserves, hmanual] at hok
        | materializeDueSchedule =>
          have : isManual key = false := hinserted
          simp_all
        | _ => cases hinserted
    · exact hkey
  refine ⟨fun key hkey hmanual => hp.stored key (hkeys hkey hmanual) hmanual, fun i t n ht hn => ?_, hp.distinct, hp.upcoming⟩
  obtain ⟨hgiven, hfree⟩ := hp.pending i t n ht hn
  exact ⟨hgiven, fun jobID hkey => hfree jobID (hkeys hkey isManual_manualKey)⟩

theorem givenOut_start (hblank : ∀ o ∈ s₀.occurrences.rows, isManual o.occurrenceKey = false) : GivenOut (start s₀) where
  stored key hkey hmanual := by
    obtain ⟨o, ho, rfl⟩ := mem_of_hasKey hkey
    rw [hblank o ho] at hmanual
    cases hmanual
  pending i t n ht := by cases ht
  distinct i j t u n ht := by cases ht
  upcoming i t ht := by cases ht

theorem GivenOut.history (hblank : ∀ o ∈ s₀.occurrences.rows, isManual o.occurrenceKey = false)
    (h : History env Event.reserves (start s₀) p) : GivenOut p := by
  induction h with
  | refl => exact givenOut_start hblank
  | act a _ hok hact ih => exact ih.step hok (acts_of_act hact)
  | transaction t _ hok ih => exact ih.transaction hok

end Triggers

theorem Store.materializeOccurrence_error {occ : JobOccurrence} {err : StoreError}
    (hschedule : occ.scheduleID = []) (h : s.materializeOccurrence now occ = .error err) :
    occ.jobID ∉ s.definitions ∨ (s.occurrence? occ.id).isSome = true := by
  unfold materializeOccurrence at h
  split at h
  · cases h
  · rename_i hnone
    split at h
    · cases h
    · rename_i hkey
      by_cases hjob : occ.jobID ∈ s.definitions
      · right
        unfold insertOccurrence? at hnone
        rw [dif_pos (show (materialized now occ).jobID ∈ s.definitions from hjob),
          dif_pos (show (materialized now occ).scheduleID = [] ∨ _ from .inl hschedule)] at hnone
        split at hnone
        · rename_i hinsert
          obtain ⟨o, ho, hclash | hclash⟩ := Table.insert?_eq_none hinsert
          · exact find?_isSome.mpr ⟨o, ho, beq_iff_eq.mpr hclash⟩
          · exact absurd (beq_iff_eq.mpr hclash) (find?_eq_none.mp hkey o ho)
        · cases hnone
      · exact .inl hjob

/-- In a history in which only triggers use their keys, and no occurrence of a trigger is stored when a
process starts, every trigger that is accepted opens an occurrence that did not exist, and one is refused
only for a job without a row or an id that is taken. -/
theorem triggers_open_occurrences (env : Env) (s₀ : Store)
    (hblank : ∀ o ∈ s₀.occurrences.rows, isManual o.occurrenceKey = false) (p : Pool Manager Thread)
    (h : History env Event.reserves (start s₀) p) (t : Thread) (ht : t ∈ p.threads)
    (hprocess : t.process = p.shared.process) (jobID : GoString) (definition : JobDefinition) (sequence : Nat)
    (htask : t.task = .materialize jobID [] definition sequence) (now later : Time) :
    (∀ s' o, p.shared.store.materializeOccurrence later (Env.submittedOccurrence now jobID [] sequence) = .ok (s', o) →
      o.jobID = jobID ∧ o.state = .ready ∧ p.shared.store.life o.id = none ∧ s'.life o.id = some ⟨o, []⟩ ∧
        ∀ o' ∈ p.shared.store.occurrences.rows, o'.occurrenceKey ≠ o.occurrenceKey) ∧
    ∀ err, p.shared.store.materializeOccurrence later (Env.submittedOccurrence now jobID [] sequence) = .error err →
      jobID ∉ p.shared.store.definitions ∨
        (p.shared.store.occurrence? (Env.submittedOccurrence now jobID [] sequence).id).isSome = true := by
  refine ⟨fun s' o hok => ?_, fun err herr => ?_⟩
  · obtain ⟨i, hi⟩ := mem_iff_getElem?.mp ht
    have htrigger : t.trigger? p.shared.process = some sequence := by simp [Thread.trigger?, htask, hprocess]
    have hfree := ((GivenOut.history hblank h).pending i t sequence hi htrigger).2 jobID
    rcases materializeOccurrence_ok hok with ⟨rfl, hinsert⟩ | ⟨rfl, hfound⟩
    · obtain ⟨hnone, hlife⟩ := life_insertOccurrence? hinsert
      refine ⟨rfl, rfl, hnone, (hlife _).trans (if_pos rfl), fun o' ho' heq => hfree ?_⟩
      have hkey := hasKey_of_mem ho'
      rwa [heq] at hkey
    · obtain ⟨hmem, hkey⟩ := mem_of_occurrenceByKey? hfound
      refine absurd ?_ hfree
      rw [show manualKey jobID sequence = o.occurrenceKey from hkey.symm]
      exact hasKey_of_mem hmem
  · exact materializeOccurrence_error rfl herr

def trigger (process : Nat) : Act Thread Choice := .call ⟨process, .submit (goString "job") []⟩

/-- The second of two triggers is about to materialize. -/
theorem triggers_open_occurrences_second : ∃ p t definition, History (oneJob {}) Event.reserves (start oneJobStore) p ∧ t ∈ p.threads ∧
      t.process = p.shared.process ∧ t.task = .materialize (goString "job") [] definition 2 ∧
      (∀ s' o, p.shared.store.materializeOccurrence 20 (Env.submittedOccurrence 20 (goString "job") [] 2) = .ok (s', o) →
        o.jobID = goString "job" ∧ o.state = .ready ∧ p.shared.store.life o.id = none ∧ s'.life o.id = some ⟨o, []⟩ ∧
          ∀ o' ∈ p.shared.store.occurrences.rows, o'.occurrenceKey ≠ o.occurrenceKey) ∧
      ∀ err, p.shared.store.materializeOccurrence 20 (Env.submittedOccurrence 20 (goString "job") [] 2) = .error err →
        goString "job" ∉ p.shared.store.definitions ∨
          (p.shared.store.occurrence? (Env.submittedOccurrence 20 (goString "job") [] 2).id).isSome = true := by
  obtain ⟨p, hrun, t, ht, hprocess, definition, -, htask⟩ :
      ∃ p, Run (oneJob {}).program Thread.entry (fun p a => Event.reserves p (.act a)) (start oneJobStore) p ∧
        ∃ t, p.threads[1]? = some t ∧ t.process = p.shared.process ∧
          ∃ definition, (oneJob {}).definitions.lookup (goString "job") = some definition ∧
            t.task = .materialize (goString "job") [] definition 2 :=
    Run.of_check (trigger 0 :: stepsAt 0 6 10 ++ trigger 0 :: stepsAt 1 1 20) (by decide +kernel)
  have hhistory := History.of_run hrun
  have hmem := mem_of_getElem? ht
  exact ⟨p, t, definition, hhistory, hmem, hprocess, htask,
    triggers_open_occurrences (oneJob {}) oneJobStore (by decide) p hhistory t hmem hprocess _ definition 2 htask 20 20⟩

/-- A trigger runs to its end; after a restart the job is triggered again, as thread 3. -/
def triggeredAgain : List (Act Thread Choice) :=
  let attempt := canonicalAttemptID (Env.submittedOccurrence 10 (goString "job") [] 1).id 1
  trigger 0 :: stepsAt 0 6 10 ++ [.call ⟨0, .engine⟩, .move 1 { attempt := attempt, result := { outcome := .completed } },
    .move 1 { now := 20, attempt := attempt }, .call ⟨0, .restart⟩, .move 2 {}, trigger 1] ++ stepsAt 3 3 30

/-- The trigger after the restart fails, since its key resolved to the completed occurrence of the first one. -/
theorem trigger_resolves_to_earlier : ∃ p t err o, History (oneJob {}) (fun _ _ => true) (start oneJobStore) p ∧ p.threads[3]? = some t ∧
      t.task = .submitted (.error (.wrapped (goString "prepare job attempt") err)) ∧
      p.shared.store.occurrences.rows = [o] ∧ o.state = .completed ∧ o.occurrenceKey = manualKey (goString "job") 1 := by
  obtain ⟨p, hrun, ⟨t, ht, hfail⟩, o, -, hrow⟩ :
      ∃ p, Run (oneJob {}).program Thread.entry (fun _ _ => true) (start oneJobStore) p ∧
        (∃ t, p.threads[3]? = some t ∧ (match t.task with
          | .submitted (.error (.wrapped during _)) => during == goString "prepare job attempt"
          | _ => false) = true) ∧
        ∃ o ∈ p.shared.store.occurrences.rows, p.shared.store.occurrences.rows = [o] ∧ o.state = .completed ∧
          o.occurrenceKey = manualKey (goString "job") 1 := Run.of_check triggeredAgain (by decide +kernel)
  split at hfail
  · rename_i during err htask
    rw [beq_iff_eq.mp hfail] at htask
    exact ⟨p, t, err, o, .of_run hrun, ht, htask, hrow⟩
  · cases hfail

end Goultroid.Jobs
