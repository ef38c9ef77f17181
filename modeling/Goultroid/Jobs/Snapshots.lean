import Goultroid.Jobs.Drivers

/-!
# What a driver still knows when it acts

A driver decides on a snapshot of the store and acts on it later, while others move. `Task.Fits` says
what of its snapshot is still true of the store when a thread comes to act, in terms of facts that only
grow; `Manager.Sound` says how the store, the engine and the maps of the manager fit together. Both hold
in every state of every run in which `SubmitOccurrence` leases only occurrences of its own job
(`run_inv`): a key that another job has used names an occurrence of that job.

Each fact in `Task.Fits` is about an occurrence that is there, attempts up to a place, or a ticket that
has its answer, and in all of these the store and the engine only grow (`Task.Fits.mono`). So in a step
of the run only the thread that moves is looked at (`Task.Step.fits`): what it knows next follows from
what it knew and from what the step has read.
-/

namespace Goultroid.Jobs

open List AList Store Jobs.Env
open Threads (Pool Act Run Acts)

variable {item : RetryItem} {id : OccurrenceID} {definition : JobDefinition} {c : RecoveryCandidate} {driver : Driver} {res : TaskResult}
  {env : Env} {m m' : Manager} {summary : AttemptSummary} {now : Time}

/-! ### Facts that only grow -/

namespace Manager

variable (env : Env) (m : Manager)

/-- The occurrence is there, and its job has this definition. -/
def Defines (id : OccurrenceID) (definition : JobDefinition) : Prop :=
  ∃ l, m.store.life id = some l ∧ env.definitions.lookup l.occurrence.jobID = some definition

def Owns (id : OccurrenceID) (k : AttemptID) : Prop :=
  ∃ l, m.store.life id = some l ∧ ∃ (i : Nat) (a : JobAttempt), l.attempts[i]? = some a ∧ a.id = k

end Manager

def budgetUses (attempts : List JobAttempt) : Nat := attempts.countP (·.state != .deferred)

def deferralsIn (attempts : List JobAttempt) : Nat := attempts.countP (·.state == .deferred)

/-- The watched attempt was not deferred, and up to it the budget was not used up. -/
def RetryItem.Cleared (m : Manager) (item : RetryItem) (definition : JobDefinition) : Prop :=
  (∃ l, m.store.life item.occurrenceID = some l ∧ ∃ (i : Nat) (a : JobAttempt), l.attempts[i]? = some a ∧
    a.id = item.attempt ∧ (budgetUses (l.attempts.take (i + 1)) : Int) < maxAttempts definition.retryPolicy) ∧
  ∃ res, m.ticket? item.attempt = some res ∧ res.cause ≠ .rateLimited ∧ res.cause ≠ .persistenceFailure

/-- The watched attempt went to the engine, and there are as many attempts as the budget allows. -/
def RetryItem.Exhausted (env : Env) (m : Manager) (item : RetryItem) : Prop :=
  m.Owns item.occurrenceID item.attempt ∧ m.admitted item.attempt = true ∧
    ∃ l definition, m.store.life item.occurrenceID = some l ∧
      env.definitions.lookup l.occurrence.jobID = some definition ∧
      maxAttempts definition.retryPolicy ≤ l.attempts.length

/-- The candidate is a stored occurrence. If its latest attempt was over, the attempts up to that one
are as they were counted. -/
def RecoveryCandidate.Seen (m : Manager) (c : RecoveryCandidate) : Prop :=
  ∃ l, m.store.life c.occurrence.id = some l ∧ l.occurrence.fixed = c.occurrence.fixed ∧
    (c.summary.latest.state.active = false → ∃ i : Nat, l.attempts[i]? = some c.summary.latest ∧
      budgetUses (l.attempts.take (i + 1)) = c.summary.retryBudgetUses ∧
      deferralsIn (l.attempts.take (i + 1)) = c.summary.deferrals)

/-- `Recover` may drive a further attempt of the candidate. -/
structure RecoveryCandidate.Cleared (c : RecoveryCandidate) (definition : JobDefinition) : Prop where
  past : c.summary.latest.state.active = false
  uses : (c.summary.retryBudgetUses : Int) < maxAttempts definition.retryPolicy
  deferrals : c.summary.latest.state = .deferred → (c.summary.deferrals : Int) < maxDeferrals definition.retryPolicy

section Growth

theorem Life.Extends.jobID {l l' : Life} (h : l.Extends l') : l'.occurrence.jobID = l.occurrence.jobID :=
  congrArg (·.2.1) h.fixed

theorem Manager.Defines.mono (h : m.Defines env id definition) (hgrows : m.Grows m') : m'.Defines env id definition := by
  obtain ⟨l, hl, hdef⟩ := h
  obtain ⟨l', hl', hext⟩ := hgrows.lives id l hl
  exact ⟨l', hl', by rw [hext.jobID]; exact hdef⟩

theorem Manager.Owns.mono {k : AttemptID} (h : m.Owns id k) (hgrows : m.Grows m') : m'.Owns id k := by
  obtain ⟨l, hl, i, a, ha, rfl⟩ := h
  obtain ⟨l', hl', hext⟩ := hgrows.lives id l hl
  obtain ⟨a', ha', huniq, -⟩ := hext.attempts i a ha
  exact ⟨l', hl', i, a', ha', congrArg (·.1) huniq⟩

theorem RetryItem.Cleared.mono (h : item.Cleared m definition) (hgrows : m.Grows m') : item.Cleared m' definition := by
  obtain ⟨⟨l, hl, i, a, ha, hid, huses⟩, res, hres, hcause⟩ := h
  obtain ⟨l', hl', hext⟩ := hgrows.lives _ l hl
  obtain ⟨a', ha', huniq, -⟩ := hext.attempts i a ha
  refine ⟨⟨l', hl', i, a', ha', (congrArg (·.1) huniq).trans hid, ?_⟩, res, hgrows.ticket hres, hcause⟩
  have hlen := (List.getElem?_eq_some_iff.mp ha).1
  have hle := hext.uses_le (n := i + 1) hlen
  unfold budgetUses at huses ⊢
  omega

theorem RetryItem.Exhausted.mono (h : item.Exhausted env m) (hgrows : m.Grows m') : item.Exhausted env m' := by
  obtain ⟨howns, hadmitted, l, definition, hl, hdef, _⟩ := h
  obtain ⟨l', hl', hext⟩ := hgrows.lives _ l hl
  refine ⟨howns.mono hgrows, hgrows.admitted hadmitted, l', definition, hl', by rw [hext.jobID]; exact hdef, ?_⟩
  have hle := hext.length_le
  omega

theorem RecoveryCandidate.Seen.mono (h : c.Seen m) (hgrows : m.Grows m')
    (hordered : ∀ id l, m.store.life id = some l → l.Ordered) : c.Seen m' := by
  obtain ⟨l, hl, hfixed, hcount⟩ := h
  obtain ⟨l', hl', hext⟩ := hgrows.lives _ l hl
  refine ⟨l', hl', hext.fixed.trans hfixed, fun hover => ?_⟩
  obtain ⟨i, ha, huses, hdeferred⟩ := hcount hover
  have htake := hext.take_eq (n := i + 1) (List.getElem?_eq_some_iff.mp ha).1 ((hordered _ l hl).over_take ha hover)
  obtain ⟨a', ha', -, hsame⟩ := hext.attempts i _ ha
  exact ⟨i, by rw [ha', hsame hover], by rw [htake]; exact huses, by rw [htake]; exact hdeferred⟩

end Growth

/-! ### What each thread knows -/

def Driver.Fits (env : Env) (m : Manager) (id : OccurrenceID) (definition : JobDefinition) : Driver → Prop
  | .submit jobID => env.definitions.lookup jobID = some definition
  | .watch item => item.occurrenceID = id ∧ m.Defines env id definition ∧ item.Cleared m definition
  | .recover c rest _ => c.occurrence.id = id ∧ m.Defines env id definition ∧ c.Cleared definition ∧
      ∀ c' ∈ c :: rest, c'.Seen m

def DrivePc.attempt? : DrivePc → Option JobAttempt
  | .lease => none
  | .track a | .client a | .untrack a _ | .persist a _ | .enqueue a => some a

def DrivePc.Fits (env : Env) (m : Manager) (id : OccurrenceID) (definition : JobDefinition) (pc : DrivePc) : Prop :=
  ∀ a, pc.attempt? = some a → m.Defines env id definition ∧ m.Owns id a.id

def Task.Fits (env : Env) (m : Manager) : Task → Prop
  | .materialize jobID _ definition _ => env.definitions.lookup jobID = some definition
  | .drive driver id definition pc => driver.Fits env m id definition ∧ pc.Fits env m id definition
  | .watch item => m.Owns item.occurrenceID item.attempt
  | .wait item definition => m.Owns item.occurrenceID item.attempt ∧ m.Defines env item.occurrenceID definition
  | .summary item definition res => m.Owns item.occurrenceID item.attempt ∧
      m.Defines env item.occurrenceID definition ∧ m.ticket? item.attempt = some res ∧ res.cause ≠ .persistenceFailure
  | .finalize item _ ground => ground = .budget → item.Exhausted env m
  | .proceed item definition => m.Defines env item.occurrenceID definition ∧ item.Cleared m definition
  | .scan candidates _ => ∀ c ∈ candidates, c.Seen m
  | .close c _ ground rest _ => (∀ c' ∈ c :: rest, c'.Seen m) ∧ (ground = .budget →
      c.summary.latest.state.active = false ∧ ∃ definition, m.Defines env c.occurrence.id definition ∧
        maxAttempts definition.retryPolicy ≤ c.summary.retryBudgetUses)
  | .closed _ rest _ => ∀ c ∈ rest, c.Seen m
  | _ => True

/-- The store, the engine and the maps of the manager fit together. -/
structure Manager.Sound (env : Env) (m : Manager) : Prop where
  ordered : ∀ id l, m.store.life id = some l → l.Ordered
  works : ∀ k w, m.works.lookup k = some w → w.attempt.id = k
  deferred : ∀ id l, m.store.life id = some l → ∀ a ∈ l.attempts, a.state = .deferred →
    ∃ w, m.works.lookup a.id = some w ∧ w.phase.mayDefer = true
  settled : ∀ id l, m.store.life id = some l → ∀ a ∈ l.attempts, a.state.active = false →
    a.state = .abortedBeforeStart ∨ m.admitted a.id = true
  tracked : ∀ id definition, m.tracked.lookup id = some definition → m.Defines env id definition
  queue : ∀ item ∈ m.retryQueue, m.Owns item.occurrenceID item.attempt

section Steps

variable {task : Task}

theorem Driver.Fits.mono
    (h : driver.Fits env m id definition) (hm : m.Sound env) (hgrows : m.Grows m') : driver.Fits env m' id definition := by
  cases driver with
  | submit => exact h
  | watch => exact ⟨h.1, h.2.1.mono hgrows, h.2.2.mono hgrows⟩
  | recover => exact ⟨h.1, h.2.1.mono hgrows, h.2.2.1, fun c' hc' => (h.2.2.2 c' hc').mono hgrows hm.ordered⟩

theorem DrivePc.Fits.mono {pc : DrivePc} (h : pc.Fits env m id definition) (hgrows : m.Grows m') : pc.Fits env m' id definition :=
  fun a ha => ⟨(h a ha).1.mono hgrows, (h a ha).2.mono hgrows⟩

theorem Task.Fits.mono (h : task.Fits env m) (hm : m.Sound env) (hgrows : m.Grows m') : task.Fits env m' := by
  cases task with
  | materialize => exact h
  | drive => exact ⟨h.1.mono hm hgrows, h.2.mono hgrows⟩
  | watch => exact Manager.Owns.mono h hgrows
  | wait | proceed => exact ⟨h.1.mono hgrows, h.2.mono hgrows⟩
  | summary => exact ⟨h.1.mono hgrows, h.2.1.mono hgrows, hgrows.ticket h.2.2.1, h.2.2.2⟩
  | finalize => exact fun hground => (h hground).mono hgrows
  | scan | closed => exact fun c hc => (h c hc).mono hgrows hm.ordered
  | close =>
    refine ⟨fun c hc => (h.1 c hc).mono hgrows hm.ordered, fun hground => ?_⟩
    obtain ⟨hover, definition, hdefined, hmax⟩ := h.2 hground
    exact ⟨hover, definition, hdefined.mono hgrows, hmax⟩
  | _ => trivial

theorem Task.Change.sound (h : task.Change env m m') (hm : m.Sound env) (hfits : task.Fits env m) : m'.Sound env := by
  have hgrows := h.grows hm.works
  obtain ⟨_, hstep, _, -, hsettled⟩ := h.step hm.works
  refine ⟨?_, ?_, ?_, ?_, ?_, ?_⟩
  · intro id l hl
    exact Life.Ordered.step (hm.ordered id) (hstep id) l hl
  · intro k w hw
    have hmoved (k0 : AttemptID) (w0 : Work) (phase : Phase) (hw0 : m.works.lookup k0 = some w0)
        (hw : (m.works.insert k0 { w0 with phase := phase }).lookup k = some w) : w.attempt.id = k := by
      by_cases hk : k = k0
      · subst hk
        rw [lookup_insert] at hw
        rw [← Option.some.inj hw]
        exact hm.works k w0 hw0
      · rw [lookup_insert_ne hk] at hw
        exact hm.works k w hw
    cases h with
    | same hstore hworks => exact hm.works k w (hworks ▸ hw)
    | took driver id definition a =>
      by_cases hk : k = a.id
      · subst hk
        rw [lookup_insert] at hw
        rw [← Option.some.inj hw]
      · rw [lookup_insert_ne hk] at hw
        exact hm.works k w hw
    | worked k0 w0 phase hw0 | committed k0 w0 res phase t hw0 => exact hmoved k0 w0 phase hw0 hw
    | restarted =>
      rw [Manager.lookup_restart] at hw
      obtain ⟨w0, hw0, rfl⟩ := Option.map_eq_some_iff.mp hw
      rw [w0.grows_lose.attempt]
      exact hm.works k w0 hw0
    | _ => exact hm.works k w hw
  · intro id l hl a ha hdefer
    have hid := hstep id
    rw [hl] at hid
    rcases hid.mem_attempts ha with ⟨l0, hl0, ha0⟩ | hleases | hset
    · obtain ⟨w, hw, hmay⟩ := hm.deferred id l0 hl0 a ha0 hdefer
      obtain ⟨w', hw', hgrow⟩ := hgrows.works a.id w hw
      exact ⟨w', hw', hgrow.mayDefer hmay⟩
    · simp [hdefer] at hleases
    · exact (hsettled _ _ hset).2 hdefer
  · intro id l hl a ha hover
    have hid := hstep id
    rw [hl] at hid
    rcases hid.mem_attempts ha with ⟨l0, hl0, ha0⟩ | hleases | hset
    · exact (hm.settled id l0 hl0 a ha0 hover).imp_right hgrows.admitted
    · simp [hleases, AttemptState.active] at hover
    · exact (hsettled _ _ hset).1
  · intro id definition hid
    have hold (hid : m.tracked.lookup id = some definition) : m'.Defines env id definition :=
      (hm.tracked id definition hid).mono hgrows
    cases h with
    | same hstore hworks htracked => exact hold (htracked ▸ hid)
    | tracked driver occ d a =>
      by_cases hocc : id = occ
      · subst hocc
        rw [lookup_insert] at hid
        cases hid
        exact (hfits.2 a rfl).1.mono hgrows
      · rw [lookup_insert_ne hocc] at hid
        exact hold hid
    | untracked occ =>
      by_cases hocc : id = occ
      · subst hocc
        rw [lookup_erase] at hid
        cases hid
      · rw [lookup_erase_ne hocc] at hid
        exact hold hid
    | restarted => cases hid
    | _ => exact hold hid
  · intro item hitem
    have hold (hitem : item ∈ m.retryQueue) : m'.Owns item.occurrenceID item.attempt :=
      (hm.queue item hitem).mono hgrows
    cases h with
    | same hstore hworks htracked hqueue => exact hold (hqueue item hitem)
    | queued driver id definition a =>
      rcases mem_append.mp hitem with hitem | hitem
      · exact hold hitem
      · rw [mem_singleton.mp hitem]
        exact (hfits.2 a rfl).2.mono hgrows
    | restarted => cases hitem
    | _ => exact hold hitem

end Steps

/-! ### What the decisions rest on -/

section Decisions

variable {s : Store} {policy : JobRetryPolicy} {cause : Cause} {state : OccurrenceState} {finding : Finding}

theorem Store.attemptSummary_eq_some (h : s.attemptSummary id = some summary) :
    ∃ l, s.life id = some l ∧ latestOf l.attempts = some summary.latest ∧
      summary.retryBudgetUses = budgetUses l.attempts ∧ summary.deferrals = deferralsIn l.attempts := by
  unfold Store.attemptSummary at h
  split at h
  · rename_i o latest ho hlatest
    cases h
    exact ⟨_, life_of_occurrence? ho, hlatest, rfl, rfl⟩
  · cases h

theorem Env.watchVerdict_retry {verdict : Verdict} (h : env.watchVerdict policy res summary = verdict) (huntrack : verdict ≠ .untrack)
    (hsemantics : ∀ state, verdict ≠ .finalize state .semantics) : env.retryVerdict policy res.cause summary = verdict := by
  unfold Env.watchVerdict at h
  split_ifs at h
  · exact absurd h.symm huntrack
  · exact absurd h.symm (hsemantics _)
  · split at h <;> first | exact h | exact absurd h.symm huntrack

theorem Env.retryVerdict_budget (h : env.retryVerdict policy cause summary = .finalize state .budget) :
    maxAttempts policy ≤ summary.retryBudgetUses := by
  unfold Env.retryVerdict at h
  split_ifs at h with hrate hdeferred hmax
  · cases h
  · exact hmax

theorem Env.retryVerdict_drive (h : env.retryVerdict policy cause summary = .drive) :
    cause ≠ .rateLimited ∧ (summary.retryBudgetUses : Int) < maxAttempts policy := by
  unfold Env.retryVerdict at h
  split_ifs at h with hrate hdeferred hmax hdelay
  exact ⟨hrate, not_le.mp hmax⟩

theorem withinLimits_budget (h : withinLimits definition summary = .finalize state .budget) :
    maxAttempts definition.retryPolicy ≤ summary.retryBudgetUses := by
  unfold withinLimits at h
  split_ifs at h with hdefer hmax
  · cases h
  · exact hmax

theorem withinLimits_drive {d : JobDefinition} (h : withinLimits definition summary = .drive d) :
    d = definition ∧ (summary.retryBudgetUses : Int) < maxAttempts definition.retryPolicy ∧
      (summary.latest.state = .deferred → (summary.deferrals : Int) < maxDeferrals definition.retryPolicy) := by
  unfold withinLimits at h
  split_ifs at h with hdefer hmax
  exact ⟨(Finding.drive.inj h).symm, not_le.mp hmax, fun hlatest => not_le.mp (not_and.mp hdefer hlatest)⟩

theorem Env.judge_limits (h : env.judge definition summary = finding) (hstale : finding ≠ .stale)
    (hsemantics : ∀ state, finding ≠ .finalize state .semantics) :
    summary.latest.state.active = false ∧ withinLimits definition summary = finding := by
  unfold Env.judge at h
  split_ifs at h with hstate hterminal
  · exact absurd h.symm hstale
  · exact absurd h.symm hstale
  · refine ⟨AttemptState.active_of_terminal (by simpa using hterminal), ?_⟩
    split at h
    · exact absurd h.symm (hsemantics _)
    · exact h

theorem Env.finding_judge {tracked : Bool} (h : env.finding now tracked c = finding)
    (hfin : finding ≠ .deferred ∧ finding ≠ .stale ∧ finding ≠ .orphaned) :
    ∃ definition, env.definitions.lookup c.occurrence.jobID = some definition ∧ env.judge definition c.summary = finding := by
  obtain ⟨hdefer, hstale, horphaned⟩ := hfin
  unfold Env.finding at h
  split_ifs at h
  · exact absurd h.symm hdefer
  · exact absurd h.symm hstale
  · split at h
    · exact absurd h.symm horphaned
    · rename_i definition hdef
      exact ⟨definition, (Option.filter_eq_some_iff.mp hdef).1, h⟩

end Decisions

/-! ### Each step hands on what the next one needs -/

/-- `SubmitOccurrence` leases an occurrence of its own job. -/
def Task.ownJob (m : Manager) : Task → Bool
  | .drive (.submit jobID) id _ .lease => (m.store.occurrence? id).all fun o => o.jobID == jobID
  | _ => true

section Handover

variable {a : JobAttempt}

theorem seen_of_mem_list {limit : Int} (hm : m.Sound env) (hc : c ∈ m.store.listRecoveryCandidates limit) : c.Seen m := by
  obtain ⟨o, ho, hsome⟩ := mem_filterMap.mp hc
  obtain ⟨_, hsum, rfl⟩ := Option.map_eq_some_iff.mp hsome
  have hrow : o ∈ m.store.occurrences.rows :=
    (mem_filter.mp ((mem_insertionSort _).mp (mem_of_mem_take ho))).1
  obtain ⟨l, hl, hlatest, huses, hdeferred⟩ := attemptSummary_eq_some hsum
  refine ⟨l, hl, ?_, fun _ => ?_⟩
  · rw [life_of_occurrence? (occurrence?_of_mem hrow)] at hl
    rw [← Option.some.inj hl]
  · rw [(hm.ordered o.id l hl).numbered.latestOf_eq, getLast?_eq_some_iff] at hlatest
    obtain ⟨init, heq⟩ := hlatest
    have htake : l.attempts.take (init.length + 1) = l.attempts := take_of_length_le (by simp [heq])
    refine ⟨init.length, by simp [heq], ?_, ?_⟩
    · rw [htake, huses]
    · rw [htake, hdeferred]

theorem Driver.failed_fits {err : SubmitError} (h : driver.Fits env m id definition) : (driver.failed err).Fits env m := by
  cases driver with
  | recover => exact fun c' hc' => h.2.2.2 c' (mem_cons_of_mem _ hc')
  | _ => trivial

theorem Driver.succeeded_fits (h : driver.Fits env m id definition) : (driver.succeeded a).Fits env m := by
  cases driver with
  | recover => exact fun c' hc' => h.2.2.2 c' (mem_cons_of_mem _ hc')
  | _ => trivial

theorem Env.lease_fits {d : Duration} {s' : Store} {later : Time} (h : m.store.prepareNextAttemptLease env.fmt now later id d = .ok (s', a))
    (hdriver : driver.Fits env m id definition)
    (hown : Task.ownJob m (.drive driver id definition .lease) = true)
    (hgrows : m.Grows { m with store := s' }) :
    Manager.Defines env { m with store := s' } id definition ∧ Manager.Owns { m with store := s' } id a.id := by
  obtain ⟨l, hl, -, ha, hsets⟩ := prepareLease_ok h
  have hself := hsets id
  rw [if_pos rfl] at hself
  constructor
  · cases driver with
    | submit =>
      simp only [Task.ownJob, (life_eq_some hl).1, Option.all_some, beq_iff_eq] at hown
      exact ⟨_, hself, by rw [← hown] at hdriver; exact hdriver⟩
    | watch | recover => exact hdriver.2.1.mono hgrows
  · exact ⟨_, hself, l.attempts.length, a, by simp, rfl⟩

theorem Env.summary_fits (hsum : m.store.attemptSummary item.occurrenceID = some summary)
    (hfits : Task.Fits env m (.summary item definition res)) :
    (∀ state, env.watchVerdict definition.retryPolicy res summary = .finalize state .budget → item.Exhausted env m) ∧
      (env.watchVerdict definition.retryPolicy res summary = .drive → item.Cleared m definition) := by
  obtain ⟨howns, ⟨l, hl, hdef⟩, hres, hcause⟩ := hfits
  obtain ⟨l', hl', -, _, -⟩ := attemptSummary_eq_some hsum
  obtain rfl := Option.mem_unique hl hl'
  constructor
  · intro state hverdict
    have hmax := retryVerdict_budget (watchVerdict_retry hverdict (by simp) (by simp))
    have hlen : budgetUses l.attempts ≤ l.attempts.length := countP_le_length
    obtain ⟨w, hw, -⟩ := Option.bind_eq_some_iff.mp hres
    refine ⟨howns, Option.isSome_iff_exists.mpr ⟨w, hw⟩, l, definition, hl, hdef, ?_⟩
    omega
  · intro hverdict
    obtain ⟨hrate, hmax⟩ := retryVerdict_drive (watchVerdict_retry hverdict (by simp) (by simp))
    obtain ⟨l', hl', i, a, ha, hid⟩ := howns
    obtain rfl := Option.mem_unique hl hl'
    refine ⟨⟨l, hl, i, a, ha, hid, ?_⟩, res, hres, hrate, hcause⟩
    have hle : budgetUses (l.attempts.take (i + 1)) ≤ budgetUses l.attempts :=
      (take_sublist _ _).countP_le
    omega

theorem Env.definition_of_submitCheck {accepting : Bool} {jobID : GoString}
    (h : env.submitCheck accepting jobID = .ok definition) : env.definitions.lookup jobID = some definition := by
  unfold Env.submitCheck at h
  split_ifs at h
  split at h
  · cases h
  · rename_i d hdef
    split_ifs at h
    cases h
    exact hdef

theorem RecoveryCandidate.Seen.defines (h : c.Seen m)
    (hdef : env.definitions.lookup c.occurrence.jobID = some definition) : m.Defines env c.occurrence.id definition := by
  obtain ⟨l, hl, hfixed, -⟩ := h
  exact ⟨l, hl, by rw [show l.occurrence.jobID = c.occurrence.jobID from congrArg (·.2.1) hfixed]; exact hdef⟩

theorem Task.Step.fits {choice : Choice} {task' : Task} {task : Task} (h : Task.Step env choice m task m' task') (hm : m.Sound env)
    (hfits : task.Fits env m) (hown : task.ownJob m = true) : task'.Fits env m' := by
  have hgrows := h.change.grows hm.works
  have hdrive {driver : Driver} {id : OccurrenceID} {definition : JobDefinition} {pc : DrivePc}
      (hfits : (Task.drive driver id definition pc).Fits env m) : driver.Fits env m' id definition ∧ pc.Fits env m' id definition :=
    ⟨hfits.1.mono hm hgrows, hfits.2.mono hgrows⟩
  have hseen {cs : List RecoveryCandidate} (hcs : ∀ c ∈ cs, c.Seen m) : ∀ c ∈ cs, c.Seen m' := fun c hc => (hcs c hc).mono hgrows hm.ordered
  cases h with
  | entered hcheck => exact definition_of_submitCheck hcheck
  | materialized => exact ⟨hfits, nofun⟩
  | unleased | unpersisted | persisted => exact Driver.failed_fits (hdrive hfits).1
  | leased hok =>
    refine ⟨(hdrive hfits).1, fun b hb => ?_⟩
    cases hb
    exact lease_fits hok hfits.1 hown hgrows
  | track | rejected | taken | untracked => exact hdrive hfits
  | dropped | enqueued => exact Driver.succeeded_fits (hdrive hfits).1
  | dequeued hqueue => exact (hm.queue _ (by rw [hqueue]; exact mem_cons_self)).mono hgrows
  | watched hsome => exact ⟨hfits, hm.tracked _ _ hsome⟩
  | failed hres hcause => exact ⟨hfits.1, hfits.2, hres, hcause⟩
  | finalizes hsum hverdict =>
    rintro rfl
    exact (summary_fits hsum hfits).1 _ hverdict
  | proceeds hsum hverdict => exact ⟨hfits.2.1, (summary_fits hsum hfits).2 hverdict⟩
  | again => exact ⟨⟨rfl, hfits⟩, nofun⟩
  | listed => exact fun c hc => seen_of_mem_list hm hc
  | skipped => exact fun c hc => hfits c (mem_cons_of_mem _ hc)
  | closes hfin =>
    refine ⟨hfits, ?_⟩
    rintro rfl
    obtain ⟨definition, hdef, hjudge⟩ := finding_judge hfin (by simp)
    obtain ⟨hover, hlim⟩ := judge_limits hjudge (by simp) (by simp)
    exact ⟨hover, definition, (hfits _ mem_cons_self).defines hdef, withinLimits_budget hlim⟩
  | drives hfin =>
    obtain ⟨d, hdef, hjudge⟩ := finding_judge hfin (by simp)
    obtain ⟨hover, hlim⟩ := judge_limits hjudge (by simp) (by simp)
    obtain ⟨rfl, huses, hdeferred⟩ := withinLimits_drive hlim
    exact ⟨⟨rfl, (hfits _ mem_cons_self).defines hdef, ⟨hover, huses, hdeferred⟩, hfits⟩, nofun⟩
  | unclosed | closed => exact hseen fun c hc => hfits.1 c (mem_cons_of_mem _ hc)
  | cleared => exact hseen hfits
  | _ => trivial

end Handover

/-! ### Runs -/

/-- Every step of the run meets the condition `ok` on its task. -/
def Guarded (ok : Manager → Task → Bool) (p : Pool Manager Thread) : Act Thread Choice → Bool
  | .call _ => true
  | .move i _ => (p.threads[i]?).all fun t => ok p.shared t.task

structure Inv (env : Env) (p : Pool Manager Thread) : Prop where
  sound : p.shared.Sound env
  fits : ∀ t ∈ p.threads, t.task.Fits env p.shared

section Runs

variable {s₀ : Store} {p p' : Pool Manager Thread} {ok : Manager → Task → Bool}

theorem program_cases {a : Act Thread Choice} (h : Acts env.program Thread.entry p a p') (hok : Guarded ok p a = true) :
    (∃ t : Thread, t.entry = true ∧ p' = ⟨p.shared, p.threads ++ [t]⟩) ∨
      ∃ (i : Nat) (t : Thread) (choice : Choice) (m' : Manager) (task' : Task), a = .move i choice ∧
        p.threads[i]? = some t ∧ ok p.shared t.task = true ∧
        env.advance choice p.shared t.task = some (m', task') ∧ p' = ⟨m', p.threads.set i ⟨t.process, task'⟩⟩ := by
  cases h with
  | call t ha ht heq => exact .inl ⟨t, ht, heq⟩
  | move i choice t t' shared new ha ht hnext heq =>
    subst ha
    simp only [Guarded, ht, Option.all_some] at hok
    unfold Env.program at hnext
    split_ifs at hnext
    obtain ⟨⟨m', task'⟩, hadvance, hpair⟩ := Option.map_eq_some_iff.mp hnext
    obtain ⟨rfl, rfl, rfl⟩ := hpair
    exact .inr ⟨i, t, choice, m', task', rfl, ht, hok, hadvance, by simpa using heq⟩

theorem Task.fits_of_entry {t : Thread} (h : t.entry = true) : t.task.Fits env m := by
  obtain ⟨_, task⟩ := t
  cases task <;> trivial

theorem inv_step {a : Act Thread Choice} (hown : ∀ m task, ok m task = true → task.ownJob m = true) (hp : Inv env p)
    (hok : Guarded ok p a = true) (h : Acts env.program Thread.entry p a p') : Inv env p' := by
  rcases program_cases h hok with ⟨t, ht, rfl⟩ | ⟨i, t, choice, m', task', -, ht, htask, hadvance, rfl⟩
  · refine ⟨hp.sound, fun u hu => ?_⟩
    rcases mem_append.mp hu with hu | hu
    · exact hp.fits u hu
    · rw [mem_singleton.mp hu]
      exact Task.fits_of_entry ht
  · have hfits := hp.fits t (mem_of_getElem? ht)
    have hchan := advance_change hadvance
    have hgrows := hchan.grows hp.sound.works
    refine ⟨hchan.sound hp.sound hfits, fun u hu => ?_⟩
    rcases mem_or_eq_of_mem_set hu with hu | rfl
    · exact (hp.fits u hu).mono hp.sound hgrows
    · exact (advance_step hadvance).fits hp.sound hfits (hown _ _ htask)

def start (s₀ : Store) : Pool Manager Thread := ⟨{ store := s₀ }, []⟩

theorem inv_start (h0 : s₀.Blank) : Inv env (start s₀) where
  sound :=
    { ordered := fun id l hl => by rw [show (start s₀).shared.store.life id = none from h0.life id] at hl; cases hl
      works := fun k w hw => by cases hw
      deferred := fun id l hl => by rw [show (start s₀).shared.store.life id = none from h0.life id] at hl; cases hl
      settled := fun id l hl => by rw [show (start s₀).shared.store.life id = none from h0.life id] at hl; cases hl
      tracked := nofun
      queue := fun item hitem => by cases hitem }
  fits := fun t ht => by cases ht

theorem run_inv (hown : ∀ m task, ok m task = true → task.ownJob m = true) (h0 : s₀.Blank)
    (h : Run env.program Thread.entry (Guarded ok) (start s₀) p) : Inv env p :=
  h.invariant (fun _ _ _ hp hok hacts => inv_step hown hp hok hacts) (inv_start h0)

end Runs

end Goultroid.Jobs
