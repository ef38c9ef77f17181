import Goultroid.Jobs.Snapshots

/-!
# The retry budget

The lease does not look at the budget: it is the drivers that count before they lease. So the budget
holds if every driver leases on what it counted (`Task.current`): `SubmitOccurrence` an occurrence of its
own job without attempts, `watchAttempt` and `Recover` an occurrence whose latest attempt is still the one
they decided on. Neither is checked by the code, and `SubmitOccurrence` does not count at all: called twice
with one key it leases a second attempt of the occurrence, whatever the policy allows.

A life stays within its policy (`Life.Budgeted`) by every step but a lease, and by a lease whose driver has
counted fewer uses than the budget allows. What the driver counted still holds when it leases
(`lease_within`): its snapshot (`Task.Fits`) is about the attempts up to a place, `Task.current` says that
this place is still the last one, and attempts keep their places.
-/

namespace Goultroid.Jobs

open List Store
open Threads (Pool Act Run)

variable {a : JobAttempt} {m : Manager} {task : Task} {id : OccurrenceID} {l : Life} {env : Env} {policy : JobRetryPolicy}
  {init : List JobAttempt}

theorem maxAttempts_eq_max : maxAttempts policy = max 1 policy.maxAttempts := by
  unfold maxAttempts
  split_ifs <;> omega

theorem maxAttempts_pos (policy : JobRetryPolicy) : 0 < maxAttempts policy := by
  rw [maxAttempts_eq_max]
  omega

theorem maxDeferrals_pos (policy : JobRetryPolicy) : 0 < maxDeferrals policy := by
  have := maxAttempts_pos policy
  unfold maxDeferrals
  split_ifs <;> omega

/-! ### One occurrence -/

/-- The attempts are within the policy, and one more deferral would be, unless the last attempt was one. -/
structure Life.Budgeted (policy : JobRetryPolicy) (l : Life) : Prop where
  uses : (budgetUses l.attempts : Int) ≤ maxAttempts policy
  deferrals : (deferralsIn l.attempts : Int) ≤ maxDeferrals policy
  slack : ∀ a, l.attempts.getLast? = some a → a.state ≠ .deferred → (deferralsIn l.attempts : Int) < maxDeferrals policy

@[simp] theorem budgetUses_concat : budgetUses (init ++ [a]) = budgetUses init + if a.state = .deferred then 0 else 1 := by
  simp only [budgetUses, countP_append, countP_singleton, bne_iff_ne, ne_eq, ite_not]

@[simp] theorem deferralsIn_concat : deferralsIn (init ++ [a]) = deferralsIn init + if a.state = .deferred then 1 else 0 := by
  simp only [deferralsIn, countP_append, countP_singleton, beq_iff_eq]

namespace Life

variable {o : JobOccurrence}

theorem budgeted_nil : Budgeted policy ⟨o, []⟩ := by
  have hattempts := maxAttempts_pos policy
  have hdef := maxDeferrals_pos policy
  exact ⟨by simp [budgetUses]; omega, by simp [deferralsIn]; omega, by simp⟩

theorem Budgeted.lease (huses : (budgetUses l.attempts : Int) < maxAttempts policy)
    (hdef : (deferralsIn l.attempts : Int) < maxDeferrals policy) (ha : a.state = .leased) : Budgeted policy ⟨o, l.attempts ++ [a]⟩ := by
  refine ⟨?_, ?_, fun _ _ _ => ?_⟩
  · simp [ha]
    omega
  · simp [ha]
    omega
  · simpa [ha] using hdef

theorem Budgeted.settle {a' : JobAttempt} (h : l.Budgeted policy)
    (hl : l.attempts = init ++ [a]) (hact : a.state.active = true) : Budgeted policy ⟨o, init ++ [a']⟩ := by
  have ha : a.state ≠ .deferred := by
    intro hdefer
    simp [hdefer, AttemptState.active] at hact
  have huses := h.uses
  have hslack := h.slack a (by simp [hl]) ha
  simp only [hl, budgetUses_concat, deferralsIn_concat, if_neg ha] at huses hslack
  refine ⟨?_, ?_, fun b hb hstate => ?_⟩
  · simp only [budgetUses_concat]
    split_ifs <;> omega
  · simp only [deferralsIn_concat]
    split_ifs <;> omega
  · obtain rfl : a' = b := by simpa using hb
    simp only [deferralsIn_concat, if_neg hstate]
    exact hslack

/-- Every step but a lease keeps within the policy, and so does a lease that was counted for. -/
theorem Budgeted.step {scope : Scope} {k : Option Life} (h : Step scope k (some l))
    (hk : ∀ l0, k = some l0 → l0.Budgeted policy ∧ l0.Ordered)
    (hlease : ∀ l0 now, k = some l0 → scope.leases l0.occurrence.id → l0.Leasable now →
      (budgetUses l0.attempts : Int) < maxAttempts policy ∧ (deferralsIn l0.attempts : Int) < maxDeferrals policy) : l.Budgeted policy := by
  cases h with
  | stay => exact (hk l rfl).1
  | opened => exact budgeted_nil
  | touched l0 | closed l0 =>
    obtain ⟨⟨huses, hdef, hslack⟩, -⟩ := hk l0 rfl
    exact ⟨huses, hdef, hslack⟩
  | leased l0 o a now hleasable hfixed hstate ha hno hepoch hleases =>
    obtain ⟨huses, hdef⟩ := hlease l0 now rfl hleases hleasable
    exact .lease huses hdef ha
  | settled l0 o a a' _ _ hstate hfixed hsplit hlatest hact huniq hepoch =>
    obtain ⟨hbudget, hordered⟩ := hk l0 rfl
    obtain ⟨rfl, -⟩ := hordered.settle (o := o) hsplit hlatest huniq hepoch
    exact hbudget.settle hsplit hact

end Life

/-! ### Leases -/

/-- A driver leases on what it counted. -/
def Task.current (m : Manager) : Task → Bool
  | .drive (.submit jobID) id _ .lease =>
    (m.store.occurrence? id).all fun o => o.jobID == jobID && m.store.countAttempts id == 0
  | .drive (.watch item) id _ .lease => (m.store.latestAttempt id).all fun a => a.id == item.attempt
  | .drive (.recover c _ _) id _ .lease => (m.store.latestAttempt id).all fun a => a.id == c.summary.latest.id
  | _ => true

theorem Task.ownJob_of_current (h : task.current m = true) : task.ownJob m = true := by
  unfold Task.ownJob
  split
  · rename_i jobID id definition
    simp only [Task.current] at h
    cases ho : m.store.occurrence? id with
    | none => rfl
    | some =>
      rw [ho] at h
      simp only [Option.all_some, Bool.and_eq_true] at h ⊢
      exact h.1
  · rfl

theorem Life.place_eq_last {i : Nat} {b : JobAttempt} {s : Store} (hl : s.life id = some l) (hordered : l.Ordered)
    (ha : l.attempts[i]? = some a) (hb : l.attempts.getLast? = some b) (hid : b.id = a.id) :
    a = b ∧ l.attempts.take (i + 1) = l.attempts := by
  have hrow (c : JobAttempt) (hc : c ∈ l.attempts) : s.attempt? c.id = some c := by
    rw [(life_eq_some hl).2] at hc
    exact attempt?_of_mem (mem_attemptsOf.mp hc).1
  have hsame := hrow a (mem_of_getElem? ha)
  rw [← hid, hrow b (mem_of_getLast? hb)] at hsame
  obtain rfl := Option.some.inj hsame
  refine ⟨rfl, take_of_length_le ?_⟩
  obtain ⟨_, heq⟩ := getLast?_eq_some_iff.mp hb
  have hno : b.attemptNo = l.attempts.length := by
    rw [heq, (Numbered.of_concat (heq ▸ hordered.numbered)).2]
    simp
  have hget : (l.attempts.map JobAttempt.attemptNo)[i]? = some b.attemptNo := by simp [ha]
  rw [hordered.numbered, List.getElem?_range' (List.getElem?_eq_some_iff.mp ha).1] at hget
  have := Option.some.inj hget
  omega

theorem Manager.Sound.not_deferred {res : TaskResult} (hm : m.Sound env) (hl : m.store.life id = some l) (ha : a ∈ l.attempts)
    (hres : m.ticket? a.id = some res) (hrate : res.cause ≠ .rateLimited) (hfail : res.cause ≠ .persistenceFailure) :
    a.state ≠ .deferred := by
  intro hdefer
  obtain ⟨w, hw, hmay⟩ := hm.deferred id l hl a ha hdefer
  obtain ⟨w', hw', hres⟩ := Option.bind_eq_some_iff.mp hres
  obtain rfl := Option.mem_unique hw hw'
  unfold Work.ticket? at hres
  split at hres
  · cases hres
    exact hfail rfl
  · rename_i r hphase
    cases hres
    simp [hphase, Phase.mayDefer, hrate, hfail] at hmay
  · cases hres

/-- What a driver counted still holds when it leases. -/
theorem lease_within {driver : Driver} {definition d : JobDefinition} (hm : m.Sound env)
    (hfits : Task.Fits env m (.drive driver id definition .lease))
    (hcur : Task.current m (.drive driver id definition .lease) = true) (hl : m.store.life id = some l)
    (hd : env.definitions.lookup l.occurrence.jobID = some d) (hbudget : l.Budgeted d.retryPolicy) :
    (budgetUses l.attempts : Int) < maxAttempts d.retryPolicy ∧ (deferralsIn l.attempts : Int) < maxDeferrals d.retryPolicy := by
  have hordered := hm.ordered id l hl
  have hsame (h : m.Defines env id definition) : definition = d := by
    obtain ⟨l', hl', hlookup⟩ := h
    obtain rfl := Option.mem_unique hl hl'
    exact Option.some.inj (hlookup.symm.trans hd)
  have hlatest : m.store.latestAttempt id = l.attempts.getLast? := by
    rw [Store.latestAttempt, ← (life_eq_some hl).2, hordered.numbered.latestOf_eq]
  -- a place among the attempts gives the latest one, which the condition compares
  have hlast {i : Nat} {a : JobAttempt} (ha : l.attempts[i]? = some a)
      (hid : ((m.store.latestAttempt id).all fun b => b.id == a.id) = true) :
      l.attempts.getLast? = some a ∧ l.attempts.take (i + 1) = l.attempts := by
    rw [hlatest] at hid
    cases hb : l.attempts.getLast? with
    | none => simp [getLast?_eq_none_iff.mp hb] at ha
    | some =>
      rw [hb, Option.all_some, beq_iff_eq] at hid
      obtain ⟨rfl, htake⟩ := Life.place_eq_last hl hordered ha hb hid
      exact ⟨rfl, htake⟩
  cases driver with
  | submit =>
    simp only [Task.current, (life_eq_some hl).1, Option.all_some, Bool.and_eq_true, beq_iff_eq] at hcur
    have hnil : l.attempts = [] := by
      rw [(life_eq_some hl).2]
      exact eq_nil_of_length_eq_zero hcur.2
    have hattempts := maxAttempts_pos d.retryPolicy
    have hdef := maxDeferrals_pos d.retryPolicy
    rw [hnil]
    exact ⟨hattempts, hdef⟩
  | watch =>
    obtain ⟨rfl, hdefined, ⟨l', hl', i, a, ha, hid, huses⟩, res, hres, hrate, hfail⟩ := hfits.1
    obtain rfl := Option.mem_unique hl hl'
    obtain rfl := hsame hdefined
    obtain ⟨hgetLast, htake⟩ := hlast ha (by rw [hid]; exact hcur)
    rw [htake] at huses
    rw [← hid] at hres
    exact ⟨huses, hbudget.slack a hgetLast (hm.not_deferred hl (mem_of_getElem? ha) hres hrate hfail)⟩
  | recover c =>
    obtain ⟨rfl, hdefined, hclear, hseen⟩ := hfits.1
    obtain ⟨l', hl', -, hcount⟩ := hseen c mem_cons_self
    obtain rfl := Option.mem_unique hl hl'
    obtain rfl := hsame hdefined
    obtain ⟨i, ha, huses, hdef⟩ := hcount hclear.past
    obtain ⟨hgetLast, htake⟩ := hlast ha hcur
    rw [htake] at huses hdef
    rw [huses]
    refine ⟨hclear.uses, ?_⟩
    by_cases hdefer : c.summary.latest.state = .deferred
    · rw [hdef]
      exact hclear.deferrals hdefer
    · exact hbudget.slack _ hgetLast hdefer

/-! ### Runs -/

/-- Every occurrence of a defined job is within its policy. -/
def Manager.Budgeted (env : Env) (m : Manager) : Prop :=
  ∀ id l, m.store.life id = some l → ∀ d, env.definitions.lookup l.occurrence.jobID = some d → l.Budgeted d.retryPolicy

theorem budgeted_step {choice : Choice} {m' : Manager} {task' : Task} (h : env.advance choice m task = some (m', task')) (hm : m.Sound env)
    (hfits : task.Fits env m) (hcur : task.current m = true) (hbudget : m.Budgeted env) : m'.Budgeted env := by
  obtain ⟨_, hstep, -, hleases, -⟩ := (Env.advance_change h).step hm.works
  intro id l hl d hd
  have hid := hstep id
  rw [hl] at hid
  have hjob : ∀ l0, m.store.life id = some l0 → env.definitions.lookup l0.occurrence.jobID = some d := by
    intro l0 hl0
    rw [hl0] at hid
    rw [← hid.extends.jobID]
    exact hd
  refine Life.Budgeted.step hid (fun l0 hl0 => ⟨hbudget id l0 hl0 d (hjob l0 hl0), hm.ordered id l0 hl0⟩) ?_
  intro l0 now hl0 hlease _
  rw [life_id hl0] at hlease
  obtain ⟨_, _, rfl⟩ := hleases id hlease
  exact lease_within hm hfits hcur hl0 (hjob l0 hl0) (hbudget id l0 hl0 d (hjob l0 hl0))

theorem run_budgeted {s0 : Store} {p : Pool Manager Thread} (h0 : s0.Blank)
    (h : Run env.program Thread.entry (Guarded Task.current) (start s0) p) : p.shared.Budgeted env := by
  refine (h.invariant (P := fun p => Inv env p ∧ p.shared.Budgeted env) ?_ ⟨inv_start h0, ?_⟩).2
  · intro p a p' hp hok hacts
    refine ⟨inv_step (fun _ _ => Task.ownJob_of_current) hp.1 hok hacts, ?_⟩
    rcases program_cases hacts hok with ⟨t, -, rfl⟩ | ⟨i, t, choice, m', task', -, ht, htask, hadvance, rfl⟩
    · exact hp.2
    · exact budgeted_step hadvance hp.1.sound (hp.1.fits t (mem_of_getElem? ht)) htask hp.2
  · intro id l hl
    rw [show (start s0).shared.store.life id = none from h0.life id] at hl
    cases hl

/-- In every interleaving of submissions, watchers, recovery passes, cancellations, results and restarts
in which drivers lease only on what they counted, the attempts of every occurrence are within the policy
of its job. -/
theorem retry_budget_kept (env : Env) (s₀ : Store) (h₀ : s₀.Blank) (p : Pool Manager Thread)
    (hrun : Run env.program Thread.entry (Guarded Task.current) (start s₀) p) :
    ∀ o ∈ p.shared.store.occurrences.rows, ∀ d, env.definitions.lookup o.jobID = some d →
      (p.shared.store.countRetryBudgetUses o.id : Int) ≤ max 1 d.retryPolicy.maxAttempts ∧
      (p.shared.store.countDeferrals o.id : Int) ≤ maxDeferrals d.retryPolicy + 1 := by
  intro o ho d hd
  obtain ⟨huses, hdef, -⟩ := run_budgeted h₀ hrun o.id _
    (life_of_occurrence? (occurrence?_of_mem ho)) d hd
  refine ⟨?_, hdef.trans (by omega)⟩
  rw [← maxAttempts_eq_max]
  exact huses

/-! ### Runs of one job -/

/-- One job, whose attempts are retried at once. -/
def oneJob (policy : JobRetryPolicy) : Env where
  fmt := plainFormats
  definitions := (∅ : AList fun _ : GoString => JobDefinition).insert (goString "job")
    { id := goString "job", handlerType := goString "handler", retryPolicy := policy }
  handlers := [goString "handler"]
  backoff := fun _ _ => 0
  marshal := fun _ _ => none
  unmarshal := fun _ => none

def oneJobStore : Store := .ofDefinitions [goString "job"]

/-- The occurrence that the first submission materializes at time 10. -/
def firstOccurrence : OccurrenceID := (Env.submittedOccurrence 10 (goString "job") (goString "key") 1).id

def attemptOf (no : Nat) : AttemptID := goString "attempt:" ++ firstOccurrence ++ goString ":" ++ Text.decimal no

/-- Thread `i` takes `n` steps at time `now`. -/
def stepsAt (i n : Nat) (now : Time) : List (Act Thread Choice) :=
  List.replicate n (.move i { now := now, later := now })

/-- A call with the one key, as thread 0 of the run. -/
def submission : Act Thread Choice := .call ⟨0, .submit (goString "job") (goString "key")⟩

/-- The first submission is driven, and the engine, thread 1, commits that its attempt failed. -/
def failedOnce : List (Act Thread Choice) :=
  submission :: stepsAt 0 6 10 ++ [.call ⟨0, .engine⟩,
    .move 1 { attempt := attemptOf 1, result := { outcome := .failed } }, .move 1 { now := 20, attempt := attemptOf 1 }]

/-- The retry loop, thread 2, sees the failure and drives a second attempt. -/
def retried : List (Act Thread Choice) := failedOnce ++ .call ⟨0, .retryLoop⟩ :: stepsAt 2 9 20

theorem retry_budget_kept_retried :
    ∃ p, Run (oneJob { maxAttempts := 2 }).program Thread.entry (Guarded Task.current) (start oneJobStore) p ∧
      p.shared.store.countRetryBudgetUses firstOccurrence = 2 ∧
      ∀ o ∈ p.shared.store.occurrences.rows, ∀ d, (oneJob { maxAttempts := 2 }).definitions.lookup o.jobID = some d →
        (p.shared.store.countRetryBudgetUses o.id : Int) ≤ max 1 d.retryPolicy.maxAttempts ∧
        (p.shared.store.countDeferrals o.id : Int) ≤ maxDeferrals d.retryPolicy + 1 := by
  obtain ⟨p, hrun, huses⟩ : ∃ p, Run (oneJob { maxAttempts := 2 }).program Thread.entry (Guarded Task.current) (start oneJobStore) p ∧
      p.shared.store.countRetryBudgetUses firstOccurrence = 2 := Run.of_check retried (by decide +kernel)
  exact ⟨p, hrun, huses, retry_budget_kept _ oneJobStore (blank_ofDefinitions _) p hrun⟩

/-- The same key is submitted again after its attempt failed, and a second attempt is leased. -/
def resubmitted : List (Act Thread Choice) := failedOnce ++ submission :: stepsAt 2 3 20

/-- After a restart two recovery passes, threads 3 and 4, both see one failed attempt of two. The first
drives the second attempt, which the engine rejects, and the other drives a third. -/
def staleRecovery : List (Act Thread Choice) :=
  failedOnce ++ [.call ⟨0, .restart⟩, .move 2 {}, .call ⟨1, .recover 10⟩, .move 3 {}, .call ⟨1, .recover 10⟩, .move 4 {}] ++
    stepsAt 3 3 20 ++ [.move 3 { rejection := some {} }] ++ stepsAt 3 2 20 ++ stepsAt 4 2 20

/-- A run without conditions exceeds the budget: with a repeated key one attempt is allowed and two are
leased, with a stale pass two are allowed and three are leased. -/
theorem retry_budget_exceeded : oneJobStore.Blank ∧
    (∃ p, Run (oneJob { maxAttempts := 1 }).program Thread.entry (fun _ _ => true) (start oneJobStore) p ∧
      p.shared.store.countRetryBudgetUses firstOccurrence = 2) ∧
    (∃ p, Run (oneJob { maxAttempts := 2 }).program Thread.entry (fun _ _ => true) (start oneJobStore) p ∧
      p.shared.store.countRetryBudgetUses firstOccurrence = 3) := by
  exact ⟨blank_ofDefinitions _, Run.of_check resubmitted (by decide +kernel), Run.of_check staleRecovery (by decide +kernel)⟩

end Goultroid.Jobs
