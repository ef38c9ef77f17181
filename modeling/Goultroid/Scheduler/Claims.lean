import Goultroid.Lib.Ledger
import Goultroid.Lib.Table
import Goultroid.Tasks.Types

/-!
# Claims on scheduled jobs

`internal/scheduler/repository.go`: due jobs are claimed under a token and a lease. The token fences the
completion, the failure and the renewal; a job whose lease has expired is claimed again under another token.
Every transaction moves the claims as a ledger of claims is moved (`Repository.ledger`), which gives the laws
of the tokens.

The driver stores a time as the text of `time.Time.String`, and the statements compare texts: the wall clock decides, in the zone that the
value happens to have. The engine claims with the local time and renews in UTC, so that east of UTC a renewed lease is behind the clock
that it is compared with (`renewed_lease_taken`). Where all values have one offset the order of the texts is that of the times.

A batch is claimed job after job, each as it was selected (`Selected`), and `Revises` says once what a transaction makes of a row that it
leaves.
-/

namespace Goultroid.Scheduler

open List Option Table Bool

/-- How a time is written: what follows the wall clock (`-0700 MST`, then `m=` with the monotonic clock if there is a reading of it), and
the offset that this names. -/
structure Zone where
  offset : Duration := 0
  suffix : GoString := goString " +0000 UTC"
  deriving DecidableEq

structure StoredTime where
  time : Time
  zone : Zone := {}
  deriving DecidableEq

/-- `<` on the texts of two times, for years of four digits. Trailing zeros of the seconds are not written, but a blank is before every
digit and before the point, so that the wall clock decides. -/
def StoredTime.before (a b : StoredTime) : Bool :=
  decide (a.time + a.zone.offset < b.time + b.zone.offset ∨
    a.time + a.zone.offset = b.time + b.zone.offset ∧ a.zone.suffix < b.zone.suffix)

inductive JobStatus where
  | initializing
  | pending
  | running
  | failed
  | completed
  | other (name : GoString)
  deriving DecidableEq

/-- The columns of `scheduled_jobs` that the transactions below read or write. -/
structure ScheduledJob where
  id : Int
  intervalSeconds : Int := 0
  nextRunAt : Time
  nextZone : Zone := {}
  lastError : GoString := []
  attemptCount : Int := 0
  status : JobStatus := .pending
  maxAttempts : Int := 3
  leaseUntil : Option StoredTime := none
  claimedAt : Option Time := none
  lastStartedAt : Option Time := none
  lastFinishedAt : Option Time := none
  claimToken : GoString := []
  deriving DecidableEq

structure JobHistoryEntry where
  jobID : Int
  ranAt : Time
  durationMs : Int
  success : Bool
  errorMsg : GoString
  deriving DecidableEq

/-- A row of the history, and the token under which the job was running when it was written. -/
structure HistoryRecord where
  entry : JobHistoryEntry
  claim : GoString
  deriving DecidableEq

/-- The tables, what was written to the history, the tokens that were issued for jobs, and the tokens of the
running jobs that were deleted. -/
structure Repository where
  jobs : Table ScheduledJob.id Eq
  history : List HistoryRecord := []
  issued : List (Int × GoString) := []
  deleted : List GoString := []

inductive RepositoryError where
  | leaseLost
  | notFound
  /-- the loop over missed runs does not end -/
  | stuck
  deriving DecidableEq

variable {r₀ r : Repository}

namespace Repository

variable (r : Repository) (id : Int) (claimToken : GoString)

def job? : Option ScheduledJob := r.jobs.rows.find? (·.id == id)

/-- `status = 'pending' OR (status = 'running' AND lease_until IS NOT NULL AND lease_until < ?)`. -/
def claimable (now : StoredTime) (job : ScheduledJob) : Bool :=
  job.status == .pending || job.status == .running && job.leaseUntil.any fun lease => lease.before now

def planned (job : ScheduledJob) : StoredTime := ⟨job.nextRunAt, job.nextZone⟩

/-- `next_run_at <= ?`, and `ORDER BY next_run_at ASC`. -/
def due (now : StoredTime) (limit : Int) : List ScheduledJob :=
  ((r.jobs.rows.filter fun job => claimable now job && !now.before (planned job)).insertionSort
    fun job job' => (planned job').before (planned job) = false).take (if limit ≤ 0 then 10 else limit.toNat)

/-- The lease of a job that is claimed has expired. -/
def recordExpiry (now : Time) (job : ScheduledJob) : Repository :=
  if job.status = .running then
    { r with history := r.history ++ [⟨{
        jobID := job.id
        ranAt := now
        durationMs := 0
        success := false
        errorMsg := goString "execution lease expired (previous worker abandoned or crashed)" }, job.claimToken⟩] }
  else r

def claimedRow (now : Time) (leaseUntil : StoredTime) (token lastErr : GoString) (j : ScheduledJob) : ScheduledJob :=
  { j with
    status := .running
    leaseUntil := some leaseUntil
    claimedAt := some now
    lastStartedAt := some now
    attemptCount := j.attemptCount + 1
    claimToken := token
    lastError := lastErr }

theorem claimedRow_id (now : Time) (leaseUntil : StoredTime) (token lastErr : GoString) (j : ScheduledJob) :
    (claimedRow now leaseUntil token lastErr j).id = j.id := rfl

def claimOne (now leaseUntil : StoredTime) (job : ScheduledJob) (token : GoString) : Repository :=
  let lastErr := if job.status = .running then goString "previous execution lease expired" else job.lastError
  let r := r.recordExpiry now.time job
  let selected : ScheduledJob → Bool := fun j => j.id == job.id && claimable now j
  { r with
    jobs := r.jobs.update selected (claimedRow now.time leaseUntil token lastErr) (claimedRow_id _ _ _ _)
    issued := if r.jobs.count selected = 1 then r.issued ++ [(job.id, token)] else r.issued }

def claimDueScheduledJobsOnce (now : StoredTime) (limit : Int) (lease : Duration) (leaseZone : Zone) (tokens : List GoString) : Repository :=
  let leaseUntil := ⟨now.time + if lease ≤ 0 then 90000000000 else lease, leaseZone⟩
  ((r.due now limit).zip tokens).foldl (fun r (job, token) => r.claimOne now leaseUntil job token) r

def running? : Option ScheduledJob :=
  (r.job? id).filter fun job => job.status == .running && job.claimToken == claimToken

/-- `id = ? AND status = 'running' AND claim_token = ?`. -/
def holds (job : ScheduledJob) : Bool :=
  job.id == id && job.status == .running && job.claimToken == claimToken

/-- The first run after `now` among `nextRunAt + step`, `nextRunAt + 2 * step`, …. -/
def nextRun (nextRunAt : Time) (step : Duration) (now : Time) : Option Time :=
  let first := nextRunAt + step
  if now < first then some first
  else if step ≤ 0 then none
  else some (first + ((now - first) / step + 1) * step)

def record (now : Time) (durationMs : Int) (success : Bool) (errorMsg : GoString) : Repository :=
  { r with history := r.history ++ [⟨⟨id, now, durationMs, success, errorMsg⟩, claimToken⟩] }

def completeScheduledJob (durationMs : Int) (now : Time) (zone : Zone) : Except RepositoryError Repository :=
  match r.running? id claimToken with
  | none => .error .leaseLost
  | some job =>
    if 0 < job.intervalSeconds then
      match nextRun job.nextRunAt (Int.bmod (job.intervalSeconds * 1000000000) (2 ^ 64)) now with
      | none => .error .stuck
      | some next => .ok (record { r with
          jobs := r.jobs.update (holds id claimToken) (fun j => { j with
            status := .pending
            nextRunAt := next
            nextZone := zone
            attemptCount := 0
            lastError := []
            leaseUntil := none
            claimedAt := none
            claimToken := []
            lastFinishedAt := some now }) fun _ => rfl } id claimToken now durationMs true [])
    else .ok (record { r with jobs := r.jobs.delete (holds id claimToken) } id claimToken now durationMs true [])

def failScheduledJob (claimToken lastError : GoString) (durationMs : Int) (retryDelay : Duration) (isPermanent : Bool)
    (now : Time) (zone : Zone) : Except RepositoryError Repository :=
  match r.running? id claimToken with
  | none => .error .leaseLost
  | some job =>
    let maxAttempts := if job.maxAttempts ≤ 0 then 3 else job.maxAttempts
    let failed := isPermanent || decide (maxAttempts ≤ job.attemptCount)
    .ok (record { r with
      jobs := r.jobs.update (holds id claimToken) (fun j => { j with
        status := if failed then .failed else .pending
        nextRunAt := if failed then j.nextRunAt else now + retryDelay
        nextZone := if failed then j.nextZone else zone
        lastError := lastError
        leaseUntil := none
        claimToken := []
        lastFinishedAt := some now }) fun _ => rfl } id claimToken now durationMs false lastError)

def updateScheduledJobNextRun (nextRun : Time) (zone : Zone) : Except RepositoryError Repository :=
  if (r.job? id).isNone then .error .notFound
  else .ok { r with jobs := r.jobs.update (·.id == id) (fun j => { j with nextRunAt := nextRun, nextZone := zone }) fun _ => rfl }

def deleteScheduledJob : Except RepositoryError Repository :=
  match r.job? id with
  | none => .error .notFound
  | some job => .ok { r with
      jobs := r.jobs.delete (·.id == id)
      deleted := if job.status = .running then r.deleted ++ [job.claimToken] else r.deleted }

def renewJobLease (extension : Duration) (now : Time) (zone : Zone) : Except RepositoryError Repository :=
  if (r.running? id claimToken).isNone then .error .leaseLost
  else .ok { r with
    jobs := r.jobs.update (holds id claimToken) (fun j => { j with leaseUntil := some ⟨now + extension, zone⟩ }) fun _ => rfl }

end Repository

/-! ### Runs -/

/-- A transaction, with its clock reading, the zone of the time that it stores and the tokens that it generates. -/
inductive Op where
  | claim (now : StoredTime) (limit : Int) (lease : Duration) (leaseZone : Zone) (tokens : List GoString)
  | complete (id : Int) (claimToken : GoString) (durationMs : Int) (now : Time) (zone : Zone)
  | fail (id : Int) (claimToken lastError : GoString) (durationMs : Int) (retryDelay : Duration) (isPermanent : Bool) (now : Time)
    (zone : Zone)
  | updateNextRun (id : Int) (nextRun : Time) (zone : Zone)
  | delete (id : Int)
  | renew (id : Int) (claimToken : GoString) (extension : Duration) (now : Time) (zone : Zone)
  deriving DecidableEq

namespace Repository

def perform (r : Repository) : Op → Except RepositoryError Repository
  | .claim now limit lease leaseZone tokens => .ok (r.claimDueScheduledJobsOnce now limit lease leaseZone tokens)
  | .complete id claimToken durationMs now zone => r.completeScheduledJob id claimToken durationMs now zone
  | .fail id claimToken lastError durationMs retryDelay isPermanent now zone =>
    r.failScheduledJob id claimToken lastError durationMs retryDelay isPermanent now zone
  | .updateNextRun id nextRun zone => r.updateScheduledJobNextRun id nextRun zone
  | .delete id => r.deleteScheduledJob id
  | .renew id claimToken extension now zone => r.renewJobLease id claimToken extension now zone

/-- The tokens of a claim are new, and there are enough of them. -/
def Fresh (r : Repository) : Op → Prop
  | .claim now limit _ _ tokens => tokens.Nodup ∧ (∀ token ∈ tokens, token ∉ r.issued.map Prod.snd) ∧
    (r.due now limit).length ≤ tokens.length
  | _ => True

instance (r : Repository) (op : Op) : Decidable (r.Fresh op) := by
  cases op <;> unfold Fresh <;> infer_instance

/-- The states of the tables in which transactions that are `ok` leave them, in any order. -/
inductive Reachable (ok : Op → Prop) (r₀ : Repository) : Repository → Prop where
  | refl : Reachable ok r₀ r₀
  | step {r r' : Repository} (op : Op) : Reachable ok r₀ r → ok op → r.Fresh op → r.perform op = .ok r' → Reachable ok r₀ r'

theorem Reachable.mono {ok ok' : Op → Prop} (hok : ∀ op, ok op → ok' op) (h : Reachable ok r₀ r) : Reachable ok' r₀ r := by
  induction h with
  | refl => exact .refl
  | step op _ hop hfresh hstep ih => exact .step op ih (hok op hop) hfresh hstep

def ledger (r : Repository) : Ledger Int GoString where
  holder id := (r.job? id).bind fun job => if job.status = .running then some job.claimToken else none
  issued := r.issued
  closed := r.history.map HistoryRecord.claim
  lost := r.deleted

end Repository

/-! ### Transactions as steps of the ledger -/

variable {r' : Repository} {op : Op}

namespace Repository

variable {id durationMs limit : Int} {token errorMsg : GoString} {job : ScheduledJob} {p : ScheduledJob → Bool} {success : Bool}
  {lease : Duration} {leaseZone zone : Zone} {tokens deleted : List GoString} {ok : Op → Prop} {jobs : Table ScheduledJob.id Eq}
  {history : List HistoryRecord} {issued : List (Int × GoString)} {now : Time} {P : Repository → Prop}

theorem job?_mem (h : r.job? id = some job) : job ∈ r.jobs.rows ∧ job.id = id :=
  ⟨mem_of_find?_eq_some h, by simpa using find?_some h⟩

theorem job?_of_mem (h : job ∈ r.jobs.rows) : r.job? job.id = some job :=
  find?_of_mem h (by simp) fun j hj => (beq_iff_eq.mp hj).symm

/-- The holder of a job in terms of its row. -/
def heldBy (job : Option ScheduledJob) : Option GoString :=
  job.bind fun job => if job.status = .running then some job.claimToken else none

theorem holder_eq : r.ledger.holder id = heldBy (r.job? id) := rfl

theorem running?_eq_some (h : r.running? id token = some job) : r.job? id = some job ∧ job.status = .running ∧ job.claimToken = token := by
  obtain ⟨hjob, hboth⟩ := filter_eq_some_iff.mp h
  simp only [and_eq_true, beq_iff_eq] at hboth
  exact ⟨hjob, hboth⟩

theorem holder_of_running? (h : r.running? id token = some job) : r.ledger.holder id = some token := by
  obtain ⟨hjob, hrunning, htoken⟩ := running?_eq_some h
  rw [holder_eq, hjob]
  simp [heldBy, hrunning, htoken]

theorem running?_isSome : (r.running? id token).isSome ↔ r.ledger.holder id = some token := by
  constructor
  · intro h
    obtain ⟨job, hjob⟩ := isSome_iff_exists.mp h
    exact holder_of_running? hjob
  · intro h
    obtain ⟨job, hjob, hheld⟩ := bind_eq_some_iff.mp h
    split_ifs at hheld with hrunning
    have : r.running? id token = some job := filter_eq_some_iff.mpr ⟨hjob, by simp [hrunning, some.inj hheld]⟩
    rw [this]
    rfl

section Updates

variable {f : ScheduledJob → ScheduledJob} {hf : ∀ j, (f j).id = j.id}

theorem job?_update : (r.jobs.update p f hf).rows.find? (·.id == id) = (r.job? id).map fun j => if p j then f j else j :=
  find?_update hf fun j => by rw [hf j]

theorem holder_update (hjobs : jobs = r.jobs.update p f hf) (hjob : r.job? id = some job)
    (hp : p job = true) (hother : ∀ j, p j = true → j.id = id) :
    (ledger ⟨jobs, history, issued, deleted⟩).holder = Function.update r.ledger.holder id (heldBy (some (f job))) := by
  funext k
  show heldBy (jobs.rows.find? (·.id == k)) = _
  rw [hjobs, job?_update]
  by_cases hk : k = id
  · subst hk
    rw [Function.update_self, hjob, map_some, if_pos hp]
  · rw [Function.update_of_ne hk, holder_eq]
    cases hrow : r.job? k with
    | none => rfl
    | some j =>
      rw [map_some, if_neg]
      intro hj
      exact hk ((job?_mem hrow).2.symm.trans (hother j hj))

theorem holder_keep (hstatus : ∀ j, (f j).status = j.status) (htoken : ∀ j, (f j).claimToken = j.claimToken) :
    ledger { r with jobs := r.jobs.update p f hf } = r.ledger := by
  refine Ledger.ext (funext fun k => ?_) rfl rfl rfl
  rw [holder_eq, holder_eq]
  show heldBy ((r.jobs.update p f hf).rows.find? (·.id == k)) = _
  rw [job?_update]
  cases r.job? k with
  | none => rfl
  | some =>
    simp only [heldBy, map_some, bind_some]
    split_ifs <;> simp_all

end Updates

theorem holder_delete (hjob : r.job? id = some job) (hp : p job = true) (hother : ∀ j, p j = true → j.id = id) :
    (ledger ⟨r.jobs.delete p, history, issued, deleted⟩).holder = Function.update r.ledger.holder id none := by
  funext k
  rw [holder_eq]
  by_cases hk : k = id
  · subst hk
    rw [Function.update_self]
    have hnone : job? ⟨r.jobs.delete p, history, issued, deleted⟩ k = none := by
      rw [job?, find?_eq_none]
      intro j hj hid
      obtain ⟨hmem, hkeep⟩ := mem_delete.mp hj
      have hrow := job?_of_mem hmem
      rw [beq_iff_eq.mp hid, hjob] at hrow
      rw [← some.inj hrow, hp] at hkeep
      cases hkeep
    rw [hnone]
    rfl
  · rw [Function.update_of_ne hk, holder_eq]
    congr 1
    simp only [job?, Table.delete, find?_filter]
    congr 1
    funext j
    by_cases hj : j.id = k
    · have hpj : p j = false := by
        by_contra hp'
        exact hk (hj.symm.trans (hother j (by simpa using hp')))
      simp [hj, hpj]
    · simp [hj]

theorem holds_self (h : r.running? id token = some job) : holds id token job = true := by
  obtain ⟨hjob, hrunning, htoken⟩ := running?_eq_some h
  simp [holds, hrunning, htoken, (job?_mem hjob).2]

theorem id_of_holds (h : holds id token job = true) : job.id = id := by
  simp only [holds, and_eq_true, beq_iff_eq] at h
  exact h.1.1

/-- A transaction that ends the claim of a running job with a record closes it in the ledger. -/
theorem close_of_record (hholder : (ledger { r with jobs := jobs }).holder = Function.update r.ledger.holder id none) :
    ledger (record { r with jobs := jobs } id token now durationMs success errorMsg) = r.ledger.close id token :=
  Ledger.ext hholder rfl (by simp [ledger, record, Ledger.close]) rfl

theorem completeScheduledJob_ledger (h : r.completeScheduledJob id token durationMs now zone = .ok r') :
    r.ledger.holder id = some token ∧ r'.ledger = r.ledger.close id token := by
  unfold completeScheduledJob at h
  split at h
  · cases h
  · next job hjob =>
    refine ⟨holder_of_running? hjob, ?_⟩
    have hrow := (running?_eq_some hjob).1
    split_ifs at h with hinterval
    · split at h
      · cases h
      · cases h
        exact close_of_record (holder_update rfl hrow (holds_self hjob) fun _ => id_of_holds)
    · cases h
      exact close_of_record (holder_delete hrow (holds_self hjob) fun _ => id_of_holds)

theorem failScheduledJob_ledger {lastError : GoString} {retryDelay : Duration} {isPermanent : Bool}
    (h : r.failScheduledJob id token lastError durationMs retryDelay isPermanent now zone = .ok r') :
    r.ledger.holder id = some token ∧ r'.ledger = r.ledger.close id token := by
  unfold failScheduledJob at h
  split at h
  · cases h
  · next job hjob =>
    refine ⟨holder_of_running? hjob, ?_⟩
    cases h
    refine close_of_record ((holder_update rfl (running?_eq_some hjob).1 (holds_self hjob) fun _ => id_of_holds).trans ?_)
    congr 1
    simp only [heldBy, bind_some]
    split_ifs <;> simp_all

theorem renewJobLease_ledger {extension : Duration} (h : r.renewJobLease id token extension now zone = .ok r') :
    r.ledger.holder id = some token ∧ r'.ledger = r.ledger := by
  unfold renewJobLease at h
  split_ifs at h with hnone
  cases h
  obtain ⟨job, hjob⟩ := ne_none_iff_exists'.mp (by simpa using hnone)
  exact ⟨holder_of_running? hjob, holder_keep (fun _ => rfl) fun _ => rfl⟩

theorem updateScheduledJobNextRun_ledger {nextRun : Time} (h : r.updateScheduledJobNextRun id nextRun zone = .ok r') :
    r'.ledger = r.ledger := by
  unfold updateScheduledJobNextRun at h
  split_ifs at h
  cases h
  exact holder_keep (fun _ => rfl) fun _ => rfl

theorem deleteScheduledJob_ledger (h : r.deleteScheduledJob id = .ok r') :
    r'.ledger = r.ledger ∨ ∃ token, r.ledger.holder id = some token ∧ r'.ledger = r.ledger.lose id token := by
  unfold deleteScheduledJob at h
  split at h
  · cases h
  · next job hjob =>
    cases h
    have hholder (deleted : List GoString) :
        (ledger ⟨r.jobs.delete (·.id == id), r.history, r.issued, deleted⟩).holder = Function.update r.ledger.holder id none :=
      holder_delete hjob (by simp [(job?_mem hjob).2]) fun j hj => beq_iff_eq.mp hj
    by_cases hrunning : job.status = .running
    · refine .inr ⟨job.claimToken, by rw [holder_eq, hjob]; simp [heldBy, hrunning], ?_⟩
      exact Ledger.ext (hholder _) rfl rfl (by simp [ledger, Ledger.lose, hrunning])
    · refine .inl (Ledger.ext ?_ rfl rfl (by simp [ledger, hrunning]))
      rw [hholder]
      refine Function.update_eq_self_iff.mpr ?_
      rw [holder_eq, hjob]
      simp [heldBy, hrunning]

/-! ### The batch of a claim -/

/-- The selected jobs are claimed one after another: each is still as it was selected. -/
structure Selected (r : Repository) (now : StoredTime) (jobs : List ScheduledJob) : Prop where
  distinct : (jobs.map ScheduledJob.id).Nodup
  row : ∀ job ∈ jobs, r.job? job.id = some job
  claimable : ∀ job ∈ jobs, claimable now job = true

theorem selected_due (r : Repository) (now : StoredTime) (limit : Int) : r.Selected now (r.due now limit) := by
  have hperm := perm_insertionSort (fun job job' : ScheduledJob => (planned job').before (planned job) = false)
    (r.jobs.rows.filter fun job => Repository.claimable now job && !now.before (planned job))
  have hmem {job : ScheduledJob} (h : job ∈ r.due now limit) : job ∈ r.jobs.rows ∧ Repository.claimable now job = true := by
    have hin := mem_filter.mp (hperm.mem_iff.mp (mem_of_mem_take h))
    simp only [and_eq_true] at hin
    exact ⟨hin.1, hin.2.1⟩
  refine ⟨?_, fun job h => job?_of_mem (hmem h).1, fun job h => (hmem h).2⟩
  have hrows : (r.jobs.rows.map ScheduledJob.id).Nodup := pairwise_map.mpr r.jobs.apart
  refine (List.Sublist.map _ (take_sublist _ _)).nodup ?_
  exact (hperm.map _).nodup_iff.mpr ((List.Sublist.map _ filter_sublist).nodup hrows)

section Claiming

variable {now leaseUntil : StoredTime} {at_ : Time} {jobs : List ScheduledJob}

theorem recordExpiry_jobs : (r.recordExpiry at_ job).jobs = r.jobs := by
  unfold recordExpiry
  split_ifs <;> rfl

theorem recordExpiry_issued : (r.recordExpiry at_ job).issued = r.issued := by
  unfold recordExpiry
  split_ifs <;> rfl

theorem claimOne_jobs (r : Repository) (now leaseUntil : StoredTime) (job : ScheduledJob) (token : GoString) :
    ∃ lastErr, (r.claimOne now leaseUntil job token).jobs =
      r.jobs.update (fun j => j.id == job.id && claimable now j) (claimedRow now.time leaseUntil token lastErr) (claimedRow_id _ _ _ _) :=
  ⟨_, by
    simp only [claimOne]
    rw [recordExpiry_jobs]⟩

theorem job?_claimOne (hne : id ≠ job.id) : (r.claimOne now leaseUntil job token).job? id = r.job? id := by
  obtain ⟨_, hjobs⟩ := claimOne_jobs r now leaseUntil job token
  rw [job?, hjobs, job?_update]
  cases hrow : r.job? id with
  | none => rfl
  | some =>
    simp [(job?_mem hrow).2, hne]

theorem issued_claimOne (leaseUntil : StoredTime) (hrow : r.job? job.id = some job) (hclaim : claimable now job = true) :
    (r.claimOne now leaseUntil job token).issued = r.issued ++ [(job.id, token)] := by
  have hone : (r.recordExpiry now.time job).jobs.count (fun j => j.id == job.id && claimable now j) = 1 := by
    rw [recordExpiry_jobs]
    refine count_eq_one (job?_mem hrow).1 (by simp [hclaim]) fun j hj => ?_
    simp only [and_eq_true, beq_iff_eq] at hj
    exact hj.1.symm
  refine (if_pos hone).trans ?_
  rw [recordExpiry_issued]

/-- One claim: an expired claim is closed, and the free job is claimed under the new token. -/
theorem claimOne_steps (hrow : r.job? job.id = some job) (hclaim : claimable now job = true)
    (hfresh : token ∉ r.issued.map Prod.snd) : Ledger.Steps r.ledger (r.claimOne now leaseUntil job token).ledger := by
  have hholder : (r.claimOne now leaseUntil job token).ledger.holder = Function.update r.ledger.holder job.id (some token) := by
    obtain ⟨_, hjobs⟩ := claimOne_jobs r now leaseUntil job token
    refine (holder_update hjobs hrow (by simp [hclaim]) fun j hj => ?_).trans ?_
    · simp only [and_eq_true, beq_iff_eq] at hj
      exact hj.1
    · simp [heldBy, claimedRow]
  have hheld : r.ledger.holder job.id = heldBy (some job) := by rw [holder_eq, hrow]
  by_cases hrunning : job.status = .running
  · have hclosed : (r.claimOne now leaseUntil job token).ledger = (r.ledger.close job.id job.claimToken).issue job.id token := by
      refine Ledger.ext ?_ (issued_claimOne leaseUntil hrow hclaim) ?_ ?_
      · rw [hholder]
        simp [Ledger.issue, Ledger.close]
      iterate 2
        · simp [ledger, claimOne, recordExpiry, hrunning, Ledger.issue, Ledger.close]
    rw [hclosed]
    refine .tail (.single (.close _ _ _ (hheld.trans (by simp [heldBy, hrunning])))) (.issue _ _ _ ?_ hfresh)
    simp [Ledger.close]
  · have hissued : (r.claimOne now leaseUntil job token).ledger = r.ledger.issue job.id token := by
      refine Ledger.ext hholder (issued_claimOne leaseUntil hrow hclaim) ?_ ?_
      iterate 2
        · simp [ledger, claimOne, recordExpiry, hrunning, Ledger.issue]
    rw [hissued]
    exact .single (.issue _ _ _ (hheld.trans (by simp [heldBy, hrunning])) hfresh)

theorem Selected.tail (h : r.Selected now (job :: jobs)) : (r.claimOne now leaseUntil job token).Selected now jobs := by
  obtain ⟨hjob, hdistinct⟩ := nodup_cons.mp h.distinct
  refine ⟨hdistinct, fun j hj => ?_, fun j hj => h.claimable j (mem_cons_of_mem _ hj)⟩
  rw [job?_claimOne]
  · exact h.row j (mem_cons_of_mem _ hj)
  · intro heq
    exact hjob (heq ▸ mem_map_of_mem hj)

def claimAll (r : Repository) (now leaseUntil : StoredTime) (claims : List (ScheduledJob × GoString)) : Repository :=
  claims.foldl (fun r (job, token) => r.claimOne now leaseUntil job token) r

theorem Selected.claimAll_invariant {claims : List (ScheduledJob × GoString)}
    (hstep : ∀ (r : Repository) (job : ScheduledJob) (token : GoString), job ∈ claims.map Prod.fst → r.job? job.id = some job →
      Repository.claimable now job = true → token ∉ r.issued.map Prod.snd → P r → P (r.claimOne now leaseUntil job token))
    (h : r.Selected now (claims.map Prod.fst)) (hnodup : (claims.map Prod.snd).Nodup)
    (hfresh : ∀ token ∈ claims.map Prod.snd, token ∉ r.issued.map Prod.snd) (hP : P r) : P (r.claimAll now leaseUntil claims) := by
  induction claims generalizing r with
  | nil => exact hP
  | cons claim claims ih =>
    obtain ⟨job, token⟩ := claim
    have hrow := h.row job mem_cons_self
    have hclaim := h.claimable job mem_cons_self
    obtain ⟨htoken, hnodup⟩ := nodup_cons.mp hnodup
    refine ih (fun r' job' token' hin => hstep r' job' token' (mem_cons_of_mem _ hin)) h.tail hnodup (fun token' hin => ?_)
      (hstep r job token mem_cons_self hrow hclaim (hfresh token mem_cons_self) hP)
    rw [issued_claimOne leaseUntil hrow hclaim, map_append, mem_append]
    rintro (hold | hnew)
    · exact hfresh token' (mem_cons_of_mem _ hin) hold
    · obtain rfl : token' = token := by simpa using hnew
      exact htoken hin

end Claiming

theorem claim_invariant {now : StoredTime} (hfresh : r.Fresh (.claim now limit lease leaseZone tokens)) (hP : P r)
    (hstep : ∀ (r' : Repository) (leaseUntil : StoredTime) (job : ScheduledJob) (token : GoString), leaseUntil.zone = leaseZone →
      job ∈ r.due now limit → r'.job? job.id = some job → claimable now job = true → token ∉ r'.issued.map Prod.snd → P r' →
      P (r'.claimOne now leaseUntil job token)) : P (r.claimDueScheduledJobsOnce now limit lease leaseZone tokens) := by
  obtain ⟨hnodup, hnew, hlen⟩ := hfresh
  have htok : (((r.due now limit).zip tokens).map Prod.snd).Sublist tokens := by
    rw [zip_eq_zip_take_min, map_snd_zip (by simp)]
    exact take_sublist _ _
  have hjobs : ((r.due now limit).zip tokens).map Prod.fst = r.due now limit := map_fst_zip hlen
  refine Selected.claimAll_invariant ?_ ?_ (htok.nodup hnodup) (fun token hin => hnew token (htok.subset hin)) hP
  · intro r' job token hin
    exact hstep r' _ job token rfl (hjobs ▸ hin)
  · rw [hjobs]
    exact selected_due r now limit

theorem issued_claim {now : StoredTime} (hfresh : r.Fresh (.claim now limit lease leaseZone tokens)) :
    ∀ issue ∈ (r.claimDueScheduledJobsOnce now limit lease leaseZone tokens).issued,
      issue ∈ r.issued ∨ ∃ job ∈ r.due now limit, job.id = issue.1 := by
  refine claim_invariant (P := fun r' => ∀ issue ∈ r'.issued, issue ∈ r.issued ∨ ∃ job ∈ r.due now limit, job.id = issue.1)
    hfresh (fun issue hin => .inl hin) fun r' leaseUntil job token _ hjob hrow hclaim _ ih issue hin => ?_
  rw [issued_claimOne leaseUntil hrow hclaim] at hin
  rcases mem_append.mp hin with hold | hnew
  · exact ih issue hold
  · rw [mem_singleton.mp hnew]
    exact .inr ⟨job, hjob, rfl⟩

/-- Every transaction moves the claims by steps of the ledger. -/
theorem perform_steps (hfresh : r.Fresh op) (h : r.perform op = .ok r') : Ledger.Steps r.ledger r'.ledger := by
  cases op with
  | claim =>
    cases h
    exact claim_invariant (P := fun r' => Ledger.Steps r.ledger r'.ledger) hfresh .refl
      fun r' leaseUntil job token _ _ hrow hclaim htoken ih => ih.trans (claimOne_steps hrow hclaim htoken)
  | complete =>
    obtain ⟨hheld, hclose⟩ := completeScheduledJob_ledger h
    exact hclose ▸ .single (.close _ _ _ hheld)
  | fail =>
    obtain ⟨hheld, hclose⟩ := failScheduledJob_ledger h
    exact hclose ▸ .single (.close _ _ _ hheld)
  | updateNextRun =>
    rw [updateScheduledJobNextRun_ledger h]
  | delete =>
    rcases deleteScheduledJob_ledger h with hsame | ⟨token, hheld, hlose⟩
    · rw [hsame]
    · exact hlose ▸ .single (.lose _ _ _ hheld)
  | renew =>
    rw [(renewJobLease_ledger h).2]

/-! ### Whole runs -/

/-- No claim was made yet: the rows are those of jobs that do not run. -/
structure Initial (r : Repository) : Prop where
  idle : ∀ job ∈ r.jobs.rows, job.status ≠ .running
  history : r.history = []
  issued : r.issued = []
  deleted : r.deleted = []

theorem Initial.fenced (h : r.Initial) : r.ledger.Fenced := by
  have hempty : r.ledger = Ledger.empty := by
    refine Ledger.ext (funext fun id => ?_) h.issued (by simp [ledger, h.history, Ledger.empty]) h.deleted
    rw [holder_eq]
    cases hjob : r.job? id with
    | none => rfl
    | some job => simp [heldBy, h.idle job (job?_mem hjob).1, Ledger.empty]
  rw [hempty]
  exact Ledger.fenced_empty

theorem Reachable.fenced (h0 : r₀.ledger.Fenced) (h : Reachable ok r₀ r) : r.ledger.Fenced := by
  induction h with
  | refl => exact h0
  | step op _ _ hfresh hstep ih => exact ih.steps (perform_steps hfresh hstep)

/-- Every row of the second table is that of a job of the first, and it is failed if the job was. -/
def KeepsFailed (jobs jobs' : Table ScheduledJob.id Eq) : Prop :=
  ∀ job' ∈ jobs'.rows, ∃ job ∈ jobs.rows, job.id = job'.id ∧ (job.status = .failed → job'.status = .failed)

/-- The transaction sets the next run of the job to this time. -/
def Plans (job : ScheduledJob) (next : Time) : Op → Prop
  | .complete id _ _ now _ =>
    job.id = id ∧ nextRun job.nextRunAt (Int.bmod (job.intervalSeconds * 1000000000) (2 ^ 64)) now = some next
  | .fail id _ _ _ retryDelay isPermanent now _ => job.id = id ∧ next = now + retryDelay ∧
    (isPermanent || decide ((if job.maxAttempts ≤ 0 then 3 else job.maxAttempts) ≤ job.attemptCount)) = false
  | .updateNextRun id nextRun _ => job.id = id ∧ next = nextRun
  | _ => False

/-- The zone of the lease that the transaction stores. -/
def leaseZone? : Op → Option Zone
  | .claim _ _ _ leaseZone _ => some leaseZone
  | .renew _ _ _ _ zone => some zone
  | _ => none

/-- What a transaction makes of a row that it leaves. -/
structure Revises (op : Op) (job job' : ScheduledJob) : Prop where
  id : job.id = job'.id
  interval : job'.intervalSeconds = job.intervalSeconds
  failed : job.status = .failed → job'.status = .failed
  plan : job'.nextRunAt = job.nextRunAt ∨ Plans job job'.nextRunAt op
  lease : job'.status = .running → job.status = .running ∧ job'.leaseUntil = job.leaseUntil ∨
    ∃ zone ∈ leaseZone? op, ∀ lease ∈ job'.leaseUntil, lease.zone = zone

theorem Revises.refl (job : ScheduledJob) : Revises op job job :=
  ⟨rfl, rfl, fun hfail => hfail, .inl rfl, fun hrunning => .inl ⟨hrunning, rfl⟩⟩

theorem revises_update {f : ScheduledJob → ScheduledJob} (hf : ∀ j, (f j).id = j.id)
    (hp : ∀ j ∈ jobs.rows, p j = true → Revises op j (f j)) :
    ∀ job' ∈ (jobs.update p f hf).rows, ∃ job ∈ jobs.rows, Revises op job job' := by
  intro job' hmem'
  obtain ⟨job, hmem, rfl⟩ := mem_update.mp hmem'
  refine ⟨job, hmem, ?_⟩
  split_ifs with hpj
  · exact hp job hmem hpj
  · exact .refl job

theorem revises_delete : ∀ job' ∈ (jobs.delete p).rows, ∃ job ∈ jobs.rows, Revises op job job' :=
  fun job h => ⟨job, (mem_delete.mp h).1, .refl job⟩

theorem not_failed_of_holds (h : holds id token job = true) : job.status ≠ .failed := by
  simp only [holds, and_eq_true, beq_iff_eq] at h
  simp [h.1.2]

theorem not_failed_of_claimable {now : StoredTime} (h : claimable now job = true) : job.status ≠ .failed := by
  intro hfail
  simp [claimable, hfail] at h

/-- The row that a token holds is the one that was read. -/
theorem eq_of_holds {j : ScheduledJob} (hjob : r.running? id token = some job) (hmem : j ∈ r.jobs.rows) (hj : holds id token j = true) :
    j = job := by
  have hrow := job?_of_mem hmem
  rw [id_of_holds hj, (running?_eq_some hjob).1] at hrow
  exact (some.inj hrow).symm

/-- What is left after a transaction are rows that were there before, as it revises them. -/
theorem perform_revises (hfresh : r.Fresh op) (h : r.perform op = .ok r') :
    ∀ job' ∈ r'.jobs.rows, ∃ job ∈ r.jobs.rows, Revises op job job' := by
  cases op with
  | claim now =>
    cases h
    refine claim_invariant (P := fun r' => ∀ job' ∈ r'.jobs.rows, ∃ job ∈ r.jobs.rows, Revises _ job job') hfresh
      (fun job hmem => ⟨job, hmem, .refl job⟩) fun r' leaseUntil job token hzone _ _ _ _ ih job' hmem' => ?_
    obtain ⟨_, hjobs⟩ := claimOne_jobs r' now leaseUntil job token
    rw [hjobs] at hmem'
    obtain ⟨mid, hmid, rfl⟩ := mem_update.mp hmem'
    obtain ⟨old, hold, hrev⟩ := ih mid hmid
    refine ⟨old, hold, ?_⟩
    split_ifs with hmine
    · have hopen := not_failed_of_claimable (and_eq_true_iff.mp hmine).2
      refine ⟨hrev.id, hrev.interval, fun hfail => absurd (hrev.failed hfail) hopen, hrev.plan, fun _ => .inr ⟨_, rfl, ?_⟩⟩
      exact fun lease hlease => some.inj hlease ▸ hzone
    · exact hrev
  | complete =>
    simp only [perform, completeScheduledJob] at h
    split at h
    · cases h
    · next job hjob =>
      split_ifs at h
      · split at h <;> cases h
        next next hnext =>
        refine revises_update (by exact fun _ => rfl) fun j hmem hj => ?_
        refine ⟨rfl, rfl, fun hfail => absurd hfail (not_failed_of_holds hj), .inr ⟨id_of_holds hj, ?_⟩, nofun⟩
        rw [eq_of_holds hjob hmem hj]
        exact hnext
      · cases h
        exact revises_delete
  | fail id _ _ _ _ isPermanent =>
    simp only [perform, failScheduledJob] at h
    split at h <;> cases h
    next job hjob =>
    refine revises_update (by exact fun _ => rfl) fun j hmem hj => ?_
    obtain rfl := eq_of_holds hjob hmem hj
    refine ⟨rfl, rfl, fun hfail => absurd hfail (not_failed_of_holds hj), ?_, fun hrunning => ?_⟩
    · by_cases hlast : (isPermanent || decide ((if j.maxAttempts ≤ 0 then 3 else j.maxAttempts) ≤ j.attemptCount)) = true
      · exact .inl (if_pos hlast)
      · exact .inr ⟨id_of_holds hj, if_neg hlast, not_eq_true _ ▸ hlast⟩
    · dsimp only at hrunning
      split_ifs at hrunning
  | updateNextRun =>
    simp only [perform, updateScheduledJobNextRun] at h
    split_ifs at h
    cases h
    exact revises_update (by exact fun _ => rfl) fun j _ hj =>
      ⟨rfl, rfl, fun hfail => hfail, .inr ⟨beq_iff_eq.mp hj, rfl⟩, fun hrunning => .inl ⟨hrunning, rfl⟩⟩
  | delete =>
    simp only [perform, deleteScheduledJob] at h
    split at h <;> cases h
    exact revises_delete
  | renew =>
    simp only [perform, renewJobLease] at h
    split_ifs at h
    cases h
    exact revises_update (by exact fun _ => rfl) fun j _ _ =>
      ⟨rfl, rfl, fun hfail => hfail, .inl rfl, fun _ => .inr ⟨_, rfl, fun lease hlease => some.inj hlease ▸ rfl⟩⟩

theorem Reachable.keepsFailed (h : Reachable ok r₀ r) : KeepsFailed r₀.jobs r.jobs := by
  induction h with
  | refl => exact fun job hmem => ⟨job, hmem, rfl, fun hfail => hfail⟩
  | step op _ _ hfresh hstep ih =>
    intro job2 hmem2
    obtain ⟨job1, hmem1, hrev⟩ := perform_revises hfresh hstep job2 hmem2
    obtain ⟨job, hmem, hid, hfail⟩ := ih job1 hmem1
    exact ⟨job, hmem, hid.trans hrev.id, fun hjob => hrev.failed (hfail hjob)⟩

/-- Every record was written for a claim, of the job that it names. -/
def Filed (r : Repository) : Prop := ∀ row ∈ r.history, (row.entry.jobID, row.claim) ∈ r.issued

theorem filed_record (h : r.Filed) (hissued : (id, token) ∈ r.issued) :
    (record { r with jobs := jobs } id token now durationMs success errorMsg).Filed := by
  intro row hrow
  rcases mem_append.mp hrow with hold | hnew
  · exact h row hold
  · rw [mem_singleton.mp hnew]
    exact hissued

theorem filed_claimOne {now leaseUntil : StoredTime} (h : r.Filed) (hfenced : r.ledger.Fenced) (hrow : r.job? job.id = some job)
    (hclaim : claimable now job = true) : (r.claimOne now leaseUntil job token).Filed := by
  intro row hmem
  rw [issued_claimOne leaseUntil hrow hclaim]
  refine mem_append_left _ ?_
  by_cases hrunning : job.status = .running
  · have hheld : r.ledger.holder job.id = some job.claimToken := by
      rw [holder_eq, hrow]
      simp [heldBy, hrunning]
    simp only [claimOne, recordExpiry, if_pos hrunning] at hmem
    rcases mem_append.mp hmem with hold | hnew
    · exact h row hold
    · rw [mem_singleton.mp hnew]
      exact hfenced.held_issued hheld
  · simp only [claimOne, recordExpiry, if_neg hrunning] at hmem
    exact h row hmem

theorem Filed.perform (h : r.Filed) (hfenced : r.ledger.Fenced) (hfresh : r.Fresh op) (hop : r.perform op = .ok r') : r'.Filed := by
  cases op with
  | claim =>
    cases hop
    refine (claim_invariant (P := fun r' => r'.Filed ∧ r'.ledger.Fenced) hfresh ⟨h, hfenced⟩
      fun r' leaseUntil job token _ _ hrow hclaim htoken ih => ?_).1
    exact ⟨filed_claimOne ih.1 ih.2 hrow hclaim, ih.2.steps (claimOne_steps hrow hclaim htoken)⟩
  | complete =>
    have hissued := hfenced.held_issued (completeScheduledJob_ledger hop).1
    simp only [Repository.perform, completeScheduledJob] at hop
    split at hop
    · cases hop
    · split_ifs at hop
      · split at hop <;> cases hop
        exact filed_record h hissued
      · cases hop
        exact filed_record h hissued
  | fail =>
    have hissued := hfenced.held_issued (failScheduledJob_ledger hop).1
    simp only [Repository.perform, failScheduledJob] at hop
    split at hop <;> cases hop
    exact filed_record h hissued
  | updateNextRun =>
    simp only [Repository.perform, updateScheduledJobNextRun] at hop
    split_ifs at hop
    cases hop
    exact h
  | delete =>
    simp only [Repository.perform, deleteScheduledJob] at hop
    split at hop <;> cases hop
    exact h
  | renew =>
    simp only [Repository.perform, renewJobLease] at hop
    split_ifs at hop
    cases hop
    exact h

theorem Reachable.filed (h0 : r₀.Initial) (h : Reachable ok r₀ r) : r.Filed := by
  induction h with
  | refl =>
    intro row hrow
    rw [h0.history] at hrow
    cases hrow
  | step op hreach _ hfresh hstep ih => exact ih.perform (hreach.fenced h0.fenced) hfresh hstep

end Repository

/-! ### The laws of the tokens -/

/-- A holder of the token can end or extend the claim of the job. -/
inductive Repository.Answers (r : Repository) (id : Int) (claimToken : GoString) : Prop where
  | complete (durationMs : Int) (now : Time) (zone : Zone) (r' : Repository)
    (h : r.completeScheduledJob id claimToken durationMs now zone = .ok r')
  | fail (lastError : GoString) (durationMs : Int) (retryDelay : Duration) (isPermanent : Bool) (now : Time) (zone : Zone)
    (r' : Repository) (h : r.failScheduledJob id claimToken lastError durationMs retryDelay isPermanent now zone = .ok r')
  | renew (extension : Duration) (now : Time) (zone : Zone) (r' : Repository)
    (h : r.renewJobLease id claimToken extension now zone = .ok r')

theorem Repository.Answers.holder {claimToken : GoString} {id : Int} (h : r.Answers id claimToken) :
    r.ledger.holder id = some claimToken := by
  cases h with
  | complete _ _ _ _ h => exact (completeScheduledJob_ledger h).1
  | fail _ _ _ _ _ _ _ h => exact (failScheduledJob_ledger h).1
  | renew _ _ _ _ h => exact (renewJobLease_ledger h).1

/-! ### One offset -/

/-- The times that a transaction compares or stores have this offset. -/
def Op.At (offset : Duration) : Op → Prop
  | .claim now _ _ leaseZone _ => now.zone.offset = offset ∧ leaseZone.offset = offset
  | .complete _ _ _ _ zone | .fail _ _ _ _ _ _ _ zone | .updateNextRun _ _ zone | .renew _ _ _ _ zone => zone.offset = offset
  | .delete _ => True

/-- The leases of the running jobs have the offset. -/
def Repository.LeasesAt (offset : Duration) (r : Repository) : Prop :=
  ∀ job ∈ r.jobs.rows, job.status = .running → ∀ lease ∈ job.leaseUntil, lease.zone.offset = offset

namespace Repository

variable {offset : Duration}

theorem LeasesAt.perform (h : r.LeasesAt offset) (hat : op.At offset) (hfresh : r.Fresh op) (hop : r.perform op = .ok r') :
    r'.LeasesAt offset := by
  intro job' hmem' hrunning' lease hlease
  obtain ⟨job, hmem, hrev⟩ := perform_revises hfresh hop job' hmem'
  rcases hrev.lease hrunning' with ⟨hrunning, hsame⟩ | ⟨zone, hzone, hall⟩
  · exact h job hmem hrunning lease (hsame ▸ hlease)
  · rw [hall lease hlease]
    cases op <;> cases hzone
    · exact hat.2
    · exact hat

theorem Reachable.leasesAt (h₀ : r₀.Initial) (h : Reachable (Op.At offset) r₀ r) : r.LeasesAt offset := by
  induction h with
  | refl => exact fun job hmem hrunning => absurd hrunning (h₀.idle job hmem)
  | step op _ hat hfresh hop ih => exact ih.perform hat hfresh hop

end Repository

theorem StoredTime.le_of_before {a b : StoredTime} (h : a.before b = true) (hoffset : a.zone.offset = b.zone.offset) : a.time ≤ b.time := by
  simp only [before, decide_eq_true_eq, hoffset] at h
  rcases h with hlt | ⟨heq, -⟩
  · exact ((Int.add_lt_add_iff_right _).mp hlt).le
  · exact ((Int.add_left_inj _).mp heq).le

/-- In every reachable state, of any number of claimers: the one token that a transaction on a job accepts is the last that was
issued for it; a claim takes jobs that are pending or whose lease has expired, if all times have one offset; every record closes a
claim on the job that it names, and every claim that is not open, and whose job was not deleted under it, is closed by one record; a
failed job runs no more. -/
theorem claims_fenced {r₀ r : Repository} {ok : Op → Prop} (h₀ : r₀.Initial) (h : Repository.Reachable ok r₀ r) :
    (∀ id token, r.Answers id token → r.ledger.last id = some token) ∧
    (∀ offset, (∀ op, ok op → op.At offset) → ∀ now limit lease leaseZone tokens, now.zone.offset = offset →
      r.Fresh (.claim now limit lease leaseZone tokens) →
      ∀ issue ∈ (r.claimDueScheduledJobsOnce now limit lease leaseZone tokens).issued, issue ∉ r.issued → ∃ job, r.job? issue.1 = some job ∧
          (job.status = .pending ∨ job.status = .running ∧ ∃ lease, job.leaseUntil = some lease ∧ lease.time ≤ now.time)) ∧
    (∀ row ∈ r.history, (row.entry.jobID, row.claim) ∈ r.issued) ∧
    (∀ id token, (id, token) ∈ r.issued → r.history.countP (·.claim == token) =
      if (r.running? id token).isSome ∨ token ∈ r.deleted then 0 else 1) ∧
    ∀ r' id job job', r.job? id = some job → job.status = .failed → Repository.Reachable (fun _ => True) r r' → r'.job? id = some job' →
      job'.status = .failed := by
  have hfenced := h.fenced h₀.fenced
  refine ⟨fun id token hanswer => hfenced.last id token hanswer.holder, ?_, h.filed h₀, ?_, ?_⟩
  · intro offset hat now limit lease leaseZone tokens hnow hfresh issue hissue hnew
    obtain ⟨job, hdue, hid⟩ := (Repository.issued_claim hfresh issue hissue).resolve_left hnew
    have hselected := Repository.selected_due r now limit
    have hrow := hselected.row job hdue
    refine ⟨job, hid ▸ hrow, ?_⟩
    have hclaim := hselected.claimable job hdue
    simp only [Repository.claimable, Bool.or_eq_true, Bool.and_eq_true, beq_iff_eq, Option.any_eq_true] at hclaim
    rcases hclaim with hpending | ⟨hrunning, lease, hlease, hbefore⟩
    · exact .inl hpending
    · refine .inr ⟨hrunning, lease, hlease, StoredTime.le_of_before hbefore ?_⟩
      have hzone := (Repository.Reachable.mono hat h).leasesAt h₀ job (Repository.job?_mem hrow).1 hrunning lease hlease
      exact hzone.trans hnow.symm
  · intro id token hissued
    have hcount : r.history.countP (·.claim == token) = r.ledger.closed.countP fun token' => decide (token' = token) := by
      rw [Repository.ledger, countP_map]
      exact countP_congr fun row _ => by simp
    rw [hcount, hfenced.countP_closed hissued]
    have hopen : ((r.running? id token).isSome ∨ token ∈ r.deleted) ↔ r.ledger.holder id = some token ∨ token ∈ r.ledger.lost :=
      or_congr_left r.running?_isSome
    simp only [hopen]
    split_ifs <;> rfl
  · intro r' id job job' hjob hfail hreach hjob'
    obtain ⟨hmem', hid'⟩ := Repository.job?_mem hjob'
    obtain ⟨_, hmem, hid, hkeep⟩ := hreach.keepsFailed job' hmem'
    have hrow := Repository.job?_of_mem hmem
    rw [hid, hid', hjob] at hrow
    exact hkeep (some.inj hrow ▸ hfail)

def Repository.performs (r : Repository) : List Op → Option Repository
  | [] => some r
  | op :: ops => if r.Fresh op then (match r.perform op with
    | .ok r' => r'.performs ops
    | .error _ => none) else none

theorem Repository.reachable_of_performs {ops : List Op} {ok : Op → Prop} (h : Reachable ok r₀ r) (hok : ∀ op ∈ ops, ok op)
    (hops : r.performs ops = some r') : Reachable ok r₀ r' := by
  induction ops generalizing r with
  | nil => exact some.inj hops ▸ h
  | cons op ops ih =>
    unfold performs at hops
    split_ifs at hops with hfresh
    split at hops
    · next hop =>
      obtain ⟨hfirst, hrest⟩ := forall_mem_cons.mp hok
      exact ih (.step op h hfirst hfresh hop) hrest hops
    · cases hops

def dueJobs : Repository :=
  ⟨⟨[{ id := 1, nextRunAt := 0 }, { id := 2, intervalSeconds := 60, nextRunAt := 5 }], by decide⟩, [], [], []⟩

/-- The first claimer renews its lease on the job that runs once, its other job is claimed again. -/
theorem claims_fenced_expired : ∃ r, Repository.Reachable (Op.At 0) dueJobs r ∧ (2, goString "b") ∈ r.issued ∧
    (r.running? 1 (goString "a")).isSome ∧ (r.running? 2 (goString "c")).isSome ∧ r.history.countP (·.claim == goString "b") = 1 := by
  have hrun : ((dueJobs.performs [.claim ⟨10, {}⟩ 10 100 {} [goString "a", goString "b"], .renew 1 (goString "a") 1000 50 {},
      .claim ⟨200, {}⟩ 10 100 {} [goString "c"]]).any fun r => decide ((2, goString "b") ∈ r.issued) &&
        ((r.running? 1 (goString "a")).isSome && ((r.running? 2 (goString "c")).isSome &&
          !decide ((r.running? 2 (goString "b")).isSome ∨ goString "b" ∈ r.deleted)))) = true := by
    decide +kernel
  obtain ⟨r, hops, hstate⟩ := (any_eq_true _ _).mp hrun
  obtain ⟨hissued, hstate⟩ := and_eq_true_iff.mp hstate
  obtain ⟨hfirst, hstate⟩ := and_eq_true_iff.mp hstate
  obtain ⟨hsecond, hclosed⟩ := and_eq_true_iff.mp hstate
  have hreach : Repository.Reachable (Op.At 0) dueJobs r := Repository.reachable_of_performs .refl (by simp [Op.At]) hops
  have hcount := (claims_fenced ⟨by decide, rfl, rfl, rfl⟩ hreach).2.2.2.1 2 (goString "b") (of_decide_eq_true hissued)
  rw [if_neg (by simpa using hclosed)] at hcount
  exact ⟨r, hreach, of_decide_eq_true hissued, hfirst, hsecond, hcount⟩

/-- The local time of a place two hours east of UTC. -/
def eastern : Zone := ⟨7200000000000, goString " +0200 CEST m=+1.000000001"⟩

/-- A claim with the local time is renewed in UTC for a minute and a half, and a second later the job is claimed again. -/
theorem renewed_lease_taken : ∃ r job, Repository.Reachable (fun _ => True) dueJobs r ∧ r.job? 1 = some job ∧ job.status = .running ∧
    job.leaseUntil = some ⟨91000000000, {}⟩ ∧ r.Fresh (.claim ⟨2000000000, eastern⟩ 1 90000000000 eastern [goString "c"]) ∧
    (1, goString "c") ∉ r.issued ∧
    (1, goString "c") ∈ (r.claimDueScheduledJobsOnce ⟨2000000000, eastern⟩ 1 90000000000 eastern [goString "c"]).issued := by
  have hrun : ((dueJobs.performs [.claim ⟨10, eastern⟩ 1 90000000000 eastern [goString "a"],
      .renew 1 (goString "a") 90000000000 1000000000 {}]).any fun r => (r.job? 1).any fun job => decide (job.status = .running ∧
        job.leaseUntil = some ⟨91000000000, {}⟩ ∧ r.Fresh (.claim ⟨2000000000, eastern⟩ 1 90000000000 eastern [goString "c"]) ∧
        (1, goString "c") ∉ r.issued ∧
        (1, goString "c") ∈ (r.claimDueScheduledJobsOnce ⟨2000000000, eastern⟩ 1 90000000000 eastern [goString "c"]).issued)) = true := by
    decide +kernel
  obtain ⟨r, hops, hstate⟩ := (any_eq_true _ _).mp hrun
  obtain ⟨job, hjob, hstate⟩ := (any_eq_true _ _).mp hstate
  exact ⟨r, job, Repository.reachable_of_performs .refl (fun _ _ => trivial) hops, hjob, of_decide_eq_true hstate⟩

end Goultroid.Scheduler
