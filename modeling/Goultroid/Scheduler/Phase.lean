import Goultroid.Scheduler.Claims

/-!
# The phase of recurring jobs

A completion plans the next run a number of periods after the last plan. A failure puts the time of the retry in
the place of that plan, from which the next completion counts on.

`nextRun` adds whole periods and stops at the first time that is past `now` (`nextRun_follows`). Completions
therefore stay in phase with the first plan, and the other transactions leave the plan alone, or are asked to
plan in phase (`InPhase`).
-/

namespace Goultroid.Scheduler.Repository

def period (job : ScheduledJob) : Int := job.intervalSeconds * 1000000000

/-- A run a number of periods after `plan`, the first that is later than both `plan` and `now`. -/
structure Follows (step plan now next : Int) : Prop where
  phase : step ∣ next - plan
  first : next - step ≤ max now plan
  later : max now plan < next

theorem dvd_sub_trans {step plan next first : Int} (h : step ∣ next - plan) (h' : step ∣ plan - first) : step ∣ next - first := by
  have hsum := Int.dvd_add h h'
  rwa [show next - plan + (plan - first) = next - first by omega] at hsum

theorem nextRun_follows {plan step now next : Int} (hstep : 0 < step) (h : nextRun plan step now = some next) :
    Follows step plan now next := by
  simp only [nextRun, not_le.mpr hstep, if_false] at h
  split_ifs at h with hsoon
  · obtain rfl := Option.some.inj h
    have hsoon : now < plan + step := hsoon
    exact ⟨⟨1, by omega⟩, by omega, by omega⟩
  · obtain rfl := Option.some.inj h
    have hlate : plan + step ≤ now := not_lt.mp hsoon
    have hlow := Int.ediv_mul_le (now - (plan + step)) hstep.ne'
    have hhigh := Int.lt_ediv_add_one_mul_self (now - (plan + step)) hstep
    generalize (now - (plan + step)) / step = q at hlow hhigh
    rw [Int.add_mul, Int.one_mul] at hhigh
    refine ⟨⟨q + 2, ?_⟩, ?_, ?_⟩
    · rw [Int.add_mul, Int.one_mul, Int.mul_add, Int.mul_comm step q]
      omega
    · rw [Int.add_mul, Int.one_mul]
      omega
    · rw [Int.add_mul, Int.one_mul]
      omega

/-- A step that is no completion plans the job only for times in phase with the first run. -/
def InPhase (job₀ : ScheduledJob) (r : Repository) : Op → Prop
  | .complete .. => True
  | op => ∀ job ∈ r.jobs.rows, job.id = job₀.id → ∀ next : Int, Plans job next op → period job₀ ∣ next - job₀.nextRunAt

inductive Phased (job₀ : ScheduledJob) (r₀ : Repository) : Repository → Prop where
  | refl : Phased job₀ r₀ r₀
  | step {r r' : Repository} (op : Op) : Phased job₀ r₀ r → r.Fresh op → InPhase job₀ r op → r.perform op = .ok r' →
    Phased job₀ r₀ r'

section

variable {job₀ : ScheduledJob} (hpos : 0 < job₀.intervalSeconds) (hfits : period job₀ < 2 ^ 63) {now : Time} {r r₀ : Repository}
include hpos hfits

theorem nextRun_period {next : Time} {job : ScheduledJob} (hinterval : job.intervalSeconds = job₀.intervalSeconds)
    (h : nextRun job.nextRunAt (Int.bmod (job.intervalSeconds * 1000000000) (2 ^ 64)) now = some next) :
    Follows (period job₀) job.nextRunAt now next := by
  have hstep : 0 < period job₀ := Int.mul_pos hpos (by decide)
  rw [hinterval, show Int.bmod (job₀.intervalSeconds * 1000000000) (2 ^ 64) = period job₀ from
    Int.bmod_eq_of_le (by omega) (by unfold period at hfits; omega)] at h
  exact nextRun_follows hstep h

theorem Phased.rows (hmem : job₀ ∈ r₀.jobs.rows) (h : Phased job₀ r₀ r) :
    ∀ job ∈ r.jobs.rows, job.id = job₀.id → job.intervalSeconds = job₀.intervalSeconds ∧
      period job₀ ∣ (job.nextRunAt : Int) - job₀.nextRunAt := by
  induction h with
  | refl =>
    intro job hjob hid
    have hrow := job?_of_mem hjob
    rw [hid, job?_of_mem hmem] at hrow
    obtain rfl := Option.some.inj hrow
    exact ⟨rfl, by simp⟩
  | step op _ hfresh hphase hop ih =>
    intro job' hmem' hid'
    obtain ⟨job, hjob, hrev⟩ := perform_revises hfresh hop job' hmem'
    obtain ⟨hinterval, hdvd⟩ := ih job hjob (hrev.id.trans hid')
    refine ⟨hrev.interval.trans hinterval, ?_⟩
    rcases hrev.plan with hsame | hplan
    · rwa [hsame]
    cases op with
    | complete =>
      exact dvd_sub_trans (nextRun_period hpos hfits hinterval hplan.2).phase hdvd
    | _ => exact hphase job hjob (hrev.id.trans hid') _ hplan

/-- In every run whose retries are in phase, a completion plans the next run in phase with the first one, and does not
skip more than the runs that are missed. -/
theorem recurring_phase {token : GoString} {durationMs : Int} {zone : Zone} {r' : Repository} (hmem : job₀ ∈ r₀.jobs.rows)
    (h : Phased job₀ r₀ r) (hop : r.perform (.complete job₀.id token durationMs now zone) = .ok r') :
    ∃ job ∈ r.jobs.rows, job.id = job₀.id ∧ ∃ job' ∈ r'.jobs.rows, job'.id = job₀.id ∧
      period job₀ ∣ (job'.nextRunAt : Int) - job₀.nextRunAt ∧
      (job'.nextRunAt : Int) - period job₀ ≤ max now job.nextRunAt ∧ max now job.nextRunAt < job'.nextRunAt := by
  simp only [perform, completeScheduledJob] at hop
  split at hop
  · cases hop
  next job hjob =>
  obtain ⟨hjob', hid⟩ := job?_mem (running?_eq_some hjob).1
  obtain ⟨hinterval, hdvd⟩ := h.rows hpos hfits hmem job hjob' hid
  rw [if_pos (hinterval.symm ▸ hpos)] at hop
  split at hop
  · cases hop
  next next hnext =>
  cases hop
  have hfollows := nextRun_period hpos hfits hinterval hnext
  refine ⟨job, hjob', hid, _, List.mem_map.mpr ⟨job, hjob', if_pos (holds_self hjob)⟩, hid, ?_, hfollows.first, hfollows.later⟩
  exact dvd_sub_trans hfollows.phase hdvd

end

/-- The job of `dueJobs` that runs every minute. -/
def everyMinute : ScheduledJob := { id := 2, intervalSeconds := 60, nextRunAt := 5 }

theorem recurring_phase_once : ∃ r r', Phased everyMinute dueJobs r ∧ r.perform (.complete 2 (goString "b") 0 20 {}) = .ok r' ∧
    ∃ job' ∈ r'.jobs.rows, job'.id = 2 ∧ period everyMinute ∣ (job'.nextRunAt : Int) - 5 := by
  have hrun : Phased everyMinute dueJobs (dueJobs.claimDueScheduledJobsOnce ⟨10, {}⟩ 10 100 {} [goString "a", goString "b"]) :=
    .step (.claim ⟨10, {}⟩ 10 100 {} [goString "a", goString "b"]) .refl (by decide +kernel) (fun _ _ _ _ h => h.elim) rfl
  refine ⟨_, _, hrun, rfl, ?_⟩
  obtain ⟨-, -, -, job', hmem, hid, hphase, -⟩ := recurring_phase (by decide) (by decide) (by decide) hrun
    (show Repository.perform _ (.complete 2 (goString "b") 0 20 {}) = _ from rfl)
  exact ⟨job', hmem, hid, hphase⟩

/-- A retry after a failure, ten nanoseconds late, moves all later runs. -/
theorem phase_lost_by_retry : ((dueJobs.performs [.claim ⟨10, {}⟩ 10 100 {} [goString "a", goString "b"],
      .fail 2 (goString "b") [] 0 10 false 10 {}, .claim ⟨20, {}⟩ 10 100 {} [goString "c"], .complete 2 (goString "c") 0 20 {}]).bind fun r =>
        (r.job? 2).map ScheduledJob.nextRunAt) = some 60000000020 ∧ ¬ period everyMinute ∣ (60000000020 : Int) - 5 := by
  decide +kernel

end Goultroid.Scheduler.Repository
