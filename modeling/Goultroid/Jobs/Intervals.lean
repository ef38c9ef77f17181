import Goultroid.Jobs.Schedules
import Goultroid.Scheduler.Claims
import Mathlib.Order.Bounds.Basic
import Mathlib.Tactic.Ring

/-!
# Interval arithmetic

`NextIntervalDueAfter` in the `int64` arithmetic it is written in, against `nextIntervalDueAfter`, which computes
with exact integers, and against the catch-up loop of `CompleteScheduledJob`.

`Sub` stops at the ends of the range and the code looks at the quotient before it multiplies, so that no
operation wraps (`toInt_product`) and the exact form is what is computed (`nextIntervalDueAfter64_eq`). The
closed form and the loop both give the least time in phase that is past `now` (`isLeast_steps`,
`catchUp_isLeast`).
-/

namespace Goultroid.Jobs

variable {step : Int}

/-- `now.Sub(nextDue)`: the wrapped difference where adding it back gives `now`, else the nearer end. -/
def timeSub (now nextDue : Time) : Int64 :=
  let d := Int64.ofInt (now - nextDue)
  if nextDue + d.toInt = now then d
  else if now < nextDue then Int64.minValue
  else Int64.maxValue

/-- `NextIntervalDueAfter`; a `time.Time` is exact, a `time.Duration` is an `int64`. -/
def nextIntervalDueAfter64 (nextDue now : Time) (interval : Int64) : Except GoString Time :=
  if interval ≤ 0 then .error (goString "schedule interval must be positive")
  else if now < nextDue then .ok nextDue
  else
    let delta := timeSub now nextDue
    if nextDue < now ∧ delta = Int64.maxValue then
      .error (goString "schedule catch-up span exceeds time.Duration range")
    else
      let steps := delta / interval + 1
      if steps ≤ 0 ∨ Int64.maxValue / interval < steps then
        .error (goString "schedule catch-up arithmetic overflow")
      else
        let candidate := nextDue + (steps * interval).toInt
        if candidate ≤ now then .error (goString "schedule catch-up did not advance strictly after now")
        else .ok candidate

/-- The catch-up loop of `CompleteScheduledJob` from `next`, tested at most `rounds` times. -/
def catchUp (step : Duration) (now : Time) : Nat → Time → Option Time
  | 0, _ => none
  | rounds + 1, next => if now < next then some next else catchUp step now rounds (next + step)

variable {nextDue now : Int} {interval : Int64}

/-! ### Nothing wraps -/

theorem maxDuration_eq : maxDuration = (2 ^ 63 - 1 : Int) := rfl

theorem toInt_timeSub (h : nextDue ≤ now) : (timeSub now nextDue).toInt = min (now - nextDue) (2 ^ 63 - 1) := by
  have hd : (Int64.ofInt (now - nextDue)).toInt = Int.bmod (now - nextDue) (2 ^ 64) := Int64.toInt_ofInt
  have hbound := (Int64.ofInt (now - nextDue)).toInt_lt
  unfold timeSub
  dsimp only
  split_ifs with hexact hlt
  · have hexact' : nextDue + (Int64.ofInt (now - nextDue)).toInt = now := hexact
    omega
  · exact absurd h (not_le.mpr hlt)
  · have hlarge : 2 ^ 63 ≤ now - nextDue := by
      by_contra hsmall
      apply hexact
      rw [hd, Int.bmod_eq_of_le (by omega) (by omega)]
      exact add_sub_cancel _ _
    rw [min_eq_right (by omega)]
    rfl

theorem toInt_timeSub_range (h : ¬ now < nextDue) (hspan : ¬ (nextDue < now ∧ (timeSub now nextDue).toInt = 2 ^ 63 - 1)) :
    0 ≤ (timeSub now nextDue).toInt ∧ (timeSub now nextDue).toInt < 2 ^ 63 - 1 := by
  have hsub := toInt_timeSub (not_lt.mp h)
  omega

theorem toInt_steps {delta : Int64} (hpos : 0 < interval.toInt) (hdelta : 0 ≤ delta.toInt) (hlt : delta.toInt < 2 ^ 63 - 1) :
    (delta / interval + 1).toInt = delta.toInt / interval.toInt + 1 := by
  have hquotient : delta.toInt / interval.toInt ≤ delta.toInt := Int.ediv_le_self _ hdelta
  have hnon : 0 ≤ delta.toInt / interval.toInt := Int.ediv_nonneg hdelta hpos.le
  have hdiv : (delta / interval).toInt = delta.toInt / interval.toInt := by
    rw [Int64.toInt_div, Int.tdiv_eq_ediv_of_nonneg hdelta]
    apply Int.bmod_eq_of_le <;> omega
  rw [Int64.toInt_add, hdiv, Int64.toInt_one]
  apply Int.bmod_eq_of_le <;> omega

theorem toInt_maxValue_div (hpos : 0 < interval.toInt) : (Int64.maxValue / interval).toInt = (2 ^ 63 - 1) / interval.toInt := by
  have hmax : Int64.maxValue.toInt = 2 ^ 63 - 1 := by decide
  have hquotient : (2 ^ 63 - 1) / interval.toInt ≤ 2 ^ 63 - 1 := Int.ediv_le_self _ (by decide)
  have hnon : 0 ≤ (2 ^ 63 - 1) / interval.toInt := Int.ediv_nonneg (by decide) hpos.le
  rw [Int64.toInt_div, hmax, Int.tdiv_eq_ediv_of_nonneg (by decide)]
  apply Int.bmod_eq_of_le <;> omega

/-- The product stays in range by the test before it. -/
theorem toInt_product {steps : Int64} (hpos : 0 < interval.toInt) (hsteps : 0 < steps.toInt)
    (hle : steps.toInt ≤ (2 ^ 63 - 1) / interval.toInt) : (steps * interval).toInt = steps.toInt * interval.toInt := by
  have hmul : steps.toInt * interval.toInt ≤ 2 ^ 63 - 1 := (Int.le_ediv_iff_mul_le hpos).mp hle
  have hnon : 0 ≤ steps.toInt * interval.toInt := Int.mul_nonneg hsteps.le hpos.le
  rw [Int64.toInt_mul]
  apply Int.bmod_eq_of_le <;> omega

theorem nextIntervalDueAfter64_eq : nextIntervalDueAfter64 nextDue now interval = nextIntervalDueAfter nextDue now interval.toInt := by
  unfold nextIntervalDueAfter64 nextIntervalDueAfter
  simp only [Int64.le_iff_toInt_le, Int64.lt_iff_toInt_lt, Int64.toInt_zero]
  by_cases hpos : interval.toInt ≤ 0
  · rw [if_pos hpos, if_pos hpos]
  rw [not_le] at hpos
  by_cases hafter : now < nextDue
  · rw [if_pos hafter, if_pos hafter]
  have hsub := toInt_timeSub (not_lt.mp hafter)
  have hmax : timeSub now nextDue = Int64.maxValue ↔ min (now - nextDue) maxDuration = maxDuration := by
    rw [maxDuration_eq, ← hsub, ← Int64.toInt_inj]
    rfl
  rw [maxDuration_eq, ← hsub] at hmax ⊢
  simp only [hmax]
  by_cases hspan : nextDue < now ∧ (timeSub now nextDue).toInt = 2 ^ 63 - 1
  · rw [if_pos hspan, if_pos hspan]
  have hdelta : 0 ≤ (timeSub now nextDue).toInt ∧ (timeSub now nextDue).toInt < 2 ^ 63 - 1 :=
    toInt_timeSub_range hafter hspan
  have hsteps := toInt_steps hpos hdelta.1 hdelta.2
  simp only [hsteps, toInt_maxValue_div hpos]
  by_cases hover : (timeSub now nextDue).toInt / interval.toInt + 1 ≤ 0 ∨
      (2 ^ 63 - 1) / interval.toInt < (timeSub now nextDue).toInt / interval.toInt + 1
  · rw [if_pos hover, if_pos hover]
  · rw [not_or, not_le, not_lt, ← hsteps] at hover
    rw [toInt_product hpos hover.1 hover.2, hsteps]

/-! ### The closed form -/

/-- The first step past `now`. -/
theorem isLeast_steps (hpos : 0 < step) (h : nextDue ≤ now) :
    IsLeast {k : Nat | now < nextDue + k * step} (((now - nextDue) / step + 1).toNat) := by
  have hq : 0 ≤ (now - nextDue) / step := Int.ediv_nonneg (by omega) hpos.le
  have hcast : (((now - nextDue) / step + 1).toNat : Int) = (now - nextDue) / step + 1 :=
    Int.toNat_of_nonneg (by omega)
  constructor
  · show now < nextDue + _ * step
    rw [hcast]
    have hlt := Int.lt_ediv_add_one_mul_self (now - nextDue) hpos
    omega
  · intro k hk
    have hk' : now < nextDue + k * step := hk
    have hlt : (now - nextDue) / step < k := Int.ediv_lt_of_lt_mul hpos (by omega)
    omega

theorem nextIntervalDueAfter_behind (hpos : 0 < step) (h : nextDue ≤ now) :
    let due := nextDue + ((now - nextDue) / step + 1) * step
    nextIntervalDueAfter nextDue now step = .ok due ∨
      2 ^ 63 - 1 < due - nextDue ∧ ∃ err, nextIntervalDueAfter nextDue now step = .error err := by
  have hlt := Int.lt_ediv_add_one_mul_self (now - nextDue) hpos
  have hnon : 0 ≤ (now - nextDue) / step := Int.ediv_nonneg (by omega) hpos.le
  unfold nextIntervalDueAfter
  rw [if_neg (not_le.mpr hpos), if_neg (not_lt.mpr h)]
  dsimp only
  rw [maxDuration_eq, add_sub_cancel_left]
  by_cases hspan : nextDue < now ∧ min (now - nextDue) (2 ^ 63 - 1) = 2 ^ 63 - 1
  · rw [if_pos hspan]
    exact .inr ⟨by omega, _, rfl⟩
  have hsmall : now - nextDue ≤ 2 ^ 63 - 1 := by omega
  rw [if_neg hspan, min_eq_left hsmall]
  by_cases hover : (now - nextDue) / step + 1 ≤ 0 ∨ (2 ^ 63 - 1) / step < (now - nextDue) / step + 1
  · rw [if_pos hover]
    have hsteps : (2 ^ 63 - 1) / step < (now - nextDue) / step + 1 := by omega
    exact .inr ⟨Int.lt_mul_of_ediv_lt hpos hsteps, _, rfl⟩
  · have hpast : now < nextDue + ((now - nextDue) / step + 1) * step := by omega
    rw [if_neg hover, if_neg (not_le.mpr hpast)]
    exact .inl rfl

/-! ### The loop -/

/-- The loop tests `next`, `next + step`, … and stops at the first one past `now`. -/
theorem catchUp_isLeast {next : Int} {k : Nat} (h : IsLeast {k : Nat | now < next + k * step} k) :
    catchUp step now (k + 1) next = some (next + k * step) := by
  obtain ⟨hpast, hleast⟩ := h
  induction k generalizing next with
  | zero =>
    have hnow : now < next := by simpa using hpast
    rw [catchUp, if_pos hnow]
    simp
  | succ k ih =>
    have hbehind : ¬ now < next := fun hnow => by simpa using hleast (show now < next + (0 : Nat) * step by simpa)
    have hshift (j : Nat) : next + step + j * step = next + (j + 1 : Nat) * step := by push_cast; ring
    rw [catchUp, if_neg hbehind, ← hshift]
    refine ih ?_ fun j hj => ?_
    · show now < next + step + k * step
      rw [hshift]
      exact hpast
    · have hj' : now < next + step + j * step := hj
      rw [hshift] at hj'
      have hle := hleast hj'
      omega

theorem catchUp_behind {step : Duration} (hpos : 0 < step) (h : nextDue ≤ now) :
    ∃ rounds, catchUp step now rounds (nextDue + step) = some (nextDue + ((now - nextDue) / step + 1) * step) := by
  have hq : 0 ≤ (now - nextDue) / step := Int.ediv_nonneg (by omega) hpos.le
  have hrun := catchUp_isLeast (isLeast_steps hpos h)
  rw [Int.toNat_of_nonneg (by omega), catchUp, if_neg (not_lt.mpr h)] at hrun
  exact ⟨_, hrun⟩

/-- The closed form that `completeScheduledJob` is modelled with is the end of the loop. -/
theorem nextRun_behind {step : Duration} (hpos : 0 < step) (h : nextDue ≤ now) :
    Scheduler.Repository.nextRun nextDue step now = some (nextDue + ((now - nextDue) / step + 1) * step) := by
  unfold Scheduler.Repository.nextRun
  have hdiv : now - nextDue = (now - (nextDue + step)) + 1 * step := by ring
  by_cases hfirst : now < nextDue + step
  · have hzero : (now - nextDue) / step = 0 := Int.ediv_eq_zero_of_lt (by omega) (by omega)
    rw [if_pos hfirst, hzero]
    simp
  · rw [if_neg hfirst, if_neg (not_le.mpr hpos), hdiv, Int.add_mul_ediv_right _ _ hpos.ne']
    congr 1
    ring

/-- `NextIntervalDueAfter` computes without a wrap; it returns the first instant in phase that is past `now`, or
an error because the interval is not positive or the way to that instant is no `int64`; and a positive interval
brings it where the catch-up loop of `CompleteScheduledJob` ends. -/
theorem next_interval_due_exact (nextDue now : Time) (interval : Int64) :
    nextIntervalDueAfter64 nextDue now interval = nextIntervalDueAfter nextDue now interval.toInt ∧
    (∀ due, nextIntervalDueAfter64 nextDue now interval = .ok due →
      ∃ k : Nat, IsLeast {k : Nat | now < nextDue + k * interval.toInt} k ∧ due = nextDue + k * interval.toInt) ∧
    (∀ err, nextIntervalDueAfter64 nextDue now interval = .error err → interval.toInt ≤ 0 ∨ maxDuration < now - nextDue ∨
        ∀ k : Nat, IsLeast {k : Nat | now < nextDue + k * interval.toInt} k → maxDuration < k * interval.toInt) ∧
    (0 < interval.toInt → nextDue ≤ now → ∃ due rounds, catchUp interval.toInt now rounds (nextDue + interval.toInt) = some due ∧
      Scheduler.Repository.nextRun nextDue interval.toInt now = some due ∧ (nextIntervalDueAfter64 nextDue now interval = .ok due ∨
        maxDuration < due - nextDue ∧ ∃ err, nextIntervalDueAfter64 nextDue now interval = .error err)) := by
  rw [nextIntervalDueAfter64_eq]
  by_cases hpos : interval.toInt ≤ 0
  · have herr : nextIntervalDueAfter nextDue now interval.toInt =
        .error (goString "schedule interval must be positive") := if_pos hpos
    rw [herr]
    exact ⟨rfl, nofun, fun _ _ => .inl hpos, fun h => absurd hpos (not_le.mpr h)⟩
  by_cases hafter : now < nextDue
  · have hok : nextIntervalDueAfter nextDue now interval.toInt = .ok nextDue := by
      rw [nextIntervalDueAfter, if_neg hpos, if_pos hafter]
    rw [hok]
    refine ⟨rfl, fun due hdue => ⟨0, ⟨?_, fun _ _ => Nat.zero_le _⟩, ?_⟩, nofun,
      fun _ h => absurd hafter (not_lt.mpr h)⟩
    · simpa using hafter
    · cases hdue
      simp
  rw [not_le] at hpos
  rw [not_lt] at hafter
  have hleast := isLeast_steps hpos hafter
  have hcast : (((now - nextDue) / interval.toInt + 1).toNat : Int) = (now - nextDue) / interval.toInt + 1 :=
    Int.toNat_of_nonneg (add_nonneg (Int.ediv_nonneg (Int.sub_nonneg.mpr hafter) hpos.le) (by decide))
  obtain ⟨rounds, hloop⟩ := catchUp_behind hpos hafter
  have hdue := nextIntervalDueAfter_behind hpos hafter
  refine ⟨rfl, fun due h => ⟨_, hleast, ?_⟩, fun err h => .inr (.inr fun k hk => ?_),
    fun _ _ => ⟨_, rounds, hloop, nextRun_behind hpos hafter, hdue⟩⟩
  · rcases hdue with hok | ⟨-, err, herr⟩
    · rw [hok] at h
      cases h
      rw [hcast]
    · rw [herr] at h
      cases h
  · rcases hdue with hok | ⟨hlarge, -⟩
    · rw [hok] at h
      cases h
    · rw [IsLeast.unique hk hleast, hcast]
      rwa [add_sub_cancel_left] at hlarge

end Goultroid.Jobs
