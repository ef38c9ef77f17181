import Mathlib.Data.List.AList
import Goultroid.Lib.Threads

/-!
# The lock of a user's status

`lockUserStatus` gives every user a lock of their own while somebody needs it, and when there are too many
of them a stripe that other users share. The counters and the mutexes say what the callers are doing
(`Counted`), and a user is on one path only (`Filed`): while anybody uses a stripe no user gets a new lock,
and a user with a lock is not sent to a stripe.

`Counted` equates every counter and every mutex with a sum over the callers, and a step of one caller moves
the sum by what that caller adds (`Counted.move`). `Filed` is kept because the map and the counter of the
stripes are changed in one section of `statusMu`: a caller joins the lock that it finds there, or makes one
or goes to a stripe where there is none, and the last to leave a lock takes it off the map. All callers of
a user so meet at one mutex.
-/

namespace Goultroid.PmPermit

open List AList Option Threads
open Threads (Act Pool Program Run)

variable {u : Int64}

def maxPMPermitActiveStatusUsers : Nat := 4096

/-- The address of a `pmUserStatusLock`: the user it was made for, and its number. -/
abbrev Address := Int64 × Nat

inductive Mutex where
  /-- the `mu` of a lock -/
  | lock (address : Address)
  /-- `statusFallback[i]` -/
  | stripe (i : Nat)
  deriving DecidableEq

/-- The fields of the service, and of the locks the mutexes and the counters. -/
structure StatusLocks where
  statusUsers : AList fun _ : Int64 => Address := ∅
  statusOverflow : Int := 0
  locked : Mutex → Bool := fun _ => false
  users : Address → Int := fun _ => 0
  allocated : Nat := 0

/-- `s.statusFallback[uint64(userID)%uint64(len(s.statusFallback))]`. -/
def stripeOf (userID : Int64) : Mutex := .stripe (userID.toUInt64.toNat % 128)

inductive Stage where
  | waiting
  | holding
  /-- the mutex is unlocked, the counter not yet lowered -/
  | leaving
  deriving DecidableEq

/-- Where a goroutine is in `lockUserStatus` or in the unlock function it returned. -/
inductive Caller where
  | called (userID : Int64)
  | sent (userID : Int64) (mutex : Mutex) (stage : Stage)
  | returned
  deriving DecidableEq

namespace StatusLocks

variable (s : StatusLocks)

/-- The section of `lockUserStatus` under `statusMu`. -/
def enter (userID : Int64) : StatusLocks × Mutex :=
  match s.statusUsers.lookup userID with
  | some lock => ({ s with users := Function.update s.users lock (s.users lock + 1) }, .lock lock)
  | none =>
    if 0 < s.statusOverflow ∨ maxPMPermitActiveStatusUsers ≤ s.statusUsers.keys.length then
      ({ s with statusOverflow := s.statusOverflow + 1 }, stripeOf userID)
    else
      ({ s with
        statusUsers := s.statusUsers.insert userID (userID, s.allocated)
        locked := Function.update s.locked (.lock (userID, s.allocated)) false
        users := Function.update s.users (userID, s.allocated) 1
        allocated := s.allocated + 1 }, .lock (userID, s.allocated))

def releaseStatusUser (userID : Int64) (lock : Address) : StatusLocks :=
  { s with
    users := Function.update s.users lock (s.users lock - 1)
    statusUsers := if s.users lock - 1 = 0 then s.statusUsers.erase userID else s.statusUsers }

/-- The next step of a goroutine: `none` if it has to wait for a mutex, or is through. -/
def step : Caller → Option (StatusLocks × Caller)
  | .called userID => some ((s.enter userID).1, .sent userID (s.enter userID).2 .waiting)
  | .sent userID mutex .waiting =>
    if s.locked mutex then none else some ({ s with locked := Function.update s.locked mutex true }, .sent userID mutex .holding)
  | .sent userID mutex .holding => some ({ s with locked := Function.update s.locked mutex false }, .sent userID mutex .leaving)
  | .sent userID (.lock lock) .leaving => some (s.releaseStatusUser userID lock, .returned)
  | .sent _ (.stripe _) .leaving => some ({ s with statusOverflow := s.statusOverflow - 1 }, .returned)
  | .returned => none

end StatusLocks

def program : Program StatusLocks Caller Unit := fun _ _ s t => (s.step t).map fun next => (next.1, next.2, [])

def start : Pool StatusLocks Caller := ⟨{}, []⟩

namespace Caller

def entry : Caller → Bool
  | .called _ => true
  | _ => false

/-- The goroutine is between the return of `lockUserStatus` and its unlock. -/
def inside (u : Int64) : Caller → Prop
  | .sent v _ .holding => v = u
  | _ => False

/-- It waits for the user's own lock, holds it, or has not yet been taken off its counter. -/
def onLock (u : Int64) : Caller → Prop
  | .sent v (.lock _) _ => v = u
  | _ => False

/-- The same for a stripe. -/
def onFallback : Caller → Bool
  | .sent _ (.stripe _) _ => true
  | _ => false

def active : Caller → Bool
  | .sent .. => true
  | _ => false

end Caller

/-! ### What is counted -/

variable {t t' : Caller}

inductive Counter where
  | users (lock : Address)
  | locked (mutex : Mutex)
  | overflow

def StatusLocks.value (s : StatusLocks) : Counter → Int
  | .users lock => s.users lock
  | .locked mutex => (s.locked mutex).toNat
  | .overflow => s.statusOverflow

def Caller.weight : Counter → Caller → Nat
  | .users lock, .sent _ mutex _ => if mutex = .lock lock then 1 else 0
  | .locked m, .sent _ mutex .holding => if mutex = m then 1 else 0
  | .overflow, t => t.onFallback.toNat
  | _, _ => 0

open Caller

/-- The counters and the mutexes say what the goroutines are doing. -/
def Counted (p : Pool StatusLocks Caller) : Prop := ∀ k, p.shared.value k = p.sum (weight k)

/-- Where the callers of the user are. -/
def StatusLocks.mutexOf (s : StatusLocks) (u : Int64) : Mutex := ((s.statusUsers.lookup u).map Mutex.lock).getD (stripeOf u)

/-- The map holds the locks that are in use, and the callers of a user are all at one place. -/
structure Filed (p : Pool StatusLocks Caller) : Prop where
  sent : ∀ u mutex stage, .sent u mutex stage ∈ p.threads → mutex = p.shared.mutexOf u
  used : ∀ u lock, p.shared.statusUsers.lookup u = some lock → lock.1 = u ∧ lock.2 < p.shared.allocated ∧ 0 < p.shared.users lock
  bounded : p.shared.statusUsers.keys.length ≤ maxPMPermitActiveStatusUsers

section Steps

variable {s s' : StatusLocks} {lock : Address} {p : Pool StatusLocks Caller} {i : Nat}

theorem lookup_of_mutexOf (h : .lock lock = s.mutexOf u) : s.statusUsers.lookup u = some lock := by
  unfold StatusLocks.mutexOf stripeOf at h
  cases hu : s.statusUsers.lookup u <;> simp [hu] at h ⊢
  exact h.symm

theorem mutexOf_congr (h : s'.statusUsers.lookup u = s.statusUsers.lookup u) : s'.mutexOf u = s.mutexOf u := by
  rw [StatusLocks.mutexOf, StatusLocks.mutexOf, h]

theorem Counted.move (hp : Counted p) (ht : p.threads[i]? = some t) (h : ∀ k, s'.value k + weight k t = p.shared.value k + weight k t') :
    Counted ⟨s', p.threads.set i t'⟩ := by
  intro k
  have hsum : Pool.sum (weight k) ⟨s', p.threads.set i t'⟩ + weight k t = p.sum (weight k) + weight k t' := sum_set _ ht t'
  have hvalue := h k
  have hold := hp k
  dsimp only
  omega

theorem Counted.eq_zero (hp : Counted p) (k : Counter) (h : ∀ t ∈ p.threads, weight k t = 0) : p.shared.value k = 0 := by
  have hsum : p.sum (weight k) = 0 := sum_eq_zero fun n hn => by
    obtain ⟨t, ht, rfl⟩ := mem_map.mp hn
    exact h t ht
  rw [hp k, hsum]
  rfl

theorem Counted.le_value (hp : Counted p) (ht : t ∈ p.threads) (k : Counter) : (weight k t : Int) ≤ p.shared.value k := by
  obtain ⟨j, hj⟩ := getElem?_of_mem ht
  rw [hp k]
  exact_mod_cast le_sum (weight k) hj

theorem Filed.same (hp : Filed p) (hmap : s'.statusUsers = p.shared.statusUsers) (hall : s'.allocated = p.shared.allocated)
    (hused : ∀ v l, p.shared.statusUsers.lookup v = some l → 0 < s'.users l)
    (hsent : ∀ v m stage, t' = .sent v m stage → m = p.shared.mutexOf v) : Filed ⟨s', p.threads.set i t'⟩ := by
  refine ⟨fun v m stage h => ?_, fun v l h => ?_, ?_⟩
  · rcases mem_or_eq_of_mem_set h with h | h
    · exact (hp.sent v m stage h).trans (mutexOf_congr (by rw [hmap])).symm
    · exact (hsent v m stage h.symm).trans (mutexOf_congr (by rw [hmap])).symm
  · replace h : p.shared.statusUsers.lookup v = some l := hmap ▸ h
    obtain ⟨hown, hlt, -⟩ := hp.used v l h
    exact ⟨hown, hall ▸ hlt, hused v l h⟩
  · rw [hmap]
    exact hp.bounded

theorem sound_register (hc : Counted p) (hf : Filed p) (ht : p.threads[i]? = some (.called u))
    (hnone : p.shared.statusUsers.lookup u = none)
    (hroom : ¬ (0 < p.shared.statusOverflow ∨ maxPMPermitActiveStatusUsers ≤ p.shared.statusUsers.keys.length)) :
    Counted ⟨(p.shared.enter u).1, p.threads.set i (.sent u (p.shared.enter u).2 .waiting)⟩ ∧
      Filed ⟨(p.shared.enter u).1, p.threads.set i (.sent u (p.shared.enter u).2 .waiting)⟩ := by
  simp only [StatusLocks.enter, hnone, if_neg hroom]
  -- nobody knows the new address
  have hnew {v : Int64} {l : Address} (h : p.shared.statusUsers.lookup v = some l) : l ≠ (u, p.shared.allocated) := by
    rintro rfl
    exact lt_irrefl _ (hf.used v _ h).2.1
  have hunused (t : Caller) (ht : t ∈ p.threads) :
      weight (.users (u, p.shared.allocated)) t = 0 ∧ weight (.locked (.lock (u, p.shared.allocated))) t = 0 := by
    cases t with
    | sent v m stage =>
      have hne : m ≠ .lock (u, p.shared.allocated) := by
        rintro rfl
        exact hnew (lookup_of_mutexOf (hf.sent v _ stage ht)) rfl
      cases stage <;> simp [weight, hne]
    | _ => exact ⟨rfl, rfl⟩
  have husers := hc.eq_zero (.users (u, p.shared.allocated)) fun t ht => (hunused t ht).1
  have hmutex := hc.eq_zero (.locked (.lock (u, p.shared.allocated))) fun t ht => (hunused t ht).2
  simp only [StatusLocks.value] at husers hmutex
  refine ⟨hc.move ht fun k => ?_, fun v m stage h => ?_, fun v l h => ?_, ?_⟩
  · cases k with
    | users l =>
      by_cases hl : l = (u, p.shared.allocated)
      · simp [StatusLocks.value, weight, hl, husers]
      · simp [StatusLocks.value, weight, hl, Ne.symm hl]
    | locked m =>
      by_cases hm : m = .lock (u, p.shared.allocated)
      · simp [StatusLocks.value, weight, hm, hmutex]
      · simp [StatusLocks.value, weight, hm]
    | overflow => rfl
  · rcases mem_or_eq_of_mem_set h with hin | h
    · have hold := hf.sent v m stage hin
      refine hold.trans (mutexOf_congr (lookup_insert_ne ?_)).symm
      rintro rfl
      -- nobody of the user is at a stripe, as nobody is
      have hle := hc.le_value hin .overflow
      rw [hold, StatusLocks.mutexOf, hnone] at hle
      simp only [weight, map_none, getD_none, stripeOf, onFallback, StatusLocks.value, Bool.toNat_true] at hle
      omega
    · cases h
      simp [StatusLocks.mutexOf]
  · show l.1 = v ∧ l.2 < p.shared.allocated + 1 ∧ 0 < Function.update p.shared.users _ _ l
    by_cases hv : v = u
    · rw [hv, lookup_insert] at h
      simp [← some.inj h, hv]
    · rw [lookup_insert_ne hv] at h
      obtain ⟨hown, hlt, hpos⟩ := hf.used v l h
      rw [Function.update_of_ne (hnew h)]
      exact ⟨hown, by omega, hpos⟩
  · have hnot : u ∉ p.shared.statusUsers.keys := fun h => by
      simpa [hnone] using lookup_isSome.mpr (mem_keys.mpr h)
    rw [keys_insert, length_cons, erase_of_not_mem hnot]
    omega

/-- A caller leaves its user's lock, and the last one takes it off the map. -/
theorem sound_release (hc : Counted p) (hf : Filed p) (ht : p.threads[i]? = some (.sent u (.lock lock) .leaving)) :
    Counted ⟨p.shared.releaseStatusUser u lock, p.threads.set i .returned⟩ ∧
      Filed ⟨p.shared.releaseStatusUser u lock, p.threads.set i .returned⟩ := by
  have hlock := lookup_of_mutexOf (hf.sent u _ _ (mem_of_getElem? ht))
  have hcounted : Counted ⟨p.shared.releaseStatusUser u lock, p.threads.set i .returned⟩ := by
    refine hc.move ht fun k => ?_
    cases k with
    | users l =>
      by_cases hl : l = lock
      · simp [StatusLocks.releaseStatusUser, StatusLocks.value, weight, hl]
      · simp [StatusLocks.releaseStatusUser, StatusLocks.value, weight, hl, Ne.symm hl]
    | _ => rfl
  have husers {l : Address} (hl : l ≠ lock) : (p.shared.releaseStatusUser u lock).users l = p.shared.users l := Function.update_of_ne hl _ _
  have hself : (p.shared.releaseStatusUser u lock).users lock = p.shared.users lock - 1 := Function.update_self ..
  refine ⟨hcounted, ?_⟩
  by_cases hlast : p.shared.users lock - 1 = 0
  · have hmap : (p.shared.releaseStatusUser u lock).statusUsers = p.shared.statusUsers.erase u := if_pos hlast
    refine ⟨fun v m stage h => ?_, fun v l h => ?_, ?_⟩
    · have hold := hf.sent v m stage ((mem_or_eq_of_mem_set h).resolve_right nofun)
      refine hold.trans (mutexOf_congr ?_).symm
      rw [hmap, lookup_erase_ne]
      -- otherwise the counter of the lock would not be zero
      rintro rfl
      rw [StatusLocks.mutexOf, hlock] at hold
      replace hold : m = .lock lock := hold
      have hle := hcounted.le_value h (.users lock)
      simp only [StatusLocks.value, weight, hold, hself, if_true] at hle
      omega
    · replace h : (p.shared.statusUsers.erase u).lookup v = some l := hmap ▸ h
      by_cases hv : v = u
      · subst hv
        simp at h
      · rw [lookup_erase_ne hv] at h
        obtain ⟨hown, hlt, hpos⟩ := hf.used v l h
        refine ⟨hown, hlt, ?_⟩
        rwa [husers]
        rintro rfl
        exact hv (hown.symm.trans (hf.used u l hlock).1)
    · rw [hmap, keys_erase]
      exact length_erase_le.trans hf.bounded
  · refine hf.same (if_neg hlast) rfl (fun v l hv => ?_) nofun
    have hpos := (hf.used v l hv).2.2
    by_cases hl : l = lock
    · subst hl
      omega
    · rwa [husers hl]

theorem sound_step (hc : Counted p) (hf : Filed p) (ht : p.threads[i]? = some t) (h : p.shared.step t = some (s', t')) :
    Counted ⟨s', p.threads.set i t'⟩ ∧ Filed ⟨s', p.threads.set i t'⟩ := by
  have hmem := mem_of_getElem? ht
  have hused (v : Int64) (l : Address) (hv : p.shared.statusUsers.lookup v = some l) := (hf.used v l hv).2.2
  have hsent {u : Int64} {mutex : Mutex} {stage : Stage} (hof : mutex = p.shared.mutexOf u) (v : Int64) (m : Mutex)
      (stage1 : Stage) (heq : Caller.sent u mutex stage = .sent v m stage1) : m = p.shared.mutexOf v := by
    cases heq
    exact hof
  match t, h with
  | .called u, h =>
    cases h
    cases hfound : p.shared.statusUsers.lookup u with
    | some lock =>
      simp only [StatusLocks.enter, hfound]
      refine ⟨hc.move ht fun k => ?_, hf.same rfl rfl (fun v l hv => ?_) (hsent (by simp [StatusLocks.mutexOf, hfound]))⟩
      · cases k with
        | users l =>
          by_cases hl : l = lock
          · simp [StatusLocks.value, weight, hl]
          · simp [StatusLocks.value, weight, hl, Ne.symm hl]
        | _ => rfl
      · have hpos := hused v l hv
        by_cases hl : l = lock
        · subst hl
          simp only [Function.update_self]
          omega
        · simpa [hl] using hpos
    | none =>
      by_cases hroom : 0 < p.shared.statusOverflow ∨ maxPMPermitActiveStatusUsers ≤ p.shared.statusUsers.keys.length
      · simp only [StatusLocks.enter, hfound, if_pos hroom]
        refine ⟨hc.move ht fun k => ?_, hf.same rfl rfl hused (hsent (by simp [StatusLocks.mutexOf, hfound]))⟩
        cases k with
        | users => simp [StatusLocks.value, weight, stripeOf]
        | _ => simp [StatusLocks.value, weight, stripeOf, onFallback]
      · exact sound_register hc hf ht hfound hroom
  | .sent u mutex .waiting, h =>
    simp only [StatusLocks.step] at h
    split_ifs at h with hlocked
    cases h
    refine ⟨hc.move ht fun k => ?_, hf.same rfl rfl hused (hsent (hf.sent u mutex _ hmem))⟩
    cases k with
    | locked m =>
      by_cases hm : m = mutex
      · simp [StatusLocks.value, weight, hm, hlocked]
      · simp [StatusLocks.value, weight, hm, Ne.symm hm]
    | users => rfl
    | overflow => cases mutex <;> rfl
  | .sent u mutex .holding, h =>
    cases h
    refine ⟨hc.move ht fun k => ?_, hf.same rfl rfl hused (hsent (hf.sent u mutex _ hmem))⟩
    have hle := hc.le_value hmem (.locked mutex)
    cases k with
    | locked m =>
      by_cases hm : m = mutex
      · cases hlocked : p.shared.locked mutex <;> simp [StatusLocks.value, weight, hm, hlocked] at hle ⊢
      · simp [StatusLocks.value, weight, hm, Ne.symm hm]
    | users => rfl
    | overflow => cases mutex <;> rfl
  | .sent u (.lock lock) .leaving, h =>
    cases h
    exact sound_release hc hf ht
  | .sent u (.stripe j) .leaving, h =>
    cases h
    refine ⟨hc.move ht fun k => ?_, hf.same rfl rfl hused nofun⟩
    cases k <;> simp [StatusLocks.value, weight, onFallback]

end Steps

/-! ### Runs -/

section Runs

variable {p : Pool StatusLocks Caller}

theorem run_sound (h : Run program entry (fun _ _ => true) start p) : Counted p ∧ Filed p := by
  refine h.invariant (P := fun p => Counted p ∧ Filed p) ?_ ⟨fun k => by cases k <;> rfl, ?_⟩
  · rintro p a p' ⟨hc, hf⟩ - hact
    cases hact with
    | call t ha hentry heq =>
      subst heq
      cases t with
      | called u =>
        refine ⟨fun k => ?_, fun v m stage h => ?_, hf.used, hf.bounded⟩
        · rw [sum_call, show weight k (.called u) = 0 by cases k <;> rfl]
          exact hc k
        · exact hf.sent v m stage (by simpa using h)
      | _ => cases hentry
    | move i _ t t' s' new ha ht hnext heq =>
      obtain ⟨⟨s1, t1⟩, hstep, hpair⟩ := map_eq_some_iff.mp hnext
      obtain ⟨rfl, rfl, rfl⟩ := hpair
      rw [heq, append_nil]
      exact sound_step hc hf ht hstep
  · refine ⟨fun u m stage h => (by cases h), fun u l h => ?_, Nat.zero_le _⟩
    exact absurd h (by simp [start])

theorem inside_unique (hc : Counted p) (hf : Filed p) {i j : Nat} (ht : p.threads[i]? = some t)
    (ht' : p.threads[j]? = some t') (hin : t.inside u) (hin' : t'.inside u) : i = j := by
  by_contra hne
  match t, t', hin, hin' with
  | .sent _ m .holding, .sent _ m' .holding, rfl, rfl =>
    obtain rfl : m = m' := (hf.sent _ m _ (mem_of_getElem? ht)).trans (hf.sent _ m' _ (mem_of_getElem? ht')).symm
    have hle := add_le_sum (weight (.locked m)) ht ht' hne
    have hvalue := hc (.locked m)
    have hflag := (p.shared.locked m).toNat_le
    simp only [StatusLocks.value, weight, if_true] at hle hvalue
    omega

theorem mem_statusUsers_iff (hc : Counted p) (hf : Filed p) (u : Int64) : u ∈ p.shared.statusUsers ↔ ∃ t ∈ p.threads, t.onLock u := by
  rw [← lookup_isSome, isSome_iff_exists]
  constructor
  · rintro ⟨lock, hlock⟩
    obtain ⟨hown, -, hpos⟩ := hf.used u lock hlock
    by_contra hnone
    refine hpos.ne' (hc.eq_zero (.users lock) fun t ht => ?_)
    cases t with
    | sent v m stage =>
      refine if_neg ?_
      rintro rfl
      exact hnone ⟨_, ht, (hf.used v lock (lookup_of_mutexOf (hf.sent v _ stage ht))).1.symm.trans hown⟩
    | _ => rfl
  · rintro ⟨t, ht, hon⟩
    match t, hon with
    | .sent _ (.lock lock) stage, rfl => exact ⟨lock, lookup_of_mutexOf (hf.sent _ _ stage ht)⟩

/-- At most one goroutine is inside the lock of a user, the map has the users of its own path and no more
than there may be, the counter says how many are on the other, and nothing stays when all are through. -/
theorem user_status_locked (h : Run program entry (fun _ _ => true) start p) :
    (∀ (i j : Nat) (t t' : Caller) (u : Int64), p.threads[i]? = some t → p.threads[j]? = some t' → t.inside u → t'.inside u → i = j) ∧
      p.shared.statusUsers.keys.length ≤ maxPMPermitActiveStatusUsers ∧
      (∀ u, u ∈ p.shared.statusUsers ↔ ∃ t ∈ p.threads, t.onLock u) ∧ p.shared.statusOverflow = p.sum (·.onFallback.toNat) ∧
      ((∀ t ∈ p.threads, t.active = false) → p.shared.statusUsers.keys = [] ∧ p.shared.statusOverflow = 0) := by
  obtain ⟨hc, hf⟩ := run_sound h
  refine ⟨fun i j t t' u => inside_unique hc hf, hf.bounded, mem_statusUsers_iff hc hf, hc .overflow, fun hidle => ⟨?_, ?_⟩⟩
  · refine eq_nil_iff_forall_not_mem.mpr fun u hu => ?_
    obtain ⟨t, ht, hon⟩ := (mem_statusUsers_iff hc hf u).mp (mem_keys.mp hu)
    cases t with
    | sent => cases hidle _ ht
    | _ => cases hon
  · refine hc.eq_zero .overflow fun t ht => ?_
    cases t with
    | sent => cases hidle _ ht
    | _ => rfl

/-- Two goroutines lock the same user: the second one waits until the first unlocks. -/
def turns : List (Act Caller Unit) :=
  [.call (.called 42), .call (.called 42), .move 0 (), .move 1 (), .move 0 (), .move 0 (), .move 1 ()]

theorem user_status_locked_turns : ∃ p, Run program entry (fun _ _ => true) start p ∧
    p.threads = [.sent 42 (.lock (42, 0)) .leaving, .sent 42 (.lock (42, 0)) .holding] ∧
      ∀ u, u ∈ p.shared.statusUsers ↔ ∃ t ∈ p.threads, t.onLock u := by
  obtain ⟨p, hp, hthread⟩ : ∃ p, start.acts program entry (fun _ _ => true) turns = some p ∧
      p.threads = [.sent 42 (.lock (42, 0)) .leaving, .sent 42 (.lock (42, 0)) .holding] := ⟨_, rfl, by decide +kernel⟩
  exact ⟨p, .of_acts hp, hthread, (user_status_locked (.of_acts hp)).2.2.1⟩

end Runs

end Goultroid.PmPermit
