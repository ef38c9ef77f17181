import Goultroid.Engine.InFlight

/-!
# Ordering keys and owner quotas

The lock of an ordering key is held by the one task in flight with that key, and a request that
dispatches work of an owner leaves the owner within its quota.

`FlightChange` says what a step does to the work in flight together with the locks: it takes up a
candidate whose key was not locked, gives up a spec with its lock, or leaves both alone. So the
locks stay those of the work in flight (`Exclusive`), and each of them names one task. For the
quotas the same change is followed from the beginning of a request on (`WithinQuota`): an owner that
is selected was below its quota.
-/

namespace Goultroid

open Multiset Option
open Admission (Controller QueueEntry)

variable {spec : WorkSpec} {env : Env} {candidate : QueueEntry} {s s' : Stage} {al : Allowance}

/-! ### Ordering locks -/

/-- The locks are those of the work in flight, which has no id twice. -/
structure Exclusive (s : Stage) : Prop where
  nodup : ((inFlight s).map (·.id)).Nodup
  locks : ∀ key id, s.engine.adm.orderingLocks.lookup key = some id ↔
    key ≠ [] ∧ ∃ spec ∈ inFlight s, spec.id = id ∧ spec.orderingKey = key

namespace Exclusive

section

variable (h : Exclusive s)
include h

theorem congr (hflight : inFlight s' = inFlight s) (hlocks : s'.engine.adm.orderingLocks = s.engine.adm.orderingLocks) : Exclusive s' := by
  refine ⟨by rw [hflight]; exact h.nodup, fun key id => ?_⟩
  rw [hflight, hlocks]
  exact h.locks key id

theorem eq_of_key {spec' : WorkSpec} (hmem : spec ∈ inFlight s) (hmem' : spec' ∈ inFlight s) (hkey : spec.orderingKey ≠ [])
    (heq : spec'.orderingKey = spec.orderingKey) : spec'.id = spec.id := by
  have hlock := (h.locks spec.orderingKey spec.id).mpr ⟨hkey, spec, hmem, rfl, rfl⟩
  have hlock' := (h.locks spec.orderingKey spec'.id).mpr ⟨hkey, spec', hmem', rfl, heq⟩
  rw [hlock] at hlock'
  exact (some.inj hlock').symm

theorem assign (hflight : inFlight s' = candidate.spec ::ₘ inFlight s) (hnew : ∀ spec ∈ inFlight s, spec.id ≠ candidate.spec.id)
    (hfree : candidate.spec.orderingKey = [] ∨ s.engine.adm.orderingLocks.lookup candidate.spec.orderingKey = none)
    (hlocks : s'.engine.adm.orderingLocks = if candidate.spec.orderingKey = [] then s.engine.adm.orderingLocks
      else s.engine.adm.orderingLocks.insert candidate.spec.orderingKey candidate.spec.id) : Exclusive s' := by
  refine ⟨?_, fun key id => ?_⟩
  · rw [hflight, map_cons, nodup_cons]
    refine ⟨fun hmem => ?_, h.nodup⟩
    obtain ⟨spec, hspec, heq⟩ := mem_map.mp hmem
    exact hnew spec hspec heq
  · rw [hlocks, hflight]
    by_cases hempty : candidate.spec.orderingKey = []
    · rw [if_pos hempty, h.locks]
      refine and_congr_right fun hne => ?_
      simp [hempty, hne.symm]
    · rw [if_neg hempty, AList.lookup_insert_eq]
      have hnone := hfree.resolve_left hempty
      by_cases hkey : key = candidate.spec.orderingKey
      · -- the key was free, so the candidate is the only one with it
        subst hkey
        rw [if_pos rfl]
        constructor
        · intro hid
          exact ⟨hempty, candidate.spec, mem_cons_self _ _, some.inj hid, rfl⟩
        · rintro ⟨-, spec, hspec, rfl, heq⟩
          rcases mem_cons.mp hspec with rfl | hspec
          · rfl
          · have hlock := (h.locks _ spec.id).mpr ⟨hempty, spec, hspec, rfl, heq⟩
            rw [hnone] at hlock
            cases hlock
      · rw [if_neg hkey, h.locks]
        refine and_congr_right fun _ => ?_
        constructor
        · rintro ⟨spec, hspec, hrest⟩
          exact ⟨spec, mem_cons_of_mem hspec, hrest⟩
        · rintro ⟨spec, hspec, hid, hk⟩
          rcases mem_cons.mp hspec with rfl | hspec
          · exact absurd hk.symm hkey
          · exact ⟨spec, hspec, hid, hk⟩

theorem release (hflight : inFlight s = spec ::ₘ inFlight s') (hadm : s'.engine.adm = s.engine.adm.onTaskTerminal spec) : Exclusive s' := by
  have hmem : spec ∈ inFlight s := by rw [hflight]; exact mem_cons_self _ _
  have hsub : ∀ {x}, x ∈ inFlight s' → x ∈ inFlight s := fun hx => by
    rw [hflight]
    exact mem_cons_of_mem hx
  have hnodup := h.nodup
  rw [hflight, map_cons, nodup_cons] at hnodup
  have hother : ∀ {x}, x ∈ inFlight s' → x.id ≠ spec.id := fun hx heq =>
    hnodup.1 (mem_map.mpr ⟨_, hx, heq⟩)
  refine ⟨hnodup.2, fun key id => ?_⟩
  have hlocks : s'.engine.adm.orderingLocks =
      if spec.orderingKey ≠ [] ∧ s.engine.adm.orderingLocks.lookup spec.orderingKey = some spec.id then
        s.engine.adm.orderingLocks.erase spec.orderingKey
      else s.engine.adm.orderingLocks := by rw [hadm]; rfl
  rw [hlocks]
  by_cases hempty : spec.orderingKey = []
  · rw [if_neg (fun hx => hx.1 hempty), h.locks]
    refine and_congr_right fun hne => ?_
    rw [hflight]
    simp [hempty, hne.symm]
  · have hheld := (h.locks spec.orderingKey spec.id).mpr ⟨hempty, spec, hmem, rfl, rfl⟩
    rw [if_pos ⟨hempty, hheld⟩, AList.lookup_erase_eq]
    by_cases hkey : key = spec.orderingKey
    · subst hkey
      rw [if_pos rfl]
      constructor
      · intro hx
        cases hx
      · rintro ⟨-, x, hx, -, heq⟩
        exact absurd (h.eq_of_key hmem (hsub hx) hempty heq) (hother hx)
    · rw [if_neg hkey, h.locks]
      refine and_congr_right fun _ => ?_
      constructor
      · rintro ⟨x, hx, hid, hk⟩
        rw [hflight] at hx
        rcases mem_cons.mp hx with rfl | hx
        · exact absurd hk.symm hkey
        · exact ⟨x, hx, hid, hk⟩
      · rintro ⟨x, hx, hrest⟩
        exact ⟨x, hsub hx, hrest⟩

theorem change (hchan : FlightChange env al s s') : Exclusive s' := by
  cases hchan with
  | same hflight hchar | capacity _ capacity hal _ hle hflight hchar => exact h.congr hflight hchar.locks
  | assign _ _ _ hpick hflight hnew =>
    obtain ⟨t, -, -, hready, -⟩ := hpick.dispatchable
    simp only [Controller.dispatchable, Bool.and_eq_true, Bool.or_eq_true, beq_iff_eq,
      isNone_iff_eq_none] at hready
    exact h.assign hflight hnew hready.1.2 hpick.took.locks
  | release _ hflight hadm => exact h.release hflight hadm

end

end Exclusive

theorem Reachable.exclusive {cfg : Config} {e : Engine} (h : Reachable env cfg e) : Exclusive ⟨e, ∅⟩ := by
  refine (Reachable.invariant (P := Exclusive) (fun pump resolver => ⟨?_, fun key id => ?_⟩)
    (fun _ he _ _ => he.congr rfl rfl) (fun _ _ _ he => he.congr rfl rfl) (fun _ _ he => he.congr rfl rfl)
    (fun _ _ _ step hs he => he.change (step.flightChange hs)) h)
  · exact nodup_zero
  · constructor
    · intro hx
      cases hx
    · rintro ⟨-, _, hspec, -⟩
      cases hspec

/-! ### Owner quotas -/

/-- Since the stage `s₀`, the limits stayed, and the owner of newly dispatched work is within them. -/
structure WithinQuota (s₀ s : Stage) : Prop where
  limits : s.engine.adm.ownerLimits = s₀.engine.adm.ownerLimits
  load : ∀ spec ∈ inFlight s, spec ∈ inFlight s₀ ∨
    (ownerLoad s spec.quotaOwner : ℤ) ≤ (s.engine.adm.getOwnerLimits spec.quotaOwner).maxActive

namespace WithinQuota

section

variable {s₀ : Stage} (h : WithinQuota s₀ s)
include h

theorem congr (hflight : inFlight s' = inFlight s) (hlim : s'.engine.adm.ownerLimits = s.engine.adm.ownerLimits) : WithinQuota s₀ s' := by
  refine ⟨hlim.trans h.limits, fun spec hspec => ?_⟩
  rw [hflight] at hspec
  rw [ownerLoad, hflight, Controller.getOwnerLimits, hlim]
  exact h.load spec hspec

/-- A selected owner was below its quota, so one more is within it. -/
theorem assign {tick : Nat} {pool : PoolID} (hs : Coherent s) (hpick : Picks env s.engine tick pool candidate s'.engine.adm)
    (hflight : inFlight s' = candidate.spec ::ₘ inFlight s) : WithinQuota s₀ s' := by
  have hlim := hpick.took.limits
  have hmax : ∀ owner, s'.engine.adm.getOwnerLimits owner = s.engine.adm.getOwnerLimits owner := fun owner => by
    rw [Controller.getOwnerLimits, hlim, ← Controller.getOwnerLimits]
  have hload : ∀ owner, ownerLoad s' owner =
      ownerLoad s owner + if candidate.spec.quotaOwner = owner then 1 else 0 := fun owner => by
    rw [ownerLoad, ownerLoad, hflight, countP_cons]
  have hbelow : (ownerLoad s candidate.spec.quotaOwner : ℤ) <
      (s.engine.adm.getOwnerLimits candidate.spec.quotaOwner).maxActive := by
    have hunsaturated := hpick.unsaturated
    have hpos := (s.engine.adm.getOwnerLimits candidate.spec.quotaOwner).maxActive_pos
    rw [← hs.active_eq_ownerLoad]
    simp only [Controller.ownerSaturated, decide_eq_false_iff_not] at hunsaturated
    by_contra hle
    exact hunsaturated ⟨hpos, by omega⟩
  refine ⟨hlim.trans h.limits, fun spec hspec => ?_⟩
  rw [hflight] at hspec
  rw [hload, hmax]
  by_cases howner : candidate.spec.quotaOwner = spec.quotaOwner
  · right
    rw [if_pos howner, ← howner]
    omega
  · rw [if_neg howner]
    rcases mem_cons.mp hspec with rfl | hspec
    · exact absurd rfl howner
    · exact h.load spec hspec

theorem release (hflight : inFlight s = spec ::ₘ inFlight s')
    (hadm : s'.engine.adm = s.engine.adm.onTaskTerminal spec) : WithinQuota s₀ s' := by
  have hlim : s'.engine.adm.ownerLimits = s.engine.adm.ownerLimits := by
    rw [hadm]
    rfl
  refine ⟨hlim.trans h.limits, fun x hx => ?_⟩
  have hle : ownerLoad s' x.quotaOwner ≤ ownerLoad s x.quotaOwner := by
    rw [ownerLoad, ownerLoad, hflight, countP_cons]
    exact Nat.le_add_right _ _
  rw [Controller.getOwnerLimits, hlim, ← Controller.getOwnerLimits]
  refine (h.load x (by rw [hflight]; exact mem_cons_of_mem hx)).imp id fun hload => ?_
  omega

theorem change (hs : Coherent s) (hchan : FlightChange env al s s') : WithinQuota s₀ s' := by
  cases hchan with
  | same hflight hchar | capacity _ capacity hal _ hle hflight hchar => exact h.congr hflight hchar.limits
  | assign _ _ _ hpick hflight => exact h.assign hs hpick hflight
  | release _ hflight hadm => exact h.release hflight hadm

end

end WithinQuota

theorem Steps.withinQuota (h : Steps env al s s') (hs : Coherent s) : WithinQuota s s' :=
  (Steps.keeps (fun _ _ step hx hquota => hquota.change hx (step.flightChange hx)) h hs
    ⟨rfl, fun _ hspec => .inl hspec⟩).2

/-- In every reachable state the lock of a non-empty ordering key names the one dispatching or running
record with that key, and a step that dispatches a record leaves the owner of the record with at most
its `MaxActive` dispatching and running records. -/
theorem ordering_exclusive_and_quota_kept {env : Env} {cfg : Config} {e : Engine} (h : Reachable env cfg e) :
    (∀ key id, key ≠ [] → (e.adm.orderingLocks.lookup key = some id ↔
      ∃ r, e.registry.lookup id = some r ∧ r.state.isActive = true ∧ r.spec.orderingKey = key)) ∧
    (∀ key id id' r r', key ≠ [] → e.registry.lookup id = some r → e.registry.lookup id' = some r' →
      r.state.isActive = true → r'.state.isActive = true → r.spec.orderingKey = key → r'.spec.orderingKey = key → id' = id) ∧
    ∀ ev id r', (e.step env ev).registry.lookup id = some r' → r'.state.isActive = true →
      (∀ r, e.registry.lookup id = some r → r.state.isActive = false) →
      ((e.step env ev).recordCount fun r => r.state.isActive && r.spec.quotaOwner == r'.spec.quotaOwner : ℤ) ≤
        ((e.step env ev).adm.getOwnerLimits r'.spec.quotaOwner).maxActive := by
  have hcoherent := h.coherent
  have hexclusive := h.exclusive
  have hmem : ∀ {id r}, e.registry.lookup id = some r → r.state.isActive = true →
      r.spec ∈ inFlight ⟨e, ∅⟩ := by
    intro id r hr hact
    have hid := hcoherent.key hr
    subst hid
    exact (mem_inFlight hcoherent).mpr ⟨r, hr, hact, Finset.notMem_empty _, rfl⟩
  refine ⟨fun key id hkey => ?_, fun key id id' r r' hkey hr hr' hact hact' hk hk' => ?_, ?_⟩
  · rw [hexclusive.locks key id]
    constructor
    · rintro ⟨-, spec, hspec, rfl, hk⟩
      obtain ⟨r, hr, hact, -, rfl⟩ := (mem_inFlight hcoherent).mp hspec
      exact ⟨r, hr, hact, hk⟩
    · rintro ⟨r, hr, hact, hk⟩
      exact ⟨hkey, r.spec, hmem hr hact, hcoherent.key hr, hk⟩
  · have hid := hexclusive.eq_of_key (hmem hr hact) (hmem hr' hact') (hk ▸ hkey) (hk'.trans hk.symm)
    rwa [hcoherent.key hr, hcoherent.key hr'] at hid
  · intro ev id r' hr' hact hnew
    rcases Engine.step_cases env hcoherent ev with hsteps | ⟨owner, limits, -, heq⟩ | ⟨ch, -, heq⟩
    · have hcoherent' := hsteps.coherent hcoherent
      have hid := hcoherent'.key hr'
      subst hid
      have hspec : r'.spec ∈ inFlight ⟨e.step env ev, ∅⟩ :=
        (mem_inFlight hcoherent').mpr ⟨r', hr', hact, Finset.notMem_empty _, rfl⟩
      rcases (hsteps.withinQuota hcoherent).load r'.spec hspec with hold | hload
      · obtain ⟨r, hr, hact', -⟩ := (mem_inFlight hcoherent).mp hold
        rw [hnew r hr] at hact'
        cases hact'
      · rw [← hcoherent'.active_eq_recordCount, hcoherent'.active_eq_ownerLoad]
        exact hload
    iterate 2
      · rw [heq] at hr'
        rw [hnew r' hr'] at hact
        cases hact

def keyedSpec (id key : String) : WorkSpec := { plainSpec id with orderingKey := goString key }

/-- Of two tasks with one key, the first runs and holds the lock, although two workers are free. -/
theorem ordering_exclusive_and_quota_kept_solo :
    let e := Engine.solo 2 [.request (.submit (keyedSpec "a" "k")), .request (.submit (keyedSpec "b" "k"))]
    e.adm.orderingLocks.lookup (goString "k") = some (goString "a") ∧ e.stateOf "b" = some .queued := by
  intro e
  have hres := ordering_exclusive_and_quota_kept (Reachable.solo 2
    [.request (.submit (keyedSpec "a" "k")), .request (.submit (keyedSpec "b" "k"))])
  obtain ⟨r, hr⟩ : ∃ r, e.registry.lookup (goString "a") = some r := isSome_iff_exists.mp (by decide +kernel)
  have hrun : e.registry.lookup (goString "a") = some r → r.state.isActive = true ∧
      r.spec.orderingKey = goString "k" := by
    intro h
    have hboth : (e.registry.lookup (goString "a")).all fun r =>
        r.state.isActive && r.spec.orderingKey == goString "k" := by decide +kernel
    rw [h] at hboth
    simpa using hboth
  exact ⟨(hres.1 _ _ (by decide +kernel)).mpr ⟨r, hr, hrun hr⟩, by decide +kernel⟩

end Goultroid
