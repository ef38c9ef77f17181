import Goultroid.Jobs.Lives

/-!
# What each transaction does to a life

One lemma for every transaction of the store says when it commits and what it then leaves of the one
occurrence it is about; no other occurrence moves. `step_life` puts them together.

`Sets` is the form of these lemmas: one occurrence stands as given, and every other one as before.
`Scope` bounds what a call may do to lives, so that the transactions of one driver can be told from
others by what they open, lease, settle and prune.
-/

namespace Goultroid.Jobs

open List Bool

variable {l : Life} {now checked : Time} {fmt : Formats} {taskID : Option TaskID} {d : Duration} {attemptID : AttemptID} {leaseEpoch : Nat}
  {outcome : AttemptState} {result : List UInt8} {errStr : GoString} {j : OccurrenceID}

/-- A further attempt of the occurrence may be leased at `now`. -/
def Life.Leasable (now : Time) (l : Life) : Prop :=
  l.occurrence.readyAt ≤ now ∧ (l.occurrence.state = .ready ∧ maxAttemptNo l.attempts = 0 ∨
    l.occurrence.state = .dispatched ∧ ∃ a, latestOf l.attempts = some a ∧ a.state.terminal = true)

namespace Store

variable {s s' : Store} {id : OccurrenceID} {o : JobOccurrence} {a : JobAttempt}

/-- Occurrence `id` now stands as `l`, and every other one as before. -/
def Sets (s s' : Store) (id : OccurrenceID) (l : Life) : Prop :=
  ∀ j, s'.life j = if j = id then some l else s.life j

theorem sets_updateOccurrences {p f hf} (hlife : s.life id = some l) (hp : p l.occurrence = true)
    (hone : ∀ r : JobOccurrence, p r = true → r.id = id) :
    s.Sets (s.updateOccurrences p f hf) id { l with occurrence := f l.occurrence } := by
  intro j
  rw [life_updateOccurrences]
  split_ifs with hj
  · subst hj
    simp [hlife, hp]
  · cases hlifej : s.life j with
    | none => rfl
    | some lj =>
      have hpj : p lj.occurrence = false := by
        refine eq_false_iff.mpr fun hpj => hj ?_
        rw [← life_id hlifej]
        exact hone _ hpj
      simp [hpj]

/-! ### Materialization -/

theorem materializeOccurrence_ok {occ : JobOccurrence} (h : s.materializeOccurrence now occ = .ok (s', o)) :
    (o = materialized now occ ∧ s.insertOccurrence? o = some s') ∨ (s' = s ∧ s.occurrenceByKey? occ.occurrenceKey = some o) := by
  unfold materializeOccurrence at h
  split at h
  · rename_i s1 hinsert
    cases h
    exact .inl ⟨rfl, hinsert⟩
  · split at h
    · rename_i existing hkey
      cases h
      exact .inr ⟨rfl, hkey⟩
    · cases h

theorem upsertOccurrence_eq_some (h : s.upsertOccurrence now o = some s') : s.insertOccurrence? o = some s' ∨
      s' = s.updateOccurrences (·.occurrenceKey == o.occurrenceKey) fun r => { r with updatedAt := now } := by
  unfold upsertOccurrence at h
  split at h
  · exact .inr (Option.some.inj h).symm
  · exact .inl h

/-- A due schedule opens its occurrence, touches the stored one of the same slot, or is only advanced. -/
theorem materializeDueSchedule_ok {scheduleID : GoString} {nextDue : Time} {res : Option JobOccurrence}
    (h : s.materializeDueSchedule fmt now scheduleID nextDue = .ok (s', res)) :
    ∃ sched s1, s.schedule? scheduleID = some sched ∧ s' = s1.advanceSchedule now scheduleID nextDue ∧
      (res = none ∧ s1 = s ∨ res = some (scheduledOccurrence fmt now sched) ∧
        s.upsertOccurrence now (scheduledOccurrence fmt now sched) = some s1 ∧
        (sched.overlapPolicy = .forbid → s.hasActiveOccurrence sched.jobID = false)) := by
  unfold materializeDueSchedule at h
  split at h
  · cases h
  · rename_i sched hsched
    split_ifs at h with hdue hover
    · cases h
      exact ⟨sched, s, hsched, rfl, .inl ⟨rfl, rfl⟩⟩
    · dsimp only at h
      split at h
      · cases h
      · rename_i s1 hupsert
        cases h
        refine ⟨sched, s1, hsched, rfl, .inr ⟨rfl, hupsert, fun hforbid => ?_⟩⟩
        simpa using fun hact => hover ⟨hforbid, hact⟩

/-! ### Leases -/

theorem leasable_of_leaseRefusal (h : leaseRefusal fmt now l.occurrence
    (maxAttemptNo l.attempts) (((latestOf l.attempts).map JobAttempt.state).getD .unset) = none) : l.Leasable now := by
  unfold leaseRefusal at h
  split at h
  · rename_i hstate
    split_ifs at h with hready hlatest
    exact ⟨not_lt.mp hready, .inl ⟨hstate, not_not.mp hlatest⟩⟩
  · rename_i hstate
    split_ifs at h with hready hlatest hterminal
    refine ⟨not_lt.mp hready, .inr ⟨hstate, ?_⟩⟩
    cases hfind : latestOf l.attempts with
    | none => simp [hfind, AttemptState.terminal, AttemptState.result] at hterminal
    | some a => exact ⟨a, rfl, by simpa [hfind] using hterminal⟩
  · cases h

theorem prepareLease_ok (h : s.prepareLease fmt checked now id taskID d = .ok (s', a)) :
    ∃ l, s.life id = some l ∧ l.Leasable checked ∧
      a = leasedAttempt now id (maxAttemptNo l.attempts + 1) (leaseTaskID id (maxAttemptNo l.attempts + 1) taskID) d ∧
      s.Sets s' id ⟨{ l.occurrence with
        state := .dispatched, revision := l.occurrence.revision + 1, updatedAt := now }, l.attempts ++ [a]⟩ := by
  unfold prepareLease at h
  split_ifs at h with harg
  split at h
  · cases h
  · rename_i o ho
    have hlife := life_of_occurrence? ho
    refine ⟨_, hlife, ?_⟩
    dsimp only at h
    split at h
    · cases h
    · rename_i href
      have hleasable := leasable_of_leaseRefusal (l := ⟨o, s.attemptsOf id⟩) href
      split at h
      · cases h
      · rename_i s1 hinsert
        split_ifs at h with hcount
        cases h
        refine ⟨hleasable, rfl, ?_⟩
        have hlife1 : s1.life id = some ⟨o, s.attemptsOf id ++ [leasedAttempt now id (s.latestAttemptNo id + 1)
            (leaseTaskID id (s.latestAttemptNo id + 1) taskID) d]⟩ := by
          rw [life_insertAttempt? hinsert, leasedAttempt_occurrenceID, if_pos rfl, hlife]
          rfl
        have hactive : o.state = .ready ∨ o.state = .dispatched := by
          obtain ⟨-, ⟨hready, -⟩ | ⟨hdispatched, -⟩⟩ := hleasable
          · exact .inl hready
          · exact .inr hdispatched
        have hid := (mem_of_occurrence? ho).2
        refine fun j => (sets_updateOccurrences hlife1 ?_ ?_ j).trans ?_
        · simpa [hid] using hactive
        · intro r hr
          simp only [and_eq_true, beq_iff_eq] at hr
          exact hr.1.1.1
        · split_ifs with hj
          · rfl
          · rw [life_insertAttempt? hinsert, leasedAttempt_occurrenceID, if_neg hj]

/-! ### Results -/

/-- The fence of a commit or deferral: the named attempt is at the named epoch and the latest of a
dispatched occurrence. -/
structure Held (s : Store) (attemptID : AttemptID) (leaseEpoch : Nat) (a : JobAttempt) (l : Life) : Prop where
  attempt : s.attempt? attemptID = some a
  epoch : a.leaseEpoch = leaseEpoch
  life : s.life a.occurrenceID = some l
  latest : maxAttemptNo l.attempts = a.attemptNo
  dispatched : l.occurrence.state = .dispatched

def settledAttempt (now : Time) (outcome : AttemptState) (result : List UInt8) (errStr : GoString)
    (a : JobAttempt) : JobAttempt :=
  { a with state := outcome, result := result, error := errStr, finishedAt := some now }

def closedBy (now : Time) (outcome : AttemptState) (o : JobOccurrence) : JobOccurrence :=
  if outcome = .completed ∨ outcome = .cancelled then { o with
    state := if outcome = .completed then .completed else .cancelled
    revision := o.revision + 1
    updatedAt := now }
  else o

variable {readyAt : Time} {reason : GoString}

theorem Held.mem (h : s.Held attemptID leaseEpoch a l) : a ∈ s.attempts.rows ∧ a.id = attemptID :=
  mem_of_attempt? h.attempt

theorem recordResult_sets (now : Time) (outcome : AttemptState) (result : List UInt8) (errStr : GoString)
    (h : s.Held attemptID leaseEpoch a l) : ∃ before after, l.attempts = before ++ a :: after ∧
      s.Sets (s.recordResult now attemptID leaseEpoch outcome result errStr a.occurrenceID) a.occurrenceID
        ⟨closedBy now outcome l.occurrence, before ++ settledAttempt now outcome result errStr a :: after⟩ := by
  obtain ⟨hmem, hid⟩ := h.mem
  obtain ⟨before, after, hsplit, hsets⟩ := life_updateAttempts
    (p := fun r => r.id == attemptID && r.leaseEpoch == leaseEpoch) (f := settledAttempt now outcome result errStr)
    (fun _ => rfl) hmem (by simp [hid, h.epoch]) (by
      intro b hb
      simp only [and_eq_true, beq_iff_eq] at hb
      rw [hb.1, hid]) h.life
  refine ⟨before, after, hsplit, fun j => ?_⟩
  by_cases hclose : outcome = .completed ∨ outcome = .cancelled
  · have hself := hsets a.occurrenceID
    rw [if_pos rfl] at hself
    simp only [recordResult, if_pos hclose]
    refine (sets_updateOccurrences hself ?_ ?_ j).trans ?_
    · simpa using life_id h.life
    · intro r hr
      exact beq_iff_eq.mp hr
    · by_cases hj : j = a.occurrenceID
      · simp only [if_pos hj, closedBy, if_pos hclose]
      · rw [if_neg hj, if_neg hj, hsets j, if_neg hj]
  · simp only [recordResult, if_neg hclose, closedBy]
    exact hsets j

theorem commitAttempt_ok {c : Commit} (h : s.commitAttempt now attemptID leaseEpoch outcome result errStr = .ok c) : outcome.result = true ∧
      ((c = .replayed ∧ ∃ a, s.attempt? attemptID = some a ∧ a.leaseEpoch = leaseEpoch ∧ a.state = outcome ∧
          a.result = result ∧ a.error = errStr) ∨ ∃ a l, s.Held attemptID leaseEpoch a l ∧ a.state.active = true ∧
          c = .recorded a.occurrenceID (s.recordResult now attemptID leaseEpoch outcome result errStr a.occurrenceID)) := by
  unfold commitAttempt at h
  split_ifs at h with hout
  refine ⟨by simpa using hout, ?_⟩
  split at h
  · cases h
  · rename_i a ha
    split_ifs at h with hepoch hactive hsame
    · exact .inl ⟨(Except.ok.inj h).symm, a, ha, not_not.mp hepoch, hsame⟩
    · split at h
      · cases h
      · rename_i o ho
        split_ifs at h with hfence
        obtain ⟨hlatest, hdispatched⟩ := not_or.mp hfence
        refine .inr ⟨a, _, ⟨ha, not_not.mp hepoch, life_of_occurrence? ho, not_not.mp hlatest, not_not.mp hdispatched⟩,
          by simpa using hactive, (Except.ok.inj h).symm⟩

def deferredAttempt (now : Time) (reason : GoString) (a : JobAttempt) : JobAttempt :=
  { a with state := .deferred, error := reason, finishedAt := some now }

/-- A new deadline of the occurrence. -/
def postponed (now readyAt : Time) (o : JobOccurrence) : JobOccurrence :=
  { o with readyAt := readyAt, revision := o.revision + 1, updatedAt := now }

theorem deferral_sets (h : s.Held attemptID leaseEpoch a l)
    (hactive : a.state.active = true) : ∃ before after, l.attempts = before ++ a :: after ∧
      s.Sets ((s.updateAttempts (fun r => r.id == attemptID && r.leaseEpoch == leaseEpoch && r.state.active)
          (deferredAttempt now reason)).updateOccurrences (fun r => r.id == a.occurrenceID && r.state == .dispatched)
          (postponed now readyAt)) a.occurrenceID
        ⟨postponed now readyAt l.occurrence, before ++ deferredAttempt now reason a :: after⟩ := by
  obtain ⟨hmem, hid⟩ := h.mem
  obtain ⟨before, after, hsplit, hsets⟩ := life_updateAttempts
    (p := fun r => r.id == attemptID && r.leaseEpoch == leaseEpoch && r.state.active)
    (f := deferredAttempt now reason) (fun _ => rfl) hmem (by simp [hid, h.epoch, hactive]) (by
      intro b hb
      simp only [and_eq_true, beq_iff_eq] at hb
      rw [hb.1.1, hid]) h.life
  have hself := hsets a.occurrenceID
  rw [if_pos rfl] at hself
  refine ⟨before, after, hsplit, fun j => (sets_updateOccurrences hself ?_ ?_ j).trans ?_⟩
  · simp [life_id h.life, h.dispatched]
  · intro r hr
    simp only [and_eq_true, beq_iff_eq] at hr
    exact hr.1
  · by_cases hj : j = a.occurrenceID
    · rw [if_pos hj, if_pos hj]
    · rw [if_neg hj, if_neg hj, hsets j, if_neg hj]

theorem commitAttemptDeferred_ok (h : s.commitAttemptDeferred now attemptID leaseEpoch readyAt reason = .ok s') :
    ∃ a l, s.Held attemptID leaseEpoch a l ∧ ((s' = s ∧ a.state = .deferred ∧ a.error = reason ∧ l.occurrence.readyAt = readyAt) ∨
        (a.state.active = true ∧ (∃ before after, l.attempts = before ++ a :: after ∧ s.Sets s' a.occurrenceID
            ⟨postponed now readyAt l.occurrence, before ++ deferredAttempt now reason a :: after⟩) ∧ s'.outbox = s.outbox)) := by
  unfold commitAttemptDeferred at h
  split_ifs at h with hready
  split at h
  · cases h
  · rename_i a ha
    by_cases hepoch : a.leaseEpoch = leaseEpoch
    · rw [if_neg (not_not.mpr hepoch)] at h
      split at h
      · cases h
      · rename_i o ho
        by_cases hfence : s.latestAttemptNo a.occurrenceID ≠ a.attemptNo ∨ o.state ≠ .dispatched
        · rw [if_pos hfence] at h
          cases h
        · obtain ⟨hlatest, hdispatched⟩ := not_or.mp hfence
          have hheld : s.Held attemptID leaseEpoch a ⟨o, s.attemptsOf a.occurrenceID⟩ :=
            ⟨ha, hepoch, life_of_occurrence? ho, not_not.mp hlatest, not_not.mp hdispatched⟩
          refine ⟨a, _, hheld, ?_⟩
          by_cases hdef : a.state = .deferred
          · split_ifs at h with hsame
            exact .inl ⟨(Except.ok.inj h).symm, hdef, hsame.1, hsame.2⟩
          · dsimp only at h
            split_ifs at h with hinactive hcount hcount'
            cases h
            have hactive : a.state.active = true := by simpa using hinactive
            exact .inr ⟨hactive, deferral_sets hheld hactive, rfl⟩
    · rw [if_pos hepoch] at h
      cases h

/-! ### The occurrence itself -/

theorem dispatched_of_count (h : (s.occurrences.count fun r => r.id == id && r.state == .dispatched) ≠ 0) :
    ∃ l, s.life id = some l ∧ l.occurrence.state = .dispatched := by
  obtain ⟨o, hmem, hp⟩ := countP_pos_iff.mp (Nat.pos_of_ne_zero h)
  simp only [and_eq_true, beq_iff_eq] at hp
  have hlife := life_of_occurrence? (occurrence?_of_mem hmem)
  rw [hp.1] at hlife
  exact ⟨_, hlife, hp.2⟩

theorem sets_dispatched {f hf} (hlife : s.life id = some l) (hdispatched : l.occurrence.state = .dispatched) :
    s.Sets (s.updateOccurrences (fun r => r.id == id && r.state == .dispatched) f hf) id
      { l with occurrence := f l.occurrence } := by
  refine sets_updateOccurrences hlife ?_ ?_
  · simp [life_id hlife, hdispatched]
  · intro r hr
    simp only [and_eq_true, beq_iff_eq] at hr
    exact hr.1

theorem deferOccurrence_ok (h : s.deferOccurrence now id readyAt = .ok s') :
    ∃ l, s.life id = some l ∧ s.Sets s' id { l with occurrence := postponed now readyAt l.occurrence } := by
  unfold deferOccurrence at h
  dsimp only at h
  split_ifs at h with hcount
  cases h
  obtain ⟨l, hlife, hdispatched⟩ := dispatched_of_count hcount
  exact ⟨l, hlife, sets_dispatched hlife hdispatched⟩

/-- A decision closes a dispatched occurrence. -/
def finalized (now : Time) (state : OccurrenceState) (o : JobOccurrence) : JobOccurrence :=
  { o with state := state, revision := o.revision + 1, updatedAt := now }

theorem finalizeOccurrence_ok {state : OccurrenceState} (h : s.finalizeOccurrence now id state = .ok s') :
    (state = .failed ∨ state = .cancelled) ∧ ∃ l, s.life id = some l ∧
      ((s' = s ∧ l.occurrence.state = state) ∨ (l.occurrence.state = .dispatched ∧
        s.Sets s' id { l with occurrence := finalized now state l.occurrence })) := by
  unfold finalizeOccurrence at h
  split_ifs at h with hstate
  refine ⟨by by_contra hne; exact hstate (not_or.mp hne), ?_⟩
  split at h
  · cases h
  · rename_i o ho
    have hlife := life_of_occurrence? ho
    refine ⟨_, hlife, ?_⟩
    split_ifs at h with hsame hdispatched
    · exact .inl ⟨(Except.ok.inj h).symm, hsame⟩
    · dsimp only at h
      split_ifs at h with hcount
      cases h
      exact .inr ⟨not_not.mp hdispatched, sets_dispatched hlife (not_not.mp hdispatched)⟩

/-- A cancellation closes the occurrence and starts a new cancel epoch. -/
def cancelled (now : Time) (o : JobOccurrence) : JobOccurrence :=
  { o with state := .cancelled, cancelEpoch := o.cancelEpoch + 1, revision := o.revision + 1, updatedAt := now }

theorem cancelOccurrence_ok (h : s.cancelOccurrence fmt now id reason = .ok s') :
    ∃ l, s.life id = some l ∧ (s' = s ∨
      (l.occurrence.state.terminal = false ∧ s.Sets s' id { l with occurrence := cancelled now l.occurrence })) := by
  unfold cancelOccurrence at h
  split at h
  · cases h
  · rename_i o ho
    have hlife := life_of_occurrence? ho
    refine ⟨_, hlife, ?_⟩
    split_ifs at h with hterminal
    · exact .inl (Except.ok.inj h).symm
    · dsimp only at h
      split at h
      · cases h
      · rename_i s1 hinsert
        cases h
        refine .inr ⟨eq_false_iff.mpr hterminal, fun j => ?_⟩
        rw [life_insertOutbox? hinsert]
        refine sets_updateOccurrences hlife ?_ ?_ j
        · simpa using (mem_of_occurrence? ho).2
        · intro r hr
          exact beq_iff_eq.mp hr

theorem deleteTerminalOccurrences_ok {jobID : GoString} {before : Time} {limit : Int}
    (h : s.deleteTerminalOccurrences jobID before limit = .ok s') :
    s'.life j = s.life j ∨ ∃ l, s.life j = some l ∧ l.occurrence.state.terminal = true ∧ s'.life j = none := by
  unfold deleteTerminalOccurrences at h
  split_ifs at h
  cases h
  rw [life_deleteOccurrences]
  cases hlife : s.life j with
  | none => exact .inl rfl
  | some l =>
    by_cases hp : l.occurrence.id ∈ s.prunable jobID before limit
    · obtain ⟨o, ho, hid⟩ := mem_map.mp hp
      have hmem := (mem_insertionSort _).mp (mem_of_mem_take ho)
      obtain ⟨hrow, hcondition⟩ := mem_filter.mp hmem
      simp only [and_eq_true] at hcondition
      have hsame : o = l.occurrence :=
        occurrence_eq hrow (mem_of_occurrence? (life_eq_some hlife).1).1 hid
      refine .inr ⟨l, rfl, hsame ▸ hcondition.1.2, ?_⟩
      simp [Option.filter, hp]
    · exact .inl (by simp [Option.filter, hp])

end Store

/-! ### The machine -/

/-- What a run may do: the states in which it opens occurrences, the occurrences it leases, the attempts
it settles and their new states, and whether it prunes. -/
structure Scope where
  fresh : OccurrenceState → Prop := fun _ => True
  leases : OccurrenceID → Prop := fun _ => True
  settles : AttemptID → AttemptState → Prop := fun _ _ => True
  prunes : Prop := True

inductive Life.Step (scope : Scope) : Option Life → Option Life → Prop where
  | stay (l : Option Life) : Step scope l l
  | opened (o : JobOccurrence) (hfresh : scope.fresh o.state) : Step scope none (some ⟨o, []⟩)
  | touched (l : Life) (o : JobOccurrence) (hfixed : o.fixed = l.occurrence.fixed)
      (hstate : o.state = l.occurrence.state) : Step scope (some l) (some { l with occurrence := o })
  | leased (l : Life) (o : JobOccurrence) (a : JobAttempt) (now : Time) (hleasable : l.Leasable now)
      (hfixed : o.fixed = l.occurrence.fixed) (hstate : o.state = .dispatched) (ha : a.state = .leased)
      (hno : a.attemptNo = maxAttemptNo l.attempts + 1) (hepoch : a.leaseEpoch = a.attemptNo)
      (hleases : scope.leases l.occurrence.id) : Step scope (some l) (some ⟨o, l.attempts ++ [a]⟩)
  | settled (l : Life) (o : JobOccurrence) (a a' : JobAttempt) (before after : List JobAttempt)
      (hstate : l.occurrence.state = .dispatched) (hfixed : o.fixed = l.occurrence.fixed)
      (hsplit : l.attempts = before ++ a :: after) (hlatest : maxAttemptNo l.attempts = a.attemptNo)
      (hactive : a.state.active = true) (hunique : a'.unique = a.unique) (hepoch : a'.leaseEpoch = a.leaseEpoch)
      (hterminal : a'.state.terminal = true)
      (hclose : o.state = .dispatched ∧ a'.state ≠ .completed ∨ o.state = .completed ∧ a'.state = .completed ∨
        o.state = .cancelled ∧ a'.state = .cancelled) (hsettles : scope.settles a'.id a'.state) :
      Step scope (some l) (some ⟨o, before ++ a' :: after⟩)
  | closed (l : Life) (o : JobOccurrence) (hstate : l.occurrence.state.terminal = false)
      (hfixed : o.fixed = l.occurrence.fixed) (hclose : o.state = .failed ∨ o.state = .cancelled) :
      Step scope (some l) (some { l with occurrence := o })
  | pruned (l : Life) (hterminal : l.occurrence.state.terminal = true) (hprunes : scope.prunes) :
      Step scope (some l) none

/-- The call opens, leases, settles and prunes only as `scope` allows. -/
def Transaction.Within (scope : Scope) : Transaction → Prop
  | .materializeOccurrence _ occ => scope.fresh (if occ.state = .unset then .ready else occ.state)
  | .materializeDueSchedule .. => scope.fresh .ready
  | .prepareAttemptLease _ _ occurrenceID _ _ => scope.leases occurrenceID
  | .prepareNextAttemptLease _ _ occurrenceID _ => scope.leases occurrenceID
  | .commitAttemptResult _ attemptID _ outcome _ _ => scope.settles attemptID outcome
  | .commitAttemptResultWithOutbox _ attemptID _ outcome _ _ _ _ _ => scope.settles attemptID outcome
  | .commitAttemptDeferred _ attemptID _ _ _ => scope.settles attemptID .deferred
  | .deleteTerminalOccurrences .. => scope.prunes
  | _ => True

theorem Transaction.within_any (t : Transaction) : t.Within {} := by
  cases t <;> trivial

namespace Store

variable {s s' : Store} {id : OccurrenceID} {scope : Scope}

theorem Sets.step {l' : Life} (h : s.Sets s' id l') (hlife : s.life id = some l)
    (hstep : Life.Step scope (some l) (some l')) (j : OccurrenceID) : Life.Step scope (s.life j) (s'.life j) := by
  rw [h j]
  split_ifs with hj
  · rw [hj, hlife]
    exact hstep
  · exact .stay _

theorem insertOccurrence?_step {o : JobOccurrence} (h : s.insertOccurrence? o = some s') (hfresh : scope.fresh o.state)
    : Life.Step scope (s.life j) (s'.life j) := by
  obtain ⟨hnone, hlife⟩ := life_insertOccurrence? h
  rw [hlife j]
  split_ifs with hj
  · rw [hj, hnone]
    exact .opened o hfresh
  · exact .stay _

theorem updateOccurrences_step {p f hf} (hstate : ∀ o, (f o).state = o.state) :
    Life.Step scope (s.life j) ((s.updateOccurrences p f hf).life j) := by
  rw [life_updateOccurrences]
  cases s.life j with
  | none => exact .stay _
  | some l =>
    refine .touched l _ ?_ ?_
    · split_ifs
      · exact hf l.occurrence
      · rfl
    · split_ifs
      · exact hstate l.occurrence
      · rfl

theorem prepareLease_step {a : JobAttempt} (h : s.prepareLease fmt checked now id taskID d = .ok (s', a)) (hleases : scope.leases id)
    : Life.Step scope (s.life j) (s'.life j) := by
  obtain ⟨l, hlife, hleasable, rfl, hsets⟩ := prepareLease_ok h
  refine hsets.step hlife (.leased l _ _ checked hleasable rfl rfl rfl rfl rfl ?_) j
  rw [life_id hlife]
  exact hleases

theorem commitAttempt_step {occ : OccurrenceID}

    (h : s.commitAttempt now attemptID leaseEpoch outcome result errStr = .ok (.recorded occ s'))
    (hsettles : scope.settles attemptID outcome) : Life.Step scope (s.life j) (s'.life j) := by
  obtain ⟨hout, ⟨hc, -⟩ | ⟨a, l, hheld, hactive, hc⟩⟩ := commitAttempt_ok h
  · cases hc
  · obtain ⟨rfl, rfl⟩ := Commit.recorded.inj hc
    obtain ⟨before, after, hsplit, hsets⟩ := recordResult_sets now outcome result errStr hheld
    refine hsets.step hheld.life (.settled l _ a _ before after hheld.dispatched ?_ hsplit hheld.latest hactive
      rfl rfl ?_ ?_ ?_) j
    · unfold closedBy
      split_ifs <;> rfl
    · simp [settledAttempt, AttemptState.terminal, hout]
    · show (closedBy now outcome l.occurrence).state = _ ∧ outcome ≠ _ ∨ _ ∧ outcome = _ ∨ _ ∧ outcome = _
      have hdispatched := hheld.dispatched
      cases outcome <;> simp_all [closedBy, AttemptState.result]
    · show scope.settles a.id outcome
      rw [hheld.mem.2]
      exact hsettles

theorem ok_of_map_fst {ε α β : Type*} {r : α} {x : Except ε (α × β)} (h : x.map Prod.fst = .ok r) : ∃ b, x = .ok (r, b) := by
  cases x with
  | error => cases h
  | ok p => exact ⟨p.2, congrArg Except.ok (Prod.ext (Except.ok.inj h) rfl)⟩

/-- Every transaction takes every occurrence through at most one step of its life. -/
theorem perform_life {t : Transaction} (h : s.perform fmt t = .ok s') (ht : t.Within scope) (j : OccurrenceID) :
    Life.Step scope (s.life j) (s'.life j) := by
  cases t with
  | materializeOccurrence =>
    obtain ⟨o, hok⟩ := ok_of_map_fst h
    rcases materializeOccurrence_ok hok with ⟨rfl, hinsert⟩ | ⟨rfl, -⟩
    · exact insertOccurrence?_step hinsert ht
    · exact .stay _
  | materializeDueSchedule =>
    obtain ⟨res, hok⟩ := ok_of_map_fst h
    obtain ⟨sched, s2, -, rfl, ⟨-, rfl⟩ | ⟨-, hupsert, -⟩⟩ := materializeDueSchedule_ok hok
    · simpa [advanceSchedule] using .stay _
    · rcases upsertOccurrence_eq_some hupsert with hinsert | rfl
      · simpa [advanceSchedule] using insertOccurrence?_step hinsert ht
      · rw [advanceSchedule, life_updateSchedules]
        apply updateOccurrences_step
        intro o
        rfl
  | prepareAttemptLease | prepareNextAttemptLease =>
    obtain ⟨a, hok⟩ := ok_of_map_fst h
    exact prepareLease_step hok ht
  | commitAttemptResult =>
    simp only [perform, commitAttemptResult] at h
    split at h
    · cases h
    · cases h
      exact .stay _
    · rename_i occ s1 hcommit
      cases h
      exact commitAttempt_step hcommit ht
  | commitAttemptResultWithOutbox =>
    simp only [perform, commitAttemptResultWithOutbox] at h
    split at h
    · cases h
    · cases h
      exact .stay _
    · rename_i occ s1 hcommit
      have hstep : Life.Step scope (s.life j) (s1.life j) := commitAttempt_step hcommit ht
      split_ifs at h with hevent
      · split at h
        · cases h
        · rename_i s2 hinsert
          cases h
          rw [life_insertOutbox? hinsert]
          exact hstep
      · cases h
        exact hstep
  | commitAttemptDeferred =>
    obtain ⟨a, l, hheld, ⟨rfl, -⟩ | ⟨hactive, ⟨before, after, hsplit, hsets⟩, -⟩⟩ := commitAttemptDeferred_ok h
    · exact .stay _
    · refine hsets.step hheld.life (.settled l _ a _ before after hheld.dispatched rfl hsplit hheld.latest hactive
        rfl rfl rfl (.inl ⟨hheld.dispatched, ?_⟩) ?_) j
      · simp [deferredAttempt]
      · show scope.settles a.id .deferred
        rw [hheld.mem.2]
        exact ht
  | deferOccurrence =>
    obtain ⟨l, hlife, hsets⟩ := deferOccurrence_ok h
    exact hsets.step hlife (.touched l _ rfl rfl) j
  | finalizeOccurrence =>
    obtain ⟨hstate, l, hlife, ⟨rfl, -⟩ | ⟨hdispatched, hsets⟩⟩ := finalizeOccurrence_ok h
    · exact .stay _
    · exact hsets.step hlife (.closed l _ (by rw [hdispatched]; rfl) rfl hstate) j
  | cancelOccurrence =>
    obtain ⟨l, hlife, rfl | ⟨hopen, hsets⟩⟩ := cancelOccurrence_ok h
    · exact .stay _
    · exact hsets.step hlife (.closed l _ hopen rfl (.inr rfl)) j
  | deleteTerminalOccurrences =>
    rcases deleteTerminalOccurrences_ok h with heq | ⟨l, hlife, hterminal, hnone⟩
    · rw [heq]
      exact .stay _
    · rw [hlife, hnone]
      exact .pruned l hterminal ht

theorem step_life {t : Transaction} (ht : t.Within scope) : Life.Step scope (s.life j) ((s.step fmt t).life j) := by
  unfold step
  split
  · rename_i s' h
    exact perform_life h ht j
  · exact .stay _

/-- What every step of a life preserves holds of every occurrence after any run. -/
theorem run_life {ts : List Transaction} (fmt : Formats) (scope : Scope) {P : Life → Prop} (hts : ∀ t ∈ ts, t.Within scope)
    (hstep : ∀ l l', (∀ k, l = some k → P k) → Life.Step scope l l' → ∀ k, l' = some k → P k)
    (h0 : ∀ j l, s.life j = some l → P l) : ∀ j l, (s.run fmt ts).life j = some l → P l := by
  induction ts generalizing s with
  | nil => exact h0
  | cons t ts ih =>
    refine ih (s := s.step fmt t) (fun t' ht' => hts t' (mem_cons_of_mem _ ht')) fun j l hl => ?_
    exact hstep _ _ (h0 j) (step_life (hts t mem_cons_self)) l hl

end Store

end Goultroid.Jobs
