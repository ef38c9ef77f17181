import Goultroid.Jobs.Transitions

/-!
# The attempt protocol

Over any run of the store's transactions the attempts of an occurrence are numbered in the order of
their leases, each is fenced by its own number, and only the last of them can still hold its lease
(`Life.Ordered`). If no occurrence is materialized as `dispatched` or `completed`, its state tells
whether it has attempts and how the last one ended (`Life.Sound`).

Both are invariants of one life (`Ordered.step`, `Sound.step`): a lease appends an attempt with the
next number when all others are over, a commit or a deferral settles the last one, and no other step
touches the attempts. `run_life` carries them over to every occurrence after any run.
-/

namespace Goultroid.Jobs

open Store

variable {a : JobAttempt} {attempts after before : List JobAttempt}

/-! ### The latest attempt -/

theorem le_maxAttemptNo (h : a ∈ attempts) : a.attemptNo ≤ maxAttemptNo attempts := by
  induction attempts with
  | nil => cases h
  | cons b attempts ih =>
    rcases List.mem_cons.mp h with rfl | h
    · exact le_max_left _ _
    · exact (ih h).trans (le_max_right _ _)

theorem maxAttemptNo_le {n : Nat} (h : ∀ a ∈ attempts, a.attemptNo ≤ n) : maxAttemptNo attempts ≤ n := by
  induction attempts with
  | nil => exact Nat.zero_le n
  | cons b attempts ih =>
    exact max_le (h b List.mem_cons_self) (ih fun a ha => h a (List.mem_cons_of_mem _ ha))

def Numbered (attempts : List JobAttempt) : Prop :=
  attempts.map JobAttempt.attemptNo = List.range' 1 attempts.length

namespace Numbered

theorem mem (h : Numbered attempts) (ha : a ∈ attempts) : 1 ≤ a.attemptNo ∧ a.attemptNo ≤ attempts.length := by
  have hmem : a.attemptNo ∈ List.range' 1 attempts.length := h ▸ List.mem_map_of_mem ha
  rw [List.mem_range'_1] at hmem
  omega

theorem of_concat (h : Numbered (attempts ++ [a])) : Numbered attempts ∧ a.attemptNo = attempts.length + 1 := by
  unfold Numbered at h
  rw [List.map_append, List.length_append, List.length_singleton, List.range'_concat, List.map_singleton] at h
  obtain ⟨hinit, hlast⟩ := List.append_inj' h rfl
  refine ⟨hinit, ?_⟩
  have := List.singleton_injective hlast
  omega

theorem concat (h : Numbered attempts) (hno : a.attemptNo = attempts.length + 1) : Numbered (attempts ++ [a]) := by
  unfold Numbered at h ⊢
  rw [List.map_append, List.length_append, List.length_singleton, List.range'_concat, h, List.map_singleton, hno]
  congr 2
  omega

theorem maxAttemptNo_eq (h : Numbered attempts) : maxAttemptNo attempts = attempts.length := by
  rcases List.eq_nil_or_concat attempts with rfl | ⟨init, a, rfl⟩
  · rfl
  · rw [List.concat_eq_append] at h ⊢
    apply le_antisymm
    · exact maxAttemptNo_le fun b hb => (h.mem hb).2
    · have hlast := (of_concat h).2
      have hle : a.attemptNo ≤ maxAttemptNo (init ++ [a]) := le_maxAttemptNo (by simp)
      simp only [List.length_append, List.length_singleton]
      omega

theorem latestOf_eq (h : Numbered attempts) : latestOf attempts = attempts.getLast? := by
  rcases List.eq_nil_or_concat attempts with rfl | ⟨init, a, rfl⟩
  · rfl
  · rw [List.concat_eq_append] at h ⊢
    obtain ⟨hinit, hlast⟩ := of_concat h
    have hnone : init.find? (fun b => b.attemptNo == maxAttemptNo (init ++ [a])) = none := by
      rw [List.find?_eq_none]
      intro b hb heq
      have hb := hinit.mem hb
      rw [maxAttemptNo_eq h, beq_iff_eq, List.length_append, List.length_singleton] at heq
      omega
    rw [latestOf, List.find?_append, hnone, maxAttemptNo_eq h]
    simp [hlast]

theorem after_eq_nil (h : Numbered (before ++ a :: after)) (hlatest : maxAttemptNo (before ++ a :: after) = a.attemptNo) : after = [] := by
  have hget : ((before ++ a :: after).map JobAttempt.attemptNo)[before.length]? = some a.attemptNo := by simp
  rw [h, List.getElem?_range' (by simp)] at hget
  rw [maxAttemptNo_eq h, ← Option.some.inj hget] at hlatest
  simp only [List.length_append, List.length_cons] at hlatest
  apply List.eq_nil_of_length_eq_zero
  omega

end Numbered

/-! ### Ordered lives -/

/-- The attempts are numbered, fenced by their numbers, and all but the last are over. -/
structure Life.Ordered (l : Life) : Prop where
  numbered : Numbered l.attempts
  epochs : ∀ a ∈ l.attempts, a.leaseEpoch = a.attemptNo
  past : ∀ a ∈ l.attempts.dropLast, a.state.active = false

namespace Life

variable {l : Life} {now : Time} {o : JobOccurrence} {scope : Scope} {l' : Option Life}

theorem Leasable.last (h : l.Leasable now) (hl : l.Ordered) : l.occurrence.state = .ready ∧ l.attempts = [] ∨
      l.occurrence.state = .dispatched ∧ ∃ init a, l.attempts = init ++ [a] ∧ a.state.terminal = true := by
  obtain ⟨-, ⟨hstate, hzero⟩ | ⟨hstate, a, ha, hterminal⟩⟩ := h
  · rw [hl.numbered.maxAttemptNo_eq] at hzero
    exact .inl ⟨hstate, List.eq_nil_of_length_eq_zero hzero⟩
  · rw [hl.numbered.latestOf_eq, List.getLast?_eq_some_iff] at ha
    obtain ⟨init, heq⟩ := ha
    exact .inr ⟨hstate, init, a, heq, hterminal⟩

theorem Ordered.lease (hl : l.Ordered) (h : l.Leasable now)
    (hno : a.attemptNo = maxAttemptNo l.attempts + 1) (hepoch : a.leaseEpoch = a.attemptNo) :
    Ordered ⟨o, l.attempts ++ [a]⟩ where
  numbered := hl.numbered.concat (by rw [hno, hl.numbered.maxAttemptNo_eq])
  epochs := by
    intro b hb
    rcases List.mem_append.mp hb with hb | hb
    · exact hl.epochs b hb
    · rw [List.mem_singleton.mp hb]
      exact hepoch
  past := by
    intro b hb
    rw [List.dropLast_concat] at hb
    rcases h.last hl with ⟨-, hnil⟩ | ⟨-, init, c, heq, hterminal⟩
    · rw [hnil] at hb
      cases hb
    · rw [heq] at hb
      rcases List.mem_append.mp hb with hb | hb
      · exact hl.past b (by simpa [heq] using hb)
      · rw [List.mem_singleton.mp hb]
        exact AttemptState.active_of_terminal hterminal

theorem Ordered.settle {a' : JobAttempt} (hl : l.Ordered)
    (hsplit : l.attempts = before ++ a :: after) (hlatest : maxAttemptNo l.attempts = a.attemptNo)
    (huniq : a'.unique = a.unique) (hepoch : a'.leaseEpoch = a.leaseEpoch) : after = [] ∧ Ordered ⟨o, before ++ a' :: after⟩ := by
  have hnum := hl.numbered
  rw [hsplit] at hnum hlatest
  obtain rfl := hnum.after_eq_nil hlatest
  have hno : a'.attemptNo = a.attemptNo := congrArg (·.2.2.2) huniq
  refine ⟨rfl, ?_, ?_, ?_⟩
  · unfold Numbered at hnum ⊢
    simpa [hno] using hnum
  · intro b hb
    rcases List.mem_append.mp hb with hb | hb
    · exact hl.epochs b (by rw [hsplit]; exact List.mem_append_left _ hb)
    · rw [List.mem_singleton.mp hb, hepoch, hno]
      exact hl.epochs a (by simp [hsplit])
  · intro b hb
    exact hl.past b (by simpa [hsplit] using hb)

/-- Every step keeps the order of the attempts, in whatever state occurrences are opened. -/
theorem Ordered.step {l : Option Life} (h : ∀ k, l = some k → k.Ordered) (hstep : Step scope l l') : ∀ k, l' = some k → k.Ordered := by
  intro k hk
  cases hstep with
  | stay => exact h k hk
  | opened =>
    cases hk
    exact ⟨rfl, by simp, by simp⟩
  | touched l | closed l =>
    cases hk
    obtain ⟨hnum, hepochs, hover⟩ := h l rfl
    exact ⟨hnum, hepochs, hover⟩
  | leased l o a now hleases hfixed hstate ha hno hepoch =>
    cases hk
    exact (h l rfl).lease hleases hno hepoch
  | settled l o a a' _ _ hstate hfixed hsplit hlatest _ huniq hepoch =>
    cases hk
    exact ((h l rfl).settle hsplit hlatest huniq hepoch).2
  | pruned => cases hk

/-- The state of an occurrence tells whether it has attempts and how the last one ended. -/
structure Sound (l : Life) : Prop extends Ordered l where
  ready : l.occurrence.state = .ready → l.attempts = []
  dispatched : l.occurrence.state = .dispatched → l.attempts ≠ []
  completed : l.occurrence.state = .completed → ∃ a, l.attempts.getLast? = some a ∧ a.state = .completed

/-- Every step keeps the protocol, if no occurrence is opened as `dispatched` or `completed`. -/
theorem Sound.step {l : Option Life} (hfresh : ∀ state, scope.fresh state → state ≠ .dispatched ∧ state ≠ .completed)
    (h : ∀ k, l = some k → k.Sound) (hstep : Step scope l l') : ∀ k, l' = some k → k.Sound := by
  have hordered := Ordered.step (fun k hk => (h k hk).toOrdered) hstep
  intro k hk
  have hk_ordered := hordered k hk
  cases hstep with
  | stay => exact h k hk
  | opened o ho =>
    cases hk
    obtain ⟨hdispatched, hcompleted⟩ := hfresh _ ho
    exact ⟨hk_ordered, fun _ => rfl, fun hstate => absurd hstate hdispatched, fun hstate => absurd hstate hcompleted⟩
  | touched l o hfixed hsame =>
    cases hk
    have hl := h l rfl
    exact ⟨hk_ordered, fun hstate => hl.ready (hsame.symm.trans hstate),
      fun hstate => hl.dispatched (hsame.symm.trans hstate), fun hstate => hl.completed (hsame.symm.trans hstate)⟩
  | leased l o a now _ hfixed hdispatched =>
    cases hk
    refine ⟨hk_ordered, ?_, ?_, ?_⟩ <;> simp [hdispatched]
  | settled l o a a' _ _ hstate hfixed hsplit hlatest _ huniq hepoch _ hclose =>
    cases hk
    obtain ⟨rfl, -⟩ := (h l rfl).toOrdered.settle (o := o) hsplit hlatest huniq hepoch
    refine ⟨hk_ordered, ?_, by simp, ?_⟩
    · intro hready
      have hready : o.state = .ready := hready
      simp [hready] at hclose
    · intro hcompleted
      have hcompleted : o.state = .completed := hcompleted
      simpa [hcompleted] using hclose
  | closed l o hstate hfixed hclose =>
    cases hk
    refine ⟨hk_ordered, ?_, ?_, ?_⟩ <;> rcases hclose with hclose | hclose <;> simp [hclose]
  | pruned => cases hk

theorem Ordered.active_last (hl : l.Ordered) (ha : a ∈ l.attempts) (hact : a.state.active = true) : l.attempts.getLast? = some a := by
  rcases List.eq_nil_or_concat l.attempts with hnil | ⟨init, b, heq⟩
  · rw [hnil] at ha
    cases ha
  · rw [List.concat_eq_append] at heq
    rw [heq] at ha ⊢
    rcases List.mem_append.mp ha with ha | ha
    · have hover := hl.past a (by simpa [heq] using ha)
      rw [hact] at hover
      cases hover
    · simp [List.mem_singleton.mp ha]

theorem Ordered.active_le_one (hl : l.Ordered) : (l.attempts.filter (·.state.active)).length ≤ 1 := by
  rcases List.eq_nil_or_concat l.attempts with hnil | ⟨init, b, heq⟩
  · simp [hnil]
  · rw [List.concat_eq_append] at heq
    have hinit : init.filter (·.state.active) = [] := by
      rw [List.filter_eq_nil_iff]
      intro a ha
      simpa using hl.past a (by simpa [heq] using ha)
    rw [heq, List.filter_append, hinit, List.nil_append]
    exact List.length_filter_le _ [b]

theorem Ordered.le_last {b : JobAttempt} (hl : l.Ordered) (ha : l.attempts.getLast? = some a) (hb : b ∈ l.attempts) :
    b.attemptNo ≤ a.attemptNo := by
  obtain ⟨_, heq⟩ := List.getLast?_eq_some_iff.mp ha
  have hlast := (Numbered.of_concat (heq ▸ hl.numbered)).2
  have hle := (hl.numbered.mem hb).2
  rw [heq] at hle
  simp only [List.length_append, List.length_singleton] at hle
  omega

/-! ### Lives only grow -/

section Growth

open List

/-- Every attempt keeps its place, and its row once it is over. -/
structure Extends (l l' : Life) : Prop where
  fixed : l'.occurrence.fixed = l.occurrence.fixed
  attempts : ∀ (k : Nat) (a : JobAttempt), l.attempts[k]? = some a →
    ∃ a', l'.attempts[k]? = some a' ∧ a'.unique = a.unique ∧ (a.state.active = false → a' = a)

theorem Extends.refl (l : Life) : l.Extends l := ⟨rfl, fun _ a ha => ⟨a, ha, rfl, fun _ => rfl⟩⟩

theorem Step.extends {l' : Life} (h : Step scope (some l) (some l')) : l.Extends l' := by
  cases h with
  | stay => exact .refl l
  | touched _ o hfixed | closed _ o hstate hfixed => exact ⟨hfixed, (Extends.refl l).attempts⟩
  | leased _ o a now _ hfixed =>
    refine ⟨hfixed, fun k b hb => ⟨b, ?_, rfl, fun _ => rfl⟩⟩
    rw [List.getElem?_append_left (List.getElem?_eq_some_iff.mp hb).1]
    exact hb
  | settled _ o a a' before _ hstate hfixed hsplit _ hact huniq =>
    refine ⟨hfixed, fun k b hb => ?_⟩
    rw [hsplit] at hb
    rcases lt_trichotomy k before.length with hk | rfl | hk
    · rw [getElem?_append_left hk] at hb
      exact ⟨b, by rw [getElem?_append_left hk]; exact hb, rfl, fun _ => rfl⟩
    · refine ⟨a', by simp, ?_⟩
      obtain rfl : a = b := by simpa using hb
      refine ⟨huniq, fun hover => ?_⟩
      rw [hact] at hover
      cases hover
    · refine ⟨b, ?_, rfl, fun _ => rfl⟩
      have hk' : k - before.length ≠ 0 := by omega
      obtain ⟨j, hj⟩ := Nat.exists_eq_succ_of_ne_zero hk'
      rw [getElem?_append_right (by omega), hj] at hb ⊢
      exact hb

/-- A life that no step has opened was there before. -/
theorem Step.source {l' : Life} {k : Option Life} (h : Step scope k (some l')) (hfresh : ∀ state, ¬ scope.fresh state) :
    ∃ l, k = some l ∧ Step scope (some l) (some l') := by
  cases k with
  | some l => exact ⟨l, rfl, h⟩
  | none =>
    cases h with
    | opened o ho => exact absurd ho (hfresh _)

theorem Step.absorbed (h : Step scope (some l) l') (hterminal : l.occurrence.state.terminal = true) :
    (scope.prunes ∧ l' = none) ∨ ∃ o, l' = some { l with occurrence := o } ∧ o.state = l.occurrence.state := by
  cases h with
  | stay => exact .inr ⟨l.occurrence, rfl, rfl⟩
  | touched _ o _ hstate => exact .inr ⟨o, rfl, hstate⟩
  | leased _ o a now hleases =>
    obtain ⟨-, ⟨hstate, -⟩ | ⟨hstate, -⟩⟩ := hleases <;> simp [hstate, OccurrenceState.terminal] at hterminal
  | settled _ o a a' _ _ hstate => simp [hstate, OccurrenceState.terminal] at hterminal
  | closed _ o hopen => simp [hopen] at hterminal
  | pruned _ _ hprunes => exact .inl ⟨hprunes, rfl⟩

end Growth

end Life

/-! ### Runs from an empty store -/

namespace Store

variable {s₀ : Store}

theorem Blank.life (h : s₀.Blank) (j : OccurrenceID) : s₀.life j = none := by
  simp [Store.life, occurrence?, h.occurrences]

/-- A store with some job definitions and nothing else. -/
def ofDefinitions (definitions : List GoString) : Store where
  definitions := definitions
  schedules := .empty
  occurrences := .empty
  attempts := .empty
  outbox := .empty
  schedules_job := by simp [Table.empty]
  occurrences_job := by simp [Table.empty]
  occurrences_schedule := by simp [Table.empty]
  attempts_occurrence := by simp [Table.empty]

theorem blank_ofDefinitions (definitions : List GoString) : (ofDefinitions definitions).Blank := ⟨rfl, rfl, rfl⟩

end Store

/-- Whatever the transactions are called with, from a store without occurrences, as long as none
materializes an occurrence as `dispatched` or `completed`: the attempts of every occurrence are numbered
from 1 without gaps and fenced by their numbers, at most one of them is active and it is the highest,
a ready occurrence has none, a dispatched one has some, and the highest attempt of a completed one is
completed. -/
theorem attempts_follow_protocol (fmt : Formats) (s₀ : Store) (h₀ : s₀.Blank) (ts : List Transaction)
    (hts : ∀ now occ, .materializeOccurrence now occ ∈ ts → occ.state ≠ .dispatched ∧ occ.state ≠ .completed) :
    ∀ o ∈ (s₀.run fmt ts).occurrences.rows, ∀ attempts, attempts = (s₀.run fmt ts).attemptsOf o.id →
      attempts.map JobAttempt.attemptNo = List.range' 1 attempts.length ∧ (∀ a ∈ attempts, a.leaseEpoch = a.attemptNo) ∧
      (attempts.filter (·.state.active)).length ≤ 1 ∧ (∀ a ∈ attempts, a.state.active = true → ∀ b ∈ attempts, b.attemptNo ≤ a.attemptNo) ∧
      (o.state = .ready → attempts = []) ∧ (o.state = .dispatched → attempts ≠ []) ∧ (o.state = .completed →
        ∃ a ∈ attempts, a.state = .completed ∧ ∀ b ∈ attempts, b.attemptNo ≤ a.attemptNo) := by
  intro o ho attempts hattempts
  subst hattempts
  have hopens : ∀ t ∈ ts, t.Within { fresh := fun state => state ≠ .dispatched ∧ state ≠ .completed } := by
    intro t ht
    cases t with
    | materializeOccurrence now occ =>
      show (if occ.state = .unset then OccurrenceState.ready else occ.state) ≠ _ ∧ _
      split_ifs
      · simp
      · exact hts now occ ht
    | materializeDueSchedule => exact ⟨by simp, by simp⟩
    | _ => trivial
  have hsound := run_life fmt _ hopens
    (fun _ _ hl hstep => Life.Sound.step (fun _ h => h) hl hstep)
    (fun j l hl => by rw [h₀.life] at hl; cases hl) o.id _ (life_of_occurrence? (occurrence?_of_mem ho))
  refine ⟨hsound.numbered, hsound.epochs, hsound.active_le_one, ?_, hsound.ready, hsound.dispatched, ?_⟩
  · intro a ha hact b hb
    exact hsound.le_last (hsound.active_last ha hact) hb
  · intro hcompleted
    obtain ⟨a, ha, hstate⟩ := hsound.completed hcompleted
    exact ⟨a, List.mem_of_getLast? ha, hstate, fun b hb => hsound.le_last ha hb⟩

/-- Decimal times and unquoted texts. -/
def plainFormats : Formats := ⟨Text.decimalInt, Text.decimalInt, id⟩

/-- An occurrence whose first attempt fails and whose second completes. -/
def retriedRun : List Transaction :=
  let job := goString "job"
  let occ := goString "occ"
  let attempt (no : Nat) := goString "attempt:occ:" ++ Text.decimal no
  [.materializeOccurrence 10 { id := occ, jobID := job, occurrenceKey := goString "key" },
   .prepareNextAttemptLease 10 10 occ 60,
   .commitAttemptResult 20 (attempt 1) 1 .failed [] (goString "boom"),
   .prepareNextAttemptLease 20 20 occ 60,
   .commitAttemptResult 30 (attempt 2) 2 .completed [] []]

theorem attempts_follow_protocol_retried :
    let s := (Store.ofDefinitions [goString "job"]).run plainFormats retriedRun
    (s.occurrences.rows.map fun o => (o.state, (s.attemptsOf o.id).map JobAttempt.state)) =
        [(.completed, [.failed, .completed])] ∧
      ∀ o ∈ s.occurrences.rows, ∀ attempts, attempts = s.attemptsOf o.id →
        attempts.map JobAttempt.attemptNo = List.range' 1 attempts.length ∧
        (∀ a ∈ attempts, a.leaseEpoch = a.attemptNo) ∧
        (attempts.filter (·.state.active)).length ≤ 1 ∧
        (∀ a ∈ attempts, a.state.active = true → ∀ b ∈ attempts, b.attemptNo ≤ a.attemptNo) ∧
        (o.state = .ready → attempts = []) ∧
        (o.state = .dispatched → attempts ≠ []) ∧
        (o.state = .completed →
          ∃ a ∈ attempts, a.state = .completed ∧ ∀ b ∈ attempts, b.attemptNo ≤ a.attemptNo) := by
  refine ⟨by decide +kernel, attempts_follow_protocol plainFormats _ (blank_ofDefinitions _) retriedRun ?_⟩
  intro now occ hmem
  simp only [retriedRun, List.mem_cons, List.not_mem_nil, reduceCtorEq, or_false,
    Transaction.materializeOccurrence.injEq] at hmem
  rw [hmem.2]
  decide

/-- `MaterializeOccurrence` stores the state it is passed: a dispatched and a completed occurrence
without any attempt. -/
theorem materialized_without_attempt :
    let s₀ := Store.ofDefinitions [goString "job"]
    let opened (state : OccurrenceState) : Transaction := .materializeOccurrence 10
      { id := state.text, jobID := goString "job", occurrenceKey := state.text, state := state }
    let s := s₀.run plainFormats [opened .dispatched, opened .completed]
    s₀.Blank ∧ s.occurrences.rows.map JobOccurrence.state = [.dispatched, .completed] ∧
      ∀ o ∈ s.occurrences.rows, s.attemptsOf o.id = [] :=
  ⟨blank_ofDefinitions _, by decide +kernel, by decide +kernel⟩

end Goultroid.Jobs
