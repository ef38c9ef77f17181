import Goultroid.Jobs.Snapshots

/-!
# What a recovery pass can resolve

`Recover` (`internal/jobs/manager_recovery.go`) reads one page of dispatched occurrences and decides about
each of them on its own. An occurrence is recoverable if a further attempt is owed to it; a pass resolves
it if the scan can list it, finds it driveable or spent, and the ids of its next attempt are not taken.

The page is the beginning of the dispatched rows in the order of the scan, so a row is on it if fewer rows
than its limit come before (`Store.mem_unresolved`). `recoverable`, `givenUp` and `resolves` are
conditions on the row and its attempts; `Env.resolves_iff` compares them with what the scan finds, along
the tests that it makes.
-/

namespace Goultroid.Jobs

open List Option Table
open Text (append_cut colon_notMem_decimal decimal)

variable {state : OccurrenceState} {i j : OccurrenceID} {k n : Nat} {c : RecoveryCandidate} {now : Time} {definition : JobDefinition}
  {l : Life}

/-! ### The ids of the next attempt -/

def canonicalAttemptID (id : OccurrenceID) (no : Nat) : AttemptID :=
  goString "attempt:" ++ id ++ goString ":" ++ decimal no

/-- The next attempt of the occurrence follows a numbered one, and no row has its ids. -/
def Store.nextFree (s : Store) (id : OccurrenceID) : Bool :=
  s.latestAttemptNo id != 0 && s.attempts.rows.all fun a =>
    a.id != canonicalAttemptID id (s.latestAttemptNo id + 1) &&
      a.taskID != Store.leaseTaskID id (s.latestAttemptNo id + 1) none

theorem goString_colon : goString ":" = [0x3A] := by decide

theorem canonicalAttemptID_inj (h : canonicalAttemptID i n = canonicalAttemptID j k) : i = j := by
  have heq : goString "attempt:" ++ i = goString "attempt:" ++ j :=
    (append_cut (colon_notMem_decimal n) (colon_notMem_decimal k) (by simpa [canonicalAttemptID, goString_colon] using h)).1
  exact append_cancel_left heq

theorem leaseTaskID_inj (h : Store.leaseTaskID i n none = Store.leaseTaskID j k none) : i = j := by
  have heq : goString "task:" ++ i = goString "task:" ++ j :=
    (append_cut (colon_notMem_decimal n) (colon_notMem_decimal k) (by simpa [Store.leaseTaskID, goString_colon] using h)).1
  exact append_cancel_left heq

/-! ### The scan -/

/-- What the scan reads of an occurrence. -/
def Life.candidate? (l : Life) : Option RecoveryCandidate :=
  (latestOf l.attempts).map fun latest => {
    occurrence := l.occurrence
    summary := {
      occurrenceState := l.occurrence.state
      readyAt := l.occurrence.readyAt
      latest := latest
      attemptCount := l.attempts.length
      retryBudgetUses := budgetUses l.attempts
      deferrals := deferralsIn l.attempts } }

namespace Env

variable (env : Env) (now : Time) (m : Manager) (l : Life)

/-- An attempt is owed: the occurrence is due and open, nobody watches it, its job can run, and it has no
attempt or its latest one is over. -/
def recoverable : Bool :=
  decide (l.occurrence.readyAt ≤ now) && (m.tracked.lookup l.occurrence.id).isNone &&
    !l.occurrence.state.terminal && (env.driveable? l.occurrence.jobID).isSome &&
    (latestOf l.attempts).all (·.state.terminal)

/-- No further attempt is made after the latest one: its result says not to retry, or the deferrals or the budget of the
job are used up. -/
def givenUp (latest : JobAttempt) : Bool :=
  (env.refusal? latest).isSome || (env.driveable? l.occurrence.jobID).any fun definition =>
    (latest.state == .deferred && decide (maxDeferrals definition.retryPolicy ≤ deferralsIn l.attempts)) ||
      decide (maxAttempts definition.retryPolicy ≤ budgetUses l.attempts)

/-- A pass that lists the occurrence resolves it: it is owed an attempt, dispatched and has an attempt already, and it is
given up or the ids of its next attempt are free. -/
def resolves : Bool :=
  env.recoverable now m l && l.occurrence.state == .dispatched &&
    (latestOf l.attempts).any fun latest => env.givenUp l latest || m.store.nextFree l.occurrence.id

/-- The dispatched occurrences that come before `o` in the scan and that no pass resolves. -/
def blockers (o : JobOccurrence) : Nat :=
  m.store.occurrences.rows.countP fun o' => o'.state == .dispatched && decide (Store.Before o' o) && o'.id != o.id &&
    !env.resolves now m ⟨o', m.store.attemptsOf o'.id⟩

end Env

section Scan

variable {s : Store} {id : OccurrenceID} {limit : Int}

theorem Life.candidate?_eq_some (h : l.candidate? = some c) : c.occurrence = l.occurrence ∧ c.summary.occurrenceState = l.occurrence.state ∧
      latestOf l.attempts = some c.summary.latest := by
  obtain ⟨latest, hlatest, rfl⟩ := map_eq_some_iff.mp h
  exact ⟨rfl, rfl, hlatest⟩

theorem Store.attemptSummary_life (h : s.life id = some l) :
    (s.attemptSummary id).map (RecoveryCandidate.mk l.occurrence) = l.candidate? := by
  obtain ⟨ho, hattempts⟩ := life_eq_some h
  rw [Life.candidate?, hattempts, attemptSummary, ho]
  cases hlatest : s.latestAttempt id with
  | none => simp [show latestOf (s.attemptsOf id) = none from hlatest]
  | some latest => simp [show latestOf (s.attemptsOf id) = some latest from hlatest, countAttempts,
      countRetryBudgetUses, countDeferrals, budgetUses, deferralsIn]

instance : Std.Total Store.Before :=
  ⟨fun o o' => by
    rcases lt_trichotomy o.readyAt o'.readyAt with h | h | h
    · exact .inl (.inl h)
    · exact (List.le_total o.id o'.id).imp (fun hid => .inr ⟨h, hid⟩) fun hid => .inr ⟨h.symm, hid⟩
    · exact .inr (.inl h)⟩

instance : IsTrans JobOccurrence Store.Before :=
  ⟨fun o o' o'' h h' => by
    rcases h with h | ⟨h, hid⟩ <;> rcases h' with h' | ⟨h', hid'⟩
    · exact .inl (h.trans h')
    · exact .inl (h'.symm ▸ h)
    · exact .inl (h ▸ h')
    · exact .inr ⟨h.trans h', List.le_trans hid hid'⟩⟩

theorem Store.nodup_occurrences (s : Store) : s.occurrences.rows.Nodup :=
  s.occurrences.apart.imp fun hne heq => hne (.inl (congrArg JobOccurrence.id heq))

/-- The page holds the dispatched rows with fewer dispatched rows before them than its limit. -/
theorem Store.mem_unresolved {o : JobOccurrence} : o ∈ s.unresolved limit ↔
    (o ∈ s.occurrences.rows ∧ o.state = .dispatched) ∧ s.occurrences.rows.countP (fun o' => o'.state == .dispatched &&
      decide (Before o' o ∧ o' ≠ o)) < recoveryLimit limit := by
  unfold unresolved
  by_cases ho : o ∈ s.occurrences.rows
  · rw [mem_take_insertionSort (s.nodup_occurrences.filter _), countP_filter]
    · simp [ho, Bool.and_comm]
    · rintro o' ho' (hlt | ⟨hready, hid⟩) (hlt' | ⟨hready', hid'⟩)
      · exact absurd (hlt.trans hlt') (lt_irrefl _)
      · exact absurd (hready' ▸ hlt) (lt_irrefl _)
      · exact absurd (hready ▸ hlt') (lt_irrefl _)
      · exact occurrence_eq (List.mem_of_mem_filter ho') ho (List.le_antisymm hid' hid)
  · refine ⟨fun h => absurd ?_ ho, fun h => absurd h.1.1 ho⟩
    have hmem := (perm_insertionSort _ _).mem_iff.mp (mem_of_mem_take h)
    exact mem_of_mem_filter hmem

theorem Store.mem_listRecoveryCandidates : c ∈ s.listRecoveryCandidates limit ↔
    ∃ l, s.life c.occurrence.id = some l ∧ l.candidate? = some c ∧ l.occurrence ∈ s.unresolved limit := by
  unfold listRecoveryCandidates
  rw [mem_filterMap]
  constructor
  · rintro ⟨o, ho, hc⟩
    have hlife := life_of_occurrence? (occurrence?_of_mem (mem_unresolved.mp ho).1.1)
    rw [attemptSummary_life hlife] at hc
    have hocc := (Life.candidate?_eq_some hc).1
    exact ⟨_, by rw [hocc]; exact hlife, hc, ho⟩
  · rintro ⟨l, hlife, hc, ho⟩
    refine ⟨l.occurrence, ho, ?_⟩
    rw [life_id hlife, attemptSummary_life hlife, hc]

theorem Store.nodup_listRecoveryCandidates (s : Store) (limit : Int) : ((s.listRecoveryCandidates limit).map (·.occurrence.id)).Nodup := by
  have hpage : (s.unresolved limit).Pairwise fun o o' => o.id ≠ o'.id := by
    refine List.Pairwise.sublist (take_sublist _ _) ?_
    refine (perm_insertionSort Before _).symm.pairwise ?_ fun {o o'} h heq => h heq.symm
    exact (s.occurrences.apart.imp fun {o o'} hne heq => hne (.inl heq)).filter _
  refine pairwise_map.mpr (List.Pairwise.filterMap _ ?_ hpage)
  intro o o' hne c hc c' hc'
  obtain ⟨x, -, rfl⟩ := map_eq_some_iff.mp hc
  obtain ⟨x', -, rfl⟩ := map_eq_some_iff.mp hc'
  exact hne

end Scan

/-! ### Decisions -/

section Decisions

variable {env : Env} {tracked : Bool} {m : Manager}

/-- Once an occurrence is due, the clock does not change what is found. -/
theorem Env.finding_of_due {t : Time} (hdue : c.occurrence.readyAt ≤ now) (hle : now ≤ t) :
    env.finding t tracked c = env.finding now tracked c := by
  simp only [finding, not_lt.mpr hdue, not_lt.mpr (hdue.trans hle), if_false]

theorem Env.judge_acts {summary : AttemptSummary} (h : env.judge definition summary ≠ .stale) :
    summary.occurrenceState = .dispatched ∧ summary.latest.state.terminal = true := by
  unfold judge at h
  by_cases hstate : summary.occurrenceState ≠ .dispatched
  · simp [hstate] at h
  · by_cases hterminal : summary.latest.state.terminal = false
    · simp [hterminal] at h
    · exact ⟨not_not.mp hstate, by simpa using hterminal⟩

theorem Env.finding_acts (hdefer : env.finding now tracked c ≠ .deferred) (hstale : env.finding now tracked c ≠ .stale)
    (horphaned : env.finding now tracked c ≠ .orphaned) :
    c.occurrence.readyAt ≤ now ∧ tracked = false ∧ (env.driveable? c.occurrence.jobID).isSome = true ∧
      c.summary.occurrenceState = .dispatched ∧ c.summary.latest.state.terminal = true := by
  unfold finding at hdefer hstale horphaned
  by_cases hdue : now < c.occurrence.readyAt
  · simp [hdue] at hdefer
  · by_cases htracked : tracked = true
    · simp [hdue, htracked] at hstale
    · cases hdef : env.driveable? c.occurrence.jobID with
      | none => simp [hdue, htracked, hdef] at horphaned
      | some =>
        rw [if_neg hdue, if_neg htracked, hdef] at hstale
        exact ⟨not_lt.mp hdue, by simpa using htracked, rfl, judge_acts hstale⟩

theorem Env.finding_finalize {ground : Ground}
    (h : env.finding now tracked c = .finalize state ground) : state = .failed ∨ state = .cancelled := by
  obtain ⟨_, -, hjudge⟩ := finding_judge h (by simp)
  unfold judge at hjudge
  split_ifs at hjudge
  split at hjudge
  · obtain ⟨rfl, -⟩ := Finding.finalize.inj hjudge
    unfold occurrenceStateForSemantics
    split_ifs
    · exact .inr rfl
    · exact .inl rfl
  · unfold withinLimits at hjudge
    split_ifs at hjudge
    iterate 2
      · exact .inl (Finding.finalize.inj hjudge).1.symm

theorem Env.recoverable_of_finding (hc : l.candidate? = some c)
    (hfin : (∃ state ground, env.finding now (m.tracked.lookup l.occurrence.id).isSome c = .finalize state ground) ∨
      ∃ definition, env.finding now (m.tracked.lookup l.occurrence.id).isSome c = .drive definition) :
    env.recoverable now m l = true ∧ l.occurrence.state = .dispatched := by
  obtain ⟨hocc, hstate, hlatest⟩ := Life.candidate?_eq_some hc
  obtain ⟨hdue, htracked, hjob, hdispatched, hterminal⟩ : c.occurrence.readyAt ≤ now ∧
      (m.tracked.lookup l.occurrence.id).isSome = false ∧ (env.driveable? c.occurrence.jobID).isSome = true ∧
      c.summary.occurrenceState = .dispatched ∧ c.summary.latest.state.terminal = true := by
    rcases hfin with ⟨state, ground, hfin⟩ | ⟨definition, hfin⟩ <;>
      exact finding_acts (by simp [hfin]) (by simp [hfin]) (by simp [hfin])
  have hstate : l.occurrence.state = .dispatched := hstate.symm.trans hdispatched
  refine ⟨?_, hstate⟩
  have huntracked : m.tracked.lookup l.occurrence.id = none := by simpa using htracked
  rw [hocc] at hdue hjob
  simp [recoverable, hdue, huntracked, hstate, hjob, hlatest, hterminal, OccurrenceState.terminal]

/-- An occurrence that an attempt is owed to is given up or driven. -/
theorem Env.finding_of_recoverable (hrec : env.recoverable now m l = true) (hdispatched : l.occurrence.state = .dispatched)
    (hc : l.candidate? = some c) : if env.givenUp l c.summary.latest then
      ∃ state ground, env.finding now (m.tracked.lookup l.occurrence.id).isSome c = .finalize state ground
    else ∃ definition, env.finding now (m.tracked.lookup l.occurrence.id).isSome c = .drive definition := by
  obtain ⟨latest, hlatest, rfl⟩ := map_eq_some_iff.mp hc
  simp only [recoverable, Bool.and_eq_true, decide_eq_true_eq, isNone_iff_eq_none, isSome_iff_exists, hlatest, all_some] at hrec
  obtain ⟨⟨⟨⟨hdue, huntracked⟩, -⟩, definition, hjob⟩, hterminal⟩ := hrec
  have hjudge (summary : AttemptSummary) :
      env.finding now (m.tracked.lookup l.occurrence.id).isSome ⟨l.occurrence, summary⟩ = env.judge definition summary := by
    rw [finding, if_neg (not_lt.mpr hdue), huntracked, hjob]
    rfl
  cases hrefusal : env.refusal? latest with
  | some semantics =>
    rw [if_pos (by simp [givenUp, hrefusal])]
    refine ⟨occurrenceStateForSemantics semantics, .semantics, ?_⟩
    simp [hjudge, judge, hdispatched, hterminal, hrefusal]
  | none =>
    have hlimits (definition : JobDefinition) (summary : AttemptSummary) (hstate : summary.occurrenceState = .dispatched)
        (hlast : summary.latest = latest) : env.judge definition summary = withinLimits definition summary := by
      simp [judge, hstate, hlast, hterminal, hrefusal]
    rw [hjudge, hlimits _ _ hdispatched rfl, withinLimits]
    by_cases hdeferred : latest.state = .deferred ∧ maxDeferrals definition.retryPolicy ≤ deferralsIn l.attempts
    · simp [givenUp, hrefusal, hjob, hdeferred]
    · by_cases hbudget : maxAttempts definition.retryPolicy ≤ budgetUses l.attempts
      · simp [givenUp, hrefusal, hjob, hdeferred, hbudget]
      · simp [givenUp, hrefusal, hjob, hdeferred, hbudget]

/-- What a pass resolves is found to be given up, or to be driven with the ids free. -/
theorem Env.resolves_iff : env.resolves now m l = true ↔ ∃ c, l.candidate? = some c ∧
    ((∃ state ground, env.finding now (m.tracked.lookup l.occurrence.id).isSome c = .finalize state ground) ∨
      (∃ definition, env.finding now (m.tracked.lookup l.occurrence.id).isSome c = .drive definition) ∧
        m.store.nextFree l.occurrence.id = true) := by
  simp only [resolves, Bool.and_eq_true, beq_iff_eq, Option.any_eq_true, Bool.or_eq_true]
  constructor
  · rintro ⟨⟨hrec, hdispatched⟩, latest, hlatest, hfree⟩
    obtain ⟨c, hc⟩ : ∃ c, l.candidate? = some c := by simp [Life.candidate?, hlatest]
    obtain rfl := mem_unique hlatest (Life.candidate?_eq_some hc).2.2
    refine ⟨c, hc, ?_⟩
    have hfin := finding_of_recoverable hrec hdispatched hc
    split_ifs at hfin with hgiven
    · exact .inl hfin
    · exact .inr ⟨hfin, hfree.resolve_left hgiven⟩
  · rintro ⟨c, hc, hfin⟩
    obtain ⟨hrec, hdispatched⟩ := recoverable_of_finding hc (hfin.imp_right And.left)
    refine ⟨⟨hrec, hdispatched⟩, c.summary.latest, (Life.candidate?_eq_some hc).2.2, ?_⟩
    by_cases hgiven : env.givenUp l c.summary.latest = true
    · exact .inl hgiven
    · have hdrive := finding_of_recoverable hrec hdispatched hc
      rw [if_neg hgiven] at hdrive
      obtain ⟨definition, hdrive⟩ := hdrive
      rcases hfin with ⟨state, ground, hfin⟩ | ⟨-, hfree⟩
      · rw [hdrive] at hfin
        cases hfin
      · exact .inr hfree

theorem Env.recoverable_of_resolves (h : env.resolves now m l = true) :
    env.recoverable now m l = true ∧ l.occurrence.state = .dispatched := by
  simp only [resolves, Bool.and_eq_true, beq_iff_eq] at h
  exact h.1

end Decisions

/-! ### Calls that succeed -/

namespace Store

variable {s : Store} {id : OccurrenceID} {a : JobAttempt}

theorem finalizeOccurrence_of_dispatched (now : Time) (hlife : s.life id = some l)
    (hdispatched : l.occurrence.state = .dispatched) (hstate : state = .failed ∨ state = .cancelled) :
    ∃ s', s.finalizeOccurrence now id state = .ok s' ∧
      s.Sets s' id { l with occurrence := finalized now state l.occurrence } := by
  have hne : l.occurrence.state ≠ state := by
    rcases hstate with rfl | rfl <;> simp [hdispatched]
  have hcount : s.occurrences.count (fun r => r.id == id && r.state == .dispatched) ≠ 0 := by
    obtain ⟨hmem, hid⟩ := mem_of_occurrence? (life_eq_some hlife).1
    exact count_ne_zero hmem (by simp [hid, hdispatched])
  have hok : ∃ s', s.finalizeOccurrence now id state = .ok s' := by
    unfold finalizeOccurrence
    rw [if_neg (by rcases hstate with rfl | rfl <;> simp), (life_eq_some hlife).1]
    dsimp only
    rw [if_neg hne, if_neg (not_not.mpr hdispatched), if_neg hcount]
    exact ⟨_, rfl⟩
  obtain ⟨s', hs'⟩ := hok
  obtain ⟨-, l', hlife', ⟨-, hsame⟩ | ⟨-, hsets⟩⟩ := finalizeOccurrence_ok hs'
  · obtain rfl := mem_unique hlife hlife'
    exact absurd hsame hne
  · obtain rfl := mem_unique hlife hlife'
    exact ⟨s', hs', hsets⟩

theorem insertAttempt?_isSome (hocc : a.occurrenceID ∈ s.occurrences.rows.map JobOccurrence.id)
    (hfresh : ∀ a' ∈ s.attempts.rows, ¬ JobAttempt.Clash a'.unique a.unique) : ∃ s', s.insertAttempt? a = some s' := by
  obtain ⟨t, ht⟩ := insert?_isSome hfresh
  unfold insertAttempt?
  rw [dif_pos hocc]
  split
  · rename_i hnone
    rw [ht] at hnone
    cases hnone
  · exact ⟨_, rfl⟩

theorem nextFree_iff : s.nextFree id = true ↔ s.latestAttemptNo id ≠ 0 ∧ ∀ (now : Time) (d : Duration),
    ∀ a ∈ s.attempts.rows, ¬ JobAttempt.Clash a.unique (leasedAttempt now id (s.latestAttemptNo id + 1)
      (leaseTaskID id (s.latestAttemptNo id + 1) none) d).unique := by
  have hno : ∀ a ∈ s.attempts.rows, (a.occurrenceID, a.attemptNo) ≠ (id, s.latestAttemptNo id + 1) := by
    intro a ha heq
    obtain ⟨hocc, hno⟩ := Prod.mk.inj heq
    have hle : a.attemptNo ≤ s.latestAttemptNo id := le_maxAttemptNo (mem_attemptsOf.mpr ⟨ha, hocc⟩)
    omega
  simp only [nextFree, Bool.and_eq_true, bne_iff_ne, List.all_eq_true]
  refine and_congr_right fun _ => ⟨fun h now d a ha hclash => ?_, fun h a ha => ⟨fun heq => ?_, fun heq => ?_⟩⟩
  · rcases hclash with hid | htask | hpair
    · exact (h a ha).1 hid
    · exact (h a ha).2 htask
    · exact hno a ha hpair
  · exact h 0 0 a ha (.inl heq)
  · exact h 0 0 a ha (.inr (.inl heq))

theorem prepareNextAttemptLease_isOk {checked : Time} {d : Duration} {fmt : Formats} (hlife : s.life id = some l)
    (hdispatched : l.occurrence.state = .dispatched) (hdue : l.occurrence.readyAt ≤ checked)
    (hlatest : latestOf l.attempts = some a) (hterminal : a.state.terminal = true) (hd : 0 < d) :
    (∃ r, s.prepareNextAttemptLease fmt checked now id d = .ok r) ↔ s.nextFree id = true := by
  obtain ⟨ho, hattempts⟩ := life_eq_some hlife
  obtain ⟨hmem, hid⟩ := mem_of_occurrence? ho
  have hstate : ((s.latestAttempt id).map JobAttempt.state).getD .unset = a.state := by
    rw [latestAttempt, ← hattempts, hlatest]
    rfl
  have href : leaseRefusal fmt checked l.occurrence (s.latestAttemptNo id) a.state = none ↔
      s.latestAttemptNo id ≠ 0 := by
    simp [leaseRefusal, hdispatched, not_lt.mpr hdue, hterminal]
  rw [nextFree_iff]
  unfold prepareNextAttemptLease prepareLease
  rw [if_neg (by simpa using hd), ho]
  dsimp only
  rw [hstate]
  constructor
  · rintro ⟨r, hr⟩
    split at hr
    · cases hr
    · rename_i hnone
      refine ⟨href.mp hnone, fun now' d' a' ha' => ?_⟩
      split at hr
      · cases hr
      · rename_i s1 hinsert
        exact (insertAttempt?_eq_some hinsert).1 a' ha'
  · rintro ⟨hne, hfresh⟩
    obtain ⟨s1, hinsert⟩ := insertAttempt?_isSome (mem_map.mpr ⟨_, hmem, hid⟩) (hfresh now d)
    rw [href.mpr hne]
    rw [hinsert]
    dsimp only
    have hoccs := (insertAttempt?_eq_some hinsert).2.2
    rw [if_neg]
    · exact ⟨_, rfl⟩
    · rw [hoccs]
      exact count_ne_zero hmem (by simp [hid, hdispatched])

theorem commitAttempt_of_held {attemptID : AttemptID} {leaseEpoch : Nat} {outcome : AttemptState} {result : List UInt8} {errStr : GoString}
    (h : s.Held attemptID leaseEpoch a l) (hact : a.state.active = true)
    (hout : outcome.result = true) : s.commitAttempt now attemptID leaseEpoch outcome result errStr =
      .ok (.recorded a.occurrenceID (s.recordResult now attemptID leaseEpoch outcome result errStr a.occurrenceID)) := by
  have hlatest : s.latestAttemptNo a.occurrenceID = a.attemptNo := by
    rw [latestAttemptNo, ← (life_eq_some h.life).2, h.latest]
  unfold commitAttempt
  rw [h.attempt]
  simp [hout, h.epoch, hact, (life_eq_some h.life).1, hlatest, h.dispatched]

end Store

theorem leaseDurationFor_pos : 0 < leaseDurationFor definition := by
  have hmin : 0 < minute := by decide
  unfold leaseDurationFor
  split_ifs with h
  · exact hmin
  · exact lt_of_lt_of_le hmin (not_lt.mp h)

end Goultroid.Jobs
