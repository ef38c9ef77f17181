import Goultroid.Jobs.Protocol

/-!
# Fencing, absorption and replay

A terminal occurrence keeps its state and its attempts until it is pruned, and an attempt that is over
keeps its row. A commit or deferral writes only for the attempt that is the latest of a dispatched
occurrence and at its own epoch. So a result that was recorded is answered the same way ever after:
the same result is acknowledged again, a different one is refused, and nothing is written.

`run_keeps` is the rule for runs: what every step of a life preserves holds at the end, if the
occurrence is still there. Both kinds of commit go through `commitAttempt` (`perform_verdict`), which
acknowledges the verdict that is recorded and refuses another one; a verdict stays recorded because
its attempt is over.
-/

namespace Goultroid.Jobs

open List Option Store

variable {l : Life} {a : JobAttempt}

/-! ### What a call names and brings -/

def Transaction.fence : Transaction → Option (AttemptID × Nat)
  | .commitAttemptResult _ attemptID leaseEpoch _ _ _ => some (attemptID, leaseEpoch)
  | .commitAttemptResultWithOutbox _ attemptID leaseEpoch _ _ _ _ _ _ => some (attemptID, leaseEpoch)
  | .commitAttemptDeferred _ attemptID leaseEpoch _ _ => some (attemptID, leaseEpoch)
  | _ => none

def Transaction.verdict : Transaction → Option (AttemptState × List UInt8 × GoString)
  | .commitAttemptResult _ _ _ outcome result errStr => some (outcome, result, errStr)
  | .commitAttemptResultWithOutbox _ _ _ outcome result errStr _ _ _ => some (outcome, result, errStr)
  | _ => none

def JobAttempt.verdict (a : JobAttempt) : AttemptState × List UInt8 × GoString := (a.state, a.result, a.error)

/-! ### What a step of a life leaves alone -/

namespace Life.Step

theorem keeps {scope : Scope} {k : Life} (h : Step scope (some l) (some k)) (ha : a ∈ l.attempts)
    (hover : a.state.active = false) : a ∈ k.attempts := by
  obtain ⟨n, hn⟩ := getElem?_of_mem ha
  obtain ⟨a', ha', -, hsame⟩ := h.extends.attempts n a hn
  rw [← hsame hover]
  exact mem_of_getElem? ha'

end Life.Step

namespace Store

variable {fmt : Formats} {s s' : Store} {attemptID : AttemptID} {leaseEpoch : Nat} {t : Transaction} {outcome : AttemptState}
  {result : List UInt8} {errStr reason : GoString} {now readyAt : Time}

/-- Occurrence `j` stays in the database through the whole run. -/
def Keeps (fmt : Formats) (s : Store) (ts : List Transaction) (j : OccurrenceID) : Prop :=
  ∀ k, ((s.run fmt (ts.take k)).life j).isSome = true

/-- What every step preserves while the occurrence is there holds at the end. -/
theorem run_keeps {j : OccurrenceID} {ts : List Transaction} {P : Life → Prop}
    (hstep : ∀ l l', Life.Step {} (some l) (some l') → P l → P l') (hlife : s.life j = some l) (hl : P l) (hkeeps : s.Keeps fmt ts j) :
    ∃ l', (s.run fmt ts).life j = some l' ∧ P l' := by
  induction ts generalizing s l with
  | nil => exact ⟨l, hlife, hl⟩
  | cons t ts ih =>
    obtain ⟨l1, hl1⟩ := isSome_iff_exists.mp (hkeeps 1)
    have hlife1 : (s.step fmt t).life j = some l1 := by simpa [run] using hl1
    have hmove : Life.Step {} (s.life j) ((s.step fmt t).life j) := step_life t.within_any
    rw [hlife, hlife1] at hmove
    exact ih hlife1 (hstep l l1 hmove hl) fun k => hkeeps (k + 1)

/-! ### Commits -/

theorem perform_of_not_held (ht : t.fence = some (attemptID, leaseEpoch)) (hheld : ∀ a l, ¬ s.Held attemptID leaseEpoch a l)
    (h : s.perform fmt t = .ok s') : s' = s := by
  cases t with
  | commitAttemptResult | commitAttemptResultWithOutbox =>
    cases ht
    simp only [perform, commitAttemptResult, commitAttemptResultWithOutbox] at h
    split at h
    · cases h
    · exact (Except.ok.inj h).symm
    · rename_i occ s1 hcommit
      obtain ⟨-, ⟨hc, -⟩ | ⟨a, l, hheld', -⟩⟩ := commitAttempt_ok hcommit
      · cases hc
      · exact absurd hheld' (hheld a l)
  | commitAttemptDeferred =>
    cases ht
    obtain ⟨a, l, hheld', -⟩ := commitAttemptDeferred_ok h
    exact absurd hheld' (hheld a l)
  | _ => cases ht

/-- A commit of either kind goes through `commitAttempt`, at some clock reading. -/
theorem perform_verdict (ht : t.fence = some (attemptID, leaseEpoch)) (hv : t.verdict = some (outcome, result, errStr)) :
    ∃ now, (∀ err, s.commitAttempt now attemptID leaseEpoch outcome result errStr = .error err → s.perform fmt t = .error err) ∧
      (s.commitAttempt now attemptID leaseEpoch outcome result errStr = .ok .replayed → s.perform fmt t = .ok s) ∧
      ∀ occ s1, s.commitAttempt now attemptID leaseEpoch outcome result errStr = .ok (.recorded occ s1) →
        ∀ s', s.perform fmt t = .ok s' → ∀ j, s'.life j = s1.life j := by
  cases t with
  | commitAttemptResult now =>
    cases ht
    obtain ⟨rfl, hrest⟩ := Prod.mk.inj (some.inj hv)
    obtain ⟨rfl, rfl⟩ := Prod.mk.inj hrest
    refine ⟨now, ?_, ?_, ?_⟩
    · intro err herr
      simp only [perform, commitAttemptResult, herr]
    · intro hreported
      simp only [perform, commitAttemptResult, hreported]
    · intro occ s1 hrec s' h j
      simp only [perform, commitAttemptResult, hrec] at h
      rw [Except.ok.inj h]
  | commitAttemptResultWithOutbox now =>
    cases ht
    obtain ⟨rfl, hrest⟩ := Prod.mk.inj (some.inj hv)
    obtain ⟨rfl, rfl⟩ := Prod.mk.inj hrest
    refine ⟨now, ?_, ?_, ?_⟩
    · intro err herr
      simp only [perform, commitAttemptResultWithOutbox, herr]
    · intro hreported
      simp only [perform, commitAttemptResultWithOutbox, hreported]
    · intro occ s1 hrec s' h j
      simp only [perform, commitAttemptResultWithOutbox, hrec] at h
      split_ifs at h with hevent
      · split at h
        · cases h
        · rename_i s2 hinsert
          rw [← Except.ok.inj h, life_insertOutbox? hinsert]
      · rw [Except.ok.inj h]
  | _ => cases hv

theorem commitAttempt_replayed (ha : s.attempt? a.id = some a) (hres : a.state.result = true) :
    s.commitAttempt now a.id a.leaseEpoch a.state a.result a.error = .ok .replayed := by
  simp [commitAttempt, hres, ha]

theorem commitAttempt_refused (ha : s.attempt? a.id = some a) (hover : a.state.active = false)
    (hdiff : (outcome, result, errStr) ≠ a.verdict) : ∃ err, s.commitAttempt now a.id leaseEpoch outcome result errStr = .error err := by
  cases h : s.commitAttempt now a.id leaseEpoch outcome result errStr with
  | error err => exact ⟨err, rfl⟩
  | ok =>
    obtain ⟨-, ⟨-, b, hb, -, hstate, hres, herror⟩ | ⟨b, l, hheld, hact, -⟩⟩ := commitAttempt_ok h
    · rw [ha] at hb
      cases hb
      exact absurd (by simp [JobAttempt.verdict, hstate, hres, herror]) hdiff
    · have hb := hheld.attempt
      rw [ha] at hb
      cases hb
      rw [hact] at hover
      cases hover

theorem recorded_of_perform (ht : t.fence = some (a.id, leaseEpoch))
    (hv : t.verdict = some (outcome, result, errStr)) (ha : s.attempt? a.id = some a) (h : s.perform fmt t = .ok s') :
    outcome.result = true ∧ ∃ l b, s'.life a.occurrenceID = some l ∧ b ∈ l.attempts ∧ b.id = a.id ∧
      b.leaseEpoch = leaseEpoch ∧ b.verdict = (outcome, result, errStr) := by
  obtain ⟨now, herror, hreported, hrecord⟩ := perform_verdict ht hv
  obtain ⟨hmem, -⟩ := mem_of_attempt? ha
  cases hcommit : s.commitAttempt now a.id leaseEpoch outcome result errStr with
  | error err =>
    rw [herror err hcommit] at h
    cases h
  | ok =>
    obtain ⟨hout, ⟨rfl, b, hb, hepoch, hstate, hres, herr⟩ | ⟨b, l, hheld, _, rfl⟩⟩ :=
      commitAttempt_ok hcommit
    · rw [ha] at hb
      cases hb
      rw [hreported hcommit] at h
      cases h
      obtain ⟨o, ho, hid⟩ := s.attempts_occurrence a hmem
      have hlife := life_of_occurrence? (occurrence?_of_mem ho)
      rw [hid] at hlife
      refine ⟨hout, _, a, hlife, mem_attemptsOf.mpr ⟨hmem, rfl⟩, rfl, hepoch, ?_⟩
      simp [JobAttempt.verdict, hstate, hres, herr]
    · have hb := hheld.attempt
      rw [ha] at hb
      cases hb
      obtain ⟨_, _, -, hsets⟩ := recordResult_sets now outcome result errStr hheld
      have hself := hrecord _ _ hcommit s' h a.occurrenceID
      rw [hsets a.occurrenceID, if_pos rfl] at hself
      exact ⟨hout, _, settledAttempt now outcome result errStr a, hself, by simp, rfl, hheld.epoch, rfl⟩

/-! ### Deferrals -/

theorem commitAttemptDeferred_replayed (now : Time)
    (hready : readyAt ≠ 0) (hheld : s.Held attemptID leaseEpoch a l) (hstate : a.state = .deferred)
    (hreadyAt : l.occurrence.readyAt = readyAt) : s.commitAttemptDeferred now attemptID leaseEpoch readyAt a.error = .ok s := by
  obtain ⟨ho, hattempts⟩ := life_eq_some hheld.life
  have hlatest : s.latestAttemptNo a.occurrenceID = a.attemptNo := by
    rw [latestAttemptNo, ← hattempts, hheld.latest]
  simp [commitAttemptDeferred, hready, hheld.attempt, hheld.epoch, ho, hlatest, hheld.dispatched, hstate, hreadyAt]

theorem commitAttemptDeferred_again {now' : Time} (h : s.commitAttemptDeferred now attemptID leaseEpoch readyAt reason = .ok s') :
    s'.commitAttemptDeferred now' attemptID leaseEpoch readyAt reason = .ok s' := by
  have hready : readyAt ≠ 0 := by
    intro hzero
    simp [commitAttemptDeferred, hzero] at h
  obtain ⟨a, l, hheld, ⟨rfl, hstate, rfl, hreadyAt⟩ | ⟨_, ⟨_, _, hsplit, hsets⟩, -⟩⟩ :=
    commitAttemptDeferred_ok h
  · exact commitAttemptDeferred_replayed now' hready hheld hstate hreadyAt
  · have hself := hsets a.occurrenceID
    rw [if_pos rfl] at hself
    have hmem : deferredAttempt now reason a ∈ s'.attemptsOf a.occurrenceID := by
      rw [← (life_eq_some hself).2]
      simp
    have hfind := attempt?_of_mem (mem_attemptsOf.mp hmem).1
    rw [show (deferredAttempt now reason a).id = attemptID from hheld.mem.2] at hfind
    have hlatest := hheld.latest
    rw [hsplit] at hlatest
    refine commitAttemptDeferred_replayed (a := deferredAttempt now reason a) now' hready
      ⟨hfind, hheld.epoch, hself, ?_, hheld.dispatched⟩ rfl rfl
    simpa [maxAttemptNo, deferredAttempt] using hlatest

theorem commitAttemptDeferred_refused (now readyAt : Time) (leaseEpoch : Nat)
    (ha : s.attempt? a.id = some a) (hover : a.state.active = false) (hdiff : a.state ≠ .deferred ∨ a.error ≠ reason) :
    ∃ err, s.commitAttemptDeferred now a.id leaseEpoch readyAt reason = .error err := by
  cases h : s.commitAttemptDeferred now a.id leaseEpoch readyAt reason with
  | error err => exact ⟨err, rfl⟩
  | ok =>
    obtain ⟨b, l, hheld, hcases⟩ := commitAttemptDeferred_ok h
    have hb := hheld.attempt
    rw [ha] at hb
    cases hb
    rcases hcases with ⟨-, hstate, herror, -⟩ | ⟨hact, -⟩
    · exact absurd hdiff (by simp [hstate, herror])
    · rw [hact] at hover
      cases hover

theorem perform_eq_ok (h : (s.perform fmt t).isOk = true) : s.perform fmt t = .ok (s.step fmt t) := by
  unfold step
  cases hperform : s.perform fmt t with
  | error =>
    rw [hperform] at h
    cases h
  | ok => rfl

theorem step_of_error {err : StoreError} (h : s.perform fmt t = .error err) : s.step fmt t = s := by
  simp [step, h]

end Store

/-- For every database and every call. A terminal occurrence disappears only by pruning, and until then
no run changes its state or its attempts. A commit or deferral of an attempt that is not the latest of
its occurrence, at another epoch, or of an occurrence that is not dispatched leaves the database as it
is. A commit that succeeded is acknowledged whenever it is repeated, by either kind of commit, while the
occurrence exists, and the repetition writes nothing; a deferral is acknowledged again right after it.
Another result for an attempt that is over is refused and writes nothing. -/
theorem durable_results_fenced (fmt : Formats) (s : Store) : (∀ o ∈ s.occurrences.rows, o.state.terminal = true →
      (∀ t, (s.step fmt t).life o.id = none → ∃ jobID before limit, t = .deleteTerminalOccurrences jobID before limit) ∧
      ∀ ts, s.Keeps fmt ts o.id → ∃ o', (s.run fmt ts).life o.id = some ⟨o', s.attemptsOf o.id⟩ ∧ o'.state = o.state) ∧
    (∀ t attemptID epoch, t.fence = some (attemptID, epoch) → (∀ a ∈ s.attempts.rows, a.id = attemptID →
        epoch ≠ a.leaseEpoch ∨ (∃ b ∈ s.attemptsOf a.occurrenceID, a.attemptNo < b.attemptNo) ∨
          ∃ o ∈ s.occurrences.rows, o.id = a.occurrenceID ∧ o.state ≠ .dispatched) → s.step fmt t = s) ∧
    (∀ t s', ∀ a ∈ s.attempts.rows, ∀ epoch verdict, t.fence = some (a.id, epoch) → t.verdict = some verdict →
      s.perform fmt t = .ok s' → ∀ ts, s'.Keeps fmt ts a.occurrenceID → ∀ t', t'.fence = some (a.id, epoch) → t'.verdict = some verdict →
        (s'.run fmt ts).perform fmt t' = .ok (s'.run fmt ts)) ∧ (∀ now now' attemptID epoch readyAt reason s',
      s.perform fmt (.commitAttemptDeferred now attemptID epoch readyAt reason) = .ok s' →
        s'.perform fmt (.commitAttemptDeferred now' attemptID epoch readyAt reason) = .ok s') ∧
    (∀ t, ∀ a ∈ s.attempts.rows, a.state.terminal = true → ∀ epoch verdict, t.fence = some (a.id, epoch) →
      t.verdict = some verdict → verdict ≠ a.verdict → (∃ err, s.perform fmt t = .error err) ∧ s.step fmt t = s) ∧
    (∀ now epoch readyAt reason, ∀ a ∈ s.attempts.rows, a.state.terminal = true → a.state ≠ .deferred ∨ a.error ≠ reason →
        (∃ err, s.perform fmt (.commitAttemptDeferred now a.id epoch readyAt reason) = .error err) ∧
          s.step fmt (.commitAttemptDeferred now a.id epoch readyAt reason) = s) := by
  refine ⟨?_, ?_, ?_, ?_, ?_, ?_⟩
  · intro o ho hterminal
    have hlife := life_of_occurrence? (occurrence?_of_mem ho)
    refine ⟨fun t hnone => ?_, fun ts hkeeps => ?_⟩
    · -- the scope in which only a pruning call prunes
      have hwithin : t.Within { prunes := ∃ jobID before limit, t = .deleteTerminalOccurrences jobID before limit } := by
        cases t with
        | deleteTerminalOccurrences jobID before limit => exact ⟨jobID, before, limit, rfl⟩
        | _ => trivial
      have hstep : Life.Step _ (s.life o.id) ((s.step fmt t).life o.id) := step_life hwithin
      rw [hlife, hnone] at hstep
      rcases hstep.absorbed hterminal with ⟨hprunes, -⟩ | ⟨o', heq, -⟩
      · exact hprunes
      · cases heq
    · have habs : ∀ l l', Life.Step {} (some l) (some l') →
          l.attempts = s.attemptsOf o.id ∧ l.occurrence.state = o.state →
          l'.attempts = s.attemptsOf o.id ∧ l'.occurrence.state = o.state := by
        rintro l l' hstep ⟨hattempts, hstate⟩
        rcases hstep.absorbed (hstate ▸ hterminal) with ⟨-, heq⟩ | ⟨o', heq, hsame⟩
        · cases heq
        · cases heq
          exact ⟨hattempts, hsame.trans hstate⟩
      obtain ⟨⟨o', attempts⟩, hrun, rfl, hstate⟩ := run_keeps habs hlife ⟨rfl, rfl⟩ hkeeps
      exact ⟨o', hrun, hstate⟩
  · intro t attemptID epoch ht hstale
    have hheld : ∀ a l, ¬ s.Held attemptID epoch a l := by
      intro a l hheld
      obtain ⟨hmem, hid⟩ := hheld.mem
      obtain ⟨ho, hattempts⟩ := life_eq_some hheld.life
      rcases hstale a hmem hid with hepoch | ⟨b, hb, hlt⟩ | ⟨o, homem, hoid, hstate⟩
      · exact hepoch hheld.epoch.symm
      · have hle := le_maxAttemptNo (hattempts ▸ hb)
        have := hheld.latest
        omega
      · have hsome := occurrence?_of_mem homem
        rw [hoid, ho] at hsome
        exact hstate (some.inj hsome ▸ hheld.dispatched)
    unfold Store.step
    split
    · rename_i s' h
      exact perform_of_not_held ht hheld h
    · rfl
  · rintro t s' a ha epoch ⟨outcome, result, errStr⟩ ht hv h ts hkeeps t' ht' hv'
    obtain ⟨hout, l, b, hlife, hb, hid, hepoch, hverdict⟩ :=
      recorded_of_perform ht hv (attempt?_of_mem ha) h
    obtain ⟨rfl, hrest⟩ := Prod.mk.inj hverdict
    obtain ⟨rfl, rfl⟩ := Prod.mk.inj hrest
    obtain ⟨l', hlife', hb'⟩ := run_keeps (P := fun l => b ∈ l.attempts)
      (fun _ _ hstep hb => hstep.keeps hb (AttemptState.active_of_result hout)) hlife hb hkeeps
    have hfind := attempt?_of_mem (mem_attemptsOf.mp ((life_eq_some hlife').2 ▸ hb')).1
    obtain ⟨now, -, hreported, -⟩ := perform_verdict ht' hv'
    apply hreported
    rw [← hid, ← hepoch]
    exact commitAttempt_replayed hfind hout
  · intro now now' attemptID epoch readyAt reason s' h
    exact commitAttemptDeferred_again h
  · rintro t a ha hterminal epoch ⟨outcome, result, errStr⟩ ht hv hdiff
    obtain ⟨now, href, -, -⟩ := perform_verdict ht hv
    obtain ⟨err, herr⟩ := commitAttempt_refused (attempt?_of_mem ha)
      (AttemptState.active_of_terminal hterminal) hdiff
    exact ⟨⟨err, href err herr⟩, step_of_error (href err herr)⟩
  · intro now epoch readyAt reason a ha hterminal hdiff
    obtain ⟨err, herr⟩ := commitAttemptDeferred_refused now readyAt epoch
      (attempt?_of_mem ha) (AttemptState.active_of_terminal hterminal) hdiff
    exact ⟨⟨err, herr⟩, step_of_error herr⟩

/-- The result of the first attempt of occurrence `occ`. -/
def firstFailure : Transaction :=
  .commitAttemptResult 20 (goString "attempt:occ:1") 1 .failed [] (goString "boom")

/-- The same result once more, with an event for the outbox. -/
def firstFailureAgain : Transaction :=
  .commitAttemptResultWithOutbox 50 (goString "attempt:occ:1") 1 .failed [] (goString "boom")
    (goString "event") (goString "kind") []

/-- The failure of a first attempt is acknowledged again while the second attempt runs. -/
theorem durable_results_fenced_retried :
    let s := (Store.ofDefinitions [goString "job"]).run plainFormats (retriedRun.take 2)
    let s' := (s.step plainFormats firstFailure).run plainFormats [.prepareNextAttemptLease 20 20 (goString "occ") 60]
    (s'.attemptsOf (goString "occ")).map JobAttempt.state = [.failed, .leased] ∧
      s'.perform plainFormats firstFailureAgain = .ok s' := by
  intro s s'
  refine ⟨by decide +kernel, ?_⟩
  have hrow : (s.attempts.rows.any fun a => a.id == goString "attempt:occ:1" && a.occurrenceID == goString "occ") = true := by
    decide +kernel
  obtain ⟨a, ha, hcondition⟩ := any_eq_true.mp hrow
  simp only [Bool.and_eq_true, beq_iff_eq] at hcondition
  obtain ⟨hid, hocc⟩ := hcondition
  have hok : (s.perform plainFormats firstFailure).isOk = true := by decide +kernel
  have hkeeps : (s.step plainFormats firstFailure).Keeps plainFormats
      [.prepareNextAttemptLease 20 20 (goString "occ") 60] a.occurrenceID := by
    rw [hocc]
    intro k
    rcases k with - | k
    · decide +kernel
    · rw [take_of_length_le (by simp)]
      decide +kernel
  exact (durable_results_fenced plainFormats s).2.2.1 firstFailure _ a ha 1 (.failed, [], goString "boom")
    (by rw [hid]; rfl) rfl (perform_eq_ok hok) _ hkeeps firstFailureAgain (by rw [hid]; rfl) rfl

end Goultroid.Jobs
