import Goultroid.Jobs.Manager
import Goultroid.Jobs.Protocol

/-!
# Live retries and recovery

`watchAttempt` decides about an occurrence from the result in memory, `Recover` from what the commit of that result has left in the
store. They decide alike about every result that is recorded, but for a rate limit: the retry budget binds `Recover` only, whatever is
left of the deferrals.

After the commit the attempt is the latest of its occurrence, with the disposition of the result in its metadata
(`commitAttemptResult_summary`). What `Recover` reads back there says the same about another attempt as the semantics in memory
(`Env.refusal?_recorded`), and then both look at the same counts.
-/

namespace Goultroid.Jobs

open List Option Store

variable {env : Env} {policy : JobRetryPolicy} {definition : JobDefinition} {res : TaskResult} {summary : AttemptSummary} {now : Time}
  {a b : JobAttempt} {s s' : Store} {l : Life}

/-- The state in which an occurrence is closed; otherwise it is left as it is, open for another attempt or closed before. -/
def Verdict.closes : Verdict → Option OccurrenceState
  | .finalize state _ => some state
  | _ => none

def Finding.closes : Finding → Option OccurrenceState
  | .finalize state _ => some state
  | _ => none

/-- What `watchAttempt` decides about the answer of a ticket. -/
def Env.watchCloses (env : Env) (policy : JobRetryPolicy) (res : TaskResult) (summary : AttemptSummary) : Option OccurrenceState :=
  if res.cause = .persistenceFailure ∨ res.outcome = .completed then none else (env.watchVerdict policy res summary).closes

def Semantics.final (s : Semantics) : Bool := !s.shouldRetry && !s.isSuccess

/-- `encoding/json` keeps a known disposition, and an unknown one stays unknown. -/
def Env.Keeps (env : Env) (s : Semantics) : Prop :=
  ∃ data disposition code, env.marshal s.disposition s.code = some data ∧ data ≠ [] ∧ env.unmarshal data = some (disposition, code) ∧
    (disposition = s.disposition ∨ ∃ name name', s.disposition = .other name ∧ disposition = .other name')

/-- A result that the engine has of an attempt (`executor.go`): it has an outcome and is certain, and a rate limit is a failure to be
repeated. -/
structure Reported (res : TaskResult) : Prop where
  outcome : res.outcome ≠ .unset
  certain : res.cause ≠ .persistenceFailure
  limited : res.cause = .rateLimited → res.outcome = .failed ∧ res.disposition = .retryable

/-! ### What the commit leaves -/

namespace Store

variable {attemptID : AttemptID} {leaseEpoch : Nat}

theorem Held.latest_replaced {before after : List JobAttempt} (h : s.Held attemptID leaseEpoch a l) (hl : l.Ordered)
    (hsplit : l.attempts = before ++ a :: after) (huniq : b.unique = a.unique) (hepoch : b.leaseEpoch = a.leaseEpoch) :
    latestOf (before ++ b :: after) = some b := by
  obtain ⟨rfl, hordered⟩ := hl.settle (o := l.occurrence) hsplit h.latest huniq hepoch
  rw [hordered.numbered.latestOf_eq, getLast?_concat]

theorem summary_of_life {id : OccurrenceID} (hl : s.life id = some l) (hlatest : latestOf l.attempts = some b) :
    ∃ summary, s.attemptSummary id = some summary ∧ summary.latest = b ∧ summary.occurrenceState = l.occurrence.state := by
  obtain ⟨ho, hattempts⟩ := life_eq_some hl
  rw [hattempts] at hlatest
  exact ⟨_, by rw [attemptSummary, ho, latestAttempt, hlatest], rfl, rfl⟩

variable (hordered : ∀ id l, s.life id = some l → l.Ordered) (ha : s.attempt? attemptID = some a) (hactive : a.state.active = true)
include hordered ha hactive

theorem commitAttemptDeferred_summary {readyAt : Time} {reason : GoString}
    (h : s.commitAttemptDeferred now attemptID leaseEpoch readyAt reason = .ok s') : ∃ summary,
      s'.attemptSummary a.occurrenceID = some summary ∧ summary.latest = deferredAttempt now reason a ∧
        summary.occurrenceState = .dispatched := by
  obtain ⟨a', l, hheld, hdone⟩ := commitAttemptDeferred_ok h
  obtain rfl : a = a' := some.inj (ha.symm.trans hheld.attempt)
  rcases hdone with ⟨-, hdeferred, -⟩ | ⟨-, ⟨before, after, hsplit, hsets⟩, -⟩
  · simp [hdeferred, AttemptState.active] at hactive
  · have hlife := hsets a.occurrenceID
    rw [if_pos rfl] at hlife
    obtain ⟨summary, hsummary, hlatest, hstate⟩ :=
      summary_of_life hlife (hheld.latest_replaced (hordered _ l hheld.life) hsplit rfl rfl)
    exact ⟨summary, hsummary, hlatest, hstate.trans hheld.dispatched⟩

theorem commitAttemptResult_summary {outcome : AttemptState} {result : List UInt8} {errStr : GoString}
    (h : s.commitAttemptResult now attemptID leaseEpoch outcome result errStr = .ok s') : ∃ o summary, o.state = .dispatched ∧
      s'.attemptSummary a.occurrenceID = some summary ∧ summary.latest = settledAttempt now outcome result errStr a ∧
        summary.occurrenceState = (closedBy now outcome o).state := by
  unfold commitAttemptResult at h
  split at h
  · cases h
  · next hreplayed =>
    obtain ⟨hresult, ⟨-, a', ha', -, rfl, -⟩ | ⟨_, _, _, _, hrecorded⟩⟩ := commitAttempt_ok hreplayed
    · obtain rfl : a = a' := some.inj (ha.symm.trans ha')
      rw [AttemptState.active_of_result hresult] at hactive
      cases hactive
    · cases hrecorded
  · next hrecorded =>
    obtain ⟨-, ⟨hreplayed, -⟩ | ⟨a', l, hheld, -, hc⟩⟩ := commitAttempt_ok hrecorded
    · cases hreplayed
    · obtain rfl : a = a' := some.inj (ha.symm.trans hheld.attempt)
      cases hc
      cases h
      obtain ⟨before, after, hsplit, hsets⟩ := recordResult_sets now outcome result errStr hheld
      have hlife := hsets a.occurrenceID
      rw [if_pos rfl] at hlife
      obtain ⟨summary, hsummary⟩ := summary_of_life hlife (hheld.latest_replaced (hordered _ l hheld.life) hsplit rfl rfl)
      exact ⟨l.occurrence, summary, hheld.dispatched, hsummary⟩

end Store

/-! ### The decisions -/

theorem Semantics.alike {s t : Semantics}
    (h : s.disposition = t.disposition ∨ ∃ name name', t.disposition = .other name ∧ s.disposition = .other name') :
    s.final = t.final ∧ occurrenceStateForSemantics s = occurrenceStateForSemantics t := by
  unfold final shouldRetry isSuccess normalized occurrenceStateForSemantics
  rcases h with h | ⟨name, name', ht, hs⟩
  · simp only [h, and_self]
  · rw [hs, ht]
    exact ⟨rfl, rfl⟩

/-- What recovery reads in a result that is not deferred. -/
theorem Env.refusal?_recorded (hjson : env.Keeps (semanticsOf res)) (hdeferred : a.state ≠ .deferred)
    (hopen : res.outcome ≠ .completed ∧ res.outcome ≠ .cancelled) (hresult : a.result = env.encodeAttemptResultMetadata res) :
    (env.refusal? a).map occurrenceStateForSemantics =
      if (semanticsOf res).final then some (occurrenceStateForSemantics (semanticsOf res)) else none := by
  have hset : (semanticsOf res).disposition ≠ .unset := by
    unfold semanticsOf
    split_ifs with hdisposition
    · exact hdisposition
    · cases houtcome : res.outcome <;> simp
  obtain ⟨data, disposition, code, hmarshal, hdata, hunmarshal, hkept⟩ := hjson
  have hread : disposition ≠ .unset := by
    rcases hkept with rfl | ⟨_, _, _, rfl⟩
    · exact hset
    · simp
  have hresult : a.result = data := by simp [hresult, encodeAttemptResultMetadata, hopen, hset, hmarshal]
  obtain ⟨hfinal, hstate⟩ := Semantics.alike (s := ⟨disposition, code, 0⟩) hkept
  rw [refusal?, if_neg hdeferred, persistedAttemptSemantics, hresult, if_neg hdata, hunmarshal, ← hfinal, ← hstate]
  dsimp only
  rw [if_neg hread, Option.filter_some]
  unfold Semantics.final
  split_ifs <;> rfl

theorem Env.retryVerdict_closes {cause : Cause} : (env.retryVerdict policy cause summary).closes =
    if cause = .rateLimited then (if maxDeferrals policy ≤ summary.deferrals then some .failed else none)
    else if maxAttempts policy ≤ summary.retryBudgetUses then some .failed else none := by
  unfold retryVerdict
  split_ifs <;> rfl

theorem Env.watchCloses_eq (hopen : summary.occurrenceState = .dispatched) (hreported : Reported res) (hout : res.outcome ≠ .completed) :
    env.watchCloses policy res summary = if (semanticsOf res).final then some (occurrenceStateForSemantics (semanticsOf res))
      else (env.retryVerdict policy res.cause summary).closes := by
  unfold watchCloses watchVerdict
  rw [if_neg (not_or.mpr ⟨hreported.certain, hout⟩), hopen, if_neg (by decide)]
  show (if (semanticsOf res).final then _ else _ : Verdict).closes = _
  split_ifs with hfinal
  · rfl
  · cases houtcome : res.outcome with
    | unset => exact absurd houtcome hreported.outcome
    | completed => exact absurd houtcome hout
    | _ => rfl

theorem Env.judge_closes (hopen : summary.occurrenceState = .dispatched) (hterminal : summary.latest.state.terminal = true) :
    (env.judge definition summary).closes = ((env.refusal? summary.latest).map occurrenceStateForSemantics).or
      (if summary.latest.state = .deferred ∧ maxDeferrals definition.retryPolicy ≤ summary.deferrals then some .failed
      else if maxAttempts definition.retryPolicy ≤ summary.retryBudgetUses then some .failed else none) := by
  rw [judge, if_neg (not_not.mpr hopen), if_neg (by simp [hterminal])]
  cases hrefusal : env.refusal? summary.latest with
  | some s => rfl
  | none =>
    rw [Option.map_none, Option.none_or]
    unfold withinLimits
    dsimp only
    split_ifs <;> rfl

section Decisions

variable (hreported : Reported res) (hopen : summary.occurrenceState = .dispatched)
include hreported hopen

/-- A rate limit is bound by the deferrals, and in recovery by the budget as well. -/
theorem deferred_agree_iff (hrate : res.cause = .rateLimited) (hdeferred : summary.latest.state = .deferred) :
    env.watchCloses definition.retryPolicy res summary = (env.judge definition summary).closes ↔
      ¬ (maxAttempts definition.retryPolicy ≤ summary.retryBudgetUses ∧ summary.deferrals < maxDeferrals definition.retryPolicy) := by
  obtain ⟨hfailed, hretryable⟩ := hreported.limited hrate
  have hfinal : (semanticsOf res).final = false := by
    simp [semanticsOf, hretryable, Semantics.final, Semantics.shouldRetry, Semantics.normalized]
  rw [Env.watchCloses_eq hopen hreported (by simp [hfailed]), Env.retryVerdict_closes, Env.judge_closes hopen (by rw [hdeferred]; rfl),
    show env.refusal? summary.latest = none from if_pos hdeferred]
  by_cases hspent : maxAttempts definition.retryPolicy ≤ summary.retryBudgetUses <;>
    by_cases hexhausted : maxDeferrals definition.retryPolicy ≤ summary.deferrals <;>
    simp [hrate, hfinal, hdeferred, hspent, hexhausted]

theorem settled_agree (hjson : env.Keeps (semanticsOf res)) (hrate : res.cause ≠ .rateLimited)
    (hout : res.outcome ≠ .completed ∧ res.outcome ≠ .cancelled) (hstate : summary.latest.state = attemptState res.outcome)
    (hresult : summary.latest.result = env.encodeAttemptResultMetadata res) :
    env.watchCloses definition.retryPolicy res summary = (env.judge definition summary).closes := by
  have hdeferred : summary.latest.state ≠ .deferred := by
    rw [hstate]
    cases res.outcome <;> simp [attemptState]
  rw [Env.watchCloses_eq hopen hreported hout.1, Env.retryVerdict_closes,
    Env.judge_closes hopen (by rw [hstate]; cases res.outcome <;> rfl), Env.refusal?_recorded hjson hdeferred hout hresult]
  cases (semanticsOf res).final <;> simp [hrate, hdeferred]

end Decisions

/-- The metadata are the text of the disposition. -/
def dispositionEnv : Env where
  fmt := plainFormats
  definitions := ∅
  handlers := []
  backoff := fun _ _ => 0
  marshal := fun disposition _ => some disposition.text
  unmarshal := fun data => some (if data = goString "permanent" then .permanent else .retryable, [])

/-- The first attempt has failed, the second one is leased. -/
def retriedStore : Store := (Store.ofDefinitions [goString "job"]).run plainFormats (retriedRun.take 4)

def secondAttempt : JobAttempt := leasedAttempt 20 (goString "occ") 2 (leaseTaskID (goString "occ") 2 none) 60

def onceDefinition : JobDefinition := { id := goString "job", handlerType := goString "handler" }

def permanentResult : TaskResult := { outcome := .failed, cause := .none, disposition := .permanent, finishedAt := 30 }

def limitedResult : TaskResult :=
  { outcome := .failed, cause := .rateLimited, disposition := .retryable, finishedAt := 30, retryAfter := 5 }

end Goultroid.Jobs
