import Goultroid.Jobs.Recovery

/-!
# A recovery pass

A pass is a call of `Recover` beside which only the engine runs, in any interleaving: nothing fails, the
engine takes every attempt, and every attempt completes. Seen from the state in which the pass began, an
occurrence keeps its life, or it is listed and resolved: its next attempt is on the way, or it is closed
(`Progress`). So a pass closes what it lists and can resolve, and leaves the rest alone (`Pass.outcome`).

`Recover` is always at one of its places, with a part of the page before it and at most one attempt
leased (`Place`), and a step of the engine brings an attempt in flight closer to its end. Either kind of
step leaves the other occurrences as they are, and the ids of their next attempts stay free, since an
occurrence adds only ids that are derived from its own (`Life.Continues`). `Progress.advance` and
`Progress.engine` are the two step lemmas.
-/

namespace Goultroid.Jobs

open AList Option Jobs.Env
open Threads (Act Acts Pool Run)

variable {a : JobAttempt} {l : Life} {choice : Choice} {res : TaskResult} {now : Time} {task : Task} {m m' : Manager} {i j : OccurrenceID}
  {held held' : Option JobAttempt}

/-! ### Passes -/

def Phase.over : Phase → Bool
  | .answered _ | .lost => true
  | _ => false

/-- The attempt is on its way to completion. -/
def Phase.completing : Phase → Bool
  | .running => true
  | .pending res => res.outcome == .completed && res.cause != .rateLimited
  | _ => false

def Manager.Idle (m : Manager) : Prop := ∀ k w, m.works.lookup k = some w → w.phase.over = true

/-- Nothing fails, the engine takes what it is given and completes, and the clock has reached `now`. -/
def Choice.smooth (now : Time) (choice : Choice) : Bool :=
  !choice.fault && choice.rejection.isNone && decide (now ≤ choice.now) && !choice.uncommitted && !choice.uncertain &&
    choice.result.outcome == .completed && choice.result.cause != .rateLimited

/-- Every step of the run is so, and nobody calls. -/
def smooth (now : Time) (_ : Pool Manager Thread) : Act Thread Choice → Bool
  | .call _ => false
  | .move _ choice => choice.smooth now

def beside (m : Manager) (task : Task) : Pool Manager Thread := ⟨m, [⟨m.process, task⟩, ⟨m.process, .engine⟩]⟩

/-- A call of `Recover` up to its return, and the attempts it drove up to their completion. -/
def Pass (env : Env) (now : Time) (limit : Int) (m m' : Manager) : Prop :=
  m'.Idle ∧ ∃ report, Run env.program Thread.entry (smooth now) (beside m (.recover limit))
    (beside m' (.recovered (.ok report)))

/-- `n` passes, one after the other. -/
def Passes (env : Env) (now : Time) (limit : Int) : Nat → Manager → Manager → Prop
  | 0, m, m' => m' = m
  | n + 1, m, m' => ∃ m₁, Pass env now limit m m₁ ∧ Passes env now limit n m₁ m'

theorem Choice.smooth_iff : choice.smooth now = true ↔
    choice.fault = false ∧ choice.rejection = none ∧ now ≤ choice.now ∧ choice.uncommitted = false ∧
      choice.uncertain = false ∧ choice.result.outcome = .completed ∧ choice.result.cause ≠ .rateLimited := by
  simp [Choice.smooth, and_assoc]

theorem smooth_step {p : Pool Manager Thread} {env : Env} {a : Act Thread Choice} (h : Acts env.program Thread.entry (beside m task) a p)
    (hok : smooth now (beside m task) a = true) : ∃ choice m', choice.smooth now = true ∧
      ((∃ task', env.advance choice m task = some (m', task') ∧ p = ⟨m', [⟨m.process, task'⟩, ⟨m.process, .engine⟩]⟩) ∨
        env.engineStep choice m = some m' ∧ p = ⟨m', [⟨m.process, task⟩, ⟨m.process, .engine⟩]⟩) := by
  cases h with
  | call t ha => subst ha; cases hok
  | move i choice t t' _ new ha ht hnext heq =>
    subst ha
    unfold Env.program at hnext
    split_ifs at hnext
    obtain ⟨⟨m', task'⟩, hadvance, hpair⟩ := map_eq_some_iff.mp hnext
    obtain ⟨rfl, rfl, rfl⟩ := hpair
    refine ⟨choice, m', hok, ?_⟩
    match i, ht with
    | 0, ht =>
      cases ht
      exact .inl ⟨task', hadvance, by simpa [beside] using heq⟩
    | 1, ht =>
      cases ht
      obtain ⟨m1, hstep, hpair⟩ := map_eq_some_iff.mp hadvance
      obtain ⟨rfl, rfl⟩ := Prod.mk.inj hpair
      exact .inr ⟨hstep, by simpa [beside] using heq⟩
    | i + 2, ht => simp [beside] at ht

/-! ### Lives in a pass -/

/-- The attempts stay, and what is added has the ids that the store derives. -/
structure Life.Continues (l l' : Life) (j : OccurrenceID) : Prop where
  old : ∀ b ∈ l.attempts, ∃ a ∈ l'.attempts, a.unique = b.unique
  new : ∀ a ∈ l'.attempts, (∃ b ∈ l.attempts, a.unique = b.unique) ∨
    ∃ no, a.id = canonicalAttemptID j no ∧ a.taskID = Store.leaseTaskID j no none

theorem Life.Continues.refl (l : Life) (j : OccurrenceID) : l.Continues l j :=
  ⟨fun b hb => ⟨b, hb, rfl⟩, fun a ha => .inl ⟨a, ha, rfl⟩⟩

theorem Life.Continues.settle {o o' : JobOccurrence} {before after : List JobAttempt} {a' : JobAttempt}
    (h : l.Continues ⟨o, before ++ a :: after⟩ j) (huniq : a'.unique = a.unique) : l.Continues ⟨o', before ++ a' :: after⟩ j := by
  refine ⟨fun b hb => ?_, fun b hb => ?_⟩
  · obtain ⟨k, hk, heq⟩ := h.old b hb
    simp only [List.mem_append, List.mem_cons] at hk
    rcases hk with hk | rfl | hk
    · exact ⟨k, by simp [hk], heq⟩
    · exact ⟨a', by simp, huniq.trans heq⟩
    · exact ⟨k, by simp [hk], heq⟩
  · simp only [List.mem_append, List.mem_cons] at hb
    rcases hb with hb | rfl | hb
    · exact h.new b (by simp [hb])
    · rcases h.new a (by simp) with ⟨k, hk, heq⟩ | ⟨no, hid, htask⟩
      · exact .inl ⟨k, hk, huniq.trans heq⟩
      · exact .inr ⟨no, (congrArg (·.1) huniq).trans hid, (congrArg (·.2.1) huniq).trans htask⟩
    · exact h.new b (by simp [hb])

namespace Store

variable {s s' : Store}

theorem mem_attempts_iff : a ∈ s.attempts.rows ↔ ∃ l, s.life a.occurrenceID = some l ∧ a ∈ l.attempts := by
  constructor
  · intro ha
    obtain ⟨o, ho, heq⟩ := s.attempts_occurrence a ha
    have hlife := life_of_occurrence? (occurrence?_of_mem ho)
    rw [heq] at hlife
    exact ⟨_, hlife, mem_attemptsOf.mpr ⟨ha, rfl⟩⟩
  · rintro ⟨l, hl, ha⟩
    rw [(life_eq_some hl).2] at ha
    exact (mem_attemptsOf.mp ha).1

theorem mem_life_occurrenceID (hl : s.life i = some l) (ha : a ∈ l.attempts) : a.occurrenceID = i := by
  rw [(life_eq_some hl).2] at ha
  exact (mem_attemptsOf.mp ha).2

theorem nextFree_congr (hi : s.life i = some l) (hi' : s'.life i = some l)
    (hlives : ∀ j l, s.life j = some l → ∃ l', s'.life j = some l' ∧ l.Continues l' j)
    (habs : ∀ j, s.life j = none → s'.life j = none) : s'.nextFree i = s.nextFree i := by
  have hlatest : s'.latestAttemptNo i = s.latestAttemptNo i := by
    rw [latestAttemptNo, latestAttemptNo, ← (life_eq_some hi).2, ← (life_eq_some hi').2]
  rw [Bool.eq_iff_iff]
  simp only [nextFree, hlatest, Bool.and_eq_true, bne_iff_ne, List.all_eq_true]
  refine and_congr_right fun _ => ⟨fun h b hb => ?_, fun h a ha => ?_⟩
  · obtain ⟨lb, hlb, hmem⟩ := mem_attempts_iff.mp hb
    obtain ⟨l', hl', hcontinues⟩ := hlives _ lb hlb
    obtain ⟨a, ha, huniq⟩ := hcontinues.old b hmem
    simp only [JobAttempt.unique, Prod.mk.injEq] at huniq
    rw [← huniq.1, ← huniq.2.1]
    exact h a (mem_attempts_iff.mpr ⟨l', by rw [mem_life_occurrenceID hl' ha]; exact hl', ha⟩)
  · obtain ⟨l', hl', hmem⟩ := mem_attempts_iff.mp ha
    cases hla : s.life a.occurrenceID with
    | none =>
      rw [habs _ hla] at hl'
      cases hl'
    | some la =>
      obtain ⟨l'', hl'', hcontinues⟩ := hlives _ la hla
      obtain rfl := mem_unique hl' hl''
      have hold (b : JobAttempt) (hb : b ∈ la.attempts) (huniq : a.unique = b.unique) :
          a.id ≠ canonicalAttemptID i (s.latestAttemptNo i + 1) ∧
            a.taskID ≠ leaseTaskID i (s.latestAttemptNo i + 1) none := by
        simp only [JobAttempt.unique, Prod.mk.injEq] at huniq
        rw [huniq.1, huniq.2.1]
        exact h b (mem_attempts_iff.mpr ⟨la, by rw [mem_life_occurrenceID hla hb]; exact hla, hb⟩)
      by_cases hai : a.occurrenceID = i
      · -- the occurrence itself has the attempts it had
        rw [hai] at hl' hla
        obtain rfl := mem_unique hi hla
        obtain rfl := mem_unique hi' hl'
        exact hold a hmem rfl
      · rcases hcontinues.new a hmem with ⟨b, hb, huniq⟩ | ⟨no, hid, htask⟩
        · exact hold b hb huniq
        · rw [hid, htask]
          exact ⟨fun heq => hai (canonicalAttemptID_inj heq), fun heq => hai (leaseTaskID_inj heq)⟩

end Store

/-- The next attempt of the occurrence is leased and not yet over. -/
structure Flight (m : Manager) (j : OccurrenceID) (l : Life) (a : JobAttempt) : Prop where
  life : ∃ o, m.store.life j = some ⟨o, l.attempts ++ [a]⟩ ∧ o.state = .dispatched
  lease : ∃ t d, a = Store.leasedAttempt t j (maxAttemptNo l.attempts + 1)
    (Store.leaseTaskID j (maxAttemptNo l.attempts + 1) none) d

def Manager.working (m : Manager) (a : JobAttempt) : Prop :=
  ∃ w, m.works.lookup a.id = some w ∧ w.attempt = a ∧ w.phase.over = false

/-- The occurrence is past the state in which the pass found it. -/
inductive Moved (m : Manager) (held : Option JobAttempt) (j : OccurrenceID) (l : Life) : Prop where
  | flying (a : JobAttempt) (hflight : Flight m j l a) (hcarried : held = some a ∨ m.working a)
  | done (l' : Life) (hlife : m.store.life j = some l') (hterminal : l'.occurrence.state.terminal = true)
    (hcontinues : l.Continues l' j)

section Flights

section

variable (h : Flight m j l a) {b : JobAttempt}
include h

theorem Flight.congr (hlife : m'.store.life j = m.store.life j) : Flight m' j l a :=
  ⟨by rw [hlife]; exact h.life, h.lease⟩

theorem Flight.life_ne : m.store.life j ≠ some l := by
  obtain ⟨o, hlife, -⟩ := h.life
  rw [hlife]
  intro heq
  have hlen := congrArg (fun x : Life => x.attempts.length) (some.inj heq)
  simp at hlen

theorem Flight.attempt_eq (h' : Flight m j l b) : a = b := by
  obtain ⟨o, hlife, -⟩ := h.life
  obtain ⟨o', hlife', -⟩ := h'.life
  rw [hlife] at hlife'
  have hattempts := congrArg Life.attempts (some.inj hlife')
  simpa using hattempts

theorem Flight.id_eq : a.id = canonicalAttemptID j (maxAttemptNo l.attempts + 1) := by
  obtain ⟨t, d, rfl⟩ := h.lease
  rfl

theorem Flight.occurrenceID_eq : a.occurrenceID = j := by
  obtain ⟨t, d, rfl⟩ := h.lease
  rfl

theorem Flight.id_ne {j' : OccurrenceID} {k : Life} (h' : Flight m j' k b) (hne : j ≠ j') : a.id ≠ b.id := by
  rw [h.id_eq, h'.id_eq]
  exact fun heq => hne (canonicalAttemptID_inj heq)

theorem Flight.owns : m.Owns j a.id := by
  obtain ⟨o, hlife, -⟩ := h.life
  exact ⟨_, hlife, l.attempts.length, a, by simp, rfl⟩

theorem Flight.continues {k : Life} (hlife : m.store.life j = some k) : l.Continues k j := by
  obtain ⟨o, hlife', -⟩ := h.life
  obtain rfl := mem_unique hlife hlife'
  refine ⟨fun b hb => ⟨b, List.mem_append_left _ hb, rfl⟩, fun b hb => ?_⟩
  rcases List.mem_append.mp hb with hb | hb
  · exact .inl ⟨b, hb, rfl⟩
  · obtain ⟨t, d, hlease⟩ := h.lease
    rw [List.mem_singleton.mp hb, hlease]
    exact .inr ⟨_, rfl, rfl⟩

end

theorem maxAttemptNo_concat {attempts : List JobAttempt} (hno : a.attemptNo = maxAttemptNo attempts + 1) :
    maxAttemptNo (attempts ++ [a]) = a.attemptNo := by
  apply le_antisymm
  · apply maxAttemptNo_le
    intro b hb
    rcases List.mem_append.mp hb with hb | hb
    · have := le_maxAttemptNo hb
      omega
    · rw [List.mem_singleton.mp hb]
  · exact le_maxAttemptNo (by simp)

theorem Flight.fence (h : Flight m j l a) : ∃ o, m.store.Held a.id a.leaseEpoch a ⟨o, l.attempts ++ [a]⟩ ∧ a.state.active = true := by
  obtain ⟨o, hlife, hstate⟩ := h.life
  obtain ⟨t, d, hlease⟩ := h.lease
  have hlife' : m.store.life a.occurrenceID = some ⟨o, l.attempts ++ [a]⟩ := by
    rw [h.occurrenceID_eq]
    exact hlife
  refine ⟨o, ⟨?_, rfl, hlife', ?_, hstate⟩, by rw [hlease]; rfl⟩
  · exact Store.attempt?_of_mem (Store.mem_attempts_iff.mpr ⟨_, hlife', by simp⟩)
  · exact maxAttemptNo_concat (by rw [hlease]; rfl)

theorem Flight.commit (env : Env) (t : Time) (h : Flight m j l a)
    (hres : (Phase.pending res).completing = true) : env.commitAttemptResult t a res m.store =
      .ok (m.store.recordResult t a.id a.leaseEpoch .completed (env.encodeAttemptResultMetadata res)
        res.failure.message a.occurrenceID) := by
  obtain ⟨o, hfence, hact⟩ := h.fence
  simp only [Phase.completing, Bool.and_eq_true, beq_iff_eq, bne_iff_ne] at hres
  rw [Env.commitAttemptResult, if_neg hres.2, hres.1, attemptState, Store.commitAttemptResult,
    Store.commitAttempt_of_held hfence hact rfl]

theorem Moved.congr (h : Moved m held j l) (hlife : m'.store.life j = m.store.life j)
    (hcarried : ∀ a, Flight m j l a → held = some a ∨ m.working a → held' = some a ∨ m'.working a) : Moved m' held' j l := by
  cases h with
  | flying a hflight h => exact .flying a (hflight.congr hlife) (hcarried a hflight h)
  | done l' hl' hterminal hcontinues => exact .done l' (by rw [hlife]; exact hl') hterminal hcontinues

theorem Moved.life_ne (h : Moved m held j l) (hdispatched : l.occurrence.state = .dispatched) : m.store.life j ≠ some l := by
  cases h with
  | flying a hflight => exact hflight.life_ne
  | done l' hlife hterminal =>
    rw [hlife]
    intro heq
    rw [some.inj heq, hdispatched] at hterminal
    cases hterminal

theorem Moved.continues (h : Moved m held j l) : ∃ k, m.store.life j = some k ∧ l.Continues k j := by
  cases h with
  | flying a hflight =>
    obtain ⟨o, hlife, -⟩ := hflight.life
    exact ⟨_, hlife, hflight.continues hlife⟩
  | done l' hlife _ hcontinues => exact ⟨l', hlife, hcontinues⟩

end Flights

/-! ### The state of a pass -/

section Pass

variable (env : Env) (now : Time) (limit : Int) (m₀ : Manager)

/-- The occurrence is on the page, and a pass resolves it if it is due. -/
structure Listed (l : Life) : Prop where
  page : l.occurrence ∈ m₀.store.unresolved limit
  resolves : l.occurrence.readyAt ≤ now → env.resolves now m₀ l = true

/-- A pass that began at `m₀` stands at `m`: `todo` is still to be looked at, and `held` is leased but not
yet with the engine. -/
structure Progress (m : Manager) (todo : List RecoveryCandidate) (held : Option JobAttempt) : Prop where
  absent : ∀ j, m₀.store.life j = none → m.store.life j = none
  fate : ∀ j l, m₀.store.life j = some l → m.store.life j = some l ∨ Listed env now limit m₀ l ∧ Moved m held j l
  tracked : ∀ j l, m₀.store.life j = some l → m.store.life j = some l → m.tracked.lookup j = m₀.tracked.lookup j
  works : ∀ k w, m.works.lookup k = some w → w.attempt.id = k ∧ (∃ j, m.Owns j k) ∧
    (w.phase.over = false → w.phase.completing = true ∧ ∃ j l, m₀.store.life j = some l ∧ Flight m j l w.attempt)
  leased : ∀ a, held = some a → m.admitted a.id = false ∧ ∃ l, m₀.store.life a.occurrenceID = some l ∧
    Listed env now limit m₀ l ∧ Flight m a.occurrenceID l a
  listed : ∀ c ∈ todo, c ∈ m₀.store.listRecoveryCandidates limit ∧
    m.store.life c.occurrence.id = m₀.store.life c.occurrence.id
  nodup : (todo.map (·.occurrence.id)).Nodup
  visited : ∀ c ∈ m₀.store.listRecoveryCandidates limit, c ∈ todo ∨ ∀ l, m₀.store.life c.occurrence.id = some l →
    env.resolves now m₀ l = true → m.store.life c.occurrence.id ≠ some l

/-- Where `Recover` is: what it has still to look at, and the attempt it has leased. -/
inductive Place : Task → List RecoveryCandidate → Option JobAttempt → Prop where
  | scan (todo : List RecoveryCandidate) (report : RecoverReport) : Place (.scan todo report) todo none
  | lease (c : RecoveryCandidate) (rest : List RecoveryCandidate) (report : RecoverReport) (definition : JobDefinition)
    (t : Time) (ht : now ≤ t)
    (hfinding : env.finding t (m₀.tracked.lookup c.occurrence.id).isSome c = .drive definition) :
    Place (.drive (.recover c rest report) c.occurrence.id definition .lease) (c :: rest) none
  | track (c : RecoveryCandidate) (rest : List RecoveryCandidate) (report : RecoverReport) (definition : JobDefinition)
    (a : JobAttempt) (ha : a.occurrenceID = c.occurrence.id) :
    Place (.drive (.recover c rest report) c.occurrence.id definition (.track a)) rest (some a)
  | client (c : RecoveryCandidate) (rest : List RecoveryCandidate) (report : RecoverReport) (definition : JobDefinition)
    (a : JobAttempt) : Place (.drive (.recover c rest report) c.occurrence.id definition (.client a)) rest (some a)
  | enqueue (c : RecoveryCandidate) (rest : List RecoveryCandidate) (report : RecoverReport) (definition : JobDefinition)
    (a : JobAttempt) : Place (.drive (.recover c rest report) c.occurrence.id definition (.enqueue a)) rest none
  | close (c : RecoveryCandidate) (state : OccurrenceState) (ground : Ground) (rest : List RecoveryCandidate)
    (report : RecoverReport) (t : Time) (ht : now ≤ t)
    (hfinding : env.finding t (m₀.tracked.lookup c.occurrence.id).isSome c = .finalize state ground) :
    Place (.close c state ground rest report) (c :: rest) none
  | closed (c : RecoveryCandidate) (rest : List RecoveryCandidate) (report : RecoverReport)
    (huntracked : m₀.tracked.lookup c.occurrence.id = none) : Place (.closed c rest report) rest none
  | recovered (report : RecoverReport) : Place (.recovered (.ok report)) [] none

end Pass

section Steps

namespace Progress

variable {k : AttemptID} {env : Env} {limit : Int} {m₀ : Manager} {rest todo : List RecoveryCandidate} {c : RecoveryCandidate} {w : Work}
  {t : Time} {report : RecoverReport} {task' : Task}

theorem continues (h : Progress env now limit m₀ m todo held) (hl : m₀.store.life j = some l) :
    ∃ k, m.store.life j = some k ∧ l.Continues k j := by
  rcases h.fate j l hl with hkept | ⟨-, hmoved⟩
  · exact ⟨l, hkept, .refl l j⟩
  · exact hmoved.continues

theorem nextFree (h : Progress env now limit m₀ m todo held) (hl : m₀.store.life j = some l)
    (hkept : m.store.life j = some l) : m.store.nextFree j = m₀.store.nextFree j :=
  Store.nextFree_congr hl hkept (fun _ _ hl => h.continues hl) h.absent

theorem candidate (h : Progress env now limit m₀ m (c :: rest) held) : ∃ l, m₀.store.life c.occurrence.id = some l ∧
    m.store.life c.occurrence.id = some l ∧ l.candidate? = some c ∧ l.occurrence ∈ m₀.store.unresolved limit := by
  obtain ⟨hpage, hkept⟩ := h.listed c List.mem_cons_self
  obtain ⟨l, hl, hc, hmem⟩ := Store.mem_listRecoveryCandidates.mp hpage
  exact ⟨l, hl, hkept.trans hl, hc, hmem⟩

theorem ne_of_mem {c' : RecoveryCandidate} (h : Progress env now limit m₀ m (c :: rest) held) (hc' : c' ∈ rest) :
    c'.occurrence.id ≠ c.occurrence.id := by
  have hnodup := List.nodup_cons.mp h.nodup
  exact fun heq => hnodup.1 (List.mem_map.mpr ⟨c', hc', heq⟩)

/-- A candidate that no pass resolves is passed over. -/
theorem skip (h : Progress env now limit m₀ m (c :: rest) none)
    (hno : ∀ l, m₀.store.life c.occurrence.id = some l → l.candidate? = some c → env.resolves now m₀ l = false) :
    Progress env now limit m₀ m rest none :=
  { h with
    listed := fun c' hc' => h.listed c' (List.mem_cons_of_mem _ hc')
    nodup := (List.nodup_cons.mp h.nodup).2
    visited := by
      intro c' hc'
      rcases h.visited c' hc' with hmem | hdone
      · rcases List.mem_cons.mp hmem with rfl | hmem
        · obtain ⟨l, hl, -, hc, -⟩ := h.candidate
          refine .inr fun k hk hresolves => ?_
          obtain rfl := mem_unique hl hk
          rw [hno l hl hc] at hresolves
          cases hresolves
        · exact .inl hmem
      · exact .inr hdone }

section

variable (h : Progress env now limit m₀ m todo held) {l' : Life}
include h

theorem same (hstore : m'.store = m.store) (hworks : m'.works = m.works)
    (htracked : ∀ j l, m₀.store.life j = some l → m.store.life j = some l →
      m'.tracked.lookup j = m₀.tracked.lookup j) : Progress env now limit m₀ m' todo held := by
  obtain ⟨store', works', process', tracked', queue', accepting', sequence'⟩ := m'
  cases hstore
  cases hworks
  refine ⟨h.absent, fun j l hl => (h.fate j l hl).imp_right fun hmoved => ⟨hmoved.1, ?_⟩, htracked, ?_, ?_, h.listed,
    h.nodup, h.visited⟩
  · exact hmoved.2.congr rfl fun a _ hcarried => hcarried
  · intro k w hw
    obtain ⟨hid, howns, hlive⟩ := h.works k w hw
    refine ⟨hid, howns, fun hover => ?_⟩
    obtain ⟨hcompleting, j, l, hl, hflight⟩ := hlive hover
    exact ⟨hcompleting, j, l, hl, hflight.congr rfl⟩
  · intro a ha
    obtain ⟨hnew, l, hl, hlisted, hflight⟩ := h.leased a ha
    exact ⟨hnew, l, hl, hlisted, hflight.congr rfl⟩

theorem set {todo' : List RecoveryCandidate} (hsets : m.store.Sets m'.store i l') (hl : m₀.store.life i = some l)
    (hlisted : Listed env now limit m₀ l) (hmoved : Moved m' held' i l) (htracked : m'.tracked = m.tracked)
    (hcarried : ∀ j k a, j ≠ i → m₀.store.life j = some k → Flight m j k a → held = some a ∨ m.working a → held' = some a ∨ m'.working a)
    (hworks : ∀ k w, m'.works.lookup k = some w → w.attempt.id = k ∧ (∃ j, m'.Owns j k) ∧
      (w.phase.over = false → w.phase.completing = true ∧ ∃ j l, m₀.store.life j = some l ∧ Flight m' j l w.attempt))
    (hleases : ∀ a, held' = some a → m'.admitted a.id = false ∧ ∃ l, m₀.store.life a.occurrenceID = some l ∧
      Listed env now limit m₀ l ∧ Flight m' a.occurrenceID l a)
    (hsub : ∀ c ∈ todo', c ∈ todo ∧ c.occurrence.id ≠ i) (hrest : ∀ c ∈ todo, c ∈ todo' ∨ c.occurrence.id = i)
    (hnodup : (todo'.map (·.occurrence.id)).Nodup) : Progress env now limit m₀ m' todo' held' := by
  have hother (j : OccurrenceID) (hj : j ≠ i) : m'.store.life j = m.store.life j := by rw [hsets j, if_neg hj]
  have hself : m'.store.life i ≠ some l := hmoved.life_ne (Store.mem_unresolved.mp hlisted.page).1.2
  refine ⟨fun j hj => ?_, fun j k hk => ?_, fun j k hk hkept => ?_, hworks, hleases, fun c hc => ?_, hnodup,
    fun c hc => ?_⟩
  · have hji : j ≠ i := by
      rintro rfl
      rw [hl] at hj
      cases hj
    rw [hother j hji]
    exact h.absent j hj
  · by_cases hji : j = i
    · subst hji
      obtain rfl := mem_unique hl hk
      exact .inr ⟨hlisted, hmoved⟩
    · rw [hother j hji]
      refine (h.fate j k hk).imp_right fun hfate => ⟨hfate.1, hfate.2.congr (hother j hji) ?_⟩
      exact fun a hflight hheld => hcarried j k a hji hk hflight hheld
  · have hji : j ≠ i := by
      rintro rfl
      obtain rfl := mem_unique hl hk
      exact hself hkept
    rw [hother j hji] at hkept
    rw [htracked]
    exact h.tracked j k hk hkept
  · obtain ⟨hmem, hne⟩ := hsub c hc
    rw [hother _ hne]
    exact h.listed c hmem
  · by_cases hci : c.occurrence.id = i
    · refine .inr fun k hk _ => ?_
      rw [hci] at hk ⊢
      obtain rfl := mem_unique hl hk
      exact hself
    · rw [hother _ hci]
      rcases h.visited c hc with hmem | hdone
      · exact .inl ((hrest c hmem).resolve_right hci)
      · exact .inr hdone

theorem works_of_kept (hgrows : m.Grows m')
    (hsets : m.store.Sets m'.store i l') (hl : m₀.store.life i = some l) (hkept : m.store.life i = some l)
    (hw : m.works.lookup k = some w) : w.attempt.id = k ∧ (∃ j, m'.Owns j k) ∧
      (w.phase.over = false → w.phase.completing = true ∧ ∃ j l, m₀.store.life j = some l ∧ Flight m' j l w.attempt) := by
  obtain ⟨hid, ⟨j, howns⟩, hlive⟩ := h.works k w hw
  refine ⟨hid, ⟨j, howns.mono hgrows⟩, fun hover => ?_⟩
  obtain ⟨hcompleting, j', l', hl', hflight⟩ := hlive hover
  have hne : j' ≠ i := by
    rintro rfl
    obtain rfl := mem_unique hl hl'
    exact hflight.life_ne hkept
  exact ⟨hcompleting, j', l', hl', hflight.congr (by rw [hsets j', if_neg hne])⟩

theorem hworks_id : ∀ k w, m.works.lookup k = some w → w.attempt.id = k :=
  fun k w hw => (h.works k w hw).1

end

/-- The next attempt of the first candidate is leased, or the candidate cannot be resolved. -/
theorem lease {definition : JobDefinition} (h : Progress env now limit m₀ m (c :: rest) none) (hsmooth : choice.smooth now = true)
    (ht : now ≤ t) (hfinding : env.finding t (m₀.tracked.lookup c.occurrence.id).isSome c = .drive definition)
    (hstep : env.drive choice m (.recover c rest report) c.occurrence.id definition .lease = some (m', task')) :
    (∃ report', task' = .scan rest report' ∧ Progress env now limit m₀ m' rest none) ∨
      ∃ a, task' = .drive (.recover c rest report) c.occurrence.id definition (.track a) ∧
        a.occurrenceID = c.occurrence.id ∧ Progress env now limit m₀ m' rest (some a) := by
  obtain ⟨hfault, -, hnow, -⟩ := Choice.smooth_iff.mp hsmooth
  obtain ⟨l, hl, hkept, hc, hpage⟩ := h.candidate
  obtain ⟨hocc, -, hlatest⟩ := Life.candidate?_eq_some hc
  obtain ⟨-, -, -, -, hterminal⟩ := finding_acts (by rw [hfinding]; simp) (by rw [hfinding]; simp)
    (by rw [hfinding]; simp)
  have hdispatched := (Store.mem_unresolved.mp hpage).1.2
  have hid : l.occurrence.id = c.occurrence.id := by rw [hocc]
  have hfree := h.nextFree hl hkept
  have hdrive (hdue : l.occurrence.readyAt ≤ now) :
      env.finding now (m₀.tracked.lookup l.occurrence.id).isSome c = .drive definition := by
    rw [← finding_of_due (by rw [hocc]; exact hdue) ht, hid]
    exact hfinding
  have hgrows := (drive_step hstep).change.grows h.hworks_id
  simp only [Env.drive, Choice.call, hfault] at hstep
  split at hstep
  · rename_i err herr
    cases hstep
    refine .inl ⟨_, rfl, h.skip fun k hk _ => Bool.eq_false_iff.mpr fun hresolves => ?_⟩
    obtain rfl := mem_unique hl hk
    have hdue : l.occurrence.readyAt ≤ now := by
      have hrec := (recoverable_of_resolves hresolves).1
      simp only [Env.recoverable, Bool.and_eq_true, decide_eq_true_eq] at hrec
      exact hrec.1.1.1.1
    have hnext : m.store.nextFree c.occurrence.id = true := by
      obtain ⟨c', hc', ⟨_, _, hfinal⟩ | ⟨-, hnext⟩⟩ := resolves_iff.mp hresolves
      · obtain rfl := mem_unique hc hc'
        rw [hdrive hdue] at hfinal
        cases hfinal
      · rw [hfree, ← hid]
        exact hnext
    obtain ⟨r, hr⟩ := (Store.prepareNextAttemptLease_isOk hkept hdispatched
      (hdue.trans hnow) hlatest hterminal leaseDurationFor_pos).mpr hnext
    rw [hr] at herr
    cases herr
  · rename_i s' a hok
    cases hstep
    have hlease : m.store.prepareLease env.fmt choice.now choice.later c.occurrence.id none
        (leaseDurationFor definition) = .ok (s', a) := hok
    obtain ⟨k, hk, hleasable, ha, hsets⟩ := Store.prepareLease_ok hlease
    obtain rfl := mem_unique hkept hk
    have hnext : m.store.nextFree c.occurrence.id = true :=
      (Store.prepareNextAttemptLease_isOk hkept hdispatched hleasable.1 hlatest hterminal
        leaseDurationFor_pos).mp ⟨_, hok⟩
    have hoccurrence : a.occurrenceID = c.occurrence.id := by rw [ha]; rfl
    have hlisted : Listed env now limit m₀ l := by
      refine ⟨hpage, fun hdue => resolves_iff.mpr ⟨c, hc, .inr ⟨⟨definition, hdrive hdue⟩, ?_⟩⟩⟩
      rw [hid, ← hfree]
      exact hnext
    have hflight : Flight { m with store := s' } c.occurrence.id l a :=
      ⟨⟨_, by rw [hsets, if_pos rfl], rfl⟩, ⟨_, _, ha⟩⟩
    refine .inr ⟨a, rfl, hoccurrence, h.set hsets hl hlisted (.flying a hflight (.inl rfl)) rfl ?_ ?_ ?_ ?_ ?_
      (List.nodup_cons.mp h.nodup).2⟩
    · rintro j k b - - - (hheld | hwork)
      · cases hheld
      · exact .inr hwork
    · exact fun k w hw => h.works_of_kept hgrows hsets hl hkept hw
    · rintro b hb
      cases hb
      refine ⟨?_, l, by rw [hoccurrence]; exact hl, hlisted, by rw [hoccurrence]; exact hflight⟩
      -- the engine knows only attempts of the store, and the store had none of this id
      refine Bool.eq_false_iff.mpr fun hadmitted => ?_
      obtain ⟨w, hw⟩ := isSome_iff_exists.mp hadmitted
      obtain ⟨-, ⟨j, k, hk, n, b, hb, hbid⟩, -⟩ := h.works _ w hw
      have hmem : b ∈ m.store.attempts.rows := by
        have hb := List.mem_of_getElem? hb
        exact Store.mem_attempts_iff.mpr ⟨k, by rw [Store.mem_life_occurrenceID hk hb]; exact hk, hb⟩
      refine (Store.nextFree_iff.mp hnext).2 choice.later (leaseDurationFor definition) b hmem (.inl ?_)
      show b.id = _
      rw [hbid, ha, Store.latestAttemptNo, ← (Store.life_eq_some hkept).2]
      rfl
    · exact fun c' hc' => ⟨List.mem_cons_of_mem _ hc', h.ne_of_mem hc'⟩
    · intro c' hc'
      rcases List.mem_cons.mp hc' with rfl | hc'
      · exact .inr rfl
      · exact .inl hc'

theorem close {state : OccurrenceState} {ground : Ground} (h : Progress env now limit m₀ m (c :: rest) none)
    (hsmooth : choice.smooth now = true) (ht : now ≤ t)
    (hfinding : env.finding t (m₀.tracked.lookup c.occurrence.id).isSome c = .finalize state ground)
    (hstep : env.advance choice m (.close c state ground rest report) = some (m', task')) :
    task' = .closed c rest report ∧ Progress env now limit m₀ m' rest none := by
  obtain ⟨hfault, -⟩ := Choice.smooth_iff.mp hsmooth
  obtain ⟨l, hl, hkept, hc, hpage⟩ := h.candidate
  obtain ⟨hocc, -, -⟩ := Life.candidate?_eq_some hc
  have hdispatched := (Store.mem_unresolved.mp hpage).1.2
  have hid : l.occurrence.id = c.occurrence.id := by rw [hocc]
  have hgrows := (advance_change hstep).grows h.hworks_id
  have hfinal := finding_finalize hfinding
  obtain ⟨s', hs', hsets⟩ := Store.finalizeOccurrence_of_dispatched choice.now hkept hdispatched hfinal
  simp only [Env.advance, Choice.call, hfault, hs'] at hstep
  cases hstep
  have hlisted : Listed env now limit m₀ l := by
    refine ⟨hpage, fun hdue => resolves_iff.mpr ⟨c, hc, .inl ⟨state, ground, ?_⟩⟩⟩
    rw [← finding_of_due (by rw [hocc]; exact hdue) ht, hid]
    exact hfinding
  refine ⟨rfl, h.set hsets hl hlisted (.done _ (by rw [hsets, if_pos rfl]) ?_ ?_) rfl ?_ ?_ ?_ ?_ ?_
    (List.nodup_cons.mp h.nodup).2⟩
  · rcases hfinal with rfl | rfl <;> rfl
  · have hsame := Life.Continues.refl l c.occurrence.id
    exact ⟨hsame.old, hsame.new⟩
  · exact fun j k b _ _ _ hheld => hheld
  · exact fun k w hw => h.works_of_kept hgrows hsets hl hkept hw
  · simp
  · exact fun c' hc' => ⟨List.mem_cons_of_mem _ hc', h.ne_of_mem hc'⟩
  · intro c' hc'
    rcases List.mem_cons.mp hc' with rfl | hc'
    · exact .inr rfl
    · exact .inl hc'

theorem rework {works : AList fun _ : AttemptID => Work} (h : Progress env now limit m₀ m todo held)
    (hcarried : ∀ a, held = some a ∨ m.working a → held' = some a ∨ Manager.working { m with works := works } a)
    (hworks : ∀ k w, works.lookup k = some w → w.attempt.id = k ∧ (∃ j, m.Owns j k) ∧
      (w.phase.over = false → w.phase.completing = true ∧ ∃ j l, m₀.store.life j = some l ∧ Flight m j l w.attempt))
    (hleases : ∀ a, held' = some a → held = some a ∧ (works.lookup a.id).isSome = false) :
    Progress env now limit m₀ { m with works := works } todo held' where
  absent := h.absent
  fate := fun j l hl => (h.fate j l hl).imp_right fun hmoved =>
    ⟨hmoved.1, hmoved.2.congr rfl fun a _ hheld => hcarried a hheld⟩
  tracked := h.tracked
  works := by
    intro k w hw
    obtain ⟨hid, howns, hlive⟩ := hworks k w hw
    refine ⟨hid, howns, fun hover => ?_⟩
    obtain ⟨hcompleting, j, l, hl, hflight⟩ := hlive hover
    exact ⟨hcompleting, j, l, hl, hflight.congr rfl⟩
  leased := by
    intro a ha
    obtain ⟨hheld, hnew⟩ := hleases a ha
    obtain ⟨-, l, hl, hlisted, hflight⟩ := h.leased a hheld
    exact ⟨hnew, l, hl, hlisted, hflight.congr rfl⟩
  listed := h.listed
  nodup := h.nodup
  visited := h.visited

theorem take (h : Progress env now limit m₀ m todo (some a)) :
    Progress env now limit m₀ { m with works := m.works.insert a.id ⟨a, .running⟩ } todo none := by
  obtain ⟨hnew, l, hl, _, hflight⟩ := h.leased a rfl
  have hne {k : AttemptID} {w : Work} (hw : m.works.lookup k = some w) : k ≠ a.id := by
    rintro rfl
    simp [Manager.admitted, hw] at hnew
  refine h.rework ?_ ?_ (by simp)
  · rintro b (hb | ⟨w, hw, hwork⟩)
    · cases hb
      exact .inr ⟨_, lookup_insert _, rfl, rfl⟩
    · exact .inr ⟨w, by rw [lookup_insert_ne (hne hw)]; exact hw, hwork⟩
  · intro k w hw
    by_cases hk : k = a.id
    · subst hk
      obtain rfl := some.inj ((lookup_insert _).symm.trans hw)
      exact ⟨rfl, ⟨_, hflight.owns⟩, fun _ => ⟨rfl, _, l, hl, hflight⟩⟩
    · rw [lookup_insert_ne hk] at hw
      exact h.works k w hw

section

variable (h : Progress env now limit m₀ m todo held)
include h

theorem finish
    (hw : m.works.lookup k = some w) (hphase : w.phase = .running) (hres : (Phase.pending res).completing = true) :
    Progress env now limit m₀ { m with works := m.works.insert k { w with phase := .pending res } } todo held := by
  obtain ⟨hid, howns, hlive⟩ := h.works k w hw
  obtain ⟨-, hflight⟩ := hlive (by rw [hphase]; rfl)
  refine h.rework ?_ ?_ ?_
  · rintro a (ha | ⟨w', hw', hattempt, hover⟩)
    · exact .inl ha
    · refine .inr ?_
      by_cases hk : a.id = k
      · subst hk
        obtain rfl := mem_unique hw hw'
        exact ⟨_, lookup_insert _, hattempt, rfl⟩
      · exact ⟨w', by rw [lookup_insert_ne hk]; exact hw', hattempt, hover⟩
  · intro k' w' hw'
    by_cases hk : k' = k
    · subst hk
      obtain rfl := some.inj ((lookup_insert _).symm.trans hw')
      exact ⟨hid, howns, fun _ => ⟨hres, hflight⟩⟩
    · rw [lookup_insert_ne hk] at hw'
      exact h.works k' w' hw'
  · intro a ha
    obtain ⟨hnew, -⟩ := h.leased a ha
    have hk : a.id ≠ k := by
      rintro rfl
      simp [Manager.admitted, hw] at hnew
    exact ⟨ha, by rw [lookup_insert_ne hk]; exact hnew⟩

theorem commit {s' : Store} (hw : m.works.lookup k = some w) (hphase : w.phase = .pending res)
    (hgrows : m.Grows { m with store := s', works := m.works.insert k { w with phase := .answered res } })
    (hok : env.commitAttemptResult t w.attempt res m.store = .ok s') :
    Progress env now limit m₀ { m with store := s', works := m.works.insert k { w with phase := .answered res } }
      todo held := by
  obtain ⟨hid, -, hlive⟩ := h.works k w hw
  obtain ⟨hcompleting, j, l, hl, hflight⟩ := hlive (by rw [hphase]; rfl)
  obtain ⟨o, hfence, _⟩ := hflight.fence
  have hoccurrence := hflight.occurrenceID_eq
  rw [hflight.commit env t (hphase ▸ hcompleting)] at hok
  obtain ⟨before, after, hsplit, hsets⟩ := Store.recordResult_sets t .completed
    (env.encodeAttemptResultMetadata res) res.failure.message hfence
  rw [Except.ok.inj hok, hoccurrence] at hsets
  have hlisted : Listed env now limit m₀ l := by
    rcases h.fate j l hl with hkept | ⟨hlisted, -⟩
    · exact absurd hkept hflight.life_ne
    · exact hlisted
  have hcontinues : l.Continues ⟨o, before ++ w.attempt :: after⟩ j := by
    rw [← hsplit]
    exact hflight.continues (hoccurrence ▸ hfence.life)
  -- another attempt in flight is one of another occurrence
  have hother {j' : OccurrenceID} {l' : Life} {b : JobAttempt} (hb : Flight m j' l' b) (hl' : m₀.store.life j' = some l')
      (hne : b.id ≠ k) : j' ≠ j := by
    rintro rfl
    obtain rfl := mem_unique hl hl'
    exact hne (by rw [hb.attempt_eq hflight, hid])
  have hkeep {j' : OccurrenceID} {l' : Life} {b : JobAttempt} (hb : Flight m j' l' b) (hne : j' ≠ j) :
      Flight { m with store := s', works := m.works.insert k { w with phase := .answered res } } j' l' b :=
    hb.congr (by
      rw [hsets j', if_neg hne])
  refine h.set hsets hl hlisted (.done _ ((hsets j).trans (if_pos rfl)) rfl (hcontinues.settle rfl)) rfl ?_ ?_ ?_ ?_ (fun c hc => .inl hc) h.nodup
  · rintro j' l' b hne hl' hb (hheld | ⟨w', hw', hattempt, hover⟩)
    · exact .inl hheld
    · have hk : b.id ≠ k := by
        rw [← hid]
        exact hb.id_ne hflight hne
      exact .inr ⟨w', by rw [lookup_insert_ne hk]; exact hw', hattempt, hover⟩
  · intro k' w' hw'
    by_cases hk : k' = k
    · subst hk
      obtain rfl := some.inj ((lookup_insert _).symm.trans hw')
      obtain ⟨-, ⟨j', howns⟩, -⟩ := h.works k' w hw
      exact ⟨hid, ⟨j', howns.mono hgrows⟩, nofun⟩
    · rw [lookup_insert_ne hk] at hw'
      obtain ⟨hid', ⟨j', howns⟩, hlive'⟩ := h.works k' w' hw'
      refine ⟨hid', ⟨j', howns.mono hgrows⟩, fun hover => ?_⟩
      obtain ⟨hcompleting', i, l', hl', hb⟩ := hlive' hover
      exact ⟨hcompleting', i, l', hl', hkeep hb (hother hb hl' (by rw [hid']; exact hk))⟩
  · intro b hb
    obtain ⟨hnew, l', hl', hlisted', hflight'⟩ := h.leased b hb
    have hk : b.id ≠ k := by
      rintro rfl
      simp [Manager.admitted, hw] at hnew
    refine ⟨?_, l', hl', hlisted', hkeep hflight' (hother hflight' hl' hk)⟩
    simp only [Manager.admitted, lookup_insert_ne hk]
    exact hnew
  · intro c hc
    refine ⟨hc, fun heq => ?_⟩
    have hkept := (h.listed c hc).2
    rw [heq, hl] at hkept
    exact hflight.life_ne hkept

theorem engine (hsmooth : choice.smooth now = true)
    (hstep : env.engineStep choice m = some m') : Progress env now limit m₀ m' todo held ∧ m'.process = m.process := by
  obtain ⟨hfault, -, -, huncommitted, huncertain, hout, hcause⟩ := Choice.smooth_iff.mp hsmooth
  have hgrows := (engineStep_change hstep).grows h.hworks_id
  unfold Env.engineStep at hstep
  split at hstep
  · cases hstep
  · rename_i w hw
    obtain ⟨hid, _, hlive⟩ := h.works _ w hw
    split at hstep
    · rename_i hphase
      cases hstep
      refine ⟨?_, rfl⟩
      rw [huncommitted]
      exact h.finish hw hphase (by simp [Phase.completing, hout, hcause])
    · rename_i res hphase
      obtain ⟨hcompleting, j, l, hl, hflight⟩ := hlive (by rw [hphase]; rfl)
      have hok := hflight.commit env choice.now (hphase ▸ hcompleting)
      simp only [huncertain, Choice.call, hfault, hok, Bool.false_eq_true, if_false] at hstep
      cases hstep
      exact ⟨h.commit hw hphase hgrows hok, rfl⟩
    · rename_i res hphase
      obtain ⟨hcompleting, -⟩ := hlive (by rw [hphase]; rfl)
      rw [hphase] at hcompleting
      cases hcompleting
    · cases hstep
    · cases hstep

theorem advance (hplace : Place env now m₀ task todo held) (hsmooth : choice.smooth now = true)
    (hstep : env.advance choice m task = some (m', task')) : m'.process = m.process ∧
      ∃ todo' held', Place env now m₀ task' todo' held' ∧ Progress env now limit m₀ m' todo' held' := by
  obtain ⟨_, hrejected, hnow, -⟩ := Choice.smooth_iff.mp hsmooth
  cases hplace with
  | scan todo report =>
    cases todo with
    | nil =>
      cases hstep
      exact ⟨rfl, _, _, .recovered report, h⟩
    | cons c rest =>
      obtain ⟨l, hl, hkept, hc, _⟩ := h.candidate
      have htracked := h.tracked _ l hl hkept
      -- what the pass finds at its clock is what it would have found at `now`, if the candidate was due then
      have hskip (hfin : ∀ state ground, env.finding choice.now (m₀.tracked.lookup c.occurrence.id).isSome c ≠
          .finalize state ground) (hdrive : ∀ definition,
          env.finding choice.now (m₀.tracked.lookup c.occurrence.id).isSome c ≠ .drive definition) :
          Progress env now limit m₀ m rest none := by
        refine h.skip fun k hk hck => Bool.eq_false_iff.mpr fun hresolves => ?_
        have hdue := (recoverable_of_resolves hresolves).1
        simp only [Env.recoverable, Bool.and_eq_true, decide_eq_true_eq] at hdue
        obtain ⟨c', hc', hfinding⟩ := resolves_iff.mp hresolves
        obtain rfl := mem_unique hck hc'
        have hocc' := (Life.candidate?_eq_some hck).1
        rw [← finding_of_due (by rw [hocc']; exact hdue.1.1.1.1) hnow, ← hocc'] at hfinding
        rcases hfinding with ⟨state, ground, hfinding⟩ | ⟨⟨definition, hfinding⟩, -⟩
        · exact hfin state ground hfinding
        · exact hdrive definition hfinding
      simp only [Env.advance, htracked] at hstep
      split at hstep <;> cases hstep
      iterate 3
        · rename_i hfinding
          exact ⟨rfl, _, _, .scan _ _, hskip (by simp [hfinding]) (by simp [hfinding])⟩
      · rename_i state ground hfinding
        exact ⟨rfl, _, _, .close c state ground rest _ choice.now hnow hfinding, h⟩
      · rename_i definition hfinding
        exact ⟨rfl, _, _, .lease c rest _ definition choice.now hnow hfinding, h⟩
  | lease c rest report definition t ht hfinding =>
    refine ⟨?_, ?_⟩
    · simp only [Env.advance, Env.drive] at hstep
      split at hstep <;> obtain ⟨rfl, rfl⟩ := Prod.mk.inj (some.inj hstep) <;> rfl
    · rcases h.lease hsmooth ht hfinding hstep with ⟨report', rfl, hnext⟩ | ⟨a, rfl, ha, hnext⟩
      · exact ⟨_, _, .scan rest report', hnext⟩
      · exact ⟨_, _, .track c rest report definition a ha, hnext⟩
  | track c rest report definition a ha =>
    cases hstep
    refine ⟨rfl, _, _, .client c _ report definition a, h.same rfl rfl fun j l hl hkept => ?_⟩
    obtain ⟨-, l', hl', -, hflight⟩ := h.leased a rfl
    have hne : j ≠ c.occurrence.id := by
      rintro rfl
      rw [ha, hl] at hl'
      cases hl'
      exact hflight.life_ne (by rw [ha]; exact hkept)
    rw [lookup_insert_ne hne]
    exact h.tracked j l hl hkept
  | client c rest report definition a =>
    simp only [Env.advance, Env.drive, hrejected, (h.leased a rfl).1] at hstep
    cases hstep
    exact ⟨rfl, _, _, .enqueue c _ report definition a, h.take⟩
  | enqueue =>
    simp only [Env.advance, Env.drive] at hstep
    split_ifs at hstep <;> cases hstep
    · exact ⟨rfl, _, _, .scan _ _, h⟩
    · exact ⟨rfl, _, _, .scan _ _, h.same rfl rfl h.tracked⟩
  | close c state ground rest report t ht hfinding =>
    refine ⟨?_, ?_⟩
    · simp only [Env.advance] at hstep
      split at hstep <;> obtain ⟨rfl, rfl⟩ := Prod.mk.inj (some.inj hstep) <;> rfl
    · obtain ⟨rfl, hnext⟩ := h.close hsmooth ht hfinding hstep
      have huntracked := (finding_acts (by rw [hfinding]; simp) (by rw [hfinding]; simp) (by rw [hfinding]; simp)).2.1
      exact ⟨_, _, .closed c rest report (by simpa using huntracked), hnext⟩
  | closed c rest report huntracked =>
    cases hstep
    refine ⟨rfl, _, _, .scan _ _, h.same rfl rfl fun j l hl hkept => ?_⟩
    by_cases hj : j = c.occurrence.id
    · subst hj
      rw [huntracked]
      exact lookup_erase _ _
    · rw [lookup_erase_ne hj]
      exact h.tracked j l hl hkept
  | recovered => cases hstep

end

end Progress

end Steps

end Goultroid.Jobs
