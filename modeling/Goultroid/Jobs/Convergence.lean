import Goultroid.Jobs.Budget
import Goultroid.Jobs.Passes

/-!
# Repeated recovery

What one pass leaves behind (`Outcome`) says which occurrences repeated passes reach: those that a pass
resolves and that fewer occurrences than the page holds stand before for ever. Every other one stays as
it is, however often `Recover` is called.

A pass can always be made, by a measure that every step of `Recover` lowers (`Task.left`). What no pass
resolves keeps its place in the order of the page, so that an occurrence behind a page full of these is
never listed (`Passes.unreached`). Where every recoverable occurrence is reached, one on the page is
resolved as long as there is any (`Env.reaches_page`), and their number goes down (`Outcome.owed_lt`).
-/

namespace Goultroid.Jobs

open List AList Store Jobs.Env
open Threads (Act Acts Pool Run)

variable {m' : Manager} {n : Nat}

/-- Nothing is under way, and every attempt the engine knows is one of the database. -/
structure Manager.Rests (m : Manager) : Prop where
  idle : m.Idle
  works : ∀ k w, m.works.lookup k = some w → w.attempt.id = k ∧ ∃ j, m.Owns j k

/-! ### What a pass leaves -/

/-- An occurrence stays as it is, or it was on the page and is closed. -/
structure Outcome (env : Env) (now : Time) (limit : Int) (m m' : Manager) : Prop where
  rests : m'.Rests
  absent : ∀ j, m.store.life j = none → m'.store.life j = none
  fate : ∀ j l, m.store.life j = some l →
    (m'.store.life j = some l ∧ m'.tracked.lookup j = m.tracked.lookup j ∧
      (l.occurrence ∈ m.store.unresolved limit → env.resolves now m l = false)) ∨
    Listed env now limit m l ∧ ∃ l', m'.store.life j = some l' ∧ l'.occurrence.state.terminal = true ∧ l.Continues l' j

section Passes

variable {env : Env} {now : Time} {limit : Int} {m₀ m : Manager} {todo : List RecoveryCandidate} {held : Option JobAttempt} {task : Task}
  {k : AttemptID} {choice : Choice}

theorem Progress.start (h : m₀.Rests) :
    Progress env now limit m₀ m₀ (m₀.store.listRecoveryCandidates limit) none where
  absent := fun _ hj => hj
  fate := fun _ _ hl => .inl hl
  tracked := fun _ _ _ _ => rfl
  works := by
    intro k w hw
    obtain ⟨hid, howns⟩ := h.works k w hw
    refine ⟨hid, howns, fun hover => ?_⟩
    rw [h.idle k w hw] at hover
    cases hover
  leased := by simp
  listed := fun _ hc => ⟨hc, rfl⟩
  nodup := m₀.store.nodup_listRecoveryCandidates limit
  visited := fun _ hc => .inl hc

theorem Manager.Idle.engineStep (h : m.Idle) (choice : Choice) : env.engineStep choice m = none := by
  unfold Env.engineStep
  split
  · rfl
  · rename_i w hw
    have hover := h _ w hw
    split <;> rename_i hphase <;> first | rfl | (rw [hphase] at hover; cases hover)

/-- In a pass, `Recover` has not begun or stands at one of its places. -/
def Within (env : Env) (now : Time) (limit : Int) (m₀ : Manager) (p : Pool Manager Thread) : Prop :=
  p = beside m₀ (.recover limit) ∨ ∃ m task todo held, p = beside m task ∧ Place env now m₀ task todo held ∧
    Progress env now limit m₀ m todo held

theorem within_step {p p' : Pool Manager Thread} {a : Act Thread Choice} (h0 : m₀.Rests)
    (h : Within env now limit m₀ p) (hok : smooth now p a = true) (hact : Acts env.program Thread.entry p a p') :
    Within env now limit m₀ p' := by
  rcases h with rfl | ⟨m, task, todo, held, rfl, hplace, hprogress⟩
  · obtain ⟨choice, m', hsmooth, ⟨task', hstep, rfl⟩ | ⟨hstep, -⟩⟩ := smooth_step hact hok
    · obtain ⟨hfault, -⟩ := Choice.smooth_iff.mp hsmooth
      simp only [Env.advance, hfault, Bool.false_eq_true, if_false] at hstep
      cases hstep
      exact .inr ⟨m₀, _, _, none, rfl, .scan _ _, .start h0⟩
    · rw [h0.idle.engineStep] at hstep
      cases hstep
  · obtain ⟨choice, m', hsmooth, ⟨task', hstep, rfl⟩ | ⟨hstep, rfl⟩⟩ := smooth_step hact hok
    · obtain ⟨hprocess, todo', held', hplace', hprogress'⟩ := hprogress.advance hplace hsmooth hstep
      exact .inr ⟨m', task', todo', held', by rw [beside, hprocess], hplace', hprogress'⟩
    · obtain ⟨hprogress', hprocess⟩ := hprogress.engine hsmooth hstep
      exact .inr ⟨m', task, todo, held, by rw [beside, hprocess], hplace, hprogress'⟩

/-- When `Recover` has looked at the whole page and the engine is idle, nothing is in flight. -/
theorem Progress.outcome (h : Progress env now limit m₀ m [] none) (hidle : m.Idle) : Outcome env now limit m₀ m where
  rests := ⟨hidle, fun k w hw => ⟨(h.works k w hw).1, (h.works k w hw).2.1⟩⟩
  absent := h.absent
  fate := by
    intro j l hl
    rcases h.fate j l hl with hkept | ⟨hlisted, hmoved⟩
    · refine .inl ⟨hkept, h.tracked j l hl hkept, fun hpage => Bool.eq_false_iff.mpr fun hresolves => ?_⟩
      obtain ⟨c, hc, -⟩ := resolves_iff.mp hresolves
      have hid : c.occurrence.id = j := by
        rw [(Life.candidate?_eq_some hc).1]
        exact life_id hl
      have hmem := mem_listRecoveryCandidates.mpr ⟨l, by rw [hid]; exact hl, hc, hpage⟩
      rcases h.visited c hmem with hnil | hdone
      · cases hnil
      · rw [hid] at hdone
        exact hdone l hl hresolves hkept
    · refine .inr ⟨hlisted, ?_⟩
      cases hmoved with
      | flying a _ hcarries =>
        rcases hcarries with hheld | ⟨w, hw, -, hover⟩
        · cases hheld
        · rw [hidle _ w hw] at hover
          cases hover
      | done l' hlife hterminal hcontinues => exact ⟨l', hlife, hterminal, hcontinues⟩

theorem Pass.outcome (h : Pass env now limit m₀ m) (h0 : m₀.Rests) : Outcome env now limit m₀ m := by
  obtain ⟨hidle, report, hrun⟩ := h
  have hwithin := hrun.invariant (P := Within env now limit m₀) (fun _ _ _ hp hok hact => within_step h0 hp hok hact)
    (.inl rfl)
  rcases hwithin with heq | ⟨m', task, todo, held, heq, hplace, hprogress⟩
  · have htask := congrArg (fun p : Pool Manager Thread => p.threads.head?) heq
    simp [beside] at htask
  · obtain rfl : m = m' := congrArg Pool.shared heq
    have htask := congrArg (fun p : Pool Manager Thread => p.threads.head?) heq
    obtain rfl : Task.recovered (.ok report) = task := by simpa [beside] using htask
    cases hplace
    exact hprogress.outcome hidle

/-! ### A pass can always be made -/

/-- A choice under which everything goes well. -/
def calm (now : Time) (k : AttemptID) : Choice where
  now := now
  later := now
  attempt := k
  result := { outcome := .completed }

theorem calm_smooth : (calm now k).smooth now = true := by
  simp [Choice.smooth_iff, calm]

theorem run_thread {task' : Task} (hsmooth : choice.smooth now = true)
    (hstep : env.advance choice m task = some (m', task')) (hprocess : m'.process = m.process) :
    Run env.program Thread.entry (smooth now) (beside m task) (beside m' task') := by
  refine .tail (.move 0 choice) (.refl _) hsmooth ?_
  simp [Pool.act, beside, Env.program, hstep, hprocess]

theorem run_engine (hsmooth : choice.smooth now = true) (hstep : env.engineStep choice m = some m') (hprocess : m'.process = m.process) :
    Run env.program Thread.entry (smooth now) (beside m task) (beside m' task) := by
  refine .tail (.move 1 choice) (.refl _) hsmooth ?_
  simp [Pool.act, beside, Env.program, Env.advance, hstep, hprocess]

/-- How many steps of `Recover` are left at most. -/
def Task.left : Task → Nat
  | .scan todo _ => 6 * todo.length + 1
  | .drive (.recover _ rest _) _ _ .lease => 6 * rest.length + 6
  | .drive (.recover _ rest _) _ _ (.track _) => 6 * rest.length + 5
  | .drive (.recover _ rest _) _ _ (.client _) => 6 * rest.length + 4
  | .drive (.recover _ rest _) _ _ (.enqueue _) => 6 * rest.length + 3
  | .close _ _ _ rest _ => 6 * rest.length + 6
  | .closed _ rest _ => 6 * rest.length + 3
  | _ => 0

/-- `Recover` is never blocked, and each of its steps brings it closer to its return. -/
theorem Progress.step_left (h : Progress env now limit m₀ m todo held) (hplace : Place env now m₀ task todo held) :
    (∃ report, task = .recovered (.ok report)) ∨ ∃ m' task', env.advance (calm now []) m task = some (m', task') ∧
      task'.left < task.left := by
  cases hplace with
  | scan todo =>
    refine .inr ?_
    cases todo with
    | nil => exact ⟨_, _, rfl, by simp [Task.left]⟩
    | cons =>
      simp only [Env.advance]
      split <;> exact ⟨_, _, rfl, by simp [Task.left]; try omega⟩
  | lease =>
    refine .inr ?_
    simp only [Env.advance, Env.drive]
    split <;> exact ⟨_, _, rfl, by simp [Task.left, Driver.failed]⟩
  | track | closed => exact .inr ⟨_, _, rfl, by simp [Task.left]⟩
  | client c _ report _ a =>
    refine .inr ?_
    simp only [Env.advance, Env.drive, calm, (h.leased a rfl).1]
    exact ⟨_, _, rfl, by simp [Task.left]⟩
  | enqueue =>
    refine .inr ?_
    simp only [Env.advance, Env.drive]
    split_ifs <;> exact ⟨_, _, rfl, by simp [Task.left, Driver.succeeded]⟩
  | close =>
    refine .inr ?_
    simp only [Env.advance]
    split <;> exact ⟨_, _, rfl, by simp [Task.left]⟩
  | recovered report => exact .inl ⟨report, rfl⟩

theorem Progress.recovers (h : Progress env now limit m₀ m todo held) (hplace : Place env now m₀ task todo held)
    (hn : task.left ≤ n) : ∃ m' report, Run env.program Thread.entry (smooth now) (beside m task)
      (beside m' (.recovered (.ok report))) ∧ Progress env now limit m₀ m' [] none := by
  induction n generalizing m task todo held with
  | zero =>
    rcases h.step_left hplace with ⟨report, rfl⟩ | ⟨m', task', -, hlt⟩
    · cases hplace
      exact ⟨m, report, .refl _, h⟩
    · omega
  | succ n ih =>
    rcases h.step_left hplace with ⟨report, rfl⟩ | ⟨m', task', hstep, hlt⟩
    · cases hplace
      exact ⟨m, report, .refl _, h⟩
    · obtain ⟨hprocess, _, _, hplace', h'⟩ := h.advance hplace calm_smooth hstep
      obtain ⟨m'', report, hrun, hend⟩ := ih h' hplace' (by omega)
      exact ⟨m'', report, (run_thread calm_smooth hstep hprocess).trans hrun, hend⟩

theorem Progress.settles {w : Work} (task : Task) (h : Progress env now limit m₀ m todo held)
    (hw : m.works.lookup k = some w) : ∃ m', Run env.program Thread.entry (smooth now) (beside m task) (beside m' task) ∧
      Progress env now limit m₀ m' todo held ∧ (∀ w', m'.works.lookup k = some w' → w'.phase.over = true) ∧
      ∀ k', k' ≠ k → m'.works.lookup k' = m.works.lookup k' := by
  -- a commit that is under way
  have hcomm {m : Manager} {w : Work} {res : TaskResult} (h : Progress env now limit m₀ m todo held)
      (hw : m.works.lookup k = some w) (hphase : w.phase = .pending res) :
      ∃ m', Run env.program Thread.entry (smooth now) (beside m task) (beside m' task) ∧
        Progress env now limit m₀ m' todo held ∧ (∀ w', m'.works.lookup k = some w' → w'.phase.over = true) ∧
        ∀ k', k' ≠ k → m'.works.lookup k' = m.works.lookup k' := by
    obtain ⟨-, -, hlive⟩ := h.works k w hw
    obtain ⟨hcompleting, j, l, hl, hflight⟩ := hlive (by rw [hphase]; rfl)
    have hok := hflight.commit env now (hphase ▸ hcompleting)
    obtain ⟨s', hs'⟩ : ∃ s', env.commitAttemptResult now w.attempt res m.store = .ok s' := ⟨_, hok⟩
    have hstep : env.engineStep (calm now k) m =
        some { m with store := s', works := m.works.insert k { w with phase := .answered res } } := by
      simp [Env.engineStep, calm, hw, hphase, Choice.call, hs']
    refine ⟨_, run_engine calm_smooth hstep rfl, (h.engine calm_smooth hstep).1, fun w' hw' => ?_, ?_⟩
    · obtain rfl := Option.some.inj ((lookup_insert _).symm.trans hw')
      rfl
    · exact fun k' hk' => lookup_insert_ne hk'
  cases hphase : w.phase with
  | running =>
    have hstep : env.engineStep (calm now k) m =
        some { m with works := m.works.insert k { w with phase := .pending (calm now k).result } } := by
      simp [Env.engineStep, calm, hw, hphase]
    have hnext := (h.engine calm_smooth hstep).1
    obtain ⟨m', hrun, h', hover, hsame⟩ := hcomm hnext (lookup_insert _) rfl
    refine ⟨m', (run_engine calm_smooth hstep rfl).trans hrun, h', hover, fun k' hk' => ?_⟩
    rw [hsame k' hk']
    exact lookup_insert_ne hk'
  | pending => exact hcomm h hw hphase
  | late =>
    obtain ⟨hcompleting, -⟩ := (h.works k w hw).2.2 (by rw [hphase]; rfl)
    rw [hphase] at hcompleting
    cases hcompleting
  | answered | lost =>
    refine ⟨m, .refl _, h, fun w' hw' => ?_, fun _ _ => rfl⟩
    obtain rfl := Option.mem_unique hw hw'
    rw [hphase]
    rfl

theorem Progress.idles (task : Task) (ks : List AttemptID) (h : Progress env now limit m₀ m todo held)
    (hks : ∀ k w, m.works.lookup k = some w → w.phase.over = true ∨ k ∈ ks) :
    ∃ m', Run env.program Thread.entry (smooth now) (beside m task) (beside m' task) ∧
      Progress env now limit m₀ m' todo held ∧ m'.Idle := by
  induction ks generalizing m with
  | nil => exact ⟨m, .refl _, h, fun k w hw => (hks k w hw).resolve_right (by simp)⟩
  | cons k ks ih =>
    cases hw : m.works.lookup k with
    | none =>
      refine ih h fun k' w' hw' => (hks k' w' hw').imp_right fun hmem => ?_
      rcases mem_cons.mp hmem with rfl | hmem
      · rw [hw] at hw'
        cases hw'
      · exact hmem
    | some =>
      obtain ⟨m1, hrun, h1, hover, hsame⟩ := h.settles task hw
      obtain ⟨m', hrun', h', hidle⟩ := ih h1 fun k' w' hw' => by
        by_cases hk : k' = k
        · subst hk
          exact .inl (hover w' hw')
        · rw [hsame k' hk] at hw'
          exact (hks k' w' hw').imp_right fun hmem => (mem_cons.mp hmem).resolve_left hk
      exact ⟨m', hrun.trans hrun', h', hidle⟩

theorem exists_pass (h0 : m₀.Rests) : ∃ m', Pass env now limit m₀ m' := by
  have hbegin : env.advance (calm now []) m₀ (.recover limit) =
      some (m₀, .scan (m₀.store.listRecoveryCandidates limit) {}) := by
    simp [Env.advance, calm]
  have hstart : Progress env now limit m₀ m₀ (m₀.store.listRecoveryCandidates limit) none := .start h0
  obtain ⟨m1, report, hrun, hprogress⟩ := hstart.recovers (.scan _ {}) le_rfl
  obtain ⟨m', hrun', -, hidle⟩ := hprogress.idles (.recovered (.ok report)) m1.works.keys fun k w hw =>
    .inr (lookup_isSome.mp (by rw [hw]; rfl))
  exact ⟨m', hidle, report, ((run_thread calm_smooth hbegin rfl).trans hrun).trans hrun'⟩

theorem exists_passes (h0 : m₀.Rests) : ∃ m', Passes env now limit n m₀ m' := by
  induction n generalizing m₀ with
  | zero => exact ⟨m₀, rfl⟩
  | succ n ih =>
    obtain ⟨m1, hpass⟩ := exists_pass h0
    obtain ⟨m', hpasses⟩ := ih (hpass.outcome h0).rests
    exact ⟨m', m1, hpass, hpasses⟩

end Passes

/-! ### What stays and what is reached -/

section Outcomes

variable {env : Env} {now : Time} {limit : Int} {m : Manager} {l : Life} {o : JobOccurrence} {j : OccurrenceID}

theorem Store.life_of_mem {s : Store} (ho : o ∈ s.occurrences.rows) : s.life o.id = some ⟨o, s.attemptsOf o.id⟩ :=
  life_of_occurrence? (occurrence?_of_mem ho)

theorem Env.recoverable_due (h : env.recoverable now m l = true) : l.occurrence.readyAt ≤ now := by
  simp only [recoverable, Bool.and_eq_true, decide_eq_true_eq] at h
  exact h.1.1.1.1

theorem Env.recoverable_open (h : env.recoverable now m l = true) : l.occurrence.state.terminal = false := by
  simp only [recoverable, Bool.and_eq_true, Bool.not_eq_true'] at h
  exact h.1.1.2

namespace Outcome

section

variable (h : Outcome env now limit m m')
include h

theorem recoverable_eq (hl : m.store.life j = some l) (hkept : m'.store.life j = some l)
    (hopen : l.occurrence.state.terminal = false) : env.recoverable now m' l = env.recoverable now m l := by
  have hid := life_id hl
  rcases h.fate j l hl with ⟨-, htracked, -⟩ | ⟨-, l', hl', hterminal, -⟩
  · rw [← hid] at htracked
    simp only [Env.recoverable, htracked]
  · obtain rfl := Option.mem_unique hkept hl'
    rw [hopen] at hterminal
    cases hterminal

theorem resolves_eq (hl : m.store.life j = some l) (hkept : m'.store.life j = some l)
    (hopen : l.occurrence.state.terminal = false) : env.resolves now m' l = env.resolves now m l := by
  have hid := life_id hl
  have hfree : m'.store.nextFree l.occurrence.id = m.store.nextFree l.occurrence.id := by
    rw [hid]
    refine nextFree_congr hl hkept (fun i k hk => ?_) h.absent
    rcases h.fate i k hk with ⟨hsame, -⟩ | ⟨-, k', hk', -, hcontinues⟩
    · exact ⟨k, hsame, .refl k i⟩
    · exact ⟨k', hk', hcontinues⟩
  rcases h.fate j l hl with ⟨-, htracked, -⟩ | ⟨-, l', hl', hterminal, -⟩
  · rw [← hid] at htracked
    simp only [Env.resolves, Env.recoverable, htracked, hfree]
  · obtain rfl := Option.mem_unique hkept hl'
    rw [hopen] at hterminal
    cases hterminal

theorem life_before (hl' : m'.store.life j = some l) (hopen : l.occurrence.state.terminal = false) : m.store.life j = some l := by
  cases hl : m.store.life j with
  | none =>
    rw [h.absent j hl] at hl'
    cases hl'
  | some k =>
    rcases h.fate j k hl with ⟨hkept, -⟩ | ⟨-, k', hk', hterminal, -⟩
    · exact hkept.symm.trans hl'
    · obtain rfl := Option.mem_unique hl' hk'
      rw [hopen] at hterminal
      cases hterminal

theorem stays (hl : m.store.life j = some l) (hdue : l.occurrence.readyAt ≤ now)
    (hresolves : env.resolves now m l = false) : m'.store.life j = some l := by
  rcases h.fate j l hl with ⟨hkept, -⟩ | ⟨hlisted, -⟩
  · exact hkept
  · rw [hlisted.resolves hdue] at hresolves
    cases hresolves

theorem blockers_eq (hdue : o.readyAt ≤ now) : env.blockers now m' o = env.blockers now m o := by
  have hready {o' : JobOccurrence} (hbefore : Store.Before o' o) : o'.readyAt ≤ now := by
    rcases hbefore with hlt | ⟨heq, -⟩
    · exact (hlt.trans_le hdue).le
    · exact heq ▸ hdue
  unfold Env.blockers
  rw [countP_eq_length_filter, countP_eq_length_filter]
  refine ((perm_ext_iff_of_nodup (m'.store.nodup_occurrences.filter _) (m.store.nodup_occurrences.filter _)).mpr
    fun o' => ?_).length_eq
  simp only [mem_filter, Bool.and_eq_true, beq_iff_eq, decide_eq_true_eq, bne_iff_ne, Bool.not_eq_true', and_assoc]
  constructor
  · rintro ⟨hmem, hstate, hbefore, hne, hresolves⟩
    have hopen : o'.state.terminal = false := by rw [hstate]; rfl
    have hl' := life_of_mem hmem
    have hl := h.life_before hl' hopen
    obtain ⟨hocc, hattempts⟩ := life_eq_some hl
    refine ⟨(mem_of_occurrence? hocc).1, hstate, hbefore, hne, ?_⟩
    rw [← hattempts, ← h.resolves_eq hl hl' hopen]
    exact hresolves
  · rintro ⟨hmem, hstate, hbefore, hne, hresolves⟩
    have hopen : o'.state.terminal = false := by rw [hstate]; rfl
    have hl := life_of_mem hmem
    have hl' := h.stays hl (hready hbefore) hresolves
    obtain ⟨hocc, hattempts⟩ := life_eq_some hl'
    refine ⟨(mem_of_occurrence? hocc).1, hstate, hbefore, hne, ?_⟩
    rw [← hattempts, h.resolves_eq hl hl' hopen]
    exact hresolves

end

end Outcome

/-- A pass resolves the occurrence sooner or later: it can, and what stands before it for ever leaves it
a place on the page. -/
def Env.reaches (env : Env) (now : Time) (limit : Int) (m : Manager) (l : Life) : Bool :=
  env.resolves now m l && decide (env.blockers now m l.occurrence < Store.recoveryLimit limit)

theorem Env.blockers_le (env : Env) (now : Time) (m : Manager) (o : JobOccurrence) : env.blockers now m o ≤
    m.store.occurrences.rows.countP fun o' => o'.state == .dispatched && decide (Store.Before o' o ∧ o' ≠ o) := by
  apply countP_mono_left
  intro o' _ h
  simp only [Bool.and_eq_true, beq_iff_eq, decide_eq_true_eq, bne_iff_ne] at h ⊢
  exact ⟨h.1.1.1, h.1.1.2, fun heq => h.1.2 (congrArg JobOccurrence.id heq)⟩

theorem Outcome.unreached (h : Outcome env now limit m m') (hl : m.store.life j = some l)
    (hrec : env.recoverable now m l = true) (hno : env.reaches now limit m l = false) :
    m'.store.life j = some l ∧ env.recoverable now m' l = true ∧ env.reaches now limit m' l = false := by
  have hdue := recoverable_due hrec
  have hopen := recoverable_open hrec
  have hkept : m'.store.life j = some l := by
    rcases h.fate j l hl with ⟨hkept, -⟩ | ⟨hlisted, -⟩
    · exact hkept
    · have hblockers : env.blockers now m l.occurrence < Store.recoveryLimit limit :=
        lt_of_le_of_lt (env.blockers_le now m l.occurrence) (mem_unresolved.mp hlisted.page).2
      simp [Env.reaches, hlisted.resolves hdue, hblockers] at hno
  refine ⟨hkept, ?_, ?_⟩
  · rw [h.recoverable_eq hl hkept hopen]
    exact hrec
  · rw [Env.reaches, h.resolves_eq hl hkept hopen, h.blockers_eq hdue]
    exact hno

theorem Passes.unreached (hpasses : Passes env now limit n m m') (hm : m.Rests) (hl : m.store.life j = some l)
    (hrec : env.recoverable now m l = true) (hno : env.reaches now limit m l = false) :
    m'.store.life j = some l ∧ env.recoverable now m' l = true := by
  induction n generalizing m with
  | zero =>
    obtain rfl : m' = m := hpasses
    exact ⟨hl, hrec⟩
  | succ n ih =>
    obtain ⟨m1, hpass, hrest⟩ := hpasses
    have hout := hpass.outcome hm
    obtain ⟨hkept, hrec', hno'⟩ := hout.unreached hl hrec hno
    exact ih hrest hout.rests hkept hrec' hno'

/-! ### Convergence -/

def Env.owed (env : Env) (now : Time) (m : Manager) : List JobOccurrence :=
  m.store.occurrences.rows.filter fun o => env.recoverable now m ⟨o, m.store.attemptsOf o.id⟩

theorem Env.mem_owed : o ∈ env.owed now m ↔ ∃ l, m.store.life o.id = some l ∧ l.occurrence = o ∧ env.recoverable now m l = true := by
  rw [owed, mem_filter]
  constructor
  · rintro ⟨hmem, h⟩
    exact ⟨_, life_of_mem hmem, rfl, h⟩
  · rintro ⟨l, hl, rfl, h⟩
    obtain ⟨hocc, hattempts⟩ := life_eq_some hl
    refine ⟨(mem_of_occurrence? hocc).1, ?_⟩
    rw [← hattempts]
    exact h

/-- If a pass reaches a recoverable occurrence, then one on the page is resolved: otherwise the whole page
stands before it for ever. -/
theorem Env.reaches_page (hl : m.store.life j = some l) (hreaches : env.reaches now limit m l = true) :
    ∃ k, m.store.life k.occurrence.id = some k ∧ k.occurrence ∈ m.store.unresolved limit ∧ env.resolves now m k = true := by
  simp only [reaches, Bool.and_eq_true, decide_eq_true_eq] at hreaches
  obtain ⟨hresolves, hblockers⟩ := hreaches
  have hstate := (recoverable_of_resolves hresolves).2
  obtain ⟨hocc, -⟩ := life_eq_some hl
  have hmem := (mem_of_occurrence? hocc).1
  by_cases hpage : l.occurrence ∈ m.store.unresolved limit
  · exact ⟨l, by rw [life_id hl]; exact hl, hpage, hresolves⟩
  · by_contra hnone
    obtain ⟨hlen, hbefore⟩ := Table.page_before (mem_filter.mpr ⟨hmem, by simp [hstate]⟩) hpage
    have hall : (m.store.unresolved limit).countP (fun o' => o'.state == .dispatched &&
        decide (Store.Before o' l.occurrence) && o'.id != l.occurrence.id &&
        !env.resolves now m ⟨o', m.store.attemptsOf o'.id⟩) = Store.recoveryLimit limit := by
      refine (countP_eq_length.mpr fun o' ho' => ?_).trans hlen
      obtain ⟨⟨hmem', hstate'⟩, -⟩ := mem_unresolved.mp ho'
      have hne : o'.id ≠ l.occurrence.id := fun heq => hpage (occurrence_eq hmem' hmem heq ▸ ho')
      have hno : env.resolves now m ⟨o', m.store.attemptsOf o'.id⟩ = false :=
        Bool.eq_false_iff.mpr fun hresolves' => hnone ⟨_, life_of_mem hmem', ho', hresolves'⟩
      simp [hstate', hbefore o' ho', hne, hno]
    have hsub : (m.store.unresolved limit).Subperm m.store.occurrences.rows :=
      (take_sublist _ _).subperm.trans ((perm_insertionSort _ _).subperm.trans filter_sublist.subperm)
    have hle := hsub.countP_le (fun o' => o'.state == .dispatched && decide (Store.Before o' l.occurrence) &&
      o'.id != l.occurrence.id && !env.resolves now m ⟨o', m.store.attemptsOf o'.id⟩)
    rw [hall] at hle
    exact absurd hblockers (not_lt.mpr hle)

/-- While every recoverable occurrence is reached, a pass leaves fewer of them, and they are still reached. -/
theorem Outcome.owed_lt (h : Outcome env now limit m m')
    (hall : ∀ j l, m.store.life j = some l → env.recoverable now m l = true → env.reaches now limit m l = true) :
    (∀ j l, m'.store.life j = some l → env.recoverable now m' l = true → env.reaches now limit m' l = true) ∧
      (env.owed now m ≠ [] → (env.owed now m').length < (env.owed now m).length) := by
  have hback (i : OccurrenceID) (k : Life) (hk : m'.store.life i = some k) (hrec : env.recoverable now m' k = true) :
      m.store.life i = some k ∧ env.recoverable now m k = true := by
    have hopen := recoverable_open hrec
    have hbefore := h.life_before hk hopen
    refine ⟨hbefore, ?_⟩
    rw [← h.recoverable_eq hbefore hk hopen]
    exact hrec
  constructor
  · intro i k hk hrec
    obtain ⟨hbefore, hrec'⟩ := hback i k hk hrec
    have hopen := recoverable_open hrec
    rw [Env.reaches, h.resolves_eq hbefore hk hopen, h.blockers_eq (recoverable_due hrec)]
    exact hall i k hbefore hrec'
  · intro hne
    obtain ⟨o, ho⟩ := exists_mem_of_ne_nil _ hne
    obtain ⟨l, hl, -, hrec⟩ := mem_owed.mp ho
    obtain ⟨k, hk, hpage, hresolves⟩ := reaches_page hl (hall _ l hl hrec)
    -- the occurrence on the page is closed, and no new one is owed
    have hgone : k.occurrence ∉ env.owed now m' := by
      intro hmem
      obtain ⟨k', hk', _, hrec'⟩ := mem_owed.mp hmem
      obtain ⟨hbefore, -⟩ := hback _ k' hk' hrec'
      rcases h.fate _ k hk with ⟨-, -, hno⟩ | ⟨-, l', hl', hterminal, -⟩
      · rw [hno hpage] at hresolves
        cases hresolves
      · obtain rfl := Option.mem_unique hk' hl'
        rw [recoverable_open hrec'] at hterminal
        cases hterminal
    have howed : k.occurrence ∈ env.owed now m :=
      mem_owed.mpr ⟨k, hk, rfl, (recoverable_of_resolves hresolves).1⟩
    have hsubset : env.owed now m' ⊆ (env.owed now m).erase k.occurrence := by
      intro o' ho'
      obtain ⟨k', hk', rfl, hrec'⟩ := mem_owed.mp ho'
      obtain ⟨hbefore, hrec''⟩ := hback _ k' hk' hrec'
      have hne : k'.occurrence ≠ k.occurrence := fun heq => hgone (heq ▸ ho')
      exact (mem_erase_of_ne hne).mpr (mem_owed.mpr ⟨k', hbefore, rfl, hrec''⟩)
    have hle := ((m'.store.nodup_occurrences.filter _).subperm hsubset).length_le
    rw [length_erase_of_mem howed] at hle
    have hpos := length_pos_of_mem howed
    exact lt_of_le_of_lt hle (by omega)

theorem Passes.none_owed (hpasses : Passes env now limit n m m') (hm : m.Rests)
    (hall : ∀ j l, m.store.life j = some l → env.recoverable now m l = true → env.reaches now limit m l = true)
    (hn : (env.owed now m).length ≤ n) : env.owed now m' = [] := by
  induction n generalizing m with
  | zero =>
    obtain rfl : m' = m := hpasses
    exact eq_nil_of_length_eq_zero (by omega)
  | succ n ih =>
    obtain ⟨m1, hpass, hrest⟩ := hpasses
    have hout := hpass.outcome hm
    obtain ⟨hall1, hlt⟩ := hout.owed_lt hall
    refine ih hrest hout.rests hall1 ?_
    by_cases hnil : env.owed now m = []
    · have hnone : env.owed now m1 = [] := by
        rw [eq_nil_iff_forall_not_mem]
        intro o ho
        obtain ⟨l, hl, rfl, hrec⟩ := mem_owed.mp ho
        have hopen := recoverable_open hrec
        have hbefore := hout.life_before hl hopen
        rw [hout.recoverable_eq hbefore hl hopen] at hrec
        have hmem : l.occurrence ∈ env.owed now m := mem_owed.mpr ⟨l, hbefore, rfl, hrec⟩
        rw [hnil] at hmem
        cases hmem
      simp [hnone]
    · have := hlt hnil
      omega

end Outcomes

/-- Passes can always be made, and from some number on they leave nothing that an attempt is owed to
exactly if every such occurrence is reached: it is listed, resolved, and not shut out of the page. -/
theorem recovery_converges_iff_reached (env : Env) (now : Time) (limit : Int) (m : Manager) (hm : m.Rests) :
    (∀ n, ∃ m', Passes env now limit n m m') ∧ ((∃ N, ∀ n, N ≤ n → ∀ m', Passes env now limit n m m' → ∀ o ∈ m'.store.occurrences.rows,
          env.recoverable now m' ⟨o, m'.store.attemptsOf o.id⟩ = false) ↔
        ∀ o ∈ m.store.occurrences.rows, env.recoverable now m ⟨o, m.store.attemptsOf o.id⟩ = true →
          env.reaches now limit m ⟨o, m.store.attemptsOf o.id⟩ = true) := by
  refine ⟨fun n => exists_passes hm, ?_, fun hall => ⟨(env.owed now m).length, ?_⟩⟩
  · rintro ⟨N, hN⟩ o ho hrec
    by_contra hno
    obtain ⟨m', hpasses⟩ := exists_passes hm
    obtain ⟨hkept, hstill⟩ := hpasses.unreached hm (life_of_mem ho) hrec (Bool.eq_false_iff.mpr hno)
    obtain ⟨hocc, hattempts⟩ := life_eq_some hkept
    have hnone := hN N le_rfl m' hpasses o (mem_of_occurrence? hocc).1
    rw [← hattempts] at hnone
    rw [hnone] at hstill
    cases hstill
  · intro n hn m' hpasses o ho
    refine Bool.eq_false_iff.mpr fun hrec => ?_
    have hnil := hpasses.none_owed hm (fun j l hl hrec => ?_) hn
    · have hmem : o ∈ env.owed now m' := mem_filter.mpr ⟨ho, hrec⟩
      rw [hnil] at hmem
      cases hmem
    · obtain ⟨hocc, hattempts⟩ := life_eq_some hl
      obtain ⟨hmem, hid⟩ := mem_of_occurrence? hocc
      have hlife : l = ⟨l.occurrence, m.store.attemptsOf l.occurrence.id⟩ := by
        rw [hid, ← hattempts]
      rw [hlife] at hrec ⊢
      exact hall l.occurrence hmem hrec

theorem Manager.rests_start (s : Store) : Manager.Rests { store := s } where
  idle := fun _ _ hw => by cases hw
  works := fun _ _ hw => by cases hw

/-- The process ended after the occurrence was materialized and before its first lease. -/
def crashed : Store :=
  oneJobStore.step plainFormats (.materializeOccurrence 10 (Env.submittedOccurrence 10 (goString "job") (goString "key") 1))

/-- Its first attempt failed, and nobody watched. -/
def unwatched : Store :=
  crashed.run plainFormats [.prepareNextAttemptLease 10 10 firstOccurrence 60, .commitAttemptResult 20 (attemptOf 1) 1 .failed [] []]

theorem recovery_converges_unwatched : (∃ o ∈ unwatched.occurrences.rows,
      (oneJob { maxAttempts := 2 }).recoverable 30 { store := unwatched } ⟨o, unwatched.attemptsOf o.id⟩ = true) ∧
    (∀ n, ∃ m', Passes (oneJob { maxAttempts := 2 }) 30 50 n { store := unwatched } m') ∧
    ∃ N, ∀ n, N ≤ n → ∀ m', Passes (oneJob { maxAttempts := 2 }) 30 50 n { store := unwatched } m' →
      ∀ o ∈ m'.store.occurrences.rows,
        (oneJob { maxAttempts := 2 }).recoverable 30 m' ⟨o, m'.store.attemptsOf o.id⟩ = false := by
  have hrests := Manager.rests_start unwatched
  have hconverges := recovery_converges_iff_reached (oneJob { maxAttempts := 2 }) 30 50 { store := unwatched } hrests
  refine ⟨?_, hconverges.1, hconverges.2.mpr ?_⟩
  · apply any_eq_true.mp
    decide +kernel
  · have hall : (unwatched.occurrences.rows.all fun o =>
        (oneJob { maxAttempts := 2 }).reaches 30 50 { store := unwatched } ⟨o, unwatched.attemptsOf o.id⟩) = true := by
      decide +kernel
    exact fun o ho _ => all_eq_true.mp hall o ho

/-- The same beside an earlier occurrence of a job that is no longer defined. -/
def shutOut : Store :=
  (Store.ofDefinitions [goString "gone", goString "job"]).run plainFormats [
    .materializeOccurrence 5 (Env.submittedOccurrence 5 (goString "gone") (goString "old") 1),
    .prepareNextAttemptLease 5 5 (Env.submittedOccurrence 5 (goString "gone") (goString "old") 1).id 60,
    .materializeOccurrence 10 (Env.submittedOccurrence 10 (goString "job") (goString "key") 1),
    .prepareNextAttemptLease 10 10 firstOccurrence 60, .commitAttemptResult 20 (attemptOf 1) 1 .failed [] []]

/-- An occurrence without an attempt is never listed, and a failed one behind a full page of others
neither: both are owed an attempt after any number of passes. -/
theorem recovery_never_converges : (∀ n m', Passes (oneJob { maxAttempts := 2 }) 30 50 n { store := crashed } m' →
      ∃ o ∈ m'.store.occurrences.rows,
        (oneJob { maxAttempts := 2 }).recoverable 30 m' ⟨o, m'.store.attemptsOf o.id⟩ = true) ∧
    (∀ n m', Passes (oneJob { maxAttempts := 2 }) 30 1 n { store := shutOut } m' →
      ∃ o ∈ m'.store.occurrences.rows,
        (oneJob { maxAttempts := 2 }).recoverable 30 m' ⟨o, m'.store.attemptsOf o.id⟩ = true) ∧
    (∀ n, ∃ m', Passes (oneJob { maxAttempts := 2 }) 30 50 n { store := crashed } m') ∧
    ∀ n, ∃ m', Passes (oneJob { maxAttempts := 2 }) 30 1 n { store := shutOut } m' := by
  have hstuck (s : Store) (limit : Int) (hs : (s.occurrences.rows.any fun o =>
      (oneJob { maxAttempts := 2 }).recoverable 30 { store := s } ⟨o, s.attemptsOf o.id⟩ &&
        !(oneJob { maxAttempts := 2 }).reaches 30 limit { store := s } ⟨o, s.attemptsOf o.id⟩) = true) (n : Nat)
      (m' : Manager) (hpasses : Passes (oneJob { maxAttempts := 2 }) 30 limit n { store := s } m') :
      ∃ o ∈ m'.store.occurrences.rows,
        (oneJob { maxAttempts := 2 }).recoverable 30 m' ⟨o, m'.store.attemptsOf o.id⟩ = true := by
    obtain ⟨o, ho, hboth⟩ := any_eq_true.mp hs
    simp only [Bool.and_eq_true, Bool.not_eq_true'] at hboth
    obtain ⟨hkept, hstill⟩ := hpasses.unreached (Manager.rests_start s) (life_of_mem ho) hboth.1 hboth.2
    obtain ⟨hocc, hattempts⟩ := life_eq_some hkept
    refine ⟨o, (mem_of_occurrence? hocc).1, ?_⟩
    rw [← hattempts]
    exact hstill
  refine ⟨hstuck crashed 50 (by decide +kernel), hstuck shutOut 1 (by decide +kernel), ?_, ?_⟩
  · exact fun n => exists_passes (Manager.rests_start crashed)
  · exact fun n => exists_passes (Manager.rests_start shutOut)

end Goultroid.Jobs
