import Goultroid.Jobs.Keys
import Goultroid.Scheduler.Coordinator

/-!
# Ticks of the periodic coordinator

There is one loop, and only the loop hands ticks to the jobs manager and looks after their occurrences. A
registration moves on to another tick when its occurrence is over, so that every open occurrence is that of
the current tick of a registration (`Valid.opened`), and there is at most one for each.

Loops are counted by a weight that only an active loop has; `loopRunning` and `done` follow that count
(`Loops`), so an active loop is alone, and nobody else moves a registration on. What the loop has read
(`LoopPc.Fits`) stays true until it acts on it: other goroutines leave a live registration its tick
(`Quiet`, `Aside`), and the other users of the store open no tick and bring none back from its end
(`Settles`).
-/

namespace Goultroid.Periodic

open List Option Threads
open Jobs (JobOccurrence Life Store Transaction)
open Text (append_cut colon_notMem_decimal colon_notMem_decimalInt decimal decimalInt)
open Threads (Act Acts Pool Run acts_of_act)

variable {o o' : JobOccurrence} {r r' : Registry} {pass : Pass} {rest : List DueRun} {item : PendingReconcile} {d d' : GoString}
  {t t' now : Time} {s s' : Store} {pc : LoopPc} {u : Task} {g : Nat} {scope : Jobs.Scope}

/-! ### Keys -/

theorem isTick_occurrenceKey (defID : GoString) (generation : Nat) (scheduledFor : Time) :
    isTick (occurrenceKey defID generation scheduledFor) = true := by
  rw [isTick, isPrefixOf_iff_prefix]
  exact prefix_append ..

/-- Ticks of different generations have different keys. -/
theorem occurrenceKey_generation {g' : Nat} (h : occurrenceKey d g t = occurrenceKey d' g' t') : g = g' := by
  have hkey : goString "periodic:" ++ d ++ 0x3A :: decimal g ++ 0x3A :: decimalInt (unixNano t) =
      goString "periodic:" ++ d' ++ 0x3A :: decimal g' ++ 0x3A :: decimalInt (unixNano t') := by
    simpa [occurrenceKey, Jobs.goString_colon] using h
  obtain ⟨hsplit, -⟩ := append_cut (colon_notMem_decimalInt _) (colon_notMem_decimalInt _) hkey
  exact Text.decimal_inj (append_cut (colon_notMem_decimal g) (colon_notMem_decimal g') hsplit).2

/-! ### The store, as others change it -/

/-- No tick is opened, none comes back from its end, and none that is open goes. -/
structure Settles (s s' : Store) : Prop where
  back : ∀ o' ∈ s'.occurrences.rows, isTick o'.occurrenceKey = true →
    ∃ o ∈ s.occurrences.rows, o.unique = o'.unique ∧ (o.state.terminal = true → o'.state.terminal = true)
  forth : ∀ o ∈ s.occurrences.rows, o.state.terminal = false → ∃ o' ∈ s'.occurrences.rows, o'.unique = o.unique

theorem Settles.refl (s : Store) : Settles s s := ⟨fun o ho _ => ⟨o, ho, rfl, id⟩, fun o ho _ => ⟨o, ho, rfl⟩⟩

theorem Settles.of_occurrences {s'' : Store} (h : Settles s s') (heq : s''.occurrences = s'.occurrences) : Settles s s'' :=
  ⟨fun o ho htick => h.back o (heq ▸ ho) htick, fun o ho hopen => heq.symm ▸ h.forth o ho hopen⟩

theorem life_step_back {l : Option Life} {k' : Life} (hfresh : ∀ state, ¬ scope.fresh state)
    (h : Life.Step scope l (some k')) : ∃ k, l = some k ∧ k.occurrence.unique = k'.occurrence.unique ∧
      (k.occurrence.state.terminal = true → k'.occurrence.state.terminal = true) := by
  obtain ⟨k, rfl, h⟩ := h.source hfresh
  refine ⟨k, rfl, (congrArg Prod.fst h.extends.fixed).symm, fun hterminal => ?_⟩
  rcases h.absorbed hterminal with ⟨-, heq⟩ | ⟨o, heq, hstate⟩
  · cases heq
  · cases heq
    exact hstate ▸ hterminal

theorem life_step_forth {k : Life} {l' : Option Life} (h : Life.Step scope (some k) l')
    (hopen : k.occurrence.state.terminal = false) : ∃ k', l' = some k' ∧ k'.occurrence.unique = k.occurrence.unique := by
  cases l' with
  | some k' => exact ⟨k', rfl, congrArg Prod.fst h.extends.fixed⟩
  | none =>
    cases h with
    | pruned _ hterminal =>
      rw [hopen] at hterminal
      cases hterminal

theorem settles_of_life (hback : ∀ j k', s'.life j = some k' → isTick k'.occurrence.occurrenceKey = true →
      ∃ k, s.life j = some k ∧ k.occurrence.unique = k'.occurrence.unique ∧
        (k.occurrence.state.terminal = true → k'.occurrence.state.terminal = true))
    (hforth : ∀ j k, s.life j = some k → k.occurrence.state.terminal = false →
      ∃ k', s'.life j = some k' ∧ k'.occurrence.unique = k.occurrence.unique) : Settles s s' where
  back o' ho' htick := by
    obtain ⟨k, hk, huniq, hterminal⟩ := hback _ _ (Store.life_of_occurrence? (Store.occurrence?_of_mem ho')) htick
    exact ⟨k.occurrence, (Store.mem_of_occurrence? (Store.life_eq_some hk).1).1, huniq, hterminal⟩
  forth o ho hopen := by
    obtain ⟨k', hk', huniq⟩ := hforth _ _ (Store.life_of_occurrence? (Store.occurrence?_of_mem ho)) hopen
    exact ⟨k'.occurrence, (Store.mem_of_occurrence? (Store.life_eq_some hk').1).1, huniq⟩

theorem settles_insertOccurrence? (h : s.insertOccurrence? o = some s') (hkey : isTick o.occurrenceKey = false) : Settles s s' := by
  obtain ⟨-, hrows, -⟩ := Store.insertOccurrence?_eq_some h
  constructor
  · intro o' ho' htick
    rw [hrows] at ho'
    rcases mem_append.mp ho' with ho' | ho'
    · exact ⟨o', ho', rfl, id⟩
    · rw [mem_singleton.mp ho', hkey] at htick
      cases htick
  · intro o' ho' _
    exact ⟨o', hrows ▸ mem_append_left _ ho', rfl⟩

theorem settles_updateOccurrences {p f hf} (hstate : ∀ o : JobOccurrence, (f o).state = o.state) :
    Settles s (s.updateOccurrences p f hf) := by
  have huniq (o : JobOccurrence) : (if p o then f o else o).unique = o.unique := by
    split_ifs
    · exact congrArg Prod.fst (hf o)
    · rfl
  have hsame (o : JobOccurrence) : (if p o then f o else o).state = o.state := by
    split_ifs
    · exact hstate o
    · rfl
  constructor
  · intro o' ho' _
    obtain ⟨o, ho, rfl⟩ := mem_map.mp ho'
    exact ⟨o, ho, (huniq o).symm, fun hterminal => by rw [hsame o]; exact hterminal⟩
  · intro o ho _
    refine ⟨if p o then f o else o, ?_, huniq o⟩
    exact mem_map.mpr ⟨o, ho, rfl⟩

theorem isTick_sched (rest : GoString) : isTick (goString "sched:" ++ rest) = false := by
  have hperiodic : goString "periodic:" = 0x70 :: goString "eriodic:" := by decide
  have hsched : goString "sched:" = 0x73 :: goString "ched:" := by decide
  rfl

theorem settles_step {fmt : Jobs.Formats} {t : Transaction} (h : foreign t = true) : Settles s (s.step fmt t) := by
  have hlife (scope : Jobs.Scope) (hfresh : ∀ state, ¬ scope.fresh state) (ht : t.Within scope) : Settles s (s.step fmt t) := by
    refine settles_of_life (fun j k' hk' _ => ?_) fun j k hk hopen => ?_
    · exact life_step_back hfresh (hk' ▸ Store.step_life ht)
    · exact life_step_forth (hk ▸ Store.step_life ht) hopen
  cases t with
  | materializeOccurrence =>
    unfold Store.step
    split
    · next s' hok =>
      obtain ⟨o, hok⟩ := Store.ok_of_map_fst hok
      rcases Store.materializeOccurrence_ok hok with ⟨rfl, hinsert⟩ | ⟨rfl, -⟩
      · exact settles_insertOccurrence? hinsert (Bool.not_eq_eq_eq_not.mp h)
      · exact .refl _
    · exact .refl s
  | materializeDueSchedule now =>
    unfold Store.step
    split
    · next s' hok =>
      obtain ⟨res, hok⟩ := Store.ok_of_map_fst hok
      obtain ⟨sched, s1, -, rfl, ⟨-, rfl⟩ | ⟨-, hupsert, -⟩⟩ := Store.materializeDueSchedule_ok hok
      · exact (Settles.refl s1).of_occurrences rfl
      · rcases Store.upsertOccurrence_eq_some hupsert with hinsert | rfl
        · refine (settles_insertOccurrence? hinsert ?_).of_occurrences rfl
          exact isTick_sched _
        · have hset : Settles s (s.updateOccurrences (·.occurrenceKey == (Store.scheduledOccurrence fmt now sched).occurrenceKey)
              fun o => { o with updatedAt := now }) := settles_updateOccurrences fun _ => rfl
          exact hset.of_occurrences rfl
    · exact .refl s
  | _ => exact hlife { fresh := fun _ => False } (fun _ => id) (by trivial)

/-! ### There is one loop -/

def LoopPc.active : LoopPc → Bool
  | .leave retired => !retired
  | .ended => false
  | _ => true

def Task.loop? : Task → Option (Nat × Bool)
  | .loop token pc => some (token, pc.active)
  | _ => none

def Task.weight (t : Task) : Nat := if t.loop?.any Prod.snd then 1 else 0

inductive Looped (c : Coordinator) (t : Task) (c' : Coordinator) (t' : Task) (new : List Task) : Prop where
  | same (hloops : (c'.loopRunning, c'.done, c'.loops) = (c.loopRunning, c.done, c.loops)) (hnew : new = []) (htask : t'.loop? = t.loop?)
  | started (hidle : c.loopRunning = false) (hloops : (c'.loopRunning, c'.done, c'.loops) = (true, some c.loops, c.loops + 1))
    (hnew : new = [.loop c.loops .pass]) (htask : t'.loop? = t.loop?)
  | ended (token : Nat) (active : Bool) (ht : t.loop? = some (token, active)) (ht' : t'.loop? = some (token, false))
    (hloops : (c'.loopRunning, c'.done, c'.loops) = ((c.endLoop token).loopRunning, (c.endLoop token).done, c.loops)) (hnew : new = [])

section Loops

variable {env : Env} {choice : Choice} {c c' : Coordinator} {t t' : Task} {new : List Task} {p : Pool Coordinator Task} {token i : Nat}

theorem startLoopLocked_cases : c.startLoopLocked = (c, []) ∨
    c.loopRunning = false ∧
      c.startLoopLocked = ({ c with loopRunning := true, done := some c.loops, loops := c.loops + 1 }, [.loop c.loops .pass]) := by
  unfold Coordinator.startLoopLocked
  split_ifs with hidle
  · exact .inl rfl
  · simp only [not_or] at hidle
    exact .inr ⟨by simpa using hidle.2.1, rfl⟩

theorem looped_startLoopLocked (c0 : Coordinator) (hloops : (c0.loopRunning, c0.done, c0.loops) = (c.loopRunning, c.done, c.loops))
    (htask : t'.loop? = t.loop?) : Looped c t c0.startLoopLocked.1 t' c0.startLoopLocked.2 := by
  simp only [Prod.mk.injEq] at hloops
  obtain ⟨hflag, hdone, hcount⟩ := hloops
  rcases startLoopLocked_cases with heq | ⟨hidle, heq⟩ <;> rw [heq]
  · exact .same (by rw [hflag, hdone, hcount]) rfl htask
  · exact .started (hflag ▸ hidle) (by simp [hcount]) (by simp [hcount]) htask

@[simp] theorem transact_loops (t : Transaction) : ((env.transact choice c t).loopRunning, (env.transact choice c t).done,
    (env.transact choice c t).loops) = (c.loopRunning, c.done, c.loops) := by
  unfold Env.transact
  split_ifs <;> rfl

theorem submitExecution_loops (choice : Choice) (c : Coordinator) (pass : Pass) (run : DueRun) (rest : List DueRun) :
    ((c.submitExecution choice pass run rest).1.loopRunning, (c.submitExecution choice pass run rest).1.done,
      (c.submitExecution choice pass run rest).1.loops) = (c.loopRunning, c.done, c.loops) ∧
    (c.submitExecution choice pass run rest).2.active = true := by
  unfold Coordinator.submitExecution
  split_ifs
  · exact ⟨rfl, rfl⟩
  · exact ⟨rfl, rfl⟩
  iterate 2
    · dsimp only
      split
      · exact ⟨rfl, rfl⟩
      · exact ⟨rfl, rfl⟩

/-- `loopRunning` says whether there is an active loop, and `done` which one it is. -/
structure Loops (p : Pool Coordinator Task) : Prop where
  count : p.sum Task.weight = if p.shared.loopRunning then 1 else 0
  tokens : ∀ t ∈ p.threads, ∀ token active, t.loop? = some (token, active) →
    token < p.shared.loops ∧ (p.shared.done = some token ↔ active = true)

theorem weight_of_loop? {active : Bool} (h : t.loop? = some (token, active)) : t.weight = if active then 1 else 0 := by
  rw [Task.weight, h]
  rfl

/-- The number was given out, and it is the one in `done` exactly while the loop is active. -/
def Task.Numbered (c : Coordinator) (t : Task) : Prop :=
  ∀ token active, t.loop? = some (token, active) → token < c.loops ∧ (c.done = some token ↔ active = true)

theorem Task.Numbered.of_weight (h : t.Numbered c) (hzero : t.weight = 0) (hloops : c.loops ≤ c'.loops)
    (hdone : ∀ token < c.loops, c'.done ≠ some token) : t.Numbered c' := by
  intro token active hsome
  obtain ⟨hlt, -⟩ := h token active hsome
  rw [weight_of_loop? hsome] at hzero
  cases active with
  | false => exact ⟨by omega, by simp [hdone token hlt]⟩
  | true => cases hzero

theorem Loops.call (hp : Loops p) (hentry : t.entry = true) : Loops ⟨p.shared, p.threads ++ [t]⟩ := by
  have hloop : t.loop? = none := by cases t <;> first | rfl | cases hentry
  refine ⟨?_, fun u hu => ?_⟩
  · rw [sum_call, Task.weight, hloop]
    exact hp.count
  · rcases mem_append.mp hu with hu | hu
    · exact hp.tokens u hu
    · intro _ _ hsome
      rw [mem_singleton.mp hu, hloop] at hsome
      cases hsome

/-- A step of one goroutine, by what it does to its own loop, to the loops it starts and to the others. -/
theorem Loops.move_of (hp : Loops p) (ht : p.threads[i]? = some t)
    (hcount : t'.weight + (new.map Task.weight).sum + (if p.shared.loopRunning then 1 else 0) = t.weight + if c'.loopRunning then 1 else 0)
    (hmoved : ∀ u ∈ t' :: new, u.Numbered c')
    (hothers : ∀ u : Task, u.Numbered p.shared → u.weight + t.weight ≤ (if p.shared.loopRunning then 1 else 0) → u.Numbered c') :
    Loops ⟨c', p.threads.set i t' ++ new⟩ := by
  have hsum := sum_move Task.weight ht c' t' new
  have hold := hp.count
  refine ⟨?_, fun u hu => ?_⟩
  · show _ = if c'.loopRunning then 1 else 0
    omega
  · obtain ⟨j, hj⟩ := getElem?_of_mem hu
    rcases getElem?_move_cases hj with ⟨-, rfl⟩ | ⟨hne, hj⟩ | hnew
    · exact hmoved u mem_cons_self
    · exact hothers u (hp.tokens u (mem_of_getElem? hj)) (hold ▸ add_le_sum Task.weight hj ht hne)
    · exact hmoved u (mem_cons_of_mem _ hnew)

theorem Loops.same (hp : Loops p) (ht : p.threads[i]? = some t)
    (hloops : (c'.loopRunning, c'.done, c'.loops) = (p.shared.loopRunning, p.shared.done, p.shared.loops))
    (htask : t'.loop? = t.loop?) : Loops ⟨c', p.threads.set i t' ++ []⟩ := by
  simp only [Prod.mk.injEq] at hloops
  obtain ⟨hflag, hdone, hcount⟩ := hloops
  have hsame (u : Task) (hu : u.Numbered p.shared) : u.Numbered c' := by
    rw [Task.Numbered, hdone, hcount]
    exact hu
  refine hp.move_of ht (by rw [Task.weight, htask, hflag]; rfl) (fun u hu => hsame u ?_) fun u hu _ => hsame u hu
  rw [mem_singleton.mp hu, Task.Numbered, htask]
  exact hp.tokens t (mem_of_getElem? ht)

theorem Loops.move (hp : Loops p) (ht : p.threads[i]? = some t) (h : Looped p.shared t c' t' new) :
    Loops ⟨c', p.threads.set i t' ++ new⟩ := by
  have hnum : t.Numbered p.shared := hp.tokens t (mem_of_getElem? ht)
  cases h with
  | same hloops hnew htask =>
    subst hnew
    exact hp.same ht hloops htask
  | started hidle hloops hnew htask =>
    subst hnew
    simp only [Prod.mk.injEq] at hloops
    obtain ⟨hflag, hdone, hcount⟩ := hloops
    have hweight : t'.weight = t.weight := by rw [Task.weight, Task.weight, htask]
    have hzero : t.weight = 0 := by
      have hle := hp.count ▸ le_sum Task.weight ht
      simpa [hidle] using hle
    -- no loop was active
    have hinactive (u : Task) (hu : u.Numbered p.shared) (hzero : u.weight = 0) : u.Numbered c' := by
      refine hu.of_weight hzero (by omega) fun token hlt heq => ?_
      rw [hdone, Option.some.injEq] at heq
      omega
    refine hp.move_of ht ?_ (fun u hu => ?_) fun u hu hle => hinactive u hu (by simp only [hidle] at hle; simp at hle; omega)
    · rw [hflag, hidle, hweight]
      rfl
    · rcases mem_cons.mp hu with rfl | hu
      · exact hinactive u (by rwa [Task.Numbered, htask]) (hweight.trans hzero)
      · rw [mem_singleton.mp hu]
        intro token active hsome
        cases hsome
        exact ⟨by omega, iff_of_true hdone rfl⟩
  | ended token active htoken htoken' hloops hnew =>
    subst hnew
    obtain ⟨hlt, hactive⟩ := hnum token active htoken
    by_cases hours : p.shared.done = some token
    · -- the loop that was active is over
      have hweight := weight_of_loop? htoken
      have hweight' := weight_of_loop? htoken'
      rw [hactive.mp hours, if_pos rfl] at hweight
      have hrunning : p.shared.loopRunning = true := by
        have hle := hp.count ▸ le_sum Task.weight ht
        by_contra hstop
        rw [if_neg hstop] at hle
        omega
      rw [Coordinator.endLoop, if_pos hours] at hloops
      simp only [Prod.mk.injEq] at hloops
      obtain ⟨hflag, hdone, hcount⟩ := hloops
      refine hp.move_of ht ?_ (fun u hu => ?_) fun u hu hle => ?_
      · rw [hweight, hweight', hflag, hrunning]
        rfl
      · rw [mem_singleton.mp hu]
        intro _ _ hsome
        rw [htoken'] at hsome
        cases hsome
        exact ⟨hcount ▸ hlt, by simp [hdone]⟩
      · rw [hrunning, if_pos rfl] at hle
        exact hu.of_weight (by omega) (by omega) fun _ _ heq => by simp [hdone] at heq
    · have hfalse : active = false := by
        cases active with
        | false => rfl
        | true => exact absurd (hactive.mpr rfl) hours
      rw [Coordinator.endLoop, if_neg hours] at hloops
      exact hp.same ht hloops (by rw [htoken', htoken, hfalse])

/-- Where a loop is active, every other one is over. -/
theorem Loops.others {j token' : Nat} {pc' : LoopPc} (hp : Loops p) (ht : p.threads[i]? = some (.loop token pc))
    (hu : p.threads[j]? = some (.loop token' pc')) (hij : i ≠ j) (hactive : pc.active = true) : pc'.active = false := by
  have hle := add_le_sum Task.weight ht hu hij
  have hcount := hp.count
  have hone : (Task.loop token pc).weight = 1 := by simp [Task.weight, Task.loop?, hactive]
  by_contra htrue
  have hone' : (Task.loop token' pc').weight = 1 := by simp [Task.weight, Task.loop?, Bool.not_eq_false _ ▸ htrue]
  split_ifs at hcount <;> omega

end Loops

/-! ### Open occurrences -/

/-- The occurrence of the key, if there is one, is over. -/
def Closed (s : Store) (key : GoString) : Prop := ∀ o ∈ s.occurrences.rows, o.occurrenceKey = key → o.state.terminal = true

/-- The id is that of the key's occurrence, or that one is over. -/
def Answers (s : Store) (id : OccurrenceID) (key : GoString) : Prop :=
  (∃ o ∈ s.occurrences.rows, o.id = id ∧ o.occurrenceKey = key) ∨ Closed s key

section Store

variable {id : OccurrenceID} {key : GoString}

theorem eq_of_key (ho : o ∈ s.occurrences.rows) (ho' : o' ∈ s.occurrences.rows) (h : o.occurrenceKey = o'.occurrenceKey) : o = o' :=
  s.occurrences.eq_of_clash ho ho' (.inr h)

theorem Closed.settles (h : Closed s key) (htick : isTick key = true) (hs : Settles s s') : Closed s' key := by
  intro o' ho' hkey
  obtain ⟨o, ho, huniq, hterminal⟩ := hs.back o' ho' (hkey ▸ htick)
  exact hterminal (h o ho ((congrArg Prod.snd huniq).trans hkey))

theorem Answers.settles (h : Answers s id key) (htick : isTick key = true) (hs : Settles s s') : Answers s' id key := by
  rcases h with ⟨o, ho, rfl, rfl⟩ | hclosed
  · by_cases hopen : o.state.terminal = false
    · obtain ⟨o', ho', huniq⟩ := hs.forth o ho hopen
      exact .inl ⟨o', ho', congrArg Prod.fst huniq, congrArg Prod.snd huniq⟩
    · have hclosed : Closed s o.occurrenceKey := by
        intro o' ho' hkey
        rw [eq_of_key ho' ho hkey]
        exact Bool.eq_true_of_not_eq_false hopen
      exact .inr (hclosed.settles htick hs)
  · exact .inr (hclosed.settles htick hs)

theorem Answers.closed (h : Answers s id key) (ho : s.occurrence? id = some o) (hterminal : o.state.terminal = true) : Closed s key := by
  rcases h with ⟨o', ho', hid, rfl⟩ | hclosed
  · obtain ⟨hmem, hid'⟩ := Store.mem_of_occurrence? ho
    have heq := Store.occurrence_eq ho' hmem (hid.trans hid'.symm)
    intro o'' ho'' hkey
    rw [eq_of_key ho'' ho' hkey, heq]
    exact hterminal
  · exact hclosed

theorem materializeOccurrence_rows {occ : JobOccurrence} (h : s.materializeOccurrence now occ = .ok (s', o)) :
    o ∈ s'.occurrences.rows ∧ o.occurrenceKey = occ.occurrenceKey ∧ (∀ o' ∈ s.occurrences.rows, o' ∈ s'.occurrences.rows) ∧
      ∀ o' ∈ s'.occurrences.rows, o' ∈ s.occurrences.rows ∨ o'.occurrenceKey = occ.occurrenceKey := by
  rcases Store.materializeOccurrence_ok h with ⟨rfl, hinsert⟩ | ⟨rfl, hfound⟩
  · obtain ⟨-, hrows, -⟩ := Store.insertOccurrence?_eq_some hinsert
    rw [hrows]
    refine ⟨by simp, rfl, fun o' ho' => mem_append_left _ ho', fun o' ho' => ?_⟩
    rcases mem_append.mp ho' with ho' | ho'
    · exact .inl ho'
    · rw [mem_singleton.mp ho']
      exact .inr rfl
  · obtain ⟨hmem, hkey⟩ := Jobs.Store.mem_of_occurrenceByKey? hfound
    exact ⟨hmem, hkey, fun _ ho' => ho', fun _ ho' => .inl ho'⟩

end Store

/-! ### What the loop relies on -/

/-- The tick was handed over by its registration, which has no occurrence yet. -/
def Registry.Pending (r : Registry) (run : DueRun) : Prop :=
  ∃ (q : Nat) (reg : PeriodicRegistration), r.regs[q]? = some reg ∧ reg.due = run ∧
    (r.Live q reg → reg.running = true ∧ reg.occurrenceID = [])

/-- The registration of the key is the one the item was read from, or has no occurrence. -/
def PendingReconcile.Fits (r : Registry) (item : PendingReconcile) : Prop :=
  item.occurrenceID ≠ [] ∧ ∀ q reg, r.Live q reg → reg.key = item.key → q = item.registration ∨ reg.occurrenceID = []

namespace LoopPc

/-- The ticks that are not bound to an occurrence yet. -/
def runs : LoopPc → List DueRun
  | .submit _ runs => runs
  | .lookup _ run rest | .bind _ run _ rest | .finish _ run rest => run :: rest
  | .stray _ _ rest | .finished _ rest => rest
  | _ => []

def items : LoopPc → List PendingReconcile
  | .reconcile _ items => items
  | .latest _ item rest | .settle _ item _ _ _ rest => item :: rest
  | .prune _ _ _ rest | .settled _ rest => rest
  | _ => []

def answer : LoopPc → Option (DueRun × OccurrenceID)
  | .bind _ run id _ => some (run, id)
  | _ => none

def past : LoopPc → Option PendingReconcile
  | .latest _ item _ | .settle _ item _ _ _ _ => some item
  | _ => none

/-- What a position holds. -/
def data (pc : LoopPc) : List DueRun × List PendingReconcile × Option (DueRun × OccurrenceID) × Option PendingReconcile :=
  (pc.runs, pc.items, pc.answer, pc.past)

theorem mem_items_of_past (h : pc.past = some item) : item ∈ pc.items := by
  cases pc <;> cases h <;> exact mem_cons_self ..

structure Fits (c : Coordinator) (pc : LoopPc) : Prop where
  nodup : (pc.runs.map DueRun.generation).Nodup
  runs : ∀ run ∈ pc.runs, c.registry.Pending run
  items : ∀ item ∈ pc.items, item.Fits c.registry
  answer : ∀ run id, pc.answer = some (run, id) → Answers c.store id run.tick
  past : ∀ item, pc.past = some item → ∀ reg, c.registry.Live item.registration reg → reg.occurrenceID = item.occurrenceID →
    Closed c.store reg.tick

end LoopPc

/-- What holds of the coordinator and the store; `keys` are those of the store at the beginning. -/
structure Shared (keys : List GoString) (c : Coordinator) : Prop where
  sound : c.registry.Sound []
  opened : ∀ o ∈ c.store.occurrences.rows, isTick o.occurrenceKey = true → o.occurrenceKey ∉ keys → o.state.terminal = false →
    ∃ (q : Nat) (reg : PeriodicRegistration), c.registry.regs[q]? = some reg ∧ reg.tick = o.occurrenceKey
  bound : ∀ q reg, c.registry.Live q reg → reg.occurrenceID ≠ [] → Answers c.store reg.occurrenceID reg.tick

section Steps

variable {c c' : Coordinator} {keys : List GoString} {pc' : LoopPc} {left : List PendingReconcile}

theorem isTick_tick (reg : PeriodicRegistration) : isTick reg.tick = true := isTick_occurrenceKey ..

theorem Shared.of_ticks (h : Shared keys c) (hsound : c'.registry.Sound []) (hticks : c.registry.Ticks c'.registry)
    (hbound : c.registry.Bound c'.registry) (hset : Settles c.store c'.store) : Shared keys c' where
  sound := hsound
  opened o' ho' htick hnew hopen := by
    obtain ⟨o, ho, huniq, hterminal⟩ := hset.back o' ho' htick
    have hkey : o.occurrenceKey = o'.occurrenceKey := congrArg Prod.snd huniq
    have hopen0 : o.state.terminal = false := by
      cases hstate : o.state.terminal with
      | false => rfl
      | true => exact absurd ((hterminal hstate).symm.trans hopen) (by simp)
    obtain ⟨q, reg, hreg, heq⟩ := h.opened o ho (hkey.symm ▸ htick) (hkey.symm ▸ hnew) hopen0
    obtain ⟨reg', hreg', hdue, -⟩ := hticks q reg hreg
    exact ⟨q, reg', hreg', (congrArg DueRun.tick hdue).trans (heq.trans hkey)⟩
  bound q reg' hlive hsome := by
    obtain ⟨reg, hlive0, hbare⟩ := hbound q reg' hlive hsome
    obtain ⟨_, rfl⟩ := PeriodicRegistration.of_bare hbare
    exact (h.bound q reg hlive0 hsome).settles (isTick_tick reg) hset

theorem Shared.of_kept (h : Shared keys c) (hsound : c'.registry.Sound []) (hkept : c.registry.Kept c'.registry)
    (hset : Settles c.store c'.store) : Shared keys c' :=
  h.of_ticks hsound hkept.ticks (hkept.bound hsound) hset

theorem Shared.of_eq (h : Shared keys c) (hregistry : c'.registry = c.registry) (hstore : c'.store = c.store) : Shared keys c' :=
  h.of_kept (hregistry ▸ h.sound) (hregistry ▸ .refl _) (hstore ▸ .refl _)

theorem Registry.Pending.kept {run : DueRun} (h : r.Pending run) (hkept : r.Kept r') : r'.Pending run := by
  obtain ⟨q, reg, hreg, hdue, hlive⟩ := h
  obtain ⟨reg', hreg', hbare⟩ := hkept.regs q reg hreg
  obtain ⟨_, rfl⟩ := PeriodicRegistration.of_bare hbare
  refine ⟨q, _, hreg', hdue, fun hlive' => ?_⟩
  rcases hkept.live q _ hlive' with ⟨reg0, hlive0, -⟩ | ⟨hnew, -⟩
  · obtain rfl := some.inj (hlive0.2.symm.trans hreg)
    exact hlive hlive0
  · have hlt := (List.getElem?_eq_some_iff.mp hreg).1
    omega

theorem PendingReconcile.Fits.kept (h : item.Fits r) (hkept : r.Kept r') (hsound : r'.Sound []) : item.Fits r' := by
  refine ⟨h.1, fun q reg' hlive' hkey => ?_⟩
  rcases hkept.live q reg' hlive' with ⟨reg, hlive, hbare⟩ | ⟨-, hidle⟩
  · obtain ⟨_, rfl⟩ := PeriodicRegistration.of_bare hbare
    exact h.2 q reg hlive hkey
  · exact .inr ((hsound.regular q reg' hlive').idle hidle)

theorem LoopPc.Fits.kept (h : pc.Fits c) (hkept : c.registry.Kept c'.registry) (hsound : c'.registry.Sound [])
    (hset : Settles c.store c'.store) : pc.Fits c' where
  nodup := h.nodup
  runs run hrun := (h.runs run hrun).kept hkept
  items item hitem := (h.items item hitem).kept hkept hsound
  answer run id hanswers := (h.answer run id hanswers).settles (isTick_occurrenceKey ..) hset
  past item hover reg' hlive' hid := by
    rcases hkept.live _ reg' hlive' with ⟨reg, hlive, hbare⟩ | ⟨-, hidle⟩
    · obtain ⟨_, rfl⟩ := PeriodicRegistration.of_bare hbare
      exact (h.past item hover reg hlive hid).settles (isTick_tick reg) hset
    · have hnone := (hsound.regular _ reg' hlive').idle hidle
      exact absurd (hid.symm.trans hnone) (h.items item (LoopPc.mem_items_of_past hover)).1

theorem LoopPc.fits_of (hdata : pc.data = (rest, left, none, none)) (hnodup : (rest.map DueRun.generation).Nodup)
    (hruns : ∀ run ∈ rest, c.registry.Pending run) (hitems : ∀ item ∈ left, item.Fits c.registry) : pc.Fits c := by
  obtain ⟨rfl, rfl, hanswers, hover⟩ := by simpa only [LoopPc.data, Prod.mk.injEq] using hdata
  exact ⟨hnodup, hruns, hitems, by simp [hanswers], by simp [hover]⟩

theorem LoopPc.Fits.same (h : pc.Fits c) (hregistry : c'.registry = c.registry) (hdata : pc'.data = (rest, left, none, none))
    (hruns : rest <:+ pc.runs) (hitems : left ⊆ pc.items) : pc'.Fits c' := by
  refine LoopPc.fits_of hdata (h.nodup.sublist (hruns.sublist.map _)) (fun run hrun => ?_) fun item hitem => ?_
  · exact hregistry ▸ h.runs run (hruns.subset hrun)
  · exact hregistry ▸ h.items item (hitems hitem)

end Steps

/-- Registrations keep their names, and their tick until it is over. -/
def Registry.Later (r r' : Registry) : Prop :=
  ∀ (q : Nat) (reg : PeriodicRegistration), r.regs[q]? = some reg → ∃ reg', r'.regs[q]? = some reg' ∧
    reg'.definitionID = reg.definitionID ∧ reg'.generation = reg.generation ∧ reg.runs ≤ reg'.runs ∧ (reg'.runs = reg.runs → reg'.due = reg.due)

section Later

variable {q : Nat} {reg reg' : PeriodicRegistration}

theorem Registry.Ticks.later (h : r.Ticks r') : r.Later r' := by
  intro q reg hreg
  obtain ⟨reg', hreg', hdue, hruns⟩ := h q reg hreg
  exact ⟨reg', hreg', congrArg DueRun.definitionID hdue, congrArg DueRun.generation hdue, le_of_eq hruns.symm, fun _ => hdue⟩

theorem Registry.Later.refl (r : Registry) : r.Later r := (Registry.Ticks.refl r).later

theorem Registry.Later.trans {r'' : Registry} (h : r.Later r') (h' : r'.Later r'') : r.Later r'' := by
  intro q reg hreg
  obtain ⟨reg', hreg', hname, hgeneration, hle, hdue⟩ := h q reg hreg
  obtain ⟨reg'', hreg'', hname', hgeneration', hle', hdue'⟩ := h' q reg' hreg'
  refine ⟨reg'', hreg'', hname'.trans hname, hgeneration'.trans hgeneration, hle.trans hle', fun hruns => ?_⟩
  rw [hdue' (by omega), hdue (by omega)]

theorem Registry.later_setReg (hq : r.regs[q]? = some reg) (hname : reg'.definitionID = reg.definitionID)
    (hgeneration : reg'.generation = reg.generation) (hruns : reg'.runs = reg.runs + 1) : r.Later (r.setReg q reg') := by
  intro q' reg0 hreg0
  rw [Registry.getElem?_setReg hq]
  split_ifs with heq
  · subst heq
    obtain rfl := mem_unique hq hreg0
    exact ⟨reg', rfl, hname, hgeneration, by omega, fun hsame => by omega⟩
  · exact ⟨reg0, hreg0, rfl, rfl, le_refl _, fun _ => rfl⟩

end Later

section LoopSteps

variable {choice : Choice} {c c' : Coordinator} {keys : List GoString} {q : Nat} {pc' : LoopPc} {reg reg' : PeriodicRegistration}
  {id : OccurrenceID} {run : DueRun}

theorem Registry.Pending.setReg (h : r.Pending run) (hreg : r.regs[q]? = some reg)
    (hne : run.generation ≠ reg.generation) : (r.setReg q reg').Pending run := by
  obtain ⟨q', reg0, hreg0, hdue, hlive⟩ := h
  have hq : q' ≠ q := by
    rintro rfl
    obtain rfl := mem_unique hreg hreg0
    exact hne (congrArg DueRun.generation hdue).symm
  refine ⟨q', reg0, ?_, hdue, fun hlive' => hlive ((Registry.live_setReg_of_ne hreg hq).mp hlive')⟩
  rw [Registry.getElem?_setReg hreg, if_neg hq]
  exact hreg0

theorem Registry.Pending.unique (h : r.Pending run) (hsound : r.Sound []) (hlive : r.Live q reg)
    (hgeneration : reg.generation = run.generation) : reg.due = run ∧ reg.running = true ∧ reg.occurrenceID = [] := by
  obtain ⟨q', reg0, hreg0, hdue, hpending⟩ := h
  have hgen := hsound.generation q' reg0 hreg0
  have hgen' := hsound.generation q reg hlive.2
  have hsame : reg0.generation = run.generation := congrArg DueRun.generation hdue
  obtain rfl : q' = q := by omega
  obtain rfl := some.inj (hlive.2.symm.trans hreg0)
  exact ⟨hdue, hpending hlive⟩

structure Advanced (keys : List GoString) (c c' : Coordinator) (pc' : LoopPc) : Prop where
  shared : Shared keys c'
  fits : pc'.Fits c'
  later : c.registry.Later c'.registry

theorem pass_fits (hshared : Shared keys c) (c' : Coordinator) (pass : Pass) (order : List GoString) (now : Time)
    (hregistry : c'.registry = ((c.registry.syncHeapLocked order).collectDueLocked now).1) (hstore : c'.store = c.store) :
    Advanced keys c c' (.submit pass ((c.registry.syncHeapLocked order).collectDueLocked now).2) := by
  obtain ⟨hsynced, hkept, -⟩ := hshared.sound.syncHeapLocked order
  obtain ⟨hsound, hcollected⟩ := hsynced.collectDueLocked now
  have hticks := hkept.ticks.trans hcollected.ticks
  have hbound := (hkept.bound hsynced).trans hcollected.bound
  rw [← hregistry] at hsound hticks hbound
  refine ⟨hshared.of_ticks hsound hticks hbound (hstore ▸ .refl _), ?_, hticks.later⟩
  refine LoopPc.fits_of rfl hcollected.nodup (fun run hrun => ?_) nofun
  obtain ⟨q, -, reg', -, -, hreg', hdue, hrunning, hnone⟩ := hcollected.started run hrun
  exact ⟨q, reg', hregistry ▸ hreg', hdue, fun _ => ⟨hrunning, hnone⟩⟩

theorem answer_fits (hnodup : ((run :: rest).map DueRun.generation).Nodup)
    (hruns : ∀ run' ∈ run :: rest, c.registry.Pending run') (hanswers : Answers c.store id run.tick) :
    (LoopPc.bind pass run id rest).Fits c where
  nodup := hnodup
  runs := hruns
  items item hitem := by cases hitem
  answer run' id' heq := by
    cases heq
    exact hanswers
  past item heq := by cases heq

theorem submitExecution_fits (hshared : Shared keys c) (hfits : (LoopPc.submit pass (run :: rest)).Fits c) :
    Advanced keys c (c.submitExecution choice pass run rest).1 (c.submitExecution choice pass run rest).2 := by
  have hsame (c1 : Coordinator) (hregistry : c1.registry = c.registry) (pc1 : LoopPc) (hdata : pc1.data = (run :: rest, [], none, none)) :
      pc1.Fits c1 := hfits.same hregistry hdata suffix_rfl (nil_subset _)
  unfold Coordinator.submitExecution
  by_cases hjobs : pass.jobs = false
  · rw [if_pos hjobs]
    exact ⟨hshared, hsame c rfl (.finish pass run rest) rfl, .refl _⟩
  rw [if_neg hjobs]
  by_cases hfault : choice.fault = true
  · rw [if_pos hfault]
    exact ⟨hshared, hsame c rfl (.lookup pass run rest) rfl, .refl _⟩
  rw [if_neg hfault]
  dsimp only
  split
  · exact ⟨⟨hshared.sound, hshared.opened, hshared.bound⟩,
      hsame { c with sequence := c.sequence + 1 } rfl (.lookup pass run rest) rfl, .refl _⟩
  · next store o hok =>
    obtain ⟨hmem, hkey, hold, hrows⟩ := materializeOccurrence_rows hok
    have hocc : (Jobs.Env.submittedOccurrence choice.now run.definitionID run.tick (c.sequence + 1)).occurrenceKey = run.tick := by
      have hne : run.tick ≠ [] := by
        intro hnil
        have htick := isTick_occurrenceKey run.definitionID run.generation run.scheduledFor
        rw [show occurrenceKey run.definitionID run.generation run.scheduledFor = [] from hnil] at htick
        exact absurd htick (by decide)
      simp only [Jobs.Env.submittedOccurrence, if_neg hne]
    have hpending := hfits.runs run (mem_cons_self ..)
    -- the registration of the tick has no occurrence, so that the key is none of a bound one
    have hother (q : Nat) (reg : PeriodicRegistration) (hlive : c.registry.Live q reg) (hsome : reg.occurrenceID ≠ []) : reg.tick ≠ run.tick := by
      intro heq
      exact hsome (hpending.unique hshared.sound hlive (occurrenceKey_generation heq)).2.2
    refine ⟨⟨hshared.sound, fun o' ho' htick hnew hopen => ?_, fun q reg hlive hsome => ?_⟩, ?_, .refl _⟩
    · rcases hrows o' ho' with hold' | hkey'
      · exact hshared.opened o' hold' htick hnew hopen
      · obtain ⟨q, reg, hreg, hdue, -⟩ := hpending
        exact ⟨q, reg, hreg, (congrArg DueRun.tick hdue).trans hkey'.symm⟩
    · rcases hshared.bound q reg hlive hsome with ⟨o', ho', hid, hkey'⟩ | hclosed
      · exact .inl ⟨o', hold o' ho', hid, hkey'⟩
      · refine .inr fun o' ho' hkey' => ?_
        rcases hrows o' ho' with hold' | hnew
        · exact hclosed o' hold' hkey'
        · exact absurd (hkey'.symm.trans hnew) (hother q reg hlive hsome)
    · split_ifs
      · exact hsame { c with sequence := c.sequence + 1, store := store } rfl (.lookup pass run rest) rfl
      · exact answer_fits hfits.nodup hfits.runs (.inl ⟨o, hmem, rfl, hkey⟩)

/-- The runs behind one whose registration is changed are still pending. -/
theorem LoopPc.Fits.rest_setReg (hfits : pc.Fits c) (hfirst : pc.runs = run :: rest) (hregistry : c'.registry = c.registry.setReg q reg')
    (hreg : c.registry.regs[q]? = some reg) (hgeneration : reg.generation = run.generation) (hdata : pc'.data = (rest, [], none, none)) :
    pc'.Fits c' := by
  have hnodup := hfits.nodup
  rw [hfirst] at hnodup
  obtain ⟨hnotin, hnodup⟩ := nodup_cons.mp hnodup
  refine LoopPc.fits_of hdata hnodup (fun run' hrun' => ?_) nofun
  rw [hregistry]
  refine (hfits.runs run' (by rw [hfirst]; exact mem_cons_of_mem _ hrun')).setReg hreg fun hsame => ?_
  exact hnotin (mem_map.mpr ⟨run', hrun', hsame.trans hgeneration⟩)

theorem bind_fits (hshared : Shared keys c)
    (hfits : (LoopPc.bind pass run id rest).Fits c) (c' : Coordinator) (hregistry : c'.registry = (c.registry.bindOccurrence run id).1)
    (hstore : c'.store = c.store) (hdata : pc'.data = (rest, [], none, none)) : Advanced keys c c' pc' := by
  rcases hshared.sound.bindOccurrence run id with heq | ⟨q, reg, hlive, hgeneration, hrunning, heq, hsound⟩
  · rw [heq] at hregistry
    refine ⟨hshared.of_eq hregistry hstore, ?_, hregistry ▸ .refl _⟩
    exact hfits.same hregistry hdata (suffix_cons _ _) (nil_subset _)
  · rw [← hregistry] at hsound
    rw [heq] at hregistry
    have hpending := hfits.runs run (mem_cons_self ..)
    obtain ⟨hdue, -⟩ := hpending.unique hshared.sound hlive hgeneration
    have hticks : c.registry.Ticks c'.registry := by
      rw [hregistry]
      exact Registry.ticks_setReg hlive.2 { reg with occurrenceID := id } rfl rfl
    refine ⟨⟨hsound, fun o ho htick hnew hopen => ?_, fun q' reg' hlive' hsome => ?_⟩, ?_, hticks.later⟩
    · rw [hstore] at ho
      obtain ⟨q', reg0, hreg0, htick0⟩ := hshared.opened o ho htick hnew hopen
      obtain ⟨reg', hreg', hdue', -⟩ := hticks q' reg0 hreg0
      exact ⟨q', reg', hreg', (congrArg DueRun.tick hdue').trans htick0⟩
    · rw [hstore]
      rw [hregistry] at hlive'
      rcases Registry.live_setReg hlive.2 hlive' with ⟨-, rfl⟩ | ⟨-, hlive'⟩
      · have hanswer := hfits.answer run id rfl
        rw [← hdue] at hanswer
        exact hanswer
      · exact hshared.bound q' reg' hlive' hsome
    · exact hfits.rest_setReg rfl hregistry hlive.2 hgeneration hdata

theorem finish_fits (hshared : Shared keys c)
    (hfits : (LoopPc.finish pass run rest).Fits c) (hregistry : c'.registry = c.registry.finishSubmission now run)
    (hstore : c'.store = c.store) : Advanced keys c c' (.finished pass rest) := by
  rcases hshared.sound.finishSubmission now run with heq | ⟨q, reg, hlive, hgeneration, hrunning, hnone, heq, hsound⟩
  · rw [heq] at hregistry
    refine ⟨hshared.of_eq hregistry hstore, ?_, hregistry ▸ .refl _⟩
    exact hfits.same hregistry rfl (suffix_cons _ _) (nil_subset _)
  · rw [← hregistry] at hsound
    rw [heq] at hregistry
    have hticks : c.registry.Ticks c'.registry := by
      rw [hregistry]
      exact Registry.ticks_setReg hlive.2 { reg with running := false, nextRun := now + 200000000 } rfl rfl
    have hbound : c.registry.Bound c'.registry := by
      rw [hregistry]
      exact Registry.bound_setReg hlive.2 { reg with running := false, nextRun := now + 200000000 } hnone
    refine ⟨hshared.of_ticks hsound hticks hbound (hstore ▸ .refl _), ?_, hticks.later⟩
    exact hfits.rest_setReg rfl hregistry hlive.2 hgeneration rfl

theorem fits_inflight {order : List GoString} (hsound : c.registry.Sound []) (hitem : item ∈ c.registry.inflight order) :
    item.Fits c.registry := by
  obtain ⟨key, -, hsome⟩ := mem_filterMap.mp hitem
  split at hsome
  · cases hsome
  · next q reg hentry =>
    split_ifs at hsome with hrun
    cases hsome
    obtain ⟨hkey, hlive⟩ := hsound.entry? hentry
    refine ⟨hrun.2, fun q' reg' hlive' hkey' => .inl ?_⟩
    have hq' := hlive'.1
    rw [hkey', ← hkey, hlive.1] at hq'
    exact (some.inj hq').symm

theorem over_fits {rest : List PendingReconcile} (hshared : Shared keys c)
    (hfits : (LoopPc.reconcile pass (item :: rest)).Fits c) (ho : c.store.occurrence? item.occurrenceID = some o)
    (hterminal : o.state.terminal = true) (hdata : pc'.data = ([], item :: rest, none, some item)) : pc'.Fits c := by
  obtain ⟨hruns, hitems, hanswers, hover⟩ := by simpa only [LoopPc.data, Prod.mk.injEq] using hdata
  refine ⟨by simp [hruns], by simp [hruns], hitems ▸ hfits.items, by simp [hanswers], fun item' heq reg hlive hid => ?_⟩
  rw [hover] at heq
  cases heq
  have hsome : reg.occurrenceID ≠ [] := by
    rw [hid]
    exact (hfits.items item (mem_cons_self ..)).1
  have hanswer := hshared.bound _ reg hlive hsome
  rw [hid] at hanswer
  exact hanswer.closed ho hterminal

theorem settle_fits {finished : Time} {failed : Bool} {errText : GoString}
    {rest : List PendingReconcile} (hshared : Shared keys c) (hfits : (LoopPc.settle pass item finished failed errText rest).Fits c)
    (hregistry : c'.registry = c.registry.reconcileOne item finished failed errText) (hstore : c'.store = c.store) :
    Advanced keys c c' (.prune pass item finished rest) := by
  rcases hshared.sound.reconcileOne item finished failed errText with heq | ⟨q, reg, hlive, hkey, hrunning, hid, heq, hsound⟩
  · rw [heq] at hregistry
    refine ⟨hshared.of_eq hregistry hstore, ?_, hregistry ▸ .refl _⟩
    exact hfits.same hregistry rfl suffix_rfl (subset_cons_self _ _)
  · rw [← hregistry] at hsound
    rw [heq] at hregistry
    obtain ⟨hsome, hone⟩ := hfits.items item (mem_cons_self ..)
    obtain rfl : q = item.registration := (hone q reg hlive hkey).resolve_right (by rw [hid]; exact hsome)
    have hclosed := hfits.past item rfl reg hlive hid
    refine ⟨⟨hsound, fun o ho htick hnew hopen => ?_, fun q' reg' hlive' hsome' => ?_⟩, ?_, ?_⟩
    · rw [hstore] at ho
      obtain ⟨q', reg0, hreg0, htick0⟩ := hshared.opened o ho htick hnew hopen
      refine ⟨q', reg0, ?_, htick0⟩
      rw [hregistry, Registry.getElem?_setReg hlive.2, if_neg]
      · exact hreg0
      · rintro rfl
        obtain rfl := some.inj (hlive.2.symm.trans hreg0)
        have hterminal := hclosed o ho htick0.symm
        rw [hopen] at hterminal
        cases hterminal
    · rw [hregistry] at hlive'
      rw [hstore]
      rcases Registry.live_setReg hlive.2 hlive' with ⟨-, rfl⟩ | ⟨-, hlive'⟩
      · exact absurd rfl hsome'
      · exact hshared.bound q' reg' hlive' hsome'
    · refine LoopPc.fits_of rfl nodup_nil nofun fun item' hitem' => ?_
      obtain ⟨hsome', hone'⟩ := hfits.items item' (mem_cons_of_mem _ hitem')
      refine ⟨hsome', fun q' reg' hlive' hkey' => ?_⟩
      rw [hregistry] at hlive'
      rcases Registry.live_setReg hlive.2 hlive' with ⟨-, rfl⟩ | ⟨-, hlive'⟩
      · exact .inr rfl
      · exact hone' q' reg' hlive' hkey'
    · rw [hregistry]
      exact Registry.later_setReg hlive.2 rfl rfl rfl

end LoopSteps

/-! ### Steps -/

section Advance

variable {env : Env} {choice : Choice} {c c' : Coordinator} {keys : List GoString} {token : Nat} {pc' : LoopPc} {t t' : Task}
  {new : List Task}

/-- What a step leaves: the registrations that the others do not touch, and a store in which nothing is opened. -/
structure Quiet (c c' : Coordinator) : Prop where
  sound : c'.registry.Sound []
  kept : c.registry.Kept c'.registry
  settles : Settles c.store c'.store

theorem Quiet.of_eq (h : Shared keys c) (hregistry : c'.registry = c.registry) (hstore : c'.store = c.store) : Quiet c c' :=
  ⟨hregistry ▸ h.sound, hregistry ▸ .refl _, hstore ▸ .refl _⟩

theorem quiet_transact {tx : Transaction} (h : Shared keys c) (htx : foreign tx = true) : Quiet c (env.transact choice c tx) := by
  unfold Env.transact
  split_ifs
  · exact .of_eq h rfl rfl
  · exact ⟨h.sound, .refl _, settles_step htx⟩

theorem startLoopLocked_same : c.startLoopLocked.1.registry = c.registry ∧ c.startLoopLocked.1.store = c.store := by
  rcases startLoopLocked_cases with heq | ⟨-, heq⟩ <;> rw [heq] <;> exact ⟨rfl, rfl⟩

theorem quiet_startLoopLocked (h : Shared keys c) {c0 : Coordinator} (hregistry : c0.registry = c.registry) (hstore : c0.store = c.store) :
    Quiet c c0.startLoopLocked.1 :=
  .of_eq h (startLoopLocked_same.1.trans hregistry) (startLoopLocked_same.2.trans hstore)

theorem endLoop_same : (c.endLoop token).registry = c.registry ∧ (c.endLoop token).store = c.store ∧ (c.endLoop token).loops = c.loops := by
  unfold Coordinator.endLoop
  split_ifs <;> exact ⟨rfl, rfl, rfl⟩

theorem loopStep_fits (hshared : Shared keys c) (hfits : pc.Fits c) (h : env.loopStep choice c token pc = some (c', pc', new)) :
    Advanced keys c c' pc' ∧ Looped c (.loop token pc) c' (.loop token pc') new := by
  have hquiet {c1 : Coordinator} (hq : Quiet c c1) (pc1 : LoopPc) (hdata : pc1.data = (pc.runs, pc.items, none, none)) :
      Advanced keys c c1 pc1 := by
    have hfits1 : pc1.Fits c := hfits.same rfl hdata suffix_rfl (Subset.refl _)
    exact ⟨hshared.of_kept hq.sound hq.kept hq.settles, hfits1.kept hq.kept hq.sound hq.settles, hq.kept.ticks.later⟩
  have hidle : Quiet c c := .of_eq hshared rfl rfl
  have hstays (pc1 : LoopPc) (hfits1 : pc1.Fits c) : Advanced keys c c pc1 :=
    ⟨hshared, hfits1, .refl _⟩
  cases pc with
  | pass =>
    simp only [Env.loopStep] at h
    split at h
    · cases h
      exact ⟨hquiet hidle (.leave false) rfl, .same rfl rfl rfl⟩
    · split_ifs at h
      · cases h
        exact ⟨hquiet hidle (.leave false) rfl, .same rfl rfl rfl⟩
      · cases h
        refine ⟨hquiet (.of_eq hshared (endLoop_same).1 (endLoop_same).2.1) (.leave true) rfl,
          .ended token true rfl rfl ?_ rfl⟩
        rw [(endLoop_same).2.2]
      · cases h
        exact ⟨pass_fits hshared
          { c with registry := ((c.registry.syncHeapLocked choice.order).collectDueLocked choice.now).1 } _ choice.order choice.now rfl rfl,
          .same rfl rfl rfl⟩
  | submit pass runs =>
    cases runs with
    | nil =>
      cases h
      exact ⟨hquiet hidle (.inflight pass) rfl, .same rfl rfl rfl⟩
    | cons run rest =>
      obtain ⟨rfl, rfl, rfl⟩ := h
      obtain ⟨hloops, hactive⟩ := submitExecution_loops choice c pass run rest
      exact ⟨submitExecution_fits hshared hfits, .same hloops rfl (by rw [Task.loop?, hactive]; rfl)⟩
  | lookup pass run rest =>
    simp only [Env.loopStep] at h
    split at h
    · next o hfound =>
      cases h
      split_ifs at hfound
      obtain ⟨hmem, hkey⟩ := Jobs.Store.mem_of_occurrenceByKey? hfound
      exact ⟨hstays _ (answer_fits hfits.nodup hfits.runs (.inl ⟨o, hmem, rfl, hkey⟩)), .same rfl rfl rfl⟩
    · cases h
      exact ⟨hquiet hidle (.finish pass run rest) rfl, .same rfl rfl rfl⟩
  | bind pass run id rest =>
    obtain ⟨rfl, rfl, rfl⟩ := h
    have hbind (pc1 : LoopPc) (hdata : pc1.data = (rest, [], none, none)) :=
      bind_fits hshared hfits { c with registry := (c.registry.bindOccurrence run id).1 } rfl rfl hdata
    split_ifs
    · exact ⟨hbind (.submit pass rest) rfl, .same rfl rfl rfl⟩
    · exact ⟨hbind (.stray pass id rest) rfl, .same rfl rfl rfl⟩
  | stray pass id rest =>
    cases h
    exact ⟨hquiet (quiet_transact hshared rfl) (.submit pass rest) rfl, .same (transact_loops _) rfl rfl⟩
  | finish pass run =>
    cases h
    exact ⟨finish_fits hshared hfits rfl rfl, .same rfl rfl rfl⟩
  | finished pass rest =>
    obtain ⟨rfl, rfl, rfl⟩ := h
    exact ⟨hquiet (quiet_startLoopLocked hshared rfl rfl) (.submit pass rest) rfl, looped_startLoopLocked c rfl rfl⟩
  | inflight pass =>
    simp only [Env.loopStep] at h
    split_ifs at h
    · cases h
      exact ⟨hquiet hidle (.reconcile pass []) rfl, .same rfl rfl rfl⟩
    · cases h
      exact ⟨hstays _ (LoopPc.fits_of rfl nodup_nil nofun fun item hitem => fits_inflight hshared.sound hitem), .same rfl rfl rfl⟩
  | reconcile pass items =>
    cases items with
    | nil =>
      obtain ⟨rfl, rfl, rfl⟩ := h
      split_ifs
      · exact ⟨hquiet hidle .pass rfl, .same rfl rfl rfl⟩
      · exact ⟨hquiet hidle (.wait pass) rfl, .same rfl rfl rfl⟩
    | cons item rest =>
      have hnext : Advanced keys c c (.reconcile pass rest) :=
        hstays _ (hfits.same rfl rfl suffix_rfl (subset_cons_self _ _))
      simp only [Env.loopStep] at h
      split at h
      · cases h
        exact ⟨hnext, .same rfl rfl rfl⟩
      · next o hfound =>
        split_ifs at hfound
        split at h
        iterate 3
          · next hstate =>
            cases h
            exact ⟨hstays _ (over_fits hshared hfits hfound (by rw [hstate]; rfl) rfl), .same rfl rfl rfl⟩
        · cases h
          exact ⟨hnext, .same rfl rfl rfl⟩
  | latest pass item rest =>
    have hsettled (finished : Time) (failed : Bool) (errText : GoString) : (LoopPc.settle pass item finished failed errText rest).Fits c :=
      ⟨hfits.nodup, hfits.runs, hfits.items, hfits.answer, hfits.past⟩
    simp only [Env.loopStep] at h
    split at h <;> cases h <;> exact ⟨hstays _ (hsettled _ _ _), .same rfl rfl rfl⟩
  | settle pass item finished failed errText =>
    cases h
    exact ⟨settle_fits hshared hfits rfl rfl, .same rfl rfl rfl⟩
  | prune pass item finished rest =>
    cases h
    exact ⟨hquiet (quiet_transact hshared rfl) (.settled pass rest) rfl, .same (transact_loops _) rfl rfl⟩
  | settled pass rest =>
    obtain ⟨rfl, rfl, rfl⟩ := h
    exact ⟨hquiet (quiet_startLoopLocked hshared rfl rfl) (.reconcile pass rest) rfl, looped_startLoopLocked c rfl rfl⟩
  | wait pass =>
    simp only [Env.loopStep] at h
    split_ifs at h <;> cases h
    · exact ⟨hquiet hidle .pass rfl, .same rfl rfl rfl⟩
    · exact ⟨hquiet hidle (.leave false) rfl, .same rfl rfl rfl⟩
  | leave =>
    cases h
    refine ⟨hquiet (.of_eq hshared (endLoop_same).1 (endLoop_same).2.1) .ended rfl,
      .ended token _ rfl rfl ?_ rfl⟩
    rw [(endLoop_same).2.2]
  | ended => cases h

structure Aside (c : Coordinator) (t : Task) (c' : Coordinator) (t' : Task) (new : List Task) : Prop where
  quiet : Quiet c c'
  looped : Looped c t c' t' new
  jobs (tx : Transaction) : t' ≠ .jobs tx

theorem advance_aside (hshared : Shared keys c) (hloop : t.loop? = none) (hforeign : ∀ tx, t = .jobs tx → foreign tx = true)
    (h : env.advance choice c t = some (c', t', new)) : Aside c t c' t' new := by
  have hquiet {c1 : Coordinator} {t1 : Task} (hq : Quiet c c1) (hloops : (c1.loopRunning, c1.done, c1.loops) = (c.loopRunning, c.done, c.loops))
      (htask : t1.loop? = t.loop?) (hjobs : ∀ tx, t1 ≠ .jobs tx) : Aside c t c1 t1 [] := ⟨hq, .same hloops rfl htask, hjobs⟩
  have hsame {t1 : Task} (htask : t1.loop? = t.loop?) (hjobs : ∀ tx, t1 ≠ .jobs tx) : Aside c t c t1 [] :=
    hquiet (.of_eq hshared rfl rfl) rfl htask hjobs
  cases t with
  | loop => cases hloop
  | register =>
    simp only [Env.advance] at h
    split at h
    · cases h
      exact hsame rfl (by simp)
    · split_ifs at h <;> cases h <;> exact hsame rfl (by simp)
  | define =>
    simp only [Env.advance] at h
    split_ifs at h <;> cases h
    · exact hsame rfl (by simp)
    · refine hquiet ⟨hshared.sound, .refl _, (Settles.refl _).of_occurrences ?_⟩ rfl rfl (by simp)
      unfold Store.saveDefinition
      split_ifs <;> rfl
  | install owner name interval =>
    cases h
    obtain ⟨hsound, hkept⟩ := hshared.sound.install choice.now owner name interval
    exact hquiet ⟨hsound, hkept, .refl _⟩ rfl rfl (by simp)
  | unregister =>
    simp only [Env.advance] at h
    split_ifs at h
    · cases h
      exact hsame rfl (by simp)
    · split at h <;> cases h
      · exact hsame rfl (by simp)
      · next key _ =>
        obtain ⟨hsound, hkept⟩ := hshared.sound.drop key
        exact hquiet ⟨hsound, hkept, .refl _⟩ rfl rfl (by simp)
  | unregisterOwned owner name =>
    simp only [Env.advance] at h
    split at h <;> cases h
    · exact hsame rfl (by simp)
    · obtain ⟨hsound, hkept⟩ := hshared.sound.drop (periodicKey (env.trimSpace owner) (env.trimSpace name))
      exact hquiet ⟨hsound, hkept, .refl _⟩ rfl rfl (by simp)
  | unregisterByOwner owner =>
    obtain ⟨hsound, hkept⟩ := Registry.Sound.dropOwner (env.trimSpace owner) choice.order hshared.sound
    simp only [Env.advance] at h
    split_ifs at h <;> cases h
    · exact hsame rfl (by simp)
    all_goals exact hquiet ⟨hsound, hkept, .refl _⟩ rfl rfl (by simp)
  | cancel ids =>
    cases ids with
    | nil =>
      cases h
      exact hsame rfl (by simp)
    | cons =>
      cases h
      exact hquiet (quiet_transact hshared rfl) (transact_loops _) rfl (by simp)
  | notify =>
    obtain ⟨rfl, rfl, rfl⟩ := h
    exact ⟨quiet_startLoopLocked hshared rfl rfl, looped_startLoopLocked c rfl rfl, by simp⟩
  | start =>
    simp only [Env.advance] at h
    split_ifs at h
    · cases h
      exact hsame rfl (by simp)
    · obtain ⟨rfl, rfl, rfl⟩ := h
      exact ⟨quiet_startLoopLocked hshared rfl rfl, looped_startLoopLocked _ rfl rfl, by simp⟩
  | stop =>
    simp only [Env.advance] at h
    split_ifs at h <;> cases h
    · exact hsame rfl (by simp)
    · obtain ⟨hsound, hkept⟩ := hshared.sound.emptied
      exact hquiet ⟨hsound, hkept, .refl _⟩ rfl rfl (by simp)
  | stopping jobs ids =>
    cases ids with
    | nil =>
      cases h
      exact hsame rfl (by simp)
    | cons =>
      simp only [Env.advance] at h
      split_ifs at h <;> cases h
      · exact hsame rfl (by simp)
      · exact hquiet (quiet_transact hshared rfl) (transact_loops _) rfl (by simp)
  | jobs tx =>
    cases h
    exact hquiet ⟨hshared.sound, .refl _, settles_step (hforeign tx rfl)⟩ rfl rfl (by simp)
  | returned => cases h
  | _ =>
    cases h
    exact hquiet (.of_eq hshared rfl rfl) rfl rfl (by simp)

end Advance

/-! ### Runs -/

section Valid

variable {env : Env} {keys : List GoString} {p p' : Pool Coordinator Task} {a : Act Task Choice} {c : Coordinator}

structure Valid (keys : List GoString) (p : Pool Coordinator Task) : Prop where
  loops : Loops p
  shared : Shared keys p.shared
  fits : ∀ token pc, .loop token pc ∈ p.threads → pc.Fits p.shared
  foreign : ∀ tx, .jobs tx ∈ p.threads → foreign tx = true

theorem valid_start {store : Store} : Valid (store.occurrences.rows.map JobOccurrence.occurrenceKey) (start store) where
  loops := ⟨rfl, nofun⟩
  shared := ⟨Registry.sound_new, fun o ho _ hnew => absurd (mem_map_of_mem ho) hnew, fun q reg hlive => by
    have hlook : (∅ : AList fun _ : GoString => Nat).lookup reg.key = some q := hlive.1
    simp at hlook⟩
  fits token pc hmem := by cases hmem
  foreign tx hmem := by cases hmem

theorem LoopPc.fits_of_inactive (h : pc.active = false) : pc.Fits c := by
  cases pc with
  | leave | ended => exact LoopPc.fits_of rfl nodup_nil nofun nofun
  | _ => cases h

theorem Looped.new_pass {c' : Coordinator} {new : List Task} {t t' : Task} (h : Looped c t c' t' new) (hu : u ∈ new) :
    u = .loop c.loops .pass := by
  cases h with
  | same _ hnew | ended _ _ _ _ _ hnew => rw [hnew] at hu; cases hu
  | started _ _ hnew => rw [hnew] at hu; exact mem_singleton.mp hu

theorem Valid.step (hp : Valid keys p) (h : Acts env.program Task.entry p a p') :
    Valid keys p' ∧ p.shared.registry.Later p'.shared.registry := by
  cases h with
  | call t ha hentry heq =>
    subst heq
    refine ⟨⟨hp.loops.call hentry, hp.shared, fun token pc hmem => ?_, fun tx hmem => ?_⟩, Registry.Later.refl _⟩
    · rcases mem_append.mp hmem with hmem | hmem
      · exact hp.fits token pc hmem
      · rw [← mem_singleton.mp hmem] at hentry
        cases hentry
    · rcases mem_append.mp hmem with hmem | hmem
      · exact hp.foreign tx hmem
      · rw [← mem_singleton.mp hmem] at hentry
        exact hentry
  | move i _ t t' c' new ha ht hnext heq =>
    subst heq
    have hmem := mem_of_getElem? ht
    -- what is left to show: the loops that take no step fit
    have hrest (hlooped : Looped p.shared t c' t' new) (hjobs : ∀ tx, t' ≠ .jobs tx) (hshared : Shared keys c')
        (hmoved : ∀ token pc, t' = .loop token pc → pc.Fits c')
        (hothers : ∀ (j : Nat) token pc, j ≠ i → p.threads[j]? = some (.loop token pc) → pc.Fits c') :
        Valid keys ⟨c', p.threads.set i t' ++ new⟩ := by
      refine ⟨hp.loops.move ht hlooped, hshared, fun token pc hpc => ?_, fun tx htx => ?_⟩
      · obtain ⟨j, hj⟩ := getElem?_of_mem hpc
        rcases getElem?_move_cases hj with ⟨-, heq⟩ | ⟨hne, hold⟩ | hnew
        · exact hmoved token pc heq.symm
        · exact hothers j token pc hne hold
        · cases hlooped.new_pass hnew
          exact LoopPc.fits_of rfl nodup_nil nofun nofun
      · rcases mem_append.mp htx with htx | htx
        · rcases mem_or_eq_of_mem_set htx with htx | heq
          · exact hp.foreign tx htx
          · exact absurd heq.symm (hjobs tx)
        · exact absurd (hlooped.new_pass htx) (by simp)
    have hkept (hquiet : Quiet p.shared c') (j : Nat) (token : Nat) (pc : LoopPc) (hj : p.threads[j]? = some (.loop token pc)) : pc.Fits c' :=
      (hp.fits token pc (mem_of_getElem? hj)).kept hquiet.kept hquiet.sound hquiet.settles
    cases hloop : t.loop? with
    | none =>
      obtain ⟨hquiet, hlooped, hjobs⟩ := advance_aside hp.shared hloop (fun tx htx => hp.foreign tx (htx ▸ hmem)) hnext
      refine ⟨hrest hlooped hjobs (hp.shared.of_kept hquiet.sound hquiet.kept hquiet.settles) (fun token pc heq => ?_)
        fun j token pc _ hj => hkept hquiet j token pc hj, hquiet.kept.ticks.later⟩
      cases hlooped with
      | same _ _ htask | started _ _ _ htask => rw [hloop, heq] at htask; cases htask
      | ended _ _ ht0 => rw [hloop] at ht0; cases ht0
    | some =>
      cases t with
      | loop token pc =>
        obtain ⟨⟨c1, pc', _⟩, hstep, heq⟩ := map_eq_some_iff.mp hnext
        cases heq
        obtain ⟨⟨hshared, hfits, hlater⟩, hlooped⟩ := loopStep_fits hp.shared (hp.fits token pc hmem) hstep
        refine ⟨hrest hlooped nofun hshared (fun token' pc1 heq => by cases heq; exact hfits) fun j token' pc1 hne hj => ?_, hlater⟩
        cases hactive : pc.active with
        | true => exact LoopPc.fits_of_inactive (hp.loops.others ht hj (Ne.symm hne) hactive)
        | false =>
          have hquiet : Quiet p.shared c1 := by
            cases pc with
            | leave =>
              cases hstep
              exact .of_eq hp.shared (endLoop_same).1 (endLoop_same).2.1
            | ended => cases hstep
            | _ => cases hactive
          exact hkept hquiet j token' pc1 hj
      | _ => cases hloop

theorem Valid.run {ok : Pool Coordinator Task → Act Task Choice → Bool} (hp : Valid keys p) (h : Run env.program Task.entry ok p p') :
    Valid keys p' ∧ p.shared.registry.Later p'.shared.registry := by
  induction h with
  | refl => exact ⟨hp, Registry.Later.refl _⟩
  | tail a _ _ hact ih =>
    obtain ⟨hvalid, hlater⟩ := ih
    obtain ⟨hvalid', hlater'⟩ := hvalid.step (acts_of_act hact)
    exact ⟨hvalid', hlater.trans hlater'⟩

end Valid

/-! ### The coordinator -/

/-- The generation whose submission or completion a step of the loop reports. -/
def LoopPc.reports : LoopPc → Option Nat
  | .bind _ run _ _ | .finish _ run _ => some run.generation
  | .settle _ item _ _ _ _ => some (item.registration + 1)
  | _ => none

/-- A registration, its place in the heap and its deadline are as they were. -/
def Registry.Untouched (r r' : Registry) (q : Nat) (reg : PeriodicRegistration) : Prop :=
  r'.Live q reg ∧ r'.heap = r.heap ∧ r'.timers = r.timers

section Reports

variable {env : Env} {choice : Choice} {c c' : Coordinator} {keys : List GoString} {token q : Nat} {pc' : LoopPc} {new : List Task}
  {reg : PeriodicRegistration} {run : DueRun}

section

variable (hshared : Shared keys c)
include hshared

theorem loopStep_reports (hfits : pc.Fits c) (hreports : pc.reports = some g) (h : env.loopStep choice c token pc = some (c', pc', new)) :
    c'.registry = c.registry ∨ ∃ q reg reg', c.registry.Live q reg ∧ reg.generation = g ∧ c'.registry = c.registry.setReg q reg' := by
  have hsound := hshared.sound
  cases pc with
  | bind pass run id =>
    cases hreports
    cases h
    rcases hsound.bindOccurrence run id with heq | ⟨q, reg, hlive, hgeneration, -, heq, -⟩
    · exact .inl (congrArg Prod.fst heq)
    · exact .inr ⟨q, reg, _, hlive, hgeneration, congrArg Prod.fst heq⟩
  | finish pass run =>
    cases hreports
    cases h
    rcases hsound.finishSubmission choice.now run with heq | ⟨q, reg, hlive, hgeneration, -, -, heq, -⟩
    · exact .inl heq
    · exact .inr ⟨q, reg, _, hlive, hgeneration, heq⟩
  | settle pass item finished failed errText =>
    cases hreports
    cases h
    rcases hsound.reconcileOne item finished failed errText with heq | ⟨q, reg, hlive, hkey, -, hid, heq, -⟩
    · exact .inl heq
    · -- a registration that has taken the key in the meantime has no occurrence or another one
      obtain ⟨hsome, hitem⟩ := hfits.items item (mem_cons_self ..)
      rcases hitem q reg hlive hkey with rfl | hnone
      · exact .inr ⟨_, reg, _, hlive, hsound.generation _ reg hlive.2, heq⟩
      · exact absurd (hid.symm.trans hnone) hsome
  | _ => cases hreports

theorem untouched_of_reports (hfits : pc.Fits c) (hreports : pc.reports = some g)
    (h : env.loopStep choice c token pc = some (c', pc', new)) (hlive : c.registry.Live q reg) (hother : reg.generation ≠ g) :
    c.registry.Untouched c'.registry q reg := by
  rcases loopStep_reports hshared hfits hreports h with heq | ⟨q', old, reg', hold, hgeneration, heq⟩
  · rw [heq]
    exact ⟨hlive, rfl, rfl⟩
  · rw [heq]
    have hne : q' ≠ q := by
      rintro rfl
      rw [some.inj (hold.2.symm.trans hlive.2)] at hgeneration
      exact hother hgeneration
    refine ⟨⟨hlive.1, ?_⟩, rfl, rfl⟩
    rw [Registry.getElem?_setReg hold.2, if_neg hne.symm]
    exact hlive.2

theorem ticks_finish (h : env.loopStep choice c token (.finish pass run rest) = some (c', pc', new)) : c.registry.Ticks c'.registry := by
  cases h
  rcases hshared.sound.finishSubmission choice.now run with heq | ⟨q, reg, hlive, -, -, -, heq, -⟩
  · show c.registry.Ticks (c.registry.finishSubmission choice.now run)
    rw [heq]
    exact .refl _
  · rw [heq]
    exact Registry.ticks_setReg hlive.2 _ rfl rfl

theorem Shared.open_unique (ho : o ∈ c.store.occurrences.rows)
    (ho' : o' ∈ c.store.occurrences.rows) (hopen : o.state.terminal = false) (hopen' : o'.state.terminal = false)
    (hnew : o.occurrenceKey ∉ keys) (hnew' : o'.occurrenceKey ∉ keys)
    (hkey : o.occurrenceKey = occurrenceKey d g t) (hkey' : o'.occurrenceKey = occurrenceKey d' g t') : o = o' := by
  obtain ⟨q, reg, hreg, htick⟩ := hshared.opened o ho (hkey ▸ isTick_occurrenceKey ..) hnew hopen
  obtain ⟨q', reg', hreg', htick'⟩ := hshared.opened o' ho' (hkey' ▸ isTick_occurrenceKey ..) hnew' hopen'
  have hgeneration : reg.generation = g := occurrenceKey_generation (htick.trans hkey)
  have hgeneration' : reg'.generation = g := occurrenceKey_generation (htick'.trans hkey')
  rw [hshared.sound.generation q reg hreg] at hgeneration
  rw [hshared.sound.generation q' reg' hreg'] at hgeneration'
  obtain rfl : q = q' := by omega
  obtain rfl := mem_unique hreg hreg'
  exact eq_of_key ho ho' (htick.symm.trans htick')

end

end Reports

/-- A pass that goes on to submit has synchronized the heap before it popped what is due. -/
theorem loopStep_pass {env : Env} {choice : Choice} {c c' : Coordinator} {token : Nat} {pass : Pass} {runs : List DueRun} {new : List Task}
    (h : env.loopStep choice c token .pass = some (c', .submit pass runs, new)) : choice.order.Perm c.registry.entries.keys ∧
      (c.registry.syncHeapLocked choice.order).collectDueLocked choice.now = (c'.registry, runs) := by
  simp only [Env.loopStep] at h
  split at h
  · cases h
  · split_ifs at h with hidle hempty horder
    · cases h
    · cases h
    · cases h
      exact ⟨isPerm_iff.mp (by simpa using horder), rfl⟩

/-- Whatever the calls, the loop, the clock and the users of the store do: a live registration runs and is not in the heap, or is in the
heap once at its next run, or waits for the pass that puts it there, which does so before it pops what is due; the heap holds nothing else;
a registration has one open occurrence; a report of another generation changes nothing of a registration; and a tick keeps its key until it
is over. -/
theorem periodic_coordinator (env : Env) (store : Store) (p : Pool Coordinator Task)
    (h : Run env.program Task.entry (fun _ _ => true) (start store) p) :
    let r := p.shared.registry
    (∀ key q, r.entries.lookup key = some q → ∃ reg, r.regs[q]? = some reg ∧ reg.key = key ∧ r.Standing q reg) ∧
    (∀ order, order.Perm r.entries.keys → ∀ q reg, (r.syncHeapLocked order).Live q reg →
      reg.running = true ∧ (r.syncHeapLocked order).queuedCount q = 0 ∨
      reg.running = false ∧ (r.syncHeapLocked order).Queued q reg ∨ reg.nextRun = 0) ∧
    (∀ token choice c' pass runs new, env.loopStep choice p.shared token .pass = some (c', .submit pass runs, new) →
      choice.order.Perm r.entries.keys ∧ (r.syncHeapLocked choice.order).collectDueLocked choice.now = (c'.registry, runs)) ∧
    (∀ t ∈ r.heap.h.items, ∃ entry reg, r.timers[t]? = some entry ∧ r.Live entry.data reg) ∧
    (∀ o ∈ p.shared.store.occurrences.rows, ∀ o' ∈ p.shared.store.occurrences.rows, ∀ d g t d' t',
      o.occurrenceKey = occurrenceKey d g t → o'.occurrenceKey = occurrenceKey d' g t' →
      o.occurrenceKey ∉ store.occurrences.rows.map JobOccurrence.occurrenceKey →
      o'.occurrenceKey ∉ store.occurrences.rows.map JobOccurrence.occurrenceKey →
      o.state.terminal = false → o'.state.terminal = false → o = o') ∧
    (∀ token pc, .loop token pc ∈ p.threads → ∀ choice c' pc' new, env.loopStep choice p.shared token pc = some (c', pc', new) →
      (∀ g, pc.reports = some g → ∀ q reg, r.Live q reg → reg.generation ≠ g → r.Untouched c'.registry q reg) ∧
      (∀ pass run rest, pc = .finish pass run rest → r.Ticks c'.registry) ∧
      ∀ run ∈ pc.runs, ∃ (q : Nat) (reg : PeriodicRegistration), r.regs[q]? = some reg ∧ run.tick = reg.tick) ∧
    ∀ p', Run env.program Task.entry (fun _ _ => true) p p' → ∀ (q : Nat) (reg reg' : PeriodicRegistration),
      r.regs[q]? = some reg → p'.shared.registry.regs[q]? = some reg' → reg'.runs = reg.runs → reg'.tick = reg.tick := by
  obtain ⟨hvalid, -⟩ := valid_start.run h
  have hshared := hvalid.shared
  have hsound := hshared.sound
  refine ⟨fun key q hlook => ?_, fun order hperm q reg hlive => hsound.standing_synced hperm hlive,
    fun token choice c' pass runs new hstep => loopStep_pass hstep, fun t ht => ?_,
    fun o ho o' ho' d g t d' t' hkey hkey' hnew hnew' hopen hopen' =>
      hshared.open_unique ho ho' hopen hopen' hnew hnew' hkey hkey',
    fun token pc hpc choice c' pc' new hstep => ?_, fun p' h' q reg reg' hreg hreg' hruns => ?_⟩
  · obtain ⟨reg, hreg, hkey⟩ := hsound.keyed key q hlook
    exact ⟨reg, hreg, hkey, hsound.standing ⟨hkey.symm ▸ hlook, hreg⟩⟩
  · obtain ⟨entry, reg, htimer, -, hlive, -⟩ := hsound.queued t (.inl ht)
    exact ⟨entry, reg, htimer, hlive⟩
  · have hfits := hvalid.fits token pc hpc
    refine ⟨fun g hreports q reg hlive hother => untouched_of_reports hshared hfits hreports hstep hlive hother, ?_, fun run hrun => ?_⟩
    · rintro pass run rest rfl
      exact ticks_finish hshared hstep
    · obtain ⟨q, reg, hreg, rfl, -⟩ := hfits.runs run hrun
      exact ⟨q, reg, hreg, reg.tick_due⟩
  · obtain ⟨-, hlater⟩ := hvalid.run h'
    obtain ⟨_, hreg1, -, -, -, hdue⟩ := hlater q reg hreg
    obtain rfl := mem_unique hreg' hreg1
    rw [← reg'.tick_due, hdue hruns, reg.tick_due]

/-! ### A rejected tick -/

def plainEnv : Env := ⟨Jobs.plainFormats, id⟩

/-- A task is registered, its first tick is due, and neither the submission nor the look-up succeeds. -/
def rejectedActs : List (Act Task Choice) :=
  [.call .start, .move 0 {},
   .call .setJobsManager, .move 1 {}, .move 1 {},
   .call (.register (goString "job") Jobs.second {} true), .move 2 {}, .move 2 {}, .move 2 { now := 1 }, .move 2 {}, .move 2 {},
   .move 3 { now := 2 * Jobs.second, order := [goString "job"] },
   .move 3 { fault := true }, .move 3 { fault := true }]

def notedActs : List (Act Task Choice) := rejectedActs ++ [.move 3 { now := 2 * Jobs.second }]

def startEmpty : Pool Coordinator Task := start (.ofDefinitions [])

theorem periodic_coordinator_rejected : ∃ p, Run plainEnv.program Task.entry (fun _ _ => true) startEmpty p ∧
    (∃ reg, p.shared.registry.regs[0]? = some reg ∧ reg.running = true) ∧ ∀ key q, p.shared.registry.entries.lookup key = some q →
      ∃ reg, p.shared.registry.regs[q]? = some reg ∧ reg.key = key ∧ p.shared.registry.Standing q reg := by
  obtain ⟨p, hrun, hreg⟩ : ∃ p, Run plainEnv.program Task.entry (fun _ _ => true) startEmpty p ∧
      ∃ reg, p.shared.registry.regs[0]? = some reg ∧ reg.running = true := Run.of_check rejectedActs (by decide +kernel)
  exact ⟨p, hrun, hreg, (periodic_coordinator plainEnv _ p hrun).1⟩

/-- After the rejection the registration neither runs nor is in the heap. -/
theorem rejected_registration_waits : ∃ p q reg, Run plainEnv.program Task.entry (fun _ _ => true) startEmpty p ∧
    p.shared.registry.Live q reg ∧ reg.running = false ∧ p.shared.registry.queuedCount q = 0 ∧ reg.nextRun ≠ 0 := by
  obtain ⟨p, hrun, reg, hreg, hlook, hidle⟩ : ∃ p, Run plainEnv.program Task.entry (fun _ _ => true) startEmpty p ∧
      ∃ reg, p.shared.registry.regs[0]? = some reg ∧ p.shared.registry.entries.lookup reg.key = some 0 ∧ reg.running = false ∧
        p.shared.registry.queuedCount 0 = 0 ∧ reg.nextRun ≠ 0 := Run.of_check notedActs (by decide +kernel)
  exact ⟨p, 0, reg, hrun, ⟨hlook, hreg⟩, hidle⟩

end Goultroid.Periodic
