import Goultroid.Jobs.Schedules
import Goultroid.Jobs.Drivers

/-!
# Slots of schedules

A due time of a schedule is a slot. The occurrence of a slot has the slot in its key, so a slot has at most
one, whoever materializes it. The transaction that makes it also writes the next due time, which its caller
computed from the schedule as it was listed: if the row has changed since, the slot is not consumed, or an
edit is overwritten. What is left is a sequential order of passes and edits exactly as long as the rows that
passes act on are those they listed.

That a slot has one occurrence is a fact about keys: an occurrence of a schedule has the key of its slot
(`Store.Slotted`), no step changes that, and keys are unique in the table. For the order, the visit of a
pass is compared with one that lists the schedule at the moment at which it acts (`Store.tick`); on an
undisturbed row they do the same (`Store.visit_eq_tick`), and the visits in the order in which they were
made are the sequential run (`Sequential`).
-/

namespace Goultroid.Jobs

open List Option Store
open Threads (Act Acts Pool Run)

variable {s₀ s' : Store} {fmt : Formats} {id : GoString} {o : JobOccurrence} {checked nextDue : Time}

/-! ### One occurrence for each slot -/

def slotKey (fmt : Formats) (scheduleID : GoString) (slot : Time) : GoString :=
  goString "sched:" ++ scheduleID ++ goString ":" ++ fmt.rfc3339Nano slot

/-- The occurrences of schedules have the keys of their slots. -/
def Store.Slotted (fmt : Formats) (s : Store) : Prop :=
  ∀ id l, s.life id = some l → l.occurrence.scheduleID ≠ [] →
    l.occurrence.occurrenceKey = slotKey fmt l.occurrence.scheduleID l.occurrence.scheduledFor

namespace Store

variable {s : Store}

theorem Slotted.eq_of_slot {o' : JobOccurrence} (h : s.Slotted fmt) (ho : o ∈ s.occurrences.rows) (ho' : o' ∈ s.occurrences.rows)
    (hne : o.scheduleID ≠ []) (hschedule : o.scheduleID = o'.scheduleID) (hslot : o.scheduledFor = o'.scheduledFor) : o = o' := by
  have hkey := h o.id _ (life_of_occurrence? (occurrence?_of_mem ho)) hne
  have hkey' := h o'.id _ (life_of_occurrence? (occurrence?_of_mem ho')) (hschedule ▸ hne)
  refine Table.eq_of_clash ho ho' (.inr ?_)
  show o.occurrenceKey = o'.occurrenceKey
  rw [hkey, hkey', hschedule, hslot]

theorem Slotted.of_life (h : s.Slotted fmt) (hlife : ∀ id, s'.life id = s.life id) : s'.Slotted fmt :=
  fun id l hl => h id l (hlife id ▸ hl)

theorem Slotted.insert (h : s.Slotted fmt) (hinsert : s.insertOccurrence? o = some s')
    (ho : o.scheduleID ≠ [] → o.occurrenceKey = slotKey fmt o.scheduleID o.scheduledFor) : s'.Slotted fmt := by
  intro id l hl
  rw [(life_insertOccurrence? hinsert).2 id] at hl
  split_ifs at hl with hid
  · cases hl
    exact ho
  · exact h id l hl

theorem Slotted.of_step (scope : Scope) (h : s.Slotted fmt) (hstep : ∀ id, Life.Step scope (s.life id) (s'.life id))
    (hfresh : ∀ state, ¬ scope.fresh state) : s'.Slotted fmt := by
  intro id l' hl'
  obtain ⟨l, hl, hid⟩ := (hl' ▸ hstep id).source hfresh
  have hfixed := hid.extends.fixed
  have hkey : l'.occurrence.occurrenceKey = l.occurrence.occurrenceKey := congrArg (·.1.2) hfixed
  have hschedule : l'.occurrence.scheduleID = l.occurrence.scheduleID := congrArg (·.2.2.1) hfixed
  have hslot : l'.occurrence.scheduledFor = l.occurrence.scheduledFor := congrArg (·.2.2.2) hfixed
  rw [hkey, hschedule, hslot]
  exact h id l hl

theorem Slotted.perform {t : Transaction} (h : s.Slotted fmt) (hperform : s.perform fmt t = .ok s')
    (hentry : ScheduleTask.entry (.request (.transaction t)) = true) : s'.Slotted fmt := by
  have hclosed (ht : t.Within .closed) : s'.Slotted fmt :=
    h.of_step .closed (perform_life hperform ht) fun _ hstate => hstate
  cases t with
  | materializeOccurrence =>
    obtain ⟨o, hok⟩ := ok_of_map_fst hperform
    rcases materializeOccurrence_ok hok with ⟨rfl, hinsert⟩ | ⟨rfl, -⟩
    · exact h.insert hinsert fun hne => absurd (beq_iff_eq.mp hentry) hne
    · exact h
  | materializeDueSchedule =>
    obtain ⟨res, hok⟩ := ok_of_map_fst hperform
    obtain ⟨sched, s1, -, rfl, ⟨-, rfl⟩ | ⟨-, hupsert, -⟩⟩ := materializeDueSchedule_ok hok
    · exact h.of_life fun id => life_updateSchedules
    · refine Slotted.of_life ?_ fun id => life_updateSchedules
      rcases upsertOccurrence_eq_some hupsert with hinsert | rfl
      · exact h.insert hinsert fun _ => rfl
      · refine h.of_step .closed (fun id => ?_) fun _ hstate => hstate
        apply updateOccurrences_step
        intro o
        rfl
  | _ => exact hclosed trivial

end Store

/-! ### Slots and their consumption -/

namespace Store

variable {s : Store} {row : JobSchedule} {now : Time}

/-- The schedule offers the slot no more. -/
def Consumed (s : Store) (id : GoString) (slot : Time) : Prop :=
  ∀ row, s.schedule? id = some row → row.enabled = false ∨ row.nextDueAt ≠ slot

theorem consumed_advanceSchedule {s1 : Store} (hrow : s.schedule? id = some row) (hschedules : s1.schedules = s.schedules) :
    (s1.advanceSchedule now id nextDue).Consumed id row.nextDueAt ↔ nextDue ≠ row.nextDueAt ∨ row.recurrence = .once := by
  have hrow1 : s1.schedule? id = some row := by rwa [schedule?, hschedules]
  have hadvance : (s1.advanceSchedule now id nextDue).schedule? id = some { row with
      nextDueAt := nextDue
      enabled := decide (row.recurrence ≠ .once)
      revision := row.revision + 1
      updatedAt := now } := by
    rw [advanceSchedule, schedule?_updateSchedules, hrow1]
    simp [(schedule?_mem hrow).2]
  simp only [Consumed, hadvance, Option.some.injEq, forall_eq', decide_eq_false_iff_not, not_not]
  exact Or.comm

theorem upsertOccurrence_schedules (h : s.upsertOccurrence now o = some s') : s'.schedules = s.schedules := by
  unfold upsertOccurrence at h
  split at h
  · cases h
    rfl
  · unfold insertOccurrence? at h
    split_ifs at h
    split at h
    · cases h
    · cases h
      rfl

end Store

/-! ### Runs -/

section Runs

variable {cal : Calendar} {choice : ScheduleChoice} {m : Timeline} {task task' : ScheduleTask} {p : Pool Timeline ScheduleTask}
  {ok : Pool Timeline ScheduleTask → Act ScheduleTask ScheduleChoice → Bool}

variable {s : Store} {now : Time}

inductive ScheduleTask.Uses (cal : Calendar) (choice : ScheduleChoice) (m : Timeline) : ScheduleTask → Timeline → ScheduleTask → Prop where
  | idle (task task' : ScheduleTask) (hvisit : ∀ now schedules n, task' = .visit now schedules n →
      n = 0 ∧ ∃ limit, schedules = m.store.listDueSchedules now limit) (hrequest : ∀ r, task' ≠ .request r) :
    Uses cal choice m task m task'
  | visited (now : Time) (sched : Schedule) (rest : List Schedule) (n : Nat) (task' : ScheduleTask)
    (hvisit : ∀ now' schedules n', task' = .visit now' schedules n' → now' = now ∧ schedules = rest)
    (hrequest : ∀ r, task' ≠ .request r) :
    Uses cal choice m (.visit now (sched :: rest) n)
      ⟨m.store.commit (m.store.execute cal choice.checked choice.now sched.id (cal.plan now sched)),
        m.events ++ [.visit now choice.checked choice.now sched.id]⟩ task'
  | requested (r : ScheduleRequest) (err : Option StoreError) :
    Uses cal choice m (.request r)
      ⟨m.store.commit (m.store.answer cal choice.checked choice.now r), m.events ++ [.request choice.checked choice.now r]⟩
      (.answered err)

theorem Calendar.advance_uses {m' : Timeline} (h : cal.advance choice m task = some (m', task')) : task.Uses cal choice m m' task' := by
  cases task with
  | processDueSchedules now limit =>
    simp only [Calendar.advance] at h
    split_ifs at h <;> cases h
    · exact .idle _ _ (by simp) (by simp)
    · refine .idle _ _ (fun now' schedules n heq => ?_) (by simp)
      cases heq
      exact ⟨rfl, limit, rfl⟩
  | visit now schedules =>
    cases schedules with
    | nil =>
      cases h
      exact .idle _ _ (by simp) (by simp)
    | cons =>
      simp only [Calendar.advance] at h
      split_ifs at h
      · cases h
        exact .idle _ _ (by simp) (by simp)
      · split at h
        · cases h
          exact .visited _ _ _ _ _ (by simp) (by simp)
        · split at h <;> cases h
          · exact .visited _ _ _ _ _ (by simp) (by simp)
          · refine .visited _ _ _ _ _ (fun now' schedules n' heq => ?_) (by simp)
            cases heq
            exact ⟨rfl, rfl⟩
  | processed | answered => cases h
  | request r =>
    simp only [Calendar.advance] at h
    split_ifs at h
    · cases h
      exact .idle _ _ (by simp) (by simp)
    · split at h <;> obtain ⟨rfl, rfl⟩ := Prod.mk.inj (some.inj h) <;> exact .requested r _

theorem Calendar.program_cases {a : Act ScheduleTask ScheduleChoice} {p' : Pool Timeline ScheduleTask}
    (h : Acts cal.program ScheduleTask.entry p a p') : (∃ t : ScheduleTask, t.entry = true ∧ p' = ⟨p.shared, p.threads ++ [t]⟩) ∨
      ∃ (i : Nat) (t : ScheduleTask) (choice : ScheduleChoice) (m' : Timeline) (t' : ScheduleTask), a = .move i choice ∧
        p.threads[i]? = some t ∧ t.Uses cal choice p.shared m' t' ∧ p' = ⟨m', p.threads.set i t'⟩ := by
  cases h with
  | call t ha ht heq => exact .inl ⟨t, ht, heq⟩
  | move i choice t t' shared new ha ht hnext heq =>
    obtain ⟨⟨m', task'⟩, hadvance, hpair⟩ := map_eq_some_iff.mp hnext
    obtain ⟨rfl, rfl, rfl⟩ := hpair
    exact .inr ⟨i, t, choice, m', task', ha, ht, advance_uses hadvance, by simpa using heq⟩

theorem timeline_invariant {P : Pool Timeline ScheduleTask → Prop}
    (h : Run cal.program ScheduleTask.entry ok (timeline s₀) p) (hstart : P (timeline s₀))
    (hcall : ∀ p t, P p → t.entry = true → P ⟨p.shared, p.threads ++ [t]⟩)
    (hmove : ∀ p i t choice m' t', P p → ok p (.move i choice) = true → p.threads[i]? = some t →
      t.Uses cal choice p.shared m' t' → P ⟨m', p.threads.set i t'⟩) : P p := by
  refine h.invariant (fun p a p' hp hok hacts => ?_) hstart
  rcases Calendar.program_cases hacts with ⟨t, ht, rfl⟩ | ⟨i, t, choice, m', t', rfl, ht, huses, rfl⟩
  · exact hcall p t hp ht
  · exact hmove p i t choice m' t' hp hok ht huses

/-- The keys of slots, and what threads may ask for. -/
structure Slots (fmt : Formats) (p : Pool Timeline ScheduleTask) : Prop where
  slotted : p.shared.store.Slotted fmt
  requests : ∀ t ∈ p.threads, ∀ r, t = .request r → t.entry = true

theorem Store.Slotted.commit {result : Except StoreError Store} (h : s.Slotted fmt)
    (hok : ∀ s', result = .ok s' → s'.Slotted fmt) : (s.commit result).Slotted fmt := by
  cases result with
  | ok s' => exact hok s' rfl
  | error => exact h

theorem Store.Slotted.skip (h : s.Slotted fmt) (hok : s.skipDueSchedule checked now id nextDue = .ok s') : s'.Slotted fmt := by
  unfold Store.skipDueSchedule at hok
  split at hok
  · cases hok
  · split_ifs at hok
    cases hok
    exact h.of_life fun id => life_updateSchedules

theorem Store.Slotted.save {sched : Schedule} (h : s.Slotted fmt) (hok : s.saveSchedule cal now sched = .ok s') : s'.Slotted fmt := by
  unfold Store.saveSchedule at hok
  split at hok
  · cases hok
  · split at hok
    · cases hok
    · rename_i s1 hupsert
      cases hok
      unfold Store.upsertSchedule at hupsert
      split_ifs at hupsert
      split at hupsert <;> obtain rfl := some.inj hupsert <;> exact h.of_life fun id => life_congr rfl rfl

theorem Slots.of_run (h0 : s₀.Slotted cal.fmt) (h : Run cal.program ScheduleTask.entry ok (timeline s₀) p) : Slots cal.fmt p := by
  refine timeline_invariant h ⟨h0, nofun⟩ (fun p t hp ht => ?_) fun p i t choice m' t' hp _ ht huses => ?_
  · refine ⟨hp.slotted, fun u hu r heq => ?_⟩
    rcases mem_append.mp hu with hu | hu
    · exact hp.requests u hu r heq
    · rwa [mem_singleton.mp hu]
  · have hreq (hnew : ∀ r, t' ≠ .request r) : ∀ u ∈ p.threads.set i t', ∀ r, u = .request r → u.entry = true := by
      intro u hu r heq
      rcases mem_or_eq_of_mem_set hu with hu | rfl
      · exact hp.requests u hu r heq
      · exact absurd heq (hnew r)
    cases huses with
    | idle _ _ _ hrequest => exact ⟨hp.slotted, hreq hrequest⟩
    | visited now sched _ n _ _ hrequest =>
      refine ⟨hp.slotted.commit fun s' hok => ?_, hreq hrequest⟩
      cases hplan : cal.plan now sched with
      | disable =>
        rw [hplan] at hok
        cases hok
        exact hp.slotted.of_life fun id => life_updateSchedules
      | skip =>
        rw [hplan] at hok
        exact hp.slotted.skip hok
      | materialize nextDue =>
        rw [hplan] at hok
        exact hp.slotted.perform (t := .materializeDueSchedule choice.checked sched.id nextDue) hok rfl
    | requested r =>
      refine ⟨hp.slotted.commit fun s' hok => ?_, hreq (by simp)⟩
      have hentry := hp.requests _ (mem_of_getElem? ht) r rfl
      cases r with
      | saveSchedule => exact hp.slotted.save hok
      | skipDueSchedule => exact hp.slotted.skip hok
      | disableSchedule id =>
        cases hok
        exact hp.slotted.of_life fun id => life_updateSchedules
      | transaction => exact hp.slotted.perform hok hentry

end Runs

/-- Zones are not checked, and intervals are whole seconds. -/
def plainCalendar : Calendar := ⟨plainFormats, fun _ => none, fun d => d / second⟩

def minutely : Schedule where
  id := goString "sched"
  jobID := goString "job"
  recurrence := .interval
  interval := minute
  nextDueAt := minute

/-- A step of thread `i` when the clock shows `now`. -/
def clockAt (i : Nat) (now : Time) : Act ScheduleTask ScheduleChoice := .move i { checked := now, now := now }

/-- The schedule is saved, and pass 1 materializes its slot. -/
def materializedOnce : List (Act ScheduleTask ScheduleChoice) :=
  [.call (.request (.saveSchedule minutely)), clockAt 0 0, .call (.processDueSchedules minute 10), clockAt 1 minute,
    clockAt 1 minute]

def Store.slots (s : Store) (id : GoString) : List Time :=
  (s.occurrences.rows.filter fun o => o.scheduleID == id).map JobOccurrence.scheduledFor

/-- Pass 1 lists the schedule; pass 2 materializes its first slot, whose occurrence is then cancelled. -/
def listedEarly : List (Act ScheduleTask ScheduleChoice) :=
  [.call (.request (.saveSchedule minutely)), clockAt 0 0, .call (.processDueSchedules minute 10), clockAt 1 minute,
    .call (.processDueSchedules minute 10), clockAt 2 minute, clockAt 2 minute,
    .call (.request (.transaction (.cancelOccurrence minute (goString "occ:sched:" ++ Text.decimalInt (unixNano minute)) []))),
    clockAt 3 minute]

/-- What a plan depends on. -/
def Schedule.terms (sched : Schedule) : Schedule := { sched with enabled := true, revision := 0 }

/-- A pass that lists the schedule and acts on it at once. -/
def Store.tick (cal : Calendar) (s : Store) (now checked later : Time) (id : GoString) : Store :=
  match s.schedule? id with
  | none => s
  | some row =>
    if row.enabled ∧ row.nextDueAt ≤ now then s.commit (s.execute cal checked later id (cal.plan now row.listed)) else s

def Store.after (cal : Calendar) (s : Store) : ScheduleEvent → Store
  | .visit now checked later id => s.tick cal now checked later id
  | .request checked later r => s.commit (s.answer cal checked later r)

def Store.replay (cal : Calendar) (s : Store) (events : List ScheduleEvent) : Store := events.foldl (after cal) s

theorem Store.replay_concat {cal : Calendar} (s : Store) (events : List ScheduleEvent) (event : ScheduleEvent) :
    s.replay cal (events ++ [event]) = (s.replay cal events).after cal event := by
  simp [replay]

/-- The row that a pass acts on is the one it listed, or is disabled, or will not be due before the pass is over. -/
def Undisturbed (cal : Calendar) (p : Pool Timeline ScheduleTask) : Act ScheduleTask ScheduleChoice → Bool
  | .call _ => true
  | .move i choice => (p.threads[i]?).all fun t =>
    match t with
    | .visit now (sched :: _) _ => (p.shared.store.schedule? sched.id).all fun row =>
      !row.enabled || row.listed.terms == sched.terms ||
        (decide (now < row.nextDueAt) && decide (choice.checked < row.nextDueAt) && ((cal.plan now sched).done sched.id).isNone)
    | _ => true

section Sequential

variable {cal : Calendar} {s : Store} {now later : Time} {sched : Schedule} {p : Pool Timeline ScheduleTask} {plan : Plan}

theorem Calendar.plan_terms (cal : Calendar) (now : Time) (sched : Schedule) : cal.plan now sched.terms = cal.plan now sched := rfl

theorem Store.execute_of_disabled (h : ∀ row, s.schedule? id = some row → row.enabled = false) :
    s.commit (s.execute cal checked later id plan) = s := by
  cases plan with
  | disable =>
    show s.disableSchedule later id = s
    apply updateSchedules_of_none
    intro r hr
    by_cases hid : r.id = id
    · subst hid
      simp [h r (schedule?_of_mem hr)]
    · simp [hid]
  | skip =>
    simp only [execute, skipDueSchedule]
    split
    · rfl
    · rename_i row hrow
      rw [if_pos (.inl (h row hrow))]
      rfl
  | materialize =>
    simp only [execute, materializeDueSchedule]
    split
    · rfl
    · rename_i row hrow
      rw [if_pos (.inl (h row hrow))]
      rfl

theorem Store.execute_of_undue {row : JobSchedule} (hrow : s.schedule? id = some row) (hdue : checked < row.nextDueAt)
    (hplan : plan.done id = none) : s.commit (s.execute cal checked later id plan) = s := by
  cases plan with
  | disable catchUp => cases catchUp <;> cases hplan
  | skip =>
    simp only [execute, skipDueSchedule, hrow]
    rw [if_pos (.inr hdue)]
    rfl
  | materialize =>
    simp only [execute, materializeDueSchedule, hrow]
    rw [if_pos (.inr hdue)]
    rfl

theorem Store.visit_eq_tick (hlisted : sched.nextDueAt ≤ now)
    (h : ((s.schedule? sched.id).all fun row => !row.enabled || row.listed.terms == sched.terms ||
      (decide (now < row.nextDueAt) && decide (checked < row.nextDueAt) && ((cal.plan now sched).done sched.id).isNone)) = true) :
    s.commit (s.execute cal checked later sched.id (cal.plan now sched)) = s.tick cal now checked later sched.id := by
  unfold tick
  cases hrow : s.schedule? sched.id with
  | none =>
    refine execute_of_disabled (fun row hsome => ?_)
    rw [hrow] at hsome
    cases hsome
  | some row =>
    dsimp only
    simp only [hrow, all_some, Bool.or_eq_true, Bool.and_eq_true, Bool.not_eq_true', decide_eq_true_eq, beq_iff_eq,
      isNone_iff_eq_none] at h
    rcases h with (hdisabled | hterms) | ⟨⟨hnow, hchecks⟩, hplan⟩
    · rw [if_neg (by simp [hdisabled])]
      refine execute_of_disabled (fun row' hsome => ?_)
      obtain rfl := mem_unique hrow hsome
      exact hdisabled
    · have hdue : row.nextDueAt = sched.nextDueAt := congrArg Schedule.nextDueAt hterms
      have hplan : cal.plan now row.listed = cal.plan now sched := by
        rw [← cal.plan_terms now row.listed, hterms, cal.plan_terms]
      by_cases henabled : row.enabled = true
      · rw [if_pos ⟨henabled, hdue ▸ hlisted⟩, hplan]
      · rw [if_neg fun hboth => henabled hboth.1]
        refine execute_of_disabled (fun row' hsome => ?_)
        obtain rfl := mem_unique hrow hsome
        simpa using henabled
    · rw [if_neg fun hboth => absurd hboth.2 (not_le.mpr hnow)]
      exact execute_of_undue hrow hchecks hplan

theorem Store.mem_listDueSchedules {limit : Int} (h : sched ∈ s.listDueSchedules now limit) : sched.nextDueAt ≤ now := by
  obtain ⟨row, hrow, rfl⟩ := mem_map.mp h
  have hfilter := (mem_filter.mp ((mem_insertionSort _).mp (mem_of_mem_take hrow))).2
  exact of_decide_eq_true (Bool.and_eq_true_iff.mp hfilter).2

/-- The database is what its events make of the first one, and passes hold only schedules that were due. -/
structure Sequential (cal : Calendar) (s₀ : Store) (p : Pool Timeline ScheduleTask) : Prop where
  store : p.shared.store = s₀.replay cal p.shared.events
  due : ∀ t ∈ p.threads, ∀ now schedules n, t = .visit now schedules n → ∀ sched ∈ schedules, sched.nextDueAt ≤ now

theorem Sequential.of_run (h : Run cal.program ScheduleTask.entry (Undisturbed cal) (timeline s₀) p) : Sequential cal s₀ p := by
  refine timeline_invariant h ⟨rfl, nofun⟩ (fun p t hp ht => ?_)
    fun p i t choice m' t' hp hok ht huses => ?_
  · refine ⟨hp.store, fun u hu now schedules n heq => ?_⟩
    rcases mem_append.mp hu with hu | hu
    · exact hp.due u hu now schedules n heq
    · rw [← mem_singleton.mp hu, heq] at ht
      cases ht
  · have hdue (hnew : ∀ now schedules n, t' = .visit now schedules n → ∀ sched ∈ schedules, sched.nextDueAt ≤ now) :
        ∀ u ∈ p.threads.set i t', ∀ now schedules n, u = .visit now schedules n → ∀ sched ∈ schedules, sched.nextDueAt ≤ now := by
      intro u hu
      rcases mem_or_eq_of_mem_set hu with hu | rfl
      · exact hp.due u hu
      · exact hnew
    cases huses with
    | idle _ _ hvisit =>
      refine ⟨hp.store, hdue fun now schedules n heq sched hsched => ?_⟩
      obtain ⟨-, _, rfl⟩ := hvisit now schedules n heq
      exact mem_listDueSchedules hsched
    | visited now sched rest n _ hvisit =>
      have hlisted := hp.due _ (mem_of_getElem? ht) now (sched :: rest) n rfl
      refine ⟨?_, hdue fun now' schedules n' heq sched' hsched' => ?_⟩
      · simp only [Undisturbed, ht, all_some] at hok
        rw [replay_concat, ← hp.store]
        exact visit_eq_tick (hlisted sched mem_cons_self) hok
      · obtain ⟨rfl, rfl⟩ := hvisit now' schedules n' heq
        exact hlisted sched' (mem_cons_of_mem _ hsched')
    | requested =>
      refine ⟨?_, hdue (by simp)⟩
      rw [replay_concat, ← hp.store]
      rfl

end Sequential

/-- As long as the rows that passes act on are those they listed, the database is what a sequential order of
the same visits and requests makes of the first one. -/
theorem passes_and_edits_sequential (cal : Calendar) (s₀ : Store) (p : Pool Timeline ScheduleTask)
    (h : Run cal.program ScheduleTask.entry (Undisturbed cal) (timeline s₀) p) : p.shared.store = s₀.replay cal p.shared.events :=
  (Sequential.of_run h).store

/-- A pass lists the schedule, and before it goes on the schedule is saved as `edit`. -/
def editedMeanwhile (edit : Schedule) : List (Act ScheduleTask ScheduleChoice) :=
  [.call (.request (.saveSchedule minutely)), clockAt 0 0, .call (.processDueSchedules minute 10), clockAt 1 minute,
    .call (.request (.saveSchedule edit)), clockAt 2 minute, clockAt 1 minute]

/-- The schedule is postponed. -/
theorem passes_and_edits_sequential_postponed :
    ∃ p, Run plainCalendar.program ScheduleTask.entry (Undisturbed plainCalendar) (timeline (.ofDefinitions [goString "job"])) p ∧
      p.shared.events = [.request 0 0 (.saveSchedule minutely),
        .request minute minute (.saveSchedule { minutely with nextDueAt := 10 * minute }),
        .visit minute minute minute (goString "sched")] ∧
      p.shared.store = (Store.ofDefinitions [goString "job"]).replay plainCalendar p.shared.events := by
  obtain ⟨p, hrun, heven⟩ : ∃ p, Run plainCalendar.program ScheduleTask.entry (Undisturbed plainCalendar)
      (timeline (.ofDefinitions [goString "job"])) p ∧ p.shared.events = [.request 0 0 (.saveSchedule minutely),
        .request minute minute (.saveSchedule { minutely with nextDueAt := 10 * minute }),
        .visit minute minute minute (goString "sched")] :=
    Run.of_check (editedMeanwhile { minutely with nextDueAt := 10 * minute }) (by decide +kernel)
  exact ⟨p, hrun, heven, passes_and_edits_sequential plainCalendar _ p hrun⟩

def hourly : Schedule := { minutely with interval := 60 * minute }

/-- When the schedule is due after `events`. -/
def dueAfter (events : List ScheduleEvent) : Option Time :=
  (((Store.ofDefinitions [goString "job"]).replay plainCalendar events).schedule? (goString "sched")).map JobSchedule.nextDueAt

/-- The pass advances the edited schedule by the minute of the one it listed. A pass before the edit leaves the
next due time of the edit, a pass after it an hour more. -/
theorem edit_overwritten_by_pass :
    (∃ p row, Run plainCalendar.program ScheduleTask.entry (fun _ _ => true) (timeline (.ofDefinitions [goString "job"])) p ∧
      p.shared.events = [.request 0 0 (.saveSchedule minutely), .request minute minute (.saveSchedule hourly),
        .visit minute minute minute (goString "sched")] ∧
      p.shared.store.schedule? (goString "sched") = some row ∧ row.intervalSeconds = 3600 ∧ row.nextDueAt = 2 * minute) ∧
    dueAfter [.request 0 0 (.saveSchedule minutely), .request minute minute (.saveSchedule hourly),
      .visit minute minute minute (goString "sched")] = some (61 * minute) ∧
    dueAfter [.request 0 0 (.saveSchedule minutely), .visit minute minute minute (goString "sched"),
      .request minute minute (.saveSchedule hourly)] = some minute := by
  refine ⟨?_, by decide +kernel, by decide +kernel⟩
  obtain ⟨p, hrun, heven, row, hrow⟩ :
      ∃ p, Run plainCalendar.program ScheduleTask.entry (fun _ _ => true) (timeline (.ofDefinitions [goString "job"])) p ∧
        p.shared.events = [.request 0 0 (.saveSchedule minutely), .request minute minute (.saveSchedule hourly),
          .visit minute minute minute (goString "sched")] ∧ ∃ row, p.shared.store.schedule? (goString "sched") = some row ∧
            row.intervalSeconds = 3600 ∧ row.nextDueAt = 2 * minute := Run.of_check (editedMeanwhile hourly) (by decide +kernel)
  exact ⟨p, row, hrun, heven, hrow⟩

end Goultroid.Jobs
