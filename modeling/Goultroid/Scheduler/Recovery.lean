import Goultroid.Jobs.Protocol
import Goultroid.Scheduler.Registration

/-!
# Registrations across crashes

A registration is known by its row, its wrapper definition and its schedule (`Slot`). As long as its schedule
is there, disabled and untouched, the recovery finds what is left of it. What is done before that schedule is
saved, and after it is gone, is not found: a registration is all or nothing if nothing stops it there.

A call is walked through statement by statement with the rules of `Faults`. A statement does one thing to the
slot and nothing to the rest of the database (`Does`, `Apart`), or it is refused, or the process stops.
`During` carries the slot along, and wherever the call can end the slot is registered, empty, or marked by
its prepared schedule (`Slot.Settled`). The recovery lists these schedules and clears their slots one after
the other (`Progress`); `Orderly` is what every event leaves to the next one.
-/

open Faults

namespace Goultroid.Scheduler

open List Option Table Bool
open Jobs (Calendar JobSchedule Store)
open Text (decimal decimalInt decimalInt_inj decimal_ne_nil digit_of_mem_decimal)

variable {db db' db'' : Database} {id' j k : Int} {definition : GoString} {enabled : Bool} {result : Option Bool} {n : Nat}
  {fault : Option Fault} {w'' : World}

/-! ### Names -/

theorem scheduledDefinitionID_inj (h : scheduledDefinitionID j = scheduledDefinitionID k) : j = k :=
  decimalInt_inj (append_cancel_left h)

theorem redesignedScheduleID_inj (h : redesignedScheduleID j = redesignedScheduleID k) : j = k :=
  decimalInt_inj (append_cancel_left h)

theorem parseInt64_decimal (h : n < 2 ^ 63) : parseInt64 (decimal n) = some (n : Int) := by
  have hdigits : parseDigits (decimal n) = some n := by
    unfold parseDigits
    rw [if_pos ⟨decimal_ne_nil, all_eq_true.mpr fun b hb => by simpa using digit_of_mem_decimal hb⟩,
      Text.chars_decimal, Nat.ofDigitChars_ten_toDigits]
  have hfirst : ∀ b ∈ decimal n, b ≠ 0x2D ∧ b ≠ 0x2B := by
    intro b hb
    have hlow := (digit_of_mem_decimal hb).1
    constructor <;> rintro rfl <;> exact absurd hlow (by decide)
  unfold parseInt64
  split
  · next heq => exact absurd rfl (hfirst 0x2D (by rw [heq]; exact mem_cons_self)).1
  · next heq => exact absurd rfl (hfirst 0x2B (by rw [heq]; exact mem_cons_self)).2
  · rw [hdigits, filter_some, if_pos (by simpa using h)]
    rfl

theorem blank_decimal : blank (decimal n) = false := by
  cases hdigits : decimal n with
  | nil => exact absurd hdigits decimal_ne_nil
  | cons b =>
    obtain ⟨hlow, hhigh⟩ := digit_of_mem_decimal (n := n) (b := b) (by rw [hdigits]; exact mem_cons_self)
    have hspace : ((0x09 ≤ b && b ≤ 0x0D) || b == 0x20) = false := by
      have hafter : ¬ b ≤ 0x0D := fun h => by
        have hle := UInt8.le_iff_toNat_le.mp h
        have := hlow.trans hle
        exact absurd this (by decide)
      have hne : ¬ b = 0x20 := by
        rintro rfl
        exact absurd hlow (by decide)
      simp [hafter, hne]
    unfold blank
    split
    · next heq => cases heq
    iterate 5
      · next heq =>
        cases heq
        exact absurd hhigh (by decide)
    · next heq =>
      cases heq
      rw [hspace, Bool.false_and]

theorem decimalInt_of_pos (h : 0 < k) : decimalInt k = decimal k.natAbs := if_neg (by omega)

theorem scheduledJobID_redesigned (hpos : 0 < k) (hmax : k < 2 ^ 63) : scheduledJobIDFromScheduleID (redesignedScheduleID k) = some k := by
  have hstart : schedulerPreparedSchedulePrefix.isPrefixOf (redesignedScheduleID k) = true :=
    isPrefixOf_iff_prefix.mpr (prefix_append _ _)
  have hvalue : (k.natAbs : Int) = k := by omega
  unfold scheduledJobIDFromScheduleID
  rw [if_pos hstart, redesignedScheduleID, drop_left, decimalInt_of_pos hpos]
  show (if blank (decimal k.natAbs) then none else (parseInt64 (decimal k.natAbs)).filter (0 < ·)) = some k
  rw [blank_decimal, if_neg (by decide), parseInt64_decimal (by omega), hvalue, filter_some, if_pos (by simpa using hpos)]

theorem likeStart_redesigned : Store.likeStart schedulerPreparedSchedulePrefix (redesignedScheduleID k) = true := by
  unfold Store.likeStart redesignedScheduleID
  rw [map_append, isPrefixOf_iff_prefix]
  exact prefix_append _ _

/-! ### What there is of a registration -/

/-- The status of the row, whether there is a wrapper definition, and of the schedule the definition, the flag and the
revision. -/
@[ext] structure Slot where
  row : Option JobStatus
  wrapper : Bool
  schedule : Option (GoString × Bool × Nat)
  deriving DecidableEq

namespace Slot

def empty : Slot := ⟨none, false, none⟩

/-- An active row and an enabled schedule, whose definition the foreign key guarantees. -/
def Registered (s : Slot) : Prop := s.row = some .pending ∧ ∃ definition revision, s.schedule = some (definition, true, revision)

/-- The schedule is disabled and untouched, and the wrapper, if there is one, is its definition. -/
def Marked (id : Int) (s : Slot) : Prop :=
  (s.row = none ∨ s.row = some .initializing ∨ s.row = some .pending) ∧
    ∃ definition, s.schedule = some (definition, false, 1) ∧ (s.wrapper = true → definition = scheduledDefinitionID id)

/-- A registration of which nothing is left, or all, or what the recovery needs. -/
def Settled (id : Int) (s : Slot) : Prop := s = empty ∨ s.Registered ∨ s.Marked id

theorem Registered.not_marked {id : Int} {s : Slot} (h : s.Registered) : ¬ s.Marked id := by
  rintro ⟨-, _, hmark, -⟩
  obtain ⟨-, _, _, hschedule⟩ := h
  rw [hmark] at hschedule
  simp at hschedule

end Slot

namespace Database

variable {id : Int} {job : ScheduledJob} {now : Time}

def slot (db : Database) (id : Int) : Slot where
  row := (db.scheduledJob? id).map ScheduledJob.status
  wrapper := decide (scheduledDefinitionID id ∈ db.store.definitions)
  schedule := (db.store.schedule? (redesignedScheduleID id)).map fun sched => (sched.jobID, sched.enabled, sched.revision)

/-- Everything but the registration is the same in both databases. -/
structure Apart (id : Int) (db db' : Database) : Prop where
  rows : ∀ id', id' ≠ id → db'.scheduledJob? id' = db.scheduledJob? id'
  definitions : ∀ d, d ≠ scheduledDefinitionID id → (d ∈ db'.store.definitions ↔ d ∈ db.store.definitions)
  schedules : ∀ s, s ≠ redesignedScheduleID id → db'.store.schedule? s = db.store.schedule? s

/-- Only the schedule of a registration refers to its wrapper. -/
def Owned (db : Database) (id : Int) : Prop :=
  ∀ s sched, db.store.schedule? s = some sched → sched.jobID = scheduledDefinitionID id → s = redesignedScheduleID id

namespace Apart

theorem refl (id : Int) (db : Database) : Apart id db db := ⟨fun _ _ => rfl, fun _ _ => Iff.rfl, fun _ _ => rfl⟩

theorem trans (h : Apart id db db') (h' : Apart id db' db'') : Apart id db db'' where
  rows id' hne := (h'.rows id' hne).trans (h.rows id' hne)
  definitions d hne := (h'.definitions d hne).trans (h.definitions d hne)
  schedules s hne := (h'.schedules s hne).trans (h.schedules s hne)

theorem slot_eq (h : Apart id db db') (hne : id' ≠ id) : db'.slot id' = db.slot id' := by
  have hwrap : scheduledDefinitionID id' ≠ scheduledDefinitionID id := fun heq => hne (scheduledDefinitionID_inj heq)
  have hschedule : redesignedScheduleID id' ≠ redesignedScheduleID id := fun heq => hne (redesignedScheduleID_inj heq)
  unfold slot
  rw [h.rows id' hne, h.schedules _ hschedule, decide_eq_decide.mpr (h.definitions _ hwrap)]

end Apart

/-! ### Statements on a registration -/

theorem scheduledJob?_mem (h : db.scheduledJob? id = some job) : job ∈ db.scheduled.rows ∧ job.id = id :=
  ⟨mem_of_find?_eq_some h, by simpa using find?_some h⟩

theorem scheduledJob?_of_mem (h : job ∈ db.scheduled.rows) : db.scheduledJob? job.id = some job :=
  find?_of_mem h (by simp) fun j hj => (beq_iff_eq.mp hj).symm

theorem createScheduledJob_spec (h : db.createScheduledJob job = some db') (hfresh : db.scheduledJob? (db.sequence + 1 : Nat) = none) :
    Apart (db.sequence + 1 : Nat) db db' ∧ db'.sequence = db.sequence + 1 ∧ db.sequence + 1 < 2 ^ 63 ∧
      db'.slot (db.sequence + 1 : Nat) = { db.slot (db.sequence + 1 : Nat) with row := some job.status } := by
  unfold createScheduledJob at h
  split_ifs at h with hmax
  obtain ⟨t, hinsert, rfl⟩ := map_eq_some_iff.mp h
  obtain ⟨-, hrows⟩ := insert?_eq_some hinsert
  have hfind (id' : Int) : t.rows.find? (·.id == id') =
      (db.scheduledJob? id').or (if ((db.sequence + 1 : Nat) : Int) = id' then
        some { job with id := (db.sequence + 1 : Nat) } else none) := by
    rw [hrows, find?_append]
    congr 1
    by_cases hid : ((db.sequence + 1 : Nat) : Int) = id'
    · rw [if_pos hid]
      exact find?_cons_of_pos (beq_iff_eq.mpr hid)
    · rw [if_neg hid]
      exact find?_cons_of_neg fun heq => hid (beq_iff_eq.mp heq)
  refine ⟨⟨fun id' hne => ?_, fun _ _ => Iff.rfl, fun _ _ => rfl⟩, rfl, hmax, ?_⟩
  · refine (hfind id').trans ?_
    rw [if_neg (Ne.symm hne), or_none]
  · refine Slot.ext ?_ rfl rfl
    show (t.rows.find? _).map _ = _
    rw [hfind, hfresh, if_pos rfl]
    rfl

/-- What a statement does: it leaves all but the registration as it was, and changes that by `f`. -/
structure Does (id : Int) (f : Slot → Slot) (db db' : Database) : Prop where
  apart : Apart id db db'
  sequence : db'.sequence = db.sequence
  slot : db'.slot id = f (db.slot id)

theorem activateScheduledJob_spec (h : db.activateScheduledJob id = some db') :
    Does id (fun s => { s with row := some .pending }) db db' ∧ db'.store = db.store := by
  simp only [activateScheduledJob] at h
  split_ifs at h with hone
  cases h
  obtain ⟨row, hmem, hrow⟩ := countP_pos_iff.mp (show 0 < db.scheduled.rows.countP _ by
    rw [show db.scheduled.rows.countP _ = 1 from hone]
    decide)
  simp only [and_eq_true, beq_iff_eq] at hrow
  have hfind : db.scheduledJob? id = some row := hrow.1 ▸ scheduledJob?_of_mem hmem
  have hupdate (id' : Int) := find?_update (t := db.scheduled) (p := fun j => j.id == id && j.status == .initializing)
    (q := (·.id == id')) (f := fun j : ScheduledJob => { j with status := .pending }) (fun _ => rfl) fun _ => rfl
  refine ⟨⟨⟨fun id' hne => ?_, fun _ _ => Iff.rfl, fun _ _ => rfl⟩, rfl, ?_⟩, rfl⟩
  · refine (hupdate id').trans ?_
    show (db.scheduledJob? id').map _ = db.scheduledJob? id'
    cases hother : db.scheduledJob? id' with
    | none => rfl
    | some => simp [(scheduledJob?_mem hother).2, hne]
  · refine Slot.ext ?_ rfl rfl
    refine (congrArg (Option.map ScheduledJob.status) (hupdate id)).trans ?_
    show ((db.scheduledJob? id).map _).map _ = _
    simp [hfind, hrow.1, hrow.2]

theorem deleteScheduledJob_spec (h : db.deleteScheduledJob id = some db') : Does id (fun s => { s with row := none }) db db' := by
  unfold deleteScheduledJob at h
  split_ifs at h
  cases h
  refine ⟨⟨fun id' hne => ?_, fun _ _ => Iff.rfl, fun _ _ => rfl⟩, rfl, Slot.ext ?_ rfl rfl⟩
  · simp only [scheduledJob?, Table.delete, find?_filter]
    congr 1
    funext j
    by_cases hj : j.id = id'
    · simp [hj, hne]
    · simp [hj]
  · have hnone : scheduledJob? { db with scheduled := db.scheduled.delete (·.id == id) } id = none := by
      rw [scheduledJob?, find?_eq_none]
      intro j hj
      simpa using (mem_delete.mp hj).2
    simp [slot, hnone]

theorem deleteScheduledJob_eq_none (h : db.deleteScheduledJob id = none) : (db.slot id).row = none := by
  unfold deleteScheduledJob at h
  split_ifs at h with hsome
  simp [slot, not_isSome_iff_eq_none.mp hsome]

theorem saveDefinition_spec (h : db.saveDefinition (scheduledDefinitionID id) = some db') :
    Does id (fun s => { s with wrapper := true }) db db' := by
  cases h
  refine ⟨⟨fun _ _ => rfl, fun d hne => ?_, fun s _ => Store.schedule?_saveDefinition⟩, rfl, Slot.ext rfl ?_ ?_⟩
  · simp [Store.mem_saveDefinition, hne]
  · simp [slot, Store.mem_saveDefinition]
  · simp [slot]

theorem deleteDefinition_spec (howned : db.Owned id) (h : db.deleteDefinition (scheduledDefinitionID id) = some db') :
    Does id (fun s => { s with
      wrapper := false
      schedule := s.schedule.filter (·.1 != scheduledDefinitionID id) }) db db' := by
  cases h
  refine ⟨⟨fun _ _ => rfl, fun d hne => ?_, fun s hne => ?_⟩, rfl, Slot.ext rfl ?_ ?_⟩
  · simp [Store.mem_deleteDefinition, hne]
  · show (db.store.deleteDefinition _).schedule? s = _
    rw [Store.schedule?_deleteDefinition]
    cases hsched : db.store.schedule? s with
    | none => rfl
    | some sched =>
      rw [filter_some, if_pos]
      refine bne_iff_ne.mpr fun hjob => ?_
      exact hne (howned s sched hsched hjob)
  · simp [slot, Store.mem_deleteDefinition]
  · show ((db.store.deleteDefinition _).schedule? _).map _ = _
    rw [Store.schedule?_deleteDefinition]
    cases hsched : db.store.schedule? (redesignedScheduleID id) with
    | none => simp [slot, hsched]
    | some sched =>
      by_cases hjob : sched.jobID = scheduledDefinitionID id
      iterate 2
        · simp [slot, hsched, filter_some, hjob]

theorem saveSchedule_spec {cal : Calendar} {request : Request}
    (h : db.saveSchedule cal now (redesignedSchedule request id definition enabled) = some db') :
    Does id (fun s => { s with schedule := some (definition, enabled, match s.schedule with
      | none => 1
      | some (_, _, revision) => revision + 1) }) db db' := by
  unfold saveSchedule Store.saveSchedule at h
  split at h
  · next t hsave =>
    cases h
    split at hsave
    · cases hsave
    split at hsave
    · cases hsave
    next hupsert =>
    cases hsave
    refine ⟨⟨fun _ _ => rfl, fun d _ => ?_, fun s hne => ?_⟩, rfl, Slot.ext rfl ?_ ?_⟩
    · rw [Store.definitions_upsertSchedule hupsert]
    · exact (Store.schedule?_upsertSchedule hupsert).trans (if_neg hne)
    · simp only [slot, Store.definitions_upsertSchedule hupsert]
    · have hrow := (Store.schedule?_upsertSchedule hupsert).trans (if_pos (show redesignedScheduleID id = _ from rfl))
      show (Store.schedule? _ _).map _ = _
      rw [hrow]
      cases hold : db.store.schedule? (redesignedScheduleID id) with
      | none | some => simp [slot, hold, Calendar.savedRow, redesignedSchedule]
  · cases h

theorem updateSchedules_spec {f : JobSchedule → JobSchedule} {p : JobSchedule → Bool} {g : GoString × Bool × Nat → GoString × Bool × Nat}
    {hf : ∀ sched, ((f sched).id, (f sched).jobID) = (sched.id, sched.jobID)}
    (hp : ∀ sched, p sched = true → sched.id = redesignedScheduleID id)
    (hg : ∀ sched, sched.id = redesignedScheduleID id → (fun r : JobSchedule => (r.jobID, r.enabled, r.revision))
      (if p sched then f sched else sched) = g (sched.jobID, sched.enabled, sched.revision)) :
    Does id (fun s => { s with schedule := s.schedule.map g }) db { db with store := db.store.updateSchedules p f hf } := by
  refine ⟨⟨fun _ _ => rfl, fun _ _ => Iff.rfl, fun s hne => ?_⟩, rfl, Slot.ext rfl rfl ?_⟩
  · show (db.store.updateSchedules p f hf).schedule? s = _
    rw [Store.schedule?_updateSchedules]
    cases hsched : db.store.schedule? s with
    | none => rfl
    | some sched =>
      rw [map_some, if_neg]
      intro hselected
      exact hne ((Store.schedule?_mem hsched).2.symm.trans (hp sched hselected))
  · show ((db.store.updateSchedules p f hf).schedule? _).map _ = _
    rw [Store.schedule?_updateSchedules]
    cases hsched : db.store.schedule? (redesignedScheduleID id) with
    | none => simp [slot, hsched]
    | some sched => simpa [slot, hsched] using hg sched (Store.schedule?_mem hsched).2

theorem disableSchedule_spec (h : db.disableSchedule now (redesignedScheduleID id) = some db') :
    Does id (fun s => { s with schedule := s.schedule.map fun (definition, enabled, revision) =>
      if enabled then (definition, false, revision + 1) else (definition, enabled, revision) }) db db' := by
  cases h
  refine updateSchedules_spec (fun sched hselected => beq_iff_eq.mp (and_eq_true_iff.mp hselected).1) fun sched hid => ?_
  cases henabled : sched.enabled <;> simp [hid, henabled]

theorem publishScheduleRegistration_spec (h : db.publishScheduleRegistration now (redesignedScheduleID id) id = some db') :
    ∃ definition, (db.slot id).schedule = some (definition, false, 1) ∧
      Does id (fun s => { s with row := some .pending, schedule := some (definition, true, 2) }) db db' := by
  unfold publishScheduleRegistration at h
  split_ifs at h
  split at h
  · cases h
  next db1 hactive =>
  obtain ⟨hdoes, hstore⟩ := activateScheduledJob_spec hactive
  split_ifs at h with hone
  cases h
  obtain ⟨sched, hmem, hselected⟩ := countP_pos_iff.mp (show 0 < db1.store.schedules.rows.countP _ by
    rw [show db1.store.schedules.rows.countP _ = 1 from hone]
    decide)
  simp only [Store.prepared, and_eq_true, not_eq_true', beq_iff_eq] at hselected
  obtain ⟨⟨hid, henabled⟩, hrev⟩ := hselected
  have hsched : db.store.schedule? (redesignedScheduleID id) = some sched := by
    rw [← hstore, ← hid]
    exact Store.schedule?_of_mem hmem
  have hpub : Does id (fun s => { s with schedule := s.schedule.map fun (definition, enabled, revision) =>
      if !enabled && revision == 1 then (definition, true, revision + 1) else (definition, enabled, revision) }) db1
      { db1 with store := db1.store.publishSchedule now (redesignedScheduleID id) } := by
    refine updateSchedules_spec (fun sched hselected => ?_) fun sched hid => ?_
    · simp only [Store.prepared, and_eq_true, beq_iff_eq] at hselected
      exact hselected.1.1
    · simp only [Store.prepared, hid, beq_self_eq_true, Bool.true_and]
      split_ifs <;> rfl
  refine ⟨sched.jobID, by simp [slot, hsched, henabled, hrev], hdoes.apart.trans hpub.apart,
    hpub.sequence.trans hdoes.sequence, ?_⟩
  rw [hpub.slot, hdoes.slot]
  refine Slot.ext rfl rfl ?_
  simp [slot, hsched, henabled, hrev]

theorem deletePreparedSchedule_spec (h : db.deletePreparedSchedule (redesignedScheduleID id) = some db') :
    Does id (fun s => { s with schedule := s.schedule.filter fun (_, enabled, revision) => enabled || revision != 1 }) db db' := by
  cases h
  refine ⟨⟨fun _ _ => rfl, fun _ _ => Iff.rfl, fun s hne => ?_⟩, rfl, Slot.ext rfl rfl ?_⟩
  · refine Store.schedule?_deleteSchedules.trans ?_
    cases hsched : db.store.schedule? s with
    | none => rfl
    | some sched =>
      rw [filter_some, if_pos]
      have hid : sched.id ≠ redesignedScheduleID id := (Store.schedule?_mem hsched).2 ▸ hne
      simp [Store.prepared, hid]
  · show ((db.store.deleteSchedules _).schedule? _).map _ = _
    rw [Store.schedule?_deleteSchedules]
    cases hsched : db.store.schedule? (redesignedScheduleID id) with
    | none => simp [slot, hsched]
    | some sched =>
      have hid := (Store.schedule?_mem hsched).2
      by_cases hprepared : sched.enabled = false ∧ sched.revision = 1
      · simp [slot, hsched, filter_some, Store.prepared, hid, hprepared.1, hprepared.2]
      · have hkeep : (!Store.prepared (redesignedScheduleID id) sched) = true := by
          simp only [Store.prepared, hid, beq_self_eq_true, Bool.true_and]
          cases henabled : sched.enabled <;> simp_all
        have hkeep' : (sched.enabled || sched.revision != 1) = true := by
          cases henabled : sched.enabled <;> simp_all
        rw [filter_some, if_pos hkeep]
        simp [slot, hsched, filter_some, hkeep']

end Database

/-! ### A registration under way -/

open Database (Apart Does Owned)
open Proc (Attempted)

/-- A definition that may be scheduled under the id: no wrapper of another registration. -/
def Foreign (id : Int) (definition : GoString) : Prop := ∀ id', definition = scheduledDefinitionID id' → id' = id

theorem foreign_wrapper (id : Int) : Foreign id (scheduledDefinitionID id) := fun _ h => (scheduledDefinitionID_inj h).symm

def Slot.Proper (id : Int) (s : Slot) : Prop :=
  ∀ definition enabled revision, s.schedule = some (definition, enabled, revision) → Foreign id definition

/-- The state of the registration in a world that is otherwise as it was before. -/
structure During (id : Int) (w₀ w : World) (slot : Slot) : Prop where
  apart : Apart id w₀.db w.db
  state : w.db.slot id = slot
  sequence : w.db.sequence = w₀.db.sequence
  proper : slot.Proper id

variable {e : Wiring} {plan : Site → Option Fault} {id : Int} {w₀ w w' : World} {slot : Slot} {job : Request}

/-- The wrapper is gone, and the schedule with it if that is its definition. -/
def Slot.unwrap (id : Int) (s : Slot) : Slot :=
  { s with wrapper := false, schedule := s.schedule.filter (·.1 != scheduledDefinitionID id) }

theorem Slot.Proper.unwrap (h : slot.Proper id) : (slot.unwrap id).Proper id := by
  intro definition enabled revision hschedule
  exact h definition enabled revision (filter_eq_some_iff.mp hschedule).1

theorem owned_of_apart (h : Owned db id') (hapart : Apart id db db') (hproper : (db'.slot id).Proper id) : Owned db' id' := by
  intro s sched hsched hjob
  by_cases hs : s = redesignedScheduleID id
  · subst hs
    have hslot : (db'.slot id).schedule = some (sched.jobID, sched.enabled, sched.revision) := by simp [Database.slot, hsched]
    rw [hproper _ _ _ hslot id' hjob]
  · exact h s sched (hapart.schedules s hs ▸ hsched) hjob

namespace During

variable {f : Slot → Slot}

theorem does (h : During id w₀ w slot) (hdoes : Does id f w.db db') (hproper : (f slot).Proper id) :
    During id w₀ { w with db := db' } (f slot) where
  apart := h.apart.trans hdoes.apart
  state := hdoes.slot.trans (congrArg f h.state)
  sequence := hdoes.sequence.trans h.sequence
  proper := hproper

theorem refl (hslot : w.db.slot id = slot) (hproper : slot.Proper id) : During id w w slot := ⟨.refl _ _, hslot, rfl, hproper⟩

section

variable (h : During id w₀ w slot)
include h

theorem owned (howned : Owned w₀.db id') : Owned w.db id' :=
  owned_of_apart howned h.apart (h.state.symm ▸ h.proper)

theorem execute {statement : Database → Option Database}
    (hdoes : ∀ db', statement w.db = some db' → Does id f w.db db') (hproper : (f slot).Proper id) :
    (execute fault statement).Ensures w (Attempted fault (statement w.db = none)
      (fun w' => During id w₀ w' slot ∧ w'.definitions = w.definitions)
      fun w' => During id w₀ w' (f slot) ∧ w'.definitions = w.definitions) := by
  refine Proc.ensures_attempt.mono fun result w' hattempt => hattempt.mono (by simp) ?_ ?_
  · rintro w' rfl
    exact ⟨h, rfl⟩
  · intro w' hw'
    obtain ⟨db', hdb', rfl⟩ := map_eq_some_iff.mp hw'
    exact ⟨h.does (hdoes db' hdb') hproper, rfl⟩

theorem register :
    (register e fault (scheduledDefinitionID id)).Ensures w fun result w' => match result with
      | none => fault = some .crash
      | some .done => During id w₀ w' { slot with wrapper := true } ∧ scheduledDefinitionID id ∈ w'.definitions
      | some _ => fault = some (.uncertain true) ∨ During id w₀ w' slot := by
  apply Proc.ensures_inspect
  split_ifs
  · exact .inr h
  · refine (h.execute (fun db' => Database.saveDefinition_spec) h.proper).attempted (fun hfault _ _ => hfault) (fun w' hdone => ?_)
      (fun hfault _ _ => .inl hfault) fun w' _ hkept => ⟨.inr hkept.1, .inr hkept.1⟩
    exact Proc.ensures_modify (Proc.ensures_pure ⟨⟨hdone.1.apart, hdone.1.state, hdone.1.sequence, hdone.1.proper⟩, mem_cons_self⟩)

theorem deleteDefinition (howned : Owned w₀.db id) :
    (deleteDefinition fault (scheduledDefinitionID id)).Ensures w fun result w' => match result with
      | none => fault = some .crash ∧ During id w₀ w' slot ∧ w'.definitions = w.definitions
      | some answer =>
        (During id w₀ w' (slot.unwrap id) ∧ ∀ d ∈ w.definitions, d ≠ scheduledDefinitionID id → d ∈ w'.definitions) ∨
        (During id w₀ w' slot ∧ w'.definitions = w.definitions ∧
          (scheduledDefinitionID id ∈ w.definitions → answer ≠ .done ∧ ¬ Effective fault)) := by
  apply Proc.ensures_inspect
  split_ifs with hknown
  · refine (h.execute (fun db' => Database.deleteDefinition_spec (h.owned howned)) (h.proper.unwrap)).attempted
      (fun hfault w' hkept => ⟨hfault, hkept⟩) (fun w' hdone => ?_) (fun _ w' hdone => .inl ⟨hdone.1, fun d hd _ => hdone.2 ▸ hd⟩)
      fun w' hwhy hkept => ?_
    · refine Proc.ensures_modify (Proc.ensures_pure (.inl
        ⟨⟨hdone.1.apart, hdone.1.state, hdone.1.sequence, hdone.1.proper⟩, fun d hd hne => ?_⟩))
      exact mem_filter.mpr ⟨hdone.2 ▸ hd, by simpa using hne⟩
    · have hineffective := hwhy.resolve_right (by simp [Database.deleteDefinition])
      constructor <;> exact .inr ⟨hkept.1, hkept.2, fun _ => ⟨by decide, hineffective⟩⟩
  · exact .inr ⟨h, rfl, fun hin => absurd hin hknown⟩

theorem saveRedesignedSchedule (hdef : Foreign id definition) :
    (saveRedesignedSchedule e fault job id definition enabled).Ensures w (Attempted fault True
      (fun w' => During id w₀ w' slot ∧ w'.definitions = w.definitions)
      fun w' => During id w₀ w' { slot with schedule := some (definition, enabled, match slot.schedule with
        | none => 1
        | some (_, _, revision) => revision + 1) } ∧ w'.definitions = w.definitions) := by
  unfold Scheduler.saveRedesignedSchedule saveSchedule
  split
  · exact Proc.ensures_pure (.failed (by decide) (.inr trivial) ⟨h, rfl⟩)
  · refine (h.execute (fun db' => Database.saveSchedule_spec) ?_).mono fun result w' hw' => ?_
    · rintro _ _ _ hschedule
      obtain rfl := congrArg Prod.fst (some.inj hschedule)
      exact hdef
    · exact hw'.mono (fun _ => trivial) (fun _ hkept => hkept) fun _ hmade => hmade

end

end During

/-! ### The steps of a registration -/

/-- Nothing stops the registration before its schedule is saved, no statement before that and no publication is reported to
have failed although it took effect, and what was made is deleted if it is to be deleted. -/
structure Sparing (plan : Site → Option Fault) : Prop where
  create : plan .create ≠ some (.uncertain true)
  saveDefinition : plan .saveDefinition ≠ some .crash ∧ plan .saveDefinition ≠ some (.uncertain true)
  saveSchedule : plan .saveSchedule ≠ some .crash
  undefine : Effective (plan .undefine)
  withdraw : Effective (plan .withdraw)
  publish : plan .publish ≠ some (.uncertain true)
  removeRow : Effective (plan .removeRow)

instance (plan : Site → Option Fault) : Decidable (Sparing plan) :=
  decidable_of_iff (plan .create ≠ some (.uncertain true) ∧
    (plan .saveDefinition ≠ some .crash ∧ plan .saveDefinition ≠ some (.uncertain true)) ∧ plan .saveSchedule ≠ some .crash ∧
    Effective (plan .undefine) ∧ Effective (plan .withdraw) ∧ plan .publish ≠ some (.uncertain true) ∧ Effective (plan .removeRow))
    ⟨fun ⟨h₁, h₂, h₃, h₄, h₅, h₆, h₇⟩ => ⟨h₁, h₂, h₃, h₄, h₅, h₆, h₇⟩,
      fun ⟨h₁, h₂, h₃, h₄, h₅, h₆, h₇⟩ => ⟨h₁, h₂, h₃, h₄, h₅, h₆, h₇⟩⟩

theorem effective_ne_crash (h : Effective fault) : fault ≠ some .crash := by
  rcases h with rfl | rfl <;> decide

/-- Only the row is left, and perhaps the schedule of a target. -/
def Slot.Discardable (s : Slot) : Prop :=
  s.wrapper = false ∧ (s.schedule = none ∨ ∃ definition, s.schedule = some (definition, false, 1))

/-- Row, definition and schedule are there, and the schedule is disabled. -/
structure Slot.Prepared (registration : ScheduledRegistration) (s : Slot) : Prop where
  row : s.row = some .initializing ∨ s.row = some .pending
  wrapper : s.wrapper = registration.ownsDefinition
  schedule : s.schedule = some (registration.definitionID, false, 1)

theorem Slot.Prepared.marked {registration : ScheduledRegistration} (h : slot.Prepared registration)
    (howns : registration.ownsDefinition = true → registration.definitionID = scheduledDefinitionID id) : slot.Marked id :=
  ⟨.inr h.row, registration.definitionID, h.schedule, fun hwrap => howns (h.wrapper ▸ hwrap)⟩

/-- How the preparation ends: with this registration, or with something that can be discarded. -/
def Preparation (id : Int) (w₀ : World) (expected : ScheduledRegistration) : Option (Option ScheduledRegistration) → World → Prop
  | none, _ => False
  | some none, w => ∃ slot, During id w₀ w slot ∧ slot.Discardable
  | some (some registration), w => registration = expected ∧ ∃ slot, During id w₀ w slot ∧ slot.Prepared registration

namespace During

theorem prepareTarget (hsparing : Sparing plan) (htarget : Foreign id (e.trimSpace job.payload))
    (h : During id w₀ w ⟨some .initializing, false, none⟩) :
    (prepareTarget e plan job id).Ensures w (Preparation id w₀ ⟨e.trimSpace job.payload, false⟩) := by
  apply Proc.ensures_inspect
  split_ifs
  · exact ⟨_, h, rfl, .inl rfl⟩
  · refine (h.saveRedesignedSchedule htarget).attempted (fun hfault => absurd hfault hsparing.saveSchedule)
      (fun w' hdone => ⟨rfl, _, hdone.1, .inl rfl, rfl, rfl⟩) (fun _ w' hdone => ⟨_, hdone.1, rfl, .inr ⟨_, rfl⟩⟩) fun w' _ hkept => ?_
    constructor <;> exact ⟨_, hkept.1, rfl, .inl rfl⟩

/-- The definition whose schedule could not be saved is deleted, and the schedule with it if it was saved. -/
theorem undefine (expected : ScheduledRegistration) (hsparing : Sparing plan) (howned : Owned w₀.db id) (h : During id w₀ w slot)
    (hknown : scheduledDefinitionID id ∈ w.definitions) (hslot : (slot.unwrap id).Discardable) :
    (do let _ ← Scheduler.deleteDefinition (plan .undefine) (scheduledDefinitionID id)
        return none : Step (Option ScheduledRegistration)).Ensures w (Preparation id w₀ expected) := by
  refine (h.deleteDefinition howned).bind (fun w' hw' => effective_ne_crash hsparing.undefine hw'.1) fun answer w' hw' => ?_
  rcases hw' with hgone | hkept
  · exact ⟨_, hgone.1, hslot⟩
  · exact absurd hsparing.undefine (hkept.2.2 hknown).2

theorem prepareWrapper (hsparing : Sparing plan) (howned : Owned w₀.db id) (h : During id w₀ w ⟨some .initializing, false, none⟩) :
    (prepareWrapper e plan job id).Ensures w (Preparation id w₀ ⟨scheduledDefinitionID id, true⟩) := by
  refine h.register.bind (fun w' hw' => hsparing.saveDefinition.1 hw') fun answer w' hw' => ?_
  cases answer with
  | done =>
    obtain ⟨hw', hknown⟩ := hw'
    refine (hw'.saveRedesignedSchedule (foreign_wrapper id)).attempted (fun hfault => absurd hfault hsparing.saveSchedule)
      (fun w'' hdone => ⟨rfl, _, hdone.1, .inl rfl, rfl, rfl⟩) (fun _ w'' hdone => ?_) fun w'' _ hkept => ?_
    · refine undefine _ hsparing howned hdone.1 (hdone.2 ▸ hknown) ⟨rfl, .inl ?_⟩
      simp [Slot.unwrap, filter_some]
    · constructor <;> exact undefine _ hsparing howned hkept.1 (hkept.2 ▸ hknown) ⟨rfl, .inl rfl⟩
  | refused | uncertain => exact ⟨_, hw'.resolve_left hsparing.saveDefinition.2, rfl, .inl rfl⟩

theorem publishScheduledRegistration {registration : ScheduledRegistration} (hsparing : Sparing plan) (h : During id w₀ w slot)
    (hslot : slot.Prepared registration) :
    (publishScheduledRegistration e plan job id registration).Ensures w fun result w' => match result with
      | some (_, .done) => ∃ slot, During id w₀ w' slot ∧ slot.Registered
      | _ => ∃ slot, During id w₀ w' slot ∧ slot.Prepared registration := by
  unfold Scheduler.publishScheduledRegistration
  split_ifs
  · refine Proc.ensures_attempt.attempted (fun _ w' hkept => ⟨slot, hkept ▸ h, hslot⟩) (fun w' hdone => ?_)
      (fun hfault => absurd hfault hsparing.publish) fun w' _ hkept => ?_
    · obtain ⟨db', hdb', rfl⟩ := map_eq_some_iff.mp hdone
      obtain ⟨definition, hprepared, hdoes⟩ := Database.publishScheduleRegistration_spec hdb'
      refine ⟨_, h.does hdoes ?_, rfl, definition, 2, rfl⟩
      rintro _ _ _ hschedule
      obtain rfl := congrArg Prod.fst (some.inj hschedule)
      rw [h.state] at hprepared
      exact h.proper _ _ _ hprepared
    · constructor <;> exact ⟨slot, hkept ▸ h, hslot⟩
  · have hact : Slot.Prepared registration { slot with row := some .pending } := ⟨.inr rfl, hslot.wrapper, hslot.schedule⟩
    refine Proc.ensures_attempt.attempted (fun _ w' hkept => ⟨slot, hkept ▸ h, hslot⟩) (fun w' hdone => ?_) (fun _ w' hdone => ?_)
      fun w' _ hkept => ?_
    · obtain ⟨db', hdb', rfl⟩ := map_eq_some_iff.mp hdone
      obtain ⟨hdoes, -⟩ := Database.activateScheduledJob_spec hdb'
      have hdef : Foreign id registration.definitionID := h.proper _ _ _ hslot.schedule
      refine ((h.does hdoes h.proper).saveRedesignedSchedule hdef).attempted (fun _ w'' hkept => ⟨_, hkept.1, hact⟩)
        (fun w'' hdone => ⟨_, hdone.1, rfl, _, _, rfl⟩) (fun hfault => absurd hfault hsparing.publish) fun w'' _ hkept => ?_
      constructor <;> exact ⟨_, hkept.1, hact⟩
    · obtain ⟨db', hdb', rfl⟩ := map_eq_some_iff.mp hdone
      obtain ⟨hdoes, -⟩ := Database.activateScheduledJob_spec hdb'
      exact ⟨_, h.does hdoes h.proper, hact⟩
    · constructor <;> exact ⟨slot, hkept ▸ h, hslot⟩

theorem deleteRow (heffective : Effective fault) (h : During id w₀ w slot) :
    (Scheduler.execute fault (·.deleteScheduledJob id)).Ensures w fun result w' =>
      result ≠ none ∧ During id w₀ w' { slot with row := none } := by
  refine (h.execute (fun db' => Database.deleteScheduledJob_spec) h.proper).mono fun result w' hw' => ?_
  cases hw' with
  | crashed hfault => exact absurd hfault (effective_ne_crash heffective)
  | done _ hdone | applied _ hdone => exact ⟨by simp, hdone.1⟩
  | failed _ hwhy hkept =>
    refine ⟨by simp, ?_⟩
    have hnone := Database.deleteScheduledJob_eq_none (hwhy.resolve_left (not_not_intro heffective))
    rw [h.state] at hnone
    have hsame : ({ slot with row := none } : Slot) = slot := Slot.ext hnone.symm rfl rfl
    rw [hsame]
    exact hkept.1

/-- The row is deleted last: until then the schedule shows what is left, unless the definition has taken it along. -/
theorem compensateScheduledRegistration {registration : ScheduledRegistration} {removeOwnedDefinition : Bool} (hsparing : Sparing plan)
    (howned : Owned w₀.db id) (howns : registration.ownsDefinition = true → registration.definitionID = scheduledDefinitionID id)
    (h : During id w₀ w slot) (hslot : slot.Prepared registration) :
    (compensateScheduledRegistration plan job id registration removeOwnedDefinition).Ensures w fun _ w' =>
      ∃ slot, During id w₀ w' slot ∧ slot.Settled id := by
  have hremove {w : World} {slot : Slot} (h : During id w₀ w slot) (hslot : Slot.Settled id { slot with row := none }) :
      (do let _ ← Scheduler.execute (plan .removeRow) (·.deleteScheduledJob id) : Step Unit).Ensures w fun _ w' =>
        ∃ slot, During id w₀ w' slot ∧ slot.Settled id :=
    (deleteRow hsparing.removeRow h).bind (fun w' hw' => absurd rfl hw'.1) fun answer w' hw' => ⟨_, hw'.2, hslot⟩
  have hmark {slot : Slot} (hslot : slot.Prepared registration) : Slot.Settled id { slot with row := none } :=
    .inr (.inr ⟨.inl rfl, registration.definitionID, hslot.schedule, fun hwrap => howns (hslot.wrapper ▸ hwrap)⟩)
  have hdisable : (Scheduler.execute (plan .disable) (·.disableSchedule job.now (redesignedScheduleID id))).Ensures w
      fun _ w' => During id w₀ w' slot := by
    have hsame : ({ slot with schedule := slot.schedule.map fun (definition, enabled, revision) =>
        if enabled then (definition, false, revision + 1) else (definition, enabled, revision) } : Slot) = slot :=
      Slot.ext rfl rfl (by simp [hslot.schedule])
    refine (h.execute (fun db' => Database.disableSchedule_spec) (hsame.symm ▸ h.proper)).mono fun result w' hw' => ?_
    rw [hsame] at hw'
    cases hw' with
    | crashed _ hkept => exact hkept.1
    | done _ hdone => exact hdone.1
    | applied _ hdone => exact hdone.1
    | failed _ _ hkept => exact hkept.1
  refine hdisable.bind (fun w' hw' => ⟨slot, hw', .inr (.inr (hslot.marked howns))⟩) fun answer w' hw' => ?_
  split_ifs with hdelete
  · have hwrap := howns hdelete.2.1
    rw [hwrap]
    refine (hw'.deleteDefinition howned).bind (fun w'' hw'' => ⟨slot, hw''.2.1, .inr (.inr (hslot.marked howns))⟩)
      fun answer w'' hw'' => ?_
    rcases hw'' with hgone | hkept
    · refine hremove hgone.1 (.inl (Slot.ext rfl rfl ?_))
      simp [Slot.unwrap, hslot.schedule, hwrap, filter_some, Slot.empty]
    · exact hremove hkept.1 (hmark hslot)
  · exact hremove hw' (hmark hslot)

end During

theorem During.prepareScheduledDefinition (hsparing : Sparing plan)
    (htarget : job.actionType = .job → Foreign id (e.trimSpace job.payload)) (howned : Owned w₀.db id)
    (h : During id w₀ w ⟨some .initializing, false, none⟩) :
    ∃ expected : ScheduledRegistration, (expected.ownsDefinition = true → expected.definitionID = scheduledDefinitionID id) ∧
      (prepareScheduledDefinition e plan job id).Ensures w (Preparation id w₀ expected) := by
  unfold Scheduler.prepareScheduledDefinition
  split_ifs
  · next hjob => exact ⟨_, by simp, h.prepareTarget hsparing (htarget hjob)⟩
  · exact ⟨_, fun _ => rfl, h.prepareWrapper hsparing howned⟩

def Database.nextID (db : Database) : Int := (db.sequence + 1 : Nat)

/-- How a call ends: without effect, or with a registration that is settled, and complete if its id is returned. -/
inductive Registration (w : World) (result : Option (Option Int)) (w' : World) : Prop where
  | none (hw : w' = w) (hresult : ∀ id, result ≠ some (some id))
  | registration (hmax : w.db.sequence + 1 < 2 ^ 63) (hsequence : w'.db.sequence = w.db.sequence + 1)
    (hapart : Apart w.db.nextID w.db w'.db) (hproper : (w'.db.slot w.db.nextID).Proper w.db.nextID)
    (hsettled : (w'.db.slot w.db.nextID).Settled w.db.nextID)
    (hresult : ∀ id, result = some (some id) → id = w.db.nextID ∧ (w'.db.slot w.db.nextID).Registered)

theorem schedule_ensures (hsparing : Sparing plan)
    (htarget : job.actionType = .job → Foreign w.db.nextID (e.trimSpace job.payload)) (hslot : w.db.slot w.db.nextID = Slot.empty)
    (howned : Owned w.db w.db.nextID) : (schedule e plan job).Ensures w (Registration w) := by
  refine Proc.ensures_attempt.attempted (fun _ w' hkept => .none hkept (by simp)) (fun w' hdone => ?_)
    (fun hfault => absurd hfault hsparing.create) fun w' _ hkept => ?_
  · obtain ⟨db', hdb', rfl⟩ := map_eq_some_iff.mp hdone
    have hrow : w.db.scheduledJob? w.db.nextID = none := map_eq_none_iff.mp (congrArg Slot.row hslot)
    obtain ⟨hapart, hsequence, hmax, hslot'⟩ := Database.createScheduledJob_spec hdb' hrow
    have hid : (db'.sequence : Int) = w.db.nextID := congrArg Int.ofNat hsequence
    -- from here on the world is compared with the one that has the row
    have hduring : During w.db.nextID { w with db := db' } { w with db := db' } ⟨some .initializing, false, none⟩ := by
      refine .refl (hslot'.trans ?_) nofun
      show (⟨some .initializing, (w.db.slot w.db.nextID).wrapper, (w.db.slot w.db.nextID).schedule⟩ : Slot) = _
      rw [hslot]
      rfl
    have howned' : Owned db' w.db.nextID := owned_of_apart howned hapart (hduring.state.symm ▸ hduring.proper)
    have hend {result : Option (Option Int)} {w' : World} {slot : Slot} (hw' : During w.db.nextID { w with db := db' } w' slot)
        (hsettled : slot.Settled w.db.nextID) (hresult : ∀ id, result = some (some id) → id = w.db.nextID ∧ slot.Registered) :
        Registration w result w' := by
      obtain ⟨hapart', hstate, hsequence', hproper⟩ := hw'
      subst hstate
      exact .registration hmax (hsequence'.trans hsequence) (hapart.trans hapart') hproper hsettled hresult
    apply Proc.ensures_inspect
    rw [hid]
    obtain ⟨_, howns, hpre⟩ := hduring.prepareScheduledDefinition hsparing htarget howned'
    refine hpre.bind (fun w' hw' => hw'.elim) fun registration w' hw' => ?_
    cases registration with
    | none =>
      obtain ⟨slot, hw', hleft⟩ := hw'
      refine (During.deleteRow hsparing.withdraw hw').bind (fun w2 hw2 => absurd rfl hw2.1) fun answer w2 hw2 => ?_
      refine Proc.ensures_pure (hend hw2.2 ?_ (by simp))
      rcases hleft.2 with hnone | ⟨definition, hsome⟩
      · exact .inl (Slot.ext rfl hleft.1 hnone)
      · exact .inr (.inr ⟨.inl rfl, definition, hsome, fun hwrap => absurd hwrap (by simp [hleft.1])⟩)
    | some registration =>
      obtain ⟨rfl, slot, hw', hprepared⟩ := hw'
      have hcommitted {w2 : World} {slot : Slot} {remove : Bool} (hw2 : During w.db.nextID { w with db := db' } w2 slot)
          (hprepared : slot.Prepared registration) :
          (do compensateScheduledRegistration plan job w.db.nextID registration remove
              return none : Step (Option Int)).Ensures w2 (Registration w) := by
        refine (hw2.compensateScheduledRegistration hsparing howned' howns hprepared).bind ?_ ?_
        · rintro w3 ⟨slot', hw3, hsettled⟩
          exact hend hw3 hsettled (by simp)
        · rintro _ w3 ⟨slot', hw3, hsettled⟩
          exact Proc.ensures_pure (hend hw3 hsettled (by simp))
      refine (hw'.publishScheduledRegistration hsparing hprepared).bind ?_ ?_
      · rintro w2 ⟨slot', hw2, hprepared'⟩
        exact hend hw2 (.inr (.inr (hprepared'.marked howns))) (by simp)
      · rintro ⟨remove, answer⟩ w2 hw2
        cases answer with
        | done =>
          obtain ⟨slot', hw2, hreg⟩ := hw2
          refine Proc.ensures_pure (hend hw2 (.inr (.inl hreg)) fun id hid => ?_)
          exact ⟨(some.inj (some.inj hid)).symm, hreg⟩
        | refused | uncertain =>
          obtain ⟨slot', hw2, hprepared'⟩ := hw2
          exact hcommitted hw2 hprepared'
  · constructor <;> exact Proc.ensures_pure (.none hkept (by simp))

/-! ### Order in the database -/

/-- What the scheduler can rely on when it starts: the ids in use were given out, the names of prepared schedules are its own,
and every registration is settled. -/
structure Orderly (db : Database) : Prop where
  bound : db.sequence < 2 ^ 63
  numbered : ∀ id, db.slot id ≠ Slot.empty → 0 < id ∧ id ≤ db.sequence
  named : ∀ s sched, db.store.schedule? s = some sched → Store.likeStart schedulerPreparedSchedulePrefix s = true →
    ∃ id, s = redesignedScheduleID id
  owned : ∀ id, Owned db id
  settled : ∀ id, (db.slot id).Settled id

/-- Row and schedule are those that they were. -/
def Unchanged (id : Int) (db db' : Database) : Prop :=
  db'.scheduledJob? id = db.scheduledJob? id ∧ db'.store.schedule? (redesignedScheduleID id) = db.store.schedule? (redesignedScheduleID id)

theorem unchanged_of_apart (h : Apart id db db') (hne : id' ≠ id) : Unchanged id' db db' :=
  ⟨h.rows id' hne, h.schedules _ fun heq => hne (redesignedScheduleID_inj heq)⟩

theorem Unchanged.trans (h : Unchanged id db db') (h' : Unchanged id db' db'') : Unchanged id db db'' :=
  ⟨h'.1.trans h.1, h'.2.trans h.2⟩

theorem Unchanged.registered (h : Unchanged id db db') (hreg : (db.slot id).Registered) : (db'.slot id).Registered := by
  obtain ⟨hrow, definition, revision, hschedule⟩ := hreg
  refine ⟨?_, definition, revision, ?_⟩
  · exact (congrArg (Option.map ScheduledJob.status) h.1).trans hrow
  · exact (congrArg (Option.map fun sched : JobSchedule => (sched.jobID, sched.enabled, sched.revision)) h.2).trans hschedule

theorem Orderly.of_apart (h : Orderly db) (hbound : db'.sequence < 2 ^ 63) (hle : db.sequence ≤ db'.sequence)
    (hid : 0 < id ∧ id ≤ db'.sequence) (hapart : Apart id db db') (hproper : (db'.slot id).Proper id)
    (hsettled : (db'.slot id).Settled id) : Orderly db' where
  bound := hbound
  numbered id' hslot := by
    by_cases heq : id' = id
    · exact heq ▸ hid
    · rw [hapart.slot_eq heq] at hslot
      have := h.numbered id' hslot
      omega
  named s sched hsched hlike := by
    by_cases hs : s = redesignedScheduleID id
    · exact ⟨id, hs⟩
    · exact h.named s sched (hapart.schedules s hs ▸ hsched) hlike
  owned id' := owned_of_apart (h.owned id') hapart hproper
  settled id' := by
    by_cases heq : id' = id
    · exact heq ▸ hsettled
    · rw [hapart.slot_eq heq]
      exact h.settled id'

theorem Orderly.fresh (h : Orderly db) : db.slot db.nextID = Slot.empty := by
  by_contra hslot
  have := h.numbered _ hslot
  unfold Database.nextID at this
  omega

theorem Orderly.registration {result : Option (Option Int)} (h : Orderly w.db) (hw' : Registration w result w') :
    Orderly w'.db ∧ (∀ id, (w.db.slot id).Registered → Unchanged id w.db w'.db) ∧
      ∀ id, result = some (some id) → (w'.db.slot id).Registered := by
  cases hw' with
  | none hw hresult =>
    subst hw
    exact ⟨h, fun id _ => ⟨rfl, rfl⟩, fun id hid => absurd hid (hresult id)⟩
  | registration _ _ hapart hproper hsettled hresult =>
    refine ⟨h.of_apart (by omega) (by omega) (by unfold Database.nextID; omega) hapart hproper hsettled, fun id hreg => ?_,
      fun id hid => ?_⟩
    · refine unchanged_of_apart hapart ?_
      rintro rfl
      rw [h.fresh] at hreg
      cases hreg.1
    · obtain ⟨rfl, hreg⟩ := hresult id hid
      exact hreg

/-! ### Recovery -/

section Recovering

variable {schedule : JobSchedule} {faults : RecoverySite → Option Fault}

/-- The manager knows all definitions. -/
def World.Loaded (w : World) : Prop := ∀ d ∈ w.db.store.definitions, d ∈ w.definitions

/-- How the recovery of one schedule ends: with a settled registration, and with none if there was no error. -/
def Recovered (id : Int) (w : World) (result : Option Bool) (w' : World) : Prop :=
  w'.Loaded ∧ ∃ slot, During id w w' slot ∧ slot.Settled id ∧ (result = some true → slot = Slot.empty)

theorem During.loaded (h : During id w w' slot) (hload : w.Loaded)
    (hothers : ∀ d ∈ w.definitions, d ≠ scheduledDefinitionID id → d ∈ w'.definitions)
    (hwrap : slot.wrapper = false ∨ w'.definitions = w.definitions) (hkeep : slot.wrapper = true → (w.db.slot id).wrapper = true) :
    w'.Loaded := by
  intro d hd
  by_cases hne : d = scheduledDefinitionID id
  · subst hne
    have htrue : slot.wrapper = true := by rw [← h.state]; exact decide_eq_true hd
    have hbefore := of_decide_eq_true (hkeep htrue)
    rw [hwrap.resolve_left (by simp [htrue])]
    exact hload _ hbefore
  · exact hothers d (hload d ((h.apart.definitions d hne).mp hd)) hne

/-- The row is gone, and the schedule shows it. -/
structure Slot.Remains (id : Int) (definition : GoString) (s : Slot) : Prop where
  row : s.row = none
  schedule : s.schedule = some (definition, false, 1)
  wrapper : s.wrapper = true → definition = scheduledDefinitionID id

theorem Slot.Remains.settled (h : slot.Remains id definition) : slot.Settled id :=
  .inr (.inr ⟨.inl h.row, definition, h.schedule, h.wrapper⟩)

/-- A disabled schedule that nobody touched is gone. -/
def Slot.unprepare (s : Slot) : Slot :=
  { s with schedule := s.schedule.filter fun (_, enabled, revision) => enabled || revision != 1 }

theorem During.deletePreparedSchedule (h : During id w₀ w slot) :
    (Scheduler.execute fault (·.deletePreparedSchedule (redesignedScheduleID id))).Ensures w (Attempted fault False
      (fun w' => During id w₀ w' slot ∧ w'.definitions = w.definitions)
      fun w' => During id w₀ w' slot.unprepare ∧ w'.definitions = w.definitions) := by
  refine (h.execute (fun db' => Database.deletePreparedSchedule_spec) ?_).mono fun result w' hw' =>
    hw'.mono (nofun) (fun _ hkept => hkept) fun _ hmade => hmade
  intro definition enabled revision hschedule
  exact h.proper definition enabled revision (filter_eq_some_iff.mp hschedule).1

theorem discardPrepared_ensures (hload : w₀.Loaded) (howned : Owned w₀.db id)
    (hsched : w₀.db.store.schedule? (redesignedScheduleID id) = some schedule) (h : During id w₀ w slot)
    (hmemory : w.definitions = w₀.definitions) (hbefore : (w₀.db.slot id).wrapper = slot.wrapper) (hslot : slot.Remains id schedule.jobID) :
    (discardPrepared faults schedule id).Ensures w (Recovered id w₀) := by
  obtain ⟨hmem, hid⟩ := Store.schedule?_mem hsched
  have hkept {result : Option Bool} {w' : World} (hw' : During id w₀ w' slot) (hmemory' : w'.definitions = w₀.definitions)
      (hresult : result ≠ some true) : Recovered id w₀ result w' := by
    refine ⟨hw'.loaded hload (fun d hd _ => hmemory' ▸ hd) (.inr hmemory') fun hwrap => hbefore.trans hwrap, slot, hw',
      hslot.settled, fun htrue => absurd htrue hresult⟩
  have hgone {result : Option Bool} {w' : World} (hw' : During id w₀ w' Slot.empty)
      (hothers : ∀ d ∈ w₀.definitions, d ≠ scheduledDefinitionID id → d ∈ w'.definitions) : Recovered id w₀ result w' :=
    ⟨hw'.loaded hload hothers (.inl rfl) (by simp [Slot.empty]), _, hw', .inl rfl, fun _ => rfl⟩
  unfold discardPrepared
  rw [hid]
  split_ifs with hwrap
  · rw [hwrap]
    have hunwrap : slot.unwrap id = Slot.empty := by
      refine Slot.ext hslot.row rfl ?_
      simp [Slot.unwrap, hslot.schedule, hwrap, filter_some, Slot.empty]
    have hknown : scheduledDefinitionID id ∈ w.definitions := by
      rw [hmemory, ← hwrap]
      exact hload _ (w₀.db.store.schedules_job schedule hmem)
    refine (h.deleteDefinition howned).bind (fun w' hw' => hkept hw'.2.1 (hw'.2.2.trans hmemory) (by simp)) fun answer w' hw' => ?_
    rcases hw' with ⟨hw', hothers⟩ | ⟨hw', hmemory', hwhy⟩
    · rw [hunwrap] at hw'
      rw [hmemory] at hothers
      cases answer with
      | refused | uncertain => exact Proc.ensures_pure (hgone hw' hothers)
      | done =>
        -- the schedule went with its definition
        have hend {result : Option Bool} {w2 : World} (hw2 : During id w₀ w2 Slot.empty ∧ w2.definitions = w'.definitions) :
            Recovered id w₀ result w2 := hgone hw2.1 fun d hd hne => hw2.2 ▸ hothers d hd hne
        exact hw'.deletePreparedSchedule.attempted (fun _ w2 => hend) (fun w2 => hend) (fun _ w2 => hend) fun w2 _ hw2 =>
          ⟨hend hw2, hend hw2⟩
    · cases answer with
      | done => exact absurd rfl (hwhy hknown).1
      | refused | uncertain => exact Proc.ensures_pure (hkept hw' (hmemory'.trans hmemory) (by simp))
  · have hunwrapped : slot.wrapper = false := by
      by_contra htrue
      exact hwrap (hslot.wrapper (by simpa using htrue))
    have hdelete : slot.unprepare = Slot.empty := by
      refine Slot.ext hslot.row hunwrapped ?_
      simp [Slot.unprepare, hslot.schedule, filter_some, Slot.empty]
    have hend {result : Option Bool} {w' : World} (hw' : During id w₀ w' slot.unprepare ∧ w'.definitions = w.definitions) :
        Recovered id w₀ result w' := hgone (hdelete ▸ hw'.1) fun d hd _ => by rw [hw'.2, hmemory]; exact hd
    refine h.deletePreparedSchedule.attempted (fun _ w' hw' => hkept hw'.1 (hw'.2.trans hmemory) (by simp)) (fun w' => hend)
      (fun _ w' => hend) fun w' _ hw' => ?_
    constructor <;> exact Proc.ensures_pure (hkept hw'.1 (hw'.2.trans hmemory) (by simp))

/-- A schedule that the recovery has listed: disabled and untouched, under an id that was given out. -/
structure Listed (id : Int) (db : Database) (schedule : JobSchedule) : Prop where
  sched : db.store.schedule? (redesignedScheduleID id) = some schedule
  disabled : schedule.enabled = false
  revision : schedule.revision = 1

theorem Listed.marked (h : Listed id db schedule) (horder : Orderly db) : (db.slot id).Marked id := by
  have hschedule : (db.slot id).schedule = some (schedule.jobID, false, 1) := by
    simp [Database.slot, h.sched, h.disabled, h.revision]
  rcases horder.settled id with hempty | hreg | hmark
  · rw [hempty] at hschedule
    cases hschedule
  · obtain ⟨-, _, revision, henabled⟩ := hreg
    rw [hschedule] at henabled
    simp at henabled
  · exact hmark

theorem recoverPrepared_ensures (horder : Orderly w.db) (hload : w.Loaded) (h : Listed id w.db schedule) :
    (recoverPrepared faults schedule).Ensures w (Recovered id w) := by
  obtain ⟨hrow, definition, hschedule, hwrap⟩ := h.marked horder
  have hdef : definition = schedule.jobID := by
    have : (w.db.slot id).schedule = some (schedule.jobID, schedule.enabled, schedule.revision) := by simp [Database.slot, h.sched]
    rw [hschedule] at this
    exact congrArg Prod.fst (some.inj this)
  subst hdef
  have hproper : (w.db.slot id).Proper id := by
    intro definition enabled revision hschedule' id' hjob
    rw [hschedule] at hschedule'
    obtain rfl := congrArg Prod.fst (some.inj hschedule')
    exact redesignedScheduleID_inj (horder.owned id' _ schedule h.sched hjob).symm
  have hbefore : During id w w (w.db.slot id) := .refl rfl hproper
  have hkept {result : Option Bool} (hresult : result ≠ some true) : Recovered id w result w :=
    ⟨hload, _, hbefore, horder.settled id, fun htrue => absurd htrue hresult⟩
  obtain ⟨hpos, hle⟩ := horder.numbered id fun hempty => by rw [hempty] at hschedule; cases hschedule
  have hbound := horder.bound
  have hparse : scheduledJobIDFromScheduleID schedule.id = some id := by
    rw [(Store.schedule?_mem h.sched).2]
    exact scheduledJobID_redesigned hpos (by omega)
  unfold recoverPrepared
  rw [hparse]
  refine Proc.ensures_query (hkept (by simp)) (Proc.ensures_pure (hkept (by simp))) ?_
  cases hjob : w.db.scheduledJob? id with
  | none =>
    refine discardPrepared_ensures hload (horder.owned id) h.sched hbefore rfl rfl ⟨?_, hschedule, hwrap⟩
    simp [Database.slot, hjob]
  | some job =>
    have hstatus : (w.db.slot id).row = some job.status := by simp [Database.slot, hjob]
    rw [hstatus] at hrow
    have hopen : ¬ (job.status ≠ .initializing ∧ job.status ≠ .pending) := by
      rcases hrow with hnone | hinit | hpending
      · cases hnone
      · exact fun hne => hne.1 (some.inj hinit)
      · exact fun hne => hne.2 (some.inj hpending)
    show (if job.status ≠ .initializing ∧ job.status ≠ .pending then pure true else _ : Step Bool).Ensures w _
    rw [if_neg hopen]
    have hremains : Slot.Remains id schedule.jobID { w.db.slot id with row := none } := ⟨rfl, hschedule, hwrap⟩
    have hstay {result : Option Bool} {w' : World} {s : Slot} (hw' : During id w w' s ∧ w'.definitions = w.definitions)
        (hsame : s.wrapper = (w.db.slot id).wrapper) (hsettled : s.Settled id) (hresult : result ≠ some true) :
        Recovered id w result w' :=
      ⟨hw'.1.loaded hload (fun d hd _ => hw'.2 ▸ hd) (.inr hw'.2) fun htrue => hsame ▸ htrue, s, hw'.1, hsettled,
        fun htrue => absurd htrue hresult⟩
    refine (hbefore.execute (fun db' => Database.deleteScheduledJob_spec) hproper).attempted
      (fun _ w' hw' => hstay hw' rfl (horder.settled id) (by simp))
      (fun w' hw' => discardPrepared_ensures hload (horder.owned id) h.sched hw'.1 hw'.2 rfl hremains)
      (fun _ w' hw' => Proc.ensures_pure (hstay hw' rfl hremains.settled (by simp))) fun w' _ hw' => ?_
    constructor <;> exact Proc.ensures_pure (hstay hw' rfl (horder.settled id) (by simp))

theorem Listed.of_unchanged (h : Listed id db schedule) (hunchanged : Unchanged id db db') : Listed id db' schedule :=
  ⟨hunchanged.2.trans h.sched, h.disabled, h.revision⟩

/-- The world after some of the registrations were recovered. -/
structure Progress (touched : Int → Prop) (w w' : World) : Prop where
  orderly : Orderly w'.db
  loaded : w'.Loaded
  others : ∀ id, ¬ touched id → Unchanged id w.db w'.db ∧ w'.db.slot id = w.db.slot id

namespace Progress

variable {touched : Int → Prop}

theorem refl (horder : Orderly w.db) (hload : w.Loaded) : Progress touched w w :=
  ⟨horder, hload, fun _ _ => ⟨⟨rfl, rfl⟩, rfl⟩⟩

theorem mono {touched' : Int → Prop} (h : Progress touched w w') (hsub : ∀ id, touched id → touched' id) : Progress touched' w w' :=
  ⟨h.orderly, h.loaded, fun id hid => h.others id fun hin => hid (hsub id hin)⟩

theorem trans (h : Progress touched w w') (h' : Progress touched w' w'') : Progress touched w w'' := by
  refine ⟨h'.orderly, h'.loaded, fun id hid => ?_⟩
  obtain ⟨hunchanged, hslot⟩ := h.others id hid
  obtain ⟨hunchanged', hslot'⟩ := h'.others id hid
  exact ⟨hunchanged.trans hunchanged', hslot'.trans hslot⟩

end Progress

theorem Recovered.progress (horder : Orderly w.db) (h : Listed id w.db schedule) (hw' : Recovered id w result w') :
    Progress (· = id) w w' := by
  obtain ⟨hload, _, ⟨hapart, rfl, _, hproper⟩, hsettled, -⟩ := hw'
  have hid := horder.numbered id fun hempty => by
    obtain ⟨-, _, hschedule, -⟩ := h.marked horder
    rw [hempty] at hschedule
    cases hschedule
  have hbound := horder.bound
  refine ⟨horder.of_apart (by omega) (by omega) (by omega) hapart hproper hsettled, hload, fun id' hne => ?_⟩
  exact ⟨unchanged_of_apart hapart hne, hapart.slot_eq hne⟩

/-- The registration has its schedule in the batch. -/
def InBatch (schedules : List JobSchedule) (id : Int) : Prop := redesignedScheduleID id ∈ schedules.map JobSchedule.id

theorem recoverBatch_ensures {schedules : List JobSchedule} {faults : Nat → RecoverySite → Option Fault}
    (hlisted : ∀ schedule ∈ schedules, ∃ id, Listed id w.db schedule) (hnodup : (schedules.map JobSchedule.id).Nodup)
    (horder : Orderly w.db) (hload : w.Loaded) :
    (recoverBatch faults schedules).Ensures w fun result w' => Progress (InBatch schedules) w w' ∧
      (result = some true → ∀ id, InBatch schedules id → w'.db.slot id = Slot.empty) := by
  induction schedules generalizing w with
  | nil => exact Proc.ensures_pure ⟨.refl horder hload, nofun⟩
  | cons schedule schedules ih =>
    obtain ⟨id, hfirst⟩ := hlisted schedule mem_cons_self
    have hid : schedule.id = redesignedScheduleID id := (Store.schedule?_mem hfirst.sched).2
    obtain ⟨hnew, hnodup⟩ := nodup_cons.mp hnodup
    rw [hid] at hnew
    unfold recoverBatch
    split_ifs
    · exact Proc.ensures_pure ⟨.refl horder hload, nofun⟩
    have hsub : ∀ id', id' = id → InBatch (schedule :: schedules) id' := by
      rintro id' rfl
      exact mem_cons.mpr (.inl hid.symm)
    have hsub' : ∀ id', InBatch schedules id' → InBatch (schedule :: schedules) id' := fun id' => mem_cons_of_mem _
    refine (recoverPrepared_ensures horder hload hfirst).bind (fun w1 hw1 => ?_) fun clean w1 hw1 => ?_
    · exact ⟨(hw1.progress horder hfirst).mono hsub, nofun⟩
    have hprogress := hw1.progress horder hfirst
    have hlisted1 : ∀ schedule' ∈ schedules, ∃ id', Listed id' w1.db schedule' := by
      intro schedule' hmem
      obtain ⟨id', hlisted'⟩ := hlisted schedule' (mem_cons_of_mem _ hmem)
      refine ⟨id', hlisted'.of_unchanged (hprogress.others id' ?_).1⟩
      rintro rfl
      exact hnew ((Store.schedule?_mem hlisted'.sched).2 ▸ mem_map_of_mem hmem)
    refine (ih hlisted1 hnodup hprogress.orderly hprogress.loaded).bind (fun w2 hw2 => ?_) fun rest w2 hw2 => ?_
    · exact ⟨(hprogress.mono hsub).trans (hw2.1.mono hsub'), nofun⟩
    refine Proc.ensures_pure ⟨(hprogress.mono hsub).trans (hw2.1.mono hsub'), fun hclean id' hid' => ?_⟩
    obtain ⟨rfl, rfl⟩ : clean = true ∧ rest = true := by simpa using hclean
    rcases mem_cons.mp hid' with heq | hid'
    · obtain rfl : id' = id := redesignedScheduleID_inj (heq.trans hid)
      obtain ⟨-, slot, hduring, -, hempty⟩ := hw1
      rw [(hw2.1.others id' hnew).2, hduring.state, hempty rfl]
    · exact hw2.2 rfl id' hid'

end Recovering

/-! ### The whole recovery -/

theorem mem_listPreparedSchedules {s : Store} {schedule : JobSchedule}
    (h : schedule ∈ s.listPreparedSchedules schedulerPreparedSchedulePrefix 256) :
    schedule ∈ s.schedules.rows ∧ schedule.enabled = false ∧ schedule.revision = 1 ∧
      Store.likeStart schedulerPreparedSchedulePrefix schedule.id = true := by
  have hin := mem_of_mem_take h
  rw [mem_insertionSort, mem_filter] at hin
  simp only [and_eq_true, not_eq_true', beq_iff_eq] at hin
  exact ⟨hin.1, hin.2.1.1, hin.2.1.2, hin.2.2⟩

theorem listPreparedSchedules_nodup (s : Store) :
    ((s.listPreparedSchedules schedulerPreparedSchedulePrefix 256).map JobSchedule.id).Nodup := by
  have hrows : (s.schedules.rows.map JobSchedule.id).Nodup := pairwise_map.mpr s.schedules.apart
  refine (List.Sublist.map _ (take_sublist _ _)).nodup ?_
  refine ((perm_insertionSort _ _).map _).nodup_iff.mpr ?_
  exact (List.Sublist.map _ filter_sublist).nodup hrows

theorem Orderly.listed {schedule : JobSchedule} (h : Orderly db)
    (hin : schedule ∈ db.store.listPreparedSchedules schedulerPreparedSchedulePrefix 256) : ∃ id, Listed id db schedule := by
  obtain ⟨hmem, hdisabled, hrev, hlike⟩ := mem_listPreparedSchedules hin
  have hsched := Store.schedule?_of_mem hmem
  obtain ⟨id, hid⟩ := h.named _ schedule hsched hlike
  exact ⟨id, hid ▸ hsched, hdisabled, hrev⟩

theorem inBatch_of_marked (hshort : (db.store.listPreparedSchedules schedulerPreparedSchedulePrefix 256).length < 256)
    (h : (db.slot id).Marked id) : InBatch (db.store.listPreparedSchedules schedulerPreparedSchedulePrefix 256) id := by
  obtain ⟨-, _, hschedule, -⟩ := h
  obtain ⟨schedule, hsched, hcolumns⟩ := map_eq_some_iff.mp hschedule
  obtain ⟨hmem, hid⟩ := Store.schedule?_mem hsched
  simp only [Prod.mk.injEq] at hcolumns
  refine mem_map.mpr ⟨schedule, ?_, hid⟩
  unfold Store.listPreparedSchedules at hshort ⊢
  rw [if_neg (by omega)] at hshort ⊢
  rw [take_of_length_le]
  · simp [hmem, hcolumns, hid, likeStart_redesigned]
  · rw [length_take] at hshort
    omega

/-- What a recovery leaves, whether or not it got to its end. -/
structure AfterRecovery (w : World) (result : Option Bool) (w' : World) : Prop where
  orderly : Orderly w'.db
  registered : ∀ id, (w.db.slot id).Registered → Unchanged id w.db w'.db
  unmarked : result = some true → ∀ id, ¬ (w'.db.slot id).Marked id

theorem AfterRecovery.trans (h : AfterRecovery w (some false) w') (h' : AfterRecovery w' result w'') : AfterRecovery w result w'' :=
  ⟨h'.orderly, fun id hid => (h.registered id hid).trans (h'.registered id ((h.registered id hid).registered hid)), h'.unmarked⟩

theorem recoverPreparedScheduleRegistrations_ensures {listing : Nat → Option Fault} {batches : Nat}
    {faults : Nat → Nat → RecoverySite → Option Fault} (horder : Orderly w.db) (hload : w.Loaded) :
    (recoverPreparedScheduleRegistrations listing faults batches).Ensures w (AfterRecovery w) := by
  induction batches generalizing w with
  | zero => exact ⟨horder, fun _ _ => ⟨rfl, rfl⟩, nofun⟩
  | succ batches ih =>
    have hsame {result : Option Bool} (hresult : result ≠ some true) : AfterRecovery w result w :=
      ⟨horder, fun _ _ => ⟨rfl, rfl⟩, fun htrue => absurd htrue hresult⟩
    refine Proc.ensures_query (hsame (by simp)) (Proc.ensures_pure (hsame (by simp))) ?_
    show (if _ then pure true else _ : Step Bool).Ensures w _
    by_cases hempty : (w.db.store.listPreparedSchedules schedulerPreparedSchedulePrefix 256).length = 0
    · rw [if_pos hempty]
      refine Proc.ensures_pure ⟨horder, fun _ _ => ⟨rfl, rfl⟩, fun _ id hmark => ?_⟩
      have hin := inBatch_of_marked (by omega) hmark
      rw [length_eq_zero_iff.mp hempty] at hin
      cases hin
    rw [if_neg hempty]
    have hbatch (w1 : World) (hw1 : Progress (InBatch (w.db.store.listPreparedSchedules schedulerPreparedSchedulePrefix 256)) w w1) :
        AfterRecovery w (some false) w1 := by
      refine ⟨hw1.orderly, fun id hreg => (hw1.others id fun hin => ?_).1, nofun⟩
      obtain ⟨schedule, hmem, hid⟩ := mem_map.mp hin
      obtain ⟨id', hlisted⟩ := horder.listed hmem
      obtain rfl : id' = id := redesignedScheduleID_inj ((Store.schedule?_mem hlisted.sched).2.symm.trans hid)
      exact hreg.not_marked (hlisted.marked horder)
    refine (recoverBatch_ensures (fun schedule hmem => horder.listed hmem) (listPreparedSchedules_nodup _) horder hload).bind
      (fun w1 hw1 => ?_) fun clean w1 hw1 => ?_
    · exact ⟨(hbatch w1 hw1.1).orderly, (hbatch w1 hw1.1).registered, nofun⟩
    split_ifs with hclean hshort
    · exact Proc.ensures_pure (hbatch w1 hw1.1)
    · refine Proc.ensures_pure ⟨(hbatch w1 hw1.1).orderly, (hbatch w1 hw1.1).registered, fun _ id hmark => ?_⟩
      have hdone := hw1.2 (by simpa using hclean) id
      by_cases hin : InBatch (w.db.store.listPreparedSchedules schedulerPreparedSchedulePrefix 256) id
      · rw [hdone hin] at hmark
        obtain ⟨-, _, hschedule, -⟩ := hmark
        cases hschedule
      · rw [(hw1.1.others id hin).2] at hmark
        exact hin (inBatch_of_marked hshort hmark)
    · exact (ih hw1.1.orderly hw1.1.loaded).mono fun result w2 hw2 => (hbatch w1 hw1.1).trans hw2

/-! ### Runs -/

/-- The condition on a call: what can stop it, and its target, which is no wrapper of the scheduler. -/
def Careful (e : Wiring) : Event → Prop
  | .scheduleOnce _ _ actionType payload plan | .scheduleRecurring _ _ actionType payload plan =>
    Sparing plan ∧ (actionType = .job → ∀ id, e.trimSpace payload ≠ scheduledDefinitionID id)
  | .start _ _ _ => True

/-- What an event does to registrations. -/
structure Outcome (w : World) (report : Report) (w' : World) : Prop where
  orderly : Orderly w'.db
  unchanged : ∀ id, (w.db.slot id).Registered → Unchanged id w.db w'.db
  registered : ∀ id, report = .registered id → (w'.db.slot id).Registered
  recovered : report = .recovered → ∀ id, ¬ (w'.db.slot id).Marked id

theorem Outcome.of_ensures {p : Step (Option Int)} (horder : Orderly w.db) (h : p.Ensures w (Registration w)) :
    Outcome w (World.report (p w)).1 (World.report (p w)).2 := by
  obtain ⟨horder', hunchanged, hreg⟩ := horder.registration h
  generalize p w = result at horder' hunchanged hreg
  obtain ⟨result, w'⟩ := result
  cases result with
  | none => exact ⟨horder', hunchanged, fun _ h => (nomatch h), fun h => (nomatch h)⟩
  | some result =>
    cases result with
    | none => exact ⟨horder', hunchanged, fun _ h => (nomatch h), fun h => (nomatch h)⟩
    | some id =>
      refine ⟨horder', hunchanged, fun id' hid => ?_, fun h => (nomatch h)⟩
      obtain rfl := Report.registered.inj hid
      exact hreg id rfl

theorem Orderly.advance {event : Event} (horder : Orderly w.db) (hcareful : Careful e event) :
    Outcome w (w.advance e event).1 (w.advance e event).2 := by
  have hschedule (plan : Site → Option Fault) (job : Request) (hsparing : Sparing plan)
      (htarget : job.actionType = .job → ∀ id, e.trimSpace job.payload ≠ scheduledDefinitionID id) :
      (schedule e plan job).Ensures w (Registration w) :=
    schedule_ensures hsparing (fun hjob id hid => absurd hid (htarget hjob id)) horder.fresh (horder.owned _)
  have hnone : (pure none : Step (Option Int)).Ensures w (Registration w) := Proc.ensures_pure (.none rfl (by simp))
  cases event with
  | scheduleOnce _ now actionType payload plan =>
    refine Outcome.of_ensures horder ?_
    unfold scheduleOnce
    split_ifs
    · exact hschedule plan _ hcareful.1 hcareful.2
    · exact hnone
  | scheduleRecurring _ now actionType payload plan =>
    refine Outcome.of_ensures horder ?_
    unfold scheduleRecurring
    split_ifs
    · exact hnone
    · exact hnone
    · exact hschedule plan _ hcareful.1 hcareful.2
    · exact hnone
  | start listing faults batches =>
    have hrec : (recoverPreparedScheduleRegistrations listing faults batches).Ensures w.restart (AfterRecovery w.restart) :=
      recoverPreparedScheduleRegistrations_ensures horder fun d hd => hd
    simp only [World.advance]
    unfold Proc.Ensures at hrec
    generalize recoverPreparedScheduleRegistrations listing faults batches w.restart = result at hrec
    obtain ⟨result, w'⟩ := result
    cases result with
    | none => exact ⟨hrec.orderly, hrec.registered, fun _ h => (nomatch h), fun h => (nomatch h)⟩
    | some clean =>
      cases clean with
      | false => exact ⟨hrec.orderly, hrec.registered, fun _ h => (nomatch h), fun h => (nomatch h)⟩
      | true => exact ⟨hrec.orderly, hrec.registered, fun _ h => (nomatch h), fun _ => hrec.unmarked rfl⟩

/-- The scheduler has never been used on the database, in which there may be other definitions and schedules. -/
structure World.Untouched (w : World) : Prop where
  bound : w.db.sequence < 2 ^ 63
  rows : w.db.scheduled.rows = []
  definitions : ∀ id, scheduledDefinitionID id ∉ w.db.store.definitions
  schedules : ∀ sched ∈ w.db.store.schedules.rows, Store.likeStart schedulerPreparedSchedulePrefix sched.id = false

theorem World.Untouched.orderly (h : w.Untouched) : Orderly w.db := by
  have hschedule (id : Int) : w.db.store.schedule? (redesignedScheduleID id) = none := by
    rw [Store.schedule?, find?_eq_none]
    intro sched hsched hid
    have hlike := h.schedules sched hsched
    rw [beq_iff_eq.mp hid, likeStart_redesigned] at hlike
    cases hlike
  have hempty (id : Int) : w.db.slot id = Slot.empty := by
    refine Slot.ext ?_ (decide_eq_false (h.definitions id)) ?_
    · simp [Database.slot, Database.scheduledJob?, h.rows, Slot.empty]
    · simp [Database.slot, hschedule, Slot.empty]
  refine ⟨h.bound, fun id hne => absurd (hempty id) hne, fun s sched hsched hlike => ?_, fun id s sched hsched hjob => ?_,
    fun id => .inl (hempty id)⟩
  · obtain ⟨hmem, rfl⟩ := Store.schedule?_mem hsched
    rw [h.schedules sched hmem] at hlike
    cases hlike
  · have hdef := w.db.store.schedules_job sched (Store.schedule?_mem hsched).1
    exact absurd (hjob ▸ hdef) (h.definitions id)

/-- The registration is complete: an active row and an enabled schedule, and the definition that is scheduled. -/
def Database.Complete (db : Database) (id : Int) : Prop :=
  ∃ row sched, db.scheduledJob? id = some row ∧ row.status = .pending ∧
    db.store.schedule? (redesignedScheduleID id) = some sched ∧ sched.enabled = true ∧ sched.jobID ∈ db.store.definitions

def Database.Clear (db : Database) (id : Int) : Prop :=
  db.scheduledJob? id = none ∧ scheduledDefinitionID id ∉ db.store.definitions ∧ db.store.schedule? (redesignedScheduleID id) = none

theorem Database.complete_iff : db.Complete id ↔ (db.slot id).Registered := by
  constructor
  · rintro ⟨row, sched, hrow, hstatus, hsched, henabled, -⟩
    exact ⟨by simp [slot, hrow, hstatus], sched.jobID, sched.revision, by simp [slot, hsched, henabled]⟩
  · rintro ⟨hrow, _, revision, hschedule⟩
    obtain ⟨row, hrow, hstatus⟩ := map_eq_some_iff.mp hrow
    obtain ⟨sched, hsched, hcolumns⟩ := map_eq_some_iff.mp hschedule
    simp only [Prod.mk.injEq] at hcolumns
    exact ⟨row, sched, hrow, hstatus, hsched, hcolumns.2.1, db.store.schedules_job sched (Store.schedule?_mem hsched).1⟩

theorem Database.clear_iff : db.Clear id ↔ db.slot id = Slot.empty := by
  constructor
  · rintro ⟨hrow, hwrap, hschedule⟩
    exact Slot.ext (by simp [slot, hrow, Slot.empty]) (decide_eq_false hwrap) (by simp [slot, hschedule, Slot.empty])
  · intro h
    exact ⟨map_eq_none_iff.mp (congrArg Slot.row h), of_decide_eq_false (congrArg Slot.wrapper h),
      map_eq_none_iff.mp (congrArg Slot.schedule h)⟩

theorem Serves.orderly {s s' : Bool × World} (h : Serves e (Careful e) s s') (horder : Orderly s.2.db) :
    Orderly s'.2.db ∧ ∀ id, (s.2.db.slot id).Registered → Unchanged id s.2.db s'.2.db := by
  induction h with
  | refl => exact ⟨horder, fun _ _ => ⟨rfl, rfl⟩⟩
  | tail _ hstep ih =>
    obtain ⟨horder', hunchanged⟩ := ih
    cases hstep with
    | start hok hstep | call hok hstep =>
      have hadvance := horder'.advance (e := e) hok
      rw [hstep] at hadvance
      exact ⟨hadvance.orderly, fun id hid =>
        (hunchanged id hid).trans (hadvance.unchanged id ((hunchanged id hid).registered hid))⟩

/-- In every run of processes whose calls are careful: a recovery that completes every registration complete or clear,
a call that returns an id has completed the registration, and a complete registration stays as it is. -/
theorem registrations_all_or_nothing (e : Wiring) (w₀ : World) (h₀ : w₀.Untouched) (up : Bool) (w : World)
    (h : Serves e (Careful e) (false, w₀) (up, w)) :
    (∀ listing faults batches w', w.advance e (.start listing faults batches) = (.recovered, w') →
      ∀ id, w'.db.Complete id ∨ w'.db.Clear id) ∧
    (∀ event id w', Careful e event → w.advance e event = (.registered id, w') → w'.db.Complete id) ∧
    (∀ up' w', Serves e (Careful e) (up, w) (up', w') → ∀ id, w.db.Complete id → Unchanged id w.db w'.db) := by
  have horder := (Serves.orderly h h₀.orderly).1
  refine ⟨fun listing faults batches w' hstep id => ?_, fun event id w' hcareful hstep => ?_, fun up' w' hlater id hid => ?_⟩
  · have hadvance := horder.advance (show Careful e (.start listing faults batches) from trivial)
    rw [hstep] at hadvance
    rw [Database.complete_iff, Database.clear_iff]
    rcases hadvance.orderly.settled id with hempty | hreg | hmark
    · exact .inr hempty
    · exact .inl hreg
    · exact absurd hmark (hadvance.recovered rfl id)
  · have hadvance := horder.advance hcareful
    rw [hstep] at hadvance
    exact Database.complete_iff.mpr (hadvance.registered id rfl)
  · exact (Serves.orderly hlater horder).2 id (Database.complete_iff.mp hid)

/-! ### Fixed runs -/

/-- The texts of times do not matter here. -/
def plainWiring : Wiring where
  calendar := ⟨Jobs.plainFormats, fun _ => none, fun d => d / Jobs.second⟩
  trimSpace := fun text => text

def blankWorld : World := ⟨⟨Table.empty, 0, .ofDefinitions []⟩, []⟩

theorem blankWorld_untouched : blankWorld.Untouched :=
  ⟨by decide, rfl, fun _ h => (nomatch h), fun _ h => (nomatch h)⟩

/-- A message at time 5, with faults at some statements. -/
def remind (plan : Site → Option Fault) : Event := .scheduleOnce 5 1 .message (goString "hello") plan

/-- A process starts, and its recovery meets no fault. -/
def undisturbed : Event := .start (fun _ => none) (fun _ _ _ => none) 1

def stopAtPublish (site : Site) : Option Fault := if site = .publish then some .crash else none

def stopAtDefinition (site : Site) : Option Fault := if site = .saveDefinition then some .crash else none

/-- The context of the call ends before the schedule is saved. -/
def cancelAtSchedule (site : Site) : Option Fault := if site = .saveSchedule ∨ site = .undefine then some .refused else none

def afterRemind (plan : Site → Option Fault) : Report × World :=
  (blankWorld.advance plainWiring undisturbed).2.advance plainWiring (remind plan)

theorem serves_afterRemind (ok : Event → Prop) (plan : Site → Option Fault) (hstart : ok undisturbed) (hcall : ok (remind plan)) :
    Serves plainWiring ok (false, blankWorld) ((afterRemind plan).1 != .stopped, (afterRemind plan).2) := by
  have hup : (blankWorld.advance plainWiring undisturbed).1 = .recovered := by decide +kernel
  exact .tail (.single (.start hstart (Prod.ext hup rfl))) (.call hcall rfl)

/-- The process stops before the publication: the next one cleans up. -/
theorem registrations_all_or_nothing_stopped : ∃ up w w', Serves plainWiring (Careful plainWiring) (false, blankWorld) (up, w) ∧
    w.db.slot 1 = ⟨some .initializing, true, some (scheduledDefinitionID 1, false, 1)⟩ ∧
    w.advance plainWiring undisturbed = (.recovered, w') ∧ (w'.db.Complete 1 ∨ w'.db.Clear 1) := by
  have hserves : Serves plainWiring (Careful plainWiring) (false, blankWorld) _ :=
    serves_afterRemind _ stopAtPublish trivial ⟨by decide, fun h => (nomatch h)⟩
  have hrecovered : ((afterRemind stopAtPublish).2.advance plainWiring undisturbed).1 = .recovered := by decide +kernel
  exact ⟨_, _, _, hserves, by decide +kernel, Prod.ext hrecovered rfl,
    (registrations_all_or_nothing plainWiring blankWorld blankWorld_untouched _ _ hserves).1 _ _ _ _ (Prod.ext hrecovered rfl) 1⟩

theorem neither_of_slot (h : db.slot 1 = slot) (hschedule : slot.schedule = none) (hslot : slot ≠ Slot.empty) :
    ¬ db.Complete 1 ∧ ¬ db.Clear 1 := by
  subst h
  refine ⟨fun hcomplete => ?_, fun hclear => hslot (Database.clear_iff.mp hclear)⟩
  obtain ⟨-, _, _, hsome⟩ := Database.complete_iff.mp hcomplete
  rw [hschedule] at hsome
  cases hsome

/-- The context of the caller is cancelled while the schedule is saved, and the wrapper is deleted under the same context: the
wrapper stays. The process stops between the row and the wrapper: the row stays. -/
theorem registration_left_behind :
    (∃ w w', Serves plainWiring (fun _ => True) (false, blankWorld) (true, w) ∧ w.advance plainWiring undisturbed = (.recovered, w') ∧
      w'.db.slot 1 = ⟨none, true, none⟩ ∧ ¬ w'.db.Complete 1 ∧ ¬ w'.db.Clear 1) ∧
    ∃ w w', Serves plainWiring (fun _ => True) (false, blankWorld) (false, w) ∧ w.advance plainWiring undisturbed = (.recovered, w') ∧
      w'.db.slot 1 = ⟨some .initializing, false, none⟩ ∧ ¬ w'.db.Complete 1 ∧ ¬ w'.db.Clear 1 := by
  constructor
  · have hserves := serves_afterRemind (fun _ => True) cancelAtSchedule trivial trivial
    have hup : ((afterRemind cancelAtSchedule).1 != .stopped) = true := by decide +kernel
    have hslot : ((afterRemind cancelAtSchedule).2.advance plainWiring undisturbed).2.db.slot 1 = ⟨none, true, none⟩ := by decide +kernel
    exact ⟨_, _, hserves, Prod.ext (by decide +kernel) rfl, hslot, neither_of_slot hslot rfl (by decide)⟩
  · have hserves := serves_afterRemind (fun _ => True) stopAtDefinition trivial trivial
    have hdown : ((afterRemind stopAtDefinition).1 != .stopped) = false := by decide +kernel
    have hslot : ((afterRemind stopAtDefinition).2.advance plainWiring undisturbed).2.db.slot 1 =
        ⟨some .initializing, false, none⟩ := by decide +kernel
    exact ⟨_, _, hserves, Prod.ext (by decide +kernel) rfl, hslot, neither_of_slot hslot rfl (by decide)⟩

end Goultroid.Scheduler
