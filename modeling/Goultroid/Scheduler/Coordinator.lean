import Goultroid.Scheduler.Periodic

/-!
# What holds of the periodic coordinator

A live registration that does not run is in the heap, with the deadline of its next run, or it has no timer
entry and waits for the next `syncHeapLocked` (`Sound`).

`Sound out r` says of every timer entry whose it is, and that it is in the heap at its position or among
the entries `out` that are popped and not yet collected. An operation is a few changes: a registration is
rewritten (`Sound.setReg`), an entry leaves the heap or enters it (`Sound.takeOut`, `Sound.hook`), a key
gets another registration or none (`Sound.enroll`, `Sound.drop`). What those who hold a registration may
rely on in the meantime is `Kept`.
-/

namespace Goultroid.Periodic

open List Multiset AList Option Array Heap

/-- All of a registration but its timer entry. -/
def PeriodicRegistration.bare (reg : PeriodicRegistration) : PeriodicRegistration := { reg with heapEntry := none }

theorem PeriodicRegistration.of_bare {reg reg' : PeriodicRegistration} (h : reg'.bare = reg.bare) :
    ∃ t, reg' = { reg with heapEntry := t } := by
  cases reg
  cases reg'
  cases h
  exact ⟨_, rfl⟩

/-- The tick of a registration, as a run takes it along. -/
def PeriodicRegistration.due (reg : PeriodicRegistration) : DueRun := ⟨reg.owner, reg.name, reg.generation, reg.scheduledFor⟩

def PeriodicRegistration.started (reg : PeriodicRegistration) : PeriodicRegistration := { reg with running := true, heapEntry := none }

def PeriodicRegistration.settled (reg : PeriodicRegistration) (item : PendingReconcile) (finished : Time) (failed : Bool)
    (errText : GoString) : PeriodicRegistration :=
  { reg with
    running := false
    occurrenceID := []
    lastRunAt := finished
    failures := if failed then reg.failures + 1 else reg.failures
    lastError := if failed then errText else []
    runs := reg.runs + 1
    scheduledFor := finished + item.interval
    nextRun := finished + item.interval }

theorem PeriodicRegistration.tick_due (reg : PeriodicRegistration) : reg.due.tick = reg.tick := rfl

/-! ### The registry -/

namespace Registry

variable {r r' r'' : Registry} {out : List Nat} {key : GoString} {q t q' : Nat} {reg reg' reg₀ : PeriodicRegistration}
  {order : List GoString}

/-- The registration `q` is the one of its key. -/
def Live (r : Registry) (q : Nat) (reg : PeriodicRegistration) : Prop :=
  r.entries.lookup reg.key = some q ∧ r.regs[q]? = some reg

/-- What is said of a registration by itself. -/
structure Regular (reg : PeriodicRegistration) : Prop where
  idle : reg.running = false → reg.occurrenceID = []
  slot : reg.scheduledFor = 0 → reg.nextRun = 0 ∧ reg.running = false

/-- The timer entry `t` of a registration. -/
structure Timed (timers : List TimerEntry) (heap : IndexedHeap) (out : List Nat) (q t : Nat) (reg : PeriodicRegistration)
    (entry : TimerEntry) : Prop where
  timer : timers[t]? = some entry
  data : entry.data = q
  generation : entry.generation = reg.generation
  deadline : entry.deadline = reg.nextRun
  held : entry.deadline = 0 ∨ t ∈ heap.h.items ∨ t ∈ out

/-- Entries that are popped and not yet collected are in `out`. -/
structure Sound (out : List Nat) (r : Registry) : Prop where
  placed : r.heap.h.Placed
  nodup : (r.heap.h.items.toList ++ out).Nodup
  seq : r.seq = r.regs.length
  generation : ∀ (q : Nat) (reg : PeriodicRegistration), r.regs[q]? = some reg → reg.generation = q + 1
  keyed : ∀ key q, r.entries.lookup key = some q → ∃ reg, r.regs[q]? = some reg ∧ reg.key = key
  queued : ∀ t, t ∈ r.heap.h.items ∨ t ∈ out →
    ∃ entry reg, r.timers[t]? = some entry ∧ entry.deadline ≠ 0 ∧ r.Live entry.data reg ∧ reg.heapEntry = some t
  timed : ∀ q reg t, r.Live q reg → reg.heapEntry = some t → reg.running = false ∧ ∃ entry, Timed r.timers r.heap out q t reg entry
  regular : ∀ q reg, r.Live q reg → Regular reg

theorem sound_new : Sound [] new where
  placed i x h := by simp [new, IndexedHeap.new] at h
  nodup := by simp [new, IndexedHeap.new]
  seq := rfl
  generation q reg h := by simp [new] at h
  keyed key q h := by simp [new] at h
  queued t h := by simp [new, IndexedHeap.new] at h
  timed q reg t h := by simp [Live, new] at h
  regular q reg h := by simp [Live, new] at h

/-! ### Lookups -/

theorem entry?_eq_some (h : r.entry? key = some (q, reg)) : r.entries.lookup key = some q ∧ r.regs[q]? = some reg := by
  unfold entry? at h
  split at h
  · cases h
  · next q' hq =>
    obtain ⟨_, hreg, heq⟩ := map_eq_some_iff.mp h
    cases heq
    exact ⟨hq, hreg⟩

theorem Sound.entry? (h : Sound out r) (hentry : r.entry? key = some (q, reg)) : reg.key = key ∧ r.Live q reg := by
  obtain ⟨hq, hreg⟩ := entry?_eq_some hentry
  obtain ⟨_, hreg', hkey⟩ := h.keyed key q hq
  obtain rfl := mem_unique hreg hreg'
  exact ⟨hkey, hkey ▸ hq, hreg⟩

theorem Live.entry? (h : r.Live q reg) : r.entry? reg.key = some (q, reg) := by
  simp only [Registry.entry?, h.1, h.2, map_some]

theorem Live.unique (h : r.Live q reg) (h' : r.Live q reg') : reg' = reg := some.inj (h'.2.symm.trans h.2)

theorem Sound.perm {out' : List Nat} (h : Sound out r) (hperm : out'.Perm out) : Sound out' r where
  placed := h.placed
  nodup := ((List.Perm.refl _).append hperm).nodup_iff.mpr h.nodup
  seq := h.seq
  generation := h.generation
  keyed := h.keyed
  queued t ht := h.queued t (ht.imp_right hperm.mem_iff.mp)
  timed q reg t hlive hentry := by
    obtain ⟨hidle, entry, htimed⟩ := h.timed q reg t hlive hentry
    exact ⟨hidle, entry, { htimed with held := htimed.held.imp_right (Or.imp_right hperm.mem_iff.mpr) }⟩
  regular := h.regular

/-! ### Changes of one registration -/

theorem getElem?_setReg (hq : r.regs[q]? = some reg) (reg' : PeriodicRegistration) :
    (r.setReg q reg').regs[q']? = if q' = q then some reg' else r.regs[q']? := by
  have hlt := (List.getElem?_eq_some_iff.mp hq).1
  by_cases heq : q' = q
  · subst heq
    rw [if_pos rfl]
    exact getElem?_set_self hlt
  · rw [if_neg heq]
    exact getElem?_set_ne (Ne.symm heq)

theorem live_setReg_of_ne (hq : r.regs[q]? = some reg) (hne : q' ≠ q) : (r.setReg q reg').Live q' reg₀ ↔ r.Live q' reg₀ := by
  simp only [Live, getElem?_setReg hq, if_neg hne]
  exact Iff.rfl

theorem live_setReg (hq : r.regs[q]? = some reg) (h : (r.setReg q reg').Live q' reg₀) : q' = q ∧ reg₀ = reg' ∨ q' ≠ q ∧ r.Live q' reg₀ := by
  by_cases hne : q' = q
  · refine .inl ⟨hne, ?_⟩
    have hreg := h.2
    rw [getElem?_setReg hq, if_pos hne] at hreg
    exact (some.inj hreg).symm
  · exact .inr ⟨hne, (live_setReg_of_ne hq hne).mp h⟩

theorem Sound.setReg (h : Sound out r) (hlive : r.Live q reg) (reg' : PeriodicRegistration) (hkey : reg'.key = reg.key)
    (hgeneration : reg'.generation = reg.generation)
    (hnone : reg'.heapEntry = none) (hout : ∀ t, reg.heapEntry = some t → t ∉ r.heap.h.items) (hregular : Regular reg') :
    Sound (out.filter fun t => decide (reg.heapEntry ≠ some t)) (r.setReg q reg') where
  placed := h.placed
  nodup := h.nodup.sublist (Sublist.append_left filter_sublist _)
  seq := h.seq.trans length_set.symm
  generation q' reg₀ hreg0 := by
    rw [getElem?_setReg hlive.2] at hreg0
    split_ifs at hreg0 with heq
    · rw [← some.inj hreg0, hgeneration, heq]
      exact h.generation q reg hlive.2
    · exact h.generation q' reg₀ hreg0
  keyed key q' hq' := by
    obtain ⟨reg₀, hreg0, hkey0⟩ := h.keyed key q' hq'
    by_cases heq : q' = q
    · subst heq
      obtain rfl := some.inj (hlive.2.symm.trans hreg0)
      exact ⟨reg', by rw [getElem?_setReg hlive.2, if_pos rfl], hkey.trans hkey0⟩
    · exact ⟨reg₀, by rw [getElem?_setReg hlive.2, if_neg heq]; exact hreg0, hkey0⟩
  queued t ht := by
    have hold : t ∈ r.heap.h.items ∨ t ∈ out := ht.imp_right mem_of_mem_filter
    obtain ⟨entry, reg₀, htimer, hdead, hlive0, hentry⟩ := h.queued t hold
    refine ⟨entry, reg₀, htimer, hdead, (live_setReg_of_ne hlive.2 ?_).mpr hlive0, hentry⟩
    intro heq
    rw [heq] at hlive0
    obtain rfl := hlive.unique hlive0
    rcases ht with hitems | hfiltered
    · exact hout t hentry hitems
    · exact of_decide_eq_true (mem_filter.mp hfiltered).2 hentry
  timed q' reg₀ t hlive0 hentry := by
    rcases live_setReg hlive.2 hlive0 with ⟨-, rfl⟩ | ⟨hne, hlive0⟩
    · rw [hnone] at hentry
      cases hentry
    obtain ⟨hidle, entry, htimed⟩ := h.timed q' reg₀ t hlive0 hentry
    refine ⟨hidle, entry, { htimed with held := htimed.held.imp_right (Or.imp_right fun hmem => ?_) }⟩
    refine mem_filter.mpr ⟨hmem, decide_eq_true fun hsame => ?_⟩
    obtain ⟨-, _, htimed'⟩ := h.timed q reg t hlive hsame
    have hent := some.inj (htimed.timer.symm.trans htimed'.timer)
    exact hne (htimed.data.symm.trans (hent ▸ htimed'.data))
  regular q' reg₀ hlive0 := by
    rcases live_setReg hlive.2 hlive0 with ⟨-, rfl⟩ | ⟨-, hlive0⟩
    · exact hregular
    · exact h.regular q' reg₀ hlive0

theorem Sound.running (h : Sound out r) (hlive : r.Live q reg) (hrunning : reg.running = true) : reg.heapEntry = none := by
  cases hentry : reg.heapEntry with
  | none => rfl
  | some t =>
    have hidle := (h.timed q reg t hlive hentry).1
    rw [hrunning] at hidle
    cases hidle

theorem Sound.setRunning (h : Sound out r) (hlive : r.Live q reg) (hrunning : reg.running = true) (hkey : reg'.key = reg.key)
    (hgeneration : reg'.generation = reg.generation) (hentry : reg'.heapEntry = reg.heapEntry) (hregular : Regular reg') :
    Sound out (r.setReg q reg') := by
  have hnone := h.running hlive hrunning
  have hset := h.setReg hlive reg' hkey hgeneration (hentry.trans hnone) (fun t ht => by rw [hnone] at ht; cases ht) hregular
  simpa [hnone] using hset

/-! ### The heap -/

theorem mem_items_iff {h : Heap.Indexed Nat} : t ∈ h.items ↔ t ∈ Heap.bag h.items := by
  simp [Heap.bag]

theorem Sound.takeOut (h : Sound out r) (heap : IndexedHeap) (hplaced : heap.h.Placed)
    (hbag : Heap.bag r.heap.h.items = t ::ₘ Heap.bag heap.h.items) : Sound (t :: out) { r with heap := heap } where
  placed := hplaced
  nodup := by
    have hitems : (t :: heap.h.items.toList).Perm r.heap.h.items.toList := coe_eq_coe.mp hbag.symm
    exact (perm_middle.trans (hitems.append_right out)).nodup_iff.mpr h.nodup
  seq := h.seq
  generation := h.generation
  keyed := h.keyed
  queued u hu := by
    refine h.queued u ?_
    rw [mem_items_iff, hbag, Multiset.mem_cons, ← mem_items_iff]
    rcases hu with hu | hu
    · exact .inl (.inr hu)
    · rcases mem_cons.mp hu with rfl | hu
      · exact .inl (.inl rfl)
      · exact .inr hu
  timed q reg u hlive hentry := by
    obtain ⟨hidle, entry, htimed⟩ := h.timed q reg u hlive hentry
    refine ⟨hidle, entry, htimed.timer, htimed.data, htimed.generation, htimed.deadline, htimed.held.imp_right fun hheld => ?_⟩
    rw [mem_items_iff, hbag, Multiset.mem_cons, ← mem_items_iff] at hheld
    rcases hheld with (rfl | hheld) | hheld
    · exact .inr (mem_cons_self ..)
    · exact .inl hheld
    · exact .inr (mem_cons_of_mem _ hheld)
  regular := h.regular

theorem filter_head (hnodup : (t :: out).Nodup) : ((t :: out).filter fun u => decide (some t ≠ some u)) = out := by
  have htail : (out.filter fun u => decide (some t ≠ some u)) = out := by
    refine filter_eq_self.mpr fun u hu => decide_eq_true fun heq => ?_
    exact (nodup_cons.mp hnodup).1 (some.inj heq ▸ hu)
  rw [filter_cons_of_neg (by simp), htail]

theorem Sound.collect (h : Sound (t :: out) r) (hlive : r.Live q reg) (hentry : reg.heapEntry = some t) (hkey : reg'.key = reg.key)
    (hgeneration : reg'.generation = reg.generation) (hnone : reg'.heapEntry = none) (hregular : Regular reg') :
    Sound out (r.setReg q reg') := by
  have hdisjoint := disjoint_of_nodup_append h.nodup
  have hset := h.setReg hlive reg' hkey hgeneration hnone (fun u hu hitems => by
    rw [hentry] at hu
    cases hu
    exact hdisjoint (mem_toList_iff.mpr hitems) (mem_cons_self ..)) hregular
  simp only [hentry] at hset
  rwa [filter_head h.nodup.of_append_right] at hset

theorem Sound.detach (h : Sound [] r) (hlive : r.Live q reg) :
    Sound [] (r.detach q reg) ∧ (r.detach q reg).Live q { reg with heapEntry := none } := by
  have hregular := h.regular q reg hlive
  have hidle : Regular { reg with heapEntry := none } := ⟨hregular.idle, hregular.slot⟩
  have hnew (r0 : Registry) (hlive0 : r0.Live q reg) :
      (r0.setReg q { reg with heapEntry := none }).Live q { reg with heapEntry := none } :=
    ⟨hlive0.1, by rw [getElem?_setReg hlive0.2, if_pos rfl]⟩
  unfold Registry.detach
  split
  · next hnone =>
    refine ⟨h, ?_⟩
    rw [← hnone]
    exact hlive
  · next t hentry =>
    unfold IndexedHeap.remove
    split_ifs with hholds
    · obtain ⟨hplaced, hbag, -⟩ := Indexed.remove_spec (timerLess r.timers) h.placed (Indexed.getElem?_of_holds hholds)
      exact ⟨(h.takeOut ⟨_, r.heap.seq⟩ hplaced hbag).collect hlive hentry rfl rfl rfl hidle,
        hnew { r with heap := ⟨_, r.heap.seq⟩ } hlive⟩
    · refine ⟨h.setReg hlive { reg with heapEntry := none } rfl rfl rfl (fun u hu hitems => ?_) hidle, hnew r hlive⟩
      rw [hentry] at hu
      cases hu
      exact hholds (h.placed.holds_iff.mpr hitems)

theorem push_new {entry : TimerEntry} (timers : List TimerEntry) {heap : IndexedHeap} (hplaced : heap.h.Placed)
    (hfresh : timers.length ∉ heap.h.items) :
    ∃ sequence, (heap.push (timers ++ [entry]) timers.length).1 = timers ++ [{ entry with sequence := sequence }] ∧
      (heap.push (timers ++ [entry]) timers.length).2.h.Placed ∧
      (entry.deadline = 0 ∧ (heap.push (timers ++ [entry]) timers.length).2 = heap ∨
        entry.deadline ≠ 0 ∧ Heap.bag (heap.push (timers ++ [entry]) timers.length).2.h.items = timers.length ::ₘ Heap.bag heap.h.items) := by
  have hget : (timers ++ [entry])[timers.length]? = some entry := by simp
  unfold IndexedHeap.push
  rw [hget]
  dsimp only
  split_ifs with hzero hholds
  · exact ⟨entry.sequence, rfl, hplaced, .inl ⟨hzero, rfl⟩⟩
  · exact absurd (hplaced.holds_iff.mp hholds) hfresh
  · refine ⟨heap.seq + 1, by simp, ?_⟩
    obtain ⟨hplaced', hbag, -⟩ := Indexed.push_spec
      (timerLess ((timers ++ [entry]).set timers.length { entry with sequence := heap.seq + 1 })) hplaced hfresh
    exact ⟨hplaced', .inr ⟨hzero, hbag⟩⟩

theorem Sound.fresh (h : Sound out r) : r.timers.length ∉ r.heap.h.items ∧ r.timers.length ∉ out := by
  have hlt (u : Nat) (hu : u ∈ r.heap.h.items ∨ u ∈ out) : u < r.timers.length := by
    obtain ⟨_, _, htimer, -⟩ := h.queued u hu
    exact (List.getElem?_eq_some_iff.mp htimer).1
  exact ⟨fun hmem => absurd (hlt _ (.inl hmem)) (lt_irrefl _), fun hmem => absurd (hlt _ (.inr hmem)) (lt_irrefl _)⟩

theorem Sound.hook (h : Sound out r) (hlive : r.Live q reg) (hidle : reg.running = false) (hnone : reg.heapEntry = none) :
    Sound out (r.hook q reg) ∧ (r.hook q reg).Live q { reg with heapEntry := some r.timers.length } := by
  obtain ⟨hitems, hout⟩ := h.fresh
  obtain ⟨sequence, htimers, hplaced, hpushed⟩ :=
    push_new r.timers h.placed hitems
  have hmem (u : Nat) : u ∈ (r.hook q reg).heap.h.items ↔ u ∈ r.heap.h.items ∨ u = r.timers.length ∧ reg.nextRun ≠ 0 := by
    rcases hpushed with ⟨hzero, hheap⟩ | ⟨hdead, hbag⟩
    · show u ∈ (IndexedHeap.push _ _ _).2.h.items ↔ _
      rw [hheap]
      exact ⟨.inl, fun hu => hu.elim id fun hu => absurd hzero hu.2⟩
    · rw [mem_items_iff, Registry.hook, hbag, Multiset.mem_cons, ← mem_items_iff]
      exact ⟨fun hu => hu.elim (fun heq => .inr ⟨heq, hdead⟩) .inl, fun hu => hu.elim .inr fun hu => .inl hu.1⟩
  have hold {u : Nat} {entry : TimerEntry} (hu : r.timers[u]? = some entry) : (r.hook q reg).timers[u]? = some entry := by
    show (IndexedHeap.push _ _ _).1[u]? = _
    rw [htimers, List.getElem?_append_left (List.getElem?_eq_some_iff.mp hu).1]
    exact hu
  have hnew : (r.hook q reg).timers[r.timers.length]? = some ⟨reg.owner, reg.key, reg.generation, reg.nextRun, sequence, q⟩ := by
    show (IndexedHeap.push _ _ _).1[r.timers.length]? = _
    rw [htimers]
    simp
  have hself : (r.hook q reg).Live q { reg with heapEntry := some r.timers.length } :=
    ⟨hlive.1, (getElem?_setReg hlive.2 _).trans (if_pos rfl)⟩
  refine ⟨?_, hself⟩
  exact {
    placed := hplaced
    nodup := by
      rcases hpushed with ⟨-, hheap⟩ | ⟨-, hbag⟩
      · show ((IndexedHeap.push _ _ _).2.h.items.toList ++ out).Nodup
        rw [hheap]
        exact h.nodup
      · have hperm : (IndexedHeap.push _ _ _).2.h.items.toList.Perm (r.timers.length :: r.heap.h.items.toList) :=
          coe_eq_coe.mp hbag
        refine (hperm.append_right out).nodup_iff.mpr (nodup_cons.mpr ⟨?_, h.nodup⟩)
        exact fun hmem => (mem_append.mp hmem).elim (fun hmem => hitems (mem_toList_iff.mp hmem)) hout
    seq := h.seq.trans length_set.symm
    generation := fun q' reg₀ hreg0 => by
      rcases eq_or_ne q' q with rfl | hne
      · obtain rfl := some.inj (hself.2.symm.trans hreg0)
        exact h.generation q' reg hlive.2
      · exact h.generation q' reg₀ (((getElem?_setReg hlive.2 _).trans (if_neg hne)).symm.trans hreg0)
    keyed := fun key q' hq' => by
      obtain ⟨reg₀, hreg0, hkey0⟩ := h.keyed key q' hq'
      rcases eq_or_ne q' q with rfl | hne
      · obtain rfl := some.inj (hlive.2.symm.trans hreg0)
        exact ⟨_, hself.2, hkey0⟩
      · exact ⟨reg₀, ((getElem?_setReg hlive.2 _).trans (if_neg hne)).trans hreg0, hkey0⟩
    queued := fun u hu => by
      rw [hmem, or_right_comm] at hu
      rcases hu with hu | ⟨rfl, hdead⟩
      · obtain ⟨entry, reg₀, htimer, hdead, hlive0, hentry⟩ := h.queued u hu
        refine ⟨entry, reg₀, hold htimer, hdead, (live_setReg_of_ne hlive.2 ?_).mpr hlive0, hentry⟩
        intro heq
        rw [heq] at hlive0
        rw [hlive.unique hlive0, hnone] at hentry
        cases hentry
      · exact ⟨_, _, hnew, hdead, hself, rfl⟩
    timed := fun q' reg₀ u hlive0 hentry => by
      rcases live_setReg hlive.2 (show (r.setReg q _).Live q' reg₀ from hlive0) with ⟨rfl, rfl⟩ | ⟨hne, hlive0⟩
      · cases hentry
        refine ⟨hidle, _, hnew, rfl, rfl, rfl, ?_⟩
        rcases eq_or_ne reg.nextRun 0 with hzero | hdead
        · exact .inl hzero
        · exact .inr (.inl ((hmem _).mpr (.inr ⟨rfl, hdead⟩)))
      · obtain ⟨hidle0, entry, htimed⟩ := h.timed q' reg₀ u hlive0 hentry
        exact ⟨hidle0, entry, hold htimed.timer, htimed.data, htimed.generation, htimed.deadline,
          htimed.held.imp_right (Or.imp_left fun hu => (hmem u).mpr (.inl hu))⟩
    regular := fun q' reg₀ hlive0 => by
      rcases live_setReg hlive.2 (show (r.setReg q _).Live q' reg₀ from hlive0) with ⟨rfl, rfl⟩ | ⟨-, hlive0⟩
      · have hregular := h.regular q' reg hlive
        exact ⟨hregular.idle, hregular.slot⟩
      · exact h.regular q' reg₀ hlive0 }

/-! ### What the other goroutines leave alone -/

/-- Registrations keep all but their timer entry; what becomes live is new and idle. -/
structure Kept (r r' : Registry) : Prop where
  length : r.regs.length ≤ r'.regs.length
  regs : ∀ (q : Nat) (reg : PeriodicRegistration), r.regs[q]? = some reg → ∃ reg', r'.regs[q]? = some reg' ∧ reg'.bare = reg.bare
  live : ∀ q reg', r'.Live q reg' →
    (∃ reg, r.Live q reg ∧ reg'.bare = reg.bare) ∨ r.regs.length ≤ q ∧ reg'.running = false

theorem Kept.refl (r : Registry) : Kept r r where
  length := le_refl _
  regs _ reg hreg := ⟨reg, hreg, rfl⟩
  live _ reg' hlive := .inl ⟨reg', hlive, rfl⟩

theorem Kept.trans (h : Kept r r') (h' : Kept r' r'') : Kept r r'' where
  length := h.length.trans h'.length
  regs q reg hreg := by
    obtain ⟨reg', hreg', hbare⟩ := h.regs q reg hreg
    obtain ⟨reg'', hreg'', hbare'⟩ := h'.regs q reg' hreg'
    exact ⟨reg'', hreg'', hbare'.trans hbare⟩
  live q reg'' hlive := by
    rcases h'.live q reg'' hlive with ⟨reg', hlive', hbare'⟩ | ⟨hnew, hidle⟩
    · rcases h.live q reg' hlive' with ⟨reg, hlive, hbare⟩ | ⟨hnew, hidle⟩
      · exact .inl ⟨reg, hlive, hbare'.trans hbare⟩
      · obtain ⟨_, rfl⟩ := PeriodicRegistration.of_bare hbare'
        exact .inr ⟨hnew, hidle⟩
    · exact .inr ⟨h.length.trans hnew, hidle⟩

theorem Kept.heap (h : Kept r r') (timers : List TimerEntry) (heap : IndexedHeap) : Kept r { r' with timers := timers, heap := heap } :=
  ⟨h.length, h.regs, h.live⟩

theorem kept_setReg {entry : Option Nat} (hlive : r.Live q reg) : Kept r (r.setReg q { reg with heapEntry := entry }) where
  length := le_of_eq length_set.symm
  regs q' reg₀ hreg0 := by
    rw [getElem?_setReg hlive.2]
    split_ifs with heq
    · subst heq
      obtain rfl := some.inj (hlive.2.symm.trans hreg0)
      exact ⟨_, rfl, rfl⟩
    · exact ⟨reg₀, hreg0, rfl⟩
  live q' reg₀ hlive0 := by
    rcases live_setReg hlive.2 hlive0 with ⟨rfl, rfl⟩ | ⟨-, hlive0⟩
    · exact .inl ⟨reg, hlive, rfl⟩
    · exact .inl ⟨reg₀, hlive0, rfl⟩

theorem kept_hook (hlive : r.Live q reg) : Kept r (r.hook q reg) :=
  (kept_setReg hlive).heap _ _

theorem kept_detach (hlive : r.Live q reg) : Kept r (r.detach q reg) := by
  unfold Registry.detach
  split
  · exact .refl r
  · exact (kept_setReg hlive).heap _ _

theorem kept_entries {entries : AList fun _ : GoString => Nat} {defs}
    (h : ∀ key q, entries.lookup key = some q → r.entries.lookup key = some q) :
    Kept r { r with entries := entries, jobDefs := defs } where
  length := le_refl _
  regs _ reg hreg := ⟨reg, hreg, rfl⟩
  live _ reg' hlive := .inl ⟨reg', ⟨h _ _ hlive.1, hlive.2⟩, rfl⟩

/-! ### Registering and unregistering -/

/-- Only a registration of an entry that goes must be out of the heap. -/
theorem Sound.entries (h : Sound [] r) {entries : AList fun _ : GoString => Nat} {defs}
    (hsub : ∀ key q, entries.lookup key = some q → r.entries.lookup key = some q)
    (hgone : ∀ q reg, r.Live q reg → reg.heapEntry ≠ none → entries.lookup reg.key = some q) :
    Sound [] { r with entries := entries, jobDefs := defs } where
  placed := h.placed
  nodup := h.nodup
  seq := h.seq
  generation := h.generation
  keyed key q hq := h.keyed key q (hsub key q hq)
  queued t ht := by
    obtain ⟨entry, reg, htimer, hdead, hlive, hentry⟩ := h.queued t ht
    exact ⟨entry, reg, htimer, hdead, ⟨hgone _ _ hlive (by rw [hentry]; simp), hlive.2⟩, hentry⟩
  timed q reg t hlive hentry := h.timed q reg t ⟨hsub _ _ hlive.1, hlive.2⟩ hentry
  regular q reg hlive := h.regular q reg ⟨hsub _ _ hlive.1, hlive.2⟩

theorem entries_detach : (r.detach q reg).entries = r.entries := by
  unfold Registry.detach
  split <;> rfl

theorem Sound.drop (h : Sound [] r) (key : GoString) : Sound [] (r.drop key).1 ∧ Kept r (r.drop key).1 := by
  unfold Registry.drop
  split
  · exact ⟨h, .refl r⟩
  · next q reg hentry =>
    obtain ⟨hkey, hlive⟩ := h.entry? hentry
    obtain ⟨hsound, hdetach⟩ := h.detach hlive
    have hsub (key' : GoString) (q' : Nat) (hq' : (r.entries.erase key).lookup key' = some q') :
        (r.detach q reg).entries.lookup key' = some q' := by
      obtain ⟨hne, hq'⟩ := of_lookup_erase hq'
      rw [entries_detach]
      exact hq'
    refine ⟨hsound.entries hsub fun q' reg' hlive' hsome => ?_, (kept_detach hlive).trans (kept_entries hsub)⟩
    rw [lookup_erase_eq, if_neg]
    · rw [← entries_detach]
      exact hlive'.1
    · -- the detached registration has no timer entry
      intro hsame
      have hq := (hkey ▸ hlive.1 : r.entries.lookup key = some q)
      have hq' := hlive'.1
      rw [entries_detach, hsame, hq] at hq'
      cases hq'
      rw [hdetach.unique hlive'] at hsome
      exact hsome rfl

theorem Sound.dropOwner (owner : GoString) (order : List GoString) (h : Sound [] r) :
    Sound [] (Registry.dropOwner owner order r).1 ∧ Kept r (Registry.dropOwner owner order r).1 := by
  induction order generalizing r with
  | nil => exact ⟨h, .refl r⟩
  | cons key order ih =>
    rw [Registry.dropOwner]
    split
    · exact ih h
    · next reg _ =>
      by_cases howner : reg.owner = owner ∨ reg.owner = goString "plugin:" ++ owner
      · rw [if_pos howner]
        obtain ⟨hsound, hkept⟩ := h.drop key
        obtain ⟨hsound', hkept'⟩ := ih hsound
        exact ⟨hsound', hkept.trans hkept'⟩
      · rw [if_neg howner]
        exact ih h

theorem Sound.emptied (h : Sound [] r) :
    Sound [] { r with entries := ∅, heap := .new } ∧ Kept r { r with entries := ∅, heap := .new } := by
  have hnone (key : GoString) (q : Nat) (hq : (∅ : AList fun _ : GoString => Nat).lookup key = some q) : False := by
    simp at hq
  constructor
  · exact {
      placed := sound_new.placed
      nodup := sound_new.nodup
      seq := h.seq
      generation := h.generation
      keyed := fun key q hq => (hnone key q hq).elim
      queued := fun t ht => by simp [IndexedHeap.new] at ht
      timed := fun q reg t hlive => (hnone _ _ hlive.1).elim
      regular := fun q reg hlive => (hnone _ _ hlive.1).elim }
  · exact ⟨le_refl _, fun _ reg hreg => ⟨reg, hreg, rfl⟩, fun q reg hlive => (hnone _ _ hlive.1).elim⟩

/-- A new registration takes the place of one without a timer entry, if there is one. -/
def enroll (r : Registry) (reg : PeriodicRegistration) : Registry :=
  { r with
    seq := r.seq + 1
    regs := r.regs ++ [reg]
    entries := r.entries.insert reg.key r.regs.length
    jobDefs := r.jobDefs.insert reg.definitionID ⟨(reg.owner, reg.name), rfl⟩ }

theorem live_enroll (h : Sound [] r) (hlive : (r.enroll reg).Live q' reg₀) : q' = r.regs.length ∧ reg₀ = reg ∨ r.Live q' reg₀ := by
  obtain ⟨hlook, hreg⟩ := hlive
  have hlook' : (r.entries.insert reg.key r.regs.length).lookup reg₀.key = some q' := hlook
  rcases of_lookup_insert hlook' with ⟨-, rfl⟩ | ⟨-, hlook'⟩
  · refine .inl ⟨rfl, ?_⟩
    have hlast : (r.regs ++ [reg])[r.regs.length]? = some reg₀ := hreg
    rw [getElem?_concat_length] at hlast
    exact (some.inj hlast).symm
  · obtain ⟨_, hreg1, -⟩ := h.keyed _ _ hlook'
    have hlt := (List.getElem?_eq_some_iff.mp hreg1).1
    have hold : (r.regs ++ [reg])[q']? = some reg₀ := hreg
    rw [getElem?_append_left hlt] at hold
    exact .inr ⟨hlook', hold⟩

theorem Sound.enroll (h : Sound [] r) (reg : PeriodicRegistration) (hgeneration : reg.generation = r.regs.length + 1)
    (hnone : reg.heapEntry = none) (hregular : Regular reg) (hold : ∀ q old, r.Live q old → old.key = reg.key → old.heapEntry = none) :
    Sound [] (r.enroll reg) ∧ (r.enroll reg).Live r.regs.length reg := by
  have hself : (r.enroll reg).Live r.regs.length reg := ⟨lookup_insert _, getElem?_concat_length⟩
  refine ⟨?_, hself⟩
  have hlive0 {q : Nat} {reg₀ : PeriodicRegistration} (hlive : r.Live q reg₀) (hkey : reg₀.key ≠ reg.key) :
      (r.enroll reg).Live q reg₀ := by
    refine ⟨(lookup_insert_ne hkey).trans hlive.1, ?_⟩
    exact (List.getElem?_append_left (List.getElem?_eq_some_iff.mp hlive.2).1).trans hlive.2
  exact {
    placed := h.placed
    nodup := h.nodup
    seq := by
      show r.seq + 1 = (r.regs ++ [reg]).length
      rw [h.seq, length_append, length_singleton]
    generation := fun q reg₀ hreg0 => by
      have happ : (r.regs ++ [reg])[q]? = some reg₀ := hreg0
      rcases lt_trichotomy q r.regs.length with hlt | rfl | hgt
      · rw [getElem?_append_left hlt] at happ
        exact h.generation q reg₀ happ
      · rw [getElem?_concat_length] at happ
        exact (some.inj happ) ▸ hgeneration
      · rw [List.getElem?_eq_none (by simp; omega)] at happ
        cases happ
    keyed := fun key q hq => by
      have hq' : (r.entries.insert reg.key r.regs.length).lookup key = some q := hq
      rcases of_lookup_insert hq' with ⟨hkey, rfl⟩ | ⟨hkey, hq'⟩
      · exact ⟨reg, hself.2, hkey.symm⟩
      · obtain ⟨reg₀, hreg0, hkey0⟩ := h.keyed key q hq'
        exact ⟨reg₀, (hlive0 ⟨hkey0 ▸ hq', hreg0⟩ (hkey0 ▸ hkey)).2, hkey0⟩
    queued := fun t ht => by
      obtain ⟨entry, reg₀, htimer, hdead, hlive, hentry⟩ := h.queued t ht
      refine ⟨entry, reg₀, htimer, hdead, hlive0 hlive fun hkey => ?_, hentry⟩
      rw [hold _ _ hlive hkey] at hentry
      cases hentry
    timed := fun q reg₀ t hlive hentry => by
      rcases live_enroll h hlive with ⟨-, rfl⟩ | hlive
      · rw [hnone] at hentry
        cases hentry
      · obtain ⟨hidle, entry, htimed⟩ := h.timed q reg₀ t hlive hentry
        exact ⟨hidle, entry, htimed.timer, htimed.data, htimed.generation, htimed.deadline, htimed.held⟩
    regular := fun q reg₀ hlive => by
      rcases live_enroll h hlive with ⟨-, rfl⟩ | hlive
      · exact hregular
      · exact h.regular q reg₀ hlive }

theorem kept_enroll (h : Sound [] r) (hidle : reg.running = false) : Kept r (r.enroll reg) where
  length := by
    show r.regs.length ≤ (r.regs ++ [reg]).length
    rw [length_append]
    omega
  regs q reg₀ hreg0 :=
    ⟨reg₀, (List.getElem?_append_left (List.getElem?_eq_some_iff.mp hreg0).1).trans hreg0, rfl⟩
  live q reg₀ hlive := by
    rcases live_enroll h hlive with ⟨rfl, rfl⟩ | hlive
    · exact .inr ⟨le_refl _, hidle⟩
    · exact .inl ⟨reg₀, hlive, rfl⟩

theorem seq_detach : (r.detach q reg).seq = r.seq := by
  unfold Registry.detach
  split <;> rfl

theorem length_detach : (r.detach q reg).regs.length = r.regs.length := by
  unfold Registry.detach
  split
  · rfl
  · exact length_set

/-- The registration that `Register` makes. -/
def registration (r : Registry) (now : Time) (owner name : GoString) (interval : Duration) : PeriodicRegistration where
  owner := owner
  name := name
  interval := interval
  scheduledFor := now + interval
  nextRun := now + interval
  generation := r.seq + 1

theorem install_eq {now : Time} {owner name : GoString} {interval : Duration} : (r.install now owner name interval).1 =
      let replaced := match r.entry? (periodicKey owner name) with
        | none => r
        | some (q, old) => r.detach q old
      (replaced.enroll (r.registration now owner name interval)).hook replaced.regs.length (r.registration now owner name interval) := by
  unfold install
  cases hentry : r.entry? (periodicKey owner name) with
  | none =>
    simp only [hentry]
    rfl
  | some =>
    simp only [hentry]
    rw [enroll, seq_detach]
    rfl

theorem Sound.install (h : Sound [] r) (now : Time) (owner name : GoString) (interval : Duration) :
    Sound [] (r.install now owner name interval).1 ∧ Kept r (r.install now owner name interval).1 := by
  have hregular : Regular (r.registration now owner name interval) := ⟨fun _ => rfl, fun hzero => ⟨hzero, rfl⟩⟩
  rw [install_eq]
  split
  · next hnone =>
    have hold (q : Nat) (old : PeriodicRegistration) (hlive : r.Live q old)
        (hkey : old.key = (r.registration now owner name interval).key) : old.heapEntry = none := by
      have hentry := hlive.entry?
      rw [hkey] at hentry
      exact absurd (hnone.symm.trans hentry) (by simp)
    obtain ⟨hsound, hlive⟩ := h.enroll _ (by rw [registration, h.seq]) rfl hregular hold
    obtain ⟨hhook, -⟩ := hsound.hook hlive rfl rfl
    exact ⟨hhook, (kept_enroll h rfl).trans (kept_hook hlive)⟩
  · next q old hentry =>
    obtain ⟨hkey, hlive⟩ := h.entry? hentry
    obtain ⟨hdetach, hlive'⟩ := h.detach hlive
    have hold (q' : Nat) (old' : PeriodicRegistration) (hlive0 : (r.detach q old).Live q' old')
        (hkey' : old'.key = (r.registration now owner name interval).key) : old'.heapEntry = none := by
      have hsame := hlive0.1.symm.trans (congrArg (r.detach q old).entries.lookup (hkey'.trans hkey.symm) |>.trans hlive'.1)
      cases hsame
      rw [hlive'.unique hlive0]
    obtain ⟨hsound, hlive1⟩ := hdetach.enroll _ (by rw [registration, length_detach, h.seq]) rfl hregular hold
    obtain ⟨hhook, -⟩ := hsound.hook hlive1 rfl rfl
    exact ⟨hhook, ((kept_detach hlive).trans (kept_enroll hdetach rfl)).trans (kept_hook hlive1)⟩

/-! ### The pass of the loop -/

/-- A registration that `syncHeapLocked` leaves alone. -/
def Ready (reg : PeriodicRegistration) : Prop := reg.running = true ∨ reg.heapEntry ≠ none

theorem Sound.syncEntry (h : Sound [] r) (key : GoString) :
    Sound [] (r.syncEntry key) ∧ Kept r (r.syncEntry key) ∧ (r.syncEntry key).entries = r.entries ∧
      ∀ q reg, (r.syncEntry key).Live q reg → Ready reg ∨ reg.key ≠ key ∧ r.Live q reg := by
  -- nothing is done: the entry of the key was ready
  have hstays (hready : ∀ q reg, r.Live q reg → reg.key = key → Ready reg) :
      Sound [] r ∧ Kept r r ∧ r.entries = r.entries ∧ ∀ q reg, r.Live q reg → Ready reg ∨ reg.key ≠ key ∧ r.Live q reg := by
    refine ⟨h, .refl r, rfl, fun q reg hlive => ?_⟩
    rcases eq_or_ne reg.key key with hkey | hkey
    · exact .inl (hready q reg hlive hkey)
    · exact .inr ⟨hkey, hlive⟩
  have hthis {q : Nat} {reg : PeriodicRegistration} (hentry : r.entry? key = some (q, reg)) (hready : Ready reg) (q' : Nat)
      (reg' : PeriodicRegistration) (hlive' : r.Live q' reg') (hkey' : reg'.key = key) : Ready reg' := by
    have hentry' := hlive'.entry?
    rw [hkey', hentry] at hentry'
    cases hentry'
    exact hready
  unfold Registry.syncEntry
  split
  · next hnone =>
    refine hstays fun q reg hlive hkey => ?_
    rw [← hkey, hlive.entry?] at hnone
    cases hnone
  · next q reg hentry =>
    obtain ⟨hkey, hlive⟩ := h.entry? hentry
    split_ifs with hrunning
    · exact hstays (hthis hentry (.inl hrunning))
    split
    · next hnone =>
      obtain ⟨hsound, _⟩ := h.hook hlive (by simpa using hrunning) hnone
      refine ⟨hsound, kept_hook hlive, rfl, fun q' reg' hlive' => ?_⟩
      rcases live_setReg hlive.2 (show (r.setReg q _).Live q' reg' from hlive') with ⟨-, rfl⟩ | ⟨hne, hlive'⟩
      · exact .inl (.inr (by simp))
      · refine .inr ⟨fun hkey' => hne ?_, hlive'⟩
        have hq' := hlive'.1
        rw [hkey', ← hkey, hlive.1] at hq'
        exact (some.inj hq').symm
    · next t hsome =>
      obtain ⟨-, entry, htimed⟩ := h.timed q reg t hlive hsome
      rw [htimed.timer]
      dsimp only
      rw [if_pos htimed.deadline]
      exact hstays (hthis hentry (.inr (by rw [hsome]; simp)))

theorem Sound.syncHeapLocked (h : Sound [] r) (order : List GoString) :
    Sound [] (r.syncHeapLocked order) ∧ Kept r (r.syncHeapLocked order) ∧ (r.syncHeapLocked order).entries = r.entries ∧
      ∀ q reg, (r.syncHeapLocked order).Live q reg → Ready reg ∨ reg.key ∉ order ∧ r.Live q reg := by
  induction order generalizing r with
  | nil => exact ⟨h, .refl r, rfl, fun q reg hlive => .inr ⟨by simp, hlive⟩⟩
  | cons key order ih =>
    obtain ⟨hsound, hkept, hent, hready⟩ := h.syncEntry key
    obtain ⟨hsound', hkept', hent', hready'⟩ := ih hsound
    refine ⟨hsound', hkept.trans hkept', hent'.trans hent, fun q reg hlive => ?_⟩
    rcases hready' q reg hlive with hdone | ⟨hnotMem, hlive'⟩
    · exact .inl hdone
    · rcases hready q reg hlive' with hdone | ⟨hne, hlive0⟩
      · exact .inl hdone
      · exact .inr ⟨fun hmem => (mem_cons.mp hmem).elim hne hnotMem, hlive0⟩

theorem Sound.ready_syncHeapLocked (h : Sound [] r) (hperm : order.Perm r.entries.keys)
    (hlive : (r.syncHeapLocked order).Live q reg) : Ready reg := by
  obtain ⟨-, -, hent, hready⟩ := h.syncHeapLocked order
  rcases hready q reg hlive with hdone | ⟨hnotMem, -⟩
  · exact hdone
  · have hlook := hlive.1
    rw [hent] at hlook
    exact absurd (hperm.mem_iff.mpr (mem_keys_iff_lookup.mpr ⟨q, hlook⟩)) hnotMem

theorem Sound.popDue (h : Sound out r) (now : Time) (maxBatch : Nat) :
    Sound ((IndexedHeap.popDue r.timers now maxBatch r.heap).1 ++ out)
      { r with heap := (IndexedHeap.popDue r.timers now maxBatch r.heap).2 } := by
  induction maxBatch generalizing r out with
  | zero => exact h
  | succ maxBatch ih =>
    rw [IndexedHeap.popDue]
    split
    · exact h
    · next top htop =>
      split_ifs
      · exact h
      · obtain ⟨t, ht, -⟩ := bind_eq_some_iff.mp htop
        obtain ⟨hpop, hplaced, hbag, -⟩ := Indexed.pop_spec (timerLess r.timers) h.placed ht
        have hrest := ih (h.takeOut ⟨(r.heap.h.pop (timerLess r.timers)).2, r.heap.seq⟩ hplaced hbag)
        simp only [hpop, toList_some, singleton_append]
        exact hrest.perm perm_middle.symm

/-- No registration moves on to another tick. -/
def Ticks (r r' : Registry) : Prop :=
  ∀ (q : Nat) (reg : PeriodicRegistration), r.regs[q]? = some reg →
    ∃ reg', r'.regs[q]? = some reg' ∧ reg'.due = reg.due ∧ reg'.runs = reg.runs

theorem Ticks.refl (r : Registry) : Ticks r r := fun _ reg hreg => ⟨reg, hreg, rfl, rfl⟩

theorem Ticks.trans (h : Ticks r r') (h' : Ticks r' r'') : Ticks r r'' := by
  intro q reg hreg
  obtain ⟨reg', hreg', hdue, hruns⟩ := h q reg hreg
  obtain ⟨reg'', hreg'', hdue', hruns'⟩ := h' q reg' hreg'
  exact ⟨reg'', hreg'', hdue'.trans hdue, hruns'.trans hruns⟩

theorem Kept.ticks (h : Kept r r') : Ticks r r' := by
  intro q reg hreg
  obtain ⟨reg', hreg', hbare⟩ := h.regs q reg hreg
  obtain ⟨_, rfl⟩ := PeriodicRegistration.of_bare hbare
  exact ⟨_, hreg', rfl, rfl⟩

theorem ticks_setReg (hq : r.regs[q]? = some reg) (reg' : PeriodicRegistration) (hdue : reg'.due = reg.due) (hruns : reg'.runs = reg.runs) :
    Ticks r (r.setReg q reg') := by
  intro q' reg₀ hreg0
  rw [getElem?_setReg hq]
  split_ifs with heq
  · subst heq
    obtain rfl := mem_unique hq hreg0
    exact ⟨reg', rfl, hdue, hruns⟩
  · exact ⟨reg₀, hreg0, rfl, rfl⟩

/-- Whatever has an occurrence had it before. -/
def Bound (r r' : Registry) : Prop :=
  ∀ q reg', r'.Live q reg' → reg'.occurrenceID ≠ [] → ∃ reg, r.Live q reg ∧ reg'.bare = reg.bare

theorem Bound.trans (h : Bound r r') (h' : Bound r' r'') : Bound r r'' := by
  intro q reg'' hlive hsome
  obtain ⟨reg', hlive', hbare⟩ := h' q reg'' hlive hsome
  obtain ⟨_, rfl⟩ := PeriodicRegistration.of_bare hbare
  obtain ⟨reg, hlive, hbare'⟩ := h q reg' hlive' hsome
  exact ⟨reg, hlive, hbare.trans hbare'⟩

theorem Kept.bound (h : Kept r r') (hsound : Sound out r') : Bound r r' := by
  intro q reg' hlive hsome
  rcases h.live q reg' hlive with hold | ⟨-, hidle⟩
  · exact hold
  · exact absurd ((hsound.regular q reg' hlive).idle hidle) hsome

theorem bound_setReg (hq : r.regs[q]? = some reg) (reg' : PeriodicRegistration) (hnone : reg'.occurrenceID = []) :
    Bound r (r.setReg q reg') := by
  intro q' reg₀ hlive0 hsome
  rcases live_setReg hq hlive0 with ⟨-, rfl⟩ | ⟨-, hlive0⟩
  · exact absurd hnone hsome
  · exact ⟨reg₀, hlive0, rfl⟩

/-- What `collectDueLocked` does with the popped entries. -/
structure Collected (r r' : Registry) (runs : List DueRun) : Prop where
  ticks : Ticks r r'
  bound : Bound r r'
  running : ∀ (q : Nat) (reg : PeriodicRegistration), r.regs[q]? = some reg → reg.running = true → r'.regs[q]? = some reg
  started : ∀ run ∈ runs, ∃ (q : Nat) (reg reg' : PeriodicRegistration), r.regs[q]? = some reg ∧ reg.running = false ∧
    r'.regs[q]? = some reg' ∧ reg'.due = run ∧ reg'.running = true ∧ reg'.occurrenceID = []
  nodup : (runs.map DueRun.generation).Nodup

theorem Sound.collectItem (h : Sound (t :: out) r) : ∃ q reg, r.Live q reg ∧ reg.running = false ∧
    r.collectItem t = (r.setReg q reg.started, [reg.due]) ∧ Sound out (r.collectItem t).1 := by
  obtain ⟨entry, reg, htimer, hdead, hlive, hentry⟩ := h.queued t (.inr (mem_cons_self ..))
  obtain ⟨hidle, _, htimed⟩ := h.timed _ reg t hlive hentry
  obtain rfl := some.inj (htimer.symm.trans htimed.timer)
  have hregular := h.regular _ reg hlive
  have hslot : reg.scheduledFor ≠ 0 := fun hzero => hdead (htimed.deadline.trans (hregular.slot hzero).1)
  have heq : r.collectItem t = (r.setReg entry.data reg.started, [reg.due]) := by
    unfold Registry.collectItem
    rw [htimer]
    dsimp only
    rw [hlive.2]
    dsimp only
    rw [if_neg (by simp [htimed.generation, hidle]), if_neg hslot]
    rfl
  refine ⟨entry.data, reg, hlive, hidle, heq, ?_⟩
  rw [heq]
  exact h.collect hlive hentry rfl rfl rfl
    ⟨fun hfalse => (by cases hfalse), fun hzero => absurd hzero hslot⟩

theorem Sound.collectItems (items : List Nat) (h : Sound (items ++ out) r) :
    Sound out (Registry.collectItems items r).1 ∧ Collected r (Registry.collectItems items r).1 (Registry.collectItems items r).2 := by
  induction items generalizing r with
  | nil => exact ⟨h, .refl r, fun _ reg hlive _ => ⟨reg, hlive, rfl⟩, fun _ _ hreg _ => hreg, by simp [Registry.collectItems],
      by simp [Registry.collectItems]⟩
  | cons t items ih =>
    obtain ⟨q, reg, hlive, hidle, heq, hsound⟩ := (show Sound (t :: (items ++ out)) r from h).collectItem
    obtain ⟨hsound', hcollected⟩ := ih hsound
    simp only [heq] at hsound' hcollected
    have hnone := (h.regular q reg hlive).idle hidle
    have hfirst : (r.setReg q reg.started).regs[q]? = some reg.started :=
      (getElem?_setReg hlive.2 _).trans (if_pos rfl)
    have hq := hcollected.running q _ hfirst rfl
    simp only [Registry.collectItems, heq, singleton_append]
    refine ⟨hsound', (ticks_setReg hlive.2 reg.started rfl rfl).trans hcollected.ticks,
      (bound_setReg hlive.2 reg.started hnone).trans hcollected.bound, ?_, ?_, ?_⟩
    · intro q' reg₀ hreg0 hrunning
      refine hcollected.running q' reg₀ ?_ hrunning
      rw [getElem?_setReg hlive.2, if_neg]
      · exact hreg0
      · rintro rfl
        obtain rfl := some.inj (hlive.2.symm.trans hreg0)
        rw [hidle] at hrunning
        cases hrunning
    · intro run hrun
      rcases mem_cons.mp hrun with rfl | hrun
      · exact ⟨q, reg, _, hlive.2, hidle, hq, rfl, rfl, hnone⟩
      · obtain ⟨q', reg₀, reg', hreg0, hidle0, hrest⟩ := hcollected.started run hrun
        rw [getElem?_setReg hlive.2] at hreg0
        split_ifs at hreg0
        · rw [← some.inj hreg0] at hidle0
          cases hidle0
        · exact ⟨q', reg₀, reg', hreg0, hidle0, hrest⟩
    · -- another run is that of another registration: this one runs already
      refine nodup_cons.mpr ⟨fun hmem => ?_, hcollected.nodup⟩
      obtain ⟨run, hrun, hgeneration⟩ := mem_map.mp hmem
      obtain ⟨q', reg₀, reg', hreg0, hidle0, hreg', rfl, -⟩ := hcollected.started run hrun
      have hgeneration' : reg'.generation = reg.generation := hgeneration
      have hgen := hsound'.generation q' reg' hreg'
      have hgen' := h.generation q reg hlive.2
      obtain rfl : q' = q := by omega
      obtain rfl := mem_unique hfirst hreg0
      cases hidle0

theorem Sound.collectDueLocked (h : Sound [] r) (now : Time) :
    Sound [] (r.collectDueLocked now).1 ∧ Collected r (r.collectDueLocked now).1 (r.collectDueLocked now).2 := by
  obtain ⟨hsound, hcollected⟩ := (h.popDue now 100).collectItems
  exact ⟨hsound, ⟨hcollected.ticks, hcollected.bound, hcollected.running, hcollected.started, hcollected.nodup⟩⟩

/-! ### Ends of submissions and ticks -/

/-- `bindOccurrence` reaches a running registration of the run's generation, or nothing. -/
theorem Sound.bindOccurrence (h : Sound [] r) (run : DueRun) (id : OccurrenceID) :
    r.bindOccurrence run id = (r, false) ∨
      ∃ q reg, r.Live q reg ∧ reg.generation = run.generation ∧ reg.running = true ∧
        r.bindOccurrence run id = (r.setReg q { reg with occurrenceID := id }, true) ∧ Sound [] (r.bindOccurrence run id).1 := by
  unfold Registry.bindOccurrence
  split
  · exact .inl rfl
  · next q reg hentry =>
    split_ifs with hrun
    · obtain ⟨-, hlive⟩ := h.entry? hentry
      have hregular := h.regular q reg hlive
      refine .inr ⟨q, reg, hlive, hrun.1, hrun.2, rfl, h.setRunning hlive hrun.2 rfl rfl rfl ?_⟩
      exact ⟨fun hidle => absurd (hrun.2.symm.trans hidle) (by simp), hregular.slot⟩
    · exact .inl rfl

theorem Sound.finishSubmission (h : Sound [] r) (now : Time) (run : DueRun) :
    r.finishSubmission now run = r ∨
      ∃ q reg, r.Live q reg ∧ reg.generation = run.generation ∧ reg.running = true ∧ reg.occurrenceID = [] ∧
        r.finishSubmission now run = r.setReg q { reg with running := false, nextRun := now + 200000000 } ∧
        Sound [] (r.finishSubmission now run) := by
  unfold Registry.finishSubmission
  split
  · exact .inl rfl
  · next q reg hentry =>
    split_ifs with hrun hslot
    · obtain ⟨-, hlive⟩ := h.entry? hentry
      have hidle := ((h.regular q reg hlive).slot hslot).2
      exact absurd (hrun.2.1.symm.trans hidle) (by simp)
    · obtain ⟨-, hlive⟩ := h.entry? hentry
      refine .inr ⟨q, reg, hlive, hrun.1, hrun.2.1, hrun.2.2, rfl,
        h.setRunning hlive hrun.2.1 rfl rfl rfl ?_⟩
      exact ⟨fun _ => hrun.2.2, fun hzero => absurd hzero hslot⟩
    · exact .inl rfl

/-- `reconcileOne` reaches the registration of the key if it waits for that occurrence, or nothing. -/
theorem Sound.reconcileOne (h : Sound [] r) (item : PendingReconcile) (finished : Time) (failed : Bool) (errText : GoString) :
    r.reconcileOne item finished failed errText = r ∨
      ∃ q reg, r.Live q reg ∧ reg.key = item.key ∧ reg.running = true ∧ reg.occurrenceID = item.occurrenceID ∧
        r.reconcileOne item finished failed errText = r.setReg q (reg.settled item finished failed errText) ∧
        Sound [] (r.reconcileOne item finished failed errText) := by
  unfold Registry.reconcileOne
  split
  · exact .inl rfl
  · next q reg hentry =>
    by_cases hrun : reg.running = true ∧ reg.occurrenceID = item.occurrenceID
    · rw [if_pos hrun]
      obtain ⟨hkey, hlive⟩ := h.entry? hentry
      exact .inr ⟨q, reg, hlive, hkey, hrun.1, hrun.2, rfl,
        h.setRunning hlive hrun.1 rfl rfl rfl ⟨fun _ => rfl, fun hzero => ⟨hzero, rfl⟩⟩⟩
    · rw [if_neg hrun]
      exact .inl rfl

/-! ### Where registrations stand -/

def queuedCount (r : Registry) (q : Nat) : Nat :=
  r.heap.h.items.toList.countP fun t => r.timers[t]?.map TimerEntry.data == some q

/-- In the heap once, with the deadline of its next run. -/
def Queued (r : Registry) (q : Nat) (reg : PeriodicRegistration) : Prop :=
  r.queuedCount q = 1 ∧ ∃ t entry, t ∈ r.heap.h.items ∧ r.timers[t]? = some entry ∧ entry.data = q ∧ entry.deadline = reg.nextRun

/-- A live registration runs, is queued, or waits for `syncHeapLocked`; the heap refuses the zero time. -/
inductive Standing (r : Registry) (q : Nat) (reg : PeriodicRegistration) : Prop where
  | running (hrunning : reg.running = true) (habsent : r.queuedCount q = 0)
  | queued (hidle : reg.running = false) (hqueued : r.Queued q reg)
  | waiting (hidle : reg.running = false) (habsent : r.queuedCount q = 0) (hentry : reg.heapEntry = none ∨ reg.nextRun = 0)

section

variable (h : Sound [] r)
include h

section

variable (hlive : r.Live q reg)
include hlive

theorem Sound.queued_iff (ht : t ∈ r.heap.h.items) : (r.timers[t]?.map TimerEntry.data == some q) = true ↔ reg.heapEntry = some t := by
  obtain ⟨_, _, htimer, -, hlive0, hentry⟩ := h.queued t (.inl ht)
  rw [htimer, map_some, beq_iff_eq, some_inj]
  constructor
  · rintro rfl
    rw [← hlive.unique hlive0]
    exact hentry
  · intro hsome
    obtain ⟨-, _, htimed⟩ := h.timed q reg t hlive hsome
    rw [some.inj (htimer.symm.trans htimed.timer)]
    exact htimed.data

theorem Sound.queuedCount_zero (hout : ∀ t, reg.heapEntry = some t → t ∉ r.heap.h.items) : r.queuedCount q = 0 := by
  refine countP_eq_zero.mpr fun t ht hdata => ?_
  have hitems := mem_toList_iff.mp ht
  exact hout t ((h.queued_iff hlive hitems).mp hdata) hitems

theorem Sound.queuedCount_one (hentry : reg.heapEntry = some t) (ht : t ∈ r.heap.h.items) : r.queuedCount q = 1 := by
  have hcongr : r.queuedCount q = r.heap.h.items.toList.countP (· == t) := by
    refine countP_congr fun u hu => ?_
    rw [h.queued_iff hlive (mem_toList_iff.mp hu), hentry, some_inj, beq_iff_eq]
    exact eq_comm
  rw [hcongr]
  exact count_eq_one_of_mem h.nodup.of_append_left (mem_toList_iff.mpr ht)

theorem Sound.standing : Standing r q reg := by
  cases hentry : reg.heapEntry with
  | none =>
    have habsent := h.queuedCount_zero hlive fun t ht => by rw [hentry] at ht; cases ht
    cases hrunning : reg.running with
    | true => exact .running hrunning habsent
    | false => exact .waiting hrunning habsent (.inl hentry)
  | some t =>
    obtain ⟨hidle, entry, htimed⟩ := h.timed q reg t hlive hentry
    by_cases ht : t ∈ r.heap.h.items
    · exact .queued hidle ⟨h.queuedCount_one hlive hentry ht, t, entry, ht, htimed.timer, htimed.data, htimed.deadline⟩
    · have habsent := h.queuedCount_zero hlive fun u hu hitems => by
        rw [hentry] at hu
        exact ht (some.inj hu ▸ hitems)
      rcases htimed.held with hzero | hitems | hout
      · exact .waiting hidle habsent (.inr (htimed.deadline.symm.trans hzero))
      · exact absurd hitems ht
      · cases hout

end

theorem Sound.standing_synced (hperm : order.Perm r.entries.keys) (hlive : (r.syncHeapLocked order).Live q reg) :
    reg.running = true ∧ (r.syncHeapLocked order).queuedCount q = 0 ∨ reg.running = false ∧ (r.syncHeapLocked order).Queued q reg ∨
      reg.nextRun = 0 := by
  obtain ⟨hsound, -⟩ := h.syncHeapLocked order
  rcases hsound.standing hlive with ⟨hrunning, habsent⟩ | ⟨hidle, hqueued⟩ | ⟨hidle, habsent, hnone | hzero⟩
  · exact .inl ⟨hrunning, habsent⟩
  · exact .inr (.inl ⟨hidle, hqueued⟩)
  · rcases h.ready_syncHeapLocked hperm hlive with hrunning | hsome
    · rw [hidle] at hrunning
      cases hrunning
    · exact absurd hnone hsome
  · exact .inr (.inr hzero)

end

end Registry

end Goultroid.Periodic
