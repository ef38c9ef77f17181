import Goultroid.Admission.Controller
import Goultroid.Lib.Precedence
import Mathlib.Algebra.BigOperators.Group.Multiset.Basic
import Mathlib.Data.Multiset.Filter
import Mathlib.Algebra.Group.Pi.Basic

/-!
# What the controller holds

The abstract content of the controller is one multiset, the entries waiting in it. `Controller.Wf`
says that everything else is a function of that content: each entry sits in the queue of its own
pool, class and owner, the totals and owner counters are its count and its bytes, the deadline
heaps hold the entries with a deadline, the index by task is exact, and every queue with content is
in rotation. Every operation adds or takes entries and keeps `Wf`.

`PopExpired` empties the deadline heap before it touches the queues, so the invariant carries the
entries `lost` to each pool's heap that are still to be taken out of its queues.

An operation on one entry has two halves: what its pool gains or loses (`PoolState.Wf`), and what
the counters of its owner make of it (`Wf.take`). The order of the queues is followed beside that:
`Trims` says that entries only leave, and that those that stay keep their order.
-/

namespace Goultroid.Admission

open List Multiset AList Option Array Heap

variable {entry : QueueEntry} {ps ps' : PoolState} {cls : PriorityClass} {owner : OwnerID} {pool : PoolID} {lost : Multiset QueueEntry}
  {d : Array QueueEntry}

/-! ### Queues and heaps as bags -/

theorem ReadyQueue.perm_remove {q : ReadyQueue} (hids : (q.map (·.spec.id)).Nodup) (hmem : entry ∈ q) :
    q.Perm (entry :: ReadyQueue.remove q entry.spec.id) := by
  induction q with
  | nil => cases hmem
  | cons head rest ih =>
    rw [List.map_cons, List.nodup_cons] at hids
    rw [ReadyQueue.remove, eraseP_cons]
    by_cases hid : head.spec.id = entry.spec.id
    · -- the first entry with the task's id is the entry itself
      have hhead : entry = head := by
        rcases mem_cons.mp hmem with h | h
        · exact h
        · exact absurd (List.mem_map.mpr ⟨entry, h, hid.symm⟩) hids.1
      subst hhead
      simp
    · have hrest : entry ∈ rest := by
        rcases mem_cons.mp hmem with h | h
        · exact absurd (congrArg (fun x => x.spec.id) h.symm) hid
        · exact h
      have hne : (head.spec.id == entry.spec.id) = false := by simpa using hid
      rw [hne]
      exact ((ih hids.2 hrest).cons head).trans (List.Perm.swap _ _ _)

theorem DeadlineIndex.bag_push (d : DeadlineIndex) (entry : QueueEntry) : Heap.bag (DeadlineIndex.push d entry) =
      (if entry.spec.queueDeadline ≠ 0 then {entry} else 0) + Heap.bag d := by
  by_cases h : entry.spec.queueDeadline = 0
  · simp [DeadlineIndex.push, h]
  · rw [DeadlineIndex.push, if_neg h, if_pos h, Heap.bag_push, Multiset.singleton_add]

theorem DeadlineIndex.bag_remove (hmem : entry ∈ Heap.bag d) : Heap.bag d = entry ::ₘ Heap.bag (DeadlineIndex.remove d entry) := by
  have hd : entry ∈ d := by simpa [Heap.bag] using hmem
  rw [DeadlineIndex.remove]
  cases hidx : d.findIdx? (· == entry) with
  | none =>
    rw [Array.findIdx?_eq_none_iff] at hidx
    simpa using hidx entry hd
  | some =>
    obtain ⟨hlt, hat, -⟩ := findIdx?_eq_some_iff_getElem.mp hidx
    refine Heap.bag_remove _ ?_
    rw [Array.getElem?_eq_getElem hlt]
    simpa using hat

theorem DeadlineIndex.remove_of_notMem (hmem : entry ∉ Heap.bag d) : DeadlineIndex.remove d entry = d := by
  have hnone : d.findIdx? (· == entry) = none := by
    rw [Array.findIdx?_eq_none_iff]
    intro x hx
    have hne : x ≠ entry := by
      rintro rfl
      exact hmem (by simpa [Heap.bag] using hx)
    simpa using hne
  rw [DeadlineIndex.remove, hnone]

theorem DeadlineIndex.bag_popExpiredLoop (now : Time) (fuel : Nat) (d : DeadlineIndex) :
    Heap.bag d = (popExpiredLoop now fuel d).1 + Heap.bag (popExpiredLoop now fuel d).2 ∧
      ∀ entry ∈ (popExpiredLoop now fuel d).1, entry.spec.queueDeadline ≤ now := by
  induction fuel generalizing d with
  | zero => exact ⟨by simp [popExpiredLoop], by simp [popExpiredLoop]⟩
  | succ fuel ih =>
    rw [popExpiredLoop]
    cases htop : d[0]? with
    | none => simp
    | some =>
      dsimp only
      split_ifs with hlate
      · simp
      · obtain ⟨hbag, hold⟩ := ih (Heap.pop DeadlineIndex.less d).2
        refine ⟨?_, ?_⟩
        · rw [bag_pop DeadlineIndex.less htop, hbag, ← cons_coe, cons_add]
        · intro entry hentry
          rcases mem_cons.mp hentry with rfl | hentry
          · exact not_lt.mp hlate
          · exact hold entry hentry

/-! ### The content of a pool -/

/-- What one ready queue adds to the content of its pool. -/
def bagOf (_ : PriorityClass × OwnerID) (rq : ReadyQueue) : Multiset QueueEntry := ↑rq

def PoolState.waiting (ps : PoolState) : Multiset QueueEntry :=
  AList.total bagOf ps.queues

theorem PoolState.waiting_eq (ps : PoolState) (cls : PriorityClass) (owner : OwnerID) :
    ps.waiting = (ps.queue cls owner : Multiset QueueEntry) + AList.total bagOf (ps.queues.erase (cls, owner)) := by
  rw [waiting, queue]
  cases hq : ps.queues.lookup (cls, owner) with
  | none => simp [getD_of_none hq, erase_of_none hq]
  | some => rw [getD_of_lookup hq]; exact total_eq_add_erase _ hq

theorem PoolState.mem_waiting_of_queue (h : entry ∈ ps.queue cls owner) : entry ∈ ps.waiting := by
  rw [ps.waiting_eq cls owner]
  exact mem_add.mpr (.inl (by simpa using h))

/-- The invariant of one pool, up to the entries `lost` to its deadline heap. -/
structure PoolState.Wf (pool : PoolID) (lost : Multiset QueueEntry) (ps : PoolState) : Prop where
  home : ∀ key rq, ps.queues.lookup key = some rq → ∀ entry ∈ rq,
    entry.spec.pool = pool ∧ key = (fileClass entry.spec, entry.spec.quotaOwner)
  count : ps.totalWaiting = ps.waiting.card
  bytes : ps.totalBytes = (ps.waiting.map (·.payloadSize)).sum
  deadlines : Heap.bag ps.deadlineIndex + lost = ps.waiting.filter (·.spec.queueDeadline ≠ 0)
  rotation : ∀ cls owner, ps.queue cls owner ≠ [] →
    cls ∈ ps.activeClasses ∧ owner ∈ ps.activeOwners.getD cls []

namespace PoolState.Wf

section

variable (h : ps.Wf pool lost)
include h

theorem home_queue (hmem : entry ∈ ps.queue cls owner) :
    entry.spec.pool = pool ∧ (cls, owner) = (fileClass entry.spec, entry.spec.quotaOwner) := by
  cases hq : ps.queues.lookup (cls, owner) with
  | none => simp [PoolState.queue, AList.getD, hq] at hmem
  | some rq =>
    rw [PoolState.queue, getD_of_lookup hq] at hmem
    exact h.home _ rq hq entry hmem

theorem mem_waiting : entry ∈ ps.waiting ↔ entry ∈ ps.queue (fileClass entry.spec) entry.spec.quotaOwner := by
  constructor
  · intro hmem
    obtain ⟨key, rq, hq, hin⟩ := mem_total.mp hmem
    have hin' : entry ∈ rq := by simpa [bagOf] using hin
    obtain ⟨-, hkey⟩ := h.home key rq hq entry hin'
    rw [PoolState.queue, ← hkey, getD_of_lookup hq]
    exact hin'
  · exact PoolState.mem_waiting_of_queue

theorem pool_eq (hmem : entry ∈ ps.waiting) : entry.spec.pool = pool :=
  (h.home_queue (h.mem_waiting.mp hmem)).1

/-- What happens to a pool when one of its entries leaves, from the queue and from the heap. -/
theorem take {lost' : Multiset QueueEntry} (hids : (ps.waiting.map (·.spec.id)).Nodup) (hmem : entry ∈ ps.waiting)
    (hqueues : ps'.queues = ps.queues.insert (fileClass entry.spec, entry.spec.quotaOwner)
      (ReadyQueue.remove (ps.queue (fileClass entry.spec) entry.spec.quotaOwner) entry.spec.id))
    (hcount : ps'.totalWaiting = ps.totalWaiting - 1) (hbytes : ps'.totalBytes = ps.totalBytes - entry.payloadSize)
    (hdead : Heap.bag ps.deadlineIndex + lost =
      (if entry.spec.queueDeadline ≠ 0 then {entry} else 0) + (Heap.bag ps'.deadlineIndex + lost'))
    (hclasses : ps'.activeClasses = ps.activeClasses) (hown : ps'.activeOwners = ps.activeOwners) :
    ps'.Wf pool lost' ∧ ps.waiting = entry ::ₘ ps'.waiting := by
  set cls := fileClass entry.spec
  set owner := entry.spec.quotaOwner
  have hin : entry ∈ ps.queue cls owner := h.mem_waiting.mp hmem
  have hsplit := ps.waiting_eq cls owner
  have hnodup : ((ps.queue cls owner).map (·.spec.id)).Nodup := by
    rw [hsplit, map_add] at hids
    have := (nodup_add.mp hids).1
    simpa using this
  have hperm := ReadyQueue.perm_remove hnodup hin
  have hwait : ps.waiting = entry ::ₘ ps'.waiting := by
    rw [hsplit, PoolState.waiting, hqueues, total_insert, bagOf, ← cons_add,
      cons_coe, coe_eq_coe.mpr hperm]
  have hsub : ∀ cls' owner', ps'.queue cls' owner' ⊆ ps.queue cls' owner' := by
    intro cls' owner' x hx
    rw [PoolState.queue, hqueues, getD_insert] at hx
    split_ifs at hx with heq
    · obtain ⟨rfl, rfl⟩ := Prod.mk.inj heq
      exact mem_of_mem_eraseP hx
    · exact hx
  refine ⟨⟨?_, ?_, ?_, ?_, ?_⟩, hwait⟩
  · intro key rq hq x hx
    have hx' : x ∈ ps'.queue key.1 key.2 := by rwa [PoolState.queue, getD_of_lookup hq]
    exact h.home_queue (hsub _ _ hx')
  · rw [hcount, h.count, hwait, card_cons]
    omega
  · rw [hbytes, h.bytes, hwait, Multiset.map_cons, Multiset.sum_cons]
    omega
  · have hd := h.deadlines
    rw [hdead, hwait, Multiset.filter_cons] at hd
    exact add_left_cancel hd
  · intro cls' owner' hne
    rw [hclasses, hown]
    refine h.rotation cls' owner' fun hnil => hne ?_
    exact eq_nil_of_subset_nil (hnil ▸ hsub cls' owner')

end

end PoolState.Wf

theorem unfileEntry_wf {lost' : Multiset QueueEntry} (h : ps.Wf pool lost)
    (hids : (ps.waiting.map (·.spec.id)).Nodup) (hmem : entry ∈ ps.waiting) (hd : Heap.bag ps.deadlineIndex + lost =
      (if entry.spec.queueDeadline ≠ 0 then {entry} else 0) + (Heap.bag d + lost')) : (Controller.unfileEntry ps entry d).Wf pool lost' ∧
      ps.waiting = entry ::ₘ (Controller.unfileEntry ps entry d).waiting := by
  have hin := h.mem_waiting.mp hmem
  refine h.take hids hmem ?_ rfl rfl hd rfl rfl
  cases hq : ps.queues.lookup (fileClass entry.spec, entry.spec.quotaOwner) with
  | none => simp [PoolState.queue, getD_of_none hq] at hin
  | some => simp [Controller.unfileEntry, hq, PoolState.queue, getD_of_lookup hq]

/-- What `Enqueue` does to the rotation: the class and the owner are in it, nobody leaves, and no
other field changes. -/
structure InRotation (cls : PriorityClass) (owner : OwnerID) (ps ps' : PoolState) : Prop where
  queues : ps'.queues = ps.queues
  totalWaiting : ps'.totalWaiting = ps.totalWaiting
  totalBytes : ps'.totalBytes = ps.totalBytes
  deadlineIndex : ps'.deadlineIndex = ps.deadlineIndex
  cls_mem : cls ∈ ps'.activeClasses
  owner_mem : owner ∈ ps'.activeOwners.getD cls []
  classes : ps.activeClasses ⊆ ps'.activeClasses
  owners : ∀ cls', ps.activeOwners.getD cls' [] ⊆ ps'.activeOwners.getD cls' []

theorem ensureActive_inRotation (c : Controller) (cls : PriorityClass) (owner : OwnerID) : InRotation cls owner ps
      (c.ensureActiveOwner (Controller.ensureActiveClass ps cls) cls owner) := by
  have hgrow : ∀ cls', ps.activeOwners.getD cls' [] ⊆
      (ps.activeOwners.insert cls (ps.activeOwners.getD cls [] ++ [owner])).getD cls' [] := by
    intro cls'
    rw [getD_insert]
    split_ifs with heq
    · subst heq; simp
    · exact List.Subset.refl _
  unfold Controller.ensureActiveOwner Controller.ensureActiveClass
  by_cases hc : cls ∈ ps.activeClasses <;> by_cases ho : owner ∈ ps.activeOwners.getD cls []
  · constructor <;> simp [hc, ho]
  · constructor <;> simp only [hc, ho, if_true, if_false] <;> split_ifs <;> simp [hc, hgrow]
  · constructor <;> simp [hc, ho]
  · constructor <;> simp only [hc, ho, if_false] <;> split_ifs <;> simp [hgrow]

theorem bagOf_push {key : PriorityClass × OwnerID} {rq : ReadyQueue} :
    bagOf key (ReadyQueue.push rq entry) = entry ::ₘ (rq : Multiset QueueEntry) :=
  coe_eq_coe.mpr (perm_append_singleton entry rq)

theorem fileEntry_wf (h : ps.Wf pool lost) (hpool : entry.spec.pool = pool)
    (hrotation : InRotation (fileClass entry.spec) entry.spec.quotaOwner
      (Controller.fileEntry ps (fileClass entry.spec) entry.spec.quotaOwner entry) ps') :
    ps'.Wf pool lost ∧ ps'.waiting = entry ::ₘ ps.waiting := by
  set cls := fileClass entry.spec
  set owner := entry.spec.quotaOwner
  have hwait : ps'.waiting = entry ::ₘ ps.waiting := by
    rw [PoolState.waiting, hrotation.queues, Controller.fileEntry, total_insert,
      ps.waiting_eq cls owner, bagOf_push, cons_add]
  have hqueue : ∀ cls' owner', ps'.queue cls' owner' =
      if (cls', owner') = (cls, owner) then ps.queue cls owner ++ [entry] else ps.queue cls' owner' := by
    intro cls' owner'
    rw [PoolState.queue, hrotation.queues, Controller.fileEntry, getD_insert]
    rfl
  refine ⟨⟨?_, ?_, ?_, ?_, ?_⟩, hwait⟩
  · intro key rq hq x hx
    have hx' : x ∈ ps'.queue key.1 key.2 := by rwa [PoolState.queue, getD_of_lookup hq]
    rw [hqueue] at hx'
    split_ifs at hx' with heq
    · rcases mem_append.mp hx' with hx' | hx'
      · have := h.home_queue hx'
        exact ⟨this.1, heq.trans this.2⟩
      · obtain rfl := List.mem_singleton.mp hx'
        exact ⟨hpool, heq⟩
    · exact h.home_queue hx'
  · rw [hrotation.totalWaiting, hwait, card_cons, Controller.fileEntry]
    simp [h.count]
  · rw [hrotation.totalBytes, hwait, Multiset.map_cons, Multiset.sum_cons, Controller.fileEntry]
    simp [h.bytes, add_comm]
  · rw [hrotation.deadlineIndex, hwait, Multiset.filter_cons, Controller.fileEntry, ← h.deadlines,
      DeadlineIndex.bag_push, add_assoc]
  · intro cls' owner' hne
    rw [hqueue] at hne
    by_cases heq : (cls', owner') = (cls, owner)
    · obtain ⟨rfl, rfl⟩ := Prod.mk.inj heq
      exact ⟨hrotation.cls_mem, hrotation.owner_mem⟩
    · rw [if_neg heq] at hne
      have := h.rotation cls' owner' hne
      exact ⟨hrotation.classes this.1, hrotation.owners cls' this.2⟩

/-! ### The content of the controller -/

namespace Controller

variable {c₁ c₂ c₃ : Controller} {o : OwnerID} {cfg : PoolConfig}

def waiting (c : Controller) : Multiset QueueEntry := AList.total (fun _ ps => ps.waiting) c.pools

/-- Everything the controller keeps about its waiting entries is a function of `waiting`. -/
structure Wf (lost : PoolID → Multiset QueueEntry) (c : Controller) : Prop where
  pools : ∀ pool ps, c.pools.lookup pool = some ps → ps.Wf pool (lost pool)
  unique : (c.waiting.map (·.spec.id)).Nodup
  ownerCount : ∀ owner, c.ownerWaitingCount.getD owner 0 =
    (c.waiting.filter (·.spec.quotaOwner = owner)).card
  ownerBytes : ∀ owner, c.ownerWaitingBytes.getD owner 0 =
    ((c.waiting.filter (·.spec.quotaOwner = owner)).map (·.payloadSize)).sum
  byID : ∀ id entry, c.taskByID.lookup id = some entry ↔ entry ∈ c.waiting ∧ entry.spec.id = id

variable {c : Controller} {lost : PoolID → Multiset QueueEntry} {a b : QueueEntry}

theorem waiting_eq (hps : c.pools.lookup pool = some ps) :
    c.waiting = ps.waiting + AList.total (fun _ ps => ps.waiting) (c.pools.erase pool) :=
  total_eq_add_erase _ hps

theorem waiting_setPool (c : Controller) (pool : PoolID) (ps : PoolState) : (c.setPool pool ps).waiting =
    ps.waiting + AList.total (fun _ ps => ps.waiting) (c.pools.erase pool) :=
  total_insert _ _ _ _

theorem Wf.pool_unique (h : c.Wf lost) (hps : c.pools.lookup pool = some ps) : (ps.waiting.map (·.spec.id)).Nodup := by
  have hu := h.unique
  rw [waiting_eq hps, map_add] at hu
  exact (nodup_add.mp hu).1

theorem Wf.pool_of_mem (h : c.Wf lost) (hmem : entry ∈ c.waiting) :
    ∃ ps, c.pools.lookup entry.spec.pool = some ps ∧ entry ∈ ps.waiting := by
  obtain ⟨p, ps, hps, hin⟩ := mem_total.mp hmem
  have hp := (h.pools p ps hps).pool_eq hin
  exact ⟨ps, hp ▸ hps, hin⟩

/-- What an operation on waiting entries leaves alone: limits, locks, active counts and the set of
pools. -/
structure Frame (c c' : Controller) : Prop where
  limits : c'.ownerLimits = c.ownerLimits
  locks : c'.orderingLocks = c.orderingLocks
  active : ∀ owner, c'.ownerActiveCount.getD owner 0 = c.ownerActiveCount.getD owner 0
  pools : ∀ pool, (c'.pools.lookup pool).isSome = (c.pools.lookup pool).isSome

theorem Frame.refl (c : Controller) : Frame c c := ⟨rfl, rfl, fun _ => rfl, fun _ => rfl⟩

theorem Frame.trans (h : Frame c₁ c₂) (h' : Frame c₂ c₃) : Frame c₁ c₃ :=
  ⟨h'.limits.trans h.limits, h'.locks.trans h.locks, fun o => (h'.active o).trans (h.active o),
    fun p => (h'.pools p).trans (h.pools p)⟩

/-- `a` waits in front of `b`, in the same queue. -/
def Precedes (c : Controller) (a b : QueueEntry) : Prop :=
  ∃ pool ps cls owner, c.pools.lookup pool = some ps ∧ Before (ps.queue cls owner) a b

/-- Entries only leave, and those that stay keep their order. -/
structure Trims (c c' : Controller) : Prop extends Frame c c' where
  order : ∀ a b, c'.Precedes a b → c.Precedes a b

theorem Trims.refl (c : Controller) : Trims c c := ⟨Frame.refl c, fun _ _ h => h⟩

theorem Trims.trans (h : Trims c₁ c₂) (h' : Trims c₂ c₃) : Trims c₁ c₃ :=
  ⟨h.toFrame.trans h'.toFrame, fun a b hab => h.order a b (h'.order a b hab)⟩

theorem setPool_frame (hps : c.pools.lookup pool = some ps) (ps' : PoolState) : Frame c (c.setPool pool ps') := by
  refine ⟨rfl, rfl, fun _ => rfl, fun p => ?_⟩
  rw [setPool, lookup_insert_eq]
  split_ifs with hp
  · subst hp; simp [hps]
  · rfl

theorem setPool_trims (hps : c.pools.lookup pool = some ps) (ps' : PoolState)
    (hsub : ∀ cls owner, (ps'.queue cls owner).Sublist (ps.queue cls owner)) : Trims c (c.setPool pool ps') := by
  refine ⟨setPool_frame hps ps', ?_⟩
  rintro a b ⟨p, q, cls, owner, hq, hbefore⟩
  rcases of_lookup_insert hq with ⟨hp, rfl⟩ | ⟨hp, hq⟩
  · exact ⟨pool, ps, cls, owner, hps, hbefore.mono (hsub cls owner)⟩
  · exact ⟨p, q, cls, owner, hq, hbefore⟩

section

variable (h : c.Wf lost)
include h

theorem Wf.precedes_total (ha : a ∈ c.waiting) (hb : b ∈ c.waiting) (hne : a ≠ b) (hpool : a.spec.pool = b.spec.pool)
    (hcls : fileClass a.spec = fileClass b.spec) (howner : a.spec.quotaOwner = b.spec.quotaOwner) : c.Precedes a b ∨ c.Precedes b a := by
  obtain ⟨ps, hps, hin⟩ := h.pool_of_mem ha
  obtain ⟨ps', hps', hin'⟩ := h.pool_of_mem hb
  rw [hpool, hps'] at hps
  cases hps
  have hpoolw := h.pools _ _ hps'
  have hqa := hpoolw.mem_waiting.mp hin
  have hqb := hpoolw.mem_waiting.mp hin'
  rw [hcls, howner] at hqa
  exact (before_total hqa hqb hne).imp (fun h => ⟨_, _, _, _, hps', h⟩) fun h => ⟨_, _, _, _, hps', h⟩

theorem Wf.queue_nodup (hps : c.pools.lookup pool = some ps) : (ps.queue cls owner).Nodup := by
  have hu := h.pool_unique hps
  rw [ps.waiting_eq cls owner, map_add] at hu
  have hids : ((ps.queue cls owner).map (·.spec.id)).Nodup := by
    simpa using (nodup_add.mp hu).1
  exact Nodup.of_map _ hids

theorem Wf.of_precedes (hab : c.Precedes a b) : ∃ ps, c.pools.lookup b.spec.pool = some ps ∧
      Before (ps.queue (fileClass b.spec) b.spec.quotaOwner) a b ∧ a.spec.pool = b.spec.pool ∧
      fileClass a.spec = fileClass b.spec ∧ a.spec.quotaOwner = b.spec.quotaOwner := by
  obtain ⟨p, ps, cls, _, hps, hbefore⟩ := hab
  obtain ⟨hpa, hka⟩ := (h.pools _ _ hps).home_queue hbefore.mem_left
  obtain ⟨rfl, hkb⟩ := (h.pools _ _ hps).home_queue hbefore.mem_right
  obtain ⟨rfl, rfl⟩ := Prod.mk.inj hkb
  obtain ⟨hcls, howner⟩ := Prod.mk.inj hka
  exact ⟨ps, hps, hbefore, hpa, hcls.symm, howner.symm⟩

theorem Wf.mem_of_precedes (hab : c.Precedes a b) : a ∈ c.waiting ∧ b ∈ c.waiting := by
  obtain ⟨ps, hps, hbefore, -⟩ := h.of_precedes hab
  rw [waiting_eq hps]
  exact ⟨mem_add.mpr (.inl (PoolState.mem_waiting_of_queue hbefore.mem_left)),
    mem_add.mpr (.inl (PoolState.mem_waiting_of_queue hbefore.mem_right))⟩

theorem Wf.precedes_asymm (hab : c.Precedes a b) : ¬ c.Precedes b a := by
  intro hba
  obtain ⟨ps, hps, hbefore, hpool, hcls, howner⟩ := h.of_precedes hab
  obtain ⟨ps', hps', hbefore', -⟩ := h.of_precedes hba
  rw [hpool, hps] at hps'
  cases hps'
  rw [hcls, howner] at hbefore'
  exact before_asymm (h.queue_nodup hps) hbefore hbefore'

theorem Trims.order_of_same {lost1 lost2 : PoolID → Multiset QueueEntry}
    (hwf1 : c₁.Wf lost1) (hwf2 : c₂.Wf lost2) (h1 : Trims c c₁) (h2 : Trims c c₂) (hsame : c₁.waiting = c₂.waiting)
    (hab : c₂.Precedes a b) : c₁.Precedes a b := by
  obtain ⟨ha, hb⟩ := hwf2.mem_of_precedes hab
  obtain ⟨-, -, -, hpool, hcls, howner⟩ := hwf2.of_precedes hab
  have hne : a ≠ b := by
    rintro rfl
    exact hwf2.precedes_asymm hab hab
  rw [← hsame] at ha hb
  rcases hwf1.precedes_total ha hb hne hpool hcls howner with h' | h'
  · exact h'
  · exact absurd (h1.order b a h') (h.precedes_asymm (h2.order a b hab))

end

/-! ### Counters after compaction -/

/-- Compaction drops only counters that read zero, so it changes no reading. -/
theorem compactOwnerCounters_getD : (c.compactOwnerCounters owner).ownerWaitingCount.getD o 0 = c.ownerWaitingCount.getD o 0 ∧
      (c.compactOwnerCounters owner).ownerWaitingBytes.getD o 0 = c.ownerWaitingBytes.getD o 0 ∧
      (c.compactOwnerCounters owner).ownerActiveCount.getD o 0 = c.ownerActiveCount.getD o 0 := by
  simp only [compactOwnerCounters]
  refine ⟨?_, ?_, ?_⟩ <;> split_ifs with h
  iterate 3
    · exact getD_erase_of_default h
    · rfl

theorem forgetWaiting_frame : Frame c (c.forgetWaiting owner entry) :=
  ⟨rfl, rfl, fun _ => compactOwnerCounters_getD.2.2, fun _ => rfl⟩

theorem forgetWaiting_trims (c : Controller) (owner : OwnerID) (entry : QueueEntry) : Trims c (c.forgetWaiting owner entry) :=
  ⟨forgetWaiting_frame, fun _ _ h => h⟩

theorem forgetWaiting_count : (c.forgetWaiting owner entry).ownerWaitingCount.getD o 0 =
      c.ownerWaitingCount.getD o 0 - if o = owner then 1 else 0 := by
  refine compactOwnerCounters_getD.1.trans ?_
  rw [getD_insert]
  split_ifs with h
  · rw [h]
  · omega

theorem forgetWaiting_bytes : (c.forgetWaiting owner entry).ownerWaitingBytes.getD o 0 =
      c.ownerWaitingBytes.getD o 0 - if o = owner then entry.payloadSize else 0 := by
  refine compactOwnerCounters_getD.2.1.trans ?_
  rw [getD_insert]
  split_ifs with h
  · rw [h]
  · omega

/-! ### Entries come and go -/

/-- One entry leaves: its pool has let go of it and its owner's counters follow. -/
theorem Wf.take (lost' : PoolID → Multiset QueueEntry) (h : c.Wf lost) (hps : c.pools.lookup pool = some ps)
    (hwf : ps'.Wf pool (lost' pool))
    (hw : ps.waiting = entry ::ₘ ps'.waiting) (hlost : ∀ p, p ≠ pool → lost' p = lost p) :
    let c' := (c.setPool pool ps').forgetWaiting entry.spec.quotaOwner entry
    c'.Wf lost' ∧ c.waiting = entry ::ₘ c'.waiting := by
  intro c'
  have hwait : c.waiting = entry ::ₘ c'.waiting := by
    have hc' : c'.waiting = _ := waiting_setPool c pool ps'
    rw [hc', waiting_eq hps, hw, cons_add]
  refine ⟨⟨?_, ?_, ?_, ?_, ?_⟩, hwait⟩
  · intro p q hq
    rcases of_lookup_insert hq with ⟨hp, rfl⟩ | ⟨hp, hq⟩
    · exact hp ▸ hwf
    · rw [hlost p hp]
      exact h.pools p q hq
  · have := h.unique
    rw [hwait, Multiset.map_cons, Multiset.nodup_cons] at this
    exact this.2
  · intro o
    have hc := h.ownerCount o
    rw [hwait, Multiset.filter_cons] at hc
    rw [forgetWaiting_count]
    by_cases ho : entry.spec.quotaOwner = o
    · rw [if_pos ho, card_add, card_singleton] at hc
      rw [if_pos ho.symm]
      show c.ownerWaitingCount.getD o 0 - 1 = _
      rw [hc]; push_cast; omega
    · rw [if_neg ho, zero_add] at hc
      rw [if_neg (Ne.symm ho), Int.sub_zero]
      exact hc
  · intro o
    have hb := h.ownerBytes o
    rw [hwait, Multiset.filter_cons] at hb
    rw [forgetWaiting_bytes]
    by_cases ho : entry.spec.quotaOwner = o
    · rw [if_pos ho, Multiset.map_add, Multiset.sum_add, Multiset.map_singleton,
        Multiset.sum_singleton] at hb
      rw [if_pos ho.symm]
      show c.ownerWaitingBytes.getD o 0 - entry.payloadSize = _
      rw [hb]; omega
    · rw [if_neg ho, zero_add] at hb
      rw [if_neg (Ne.symm ho), Int.sub_zero]
      exact hb
  · intro id x
    show (c.taskByID.erase entry.spec.id).lookup id = some x ↔ _
    have hnot : ∀ y ∈ c'.waiting, y.spec.id ≠ entry.spec.id := by
      have hu := h.unique
      rw [hwait, Multiset.map_cons, Multiset.nodup_cons] at hu
      intro y hy heq
      exact hu.1 (heq ▸ mem_map_of_mem _ hy)
    rw [lookup_erase_eq]
    by_cases hid : id = entry.spec.id
    · rw [if_pos hid]
      constructor
      · intro hx; cases hx
      · rintro ⟨hx, hxid⟩
        exact absurd (hxid.trans hid) (hnot x hx)
    · rw [if_neg hid, h.byID, hwait, Multiset.mem_cons]
      constructor
      · rintro ⟨rfl | hx, hxid⟩
        · exact absurd hxid.symm hid
        · exact ⟨hx, hxid⟩
      · rintro ⟨hx, hxid⟩
        exact ⟨.inr hx, hxid⟩

theorem Wf.setPool_same (lost' : PoolID → Multiset QueueEntry) (ps' : PoolState) (h : c.Wf lost) (hps : c.pools.lookup pool = some ps)
    (hwf : ps'.Wf pool (lost' pool)) (hw : ps'.waiting = ps.waiting) (hlost : ∀ p, p ≠ pool → lost' p = lost p) :
    (c.setPool pool ps').Wf lost' ∧ (c.setPool pool ps').waiting = c.waiting := by
  have hwait : (c.setPool pool ps').waiting = c.waiting := by
    rw [waiting_setPool, waiting_eq hps, hw]
  refine ⟨⟨?_, hwait ▸ h.unique, fun o => hwait ▸ h.ownerCount o,
    fun o => hwait ▸ h.ownerBytes o, fun id x => hwait ▸ h.byID id x⟩, hwait⟩
  intro p q hq
  rcases of_lookup_insert hq with ⟨hp, rfl⟩ | ⟨hp, hq⟩
  · exact hp ▸ hwf
  · rw [hlost p hp]
    exact h.pools p q hq

theorem enqueue_wf (h : c.Wf 0) (entry : QueueEntry) (hps : c.pools.lookup entry.spec.pool = some ps)
    (hfresh : ∀ x ∈ c.waiting, x.spec.id ≠ entry.spec.id) : (c.enqueue entry).Wf 0 ∧ (c.enqueue entry).waiting = entry ::ₘ c.waiting ∧
      Frame c (c.enqueue entry) := by
  set ps' := c.ensureActiveOwner (ensureActiveClass (fileEntry ps (fileClass entry.spec)
    entry.spec.quotaOwner entry) (fileClass entry.spec)) (fileClass entry.spec) entry.spec.quotaOwner
    with hps'
  obtain ⟨hwf, hw⟩ := fileEntry_wf (h.pools _ _ hps) rfl (ensureActive_inRotation c _ _)
  have hunfold : c.enqueue entry = { c.setPool entry.spec.pool ps' with
      ownerWaitingCount := c.ownerWaitingCount.insert entry.spec.quotaOwner
        (c.ownerWaitingCount.getD entry.spec.quotaOwner 0 + 1)
      ownerWaitingBytes := c.ownerWaitingBytes.insert entry.spec.quotaOwner
        (c.ownerWaitingBytes.getD entry.spec.quotaOwner 0 + entry.payloadSize)
      taskByID := c.taskByID.insert entry.spec.id entry } := by
    rw [enqueue, hps]
  have hwait : (c.enqueue entry).waiting = entry ::ₘ c.waiting := by
    have : (c.enqueue entry).waiting = (c.setPool entry.spec.pool ps').waiting := by rw [hunfold]; rfl
    rw [this, waiting_setPool, hw, waiting_eq hps, cons_add]
  have hframe := setPool_frame hps ps'
  refine ⟨⟨?_, ?_, ?_, ?_, ?_⟩, hwait, ?_⟩
  · intro p q hq
    rw [hunfold] at hq
    rcases of_lookup_insert hq with ⟨hp, rfl⟩ | ⟨hp, hq⟩
    · exact hp ▸ hwf
    · exact h.pools p q hq
  · rw [hwait, Multiset.map_cons, Multiset.nodup_cons]
    refine ⟨fun hmem => ?_, h.unique⟩
    obtain ⟨x, hx, hid⟩ := mem_map.mp hmem
    exact hfresh x hx hid
  · intro o
    rw [hwait, hunfold, Multiset.filter_cons, Multiset.card_add]
    rw [getD_insert, h.ownerCount, h.ownerCount]
    by_cases ho : o = entry.spec.quotaOwner
    · subst ho; simp [add_comm]
    · simp [ho, Ne.symm ho]
  · intro o
    rw [hwait, hunfold, Multiset.filter_cons, Multiset.map_add, Multiset.sum_add]
    rw [getD_insert, h.ownerBytes, h.ownerBytes]
    by_cases ho : o = entry.spec.quotaOwner
    · subst ho; simp [add_comm]
    · simp [ho, Ne.symm ho]
  · intro id x
    rw [hwait, hunfold, Multiset.mem_cons]
    rw [lookup_insert_eq]
    split_ifs with hid
    · constructor
      · intro hx
        cases hx
        exact ⟨.inl rfl, hid.symm⟩
      · rintro ⟨rfl | hx, hxid⟩
        · rfl
        · exact absurd (hxid.trans hid) (hfresh x hx)
    · rw [h.byID]
      constructor
      · rintro ⟨hx, hxid⟩
        exact ⟨.inr hx, hxid⟩
      · rintro ⟨rfl | hx, hxid⟩
        · exact absurd hxid.symm hid
        · exact ⟨hx, hxid⟩
  · rw [hunfold]
    exact ⟨rfl, rfl, fun _ => rfl, hframe.pools⟩

theorem deadlines_remove (h : ps.Wf pool 0) (hmem : entry ∈ ps.waiting) :
    Heap.bag ps.deadlineIndex + 0 = (if entry.spec.queueDeadline ≠ 0 then {entry} else 0) +
      (Heap.bag (DeadlineIndex.remove ps.deadlineIndex entry) + 0) := by
  have hd := h.deadlines
  rw [add_zero] at hd
  rw [add_zero, add_zero]
  by_cases hz : entry.spec.queueDeadline ≠ 0
  · rw [if_pos hz, singleton_add]
    refine DeadlineIndex.bag_remove ?_
    rw [hd, Multiset.mem_filter]
    exact ⟨hmem, hz⟩
  · rw [if_neg hz, zero_add, DeadlineIndex.remove_of_notMem]
    rw [hd, Multiset.mem_filter]
    exact fun hx => hz hx.2

theorem enqueue_precedes (hps : c.pools.lookup entry.spec.pool = some ps) (hab : (c.enqueue entry).Precedes a b) :
    c.Precedes a b ∨ (b = entry ∧ a ∈ c.waiting) := by
  set ps' := c.ensureActiveOwner (ensureActiveClass (fileEntry ps (fileClass entry.spec)
    entry.spec.quotaOwner entry) (fileClass entry.spec)) (fileClass entry.spec) entry.spec.quotaOwner
    with hps'
  have hqueues : ps'.queues = _ := (ensureActive_inRotation c _ _).queues
  obtain ⟨p, q, cls, owner, hq, hbefore⟩ := hab
  have hpools : (c.enqueue entry).pools = c.pools.insert entry.spec.pool ps' := by
    rw [enqueue, hps]
    rfl
  rw [hpools] at hq
  rcases of_lookup_insert hq with ⟨hp, rfl⟩ | ⟨hp, hq⟩
  · rw [PoolState.queue, hqueues, fileEntry, getD_insert] at hbefore
    split_ifs at hbefore with hkey
    · rcases before_append_singleton hbefore with hbefore | ⟨ha, hb⟩
      · exact .inl ⟨_, _, _, _, hps, hbefore⟩
      · refine .inr ⟨hb, ?_⟩
        rw [waiting_eq hps]
        exact mem_add.mpr (.inl (PoolState.mem_waiting_of_queue ha))
    · exact .inl ⟨_, _, _, _, hps, hbefore⟩
  · exact .inl ⟨p, q, cls, owner, hq, hbefore⟩

theorem unfileEntry_sublist (entry : QueueEntry) (d : DeadlineIndex) (cls : PriorityClass)
    (owner : OwnerID) : ((unfileEntry ps entry d).queue cls owner).Sublist (ps.queue cls owner) := by
  unfold unfileEntry PoolState.queue
  dsimp only
  cases hq : ps.queues.lookup (fileClass entry.spec, entry.spec.quotaOwner) with
  | none => exact List.Sublist.refl _
  | some =>
    rw [getD_insert]
    split_ifs with hkey
    · rw [hkey, getD_of_lookup hq]
      exact eraseP_sublist
    · exact List.Sublist.refl _

theorem removeTask_wf (h : c.Wf 0) (hmem : entry ∈ c.waiting) :
    (c.removeTask entry.spec.id).Wf 0 ∧ c.waiting = entry ::ₘ (c.removeTask entry.spec.id).waiting ∧
      Trims c (c.removeTask entry.spec.id) := by
  obtain ⟨ps, hps, hin⟩ := h.pool_of_mem hmem
  have hid : c.taskByID.lookup entry.spec.id = some entry := (h.byID _ _).mpr ⟨hmem, rfl⟩
  obtain ⟨hwf, hw⟩ := unfileEntry_wf (h.pools _ _ hps) (h.pool_unique hps) hin
    (deadlines_remove (h.pools _ _ hps) hin)
  have hunfold : c.removeTask entry.spec.id = (c.setPool entry.spec.pool (unfileEntry ps entry
      (DeadlineIndex.remove ps.deadlineIndex entry))).forgetWaiting entry.spec.quotaOwner entry := by
    rw [removeTask, hid]
    dsimp only
    rw [hps]
  rw [hunfold]
  obtain ⟨hc, hcw⟩ := h.take 0 hps hwf hw fun _ _ => rfl
  exact ⟨hc, hcw, (setPool_trims hps _ (unfileEntry_sublist _ _)).trans (forgetWaiting_trims _ _ _)⟩

/-- The loop of `PopExpired`: the entries lost to the heap leave the queues one by one. -/
theorem forgetExpired_wf (expired : List QueueEntry) (c : Controller) (ps : PoolState)
    (h : c.Wf (Pi.single pool (expired : Multiset QueueEntry))) (hps : c.pools.lookup pool = some ps) :
    let c' := forgetExpired pool expired ps c
    c'.Wf 0 ∧ c.waiting = (expired : Multiset QueueEntry) + c'.waiting ∧ Trims c c' := by
  induction expired generalizing c ps with
  | nil =>
    rw [coe_nil, Pi.single_zero] at h
    exact ⟨h, by simp [forgetExpired], Trims.refl c⟩
  | cons entry rest ih =>
    rw [forgetExpired]
    have hpool := h.pools _ _ hps
    rw [Pi.single_eq_same] at hpool
    have hmemf : entry ∈ ps.waiting.filter (·.spec.queueDeadline ≠ 0) := by
      rw [← hpool.deadlines]; simp
    obtain ⟨hin, hz⟩ := mem_filter.mp hmemf
    obtain ⟨hwf, hw⟩ := unfileEntry_wf
      hpool (h.pool_unique hps) hin (by
        rw [if_pos hz, ← cons_coe, ← singleton_add]
        exact add_left_comm _ _ _)
    obtain ⟨hc, hcw⟩ := h.take (Pi.single pool (rest : Multiset QueueEntry)) hps
      (by rwa [Pi.single_eq_same]) hw (fun p hp => by simp [Pi.single_eq_of_ne hp])
    obtain ⟨hc', hw', hf'⟩ := ih _ (unfileEntry ps entry ps.deadlineIndex) hc (by
      show (c.pools.insert pool _).lookup pool = _
      simp)
    refine ⟨hc', ?_, ((setPool_trims hps _ (unfileEntry_sublist _ _)).trans (forgetWaiting_trims _ _ _)).trans hf'⟩
    rw [hcw, hw', ← cons_coe, cons_add]

theorem popExpired_wf {now : Time} (h : c.Wf 0) :
    let r := c.popExpired pool now
    r.2.Wf 0 ∧ c.waiting = (r.1 : Multiset QueueEntry) + r.2.waiting ∧ Trims c r.2 ∧
      ∀ entry ∈ r.1, entry.spec.pool = pool ∧ entry.spec.queueDeadline ≠ 0 ∧
        entry.spec.queueDeadline ≤ now := by
  rw [popExpired]
  cases hps : c.pools.lookup pool with
  | none => exact ⟨h, by simp, Trims.refl c, by simp⟩
  | some ps =>
    obtain ⟨hbag, hold⟩ := DeadlineIndex.bag_popExpiredLoop now ps.deadlineIndex.size ps.deadlineIndex
    set expired := DeadlineIndex.popExpired ps.deadlineIndex now with hexp
    have hpool := h.pools _ _ hps
    have hbag' : Heap.bag expired.2 + (expired.1 : Multiset QueueEntry) =
        ps.waiting.filter (·.spec.queueDeadline ≠ 0) := by
      rw [← hpool.deadlines, hbag, hexp, DeadlineIndex.popExpired]
      simp [add_comm]
    have hwf : PoolState.Wf pool (expired.1 : Multiset QueueEntry) { ps with deadlineIndex := expired.2 } :=
      ⟨hpool.home, hpool.count, hpool.bytes, hbag', hpool.rotation⟩
    obtain ⟨hc, hcw⟩ := h.setPool_same (Pi.single pool (expired.1 : Multiset QueueEntry))
      { ps with deadlineIndex := expired.2 } hps (by rwa [Pi.single_eq_same]) rfl (fun p hp => by simp [Pi.single_eq_of_ne hp])
    obtain ⟨hc', hw', hf'⟩ := forgetExpired_wf expired.1 _ { ps with deadlineIndex := expired.2 } hc (by
      show (c.pools.insert pool _).lookup pool = _
      simp)
    have htrims := setPool_trims hps { ps with deadlineIndex := expired.2 } fun _ _ => List.Sublist.refl _
    refine ⟨hc', hcw ▸ hw', htrims.trans hf', ?_⟩
    intro entry hentry
    have hin : entry ∈ ps.waiting.filter (·.spec.queueDeadline ≠ 0) := by
      rw [← hbag']; exact mem_add.mpr (.inr (by simpa using hentry))
    obtain ⟨hin, hz⟩ := mem_filter.mp hin
    exact ⟨hpool.pool_eq hin, hz, hold entry hentry⟩

/-! ### Operations that keep every entry -/

theorem setPoolConfig_wf {c' : Controller} (h : c.Wf 0)
    (hok : c.setPoolConfig pool cfg = .ok c') : c'.Wf 0 ∧ c'.waiting = c.waiting ∧ Trims c c' := by
  rw [setPoolConfig] at hok
  cases hps : c.pools.lookup pool with
  | none => simp [hps] at hok
  | some ps =>
    rw [hps] at hok
    cases hok
    have hpool := h.pools _ _ hps
    obtain ⟨hwf, hw⟩ := h.setPool_same 0 { ps with config := cfg } hps
      ⟨hpool.home, hpool.count, hpool.bytes, hpool.deadlines, hpool.rotation⟩ rfl fun _ _ => rfl
    exact ⟨hwf, hw, setPool_trims hps { ps with config := cfg } fun _ _ => List.Sublist.refl _⟩

theorem refreshWeight_fields (owner : OwnerID) (weight : Int) (state : PoolState) :
    ∃ quantums deficits, refreshWeight owner weight state =
      { state with ownerQuantums := quantums, ownerDeficits := deficits } := by
  rw [refreshWeight]
  generalize ([.interactive, .normal, .background, .maintenance] : List PriorityClass) = classes
  induction classes generalizing state with
  | nil => exact ⟨_, _, rfl⟩
  | cons cls _ ih =>
    rw [List.foldl_cons]
    cases state.ownerQuantums.lookup (cls, owner) with
    | none => exact ih state
    | some =>
      dsimp only
      split_ifs
      · exact ih state
      · obtain ⟨quantums, deficits, heq⟩ := ih { state with
          ownerQuantums := state.ownerQuantums.insert (cls, owner) weight
          ownerDeficits := state.ownerDeficits.insert (cls, owner) 0 }
        exact ⟨quantums, deficits, heq⟩

theorem refreshWeight_waiting {weight : Int} {state : PoolState} : (refreshWeight owner weight state).waiting = state.waiting := by
  obtain ⟨_, _, heq⟩ := refreshWeight_fields owner weight state
  rw [heq]
  rfl

theorem setOwnerLimits_waiting (c : Controller) (owner : OwnerID) (limits : OwnerLimits) :
    (c.setOwnerLimits owner limits).waiting = c.waiting := by
  rw [waiting, setOwnerLimits]
  rw [total_mapVal]
  exact total_congr fun _ _ _ => refreshWeight_waiting

theorem setOwnerLimits_wf {limits : OwnerLimits} (h : c.Wf 0) : (c.setOwnerLimits owner limits).Wf 0 := by
  have hw := setOwnerLimits_waiting c owner limits
  refine ⟨?_, hw ▸ h.unique, fun o => hw ▸ h.ownerCount o, fun o => hw ▸ h.ownerBytes o,
    fun id x => hw ▸ h.byID id x⟩
  intro p q hq
  rw [setOwnerLimits, lookup_mapVal] at hq
  cases hps : c.pools.lookup p with
  | none => simp [hps] at hq
  | some ps =>
    simp only [hps, map_some] at hq
    cases hq
    obtain ⟨_, _, heq⟩ :=
      refreshWeight_fields owner (normalizeOwnerLimits limits).weight ps
    have hpool := h.pools _ _ hps
    rw [heq]
    exact ⟨hpool.home, hpool.count, hpool.bytes, hpool.deadlines, hpool.rotation⟩

theorem setOwnerLimits_precedes (c : Controller) (owner : OwnerID) (limits : OwnerLimits)
    (hab : (c.setOwnerLimits owner limits).Precedes a b) : c.Precedes a b := by
  obtain ⟨p, q, cls, o, hq, hbefore⟩ := hab
  rw [setOwnerLimits, lookup_mapVal] at hq
  obtain ⟨ps, hps, rfl⟩ := map_eq_some_iff.mp hq
  obtain ⟨_, _, heq⟩ := refreshWeight_fields owner (normalizeOwnerLimits limits).weight ps
  rw [heq] at hbefore
  exact ⟨p, ps, cls, o, hps, hbefore⟩

theorem onTaskTerminal_wf {spec : WorkSpec} (h : c.Wf 0) : (c.onTaskTerminal spec).Wf 0 :=
  ⟨h.pools, h.unique, fun o => compactOwnerCounters_getD.1.trans (h.ownerCount o),
    fun o => compactOwnerCounters_getD.2.1.trans (h.ownerBytes o), h.byID⟩

theorem onTaskTerminal_active (c : Controller) (spec : WorkSpec) (owner : OwnerID) (hpos : 0 < c.ownerActiveCount.getD spec.quotaOwner 0) :
    (c.onTaskTerminal spec).ownerActiveCount.getD owner 0 = c.ownerActiveCount.getD owner 0 - if owner = spec.quotaOwner then 1 else 0 := by
  refine compactOwnerCounters_getD.2.2.trans ?_
  rw [if_pos hpos, getD_insert]
  split_ifs with h
  · rw [h]
  · omega

theorem newPoolState_wf : (newPoolState cfg).Wf pool 0 := by
  refine ⟨?_, rfl, rfl, rfl, ?_⟩
  · intro key rq hq
    simp [newPoolState] at hq
  · intro cls _ hne
    exact absurd rfl hne

theorem newController_pools {poolConfigs : AList fun _ : PoolID => PoolConfig}
    (hps : (newController poolConfigs).pools.lookup pool = some ps) : ∃ cfg, ps = newPoolState cfg := by
  rw [newController, lookup_foldl_insert, map_eq_some_iff] at hps
  obtain ⟨cfg, -, rfl⟩ := hps
  exact ⟨cfg, rfl⟩

theorem newController_waiting (poolConfigs : AList fun _ : PoolID => PoolConfig) : (newController poolConfigs).waiting = 0 := by
  refine total_eq_zero fun pool ps hps => ?_
  obtain ⟨cfg, rfl⟩ := newController_pools hps
  rfl

theorem newController_wf (poolConfigs : AList fun _ : PoolID => PoolConfig) : (newController poolConfigs).Wf 0 := by
  have hw := newController_waiting poolConfigs
  refine ⟨?_, by simp [hw], fun o => by rw [hw]; rfl, fun o => by rw [hw]; rfl, fun id x => ?_⟩
  · intro p q hq
    obtain ⟨cfg, rfl⟩ := newController_pools hq
    exact newPoolState_wf
  · rw [hw]
    simp [newController]

end Controller

end Goultroid.Admission
