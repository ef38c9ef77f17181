import Goultroid.Admission.Waiting

/-!
# Selection

`SelectCandidateEligible` is sound and complete. A candidate it returns was waiting in the pool, its
owner had a slot left and it passed the test of `dispatchable` at a clock reading of the call; it is
the only entry to leave, and it takes its owner's slot and its ordering lock. When no candidate is
returned, every waiting entry of the pool was blocked: its owner is saturated, or it failed the test
at a clock reading of the call.

A round of the scan moves only credits, cursors and the rotation (`Scanned`), so every queue is what
it was when the call began. The owner loop and the class loop carry along why the entries of what
they have met are blocked (`OwnerScan.Spec`, `scanClasses_spec`); what they have not met is ahead of
the cursor, and nothing is ahead when the rounds are used up. The candidate is the first entry of
its queue that passes the test, since a queue is searched from its front.
-/

namespace Goultroid.Admission

open List AList Option Cursor
open Controller (scanOwners scanClasses)

variable {pool : PoolID} {cls : PriorityClass} {owner : OwnerID} {ps ps' ps₁ : PoolState} {owners : List OwnerID} {cursor : Nat}

/-! ### A scan moves only credits, cursors and the rotation -/

/-- What a round of the scan keeps of a pool: its invariant and the content of every queue. -/
structure Scanned (pool : PoolID) (ps ps' : PoolState) : Prop where
  wf : ps'.Wf pool 0
  waiting : ps'.waiting = ps.waiting
  queue : ∀ cls owner, ps'.queue cls owner = ps.queue cls owner

theorem Scanned.refl (h : ps.Wf pool 0) : Scanned pool ps ps := ⟨h, rfl, fun _ _ => rfl⟩

theorem Scanned.trans {ps2 ps3 : PoolState} (h : Scanned pool ps₁ ps2) (h' : Scanned pool ps2 ps3) : Scanned pool ps₁ ps3 :=
  ⟨h'.wf, h'.waiting.trans h.waiting, fun cls owner => (h'.queue cls owner).trans (h.queue cls owner)⟩

theorem Scanned.of_fields (h : ps.Wf pool 0) (hqueues : ps'.queues = ps.queues)
    (hheap : ps'.deadlineIndex = ps.deadlineIndex) (hcount : ps'.totalWaiting = ps.totalWaiting)
    (hbytes : ps'.totalBytes = ps.totalBytes) (hclasses : ps'.activeClasses = ps.activeClasses)
    (howners : ps'.activeOwners = ps.activeOwners) : Scanned pool ps ps' := by
  have hw : ps'.waiting = ps.waiting := by rw [PoolState.waiting, hqueues]; rfl
  have hq : ∀ cls owner, ps'.queue cls owner = ps.queue cls owner := by
    intro cls owner; rw [PoolState.queue, hqueues]; rfl
  refine ⟨⟨?_, ?_, ?_, ?_, ?_⟩, hw, hq⟩
  · rw [hqueues]; exact h.home
  · rw [hcount, hw]; exact h.count
  · rw [hbytes, hw]; exact h.bytes
  · rw [hheap, hw]; exact h.deadlines
  · intro cls owner hne
    rw [hclasses, howners]
    exact h.rotation cls owner (hq cls owner ▸ hne)

theorem refillOwner_fields (ps : PoolState) (cls : PriorityClass) (owner : OwnerID) :
    ∃ deficits, ps.refillOwner cls owner = { ps with ownerDeficits := deficits } := by
  rw [PoolState.refillOwner]
  split_ifs <;> exact ⟨_, rfl⟩

theorem refillClass_fields (ps : PoolState) (cls : PriorityClass) :
    ∃ deficits, ps.refillClass cls = { ps with classDeficits := deficits } := by
  rw [PoolState.refillClass]
  split_ifs <;> exact ⟨_, rfl⟩

theorem refillOwner_scanned (h : ps.Wf pool 0) (cls : PriorityClass) (owner : OwnerID) : Scanned pool ps (ps.refillOwner cls owner) := by
  obtain ⟨_, heq⟩ := refillOwner_fields ps cls owner
  rw [heq]
  exact .of_fields h rfl rfl rfl rfl rfl rfl

/-- The owner under the cursor has nothing waiting, so the rotation can do without it. -/
theorem dropOwner_scanned (h : ps.Wf pool 0) (howners : ps.activeOwners.getD cls [] = owners) (hat : owners.getD cursor [] = owner)
    (hempty : ps.queue cls owner = []) : Scanned pool ps (ps.dropOwner cls owner (owners.eraseIdx cursor)) := by
  have hq : ∀ cls' owner', (ps.dropOwner cls owner (owners.eraseIdx cursor)).queue cls' owner' =
      ps.queue cls' owner' := by
    intro cls' owner'
    exact getD_erase_of_default hempty
  have hw : (ps.dropOwner cls owner (owners.eraseIdx cursor)).waiting = ps.waiting := by
    rw [ps.waiting_eq cls owner, hempty]
    simp [PoolState.waiting, PoolState.dropOwner]
  refine ⟨⟨?_, hw ▸ h.count, hw ▸ h.bytes, hw ▸ h.deadlines, ?_⟩, hw, hq⟩
  · intro key rq hk
    obtain ⟨-, hk⟩ := of_lookup_erase hk
    exact h.home key rq hk
  · intro cls' owner' hne
    rw [hq] at hne
    obtain ⟨hc, ho⟩ := h.rotation cls' owner' hne
    refine ⟨hc, ?_⟩
    show owner' ∈ (ps.activeOwners.insert cls (owners.eraseIdx cursor)).getD cls' []
    rw [getD_insert]
    split_ifs with hcls
    · subst hcls
      -- another owner stays in the list
      rw [howners] at ho
      obtain ⟨i, hi, rfl⟩ := mem_iff_getElem.mp ho
      refine mem_eraseIdx_iff_getElem.mpr ⟨i, hi, ?_, rfl⟩
      rintro rfl
      rw [getD_eq_getElem _ _ hi] at hat
      exact hne (hat ▸ hempty)
    · exact ho

/-! ### The owner loop -/

namespace Controller

variable {c : Controller} {clock : Nat → Time} {eligible : WorkSpec → Bool} {first tick tries : Nat} {candidate entry : QueueEntry}
  {poolConfigs : AList fun _ : PoolID => PoolConfig}

/-- Why an entry of `owner` was passed over by the clock readings in `[first, last)`. -/
def Blocked (c : Controller) (clock : Nat → Time) (eligible : WorkSpec → Bool) (first last : Nat)
    (owner : OwnerID) (entry : QueueEntry) : Prop :=
  c.ownerSaturated owner = true ∨
    ∃ t, first ≤ t ∧ t < last ∧ c.dispatchable (clock t) eligible entry = false

theorem Blocked.mono {last first' last' : Nat} (h : c.Blocked clock eligible first last owner entry) (hf : first' ≤ first)
    (hl : last ≤ last') : c.Blocked clock eligible first' last' owner entry := by
  rcases h with h | ⟨t, h1, h2, h3⟩
  · exact .inl h
  · exact .inr ⟨t, by omega, by omega, h3⟩

/-- What the owner loop of `cls` says about the pool it ran over, with `rounds` the owners met. -/
def OwnerScan.Spec (c : Controller) (pool : PoolID) (cls : PriorityClass) (clock : Nat → Time)
    (eligible : WorkSpec → Bool) (ps : PoolState) (rounds : List OwnerID) (first : Nat) :
    OwnerScan → Prop
  | .found ps' owner _ candidate last => Scanned pool ps ps' ∧ candidate ∈ ps.queue cls owner ∧
      c.ownerSaturated owner = false ∧
      ∃ t, first ≤ t ∧ t < last ∧ (ps.queue cls owner).firstMatching (c.dispatchable (clock t) eligible) = some candidate
  | .exhausted ps' _ last => Scanned pool ps ps' ∧ first ≤ last ∧
      ps'.activeClasses = ps.activeClasses ∧ ps'.classCursor = ps.classCursor ∧
      ∀ owner ∈ rounds, ∀ entry ∈ ps.queue cls owner, c.Blocked clock eligible first last owner entry

/-- A scan from a later pool and a later reading is a scan from here, when the owners met here and not
there are blocked. -/
theorem OwnerScan.Spec.weaken {rounds1 rounds : List OwnerID} {first1 : Nat}
    {r : OwnerScan} (h : r.Spec c pool cls clock eligible ps₁ rounds1 first1) (hs : Scanned pool ps ps₁)
    (hc : ps₁.activeClasses = ps.activeClasses) (hcur : ps₁.classCursor = ps.classCursor) (hf : first ≤ first1)
    (hrounds : ∀ owner ∈ rounds, owner ∈ rounds1 ∨ ∀ entry ∈ ps.queue cls owner, c.Blocked clock eligible first first1 owner entry) :
    r.Spec c pool cls clock eligible ps rounds first := by
  cases r with
  | found =>
    obtain ⟨hs', hmem, hunsaturated, t, h1, h2, h3⟩ := h
    exact ⟨hs.trans hs', hs.queue _ _ ▸ hmem, hunsaturated, t, by omega, h2, hs.queue _ _ ▸ h3⟩
  | exhausted =>
    obtain ⟨hs', hle, hc', hcur', hblocked⟩ := h
    refine ⟨hs.trans hs', by omega, hc'.trans hc, hcur'.trans hcur, fun owner ho entry he => ?_⟩
    rcases hrounds owner ho with hin | hnow
    · exact (hblocked owner hin entry (hs.queue cls owner ▸ he)).mono hf (le_refl _)
    · exact (hnow entry he).mono (le_refl _) hle

theorem scanOwners_spec (c : Controller) (clock : Nat → Time) (eligible : WorkSpec → Bool) (tries : Nat) (ps : PoolState)
    (owners : List OwnerID) (cursor tick : Nat) (h : ps.Wf pool 0) (howners : ps.activeOwners.getD cls [] = owners) :
    (c.scanOwners cls clock eligible tries ps owners cursor tick).Spec c pool cls clock eligible ps
      (Cursor.ahead owners cursor tries) tick := by
  induction tries generalizing ps owners cursor tick with
  | zero =>
    exact ⟨.refl h, le_refl _, rfl, rfl, fun owner ho => absurd ho notMem_ahead_zero⟩
  | succ tries ih =>
    rw [scanOwners]
    by_cases hnil : owners = []
    · subst hnil
      exact ⟨.refl h, le_refl _, rfl, rfl, fun owner ho => absurd ho notMem_ahead_nil⟩
    dsimp only
    set cur := Cursor.wrap owners cursor
    set owner := owners.getD cur []
    have href := refillOwner_scanned h cls owner
    obtain ⟨_, hfields⟩ := refillOwner_fields ps cls owner
    have hact : (ps.refillOwner cls owner).activeOwners.getD cls [] = owners := by
      rw [hfields]; exact howners
    have hclasses : (ps.refillOwner cls owner).activeClasses = ps.activeClasses := by rw [hfields]
    have hcursor : (ps.refillOwner cls owner).classCursor = ps.classCursor := by rw [hfields]
    generalize ps.refillOwner cls owner = ps₁ at href hact hclasses hcursor ⊢
    split_ifs with hempty hunsaturated
    · -- nothing waits: the owner leaves the rotation
      have hdrop := dropOwner_scanned href.wf hact rfl hempty
      have hown : (ps₁.dropOwner cls owner (owners.eraseIdx cur)).activeOwners.getD cls [] =
          owners.eraseIdx cur := getD_insert_self
      refine (ih _ _ cur tick hdrop.wf hown).weaken (href.trans hdrop) hclasses hcursor
        (le_refl _) fun o ho => ?_
      rcases mem_ahead_erase [] hnil ho with rfl | ho
      · refine .inr fun entry he => ?_
        rw [← href.queue, hempty] at he
        cases he
      · exact .inl ho
    · refine (ih _ _ (cur + 1) tick href.wf hact).weaken href hclasses hcursor (le_refl _)
        fun o ho => ?_
      rcases mem_ahead_advance [] hnil ho with rfl | ho
      · exact .inr fun _ _ => .inl hunsaturated
      · exact .inl ho
    · cases hfirst : (ps₁.queue cls owner).firstMatching (c.dispatchable (clock tick) eligible) with
      | none =>
        refine (ih _ _ (cur + 1) (tick + 1) href.wf hact).weaken href hclasses hcursor
          (by omega) fun o ho => ?_
        rcases mem_ahead_advance [] hnil ho with rfl | ho
        · refine .inr fun entry he => .inr ⟨tick, le_refl _, by omega, ?_⟩
          rw [← href.queue] at he
          simpa using find?_eq_none.mp hfirst entry he
        · exact .inl ho
      | some =>
        refine ⟨href, ?_, by simpa using hunsaturated, tick, le_refl _, by omega, ?_⟩
        · rw [← href.queue]
          exact mem_of_find?_eq_some hfirst
        · rw [← href.queue]
          exact hfirst

/-! ### The class loop -/

/-- The class under the cursor has no owners in rotation, so nothing waits in it. -/
theorem dropClass_scanned (h : ps.Wf pool 0) (hat : ps.activeClasses.getD ps.classCursor .unset = cls)
    (hnone : ps.activeOwners.getD cls [] = []) : Scanned pool ps (ps.dropClass cls) := by
  refine ⟨⟨h.home, h.count, h.bytes, h.deadlines, ?_⟩, rfl, fun _ _ => rfl⟩
  intro cls' owner' hne
  obtain ⟨hc, ho⟩ := h.rotation cls' owner' hne
  refine ⟨?_, ho⟩
  obtain ⟨i, hi, rfl⟩ := mem_iff_getElem.mp hc
  refine mem_eraseIdx_iff_getElem.mpr ⟨i, hi, ?_, rfl⟩
  rintro rfl
  rw [getD_eq_getElem _ _ hi] at hat
  rw [hat, hnone] at ho
  cases ho

theorem debit_wf (h : ps.Wf pool 0) (hids : (ps.waiting.map (·.spec.id)).Nodup) (hmem : candidate ∈ ps.queue cls owner) (cursor : Nat) :
    (debit ps cls owner cursor candidate).Wf pool 0 ∧ ps.waiting = candidate ::ₘ (debit ps cls owner cursor candidate).waiting := by
  obtain ⟨-, hkey⟩ := h.home_queue hmem
  obtain ⟨rfl, rfl⟩ := Prod.mk.inj hkey
  have hin := PoolState.mem_waiting_of_queue hmem
  exact h.take hids hin rfl rfl rfl (deadlines_remove h hin) rfl rfl

/-- What a selected candidate changes: it leaves the queues, and takes its owner's slot and its
ordering lock. -/
structure Took (c : Controller) (candidate : QueueEntry) (c' : Controller) : Prop where
  wf : c'.Wf 0
  waiting : c.waiting = candidate ::ₘ c'.waiting
  limits : c'.ownerLimits = c.ownerLimits
  active : ∀ owner, c'.ownerActiveCount.getD owner 0 =
    c.ownerActiveCount.getD owner 0 + if owner = candidate.spec.quotaOwner then 1 else 0
  locks : c'.orderingLocks = if candidate.spec.orderingKey = [] then c.orderingLocks
    else c.orderingLocks.insert candidate.spec.orderingKey candidate.spec.id
  pools : ∀ pool, (c'.pools.lookup pool).isSome = (c.pools.lookup pool).isSome
  order : ∀ a b, c'.Precedes a b → c.Precedes a b

theorem debit_sublist {cls' : PriorityClass} {owner' : OwnerID} :
    ((debit ps cls owner cursor candidate).queue cls' owner').Sublist (ps.queue cls' owner') := by
  unfold debit PoolState.queue
  rw [getD_insert]
  split_ifs with hkey
  · rw [hkey]
    exact eraseP_sublist
  · exact List.Sublist.refl _

theorem takeCandidate_took (h : c.Wf 0) (hps : c.pools.lookup pool = some ps) (hs : Scanned pool ps ps')
    (hmem : candidate ∈ ps.queue cls owner) : Took c candidate (c.takeCandidate pool ps' cls owner cursor candidate) := by
  have hids : (ps'.waiting.map (·.spec.id)).Nodup := by
    rw [hs.waiting]; exact h.pool_unique hps
  rw [← hs.queue] at hmem
  obtain ⟨hwf, hw⟩ := debit_wf hs.wf hids hmem cursor
  obtain ⟨-, hkey⟩ := hs.wf.home_queue hmem
  obtain ⟨rfl, rfl⟩ := Prod.mk.inj hkey
  obtain ⟨hc, hcw⟩ := h.take 0 hps hwf (hs.waiting.symm.trans hw) fun _ _ => rfl
  have hsub : ∀ cls owner, ((debit ps' (fileClass candidate.spec) candidate.spec.quotaOwner cursor
      candidate).queue cls owner).Sublist (ps.queue cls owner) := by
    intro cls owner
    rw [← hs.queue]
    exact debit_sublist
  have hframe := (setPool_trims hps _ hsub).trans (forgetWaiting_trims _ candidate.spec.quotaOwner candidate)
  refine ⟨⟨hc.pools, hc.unique, hc.ownerCount, hc.ownerBytes, hc.byID⟩, hcw, hframe.limits, ?_, ?_,
    hframe.pools, hframe.order⟩
  · intro o
    rw [takeCandidate, activate]
    rw [getD_insert, hframe.active]
    split_ifs with ho
    · rw [ho]
    · rw [hframe.active]; omega
  · rw [takeCandidate, activate]
    rw [hframe.locks]

/-- The two ways a selection ends. -/
structure Selection.Spec (c : Controller) (pool : PoolID) (clock : Nat → Time)
    (eligible : WorkSpec → Bool) (first : Nat) (s : Selection) : Prop where
  tick : first ≤ s.tick
  some : ∀ candidate, s.candidate = some candidate →
    Took c candidate s.controller ∧ candidate.spec.pool = pool ∧
      c.ownerSaturated candidate.spec.quotaOwner = false ∧
      ∃ t, first ≤ t ∧ t < s.tick ∧ c.dispatchable (clock t) eligible candidate = true ∧
        ∀ entry, c.Precedes entry candidate → c.dispatchable (clock t) eligible entry = false
  none : s.candidate = none → s.controller.Wf 0 ∧ s.controller.waiting = c.waiting ∧
    Trims c s.controller ∧ ∀ entry ∈ c.waiting, entry.spec.pool = pool →
      c.Blocked clock eligible first s.tick entry.spec.quotaOwner entry

/-- The classes met so far are blocked; `done` says so for those that are not ahead. -/
theorem scanClasses_spec {ps0 : PoolState} (h : c.Wf 0) (hps : c.pools.lookup pool = some ps0)
    (tries : Nat) (ps : PoolState) (tick : Nat) (hs : Scanned pool ps0 ps) (hfirst : first ≤ tick)
    (done : ∀ cls, cls ∈ Cursor.ahead ps.activeClasses ps.classCursor tries ∨
      ∀ owner, ∀ entry ∈ ps0.queue cls owner, c.Blocked clock eligible first tick owner entry) :
    (c.scanClasses pool clock eligible tries ps tick).Spec c pool clock eligible first := by
  -- every class is done: no candidate
  have hnone : ∀ (ps : PoolState) (tick : Nat), Scanned pool ps0 ps → first ≤ tick →
      (∀ cls owner, ∀ entry ∈ ps0.queue cls owner, c.Blocked clock eligible first tick owner entry) →
      Selection.Spec c pool clock eligible first ⟨none, c.setPool pool ps, tick⟩ := by
    intro ps tick hs hfirst hall
    refine ⟨hfirst, fun candidate hc => (by cases hc), fun _ => ?_⟩
    obtain ⟨hwf, hw⟩ := h.setPool_same 0 ps hps hs.wf hs.waiting fun _ _ => rfl
    refine ⟨hwf, hw, setPool_trims hps ps fun cls owner => (hs.queue cls owner ▸ List.Sublist.refl _),
      fun entry hmem hpool => ?_⟩
    obtain ⟨ps₁, hps1, hin⟩ := h.pool_of_mem hmem
    rw [hpool, hps] at hps1
    cases hps1
    exact hall _ _ entry ((h.pools _ _ hps).mem_waiting.mp hin)
  induction tries generalizing ps tick with
  | zero =>
    exact hnone ps tick hs hfirst fun cls => (done cls).resolve_left notMem_ahead_zero
  | succ tries ih =>
    rw [scanClasses]
    by_cases hnil : ps.activeClasses = []
    · rw [if_pos hnil]
      rw [hnil] at done
      exact hnone ps tick hs hfirst fun cls => (done cls).resolve_left notMem_ahead_nil
    rw [if_neg hnil]
    dsimp only
    obtain ⟨deficits, hfields⟩ := refillClass_fields ps.wrapClassCursor
      (ps.wrapClassCursor.activeClasses.getD ps.wrapClassCursor.classCursor .unset)
    rw [hfields]
    set ps₁ : PoolState := { ps.wrapClassCursor with classDeficits := deficits } with hps1
    set cls := ps.wrapClassCursor.activeClasses.getD ps.wrapClassCursor.classCursor .unset with hcls
    have hs1 : Scanned pool ps0 ps₁ := hs.trans (.of_fields hs.wf rfl rfl rfl rfl rfl rfl)
    by_cases howners : ps₁.activeOwners.getD cls [] = []
    · rw [if_pos howners]
      have hdrop := dropClass_scanned hs1.wf rfl howners
      refine ih _ tick (hs1.trans hdrop) hfirst fun cls' => ?_
      rcases done cls' with hin | hdone
      · rcases mem_ahead_erase .unset hnil hin with rfl | hin
        · refine .inr fun owner entry he => ?_
          rw [← hs1.queue] at he
          have hrotation : owner ∈ ps₁.activeOwners.getD cls [] :=
            (hs1.wf.rotation _ owner (ne_nil_of_mem he)).2
          rw [howners] at hrotation
          cases hrotation
        · exact .inl hin
      · exact .inr hdone
    · rw [if_neg howners]
      have hscan := scanOwners_spec c clock eligible
        (ps₁.activeOwners.getD cls []).length ps₁ (ps₁.activeOwners.getD cls [])
        (ps₁.ownerCursor.getD cls 0) tick hs1.wf rfl
      generalize c.scanOwners cls clock eligible (ps₁.activeOwners.getD cls []).length ps₁
        (ps₁.activeOwners.getD cls []) (ps₁.ownerCursor.getD cls 0) tick = r at hscan ⊢
      cases r with
      | found ps' owner cursor candidate last =>
        obtain ⟨hs', hmem, hunsaturated, t, h1, h2, h3⟩ := hscan
        have hmem0 := hs1.queue cls owner ▸ hmem
        obtain ⟨hpool, hkey⟩ := (h.pools _ _ hps).home_queue hmem0
        obtain ⟨hclass, howner⟩ := Prod.mk.inj hkey
        rw [hs1.queue] at h3
        refine ⟨by show first ≤ last; omega, fun x hx => ?_, fun hx => (by cases hx)⟩
        cases hx
        refine ⟨takeCandidate_took h hps (hs1.trans hs') hmem0, hpool, howner ▸ hunsaturated, t,
          by omega, h2, find?_some h3, fun entry hprecedes => ?_⟩
        obtain ⟨ps2, hps2, hbefore, -⟩ := h.of_precedes hprecedes
        rw [hpool, hps] at hps2
        cases hps2
        rw [← hclass, ← howner] at hbefore
        exact hbefore.of_find (h.queue_nodup hps) h3
      | exhausted ps' cursor last =>
        obtain ⟨hs', hle, hclasses, hcursor, hblocked⟩ := hscan
        have hpass : Scanned pool ps' (ps'.passClass cls cursor) :=
          .of_fields hs'.wf rfl rfl rfl rfl rfl rfl
        refine ih _ last ((hs1.trans hs').trans hpass) (by omega) fun cls' => ?_
        have hahead : Cursor.ahead (ps'.passClass cls cursor).activeClasses
            (ps'.passClass cls cursor).classCursor tries =
            Cursor.ahead ps.activeClasses (Cursor.wrap ps.activeClasses ps.classCursor + 1) tries := by
          show Cursor.ahead ps'.activeClasses (ps'.classCursor + 1) tries = _
          rw [hclasses, hcursor]
          rfl
        rw [hahead]
        rcases done cls' with hin | hdone
        · rcases mem_ahead_advance .unset hnil hin with rfl | hin
          · refine .inr fun owner entry he => ?_
            rw [← hs1.queue] at he
            have hrotation := (hs1.wf.rotation _ owner (ne_nil_of_mem he)).2
            exact (hblocked owner (mem_ahead_length hrotation) entry he).mono hfirst (le_refl _)
          · exact .inl hin
        · exact .inr fun owner entry he => (hdone owner entry he).mono (le_refl _) hle

theorem selectCandidateEligible_spec (h : c.Wf 0) (pool : PoolID) (clock : Nat → Time) (eligible : WorkSpec → Bool) (tick : Nat) :
    (c.selectCandidateEligible pool clock eligible tick).Spec c pool clock eligible tick := by
  rw [selectCandidateEligible]
  cases hps : c.pools.lookup pool with
  | none =>
    refine ⟨le_refl _, fun _ hc => (by cases hc), fun _ => ⟨h, rfl, Trims.refl c, ?_⟩⟩
    intro entry hmem hpool
    obtain ⟨ps, hps', -⟩ := h.pool_of_mem hmem
    rw [hpool, hps] at hps'
    cases hps'
  | some ps =>
    have hpool := h.pools _ _ hps
    dsimp only
    split_ifs with hnil
    · refine ⟨le_refl _, fun _ hc => (by cases hc), fun _ => ⟨h, rfl, Trims.refl c, ?_⟩⟩
      intro entry hmem hp
      obtain ⟨ps', hps', hin⟩ := h.pool_of_mem hmem
      rw [hp, hps] at hps'
      cases hps'
      have hrotation := hpool.rotation _ _ (ne_nil_of_mem (hpool.mem_waiting.mp hin))
      rw [hnil] at hrotation
      cases hrotation.1
    · refine scanClasses_spec h hps _ ps tick (.refl hpool) (le_refl _) fun cls => ?_
      by_cases hc : cls ∈ ps.activeClasses
      · exact .inl (mem_ahead_length hc)
      · refine .inr fun owner entry he => ?_
        exact absurd (hpool.rotation cls owner (ne_nil_of_mem he)).1 hc

/-! ### The states of a controller -/

/-- The states a controller passes through. An id is enqueued only while no waiting entry has it: `admitSubmit`
refuses an id that is on record. -/
inductive Reached (poolConfigs : AList fun _ : PoolID => PoolConfig) : Controller → Prop where
  | new : Reached poolConfigs (newController poolConfigs)
  | setPoolConfig {c c' : Controller} {pool : PoolID} {cfg : PoolConfig} : Reached poolConfigs c →
      c.setPoolConfig pool cfg = .ok c' → Reached poolConfigs c'
  | setOwnerLimits {c : Controller} (owner : OwnerID) (limits : OwnerLimits) : Reached poolConfigs c →
    Reached poolConfigs (c.setOwnerLimits owner limits)
  | enqueue {c : Controller} (entry : QueueEntry) : Reached poolConfigs c → (∀ x ∈ c.waiting, x.spec.id ≠ entry.spec.id) →
    Reached poolConfigs (c.enqueue entry)
  | select {c : Controller} (pool : PoolID) (clock : Nat → Time) (eligible : WorkSpec → Bool) (tick : Nat) : Reached poolConfigs c →
    Reached poolConfigs (c.selectCandidateEligible pool clock eligible tick).controller
  | onTaskTerminal {c : Controller} (spec : WorkSpec) : Reached poolConfigs c → Reached poolConfigs (c.onTaskTerminal spec)
  | removeTask {c : Controller} (id : TaskID) : Reached poolConfigs c → Reached poolConfigs (c.removeTask id)
  | popExpired {c : Controller} (pool : PoolID) (now : Time) : Reached poolConfigs c → Reached poolConfigs (c.popExpired pool now).2

theorem Reached.wf (h : Reached poolConfigs c) : c.Wf 0 := by
  induction h with
  | new => exact newController_wf _
  | setPoolConfig _ hok ih => exact (setPoolConfig_wf ih hok).1
  | setOwnerLimits _ _ _ ih => exact setOwnerLimits_wf ih
  | @enqueue c entry _ hfresh ih =>
    cases hps : c.pools.lookup entry.spec.pool with
    | none => simpa only [Controller.enqueue, hps] using ih
    | some => exact (enqueue_wf ih entry hps hfresh).1
  | @select c pool clock eligible tick _ ih =>
    have hspec := selectCandidateEligible_spec ih pool clock eligible tick
    cases hc : (c.selectCandidateEligible pool clock eligible tick).candidate with
    | none => exact (hspec.none hc).1
    | some candidate => exact (hspec.some candidate hc).1.wf
  | onTaskTerminal spec _ ih => exact onTaskTerminal_wf ih
  | @removeTask c id _ ih =>
    cases hid : c.taskByID.lookup id with
    | none => simpa only [Controller.removeTask, hid] using ih
    | some entry =>
      obtain ⟨hmem, rfl⟩ := (ih.byID id entry).mp hid
      exact (removeTask_wf ih hmem).1
  | popExpired pool now _ ih => exact (popExpired_wf ih).1

/-! ### A scan without a candidate -/

/-- What a scan leaves of a pool: everything but the credits, the cursors and the rotation. -/
def contents (ps : PoolState) : PoolConfig × DeadlineIndex × Int × Int × (PriorityClass → OwnerID → ReadyQueue) :=
  (ps.config, ps.deadlineIndex, ps.totalWaiting, ps.totalBytes, ps.queue)

theorem refillOwner_contents (ps : PoolState) (cls : PriorityClass) (owner : OwnerID) :
    contents (ps.refillOwner cls owner) = contents ps := by
  obtain ⟨_, heq⟩ := refillOwner_fields ps cls owner
  rw [heq]
  rfl

theorem dropOwner_contents (hempty : ps.queue cls owner = []) : contents (ps.dropOwner cls owner owners) = contents ps := by
  have hqueue : (ps.dropOwner cls owner owners).queue = ps.queue := by
    funext cls' owner'
    exact getD_erase_of_default hempty
  rw [contents, hqueue]
  rfl

theorem scanOwners_contents {cursor' tick' : Nat}
    (h : c.scanOwners cls clock eligible tries ps owners cursor tick = .exhausted ps' cursor' tick') : contents ps' = contents ps := by
  induction tries generalizing ps owners cursor tick with
  | zero => cases h; rfl
  | succ tries ih =>
    rw [scanOwners] at h
    dsimp only at h
    have href := refillOwner_contents ps cls (owners.getD (Cursor.wrap owners cursor) [])
    split_ifs at h with hnil hempty hunsaturated
    · cases h; rfl
    · exact ((ih h).trans (dropOwner_contents hempty)).trans href
    · exact (ih h).trans href
    · split at h
      · exact (ih h).trans href
      · cases h

theorem scanClasses_contents (h : (c.scanClasses pool clock eligible tries ps tick).candidate = none) :
    ∃ ps', (c.scanClasses pool clock eligible tries ps tick).controller = c.setPool pool ps' ∧ contents ps' = contents ps := by
  induction tries generalizing ps tick with
  | zero => exact ⟨ps, rfl, rfl⟩
  | succ tries ih =>
    rw [scanClasses] at h ⊢
    obtain ⟨_, hfields⟩ := refillClass_fields ps.wrapClassCursor
      (ps.wrapClassCursor.activeClasses.getD ps.wrapClassCursor.classCursor .unset)
    dsimp only at h ⊢
    rw [hfields] at h ⊢
    split_ifs at h ⊢ with hnil howners
    · exact ⟨ps, rfl, rfl⟩
    · exact ih h
    · split at h
      · cases h
      · next ps' _ _ hscan =>
        obtain ⟨ps'', hset, hcontent⟩ := ih h
        have hsame := scanOwners_contents hscan
        exact ⟨ps'', hset, hcontent.trans hsame⟩

/-- A call without a candidate writes to one pool, and leaves its contents. -/
theorem selectCandidateEligible_contents
    (h : (c.selectCandidateEligible pool clock eligible tick).candidate = none) :
    ∃ pools, (c.selectCandidateEligible pool clock eligible tick).controller = { c with pools := pools } ∧
      ∀ p, (pools.lookup p).map contents = (c.pools.lookup p).map contents := by
  rw [selectCandidateEligible] at h ⊢
  cases hps : c.pools.lookup pool with
  | none => exact ⟨c.pools, rfl, fun _ => rfl⟩
  | some =>
    rw [hps] at h
    dsimp only at h ⊢
    split_ifs at h ⊢ with hnil
    · exact ⟨c.pools, rfl, fun _ => rfl⟩
    · obtain ⟨ps', hset, hcontent⟩ := scanClasses_contents h
      refine ⟨c.pools.insert pool ps', hset, fun p => ?_⟩
      rw [lookup_insert_eq]
      split_ifs with hp
      · rw [hp, hps, map_some, map_some, hcontent]
      · rfl

/-! ### Sound and complete -/

/-- A waiting entry of the pool that may be dispatched: its owner is below `MaxActive`, its deadline has not
passed, its ordering key is unlocked and the predicate holds. -/
def Ready (c : Controller) (pool : PoolID) (now : Time) (eligible : WorkSpec → Bool) (entry : QueueEntry) : Prop :=
  entry ∈ c.waiting ∧ entry.spec.pool = pool ∧
    c.ownerActiveCount.getD entry.spec.quotaOwner 0 < (c.getOwnerLimits entry.spec.quotaOwner).maxActive ∧
    (entry.spec.queueDeadline = 0 ∨ now ≤ entry.spec.queueDeadline) ∧
    (entry.spec.orderingKey = [] ∨ c.orderingLocks.lookup entry.spec.orderingKey = none) ∧
    eligible entry.spec = true

theorem ready_iff {now : Time} : c.Ready pool now eligible entry ↔ entry ∈ c.waiting ∧ entry.spec.pool = pool ∧
    c.ownerSaturated entry.spec.quotaOwner = false ∧ c.dispatchable now eligible entry = true := by
  have hpos := (c.getOwnerLimits entry.spec.quotaOwner).maxActive_pos
  simp [Ready, ownerSaturated, dispatchable, WorkSpec.expiredAt, hpos, and_assoc]

/-- Selection finds a candidate exactly when an entry of the pool may be dispatched. The candidate is the first
such entry of its queue and the only one to leave; without a candidate nothing but credits, cursors and the
rotation of the pool changes. -/
theorem selection_sound_complete (h : Reached poolConfigs c) (pool : PoolID) (now : Time)
    (eligible : WorkSpec → Bool) (tick : Nat) :
    let s := c.selectCandidateEligible pool (fun _ => now) eligible tick
    (s.candidate = none ↔ ∀ entry, ¬ c.Ready pool now eligible entry) ∧
    (∀ entry, s.candidate = some entry → c.Ready pool now eligible entry ∧
      (∀ earlier, c.Precedes earlier entry → ¬ c.Ready pool now eligible earlier) ∧
      c.waiting = entry ::ₘ s.controller.waiting ∧ ∀ a b, s.controller.Precedes a b → c.Precedes a b) ∧
    (s.candidate = none → ∃ pools, s.controller = { c with pools := pools } ∧
      ∀ p, (pools.lookup p).map contents = (c.pools.lookup p).map contents) := by
  intro s
  have hspec := selectCandidateEligible_spec h.wf pool (fun _ => now) eligible tick
  have hsome : ∀ entry, s.candidate = some entry → c.Ready pool now eligible entry ∧
      (∀ earlier, c.Precedes earlier entry → ¬ c.Ready pool now eligible earlier) ∧
      c.waiting = entry ::ₘ s.controller.waiting ∧ ∀ a b, s.controller.Precedes a b → c.Precedes a b := by
    intro entry hc
    obtain ⟨htook, hpool, hunsaturated, -, -, -, hok, hear⟩ := hspec.some entry hc
    have hmem : entry ∈ c.waiting := htook.waiting ▸ Multiset.mem_cons_self _ _
    refine ⟨ready_iff.mpr ⟨hmem, hpool, hunsaturated, hok⟩, fun earlier hprecedes hready => ?_, htook.waiting, htook.order⟩
    have hno := hear earlier hprecedes
    rw [(ready_iff.mp hready).2.2.2] at hno
    cases hno
  refine ⟨⟨fun hc entry hready => ?_, fun hall => ?_⟩, hsome, selectCandidateEligible_contents⟩
  · obtain ⟨hmem, hpool, hunsaturated, hok⟩ := ready_iff.mp hready
    rcases (hspec.none hc).2.2.2 entry hmem hpool with hfull | ⟨_, -, -, hno⟩
    · rw [hunsaturated] at hfull
      cases hfull
    · rw [hok] at hno
      cases hno
  · cases hc : s.candidate with
    | none => rfl
    | some entry => exact absurd (hsome entry hc).1 (hall entry)

/-- Behind an entry whose deadline has passed, the next one of the queue is selected. -/
theorem selection_behind_expired :
    let c := ((newController (AList.singleton [0] defaultPoolConfig)).enqueue
      ⟨{ id := [1], quotaOwner := [], pool := [0], queueDeadline := 4 }, 0, 0⟩).enqueue
      ⟨{ id := [2], quotaOwner := [], pool := [0] }, 0, 0⟩
    ∃ entry, entry.spec.id = [2] ∧ c.Ready [0] 5 (fun _ => true) entry := by
  intro c
  have hreach : Reached (AList.singleton [0] defaultPoolConfig) c :=
    .enqueue _ (.enqueue _ .new (by decide +kernel)) (by decide +kernel)
  have hspec := (selection_sound_complete hreach [0] 5 (fun _ => true) 0).2.1
  cases hc : (c.selectCandidateEligible [0] (fun _ => 5) (fun _ => true) 0).candidate with
  | none => exact absurd hc (by decide +kernel)
  | some entry =>
    have hid : (c.selectCandidateEligible [0] (fun _ => 5) (fun _ => true) 0).candidate.map (·.spec.id) = some [2] := by
      decide +kernel
    rw [hc] at hid
    exact ⟨entry, some.inj hid, (hspec entry hc).1⟩

end Controller

end Goultroid.Admission
