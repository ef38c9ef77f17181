import Goultroid.Engine.Slots

/-!
# Permits and their holders

Every dispatching or running record holds a permit of its own, and an outstanding assignment carries
it. `PermitChange` says what a step does to the permits in force: it keeps them, or issues a new one
with an assignment. A permit stays in force until its attempt is released.

`Micro.permitChange` reads the change off every step once. That every record in flight has its token
(`Tally`) and that a permit which is given up never comes back (`Relinquished`) then follow from the
change alone, as a new permit has a number that was not given out before.
-/

namespace Goultroid

open Multiset AList

variable {s s' : Stage} {permit : Permit} {env : Env} {al : Allowance} {outside : Multiset Token}

/-- The record `r'` is in flight at `s`, under the same permit. -/
def Stage.Carries (s : Stage) (id : TaskID) (r' : TaskRecord) : Prop :=
  ∃ r, s.engine.registry.lookup id = some r ∧ r.state.isActive = true ∧ id ∉ s.detached ∧
    r'.permit = r.permit ∧ r'.dispatchEpoch = r.dispatchEpoch ∧ r'.spec = r.spec

/-- The ledger of the slots stays, for any tokens outside. -/
def SameLedger (e e' : Engine) : Prop :=
  ∀ outside, Slots e outside → Slots e' outside ∧ e'.mailTokens = e.mailTokens

inductive PermitChange (s s' : Stage) : Prop where
  | kept (hnext : s'.engine.nextPermit = s.engine.nextPermit)
    (hkeep : ∀ id r', s'.engine.registry.lookup id = some r' → r'.state.isActive = true →
      id ∉ s'.detached → s.Carries id r')
    (hledger : SameLedger s.engine s'.engine)
  | issued (slot : Nat) (permit : Permit) {r r' : TaskRecord} {pool : PoolID}
    (hr : s.engine.registry.lookup r.spec.id = some r) (hpool : r.spec.pool = pool)
    (hreg : s'.engine.registry = s.engine.registry.insert r.spec.id r') (hdetached : s'.detached = s.detached)
    (hspec : r'.spec = r.spec) (hpermit : r'.permit = some permit)
    (hnew : permit = ⟨s.engine.nextPermit, pool, r.spec.id, r'.dispatchEpoch⟩)
    (hnext : s'.engine.nextPermit = s.engine.nextPermit + 1)
    (htokens : ∀ outside, Slots s.engine outside → Slots s'.engine outside ∧
      s'.engine.mailTokens = ⟨pool, slot, ⟨r.spec, permit⟩⟩ ::ₘ s.engine.mailTokens)

section Kept

variable {id : TaskID} {r' : TaskRecord} {e e' : Engine} {D D' : Finset TaskID}

theorem SameLedger.of_eq (hpools : e'.pools = e.pools) (hmail : e'.mail = e.mail) (hhomes : e'.homes = e.homes)
    (hretired : e'.retired = e.retired) (hnext : e'.nextChan = e.nextChan)
    (hfaults : e'.faults.mailboxBlocked = e.faults.mailboxBlocked) : SameLedger e e' := by
  intro _ h
  refine ⟨h.congr hpools hmail hhomes hretired hnext hfaults, ?_⟩
  rw [Engine.mailTokens, hmail, hhomes, Engine.mailTokens]

theorem PermitChange.same (hnext : e'.nextPermit = e.nextPermit) (hreg : e'.registry = e.registry)
    (hD : D ⊆ D') (hledger : SameLedger e e') : PermitChange ⟨e, D⟩ ⟨e', D'⟩ := by
  refine .kept hnext (fun id x hx hact hnot => ?_) hledger
  refine ⟨x, ?_, hact, fun hin => hnot (hD hin), rfl, rfl, rfl⟩
  rw [← hreg]
  exact hx

theorem PermitChange.replace (hnext : e'.nextPermit = e.nextPermit)
    (hreg : e'.registry = e.registry.insert id r') (hD : ∀ id', id' ≠ id → (id' ∈ D' ↔ id' ∈ D))
    (hrec : r'.state.isActive = true → id ∉ D' → Stage.Carries ⟨e, D⟩ id r') (hledger : SameLedger e e') :
    PermitChange ⟨e, D⟩ ⟨e', D'⟩ := by
  refine .kept hnext (fun id' x hx hact hnot => ?_) hledger
  rw [show e'.registry = _ from hreg] at hx
  rcases of_lookup_insert hx with ⟨hid, rfl⟩ | ⟨hid, hx⟩
  · subst hid
    exact hrec hact hnot
  · exact ⟨x, hx, hact, fun hin => hnot ((hD id' hid).mpr hin), rfl, rfl, rfl⟩

theorem not_active_of_terminal (h : r'.isTerminal = true) (hact : r'.state.isActive = true) : False := by
  rw [Coherent.not_terminal_of_active hact] at h
  cases h

end Kept

theorem Micro.permitChange (step : Micro env al s s') (hidle : ∀ pool slot, ¬al.idle pool slot) (h : Coherent s) : PermitChange s s' := by
  cases step with
  | observe | reserve | scopes | regroup | quiesce | drain | capacity | await =>
    exact .same rfl rfl (Finset.Subset.refl _) (.of_eq rfl rfl rfl rfl rfl rfl)
  | touch idleSince hwp | configure cfg _ _ _ hwp =>
    exact .same rfl rfl (Finset.Subset.refl _) fun _ hslots => ⟨hslots.touch hwp rfl rfl rfl, rfl⟩
  | markIdle idleSince hwp _ hnot hal => exact absurd hal (hidle _ _)
  | unqueue | release | unpend =>
    exact .same rfl rfl (Finset.subset_insert _ _) (.of_eq rfl rfl rfl rfl rfl rfl)
  | publish =>
    exact .replace rfl rfl (fun _ _ => Iff.rfl) (nofun) (.of_eq rfl rfl rfl rfl rfl rfl)
  | @assign e D wp slot tick idle r pool candidate adm hwp hhead hpick hr hstate hD hentry =>
    subst hentry
    refine .issued slot ⟨e.nextPermit, pool, r.spec.id, e.dispatchEpoch + 1⟩ hr hpick.pool rfl rfl rfl rfl rfl
      rfl fun outside hslots => ?_
    obtain ⟨ch, hbox, -, -, hempty⟩ := hslots.idle_box hwp (show slot ∈ wp.idleSlots by simp [hhead])
    refine hslots.assign hwp hhead hbox rfl rfl rfl rfl ?_ rfl rfl rfl ?_
    · simp [Engine.assign, Engine.sendAssignment, Engine.reserveResources, Engine.setPool, hbox,
        getD_of_lookup hempty, entryOf]
    · simp [Engine.assign, Engine.sendAssignment, Engine.sendBlocks, Engine.reserveResources, Engine.setPool,
        hbox, getD_of_lookup hempty]
  | started _ hr hstate hD =>
    exact .replace rfl rfl (fun _ _ => Iff.rfl)
      (fun _ _ => ⟨_, hr, by rw [hstate]; rfl, hD, rfl, rfl, rfl⟩) (.of_eq rfl rfl rfl rfl rfl rfl)
  | markCancel _ hr hact =>
    exact .replace rfl rfl (fun _ _ => Iff.rfl) (fun _ hnot => ⟨_, hr, hact, hnot, rfl, rfl, rfl⟩)
      (.of_eq rfl rfl rfl rfl rfl rfl)
  | @settle e D id r rec delta hr hD hrec =>
    have hreg := h.registry_settleRecord env hr hrec
    refine .replace rfl hreg (fun _ => Coherent.mem_erase_iff_of_ne) (fun hact => ?_)
      (.of_eq rfl rfl rfl rfl rfl rfl)
    exact (not_active_of_terminal hrec.terminal hact).elim
  | @pend e D id r rec delta hr hD hact hrec =>
    have hreg := h.registry_pendRecord hr hrec
    refine .replace rfl hreg (fun _ => Coherent.mem_erase_iff_of_ne) (fun hact => ?_)
      (.of_eq rfl rfl rfl rfl rfl rfl)
    rw [hrec.state] at hact
    cases hact
  | @evict e D oldest rest hlist =>
    rcases e.evictOldest_cases oldest rest with ⟨r, hr, hterm, heq⟩ | ⟨-, heq⟩
    · rw [heq]
      refine .kept rfl (fun id x hx hact hnot => ⟨x, ?_, hact, hnot, rfl, rfl, rfl⟩)
        (.of_eq rfl rfl rfl rfl rfl ?_)
      · obtain ⟨-, hx⟩ := of_lookup_erase hx
        exact hx
      · show (if _ then _ else _ : Faults).mailboxBlocked = _
        split_ifs <;> rfl
    · rw [heq]
      exact .same rfl rfl (Finset.Subset.refl _) (.of_eq rfl rfl rfl rfl rfl rfl)
  | spawn hwp hal hspawn =>
    have hledger : SameLedger _ _ := fun _ hslots => hslots.spawn hwp hspawn
    rw [Engine.spawn_pushIdle_eq hwp hspawn] at hledger ⊢
    exact .same rfl rfl (Finset.Subset.refl _) hledger
  | retire hretire =>
    have hledger : SameLedger _ _ := fun _ hslots => hslots.retire hretire
    obtain ⟨wp, -, -, rfl⟩ := Engine.retireWorker_eq hretire
    exact .same rfl rfl (Finset.Subset.refl _) hledger

/-! ### Holders -/

/-- Every record in flight holds the permit of an outstanding assignment of its pool, and no permit is
issued twice. -/
structure Tally (s : Stage) (outside : Multiset Token) : Prop where
  slots : Slots s.engine outside
  holder : ∀ {id r}, s.engine.registry.lookup id = some r → r.state.isActive = true → id ∉ s.detached →
    ∃ slot permit, r.permit = some permit ∧ permit.taskID = id ∧ permit.dispatchEpoch = r.dispatchEpoch ∧
      (⟨r.spec.pool, slot, ⟨r.spec, permit⟩⟩ : Token) ∈ s.engine.mailTokens + outside
  issued : ∀ t ∈ s.engine.mailTokens + outside, t.assignment.permit.addr < s.engine.nextPermit ∧
    t.assignment.permit.taskID = t.assignment.spec.id
  nodup : ((s.engine.mailTokens + outside).map (·.assignment.permit.addr)).Nodup

namespace Tally

theorem step (h : Tally s outside) (hs : Coherent s) (hidle : ∀ pool slot, ¬al.idle pool slot)
    (step : Micro env al s s') : Tally s' outside := by
  cases step.permitChange hidle hs with
  | kept hnext hkeep hledger =>
    obtain ⟨hslots, htokens⟩ := hledger outside h.slots
    refine ⟨hslots, fun {id r'} hr' hact hnot => ?_, ?_, by rw [htokens]; exact h.nodup⟩
    · obtain ⟨r, hr, hact', hnot', hpermit, hepoch, hspec⟩ := hkeep id r' hr' hact hnot
      rw [hpermit, hepoch, hspec, htokens]
      exact h.holder hr hact' hnot'
    · rw [htokens, hnext]
      exact h.issued
  | @issued slot permit r r' pool hr hpool hreg hdetached hspec hpermit hnew hnext htokens =>
    obtain ⟨hslots, htokens⟩ := htokens outside h.slots
    rw [hpool.symm] at htokens hnew
    have haddr : permit.addr = s.engine.nextPermit := by rw [hnew]
    refine ⟨hslots, fun {id x} hx hact hnot => ?_, fun t ht => ?_, ?_⟩
    · rw [hreg, lookup_insert_eq] at hx
      rw [htokens, cons_add]
      split_ifs at hx with hid
      · cases hx
        refine ⟨slot, permit, hpermit, by rw [hnew, hid], by rw [hnew], ?_⟩
        rw [hspec]
        exact mem_cons_self _ _
      · rw [hdetached] at hnot
        obtain ⟨slot', permit', hp, htask, hepoch, hmem⟩ := h.holder hx hact hnot
        exact ⟨slot', permit', hp, htask, hepoch, mem_cons_of_mem hmem⟩
    · rw [htokens, cons_add] at ht
      rw [hnext]
      rcases mem_cons.mp ht with rfl | ht
      · refine ⟨?_, by rw [hnew]⟩
        show permit.addr < _
        omega
      · have hold := h.issued t ht
        exact ⟨by omega, hold.2⟩
    · rw [htokens, cons_add, map_cons, nodup_cons]
      refine ⟨fun hin => ?_, h.nodup⟩
      obtain ⟨t, ht, heq⟩ := mem_map.mp hin
      have hold := (h.issued t ht).1
      replace heq : t.assignment.permit.addr = permit.addr := heq
      omega

end Tally

theorem Steps.ledger (h : Steps env al s s') (hidle : ∀ pool slot, ¬al.idle pool slot) (hs : Coherent s)
    (hledger : Tally s outside) : Tally s' outside :=
  (Steps.keeps (P := fun x => Tally x outside) (fun _ _ step hx htally => htally.step hx hidle step) h hs hledger).2

/-- No record in flight holds this permit, and it is not issued again. -/
structure Relinquished (permit : Permit) (s : Stage) : Prop where
  old : permit.addr < s.engine.nextPermit
  free : ∀ {id r}, s.engine.registry.lookup id = some r → r.state.isActive = true → id ∉ s.detached →
    r.permit ≠ some permit

theorem Relinquished.step (h : Relinquished permit s) (hs : Coherent s) (hidle : ∀ pool slot, ¬al.idle pool slot)
    (step : Micro env al s s') : Relinquished permit s' := by
  cases step.permitChange hidle hs with
  | kept hnext hkeep =>
    refine ⟨by rw [hnext]; exact h.old, fun {id r'} hr' hact hnot => ?_⟩
    obtain ⟨r, hr, hact', hnot', hpermit, -, -⟩ := hkeep id r' hr' hact hnot
    rw [hpermit]
    exact h.free hr hact' hnot'
  | @issued slot new r r' pool hr hpool hreg hdetached hspec hpermit hnew hnext htokens =>
    have hold := h.old
    refine ⟨by omega, fun {id x} hx hact hnot heq => ?_⟩
    rw [hreg] at hx
    rcases of_lookup_insert hx with ⟨hid, rfl⟩ | ⟨hid, hx⟩
    · rw [hpermit] at heq
      have haddr : permit.addr = s.engine.nextPermit := by rw [← Option.some.inj heq, hnew]
      omega
    · rw [hdetached] at hnot
      exact h.free hx hact hnot heq

theorem Steps.relinquished (h : Steps env al s s') (hidle : ∀ pool slot, ¬al.idle pool slot) (hs : Coherent s)
    (hfree : Relinquished permit s) : Relinquished permit s' :=
  (Steps.keeps (fun _ _ step hx hold => hold.step hx hidle step) h hs hfree).2

end Goultroid
