import Goultroid.Engine.Coherence
import Mathlib.Algebra.Order.Group.Multiset

/-!
# The ledger of physical slots

A `Token` is an assignment that was sent and has not come back, with the slot it was sent to. Those in
a mailbox are read off the engine; those with a worker or on the way back are `outside`. `Slots` says
that a slot has one token when it runs and is not idle, and none otherwise, and that every running slot
has a mailbox of its own. It follows that the mailbox of an idle slot is empty, so that the loop never
blocks on a send. Every `Micro` step other than a slot's return keeps the ledger for the same `outside`.

A step concerns the slots of one pool, and is checked against these only (`Slots.change`,
`Slots.reshape`). A spawn gives a running slot with an empty mailbox under a new number, an assignment
makes the head of the idle list busy and adds a token for it, a retirement takes a slot that has none.
-/

namespace Goultroid

open List Multiset AList Option Engine

variable {assignment : Assignment} {ch : ChanID} {pool : PoolID} {slot : Nat} {box : List Assignment} {wp : WorkerPool}

structure Token where
  pool : PoolID
  slot : Nat
  assignment : Assignment
  deriving DecidableEq

abbrev Token.At (pool : PoolID) (slot : Nat) (t : Token) : Prop := t.pool = pool ∧ t.slot = slot

/-- The tokens in the mailbox `ch`. -/
def boxTokens (homes : AList fun _ : ChanID => PoolID × Nat) (ch : ChanID) (box : List Assignment) :
    Multiset Token :=
  match homes.lookup ch with
  | none => 0
  | some home => (box.map fun assignment => (⟨home.1, home.2, assignment⟩ : Token) : List Token)

def Engine.mailTokens (e : Engine) : Multiset Token := AList.total (boxTokens e.homes) e.mail

def Engine.busy (e : Engine) (pool : PoolID) (slot : Nat) : Bool :=
  match e.pools.lookup pool with
  | none => false
  | some wp => decide (wp.running[slot]? = some true ∧ slot ∉ wp.idleSlots)

section Boxes

variable {homes : AList fun _ : ChanID => PoolID × Nat}

theorem boxTokens_nil : boxTokens homes ch [] = 0 := by
  unfold boxTokens
  split <;> rfl

theorem boxTokens_cons (h : homes.lookup ch = some (pool, slot)) :
    boxTokens homes ch (assignment :: box) = ⟨pool, slot, assignment⟩ ::ₘ boxTokens homes ch box := by
  simp [boxTokens, h]

end Boxes

namespace Engine

variable {e e' : Engine}

theorem mem_mailTokens (hmail : e.mail.lookup ch = some (assignment :: box)) (hhome : e.homes.lookup ch = some (pool, slot)) :
    (⟨pool, slot, assignment⟩ : Token) ∈ e.mailTokens := by
  refine mem_total.mpr ⟨ch, _, hmail, ?_⟩
  rw [boxTokens_cons hhome]
  exact mem_cons_self _ _

theorem mailTokens_send (hmail : e.mail.lookup ch = some []) (hhome : e.homes.lookup ch = some (pool, slot)) (hhomes : e'.homes = e.homes)
    (hsend : e'.mail = e.mail.insert ch [assignment]) : e'.mailTokens = ⟨pool, slot, assignment⟩ ::ₘ e.mailTokens := by
  have htotal := total_insert_change (f := boxTokens e.homes) (g := boxTokens e.homes)
    (v := [assignment]) hmail fun _ _ _ _ => rfl
  rw [boxTokens_nil, add_zero, boxTokens_cons hhome, boxTokens_nil, cons_zero, add_comm,
    singleton_add] at htotal
  rw [mailTokens, hhomes, hsend]
  exact htotal

theorem mailTokens_spawn {home : PoolID × Nat} (hfresh : e.mail.lookup ch = none)
    (hhomes : e'.homes = e.homes.insert ch home) (hmail : e'.mail = e.mail.insert ch []) : e'.mailTokens = e.mailTokens := by
  have htotal := total_insert_fresh (f := boxTokens e.homes) (g := boxTokens e'.homes) (v := []) hfresh
    fun ch' box hne _ => by rw [boxTokens, boxTokens, hhomes, lookup_insert_ne hne]
  rw [boxTokens_nil, add_zero] at htotal
  rw [mailTokens, hmail]
  exact htotal

theorem mailTokens_receive (hmail : e.mail.lookup ch = some (assignment :: box)) (hhome : e.homes.lookup ch = some (pool, slot)) :
    e.mailTokens = ⟨pool, slot, assignment⟩ ::ₘ (e.receive ch).mailTokens := by
  have htail : (e.mail.getD ch []).tail = box := by rw [getD_of_lookup hmail, tail_cons]
  have htotal := total_insert_change (f := boxTokens e.homes) (g := boxTokens e.homes) (v := box) hmail
    fun _ _ _ _ => rfl
  rw [boxTokens_cons hhome, add_cons, ← cons_add] at htotal
  rw [mailTokens, mailTokens, Engine.receive, htail]
  exact (add_right_cancel htotal).symm

theorem busy_of_lookup (hwp : e.pools.lookup pool = some wp) :
    e.busy pool slot = decide (wp.running[slot]? = some true ∧ slot ∉ wp.idleSlots) := by
  simp [busy, hwp]

theorem busy_of_insert (hpools : e'.pools = e.pools.insert pool wp) :
    e'.busy pool slot = decide (wp.running[slot]? = some true ∧ slot ∉ wp.idleSlots) :=
  busy_of_lookup (hpools ▸ lookup_insert _)

theorem busy_of_ne {pool' : PoolID} (hpools : e'.pools = e.pools.insert pool wp)
    (hne : pool' ≠ pool) : e'.busy pool' slot = e.busy pool' slot := by
  simp only [busy, hpools, lookup_insert_ne hne]

end Engine

/-- Every slot has the tokens it should have. -/
structure Slots (e : Engine) (outside : Multiset Token) : Prop where
  nodup : ∀ {pool wp}, e.pools.lookup pool = some wp → wp.idleSlots.Nodup
  running : ∀ {pool wp} {slot : Nat}, e.pools.lookup pool = some wp → slot ∈ wp.idleSlots →
    wp.running[slot]? = some true
  length : ∀ {pool wp}, e.pools.lookup pool = some wp → wp.mailboxes.length = wp.running.length
  box : ∀ {pool wp} {slot : Nat}, e.pools.lookup pool = some wp → wp.running[slot]? = some true →
    ∃ ch, wp.mailboxes[slot]? = some (some ch) ∧ ch ∉ e.retired
  home : ∀ {pool wp} {slot : Nat} {ch}, e.pools.lookup pool = some wp → wp.mailboxes[slot]? = some (some ch) →
    e.homes.lookup ch = some (pool, slot) ∧ ∃ box, e.mail.lookup ch = some box
  homes_lt : ∀ {ch home}, e.homes.lookup ch = some home → ch < e.nextChan
  mail_lt : ∀ {ch box}, e.mail.lookup ch = some box → ch < e.nextChan
  retired_lt : ∀ {ch}, ch ∈ e.retired → ch < e.nextChan
  stale : ∀ {ch box}, ch ∈ e.retired → e.mail.lookup ch = some box → box = []
  count : ∀ pool slot, (e.mailTokens + outside).countP (Token.At pool slot) =
    if e.busy pool slot = true then 1 else 0
  unblocked : e.faults.mailboxBlocked = false

namespace Slots

theorem nodup_concat {idle : List Nat} (h : idle.Nodup) (hnot : slot ∉ idle) : (idle ++ [slot]).Nodup := by
  rw [← concat_eq_append]
  exact h.concat hnot

section

variable {e e' : Engine} {outside outside' : Multiset Token} (h : Slots e outside) {wp' : WorkerPool}
include h

theorem congr (hpools : e'.pools = e.pools) (hmail : e'.mail = e.mail)
    (hhomes : e'.homes = e.homes) (hretired : e'.retired = e.retired) (hnext : e'.nextChan = e.nextChan)
    (hfaults : e'.faults.mailboxBlocked = e.faults.mailboxBlocked) : Slots e' outside := by
  have htok : e'.mailTokens = e.mailTokens := by rw [Engine.mailTokens, hhomes, hmail, Engine.mailTokens]
  have hbusy : ∀ pool slot, e'.busy pool slot = e.busy pool slot := fun pool slot => by
    rw [Engine.busy, hpools, Engine.busy]
  refine ⟨?_, ?_, ?_, ?_, ?_, ?_, ?_, ?_, ?_, ?_, hfaults.trans h.unblocked⟩ <;>
    simp only [hpools, hmail, hhomes, hretired, hnext, htok, hbusy]
  · exact h.nodup
  · exact h.running
  · exact h.length
  · exact h.box
  · exact h.home
  · exact h.homes_lt
  · exact h.mail_lt
  · exact h.retired_lt
  · exact h.stale
  · exact h.count

theorem mailbox_empty (hwp : e.pools.lookup pool = some wp)
    (hidle : e.busy pool slot = false) (hbox : wp.mailboxes[slot]? = some (some ch)) : e.mail.lookup ch = some [] := by
  obtain ⟨hhome, box, hmail⟩ := h.home hwp hbox
  cases box with
  | nil => exact hmail
  | cons =>
    have hcount := h.count pool slot
    rw [hidle, if_neg (by simp), Multiset.countP_eq_zero] at hcount
    exact absurd ⟨rfl, rfl⟩ (hcount _ (mem_add.mpr (.inl (mem_mailTokens hmail hhome))))

theorem idle_box (hwp : e.pools.lookup pool = some wp) (hmem : slot ∈ wp.idleSlots) :
    ∃ ch, wp.mailboxes[slot]? = some (some ch) ∧ ch ∉ e.retired ∧ e.homes.lookup ch = some (pool, slot) ∧ e.mail.lookup ch = some [] := by
  obtain ⟨ch, hbox, hlive⟩ := h.box hwp (h.running hwp hmem)
  refine ⟨ch, hbox, hlive, (h.home hwp hbox).1, h.mailbox_empty hwp ?_ hbox⟩
  rw [busy_of_lookup hwp]
  simp [hmem]

/-- One pool changes: its slots are as they should be, mailboxes stay where they are, and only mailboxes
of this pool are retired. -/
theorem change (hpools : e'.pools = e.pools.insert pool wp')
    (hnodup : wp'.idleSlots.Nodup) (hrunning : ∀ slot ∈ wp'.idleSlots, wp'.running[slot]? = some true)
    (hlen : wp'.mailboxes.length = wp'.running.length)
    (hbox : ∀ slot : Nat, wp'.running[slot]? = some true → ∃ ch, wp'.mailboxes[slot]? = some (some ch) ∧ ch ∉ e'.retired)
    (hhome : ∀ (slot : Nat) ch, wp'.mailboxes[slot]? = some (some ch) →
      e'.homes.lookup ch = some (pool, slot) ∧ ∃ box, e'.mail.lookup ch = some box)
    (hhomes : ∀ ch home, e.homes.lookup ch = some home → e'.homes.lookup ch = some home)
    (hmail : ∀ ch box, e.mail.lookup ch = some box → ∃ box', e'.mail.lookup ch = some box')
    (hretired : ∀ ch ∈ e'.retired, ch ∈ e.retired ∨ ∃ slot, e.homes.lookup ch = some (pool, slot))
    (hhomes_lt : ∀ ch home, e'.homes.lookup ch = some home → ch < e'.nextChan)
    (hmail_lt : ∀ ch box, e'.mail.lookup ch = some box → ch < e'.nextChan) (hretired_lt : ∀ ch ∈ e'.retired, ch < e'.nextChan)
    (hstale : ∀ ch box, ch ∈ e'.retired → e'.mail.lookup ch = some box → box = [])
    (hcount : ∀ pool slot, (e'.mailTokens + outside').countP (Token.At pool slot) = if e'.busy pool slot = true then 1 else 0)
    (hfaults : e'.faults.mailboxBlocked = e.faults.mailboxBlocked) : Slots e' outside' := by
  have hlook : ∀ {p w}, e'.pools.lookup p = some w →
      (p = pool ∧ w = wp') ∨ (p ≠ pool ∧ e.pools.lookup p = some w) :=
    fun hw => of_lookup_insert (hpools ▸ hw)
  refine ⟨?_, ?_, ?_, ?_, ?_, fun hx => hhomes_lt _ _ hx, fun hx => hmail_lt _ _ hx,
    fun hx => hretired_lt _ hx, fun hx => hstale _ _ hx, hcount, hfaults.trans h.unblocked⟩
  · intro p w hw
    rcases hlook hw with ⟨-, rfl⟩ | ⟨-, hw⟩
    · exact hnodup
    · exact h.nodup hw
  · intro p w slot hw hmem
    rcases hlook hw with ⟨-, rfl⟩ | ⟨-, hw⟩
    · exact hrunning slot hmem
    · exact h.running hw hmem
  · intro p w hw
    rcases hlook hw with ⟨-, rfl⟩ | ⟨-, hw⟩
    · exact hlen
    · exact h.length hw
  · intro p w slot hw hrun
    rcases hlook hw with ⟨-, rfl⟩ | ⟨hp, hw⟩
    · exact hbox slot hrun
    · obtain ⟨ch, hch, hlive⟩ := h.box hw hrun
      refine ⟨ch, hch, fun hin => ?_⟩
      rcases hretired ch hin with hin | ⟨slot', hslot'⟩
      · exact hlive hin
      · rw [(h.home hw hch).1] at hslot'
        exact hp (Prod.mk.inj (some.inj hslot')).1
  · intro p w slot ch hw hch
    rcases hlook hw with ⟨rfl, rfl⟩ | ⟨-, hw⟩
    · exact hhome slot ch hch
    · obtain ⟨hx, box, hbox'⟩ := h.home hw hch
      exact ⟨hhomes _ _ hx, hmail _ _ hbox'⟩

/-- Only the idle list of a pool changes. -/
theorem reshape (hwp : e.pools.lookup pool = some wp) (hrunning : wp'.running = wp.running)
    (hboxes : wp'.mailboxes = wp.mailboxes) (hnodup : wp'.idleSlots.Nodup) (hidle : ∀ slot ∈ wp'.idleSlots, wp.running[slot]? = some true)
    (hcount : ∀ p slot, (e.mailTokens + outside').countP (Token.At p slot) =
      if (e.setPool pool wp').busy p slot = true then 1 else 0) : Slots (e.setPool pool wp') outside' := by
  refine h.change (show (e.setPool pool wp').pools = e.pools.insert pool wp' from rfl) hnodup ?_ ?_ ?_ ?_
    (fun _ _ => id) (fun _ box hx => ⟨box, hx⟩) (fun _ hx => .inl hx) (fun _ _ => h.homes_lt)
    (fun _ _ => h.mail_lt) (fun _ => h.retired_lt) (fun _ _ => h.stale) hcount rfl
  · rw [hrunning]
    exact hidle
  · rw [hboxes, hrunning]
    exact h.length hwp
  · rw [hboxes, hrunning]
    exact fun _ => h.box hwp
  · rw [hboxes]
    exact fun _ _ => h.home hwp

theorem touch (hwp : e.pools.lookup pool = some wp) (hidle : wp'.idleSlots = wp.idleSlots) (hrunning : wp'.running = wp.running)
    (hboxes : wp'.mailboxes = wp.mailboxes) : Slots (e.setPool pool wp') outside := by
  refine h.reshape hwp hrunning hboxes (hidle ▸ h.nodup hwp) ?_ fun p slot => ?_
  · rw [hidle]
    exact fun _ => h.running hwp
  · have hbusy : (e.setPool pool wp').busy p slot = e.busy p slot := by
      by_cases hp : p = pool
      · subst hp
        rw [busy_of_lookup hwp, busy_of_insert rfl, hidle, hrunning]
      · exact busy_of_ne rfl hp
    rw [hbusy]
    exact h.count p slot

/-- The head of the idle list takes an assignment: one more token, for a slot that had none. -/
theorem assign {idle : List Nat} (hwp : e.pools.lookup pool = some wp) (hhead : wp.idleSlots = slot :: idle)
    (hbox : wp.mailboxes[slot]? = some (some ch)) (hpools : e'.pools = e.pools.insert pool wp')
    (hidle : wp'.idleSlots = idle) (hrunning : wp'.running = wp.running) (hboxes : wp'.mailboxes = wp.mailboxes)
    (hmail : e'.mail = e.mail.insert ch [assignment]) (hhomes : e'.homes = e.homes)
    (hretired : e'.retired = e.retired) (hnext : e'.nextChan = e.nextChan) (hfaults : e'.faults.mailboxBlocked = e.faults.mailboxBlocked) :
    Slots e' outside ∧ e'.mailTokens = ⟨pool, slot, assignment⟩ ::ₘ e.mailTokens := by
  have hmem : slot ∈ wp.idleSlots := by simp [hhead]
  obtain ⟨ch', hbox', hlive, hhome, hempty⟩ := h.idle_box hwp hmem
  obtain rfl : ch = ch' := some.inj (some.inj (hbox.symm.trans hbox'))
  have htok := mailTokens_send hempty hhome hhomes hmail
  have hnodup := h.nodup hwp
  rw [hhead, List.nodup_cons] at hnodup
  have hkept : ∀ ch' box, e.mail.lookup ch' = some box → ∃ box', e'.mail.lookup ch' = some box' := by
    intro ch' box hx
    rw [hmail, lookup_insert_eq]
    split_ifs
    · exact ⟨_, rfl⟩
    · exact ⟨box, hx⟩
  refine ⟨h.change hpools ?_ ?_ ?_ ?_ ?_ ?_ hkept ?_ ?_ ?_ ?_ ?_ (fun p x => ?_) hfaults, htok⟩
  · rw [hidle]
    exact hnodup.2
  · intro x hx
    rw [hidle] at hx
    rw [hrunning]
    exact h.running hwp (by simp [hhead, hx])
  · rw [hboxes, hrunning]
    exact h.length hwp
  · rw [hboxes, hrunning, hretired]
    exact fun _ => h.box hwp
  · intro x ch' hx
    rw [hboxes] at hx
    obtain ⟨hhome', box, hbox'⟩ := h.home hwp hx
    rw [hhomes]
    exact ⟨hhome', hkept ch' box hbox'⟩
  · rw [hhomes]
    exact fun _ _ => id
  · rw [hretired]
    exact fun _ hx => .inl hx
  · rw [hhomes, hnext]
    exact fun _ _ => h.homes_lt
  · intro ch' box hx
    rw [hnext]
    rcases of_lookup_insert (hmail ▸ hx) with ⟨rfl, -⟩ | ⟨-, hx⟩
    · exact h.mail_lt hempty
    · exact h.mail_lt hx
  · rw [hretired, hnext]
    exact fun _ => h.retired_lt
  · intro ch' box hstale hx
    rw [hretired] at hstale
    rw [hmail, lookup_insert_ne (by rintro rfl; exact hlive hstale)] at hx
    exact h.stale hstale hx
  · -- the slot had no token and is idle no more; every other slot is as it was
    rw [htok, Multiset.cons_add, Multiset.countP_cons, h.count]
    by_cases hp : p = pool
    · subst hp
      rw [busy_of_lookup hwp, busy_of_insert hpools, hidle, hrunning, hhead]
      by_cases hx : x = slot
      · subst hx
        simp [hnodup.1, h.running hwp hmem]
      · simp [hx, Ne.symm hx]
    · rw [busy_of_ne hpools hp]
      simp [Ne.symm hp]

theorem retire (hretire : e.retireWorker pool slot = (true, e')) : Slots e' outside ∧ e'.mailTokens = e.mailTokens := by
  obtain ⟨wp, hwp, hmem, heq⟩ := retireWorker_eq hretire
  obtain ⟨wp', hpools, hidle, hrunning, hboxes⟩ : ∃ wp', e'.pools = e.pools.insert pool wp' ∧
      wp'.idleSlots = wp.idleSlots.erase slot ∧ wp'.running = wp.running.set slot false ∧
      wp'.mailboxes = wp.mailboxes := by
    rw [heq]
    exact ⟨_, rfl, rfl, rfl, rfl⟩
  obtain ⟨ch, hbox, _, hhome, hempty⟩ := h.idle_box hwp hmem
  have hmail : e'.mail = e.mail := by rw [heq]; rfl
  have hhomes : e'.homes = e.homes := by rw [heq]; rfl
  have hnext : e'.nextChan = e.nextChan := by rw [heq]; rfl
  have hretired : ∀ {ch'}, ch' ∈ e'.retired ↔ ch' = ch ∨ ch' ∈ e.retired := by
    intro ch'
    rw [heq]
    simp [hbox]
  have htok : e'.mailTokens = e.mailTokens := by rw [Engine.mailTokens, hmail, hhomes, Engine.mailTokens]
  have hlt : slot < wp.running.length := (List.getElem?_eq_some_iff.mp (h.running hwp hmem)).1
  have hfaults : e'.faults.mailboxBlocked = e.faults.mailboxBlocked := by rw [heq]; rfl
  refine ⟨h.change hpools ?_ ?_ ?_ ?_ ?_ ?_ ?_ ?_ ?_ ?_ ?_ ?_ (fun p x => ?_) hfaults, htok⟩
  · rw [hidle]
    exact (h.nodup hwp).erase slot
  · intro x hx
    rw [hidle] at hx
    have hne : x ≠ slot := fun heq => Nodup.not_mem_erase (h.nodup hwp) (heq ▸ hx)
    rw [hrunning, getElem?_set_ne (Ne.symm hne)]
    exact h.running hwp (mem_of_mem_erase hx)
  · rw [hboxes, hrunning, length_set]
    exact h.length hwp
  · intro x hx
    have hne : x ≠ slot := by
      rintro rfl
      simp [hrunning, hlt] at hx
    rw [hrunning, getElem?_set_ne (Ne.symm hne)] at hx
    obtain ⟨ch', hbox', hlive'⟩ := h.box hwp hx
    rw [hboxes]
    refine ⟨ch', hbox', fun hin => ?_⟩
    rcases hretired.mp hin with rfl | hin
    · rw [(h.home hwp hbox').1] at hhome
      exact hne (Prod.mk.inj (some.inj hhome)).2
    · exact hlive' hin
  · rw [hboxes, hhomes, hmail]
    exact fun _ _ => h.home hwp
  · rw [hhomes]
    exact fun _ _ => id
  · rw [hmail]
    exact fun _ box hx => ⟨box, hx⟩
  · intro ch' hin
    rcases hretired.mp hin with rfl | hin
    · exact .inr ⟨slot, hhome⟩
    · exact .inl hin
  · rw [hhomes, hnext]
    exact fun _ _ => h.homes_lt
  · rw [hmail, hnext]
    exact fun _ _ => h.mail_lt
  · intro ch' hin
    rw [hnext]
    rcases hretired.mp hin with rfl | hin
    · exact h.mail_lt hempty
    · exact h.retired_lt hin
  · intro ch' box hin hx
    rw [hmail] at hx
    rcases hretired.mp hin with rfl | hin
    · exact (some.inj (hempty.symm.trans hx)).symm
    · exact h.stale hin hx
  · have hbusy : e'.busy p x = e.busy p x := by
      by_cases hp : p = pool
      · subst hp
        rw [busy_of_lookup hwp, busy_of_insert hpools, hrunning, hidle]
        by_cases hx : x = slot
        · subst hx
          simp [hlt, hmem]
        · simp only [List.getElem?_set_ne (Ne.symm hx), List.mem_erase_of_ne hx]
      · exact busy_of_ne hpools hp
    rw [hbusy, htok]
    exact h.count p x

theorem spawn {env : Env} {e1 : Engine} (hwp : e.pools.lookup pool = some wp) (hspawn : e.spawnWorker env pool slot = some e1) :
    Slots (e1.pushIdle pool slot) outside ∧ (e1.pushIdle pool slot).mailTokens = e.mailTokens := by
  have hstop := spawnWorker_free hwp hspawn
  have heq := spawn_pushIdle_eq hwp hspawn
  obtain ⟨e', he'⟩ : ∃ e', e' = e1.pushIdle pool slot := ⟨_, rfl⟩
  rw [← he'] at heq ⊢
  obtain ⟨wp', hpools, hidle, hrunning, hboxes⟩ : ∃ wp', e'.pools = e.pools.insert pool wp' ∧
      wp'.idleSlots = wp.idleSlots ++ [slot] ∧ wp'.running = wp.running.set slot true ∧
      wp'.mailboxes = wp.mailboxes.set slot (some e.nextChan) := by
    rw [heq]
    exact ⟨_, rfl, rfl, rfl, rfl⟩
  have hmail : e'.mail = e.mail.insert e.nextChan [] := by rw [heq]
  have hhomes : e'.homes = e.homes.insert e.nextChan (pool, slot) := by rw [heq]
  have hnext : e'.nextChan = e.nextChan + 1 := by rw [heq]
  have hretired : e'.retired = e.retired := by rw [heq]
  have hfaults : e'.faults.mailboxBlocked = e.faults.mailboxBlocked := by rw [heq]
  have hfresh : e.mail.lookup e.nextChan = none := by
    cases hx : e.mail.lookup e.nextChan with
    | none => rfl
    | some => exact absurd (h.mail_lt hx) (lt_irrefl _)
  have htok : e'.mailTokens = e.mailTokens := mailTokens_spawn hfresh hhomes hmail
  have hlt : slot < wp.running.length := (List.getElem?_eq_some_iff.mp hstop).1
  have hlt' : slot < wp.mailboxes.length := by rw [h.length hwp]; exact hlt
  have hnot : slot ∉ wp.idleSlots := fun hin => by
    have hrun := h.running hwp hin
    rw [hstop] at hrun
    cases hrun
  have hkept : ∀ ch home, e.homes.lookup ch = some home → e'.homes.lookup ch = some home := by
    intro ch home hx
    rw [hhomes, lookup_insert_ne (h.homes_lt hx).ne]
    exact hx
  have hbox' : ∀ ch box, e.mail.lookup ch = some box → ∃ box', e'.mail.lookup ch = some box' := by
    intro ch box hx
    rw [hmail, lookup_insert_ne (h.mail_lt hx).ne]
    exact ⟨box, hx⟩
  refine ⟨h.change hpools ?_ ?_ ?_ ?_ ?_ hkept hbox' ?_ ?_ ?_ ?_ ?_ (fun p x => ?_) hfaults, htok⟩
  · rw [hidle]
    exact nodup_concat (h.nodup hwp) hnot
  · intro x hx
    rw [hidle] at hx
    rw [hrunning]
    by_cases hxs : x = slot
    · subst hxs
      simp [hlt]
    · rw [getElem?_set_ne (Ne.symm hxs)]
      refine h.running hwp ((mem_append.mp hx).resolve_right ?_)
      simpa using hxs
  · rw [hboxes, hrunning, length_set, length_set]
    exact h.length hwp
  · intro x hx
    rw [hboxes, hretired]
    by_cases hxs : x = slot
    · subst hxs
      refine ⟨e.nextChan, by simp [hlt'], fun hin => ?_⟩
      exact absurd (h.retired_lt hin) (lt_irrefl _)
    · rw [hrunning, getElem?_set_ne (Ne.symm hxs)] at hx
      rw [getElem?_set_ne (Ne.symm hxs)]
      exact h.box hwp hx
  · intro x ch hx
    rw [hboxes] at hx
    by_cases hxs : x = slot
    · subst hxs
      rw [getElem?_set_self hlt'] at hx
      obtain rfl := some.inj (some.inj hx)
      rw [hhomes, hmail]
      exact ⟨lookup_insert _, [], lookup_insert _⟩
    · rw [getElem?_set_ne (Ne.symm hxs)] at hx
      obtain ⟨hhome, box, hbox⟩ := h.home hwp hx
      exact ⟨hkept ch _ hhome, hbox' ch box hbox⟩
  · rw [hretired]
    exact fun _ hx => .inl hx
  · intro ch home hx
    rw [hnext]
    rcases of_lookup_insert (hhomes ▸ hx) with ⟨rfl, -⟩ | ⟨-, hx⟩
    · exact Nat.lt_succ_self _
    · exact (h.homes_lt hx).trans (Nat.lt_succ_self _)
  · intro ch box hx
    rw [hnext]
    rcases of_lookup_insert (hmail ▸ hx) with ⟨rfl, -⟩ | ⟨-, hx⟩
    · exact Nat.lt_succ_self _
    · exact (h.mail_lt hx).trans (Nat.lt_succ_self _)
  · intro ch hin
    rw [hretired] at hin
    rw [hnext]
    exact (h.retired_lt hin).trans (Nat.lt_succ_self _)
  · intro ch box hin hx
    rw [hretired] at hin
    rw [hmail, lookup_insert_ne (h.retired_lt hin).ne] at hx
    exact h.stale hin hx
  · have hbusy : e'.busy p x = e.busy p x := by
      by_cases hp : p = pool
      · subst hp
        rw [busy_of_lookup hwp, busy_of_insert hpools, hrunning, hidle]
        by_cases hxs : x = slot
        · subst hxs
          simp [hstop]
        · simp [getElem?_set_ne (Ne.symm hxs), hxs]
      · exact busy_of_ne hpools hp
    rw [hbusy, htok]
    exact h.count p x

theorem receive {rest : List Assignment}
    (hmail : e.mail.lookup ch = some (assignment :: rest)) (hhome : e.homes.lookup ch = some (pool, slot)) :
    Slots (e.receive ch) (⟨pool, slot, assignment⟩ ::ₘ outside) := by
  have htail : (e.receive ch).mail = e.mail.insert ch rest := by
    simp [Engine.receive, getD_of_lookup hmail]
  have htok : (e.receive ch).mailTokens + (⟨pool, slot, assignment⟩ ::ₘ outside) = e.mailTokens + outside := by
    rw [mailTokens_receive hmail hhome, add_cons, cons_add]
  refine ⟨h.nodup, h.running, h.length, h.box, fun hwp hbox => ?_, h.homes_lt, fun {ch' box} hx => ?_,
    h.retired_lt, fun {ch' box} hin hx => ?_, fun p x => ?_, h.unblocked⟩
  · obtain ⟨hhome', box, hbox'⟩ := h.home hwp hbox
    refine ⟨hhome', ?_⟩
    rw [htail, lookup_insert_eq]
    split_ifs
    · exact ⟨rest, rfl⟩
    · exact ⟨box, hbox'⟩
  · rcases of_lookup_insert (htail ▸ hx) with ⟨rfl, -⟩ | ⟨-, hx⟩
    · exact h.mail_lt hmail
    · exact h.mail_lt hx
  · have hne : ch' ≠ ch := by
      rintro rfl
      cases h.stale hin hmail
    rw [htail, lookup_insert_ne hne] at hx
    exact h.stale hin hx
  · rw [htok]
    exact h.count p x

theorem returned {t : Token} (ht : t ∈ outside) :
    ∃ wp, e.pools.lookup t.pool = some wp ∧ wp.running[t.slot]? = some true ∧ t.slot ∉ wp.idleSlots ∧
      ∀ idleSince,
        Slots (e.setPool t.pool { wp with idleSince := idleSince, idleSlots := wp.idleSlots ++ [t.slot] })
          (outside.erase t) := by
  have hcount := h.count t.pool t.slot
  have hpos : 0 < (e.mailTokens + outside).countP (Token.At t.pool t.slot) :=
    countP_pos.mpr ⟨t, mem_add.mpr (.inr ht), rfl, rfl⟩
  have hbusy : e.busy t.pool t.slot = true := by
    by_contra hnot
    rw [if_neg hnot] at hcount
    omega
  obtain ⟨wp, hwp⟩ : ∃ wp, e.pools.lookup t.pool = some wp := by
    cases hwp : e.pools.lookup t.pool with
    | none => simp [Engine.busy, hwp] at hbusy
    | some wp => exact ⟨wp, rfl⟩
  rw [busy_of_lookup hwp, decide_eq_true_eq] at hbusy
  obtain ⟨hrun, hnot⟩ := hbusy
  refine ⟨wp, hwp, hrun, hnot, fun idleSince => ?_⟩
  refine h.reshape hwp rfl rfl (nodup_concat (h.nodup hwp) hnot) (fun x hx => ?_) fun p x => ?_
  · rcases mem_append.mp hx with hx | hx
    · exact h.running hwp hx
    · rw [List.mem_singleton.mp hx]
      exact hrun
  · have hx := h.count p x
    rw [← Multiset.cons_erase ht, Multiset.add_cons, Multiset.countP_cons] at hx
    by_cases hp : p = t.pool
    · subst hp
      rw [busy_of_lookup hwp] at hx
      rw [busy_of_insert rfl]
      by_cases hxs : x = t.slot
      · subst hxs
        rw [if_pos ⟨rfl, rfl⟩, if_pos (by simp [hrun, hnot])] at hx
        rw [if_neg (by simp)]
        omega
      · rw [if_neg (fun hat => hxs hat.2.symm), add_zero] at hx
        simp [hx, hxs]
    · rw [if_neg (fun hat => hp hat.1.symm), add_zero] at hx
      rw [busy_of_ne rfl hp]
      exact hx

end

end Slots

end Goultroid
