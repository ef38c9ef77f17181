import Goultroid.Engine.Lifecycle

/-!
# Completion callbacks

A credit of the callback lane is held by a record that has not settled, by a queued callback or by one
that a worker has called and that has not returned. There are no more credits than places in the queue,
so a callback whose record settles finds a place. The acceptance of a task with a callback is at exactly
one of four places: its record, the queue, the log of calls, or the log of refusals.

The lane keeps its own account (`Delivery.Sound`): the credits held outside of it, its queue and its
running callbacks are the credits that were taken, whatever its workers do in between. On the side of
the records, `Engine.owed` is the bag of acceptances whose credit their record holds. A settlement takes
one out of that bag and hands it to the lane (`Couriers.settle`), no other step moves one, and so `owed`
and what the lane was dealt make up the bag of all acceptances with a callback.
-/

namespace Goultroid

open List Multiset AList Engine

variable {env : Env} {s s' : Stage} {held : Multiset Nat} {e : Engine} {seq : Nat} {cfg : Config} {r : TaskRecord} {al : Allowance}

/-! ### The lane -/

namespace Delivery

variable {k n : Nat} {d d' : Delivery}

/-- The state of a lane when `k` credits are held outside of it. -/
structure Sound (k : Nat) (d : Delivery) : Prop where
  credits : d.reservations = k + d.queue.length + d.executing.length
  bounded : d.reservations ≤ d.queueCap
  room : d.overflowed = false
  matched : d.unmatched = false
  refused : d.stopping = false → d.refused = []

/-- The acceptances whose callback has come to the lane. -/
def dealt (d : Delivery) : Multiset Nat :=
  (↑(d.queue.map (·.seq)) : Multiset Nat) + ↑d.invoked + ↑d.refused

theorem dealt_releaseReservation : d.releaseReservation.dealt = d.dealt := by
  unfold releaseReservation
  split_ifs <;> rfl

theorem dealt_signalDrained : d.signalDrained.dealt = d.dealt := by
  unfold signalDrained
  split_ifs <;> rfl

theorem dealt_reserve : d.reserve.2.dealt = d.dealt := by
  unfold reserve
  split_ifs <;> rfl

theorem Sound.releaseReservation (h : Sound (k + 1) d) : Sound k d.releaseReservation := by
  have hcredits := h.credits
  have hbounded := h.bounded
  rw [Delivery.releaseReservation, if_pos (by omega)]
  refine ⟨?_, ?_, h.room, h.matched, h.refused⟩
  · show d.reservations - 1 = k + d.queue.length + d.executing.length
    omega
  · show d.reservations - 1 ≤ d.queueCap
    omega

theorem Sound.signalDrained (h : Sound k d) : Sound k d.signalDrained := by
  unfold Delivery.signalDrained
  split_ifs
  · exact h
  · exact ⟨h.credits, h.bounded, h.room, h.matched, h.refused⟩

theorem Sound.reserve (h : Sound k d) (hreserve : d.reserve.1 = true) : Sound (k + 1) d.reserve.2 := by
  have hcredits := h.credits
  unfold Delivery.reserve at hreserve ⊢
  split_ifs at hreserve ⊢ with hstop hlt
  refine ⟨?_, ?_, h.room, h.matched, h.refused⟩
  · show d.reservations + 1 = k + 1 + d.queue.length + d.executing.length
    omega
  · show d.reservations + 1 ≤ d.queueCap
    omega

theorem dealt_enqueueReserved {fn : Closure} {res : TaskResult} : (d.enqueueReserved seq fn res).dealt = d.dealt + {seq} := by
  have hcoe : ∀ l : List Nat, ((l ++ [seq] : List Nat) : Multiset Nat) = ↑l + {seq} := fun l => by
    rw [← coe_add, coe_singleton]
  by_cases hstop : d.stopping = true
  · rw [enqueueReserved, if_pos hstop, dealt_releaseReservation]
    show (↑(d.queue.map (·.seq)) : Multiset Nat) + ↑d.invoked + ↑(d.refused ++ [seq]) = d.dealt + {seq}
    rw [hcoe, dealt, add_assoc _ (d.refused : Multiset Nat)]
  · by_cases hroom : d.queue.length < d.queueCap
    · have heq : d.enqueueReserved seq fn res = { d with
          drained := false, pending := d.pending + 1, queue := d.queue ++ [⟨seq, fn, res⟩] } := by
        simp [enqueueReserved, markBusy, hstop, hroom]
      rw [heq]
      show (↑((d.queue ++ [(⟨seq, fn, res⟩ : DeliveryItem)]).map (·.seq)) : Multiset Nat) + ↑d.invoked +
        ↑d.refused = d.dealt + {seq}
      rw [List.map_append, List.map_singleton, hcoe, dealt]
      abel
    · have heq : d.enqueueReserved seq fn res = (Delivery.releaseReservation { d with
          drained := false, failed := d.failed + 1, refused := d.refused ++ [seq], overflowed := true }).signalDrained := by
        simp [enqueueReserved, markBusy, hstop, hroom]
      rw [heq, dealt_signalDrained, dealt_releaseReservation]
      show (↑(d.queue.map (·.seq)) : Multiset Nat) + ↑d.invoked + ↑(d.refused ++ [seq]) = d.dealt + {seq}
      rw [hcoe, dealt, add_assoc _ (d.refused : Multiset Nat)]

/-- A reserved callback finds a place in the queue unless the lane is stopping. -/
theorem Sound.enqueueReserved (h : Sound (k + 1) d) (seq : Nat) (fn : Closure) (res : TaskResult) :
    Sound k (d.enqueueReserved seq fn res) := by
  have hcredits := h.credits
  have hbounded := h.bounded
  by_cases hstop : d.stopping = true
  · rw [Delivery.enqueueReserved, if_pos hstop]
    refine Sound.releaseReservation ⟨h.credits, h.bounded, h.room, h.matched, fun hopen => ?_⟩
    exact absurd hstop (by simpa using hopen)
  · have hroom : d.queue.length < d.queueCap := by omega
    have heq : d.enqueueReserved seq fn res = { d with
        drained := false, pending := d.pending + 1, queue := d.queue ++ [⟨seq, fn, res⟩] } := by
      simp [Delivery.enqueueReserved, markBusy, hstop, hroom]
    rw [heq]
    refine ⟨?_, h.bounded, h.room, h.matched, h.refused⟩
    show d.reservations = k + (d.queue ++ [_]).length + d.executing.length
    rw [length_append, length_singleton]
    omega

theorem step_take_cons {item : DeliveryItem} {rest : List DeliveryItem} (hqueue : d.queue = item :: rest) :
    d.step .take = { d with
      queue := rest
      executing := d.executing ++ [item]
      invoked := d.invoked ++ [item.seq]
      active := d.active + 1
      pending := d.pending - 1 } := by
  simp [step, hqueue]

theorem step_finish_of_lt {index : Nat} (hindex : index < d.executing.length) :
    d.step (.finish index) = (Delivery.releaseReservation { d with
      executing := d.executing.eraseIdx index, active := d.active - 1 }).signalDrained := by
  simp [step, hindex]

theorem Sound.step (h : Sound k d) (s : LaneStep) : Sound k (d.step s) := by
  have hcredits := h.credits
  cases s with
  | take =>
    cases hqueue : d.queue with
    | nil => simpa [Delivery.step, hqueue] using h
    | cons item rest =>
      rw [step_take_cons hqueue]
      refine ⟨?_, h.bounded, h.room, h.matched, h.refused⟩
      show d.reservations = k + rest.length + (d.executing ++ [item]).length
      rw [hqueue, length_cons] at hcredits
      rw [length_append, length_singleton]
      omega
  | finish index =>
    by_cases hindex : index < d.executing.length
    · have hfree : Sound (k + 1) { d with executing := d.executing.eraseIdx index, active := d.active - 1 } := by
        refine ⟨?_, h.bounded, h.room, h.matched, h.refused⟩
        show d.reservations = k + 1 + d.queue.length + (d.executing.eraseIdx index).length
        rw [length_eraseIdx_of_lt hindex]
        omega
      rw [step_finish_of_lt hindex]
      exact hfree.releaseReservation.signalDrained
    · simpa [Delivery.step, hindex] using h
  | stop => exact ⟨h.credits, h.bounded, h.room, h.matched, nofun⟩

theorem dealt_step (s : LaneStep) : (d.step s).dealt = d.dealt := by
  cases s with
  | take =>
    cases hqueue : d.queue with
    | nil => simp [step, hqueue]
    | cons item rest =>
      rw [step_take_cons hqueue]
      show (↑(rest.map (·.seq)) : Multiset Nat) + ↑(d.invoked ++ [item.seq]) + ↑d.refused = d.dealt
      rw [dealt, hqueue, List.map_cons, ← Multiset.coe_add, Multiset.coe_singleton, ← Multiset.cons_coe,
        ← singleton_add]
      abel
  | finish index =>
    by_cases hindex : index < d.executing.length
    · rw [step_finish_of_lt hindex, dealt_signalDrained, dealt_releaseReservation]
      rfl
    · simp [step, hindex]
  | stop => rfl

theorem Sound.run (h : Sound k d) (steps : List LaneStep) : Sound k (d.run steps) := by
  induction steps generalizing d with
  | nil => exact h
  | cons s steps ih => exact ih (h.step s)

theorem dealt_run {steps : List LaneStep} (d : Delivery) : (d.run steps).dealt = d.dealt := by
  induction steps generalizing d with
  | nil => rfl
  | cons s steps ih => exact (ih (d.step s)).trans (dealt_step s)

theorem Lends.sound (h : Lends d n d') (hd : Sound k d) : Sound (k + n) d' := by
  induction h with
  | refl => exact hd
  | run steps _ ih => exact ih.run steps
  | reserve _ hreserve ih => exact ih.reserve hreserve
  | release _ ih => exact ih.releaseReservation

theorem Lends.dealt (h : Lends d n d') : d'.dealt = d.dealt := by
  induction h with
  | refl => rfl
  | run _ _ ih => rw [dealt_run, ih]
  | reserve _ _ ih => rw [dealt_reserve, ih]
  | release _ ih => rw [dealt_releaseReservation, ih]

theorem run_takes (d : Delivery) : (d.run (List.replicate d.queue.length .take)).invoked = d.invoked ++ d.queue.map (·.seq) := by
  generalize hn : d.queue.length = n
  induction n generalizing d with
  | zero =>
    rw [length_eq_zero_iff.mp hn]
    simp [run]
  | succ n ih =>
    obtain ⟨item, rest, hqueue⟩ := exists_cons_of_length_eq_add_one hn
    have htake : (d.step .take).queue = rest ∧ (d.step .take).invoked = d.invoked ++ [item.seq] := by
      rw [step_take_cons hqueue]
      exact ⟨rfl, rfl⟩
    have hlen : (d.step .take).queue.length = n := by
      rw [htake.1]
      rw [hqueue, length_cons] at hn
      omega
    show ((d.step .take).run (List.replicate n .take)).invoked = _
    rw [ih _ hlen, htake.1, htake.2, hqueue]
    simp

end Delivery

/-! ### Records and the lane -/

/-- The acceptance whose credit a record holds. -/
def reservedSeq (_ : TaskID) (r : TaskRecord) : Multiset Nat :=
  if r.isTerminal = false ∧ r.callbackReserved = true then {r.commitSeq} else 0

/-- The acceptances whose credit is held by their record. -/
def Engine.owed (e : Engine) : Multiset Nat := AList.total reservedSeq e.registry

/-- Records and lane between two operations of the coordinator, when `held` is the list of all
acceptances with a callback. -/
structure Couriers (held : Multiset Nat) (e : Engine) : Prop where
  sound : e.delivery.Sound e.owed.card
  flag : ∀ {id r}, e.registry.lookup id = some r → r.isTerminal = false →
    r.callbackReserved = r.spec.onComplete.isSome
  ledger : e.owed + e.delivery.dealt = held
  bound : ∀ n ∈ held, n ≤ e.commitSeq

theorem reservedSeq_of_terminal {id : TaskID} (h : r.isTerminal = true) : reservedSeq id r = 0 := by
  simp [reservedSeq, h]

namespace Couriers

variable {id : TaskID} {rec : TaskRecord}

section

variable (h : Couriers held e) {e' : Engine} {d : Delivery}
include h

theorem congr (hreg : e'.registry = e.registry) (hdelivery : e'.delivery = e.delivery)
    (hseq : e'.commitSeq = e.commitSeq) : Couriers held e' := by
  have howed : e'.owed = e.owed := by rw [Engine.owed, hreg, Engine.owed]
  refine ⟨?_, ?_, ?_, ?_⟩
  · rw [howed, hdelivery]
    exact h.sound
  · rw [hreg]
    exact h.flag
  · rw [howed, hdelivery]
    exact h.ledger
  · rw [hseq]
    exact h.bound

theorem update {r' : TaskRecord} (hr : e.registry.lookup id = some r)
    (hreg : e'.registry = e.registry.insert id r') (hlive : r.isTerminal = false) (hlive' : r'.isTerminal = false)
    (hspec : r'.spec = r.spec) (hflag : r'.callbackReserved = r.callbackReserved)
    (hrseq : r'.commitSeq = r.commitSeq) (hdelivery : e'.delivery = e.delivery) (hseq : e'.commitSeq = e.commitSeq) : Couriers held e' := by
  have hsame : reservedSeq id r' = reservedSeq id r := by
    rw [reservedSeq, reservedSeq, hlive, hlive', hflag, hrseq]
  have howed : e'.owed = e.owed := by
    have hchan := total_insert_change (f := reservedSeq) (g := reservedSeq) (v := r') hr fun _ _ _ _ => rfl
    rw [hsame] at hchan
    rw [Engine.owed, hreg]
    exact add_right_cancel hchan
  refine ⟨?_, fun {id' x} hx hxlive => ?_, ?_, ?_⟩
  · rw [howed, hdelivery]
    exact h.sound
  · rw [hreg] at hx
    rcases of_lookup_insert hx with ⟨-, rfl⟩ | ⟨-, hx⟩
    · rw [hflag, hspec]
      exact h.flag hr hlive
    · exact h.flag hx hxlive
  · rw [howed, hdelivery]
    exact h.ledger
  · rw [hseq]
    exact h.bound

/-- The credit of a settling record goes with its callback to the lane. -/
theorem settle {delta : Int} (hr : e.registry.lookup id = some r) (hlive : r.isTerminal = false)
    (hrec : Concludes r rec delta) (hid : rec.spec.id = id) : Couriers held (e.settleRecord env rec delta) := by
  subst hid
  have hterm : (Engine.closedRecord rec).isTerminal = true := hrec.terminal
  have howed : (e.settleRecord env rec delta).owed + reservedSeq rec.spec.id r = e.owed := by
    have hchan := total_insert_change (f := reservedSeq) (g := reservedSeq)
      (v := Engine.closedRecord rec) hr fun _ _ _ _ => rfl
    rw [reservedSeq_of_terminal hterm, add_zero] at hchan
    exact hchan
  have hflag := h.flag hr hlive
  have hdelivery : (e.settleRecord env rec delta).delivery = (e.deliverResult env rec).delivery := rfl
  simp only [Engine.deliverResult, hrec.spec, hrec.callback, hrec.seq] at hdelivery
  have hflags : ∀ {id' x}, (e.settleRecord env rec delta).registry.lookup id' = some x → x.isTerminal = false →
      x.callbackReserved = x.spec.onComplete.isSome := by
    intro id' x hx hxlive
    rcases of_lookup_insert hx with ⟨-, rfl⟩ | ⟨-, hx⟩
    · rw [hterm] at hxlive
      cases hxlive
    · exact h.flag hx hxlive
  cases hfn : r.spec.onComplete with
  | none =>
    rw [hfn, Option.isSome_none] at hflag
    rw [reservedSeq, hflag, if_neg (by simp), add_zero] at howed
    rw [hfn] at hdelivery
    refine ⟨?_, hflags, ?_, h.bound⟩
    · rw [howed, hdelivery]
      exact h.sound
    · rw [howed, hdelivery]
      exact h.ledger
  | some =>
    rw [hfn, Option.isSome_some] at hflag
    rw [reservedSeq, if_pos ⟨hlive, hflag⟩] at howed
    rw [hfn, hflag] at hdelivery
    have hsound := h.sound
    rw [← howed, card_add, card_singleton] at hsound
    have hledger := h.ledger
    rw [← howed] at hledger
    refine ⟨?_, hflags, ?_, h.bound⟩
    · rw [hdelivery]
      exact (hsound.run _).enqueueReserved _ _ _
    · rw [hdelivery, Delivery.dealt_enqueueReserved, Delivery.dealt_run, add_comm e.delivery.dealt, ← add_assoc]
      exact hledger

theorem erase (hr : e.registry.lookup id = some r) (hterm : r.isTerminal = true)
    (hreg : e'.registry = e.registry.erase id) (hdelivery : e'.delivery = e.delivery)
    (hseq : e'.commitSeq = e.commitSeq) : Couriers held e' := by
  have howed : e'.owed = e.owed := by
    have hchan := total_erase_change (f := reservedSeq) (g := reservedSeq) hr fun _ _ _ _ => rfl
    rw [reservedSeq_of_terminal hterm, add_zero] at hchan
    rw [Engine.owed, hreg]
    exact hchan
  refine ⟨?_, fun {id' x} hx => ?_, ?_, ?_⟩
  · rw [howed, hdelivery]
    exact h.sound
  · rw [hreg] at hx
    obtain ⟨-, hx⟩ := of_lookup_erase hx
    exact h.flag hx
  · rw [howed, hdelivery]
    exact h.ledger
  · rw [hseq]
    exact h.bound

theorem lend (hlends : e.delivery.Lends 0 d) (n : Nat) : Couriers held (e.lend n d) :=
  ⟨hlends.sound h.sound, h.flag, hlends.dealt ▸ h.ledger, h.bound⟩

theorem publish {spec : WorkSpec}
    (hlends : e.delivery.Lends spec.onComplete.isSome.toNat d) (hadmissible : Admissible e spec) (n : Nat) (now : Time) :
    Couriers (held + if spec.onComplete.isSome then {e.commitSeq + 1} else 0) ((e.lend n d).publish spec spec.onComplete.isSome now) := by
  set e' := (e.lend n d).publish spec spec.onComplete.isSome now with he'
  have howed : e'.owed = e.owed + if spec.onComplete.isSome then {e.commitSeq + 1} else 0 := by
    show AList.total reservedSeq (e.registry.insert spec.id _) = _
    rw [total_insert_fresh (f := reservedSeq) hadmissible.fresh fun _ _ _ _ => rfl]
    congr 1
    simp [reservedSeq, TaskRecord.isTerminal, TaskState.isTerminal]
    rfl
  have hdelivery : e'.delivery = d := rfl
  refine ⟨?_, fun {id x} hx hxlive => ?_, ?_, fun n hn => ?_⟩
  · have hsound := hlends.sound h.sound
    rw [howed, hdelivery, card_add]
    cases hfn : spec.onComplete.isSome with
    | false | true => simpa [hfn] using hsound
  · rcases of_lookup_insert hx with ⟨-, rfl⟩ | ⟨-, hx⟩
    · rfl
    · exact h.flag hx hxlive
  · rw [howed, hdelivery, hlends.dealt, add_right_comm, h.ledger]
  · show n ≤ e.commitSeq + 1
    rcases mem_add.mp hn with hn | hn
    · have := h.bound n hn
      omega
    · split_ifs at hn
      · exact (Multiset.mem_singleton.mp hn).le
      · cases hn

end

end Couriers

theorem Micro.couriers (step : Micro env al s s') (hadmits : ∀ spec, ¬al.admits spec) (hreserve : ¬al.reserve) (h : Coherent s)
    (hc : Couriers held s.engine) : Couriers held s'.engine := by
  cases step with
  | observe | scopes | regroup | quiesce | drain | capacity | unqueue | release | unpend | await | touch
    | configure | markIdle => exact hc.congr rfl rfl rfl
  | reserve d hal => exact absurd hal hreserve
  | publish spec _ now hal => exact absurd hal (hadmits spec)
  | assign adm hwp _ _ hr hstate =>
    exact hc.update hr rfl (isTerminal_of_queued hstate) rfl rfl rfl rfl rfl rfl
  | started _ hr hstate =>
    refine hc.update hr rfl ?_ rfl rfl rfl rfl rfl rfl
    rw [TaskRecord.isTerminal, hstate]
    rfl
  | markCancel _ hr hact =>
    have hlive := Coherent.not_terminal_of_active hact
    exact hc.update hr rfl hlive hlive rfl rfl rfl rfl rfl
  | settle rec delta hr hD hrec =>
    have hlive := h.live_of_detached hr hD
    exact hc.settle hr hlive hrec (h.id_of_spec hr hrec.spec)
  | @pend e D id r rec delta hr hD hact hrec =>
    have hreg := h.registry_pendRecord hr hrec
    refine hc.update hr hreg (Coherent.not_terminal_of_active hact) ?_ hrec.spec hrec.callback hrec.seq rfl rfl
    rw [TaskRecord.isTerminal, hrec.state]
    rfl
  | @evict e D oldest rest hlist =>
    rcases e.evictOldest_cases oldest rest with ⟨r, hr, hterm, heq⟩ | ⟨-, heq⟩
    · rw [heq]
      exact hc.erase hr hterm rfl rfl rfl
    · rw [heq]
      exact hc.congr rfl rfl rfl
  | spawn hwp hal hspawn =>
    rw [spawn_pushIdle_eq hwp hspawn]
    exact hc.congr rfl rfl rfl
  | retire hretire =>
    obtain ⟨wp, -, -, rfl⟩ := retireWorker_eq hretire
    exact hc.congr rfl rfl rfl

theorem Steps.couriers (h : Steps env al s s') (hadmits : ∀ spec, ¬al.admits spec) (hreserve : ¬al.reserve) (hs : Coherent s)
    (hc : Couriers held s.engine) : Couriers held s'.engine :=
  (Steps.keeps (P := fun s => Couriers held s.engine) (fun _ _ step => step.couriers hadmits hreserve) h hs hc).2

/-! ### Runs -/

theorem Couriers.admitSubmit (hc : Couriers held e) (hs : Coherent ⟨e, ∅⟩) (env : Env) (spec : WorkSpec) :
    ∃ new : Multiset Nat, Couriers (held + new) (e.admitSubmit env spec).1 ∧ (new = 0 ∨ new = {e.commitSeq + 1}) ∧
      ∀ ticket, (e.admitSubmit env spec).2 = .ok ticket → spec.onComplete.isSome = true → new = {ticket.seq} := by
  cases admitSubmit_cases with
  | rejected n d err hobs hlends heq =>
    rw [heq]
    refine ⟨0, ?_, .inl rfl, nofun⟩
    rw [add_zero]
    exact hc.lend hlends n
  | accepted n d spec' hobs hspec hlends hadmissible heq =>
    obtain ⟨cls, handler, rfl⟩ := hspec
    rw [heq]
    set spec' : WorkSpec := { spec with cls := cls, handler := handler } with hspec'
    have hpub := hc.publish hlends (admissible_observe hadmissible e.delivery e.obs) (n + 1) (env.clock n)
    set e1 := (e.lend (n + 1) d).publish spec' spec'.onComplete.isSome (env.clock n) with he1
    have hpublish : Steps env { Allowance.starting with admits := fun _ => True, reserve := True } ⟨e, ∅⟩ ⟨e1, ∅⟩ :=
      (lend_steps trivial (by omega)).tail
        (.publish spec' _ _ trivial (admissible_observe hadmissible _ _))
    have hcoherent := hpublish.coherent hs
    have hdispatch : Steps env (.dispatching env e1.obs) ⟨e1, ∅⟩ ⟨e1.tryDispatch env spec'.pool, ∅⟩ :=
      (tryDispatch_advances (Ready.dispatching env hcoherent) trivial).steps
    refine ⟨_, hdispatch.couriers (fun _ (hal : False) => hal) (fun hal : False => hal) hcoherent hpub, ?_, ?_⟩
    · split_ifs
      · exact .inr rfl
      · exact .inl rfl
    · intro ticket hok hfn
      cases hok
      rw [if_pos hfn]
      rfl

theorem Couriers.step (hc : Couriers held e) (hs : Coherent ⟨e, ∅⟩) (ev : Event) :
    ∃ new : Multiset Nat, Couriers (held + new) (e.step env ev) ∧ (new = 0 ∨ new = {e.commitSeq + 1}) := by
  by_cases hev : ∃ spec, ev = .request (.submit spec)
  · obtain ⟨spec, rfl⟩ := hev
    obtain ⟨new, hnew, hone, -⟩ := hc.admitSubmit hs env spec
    exact ⟨new, hnew, hone⟩
  · have hadmits : ∀ spec, ¬(ev.allowance env e.obs).admits spec := by
      rintro _ ⟨spec, -, -, heq, -⟩
      exact hev ⟨spec, heq⟩
    have hstep := step_invariant (P := fun s => Couriers held s.engine)
      (fun _ _ _ he => he.congr rfl rfl rfl) (fun _ _ he => he.congr rfl rfl rfl) ev
      (fun _ _ step hs' he => step.couriers hadmits hev hs' he) hs hc
    refine ⟨0, ?_, .inl rfl⟩
    rw [add_zero]
    exact hstep.2

theorem Couriers.nodup_add {new : Multiset Nat} (hnodup : held.Nodup)
    (hbound : ∀ n ∈ held, n ≤ seq) (hnew : new = 0 ∨ new = {seq + 1}) : (held + new).Nodup := by
  rcases hnew with rfl | rfl
  · rwa [add_zero]
  · rw [Multiset.add_comm, Multiset.singleton_add, Multiset.nodup_cons]
    refine ⟨fun hmem => ?_, hnodup⟩
    have := hbound _ hmem
    omega

theorem Couriers.run (hc : Couriers held e) (hnodup : held.Nodup) (hs : Coherent ⟨e, ∅⟩) (events : List Event) :
    ∃ held', Couriers held' (e.run env events) ∧ held'.Nodup ∧ held ≤ held' := by
  induction events generalizing e held with
  | nil => exact ⟨held, hc, hnodup, le_rfl⟩
  | cons ev events ih =>
    obtain ⟨new, hstep, hnew⟩ := hc.step hs ev
    have hcoherent : Coherent ⟨e.step env ev, ∅⟩ :=
      (step_invariant (P := fun _ => True) (fun _ _ _ _ => trivial) (fun _ _ _ => trivial) ev
        (fun _ _ _ _ _ => trivial) hs trivial).1
    obtain ⟨held', hrun, hnodup', hle⟩ := ih hstep (nodup_add hnodup hc.bound hnew) hcoherent
    exact ⟨held', hrun, hnodup', le_trans (le_add_right _ _) hle⟩

theorem newEngine_couriers {pump : Option CommitPump} {resolver : Bool} :
    Couriers 0 { newEngine cfg with commitPump := pump, handlerResolver := resolver } :=
  ⟨⟨rfl, Nat.zero_le _, rfl, rfl, fun _ => rfl⟩, fun hr => (by cases hr), rfl, fun _ hn => (by cases hn)⟩

theorem Reachable.couriers (h : Reachable env cfg e) : ∃ held, Couriers held e ∧ held.Nodup := by
  induction h with
  | new => exact ⟨0, newEngine_couriers, nodup_zero⟩
  | start hprev hstart ih =>
    obtain ⟨held, hc, hnodup⟩ := ih
    obtain ⟨-, -, hsteps⟩ := start_eq hstart
    refine ⟨held, hsteps.couriers (fun _ (hal : False) => hal) (fun hal : False => hal) ?_ (hc.congr rfl rfl rfl), hnodup⟩
    exact (ReachableBy.coherent hprev).congr rfl rfl
  | step ev hprev _ hok ih =>
    obtain ⟨held, hc, hnodup⟩ := ih
    obtain ⟨new, hstep, hnew⟩ := hc.step (ReachableBy.coherent hprev) ev
    exact ⟨held + new, hstep, Couriers.nodup_add hnodup hc.bound hnew⟩

/-- How many records that have not settled hold a credit. -/
def Engine.reservedRecords (e : Engine) : Nat :=
  e.registry.entries.countP fun s => !s.2.isTerminal && s.2.callbackReserved

theorem Engine.owed_card : e.owed.card = e.reservedRecords := by
  rw [Engine.owed, Engine.reservedRecords, AList.total]
  induction e.registry.entries with
  | nil => rfl
  | cons s entries ih =>
    rw [List.map_cons, List.sum_cons, Multiset.card_add, ih, List.countP_cons, add_comm]
    congr 1
    cases hterm : s.2.isTerminal <;> cases hflag : s.2.callbackReserved <;> simp [reservedSeq, hterm, hflag]

theorem Engine.notMem_owed (h : History e) (hset : e.settlements seq = 1) : seq ∉ e.owed := by
  intro hmem
  obtain ⟨id, r, hr, hin⟩ := mem_total.mp hmem
  rw [reservedSeq] at hin
  split_ifs at hin with hlive
  · have hzero := h.unsettled (.inl ⟨id, r, hr, (Multiset.mem_singleton.mp hin).symm, hlive.1⟩)
    omega
  · cases hin

/-- In every reachable state, and however far the lane has run on: the credits taken are those of the
records that have not settled, of the queued callbacks and of the running ones, no callback has found
the queue full and no release has found its credit gone. The callback of an accepted task is called at
most once, and exactly once when its task has settled and the workers have taken what is queued, unless
the lane was stopped. -/
theorem callbacks_delivered_once {env : Env} {cfg : Config} {e : Engine} (h : Reachable env cfg e) :
    (∀ lane, let d := e.delivery.run lane
      d.reservations = e.reservedRecords + d.queue.length + d.executing.length ∧
        d.overflowed = false ∧ d.unmatched = false) ∧
    ∀ spec ticket, (e.admitSubmit env spec).2 = .ok ticket → spec.onComplete.isSome = true →
      ∀ events lane,
        let e' := (e.admitSubmit env spec).1.run env events
        let d := e'.delivery.run lane
        d.invoked.count ticket.seq ≤ 1 ∧
          (d.stopping = false → e'.settlements ticket.seq = 1 →
            (d.run (List.replicate d.queue.length .take)).invoked.count ticket.seq = 1) := by
  obtain ⟨_, hc, hnodup⟩ := Reachable.couriers h
  have hcoherent := ReachableBy.coherent h
  refine ⟨fun lane => ?_, fun spec ticket hok hfn events lane => ?_⟩
  · have hsound := hc.sound.run lane
    exact ⟨e.owed_card ▸ hsound.credits, hsound.room, hsound.matched⟩
  · have haccepting : e.accepting = true := by
      cases admitSubmit_cases with
      | rejected n d err hobs hlends heq =>
        rw [heq] at hok
        cases hok
      | accepted n d _ hobs _ hlends hadmissible => exact hadmissible.accepting
    have hreach : Reachable env cfg (e.admitSubmit env spec).1 :=
      .step (.request (.submit spec)) h (h.runStarted (.inl haccepting)) trivial
    obtain ⟨new, hadded, hone, hnew⟩ := hc.admitSubmit hcoherent env spec
    obtain rfl := hnew ticket hok hfn
    obtain ⟨held', hrun, hnodup', hle⟩ :=
      hadded.run (Couriers.nodup_add hnodup hc.bound hone) (ReachableBy.coherent hreach) events
    intro e' d
    have hmem : ticket.seq ∈ held' := mem_of_le hle (by simp)
    have hcount : held'.count ticket.seq = 1 := count_eq_one_of_mem hnodup' hmem
    have hdealt : e'.delivery.dealt = d.dealt := (Delivery.dealt_run _).symm
    have hledger : e'.owed + e'.delivery.dealt = held' := hrun.ledger
    rw [← hledger, count_add, hdealt, Delivery.dealt, count_add, count_add,
      coe_count, coe_count, coe_count] at hcount
    refine ⟨by omega, fun hopen hset => ?_⟩
    have hhistory : History e' := by
      refine Reachable.history (hreach.run ?_ fun _ _ => trivial)
      exact (step_onward hcoherent (.request (.submit spec))).runStarted.trans (h.runStarted (.inl haccepting))
    have howed : e'.owed.count ticket.seq = 0 :=
      count_eq_zero_of_notMem (notMem_owed hhistory hset)
    have href : d.refused = [] := (hrun.sound.run lane).refused hopen
    rw [href, count_nil] at hcount
    rw [Delivery.run_takes, count_append]
    omega

def callbackSpec (id : String) : WorkSpec := { plainSpec id with onComplete := some 7 }

/-- A task with a callback is accepted and completes, and a worker of the lane calls the callback. -/
theorem callbacks_delivered_once_solo : let e := ((Engine.solo 1 []).admitSubmit .quiet (callbackSpec "a")).1
    let d := (e.run .quiet [completed "a" 0 0]).delivery.run []
    e.reservedRecords = 1 ∧ d.reservations = 1 ∧ d.queue.length = 1 ∧
      (d.run (List.replicate d.queue.length .take)).invoked.count 1 = 1 := by
  have hok : ((Engine.solo 1 []).admitSubmit .quiet (callbackSpec "a")).2 = .ok ⟨goString "a", 1⟩ := by
    decide +kernel
  have hresult := (callbacks_delivered_once (Reachable.solo 1 [])).2 (callbackSpec "a") _ hok rfl
    [completed "a" 0 0] []
  exact ⟨by decide +kernel, by decide +kernel, by decide +kernel,
    hresult.2 (by decide +kernel) (by decide +kernel)⟩

end Goultroid
