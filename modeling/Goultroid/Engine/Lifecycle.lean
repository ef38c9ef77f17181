import Goultroid.Engine.RequestSteps

/-!
# The life of a record

`RegistryChange` lists what a step can do to the registry: nothing, publish a record, move one on
while it is live, settle it, or evict it once it is terminal. From it follow, for every run, that a
record only moves forward, that a terminal record stays as it is, and that `settleTerminal` runs
exactly once for each record that ends. Records are told apart by their commit sequence, since an
evicted task id can be used again.

`Micro.registryChange` is the one place where the steps are taken apart. `Later` relates the engines
before and after any sequence of steps and is transitive. `History` counts settlements by the log: a
live record has none there, and a settlement logs the number of the one record that it ends. A
message with a permit or an epoch that is not the record's own fails at the fence, before any of
this (`applyWorkerCompleted_stale`).
-/

namespace Goultroid

open List AList Engine

variable {id : TaskID} {env : Env} {al : Allowance} {Q : WorkSpec → Prop} {e e' : Engine} {cfg : Config} {r r' rec : TaskRecord}
  {delta : Int} {s s' : Stage}

def TaskState.rank : TaskState → Nat
  | .created => 0
  | .admitted => 1
  | .queued => 2
  | .dispatching => 3
  | .running => 4
  | .commitPending => 5
  | .completed | .failed | .timedOut | .cancelled | .recoveryRequired => 6

theorem TaskState.rank_le_of_isTerminal {state state' : TaskState} (h : state'.isTerminal = true) : state.rank ≤ state'.rank := by
  cases state' <;> simp [isTerminal] at h <;> cases state <;> decide

/-! ### What a step does to the registry -/

/-- Nothing was accepted and nothing settled. -/
structure SameLog (e e' : Engine) : Prop where
  settled : e'.settled = e.settled
  commitSeq : e'.commitSeq = e.commitSeq
  doubleClose : e'.faults.doubleClose = e.faults.doubleClose

structure Moves (r r' : TaskRecord) : Prop where
  spec : r'.spec = r.spec
  seq : r'.commitSeq = r.commitSeq
  done : r'.done = r.done
  live : r.isTerminal = false
  live' : r'.isTerminal = false
  forward : r.state.rank ≤ r'.state.rank

inductive RegistryChange (env : Env) (al : Allowance) (e e' : Engine) : Prop where
  | same (hlog : SameLog e e') (hreg : e'.registry = e.registry)
  | publish (spec : WorkSpec) (reserved : Bool) (now : Time) (hal : al.admits spec)
    (hadmission : Admissible e spec) (heq : e' = e.publish spec reserved now)
  | update {id : TaskID} {r r' : TaskRecord} (hlog : SameLog e e') (hr : e.registry.lookup id = some r)
    (hreg : e'.registry = e.registry.insert id r') (hmove : Moves r r')
  | settle {id : TaskID} {r rec : TaskRecord} {delta : Int} (hr : e.registry.lookup id = some r)
    (hlive : r.isTerminal = false) (hrec : Concludes r rec delta) (hid : rec.spec.id = id)
    (heq : e' = e.settleRecord env rec delta)
  | evict {id : TaskID} {r : TaskRecord} (hlog : SameLog e e') (hr : e.registry.lookup id = some r)
    (hterm : r.isTerminal = true) (hreg : e'.registry = e.registry.erase id)

theorem Micro.registryChange (step : Micro env al s s') (h : Coherent s) : RegistryChange env al s.engine s'.engine := by
  cases step with
  | observe | reserve | scopes | regroup | quiesce | drain | capacity | unqueue | release | unpend | await | touch
    | configure | markIdle => exact .same ⟨rfl, rfl, rfl⟩ rfl
  | publish spec reserved now hal hadmission => exact .publish spec reserved now hal hadmission rfl
  | assign adm hwp _ _ hr hstate =>
    refine .update ⟨rfl, rfl, rfl⟩ hr rfl ⟨rfl, rfl, rfl, ?_, rfl, ?_⟩
    · rw [TaskRecord.isTerminal, hstate]
      rfl
    · rw [hstate]
      show TaskState.rank .queued ≤ TaskState.rank .dispatching
      decide
  | started _ hr hstate =>
    refine .update ⟨rfl, rfl, rfl⟩ hr rfl ⟨rfl, rfl, rfl, ?_, rfl, ?_⟩
    · rw [TaskRecord.isTerminal, hstate]
      rfl
    · rw [hstate]
      show TaskState.rank .dispatching ≤ TaskState.rank .running
      decide
  | markCancel _ hr hact =>
    have hlive := Coherent.not_terminal_of_active hact
    exact .update ⟨rfl, rfl, rfl⟩ hr rfl ⟨rfl, rfl, rfl, hlive, hlive, le_rfl⟩
  | settle rec delta hr hD hrec =>
    have hlive := h.live_of_detached hr hD
    exact .settle hr hlive hrec (h.id_of_spec hr hrec.spec) rfl
  | @pend e D id r rec delta hr hD hact hrec =>
    have hreg := h.registry_pendRecord hr hrec
    refine .update ⟨rfl, rfl, rfl⟩ hr hreg
      ⟨hrec.spec, hrec.seq, hrec.done, Coherent.not_terminal_of_active hact, ?_, ?_⟩
    · rw [TaskRecord.isTerminal, hrec.state]
      rfl
    · rw [hrec.state]
      cases hstate : r.state <;> simp [hstate, TaskState.isActive] at hact <;> decide
  | @evict e D oldest rest hlist =>
    rcases e.evictOldest_cases oldest rest with ⟨r, hr, hterm, heq⟩ | ⟨-, heq⟩
    · refine .evict ⟨?_, ?_, ?_⟩ hr hterm ?_ <;> rw [heq]
      · rfl
      · rfl
      · show (if _ then _ else _ : Faults).doubleClose = _
        split_ifs <;> rfl
    · refine .same ⟨?_, ?_, ?_⟩ ?_ <;> rw [heq]
  | spawn hwp hal hspawn =>
    rw [spawn_pushIdle_eq hwp hspawn]
    exact .same ⟨rfl, rfl, rfl⟩ rfl
  | retire hretire =>
    obtain ⟨wp, -, -, rfl⟩ := retireWorker_eq hretire
    exact .same ⟨rfl, rfl, rfl⟩ rfl

/-- Every record that has not ended has a spec that satisfies `Q`. -/
def LiveSpecs (Q : WorkSpec → Prop) (e : Engine) : Prop :=
  ∀ id r, e.registry.lookup id = some r → r.isTerminal = false → Q r.spec

/-- Specs are checked when they are published, and a live record keeps its spec. -/
theorem LiveSpecs.change (h : LiveSpecs Q e) (hpub : ∀ spec, al.admits spec → Admissible e spec → Q spec)
    (hchan : RegistryChange env al e e') : LiveSpecs Q e' := by
  intro id x hx hlive
  cases hchan with
  | same hlog hreg => exact h id x (hreg ▸ hx) hlive
  | publish spec _ now hal hadmission heq =>
    subst heq
    rcases of_lookup_insert hx with ⟨-, rfl⟩ | ⟨-, hx⟩
    · exact hpub spec hal hadmission
    · exact h id x hx hlive
  | update hlog hr hreg hmove =>
    rw [hreg] at hx
    rcases of_lookup_insert hx with ⟨-, rfl⟩ | ⟨-, hx⟩
    · rw [hmove.spec]
      exact h _ _ hr hmove.live
    · exact h id x hx hlive
  | settle hr _ hrec hid heq =>
    subst heq
    rcases of_lookup_insert hx with ⟨-, rfl⟩ | ⟨-, hx⟩
    · have hterm : (Engine.closedRecord _).isTerminal = true := hrec.terminal
      rw [hterm] at hlive
      cases hlive
    · exact h id x hx hlive
  | evict hlog hr hterm hreg =>
    rw [hreg] at hx
    obtain ⟨-, hx⟩ := of_lookup_erase hx
    exact h id x hx hlive

theorem Reachable.liveSpecs (hQ : ∀ e spec, Admissible e spec → Q spec) (h : Reachable env cfg e) : LiveSpecs Q e :=
  Reachable.invariant (P := fun s => LiveSpecs Q s.engine) (fun _ _ _ _ hr => by cases hr)
    (fun _ he _ _ => he) (fun _ _ _ he => he) (fun _ _ he => he)
    (fun _ s _ step hs he => he.change (fun spec _ => hQ s.engine spec) (step.registryChange hs)) h

/-! ### Records move forward -/

/-- The same record later on: never further back, and as it was once it is terminal. -/
structure Evolves (r r' : TaskRecord) : Prop where
  seq : r'.commitSeq = r.commitSeq
  forward : r.state.rank ≤ r'.state.rank
  final : r.isTerminal = true → r' = r

theorem Evolves.refl (r : TaskRecord) : Evolves r r := ⟨rfl, le_rfl, fun _ => rfl⟩

theorem Evolves.trans {r'' : TaskRecord} (h : Evolves r r') (h' : Evolves r' r'') : Evolves r r'' := by
  refine ⟨h'.seq.trans h.seq, h.forward.trans h'.forward, fun hterm => ?_⟩
  have heq := h.final hterm
  rw [← heq] at hterm ⊢
  exact h'.final hterm

/-- Every record of a later engine was accepted since, or is a record of the earlier one further on. -/
structure Later (e e' : Engine) : Prop where
  commitSeq : e.commitSeq ≤ e'.commitSeq
  record : ∀ {id r'}, e'.registry.lookup id = some r' → e.commitSeq < r'.commitSeq ∨
    ∃ r, e.registry.lookup id = some r ∧ Evolves r r'

namespace Later

theorem refl (e : Engine) : Later e e := ⟨le_rfl, fun hr => .inr ⟨_, hr, .refl _⟩⟩

theorem trans {e'' : Engine} (h : Later e e') (h' : Later e' e'') : Later e e'' := by
  refine ⟨h.commitSeq.trans h'.commitSeq, fun hr => ?_⟩
  rcases h'.record hr with hnew | ⟨r', hr', hevolves'⟩
  · exact .inl (lt_of_le_of_lt h.commitSeq hnew)
  · rcases h.record hr' with hnew | ⟨r, hr, hevolves⟩
    · left
      rw [hevolves'.seq]
      exact hnew
    · exact .inr ⟨r, hr, hevolves.trans hevolves'⟩

theorem of_registry (hreg : e'.registry = e.registry) (hseq : e'.commitSeq = e.commitSeq) : Later e e' :=
  ⟨hseq.ge, fun hr => .inr ⟨_, hreg ▸ hr, .refl _⟩⟩

theorem of_insert (hr : e.registry.lookup id = some r) (hreg : e'.registry = e.registry.insert id r') (hseq : e.commitSeq ≤ e'.commitSeq)
    (hevolves : Evolves r r') : Later e e' := by
  refine ⟨hseq, fun {id' x} hx => .inr ?_⟩
  rw [hreg] at hx
  rcases of_lookup_insert hx with ⟨hid, rfl⟩ | ⟨hid, hx⟩
  · exact ⟨r, hid ▸ hr, hevolves⟩
  · exact ⟨x, hx, .refl x⟩

end Later

theorem Concludes.evolves (h : Concludes r rec delta) (hlive : r.isTerminal = false) : Evolves r (Engine.closedRecord rec) := by
  refine ⟨h.seq, TaskState.rank_le_of_isTerminal h.terminal, fun hterm => ?_⟩
  rw [hlive] at hterm
  cases hterm

theorem Moves.evolves (h : Moves r r') : Evolves r r' := by
  refine ⟨h.seq, h.forward, fun hterm => ?_⟩
  rw [h.live] at hterm
  cases hterm

theorem RegistryChange.later (h : RegistryChange env al e e') : Later e e' := by
  cases h with
  | same hlog hreg => exact .of_registry hreg hlog.commitSeq
  | publish _ _ now hal _ heq =>
    subst heq
    refine ⟨Nat.le_succ _, fun {id x} hx => ?_⟩
    rcases of_lookup_insert hx with ⟨-, rfl⟩ | ⟨-, hx⟩
    · exact .inl (Nat.lt_succ_self _)
    · exact .inr ⟨x, hx, .refl x⟩
  | update hlog hr hreg hmove => exact .of_insert hr hreg hlog.commitSeq.ge hmove.evolves
  | settle hr hlive hrec hid heq =>
    subst heq hid
    exact .of_insert hr rfl le_rfl (hrec.evolves hlive)
  | @evict id r hlog hr hterm hreg =>
    refine ⟨hlog.commitSeq.ge, fun {id' x} hx => .inr ⟨x, ?_, .refl x⟩⟩
    rw [hreg] at hx
    obtain ⟨-, hx⟩ := of_lookup_erase hx
    exact hx

/-! ### Exactly one settlement -/

/-- How often `settleTerminal` ran for the record accepted as `seq`. -/
def Engine.settlements (e : Engine) (seq : Nat) : Nat := (e.settled.map (·.seq)).count seq

def Engine.Live (e : Engine) (seq : Nat) : Prop :=
  ∃ id r, e.registry.lookup id = some r ∧ r.commitSeq = seq ∧ r.isTerminal = false

/-- Every accepted record has settled once, unless it is live, and its ticket is closed with it. -/
structure History (e : Engine) : Prop where
  bound : ∀ {id r}, e.registry.lookup id = some r → 0 < r.commitSeq ∧ r.commitSeq ≤ e.commitSeq
  unique : ∀ {id id' r r'}, e.registry.lookup id = some r → e.registry.lookup id' = some r' →
    r'.commitSeq = r.commitSeq → id' = id
  done : ∀ {id r}, e.registry.lookup id = some r → r.done = r.isTerminal
  unsettled : ∀ {seq}, e.Live seq ∨ seq = 0 ∨ e.commitSeq < seq → e.settlements seq = 0
  settled : ∀ {seq}, ¬e.Live seq → 0 < seq → seq ≤ e.commitSeq → e.settlements seq = 1
  once : e.faults.doubleClose = false

namespace History

theorem of_log (h : History e) (hlog : SameLog e e') (hrecords : ∀ {id r}, e'.registry.lookup id = some r → e.registry.lookup id = some r)
    (hkept : ∀ {id r}, e.registry.lookup id = some r → r.isTerminal = false → e'.registry.lookup id = some r) : History e' := by
  have hcount : ∀ seq, e'.settlements seq = e.settlements seq := fun seq => by
    rw [Engine.settlements, hlog.settled, ← Engine.settlements]
  have hlive : ∀ seq, e'.Live seq ↔ e.Live seq := fun seq =>
    ⟨fun ⟨id, r, hr, hrest⟩ => ⟨id, r, hrecords hr, hrest⟩, fun ⟨id, r, hr, hseq, hlive⟩ => ⟨id, r, hkept hr hlive, hseq, hlive⟩⟩
  refine ⟨fun hr => ?_, fun hr hr' => h.unique (hrecords hr) (hrecords hr'), fun hr => h.done (hrecords hr), fun hseq => ?_,
    fun hseq hpos hle => ?_, hlog.doubleClose.trans h.once⟩
  · rw [hlog.commitSeq]
    exact h.bound (hrecords hr)
  · rw [hlive, hlog.commitSeq] at hseq
    rw [hcount]
    exact h.unsettled hseq
  · rw [hlive] at hseq
    rw [hlog.commitSeq] at hle
    rw [hcount]
    exact h.settled hseq hpos hle

/-- One record is new or further on, and no other has its sequence number. -/
theorem insert {x : TaskRecord} (h : History e) (hreg : e'.registry = e.registry.insert id x)
    (hold : ∀ r, e.registry.lookup id = some r → r.commitSeq = x.commitSeq)
    (hother : ∀ {id' r}, id' ≠ id → e.registry.lookup id' = some r → r.commitSeq ≠ x.commitSeq)
    (hbound : 0 < x.commitSeq ∧ x.commitSeq ≤ e'.commitSeq) (hdone : x.done = x.isTerminal)
    (hrest : ∀ n, n ≠ x.commitSeq → e'.settlements n = e.settlements n ∧ (n ≤ e'.commitSeq ↔ n ≤ e.commitSeq))
    (hone : e'.settlements x.commitSeq = if x.isTerminal then 1 else 0) (honce : e'.faults.doubleClose = false) : History e' := by
  have hlook : ∀ {id' r}, e'.registry.lookup id' = some r → (id' = id ∧ r = x) ∨ (id' ≠ id ∧ e.registry.lookup id' = some r) :=
    fun hr => of_lookup_insert (hreg ▸ hr)
  have hself : e'.Live x.commitSeq ↔ x.isTerminal = false := by
    refine ⟨fun ⟨id', r, hr, hseq, hlive⟩ => ?_, fun hlive => ⟨id, x, by rw [hreg]; simp, rfl, hlive⟩⟩
    rcases hlook hr with ⟨-, rfl⟩ | ⟨hne, hr⟩
    · exact hlive
    · exact absurd hseq (hother hne hr)
  have hlive : ∀ n, n ≠ x.commitSeq → (e'.Live n ↔ e.Live n) := by
    rintro n hn
    constructor
    · rintro ⟨id', r, hr, rfl, hlive⟩
      rcases hlook hr with ⟨-, rfl⟩ | ⟨-, hr⟩
      · exact absurd rfl hn
      · exact ⟨id', r, hr, rfl, hlive⟩
    · rintro ⟨id', r, hr, rfl, hlive⟩
      have hne : id' ≠ id := by
        rintro rfl
        exact hn (hold r hr)
      exact ⟨id', r, by rw [hreg, lookup_insert_ne hne]; exact hr, rfl, hlive⟩
  refine ⟨fun {id' r} hr => ?_, fun {i i' r r'} hr hr' hseq => ?_, fun {id' r} hr => ?_, fun {n} hn => ?_, fun {n} hn hpos hle => ?_,
    honce⟩
  · rcases hlook hr with ⟨-, rfl⟩ | ⟨hne, hr⟩
    · exact hbound
    · have hr' := h.bound hr
      exact ⟨hr'.1, (hrest _ (hother hne hr)).2.mpr hr'.2⟩
  · rcases hlook hr with ⟨rfl, rfl⟩ | ⟨hne, hr⟩ <;> rcases hlook hr' with ⟨rfl, rfl⟩ | ⟨hne', hr'⟩
    · rfl
    · exact absurd hseq (hother hne' hr')
    · exact absurd hseq.symm (hother hne hr)
    · exact h.unique hr hr' hseq
  · rcases hlook hr with ⟨-, rfl⟩ | ⟨-, hr⟩
    · exact hdone
    · exact h.done hr
  · rcases eq_or_ne n x.commitSeq with rfl | hne
    · rw [hone, if_neg]
      rw [hself] at hn
      rcases hn with hlive | hzero | hlt
      · simp [hlive]
      all_goals omega
    · have hrest := hrest n hne
      rw [hrest.1]
      exact h.unsettled (by rwa [hlive n hne, ← not_le, hrest.2, not_le] at hn)
  · rcases eq_or_ne n x.commitSeq with rfl | hne
    · rw [hone, if_pos (by simpa [hself] using hn)]
    · have hrest := hrest n hne
      rw [hrest.1]
      exact h.settled (by rwa [hlive n hne] at hn) hpos (hrest.2.mp hle)

theorem publish {spec : WorkSpec} (h : History e) (hfresh : e.registry.lookup spec.id = none)
    (reserved : Bool) (now : Time) : History (e.publish spec reserved now) := by
  refine h.insert rfl (fun r hr => ?_) (fun _ hr heq => ?_) ⟨Nat.succ_pos _, le_rfl⟩ rfl (fun n hn => ⟨rfl, ?_⟩)
    (h.unsettled (.inr (.inr (Nat.lt_succ_self _)))) h.once
  · rw [hfresh] at hr
    cases hr
  · have hbound := (h.bound hr).2
    replace heq : _ = e.commitSeq + 1 := heq
    omega
  · replace hn : n ≠ e.commitSeq + 1 := hn
    show n ≤ e.commitSeq + 1 ↔ _
    omega

/-- A live record settles: its sequence number is logged, and it is the only one. -/
theorem settle (h : History e) (hr : e.registry.lookup id = some r) (hlive : r.isTerminal = false) (hrec : Concludes r rec delta)
    (hid : rec.spec.id = id) : History (e.settleRecord env rec delta) := by
  subst hid
  have hseq : (Engine.closedRecord rec).commitSeq = r.commitSeq := hrec.seq
  have hterm : (Engine.closedRecord rec).isTerminal = true := hrec.terminal
  have hcount : ∀ n, (e.settleRecord env rec delta).settlements n = e.settlements n + if r.commitSeq = n then 1 else 0 := by
    intro n
    show ((e.settled ++ [_]).map _).count n = _
    simp [Engine.settlements, hrec.seq, count_singleton]
  refine h.insert rfl (fun x hx => ?_) (fun hne hx heq => hne ?_) ?_ hterm.symm (fun n hn => ?_) ?_ ?_
  · rw [hseq]
    cases hr.symm.trans hx
    rfl
  · exact h.unique hr hx (heq.trans hseq)
  · rw [hseq]
    exact h.bound hr
  · rw [hseq] at hn
    rw [hcount, if_neg hn.symm]
    exact ⟨rfl, Iff.rfl⟩
  · rw [hseq, hterm, hcount, if_pos rfl, h.unsettled (.inl ⟨_, r, hr, rfl, hlive⟩)]
    rfl
  · show (e.faults.doubleClose || rec.done) = false
    rw [h.once, hrec.done, h.done hr, hlive]
    rfl

theorem change (h : History e) (hchan : RegistryChange env al e e') : History e' := by
  cases hchan with
  | same hlog hreg => exact h.of_log hlog (fun hr => hreg ▸ hr) fun hr _ => hreg ▸ hr
  | publish _ reserved now hal hadmission heq =>
    subst heq
    exact h.publish hadmission.fresh reserved now
  | @update id r r' hlog hr hreg hmove =>
    have hcount : ∀ n, e'.settlements n = e.settlements n := fun n => by
      rw [Engine.settlements, hlog.settled, ← Engine.settlements]
    refine h.insert hreg (fun x hx => ?_) (fun hne hx heq => hne ?_) ?_ ?_ (fun n _ => ⟨hcount n, by rw [hlog.commitSeq]⟩) ?_
      (hlog.doubleClose.trans h.once)
    · cases hr.symm.trans hx
      exact hmove.seq.symm
    · exact h.unique hr hx (heq.trans hmove.seq)
    · rw [hmove.seq, hlog.commitSeq]
      exact h.bound hr
    · rw [hmove.done, hmove.live', h.done hr, hmove.live]
    · rw [hmove.live', hcount, hmove.seq, h.unsettled (.inl ⟨id, r, hr, rfl, hmove.live⟩)]
      rfl
  | settle hr hlive hrec hid heq =>
    subst heq
    exact h.settle hr hlive hrec hid
  | @evict id r hlog hr hterm hreg =>
    refine h.of_log hlog (fun hx => ?_) fun {id' x} hx hlive => ?_
    · rw [hreg] at hx
      exact (of_lookup_erase hx).2
    · have hne : id' ≠ id := by
        rintro rfl
        cases hr.symm.trans hx
        rw [hterm] at hlive
        cases hlive
      rw [hreg, lookup_erase_ne hne]
      exact hx

end History

/-! ### Runs -/

theorem newEngine_history (pump : Option CommitPump) (resolver : Bool) :
    History { newEngine cfg with commitPump := pump, handlerResolver := resolver } where
  bound h := by cases h
  unique h := by cases h
  done h := by cases h
  unsettled _ := rfl
  settled _ hpos hle := absurd hle (Nat.not_le.mpr hpos)
  once := rfl

theorem Reachable.history (h : Reachable env cfg e) : History e :=
  (Reachable.invariant (P := fun s => History s.engine) newEngine_history
    (fun _ he _ _ => ⟨he.bound, he.unique, he.done, he.unsettled, he.settled, he.once⟩)
    (fun _ _ _ he => ⟨he.bound, he.unique, he.done, he.unsettled, he.settled, he.once⟩)
    (fun _ _ he => ⟨he.bound, he.unique, he.done, he.unsettled, he.settled, he.once⟩)
    (fun _ _ _ step hs he => he.change (step.registryChange hs)) h)

theorem Steps.later (h : Steps env al s s') (hs : Coherent s) : Later s.engine s'.engine :=
  (Steps.keeps (P := fun x => Later s.engine x.engine)
    (fun _ _ step hx hlater => hlater.trans (step.registryChange hx).later) h hs (.refl _)).2

theorem Engine.step_later {ev : Event} (h : Coherent ⟨e, ∅⟩) : Later e (e.step env ev) := by
  rcases step_cases env h ev with hsteps | ⟨owner, limits, -, heq⟩ | ⟨ch, -, heq⟩
  · exact hsteps.later h
  iterate 2
    · rw [heq]
      exact .of_registry rfl rfl

theorem Reachable.later (h : Reachable env cfg e) (hstarted : e.runStarted = true) (events : List Event) : Later e (e.run env events) := by
  induction events generalizing e with
  | nil => exact .refl e
  | cons ev events ih =>
    have hnext := ih (.step ev h hstarted trivial) ((step_onward h.coherent ev).runStarted.trans hstarted)
    exact (step_later h.coherent).trans hnext

section Stale

variable {grant : Option Permit}

theorem fenced_of_not_holds (h : ¬r.Holds grant) : Engine.fenced r grant = false := by
  rw [← Bool.not_eq_true, fenced_iff]
  exact h

theorem applyWorkerStarted_stale {startedAt : Time} (h : ∀ r, e.registry.lookup id = some r → ¬r.Holds grant) :
    e.applyWorkerStarted id grant startedAt = e := by
  unfold Engine.applyWorkerStarted
  cases hr : e.registry.lookup id with
  | none => rfl
  | some r => exact if_pos (.inr (fenced_of_not_holds (h r hr)))

theorem applyWorkerCompleted_stale {res : TaskResult} (h : ∀ r, e.registry.lookup res.taskID = some r → ¬r.Holds grant) :
    e.applyWorkerCompleted env res grant = e := by
  unfold Engine.applyWorkerCompleted
  cases hr : e.registry.lookup res.taskID with
  | none => rfl
  | some r => exact if_pos (.inr (fenced_of_not_holds (h r hr)))

theorem applyCommitAck_stale {seq : Nat} {ackErr : Option GoString} (h : ∀ r, e.registry.lookup id = some r → r.commitSeq ≠ seq) :
    e.applyCommitAck env id seq ackErr = e := by
  unfold Engine.applyCommitAck
  cases hr : e.registry.lookup id with
  | none => rfl
  | some r => exact if_pos (.inr (.inr (h r hr)))

end Stale

/-- In every run, with worker and commit messages of any content in any order: a record only moves
forward, and stays as it is once terminal; a record that has ended was settled exactly once, a live one
never, and no ticket is closed twice. A stale `WorkerStarted` or `CommitAck` changes nothing. A stale
`WorkerCompleted` does what `markWorkerIdle` does with its slot, which may dispatch queued work, and
changes no record that is past its queue and not terminal. -/
theorem lifecycle_fenced_and_monotone {env : Env} {cfg : Config} {e : Engine} (h : Reachable env cfg e)
    (hstarted : e.runStarted = true) (events : List Event) :
    let e' := e.run env events
    (∀ id id' r r', e.registry.lookup id = some r → e'.registry.lookup id' = some r' →
      r'.commitSeq = r.commitSeq →
      id' = id ∧ r.state.rank ≤ r'.state.rank ∧ (r.isTerminal = true → r' = r)) ∧
    (∀ seq, e'.Live seq → e'.settlements seq = 0) ∧
    (∀ seq, 0 < seq → seq ≤ e'.commitSeq → ¬e'.Live seq → e'.settlements seq = 1) ∧
    (∀ id r, e'.registry.lookup id = some r → r.done = r.isTerminal) ∧
    e'.faults.doubleClose = false ∧
    (∀ id grant startedAt, (∀ r, e'.registry.lookup id = some r → ¬r.Holds grant) →
      e'.step env (.request (.workerStarted id grant startedAt)) = e') ∧
    (∀ id seq ackErr, (∀ r, e'.registry.lookup id = some r → r.commitSeq ≠ seq) →
      e'.step env (.request (.commitAck id seq ackErr)) = e') ∧
    (∀ res grant pool slotID, (∀ r, e'.registry.lookup res.taskID = some r → ¬r.Holds grant) →
      e'.step env (.request (.workerCompleted res grant pool slotID)) =
        e'.markWorkerIdle env pool slotID ∧
      ∀ id r, e'.registry.lookup id = some r → r.state ≠ .queued → r.isTerminal = false →
        (e'.markWorkerIdle env pool slotID).registry.lookup id = some r) := by
  intro e'
  have hreach : Reachable env cfg e' := h.run hstarted fun _ _ => trivial
  have hhistory := hreach.history
  refine ⟨?_, fun seq hlive => hhistory.unsettled (.inl hlive),
    fun seq hpos hle hnot => hhistory.settled hnot hpos hle, fun id r hr => hhistory.done hr,
    hhistory.once, fun id grant startedAt hstale => applyWorkerStarted_stale hstale,
    fun id seq ackErr hstale => applyCommitAck_stale hstale, ?_⟩
  · intro id id' r r' hr hr' hseq
    rcases (h.later hstarted events).record hr' with hnew | ⟨x, hx, hevolves⟩
    · have hbound := h.history.bound hr
      omega
    · have hid : id' = id := h.history.unique hr hx (hevolves.seq.symm.trans hseq)
      subst hid
      rw [hr] at hx
      cases hx
      exact ⟨rfl, hevolves.forward, hevolves.final⟩
  · intro res grant pool slotID hstale
    have heq : e'.applyWorkerCompleted env res grant = e' := applyWorkerCompleted_stale hstale
    refine ⟨by simp only [Engine.step, Engine.handleRequest, heq], ?_⟩
    have hadvance : Advances env ⟨fun _ => True, True, fun _ _ => True, fun _ _ => True,
        fun _ => True, fun _ => True, fun _ _ => True⟩ ∅ e'
        (e'.markWorkerIdle env pool slotID) :=
      markWorkerIdle_advances ⟨hreach.coherent, fun _ _ _ _ _ _ _ => trivial⟩ trivial fun _ => trivial
    exact hadvance.keeps

/-- An environment with a clock that counts the readings, in which nothing is refused. -/
def Env.quiet : Env where
  clock n := n + 1
  rootDone _ := false
  callerDone _ := false
  decides _ := true
  lane _ := []
  durabilityAccepts _ := true
  pumpAccepts _ := true
  resolve _ _ _ := none
  poolOrder _ l := l
  idOrder _ l := l

/-- One pool with `concurrency` workers, started on demand. -/
def onePool (concurrency : Int) : Config where
  pools := AList.singleton (goString "pool") { concurrency := concurrency, zeroIdle := true }

theorem onePool_valid (concurrency : Nat) : validateConfig (onePool concurrency) = none := by
  have hpool : validatePool (goString "pool") { concurrency := concurrency, zeroIdle := true } = none := by
    have hname : goString "pool" ≠ [] := by decide +kernel
    have hmin : ¬effectivePoolConcurrency { concurrency := concurrency, zeroIdle := true } < 0 := by
      unfold effectivePoolConcurrency defaultPoolConcurrency
      split_ifs <;> omega
    simp [validatePool, hname, hmin]
  simp [validateConfig, onePool, hpool]

def Engine.solo (concurrency : Nat) (events : List Event) : Engine :=
  (Engine.launch .quiet (onePool concurrency)).run .quiet events

theorem Reachable.solo (concurrency : Nat) (events : List Event) :
    Reachable .quiet (onePool concurrency) (Engine.solo concurrency events) :=
  (ReachableBy.launch .quiet (onePool_valid concurrency)).run
    (launch_runStarted (onePool_valid concurrency)) fun _ _ => trivial

/-- A task of `onePool` with nothing but a handler. -/
def plainSpec (id : String) : WorkSpec where
  id := goString id
  quotaOwner := goString "owner"
  pool := goString "pool"
  handler := some 0

def submitted (id : String) : Event := .request (.submit (plainSpec id))

/-- The completion of a task by the worker of `slot`, under the permit of the `n`-th dispatch. -/
def completed (id : String) (n slot : Nat) : Event :=
  .request (.workerCompleted { taskID := goString id, outcome := .completed }
    (some ⟨n, goString "pool", goString id, n + 1⟩) (goString "pool") slot)

def Engine.stateOf (e : Engine) (id : String) : Option TaskState :=
  (e.registry.lookup (goString id)).map (·.state)

theorem lifecycle_fenced_and_monotone_solo :
    (Engine.solo 1 [submitted "a", submitted "b", completed "a" 0 0, completed "a" 0 0]).faults.doubleClose = false :=
  (lifecycle_fenced_and_monotone (ReachableBy.launch .quiet (onePool_valid 1))
    (launch_runStarted (onePool_valid 1)) _).2.2.2.2.1

/-- One worker, three tasks, and the completion of the first delivered twice: the second delivery is
stale, and dispatches the third task to the slot on which the second still runs. -/
theorem stale_completion_dispatches :
    let e := Engine.solo 1 [submitted "a", submitted "b", submitted "c", completed "a" 0 0]
    Reachable .quiet (onePool 1) e ∧ e.stateOf "a" = some .completed ∧
      (e.registry.lookup (goString "a")).bind (·.permit) = none ∧
      e.stateOf "b" = some .dispatching ∧ e.stateOf "c" = some .queued ∧
      (e.step .quiet (completed "a" 0 0)).stateOf "c" = some .dispatching :=
  ⟨Reachable.solo 1 _, by decide +kernel⟩

end Goultroid
