import Goultroid.Engine.Credits

/-!
# Retained bytes

A record is charged at its admission, when its result is bounded and when its commit fails, and gives
back what it no longer reaches when it settles and the rest when it is evicted. The count of the engine
is the sum of the charges of its records, and no clamp of the source is ever taken. A settlement evicts
until the count is within its limit or no terminal record is left.

`Retained` says that the count is the `total` of what the records hold; a refund takes away no more
than the record holds, so no clamp is taken. That a settlement ends within the limit is an induction
over the eviction loop (`evictTerminalHead_calm`). After an admission the dispatch that follows may
settle expired entries, which charges and then evicts, and it never charges a live record more
(`Shrinks`).
-/

namespace Goultroid

open List AList Engine
open Admission (QueueEntry)

variable {e e' : Engine} {spec : WorkSpec} {env : Env} {s s' : Stage} {rec r r' : TaskRecord} {id : TaskID} {bytes delta : Int}
  {al : Allowance} {cfg : Config}

/-! ### Charges -/

theorem payloadSize_nonneg (input : Payload) : 0 ≤ (payloadSize input).getD 0 := by
  cases input <;> simp [payloadSize]

theorem resourceMetadataBytes_nonneg (resources : List ResourceRequirement) : 0 ≤ resourceMetadataBytes resources := by
  have key : ∀ (l : List ResourceRequirement) (bytes : Int), 0 ≤ bytes →
      0 ≤ l.foldl (fun (bytes : Int) requirement => bytes + requirement.name.length) bytes := by
    intro l
    induction l with
    | nil => exact fun _ hbytes => hbytes
    | cons requirement l ih =>
      intro bytes hbytes
      apply ih
      dsimp only
      omega
  apply key
  unfold resourceRequirementBytes
  omega

theorem terminalDetachedJobBytes_le (job : Option OccurrenceRef) :
    0 ≤ terminalDetachedJobBytes job ∧ terminalDetachedJobBytes job ≤ jobMetadataBytes job := by
  cases job with
  | none => simp [terminalDetachedJobBytes, jobMetadataBytes]
  | some =>
    simp only [terminalDetachedJobBytes, jobMetadataBytes, jobRefBytes]
    omega

theorem terminalDetachedSpecBytes_nonneg (spec : WorkSpec) : 0 ≤ terminalDetachedSpecBytes spec := by
  have hpayload := payloadSize_nonneg spec.input
  have hjob := (terminalDetachedJobBytes_le spec.job).1
  have hresources := resourceMetadataBytes_nonneg spec.resources
  unfold terminalDetachedSpecBytes
  omega

theorem terminalDetachedSpecBytes_le_charge (spec : WorkSpec) : terminalDetachedSpecBytes spec ≤ retainedCharge spec := by
  have hjob := (terminalDetachedJobBytes_le spec.job).2
  unfold terminalDetachedSpecBytes retainedCharge workSpecMetadataBytes taskOverheadBytes
  omega

def heldBytes (_ : TaskID) (r : TaskRecord) : ℤ := r.retainedBytes

structure Retained (e : Engine) : Prop where
  exact : e.retainedBytes = AList.total heldBytes e.registry
  live : ∀ {id r}, e.registry.lookup id = some r → r.isTerminal = false →
    terminalDetachedSpecBytes r.spec ≤ r.retainedBytes
  nonneg : ∀ {id r}, e.registry.lookup id = some r → 0 ≤ r.retainedBytes
  unclamped : e.faults.clamped = false
  limit : 0 < e.maxRetainedBytes

namespace Retained

section

variable (h : Retained e)
include h

theorem total_nonneg : 0 ≤ e.retainedBytes := by
  rw [h.exact]
  exact AList.total_nonneg fun _ _ hr => h.nonneg hr

theorem le_total (hr : e.registry.lookup id = some r) : r.retainedBytes ≤ e.retainedBytes := by
  rw [h.exact]
  exact AList.le_total (f := heldBytes) (fun _ _ hx => h.nonneg hx) hr

theorem congr (hreg : e'.registry = e.registry) (hbytes : e'.retainedBytes = e.retainedBytes)
    (hfaults : e'.faults.clamped = e.faults.clamped) (hmax : e'.maxRetainedBytes = e.maxRetainedBytes) : Retained e' := by
  refine ⟨?_, ?_, ?_, hfaults.trans h.unclamped, hmax ▸ h.limit⟩
  · rw [hbytes, hreg]
    exact h.exact
  · rw [hreg]
    exact h.live
  · rw [hreg]
    exact h.nonneg

theorem update (hdelta : 0 ≤ delta) (hr : e.registry.lookup id = some r)
    (hreg : e'.registry = e.registry.insert id r') (hspec : r'.spec = r.spec) (hlive : r.isTerminal = false)
    (hchar : r'.retainedBytes = r.retainedBytes + delta) (hbytes : e'.retainedBytes = e.retainedBytes + delta)
    (hfaults : e'.faults.clamped = e.faults.clamped) (hmax : e'.maxRetainedBytes = e.maxRetainedBytes) : Retained e' := by
  have hold := h.live hr hlive
  have hpos := h.nonneg hr
  refine ⟨?_, fun {id' x} hx hxlive => ?_, fun {id' x} hx => ?_, hfaults.trans h.unclamped, hmax ▸ h.limit⟩
  · rw [hbytes, hreg, total_insert_of_lookup hr, h.exact, heldBytes, heldBytes, hchar]
    omega
  · rw [hreg] at hx
    rcases of_lookup_insert hx with ⟨-, rfl⟩ | ⟨-, hx⟩
    · rw [hspec, hchar]
      omega
    · exact h.live hx hxlive
  · rw [hreg] at hx
    rcases of_lookup_insert hx with ⟨-, rfl⟩ | ⟨-, hx⟩
    · omega
    · exact h.nonneg hx

theorem publish (hadmissible : Admissible e spec) (reserved : Bool) (now : Time) : Retained (e.publish spec reserved now) := by
  have hdetached := terminalDetachedSpecBytes_le_charge spec
  have hpos := terminalDetachedSpecBytes_nonneg spec
  refine ⟨?_, fun {id x} hx hxlive => ?_, fun {id x} hx => ?_, h.unclamped, h.limit⟩
  · show e.retainedBytes + retainedCharge spec = AList.total heldBytes (e.registry.insert spec.id _)
    rw [total_insert_of_none hadmissible.fresh, h.exact]
    rfl
  · rcases of_lookup_insert hx with ⟨-, rfl⟩ | ⟨-, hx⟩
    · exact hdetached
    · exact h.live hx hxlive
  · rcases of_lookup_insert hx with ⟨-, rfl⟩ | ⟨-, hx⟩
    · exact hpos.trans hdetached
    · exact h.nonneg hx

/-- A settling record gives back exactly what it was charged for its spec. -/
theorem settle (hr : e.registry.lookup id = some r) (hlive : r.isTerminal = false)
    (hrec : Concludes r rec delta) (hid : rec.spec.id = id) : Retained (e.settleRecord env rec delta) := by
  subst hid
  have hdelta := hrec.charge
  have hretained := hrec.retained
  have hcharge := h.live hr hlive
  have hle := h.le_total hr
  have hdetached : Engine.detachedBytes rec = terminalDetachedSpecBytes r.spec := by
    rw [Engine.detachedBytes, hrec.spec, if_neg (by omega)]
  have hleft : (Engine.closedRecord rec).retainedBytes =
      r.retainedBytes + delta - terminalDetachedSpecBytes r.spec := by
    show rec.retainedBytes - Engine.detachedBytes rec = _
    rw [hdetached, hretained]
  have hbytes : (e.settleRecord env rec delta).retainedBytes =
      e.retainedBytes + delta - terminalDetachedSpecBytes r.spec := by
    show (if e.retainedBytes + delta - Engine.detachedBytes rec < 0 then 0
      else e.retainedBytes + delta - Engine.detachedBytes rec) = _
    rw [hdetached, if_neg (by omega)]
  have hterm : (Engine.closedRecord rec).isTerminal = true := hrec.terminal
  refine ⟨?_, fun {id' x} hx hxlive => ?_, fun {id' x} hx => ?_, ?_, h.limit⟩
  · show _ = AList.total heldBytes (e.registry.insert rec.spec.id (Engine.closedRecord rec))
    rw [hbytes, total_insert_of_lookup hr, heldBytes, heldBytes, hleft, h.exact]
    omega
  · rcases of_lookup_insert hx with ⟨-, rfl⟩ | ⟨-, hx⟩
    · rw [hterm] at hxlive
      cases hxlive
    · exact h.live hx hxlive
  · rcases of_lookup_insert hx with ⟨-, rfl⟩ | ⟨-, hx⟩
    · omega
    · exact h.nonneg hx
  · show (e.faults.clamped || decide (rec.retainedBytes < terminalDetachedSpecBytes rec.spec ∨
      e.retainedBytes + delta - Engine.detachedBytes rec < 0)) = false
    rw [h.unclamped, hdetached, hrec.spec, Bool.false_or, decide_eq_false_iff_not]
    omega

theorem evict (oldest : TaskID) (rest : List TaskID) :
    Retained (e.evictOldest oldest rest) ∧ (e.evictOldest oldest rest).retainedBytes ≤ e.retainedBytes := by
  rcases e.evictOldest_cases oldest rest with ⟨x, hx, hterm, heq⟩ | ⟨-, heq⟩
  · have hle := h.le_total hx
    have hpos := h.nonneg hx
    have hset : ({ e with terminalOrder := rest } : Engine).setRetained (e.retainedBytes - x.retainedBytes) =
        { e with terminalOrder := rest, retainedBytes := e.retainedBytes - x.retainedBytes } := by
      simp [Engine.setRetained, hle]
    rw [heq, hset]
    have hkept : ∀ {id' y}, (e.registry.erase oldest).lookup id' = some y → e.registry.lookup id' = some y := by
      intro id' y hy
      obtain ⟨-, hy⟩ := of_lookup_erase hy
      exact hy
    refine ⟨⟨?_, fun hy => h.live (hkept hy), fun hy => h.nonneg (hkept hy), h.unclamped, h.limit⟩, ?_⟩
    · rw [total_erase_of_lookup hx, h.exact]
      rfl
    · show e.retainedBytes - x.retainedBytes ≤ e.retainedBytes
      omega
  · rw [heq]
    exact ⟨h.congr rfl rfl rfl rfl, le_rfl⟩

end

end Retained

theorem Micro.retained (step : Micro env al s s') (h : Coherent s) (hc : Retained s.engine) : Retained s'.engine := by
  cases step with
  | observe | reserve | scopes | regroup | quiesce | drain | capacity | unqueue | release | unpend | await | touch
    | configure | markIdle => exact hc.congr rfl rfl rfl rfl
  | publish spec reserved now hal hadmissible => exact hc.publish hadmissible reserved now
  | assign adm hwp _ _ hr hstate =>
    exact hc.update le_rfl hr rfl rfl (isTerminal_of_queued hstate) (add_zero _).symm (add_zero _).symm
      rfl rfl
  | started _ hr hstate =>
    refine hc.update le_rfl hr rfl rfl ?_ (add_zero _).symm (add_zero _).symm rfl rfl
    rw [TaskRecord.isTerminal, hstate]
    rfl
  | markCancel _ hr hact =>
    exact hc.update le_rfl hr rfl rfl (Coherent.not_terminal_of_active hact) (add_zero _).symm
      (add_zero _).symm rfl rfl
  | settle rec delta hr hD hrec =>
    have hlive := h.live_of_detached hr hD
    exact hc.settle hr hlive hrec (h.id_of_spec hr hrec.spec)
  | @pend e D id r rec delta hr hD hact hrec =>
    have hreg := h.registry_pendRecord hr hrec
    exact hc.update hrec.charge hr hreg hrec.spec (Coherent.not_terminal_of_active hact) hrec.retained rfl
      rfl rfl
  | evict oldest rest => exact (hc.evict oldest rest).1
  | spawn hwp hal hspawn =>
    rw [spawn_pushIdle_eq hwp hspawn]
    exact hc.congr rfl rfl rfl rfl
  | retire hretire =>
    obtain ⟨wp, -, -, rfl⟩ := retireWorker_eq hretire
    exact hc.congr rfl rfl rfl rfl

theorem Steps.retained (h : Steps env al s s') (hs : Coherent s) (hc : Retained s.engine) : Retained s'.engine :=
  (Steps.keeps (P := fun s => Retained s.engine) (fun _ _ step => step.retained) h hs hc).2

theorem newEngine_retained (pump : Option CommitPump) (resolver : Bool) :
    Retained { newEngine cfg with commitPump := pump, handlerResolver := resolver } := by
  refine ⟨rfl, fun hr => (by cases hr), fun hr => (by cases hr), rfl, ?_⟩
  show 0 < if cfg.maxRetainedBytes ≤ 0 then defaultMaxRetainedBytes else cfg.maxRetainedBytes
  split_ifs with hle
  · decide
  · omega

theorem Reachable.retained (h : Reachable env cfg e) : Retained e :=
  Reachable.invariant (P := fun s => Retained s.engine) newEngine_retained
    (fun _ he _ _ => he.congr rfl rfl rfl rfl) (fun _ _ _ he => he.congr rfl rfl rfl rfl)
    (fun _ _ he => he.congr rfl rfl rfl rfl) (fun _ _ _ step hs he => step.retained hs he) h

/-! ### Eviction after a settlement -/

/-- The count is within its limit, or no terminal record is listed for eviction. -/
structure Calm (e : Engine) : Prop where
  limit : 0 < e.maxRetainedBytes
  within : e.retainedBytes ≤ e.maxRetainedBytes ∨ e.terminalOrder = []

/-- What `Calm` is about. -/
structure SameBytes (e e' : Engine) : Prop where
  bytes : e'.retainedBytes = e.retainedBytes
  limit : e'.maxRetainedBytes = e.maxRetainedBytes
  order : e'.terminalOrder = e.terminalOrder

theorem SameBytes.trans {e'' : Engine} (h : SameBytes e e') (h' : SameBytes e' e'') : SameBytes e e'' :=
  ⟨h'.bytes.trans h.bytes, h'.limit.trans h.limit, h'.order.trans h.order⟩

theorem Calm.same (h : Calm e) (hsame : SameBytes e e') : Calm e' := by
  refine ⟨hsame.limit ▸ h.limit, ?_⟩
  rw [hsame.bytes, hsame.limit, hsame.order]
  exact h.within

namespace Engine

variable {fuel : Nat} {now : Time} {pool : PoolID}

theorem evictOldest_fields (e : Engine) (oldest : TaskID) (rest : List TaskID) :
    (e.evictOldest oldest rest).maxRetainedBytes = e.maxRetainedBytes ∧ (e.evictOldest oldest rest).terminalOrder = rest := by
  rcases e.evictOldest_cases oldest rest with ⟨r, -, -, heq⟩ | ⟨-, heq⟩
  · rw [heq]
    exact ⟨rfl, rfl⟩
  · rw [heq]
    exact ⟨rfl, rfl⟩

/-- Eviction by count and size goes on until the count is within its limit or nothing is listed. -/
theorem evictTerminalHead_calm (hfuel : e.terminalOrder.length ≤ fuel)
    (hlimit : 0 < e.maxRetainedBytes) : Calm (evictTerminalHead overRetention fuel e) := by
  induction fuel generalizing e with
  | zero => exact ⟨hlimit, .inr (length_eq_zero_iff.mp (Nat.le_zero.mp hfuel))⟩
  | succ fuel ih =>
    rw [evictTerminalHead]
    split_ifs with hover
    · split
      · exact ⟨hlimit, .inr ‹_›⟩
      · rename_i oldest rest hlist
        obtain ⟨hmax, hrest⟩ := e.evictOldest_fields oldest rest
        refine ih ?_ (hmax ▸ hlimit)
        rw [hrest]
        rw [hlist, length_cons] at hfuel
        omega
    · refine ⟨hlimit, .inl ?_⟩
      by_contra hnot
      apply hover
      rw [overRetention, decide_eq_true hlimit, decide_eq_true (not_le.mp hnot)]
      simp

theorem settleTerminal_calm (hterm : rec.isTerminal = true) (hlimit : 0 < e.maxRetainedBytes) :
    Calm (settleTerminal env { e with retainedBytes := e.retainedBytes + delta } rec) := by
  have hcalm : Calm (evictTerminalRecords (e.settleRecord env (fillAttempt rec) delta)) :=
    evictTerminalHead_calm le_rfl hlimit
  rw [settleTerminal_eq hterm]
  exact hcalm.same ⟨rfl, rfl, rfl⟩

theorem settleExpired_calm {entry : QueueEntry} (h : Calm e) : Calm (e.settleExpired env now entry) := by
  unfold settleExpired
  split
  · exact h
  · split_ifs
    · exact settleTerminal_calm rfl h.limit
    · exact h

theorem settleExpired_foldl_calm (entries : List QueueEntry) (h : Calm e) : Calm (entries.foldl (settleExpired env now) e) := by
  induction entries generalizing e with
  | nil => exact h
  | cons _ entries ih => exact ih (settleExpired_calm h)

theorem evictTerminalHead_calm_of {shouldEvict : Engine → Bool} (h : Calm e) (hretained : Retained e) :
    Calm (evictTerminalHead shouldEvict fuel e) := by
  refine (evictTerminalHead_invariant (P := fun e => Calm e ∧ Retained e) (fun e oldest rest hlist hx => ?_) fuel ⟨h, hretained⟩).1
  obtain ⟨hmax, -⟩ := e.evictOldest_fields oldest rest
  obtain ⟨hnext, hle⟩ := hx.2.evict oldest rest
  have hwithin : e.retainedBytes ≤ e.maxRetainedBytes := by
    refine hx.1.within.resolve_right fun hnil => ?_
    rw [hlist] at hnil
    cases hnil
  exact ⟨⟨hmax ▸ hx.1.limit, .inl (hmax ▸ hle.trans hwithin)⟩, hnext⟩

theorem spawnNextWorker_bytes : SameBytes e (e.spawnNextWorker env pool).2 := by
  unfold spawnNextWorker
  split
  · exact ⟨rfl, rfl, rfl⟩
  · split_ifs
    · exact ⟨rfl, rfl, rfl⟩
    · split
      · exact ⟨rfl, rfl, rfl⟩
      · split
        · exact ⟨rfl, rfl, rfl⟩
        · rename_i e' hspawn
          obtain ⟨wp, hwp⟩ := spawnWorker_pool hspawn
          rw [spawn_pushIdle_eq hwp hspawn]
          exact ⟨rfl, rfl, rfl⟩

theorem spawnIfStarved_bytes : SameBytes e (e.spawnIfStarved env pool) := by
  unfold spawnIfStarved
  split_ifs
  · exact spawnNextWorker_bytes
  · exact ⟨rfl, rfl, rfl⟩

theorem dispatchLoop_bytes (fuel : Nat) (e : Engine) : SameBytes e (dispatchLoop env pool fuel e) := by
  induction fuel generalizing e with
  | zero => exact ⟨rfl, rfl, rfl⟩
  | succ fuel ih =>
    unfold dispatchLoop
    split
    · exact ⟨rfl, rfl, rfl⟩
    · split
      · exact ⟨rfl, rfl, rfl⟩
      · dsimp only
        split
        · exact ⟨rfl, rfl, rfl⟩
        · split
          · refine SameBytes.trans ?_ (ih _)
            exact ⟨rfl, rfl, rfl⟩
          · split_ifs
            iterate 2
              · refine SameBytes.trans ?_ (ih _)
                exact ⟨rfl, rfl, rfl⟩

theorem tryDispatch_calm (h : Coherent ⟨e, ∅⟩) (hretained : Retained e) (hcalm : Calm e) : Calm (e.tryDispatch env pool) := by
  unfold tryDispatch
  split_ifs
  · exact hcalm
  · have htick : Steps env (.dispatching env e.obs) ⟨e, ∅⟩ ⟨e.tick, ∅⟩ := tick_steps e ∅
    have hready := Ready.dispatching env h
    set popped := e.adm.popExpired pool (env.clock e.obs) with hpop
    have hswept : Advances env (.dispatching env e.obs) ∅ e.tick
        (popped.1.foldl (settleExpired env (env.clock e.obs)) { e.tick with adm := popped.2 }) :=
      settleSwept_advances (htick.ready hready).coherent (hready.expires e.obs le_rfl)
    have hretained' := (htick.trans hswept.steps).retained h hretained
    have hfold : Calm (popped.1.foldl (settleExpired env (env.clock e.obs)) { e.tick with adm := popped.2 }) :=
      settleExpired_foldl_calm popped.1 (hcalm.same ⟨rfl, rfl, rfl⟩)
    have hsweep : Calm (e.tick.sweepExpired env pool (env.clock e.obs)) := by
      unfold sweepExpired evictExpiredTerminal
      dsimp only
      split_ifs
      · exact hfold
      · exact evictTerminalHead_calm_of hfold hretained'
    exact ((hsweep.same spawnIfStarved_bytes).same (dispatchLoop_bytes _ _)).same
      spawnIfStarved_bytes

end Engine

/-! ### Live records under dispatch -/

def liveBytes (_ : TaskID) (r : TaskRecord) : ℤ := if r.isTerminal then 0 else r.retainedBytes

theorem liveBytes_of_live (h : r.isTerminal = false) : liveBytes id r = r.retainedBytes := by
  rw [liveBytes, h]
  rfl

theorem liveBytes_of_terminal (h : r.isTerminal = true) : liveBytes id r = 0 := by
  rw [liveBytes, h]
  rfl

/-- No record on its way between places holds an attempt. -/
def Settling (s : Stage) : Prop :=
  ∀ id ∈ s.detached, ∀ r, s.engine.registry.lookup id = some r → r.state.isActive = false

/-- While no attempt is released, live records are never charged more. -/
structure Shrinks (bytes limit : ℤ) (s : Stage) : Prop where
  settling : Settling s
  live : AList.total liveBytes s.engine.registry ≤ bytes
  limit : s.engine.maxRetainedBytes = limit

namespace Shrinks

variable {limit : ℤ}

section

variable {D : Finset TaskID} (h : Shrinks bytes limit ⟨e, D⟩)
include h

theorem congr (hreg : e'.registry = e.registry) (hmax : e'.maxRetainedBytes = e.maxRetainedBytes) : Shrinks bytes limit ⟨e', D⟩ := by
  refine ⟨?_, ?_, hmax.trans h.limit⟩
  · intro id hid r hr
    rw [hreg] at hr
    exact h.settling id hid r hr
  · rw [hreg]
    exact h.live

theorem store {D' : Finset TaskID} (hr : e.registry.lookup id = some r)
    (hreg : e'.registry = e.registry.insert id r') (hmax : e'.maxRetainedBytes = e.maxRetainedBytes)
    (hD : D' ⊆ D) (hplace : id ∈ D' → r'.state.isActive = false) (hle : liveBytes id r' ≤ liveBytes id r) :
    Shrinks bytes limit ⟨e', D'⟩ := by
  refine ⟨?_, ?_, hmax.trans h.limit⟩
  · intro id' hid' x hx
    rw [hreg] at hx
    rcases of_lookup_insert hx with ⟨heq, rfl⟩ | ⟨heq, hx⟩
    · exact hplace (heq ▸ hid')
    · exact h.settling id' (hD hid') x hx
  · have hlive : AList.total liveBytes e.registry ≤ bytes := h.live
    rw [hreg, total_insert_of_lookup hr]
    omega

theorem detach (hr : e.registry.lookup id = some r) (hstate : r.state.isActive = false) (hreg : e'.registry = e.registry)
    (hmax : e'.maxRetainedBytes = e.maxRetainedBytes) : Shrinks bytes limit ⟨e', insert id D⟩ := by
  refine ⟨?_, ?_, hmax.trans h.limit⟩
  · intro id' hid' x hx
    rw [hreg] at hx
    rcases Finset.mem_insert.mp hid' with rfl | hmem
    · rw [hr] at hx
      cases hx
      exact hstate
    · exact h.settling id' hmem x hx
  · rw [hreg]
    exact h.live

theorem evict (oldest : TaskID) (rest : List TaskID) : Shrinks bytes limit ⟨e.evictOldest oldest rest, D⟩ := by
  rcases e.evictOldest_cases oldest rest with ⟨x, hx, hterm, heq⟩ | ⟨-, heq⟩
  · rw [heq]
    refine ⟨fun id hid y hy => ?_, ?_, h.limit⟩
    · obtain ⟨-, hy⟩ := of_lookup_erase hy
      exact h.settling id hid y hy
    · rw [total_erase_of_lookup hx, liveBytes_of_terminal hterm, sub_zero]
      exact h.live
  · rw [heq]
    exact h.congr rfl rfl

end

end Shrinks

theorem Micro.shrinks {limit : Int} (step : Micro env al s s') (hadmits : ∀ spec, ¬ al.admits spec) (hrel : ∀ permit, ¬ al.release permit)
    (h : Coherent s) (hc : Retained s.engine) (hs : Shrinks bytes limit s) : Shrinks bytes limit s' := by
  cases step with
  | observe | reserve | scopes | regroup | quiesce | drain | capacity | await | touch | configure | markIdle =>
    exact hs.congr rfl rfl
  | publish spec _ now hal => exact absurd hal (hadmits spec)
  | release hr hact hD hal => exact absurd hal (hrel _)
  | pend rec delta hr hD hact =>
    have hnot := hs.settling _ hD _ hr
    rw [hact] at hnot
    cases hnot
  | unqueue adm hr hstate | unpend hr hstate => exact hs.detach hr (by rw [hstate]; rfl) rfl rfl
  | assign adm hwp _ _ hr hstate hD =>
    refine hs.store hr rfl rfl subset_rfl (fun hmem => absurd hmem hD) ?_
    rw [liveBytes_of_live (isTerminal_of_queued hstate)]
    exact le_rfl
  | @started e D id r startedAt hr hstate hD =>
    refine hs.store hr rfl rfl subset_rfl (fun hmem => absurd hmem hD) ?_
    have hlive : r.isTerminal = false := by
      rw [TaskRecord.isTerminal, hstate]
      rfl
    rw [liveBytes_of_live hlive]
    exact le_rfl
  | @markCancel e D id r reason hr hact =>
    have hplace : id ∈ D → r.state.isActive = false := fun hmem => hs.settling id hmem r hr
    exact hs.store hr rfl rfl subset_rfl hplace le_rfl
  | @settle e D id r rec delta hr hD hrec =>
    have hreg := h.registry_settleRecord env hr hrec
    have hterm : (Engine.closedRecord rec).isTerminal = true := hrec.terminal
    refine hs.store hr hreg rfl (Finset.erase_subset id D)
      (fun hmem => absurd rfl (Finset.ne_of_mem_erase hmem)) ?_
    rw [liveBytes_of_terminal hterm, liveBytes]
    split_ifs
    · exact le_rfl
    · exact hc.nonneg hr
  | evict oldest rest => exact hs.evict oldest rest
  | spawn hwp hal hspawn =>
    rw [spawn_pushIdle_eq hwp hspawn]
    exact hs.congr rfl rfl
  | retire hretire =>
    obtain ⟨wp, -, -, rfl⟩ := retireWorker_eq hretire
    exact hs.congr rfl rfl

/-! ### Admission and settlement -/

theorem Steps.credits (h : Steps env al s s') (hs : Coherent s) (hc : Credits s.engine) : Credits s'.engine :=
  (Steps.keeps (P := fun s => Credits s.engine) (fun _ _ step => step.credits) h hs hc).2

namespace Engine

/-- After `accept`, the count is within its limit: what the sweep charges, it evicts. -/
theorem accept_retained (h : Coherent ⟨e, ∅⟩) (hretained : Retained e) (hcredits : Credits e)
    (hadmissible : Admissible e spec) (reserved : Bool) : (e.accept env spec reserved).1.retainedBytes ≤ e.maxRetainedBytes := by
  set e1 := e.tick.publish spec reserved (env.clock e.obs) with he1
  have hpub : Steps env { Allowance.starting with admits := fun _ => True } ⟨e, ∅⟩ ⟨e1, ∅⟩ :=
    (tick_steps e ∅).tail (.publish spec reserved _ trivial (admissible_observe hadmissible _ _))
  have hcoherent := hpub.coherent h
  have hretained1 : Retained e1 := hpub.retained h hretained
  have hbudget : e1.retainedBytes ≤ e.maxRetainedBytes := hadmissible.budget hretained.limit
  have hdispatch : Steps env (.dispatching env e1.obs) ⟨e1, ∅⟩ ⟨(e.accept env spec reserved).1, ∅⟩ :=
    (tryDispatch_advances (Ready.dispatching env hcoherent) trivial).steps
  have hretained2 := hdispatch.retained hcoherent hretained1
  have hcredits2 := hdispatch.credits hcoherent (hpub.credits h hcredits)
  have hlive : AList.total liveBytes e1.registry ≤ e1.retainedBytes := by
    rw [hretained1.exact]
    refine total_mono fun id r hr => ?_
    rw [liveBytes, heldBytes]
    split_ifs
    · exact hretained1.nonneg hr
    · exact le_rfl
  have hshr : Shrinks e1.retainedBytes e.maxRetainedBytes ⟨(e.accept env spec reserved).1, ∅⟩ :=
    (Steps.keeps (P := fun s => Retained s.engine ∧ Shrinks e1.retainedBytes e.maxRetainedBytes s)
      (fun _ _ step hx hy => ⟨step.retained hx hy.1, step.shrinks (fun _ hal => hal) (fun _ hal => hal) hx hy.1 hy.2⟩) hdispatch
      hcoherent ⟨hretained1, fun id hid => absurd hid (Finset.notMem_empty id), hlive, rfl⟩).2.2
  have hcalm : Calm (e.accept env spec reserved).1 :=
    tryDispatch_calm hcoherent hretained1 ⟨hretained.limit, .inl hbudget⟩
  rcases hcalm.within with hwithin | hnone
  · exact hwithin.trans_eq hshr.limit
  · -- nothing terminal is left, so what is counted is what live records are charged
    have hall : (e.accept env spec reserved).1.retainedBytes =
        AList.total liveBytes (e.accept env spec reserved).1.registry := by
      rw [hretained2.exact]
      refine total_congr fun id r hr => ?_
      have hterm : r.isTerminal = false := by
        by_contra hnot
        have hmem := (hcredits2.order id).mpr ⟨r, hr, by simpa using hnot⟩
        rw [hnone] at hmem
        cases hmem
      rw [liveBytes_of_live hterm, heldBytes]
    rw [hall]
    exact hshr.live.trans hbudget

def Listed (e : Engine) : Prop :=
  ∀ id r, e.registry.lookup id = some r → r.isTerminal = true → id ∈ e.terminalOrder

theorem Listed.evictOldest {oldest : TaskID} {rest : List TaskID} (h : e.Listed)
    (hlist : e.terminalOrder = oldest :: rest) : (e.evictOldest oldest rest).Listed := by
  rcases e.evictOldest_cases oldest rest with ⟨x, -, -, heq⟩ | ⟨hnone, heq⟩
  · rw [heq]
    intro id r hr hterm
    obtain ⟨hid, hr⟩ := of_lookup_erase hr
    have hmem := h id r hr hterm
    rw [hlist] at hmem
    exact mem_of_ne_of_mem hid hmem
  · rw [heq]
    intro id r hr hterm
    have hmem := h id r hr hterm
    rw [hlist] at hmem
    refine mem_of_ne_of_mem (fun hid => ?_) hmem
    have hlive := hnone r (hid ▸ hr)
    rw [hterm] at hlive
    cases hlive

theorem Listed.settleTerminal (h : e.Listed) (delta : Int) (hterm : rec.isTerminal = true) :
    (Engine.settleTerminal env { e with retainedBytes := e.retainedBytes + delta } rec).Listed := by
  have hsettled : (e.settleRecord env (fillAttempt rec) delta).Listed := by
    intro id r hr hr'
    show id ∈ e.terminalOrder ++ [(fillAttempt rec).spec.id]
    replace hr : (e.registry.insert (fillAttempt rec).spec.id _).lookup id = some r := hr
    rw [lookup_insert_eq] at hr
    split_ifs at hr with hid
    · simp [hid]
    · exact mem_append_left _ (h id r hr hr')
  rw [settleTerminal_eq hterm]
  exact evictTerminalHead_invariant (P := Listed) (fun _ _ _ hlist he => he.evictOldest hlist) _ hsettled

end Engine

/-- In every reachable state the count of retained bytes is the sum of the charges of all records, it is
not negative, and no clamp has been taken. An accepted submission leaves it within its limit. And
wherever on the way of an event a record settles, it is within its limit afterwards or no terminal
record is left. -/
theorem retained_bytes_exact {env : Env} {cfg : Config} {e : Engine} (h : Reachable env cfg e) :
    e.retainedBytes = AList.total heldBytes e.registry ∧ 0 ≤ e.retainedBytes ∧ e.faults.clamped = false ∧
    (∀ spec ticket, (e.admitSubmit env spec).2 = .ok ticket →
      (e.admitSubmit env spec).1.retainedBytes ≤ e.maxRetainedBytes) ∧
    ∀ ev s, Steps env (Event.allowance env ev e.obs) ⟨e, ∅⟩ s → ∀ rec delta, rec.isTerminal = true →
      let e' := Engine.settleTerminal env
        { s.engine with retainedBytes := s.engine.retainedBytes + delta } rec
      e'.retainedBytes ≤ e'.maxRetainedBytes ∨ ∀ id r, e'.registry.lookup id = some r → r.isTerminal = false := by
  have hretained := h.retained
  have hcoherent := ReachableBy.coherent h
  refine ⟨hretained.exact, hretained.total_nonneg, hretained.unclamped, fun spec ticket hok => ?_,
    fun ev s hsteps rec delta hterm => ?_⟩
  · cases admitSubmit_cases with
    | rejected n d err hobs hlends heq =>
      rw [heq] at hok
      cases hok
    | accepted n d _ hobs _ hlends hadmissible heq =>
      have hlend : Steps env { Allowance.starting with reserve := True } ⟨e, ∅⟩ ⟨e.lend n d, ∅⟩ :=
        lend_steps trivial hobs
      rw [heq]
      exact accept_retained (hlend.coherent hcoherent) (hlend.retained hcoherent hretained)
        (hlend.credits hcoherent h.credits) hadmissible _
  · have hlisted : s.engine.Listed := fun id r hr hr' =>
      ((hsteps.credits hcoherent h.credits).order id).mpr ⟨r, hr, hr'⟩
    have hlimit := (hsteps.retained hcoherent hretained).limit
    refine (settleTerminal_calm hterm hlimit).within.imp_right fun hnone id r hr => ?_
    by_contra hnot
    have hmem := hlisted.settleTerminal delta hterm id r hr (by simpa using hnot)
    rw [hnone] at hmem
    cases hmem

/-- Two records are charged, one of them in its reduced terminal form, and a third is accepted. -/
theorem retained_bytes_exact_solo :
    let e := Engine.solo 1 [submitted "a", submitted "b", .request (.cancel (goString "b") .userCancel)]
    e.retainedBytes = AList.total heldBytes e.registry ∧ 0 < e.retainedBytes ∧
      (e.admitSubmit .quiet (plainSpec "c")).1.retainedBytes ≤ e.maxRetainedBytes := by
  have hres := retained_bytes_exact (Reachable.solo 1
    [submitted "a", submitted "b", .request (.cancel (goString "b") .userCancel)])
  have hok : ∃ ticket, ((Engine.solo 1
      [submitted "a", submitted "b", .request (.cancel (goString "b") .userCancel)]).admitSubmit .quiet
        (plainSpec "c")).2 = .ok ticket := ⟨⟨goString "c", 3⟩, by decide +kernel⟩
  obtain ⟨ticket, hok⟩ := hok
  exact ⟨hres.1, by decide +kernel, hres.2.2.2.1 _ ticket hok⟩

end Goultroid
