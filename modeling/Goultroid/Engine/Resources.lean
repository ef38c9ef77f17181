import Goultroid.Engine.InFlight
import Goultroid.Lib.Wrap
import Mathlib.Algebra.Order.BigOperators.Group.Multiset

/-!
# Resource accounts

A resource is charged when a task that declares it is dispatched and refunded when the attempt ends.
`Account` says what a step does to the account of one resource and to what the work in flight declares
of it. While capacities and amounts leave room for one sum, the account is exactly what work in
flight declares, and within the capacity. Without that, an account with nothing in flight is still zero.

The demand for a resource is the sum of what the work in flight declares of it, and
`FlightChange.account` makes of each change of the work in flight a change of the account: a charge at a
dispatch that found the amount available, or the refund of the same amount. With a capacity and one more
amount in the range of an `int64` no charge wraps (`Metered.no_wrap`), so that account and demand stay
equal.
-/

namespace Goultroid

open List Multiset AList
open Admission (Controller QueueEntry)

variable {name : GoString} {requirements : List ResourceRequirement} {s s' : Stage} {env : Env} {al : Allowance}

/-! ### What a spec declares -/

def declaredIn (requirements : List ResourceRequirement) (name : GoString) : ℤ :=
  ((requirements.filter fun requirement => requirement.name = name).map (·.amount.toInt)).sum

def WorkSpec.declared (spec : WorkSpec) (name : GoString) : ℤ := declaredIn spec.resources name

theorem declaredIn_of_notMem (h : ∀ requirement ∈ requirements, requirement.name ≠ name) : declaredIn requirements name = 0 := by
  rw [declaredIn, filter_eq_nil_iff.mpr fun x hx => by simpa using h x hx]
  rfl

/-- Requirements with distinct names change each account at most once, and by what is declared. -/
theorem foldl_account {update : (AList fun _ : GoString => Int64) → ResourceRequirement →
      AList fun _ : GoString => Int64} {f : Int64 → Int64 → Int64}
    (hupdate : ∀ used requirement name, (update used requirement).getD name 0 =
      if name = requirement.name then f (used.getD name 0) requirement.amount else used.getD name 0)
    (hdistinct : (requirements.map (·.name)).Nodup) (used : AList fun _ : GoString => Int64) :
    ((∀ requirement ∈ requirements, requirement.name ≠ name) ∧ (requirements.foldl update used).getD name 0 = used.getD name 0) ∨
    ∃ requirement ∈ requirements, requirement.name = name ∧ declaredIn requirements name = requirement.amount.toInt ∧
      (requirements.foldl update used).getD name 0 = f (used.getD name 0) requirement.amount := by
  induction requirements generalizing used with
  | nil => exact .inl ⟨by simp, rfl⟩
  | cons requirement _ ih =>
    rw [List.map_cons, List.nodup_cons] at hdistinct
    rw [List.foldl_cons]
    rcases ih hdistinct.2 (update used requirement) with ⟨hnone, hsame⟩ | ⟨other, hmem, hname, hdec, hchar⟩
    · rw [hsame, hupdate]
      by_cases hname : name = requirement.name
      · right
        refine ⟨requirement, by simp, hname.symm, ?_, if_pos hname⟩
        have hrest := declaredIn_of_notMem hnone
        rw [declaredIn] at hrest ⊢
        simp [hname.symm, hrest]
      · left
        refine ⟨fun x hx => ?_, if_neg hname⟩
        rcases mem_cons.mp hx with rfl | hx
        · exact fun heq => hname heq.symm
        · exact hnone x hx
    · -- the account is that of later requirement, so not of this one
      have hne : requirement.name ≠ name := by
        rintro rfl
        exact hdistinct.1 (mem_map.mpr ⟨other, hmem, hname⟩)
      right
      refine ⟨other, mem_cons_of_mem _ hmem, hname, ?_, ?_⟩
      · rw [declaredIn] at hdec ⊢
        simp [hne, hdec]
      · rw [hchar, hupdate, if_neg (Ne.symm hne)]

theorem getD_reserveOne (used : AList fun _ : GoString => Int64) (requirement : ResourceRequirement)
    (name : GoString) : (Engine.reserveOne used requirement).getD name 0 =
      if name = requirement.name then used.getD name 0 + requirement.amount else used.getD name 0 := by
  rw [Engine.reserveOne, getD_insert]
  split_ifs with hname
  · rw [hname]
  · rfl

theorem getD_releaseOne (used : AList fun _ : GoString => Int64) (requirement : ResourceRequirement)
    (name : GoString) : (Engine.releaseOne used requirement).getD name 0 =
      if name = requirement.name then Wrap.refund (used.getD name 0) requirement.amount else used.getD name 0 := by
  unfold Engine.releaseOne Wrap.refund
  by_cases hname : name = requirement.name
  · subst hname
    rw [if_pos rfl]
    dsimp only
    split_ifs <;> simp
  · dsimp only
    split_ifs
    · exact getD_erase_ne hname
    · exact getD_insert_ne hname

theorem ResourcesValid.amount_pos {requirement : ResourceRequirement} (h : ResourcesValid requirements)
    (hmem : requirement ∈ requirements) : 0 < requirement.amount.toInt := by
  have hpos := Int64.lt_iff_toInt_lt.mp (h.positive requirement hmem)
  rwa [Int64.toInt_zero] at hpos

theorem ResourcesValid.declared_nonneg (h : ResourcesValid requirements) : 0 ≤ declaredIn requirements name := by
  refine sum_nonneg fun x hx => ?_
  obtain ⟨_, hmem, rfl⟩ := mem_map.mp hx
  exact (h.amount_pos (mem_filter.mp hmem).1).le

/-! ### What a step does to an account -/

def demand (s : Stage) (name : GoString) : ℤ := ((inFlight s).map (·.declared name)).sum

/-- The account of a resource and the demand for it: kept, charged at a dispatch that found it
available, or refunded at the end of an attempt. -/
inductive Account (s s' : Stage) (name : GoString) : Prop where
  | kept (hused : s'.engine.resourceUsed.getD name 0 = s.engine.resourceUsed.getD name 0)
    (hdemand : demand s' name = demand s name)
  | charged (spec : WorkSpec) (requirement : ResourceRequirement) (hmem : requirement ∈ spec.resources)
    (hname : requirement.name = name)
    (hlive : ∃ r, s.engine.registry.lookup spec.id = some r ∧ r.isTerminal = false ∧ r.spec = spec)
    (hfree : ¬s.engine.resourceCapacity.getD name 0 < s.engine.resourceUsed.getD name 0 + requirement.amount)
    (hused : s'.engine.resourceUsed.getD name 0 = s.engine.resourceUsed.getD name 0 + requirement.amount)
    (hdemand : demand s' name = demand s name + requirement.amount.toInt)
  | refunded (requirement : ResourceRequirement) (hpos : 0 < requirement.amount.toInt)
    (hused : s'.engine.resourceUsed.getD name 0 =
      Wrap.refund (s.engine.resourceUsed.getD name 0) requirement.amount)
    (hdemand : demand s' name = demand s name - requirement.amount.toInt)

section

theorem LiveSpecs.inFlight {Q : WorkSpec → Prop} {spec : WorkSpec} (h : LiveSpecs Q s.engine) (hs : Coherent s)
    (hmem : spec ∈ inFlight s) : Q spec := by
  obtain ⟨r, hr, hact, -, rfl⟩ := (mem_inFlight hs).mp hmem
  exact h _ r hr (Coherent.not_terminal_of_active hact)

theorem demand_nonneg (hs : Coherent s) (h : LiveSpecs (fun spec => ResourcesValid spec.resources) s.engine)
    (name : GoString) : 0 ≤ demand s name := by
  refine sum_nonneg fun x hx => ?_
  obtain ⟨spec, hspec, rfl⟩ := mem_map.mp hx
  exact (h.inFlight hs hspec).declared_nonneg

theorem FlightChange.account (hchan : FlightChange env al s s') (hs : Coherent s)
    (h : LiveSpecs (fun spec => ResourcesValid spec.resources) s.engine) : Account s s' name := by
  cases hchan with
  | same hflight hchar | capacity _ _ _ _ _ hflight hchar => exact .kept (by rw [hchar.used]) (by rw [demand, hflight, demand])
  | assign _ candidate _ hpick hflight _ hused =>
    have hwait : candidate ∈ s.engine.adm.waiting := by
      rw [hpick.took.waiting]
      exact mem_cons_self _ _
    obtain ⟨r, hr, hstate, -, hentry⟩ := hs.of_waiting hwait
    have hspec : r.spec = candidate.spec := congrArg QueueEntry.spec hentry
    have hlive := Engine.isTerminal_of_queued hstate
    have hvalid : ResourcesValid candidate.spec.resources := hspec ▸ h _ r hr hlive
    have hdemand : demand s' name = demand s name + declaredIn candidate.spec.resources name := by
      rw [demand, hflight, Multiset.map_cons, Multiset.sum_cons, add_comm]
      rfl
    rcases foldl_account getD_reserveOne hvalid.distinct s.engine.resourceUsed with
      ⟨hnone, hkept⟩ | ⟨requirement, hmem, hname, hdec, hchar⟩
    · rw [declaredIn_of_notMem hnone, add_zero] at hdemand
      exact .kept (by rw [hused, hkept]) hdemand
    · rw [hdec] at hdemand
      obtain ⟨t, -, -, hready, -⟩ := hpick.dispatchable
      simp only [Controller.dispatchable, Bool.and_eq_true] at hready
      have hfree := all_eq_true.mp hready.2 requirement hmem
      rw [Bool.not_eq_true', decide_eq_false_iff_not, hname] at hfree
      exact .charged candidate.spec requirement hmem hname ⟨r, hr, hlive, hspec⟩ hfree (by rw [hused, hchar])
        hdemand
  | release spec hflight _ hused =>
    have hmem : spec ∈ inFlight s := by
      rw [hflight]
      exact mem_cons_self _ _
    have hvalid := h.inFlight hs hmem
    have hdemand : demand s name = declaredIn spec.resources name + demand s' name := by
      rw [demand, hflight, Multiset.map_cons, Multiset.sum_cons]
      rfl
    rcases foldl_account getD_releaseOne hvalid.distinct s.engine.resourceUsed with
      ⟨hnone, hkept⟩ | ⟨requirement, hmem, hname, hdec, href⟩
    · rw [declaredIn_of_notMem hnone, zero_add] at hdemand
      exact .kept (by rw [hused, hkept]) hdemand.symm
    · exact .refunded requirement (hvalid.amount_pos hmem) (by rw [hused, href]) (by omega)

theorem FlightChange.capacities (hchan : FlightChange env al s s') :
    s'.engine.resourceCapacity = s.engine.resourceCapacity ∨ ∃ name capacity, al.resize name capacity ∧
      0 < capacity ∧ s.engine.resourceUsed.getD name 0 ≤ capacity ∧
      s'.engine.resourceUsed = s.engine.resourceUsed ∧ inFlight s' = inFlight s ∧
      s'.engine.resourceCapacity = s.engine.resourceCapacity.insert name capacity := by
  cases hchan with
  | same hflight hchar hcapacity => exact .inl hcapacity
  | capacity name capacity hal hpos hle hflight hchar hcapacity =>
    exact .inr ⟨name, capacity, hal, hpos, hle, hchar.used, hflight, hcapacity⟩
  | assign _ _ _ _ hflight _ hused hcapacity => exact .inl hcapacity
  | release _ hflight _ hused hcapacity => exact .inl hcapacity

end

/-! ### Accounts within bounds -/

section Bounds

variable (C A : GoString → ℤ) {cfg : Config}

/-- The capacities an event sets are at most `C`, and of the amounts it submits those that such a
capacity admits are at most `A`. -/
def Event.Bounded (ev : Event) : Prop :=
  match ev with
  | .request (.setResourceCapacity name capacity) => capacity.toInt ≤ C name
  | .request (.submit spec) => ∀ requirement ∈ spec.resources,
    C requirement.name < requirement.amount.toInt ∨ requirement.amount.toInt ≤ A requirement.name
  | _ => True

/-- The account of every resource what the work in flight declares, and within the capacity. -/
structure Metered (s : Stage) : Prop where
  capacity : ∀ {name capacity}, s.engine.resourceCapacity.lookup name = some capacity →
    0 ≤ capacity.toInt ∧ capacity.toInt ≤ C name
  specs : LiveSpecs (fun spec => ResourcesValid spec.resources ∧
    ∀ requirement ∈ spec.resources, requirement.amount.toInt ≤ A requirement.name) s.engine
  exact : ∀ name, (s.engine.resourceUsed.getD name 0).toInt = demand s name
  within : ∀ name, demand s name ≤ (s.engine.resourceCapacity.getD name 0).toInt

variable {C A}

theorem Metered.no_wrap (h : Metered C A s) (hbound : ∀ name, C name + A name < 2 ^ 63) {amount : Int64} (hamount : amount.toInt ≤ A name) :
    (s.engine.resourceUsed.getD name 0).toInt + amount.toInt < 2 ^ 63 := by
  have hused := (h.exact name).trans_le (h.within name)
  have hlt := amount.toInt_lt
  cases hcapacity : s.engine.resourceCapacity.lookup name with
  | none =>
    rw [getD_of_none hcapacity, Int64.toInt_zero] at hused
    omega
  | some capacity =>
    rw [getD_of_lookup hcapacity] at hused
    have hle := (h.capacity hcapacity).2
    have hsum := hbound name
    omega

theorem Metered.step (h : Metered C A s) (hs : Coherent s) (hbound : ∀ name, C name + A name < 2 ^ 63)
    (hresizes : ∀ name capacity, al.resize name capacity → capacity.toInt ≤ C name)
    (hadmits : ∀ spec, al.admits spec → ∀ requirement ∈ spec.resources,
      C requirement.name < requirement.amount.toInt ∨ requirement.amount.toInt ≤ A requirement.name)
    (step : Micro env al s s') : Metered C A s' := by
  have hvalid : LiveSpecs (fun spec => ResourcesValid spec.resources) s.engine :=
    fun _ _ hr hlive => (h.specs _ _ hr hlive).1
  have hspecs : LiveSpecs (fun spec => ResourcesValid spec.resources ∧
      ∀ requirement ∈ spec.resources, requirement.amount.toInt ≤ A requirement.name) s'.engine := by
    refine h.specs.change (fun spec hal hok => ⟨hok.resources, fun requirement hmem => ?_⟩)
      (step.registryChange hs)
    obtain ⟨capacity, hcapacity, hle⟩ := hok.satisfiable requirement hmem
    have hC := (h.capacity hcapacity).2
    rw [Int64.le_iff_toInt_le] at hle
    have hA := hadmits spec hal requirement hmem
    omega
  have hnon : ∀ name, 0 ≤ demand s' name :=
    demand_nonneg (step.coherent hs) fun _ _ hr hlive => (hspecs _ _ hr hlive).1
  rcases (step.flightChange hs).capacities with hcapacity | ⟨name, capacity, hal, hpos, hle, hused, hflight, hset⟩
  · have haccount : ∀ name, (s'.engine.resourceUsed.getD name 0).toInt = demand s' name ∧
        demand s' name ≤ (s.engine.resourceCapacity.getD name 0).toInt := by
      intro name
      have hexact := h.exact name
      have hwithin := h.within name
      cases (step.flightChange hs).account hs hvalid with
      | kept hused hdemand =>
        rw [hused, hdemand]
        exact ⟨hexact, hwithin⟩
      | charged spec requirement hmem hname hlive hfree hused hdemand =>
        obtain ⟨r, hr, hterm, rfl⟩ := hlive
        have hspec := h.specs _ r hr hterm
        have hpos := hspec.1.amount_pos hmem
        have hamount := hspec.2 requirement hmem
        rw [hname] at hamount
        have hnow := demand_nonneg hs hvalid name
        have hsum := Wrap.toInt_charge (by omega) hpos.le (h.no_wrap hbound hamount)
        rw [Int64.lt_iff_toInt_lt, hsum] at hfree
        rw [hused, hdemand, hsum]
        omega
      | refunded requirement hpos hused hdemand =>
        have hleft := hnon name
        have href := Wrap.toInt_refund hpos.le (show requirement.amount.toInt ≤
          (s.engine.resourceUsed.getD name 0).toInt by omega)
        rw [hused, href, hdemand]
        omega
    refine ⟨fun hlook => h.capacity (hcapacity ▸ hlook), hspecs, fun name => (haccount name).1, fun name => ?_⟩
    rw [hcapacity]
    exact (haccount name).2
  · have hdemand : ∀ name, demand s' name = demand s name := fun name => by rw [demand, hflight, demand]
    have hcap := Int64.lt_iff_toInt_lt.mp hpos
    refine ⟨fun {other c} hlook => ?_, hspecs, fun other => ?_, fun other => ?_⟩
    · rw [hset, lookup_insert_eq] at hlook
      split_ifs at hlook with hother
      · cases hlook
        exact ⟨hcap.le, hother ▸ hresizes name capacity hal⟩
      · exact h.capacity hlook
    · rw [hused, hdemand]
      exact h.exact other
    · rw [hset, hdemand, getD_insert]
      split_ifs with hother
      · subst hother
        rw [← h.exact]
        exact Int64.le_iff_toInt_le.mp hle
      · exact h.within other

theorem passes_check {α : Type*} {c : Prop} {err : α} {rest : Option α} [Decidable c]
    (h : (if c then some err else rest) = none) : ¬c ∧ rest = none := by
  by_cases hc : c
  · rw [if_pos hc] at h
    cases h
  · rw [if_neg hc] at h
    exact ⟨hc, h⟩

theorem validateConfig_capacity {capacity : Int64} (h : validateConfig cfg = none)
    (hlook : cfg.resourceCapacities.lookup name = some capacity) : 0 < capacity := by
  -- eleven fields and the pools come before the capacities
  iterate 11
    replace h := (passes_check h).2
  cases hpools : cfg.pools.entries.findSome? fun s => validatePool s.1 s.2 with
  | some err =>
    rw [hpools] at h
    cases h
  | none =>
    rw [hpools] at h
    by_contra hnot
    refine (passes_check h).1 (any_eq_true.mpr ⟨⟨name, capacity⟩, mem_entries_iff.mpr hlook, ?_⟩)
    simp [Int64.not_lt.mp hnot]

theorem ReachableBy.metered (hbound : ∀ name, C name + A name < 2 ^ 63)
    (hcfg : ∀ name capacity, cfg.resourceCapacities.lookup name = some capacity → capacity.toInt ≤ C name)
    (hvalid : validateConfig cfg = none) {e : Engine} (h : ReachableBy env cfg (fun _ ev => ev.Bounded C A) e) : Metered C A ⟨e, ∅⟩ := by
  refine (ReachableBy.invariant (P := Metered C A) (fun pump resolver => ?_)
    (fun _ he _ _ => ⟨he.capacity, he.specs, he.exact, he.within⟩)
    (fun _ _ _ he => ⟨he.capacity, he.specs, he.exact, he.within⟩)
    (fun _ _ he => ⟨he.capacity, he.specs, he.exact, he.within⟩) (fun al s s' hal step hs he => ?_) h).2
  · have hcapacity : ∀ {name capacity}, cfg.resourceCapacities.lookup name = some capacity →
        0 ≤ capacity.toInt ∧ capacity.toInt ≤ C name := fun hlook =>
      ⟨(Int64.lt_iff_toInt_lt.mp (validateConfig_capacity hvalid hlook)).le, hcfg _ _ hlook⟩
    refine ⟨hcapacity, fun _ _ hr => (by cases hr), fun name => rfl, fun name => ?_⟩
    show 0 ≤ (cfg.resourceCapacities.getD name 0).toInt
    cases hlook : cfg.resourceCapacities.lookup name with
    | none => rw [getD_of_none hlook, Int64.toInt_zero]
    | some =>
      rw [getD_of_lookup hlook]
      exact (hcapacity hlook).1
  · refine he.step hs hbound (fun name capacity hset => ?_) (fun spec hadmits => ?_) step
    · rcases hal with rfl | ⟨_, ev, hok, rfl⟩
      · exact hset.elim
      · obtain rfl : ev = _ := hset
        exact hok
    · rcases hal with rfl | ⟨_, ev, hok, rfl⟩
      · exact hadmits.elim
      · obtain ⟨_, cls, _, rfl, rfl⟩ := hadmits
        exact hok

end Bounds

/-- In every run in which one capacity and one amount of a resource do not wrap, what is used of a
resource is what the dispatching and running records declare of it, and within its capacity. -/
theorem resources_conserved {env : Env} {cfg : Config} {C A : GoString → ℤ} (hbound : ∀ name, C name + A name < 2 ^ 63)
    (hcfg : ∀ name capacity, cfg.resourceCapacities.lookup name = some capacity → capacity.toInt ≤ C name)
    {e : Engine} (h : ReachableBy env cfg (fun _ ev => ev.Bounded C A) e) (hstarted : e.runStarted = true) (name : GoString) :
    (e.resourceUsed.getD name 0).toInt = AList.total (fun _ r => if r.state.isActive = true then r.spec.declared name else 0) e.registry ∧
    ∀ capacity, e.resourceCapacity.lookup name = some capacity → e.resourceUsed.getD name 0 ≤ capacity := by
  have hmet := h.metered hbound hcfg (h.valid hstarted)
  constructor
  · rw [hmet.exact name, demand, inFlight]
    have hsum := map_total
      ((Multiset.sumAddMonoidHom).comp (Multiset.mapAddMonoidHom fun spec : WorkSpec => spec.declared name))
      (flightBag ∅) e.registry
    refine hsum.trans (total_congr fun id r _ => ?_)
    rw [flightBag, activeAt_of_notMem (Finset.notMem_empty id)]
    split_ifs <;> simp
  · intro capacity hlook
    have hwithin := hmet.within name
    rw [← hmet.exact name, getD_of_lookup hlook] at hwithin
    exact Int64.le_iff_toInt_le.mpr hwithin

def gpuPool : Config := { onePool 2 with resourceCapacities := AList.singleton (goString "gpu") 4 }

def gpuSpec (id : String) (amount : Int64) : WorkSpec :=
  { plainSpec id with resources := [⟨goString "gpu", amount⟩] }

/-- Of two tasks that declare three units each, one runs. -/
theorem resources_conserved_gpu :
    let e := (Engine.launch .quiet gpuPool).run .quiet
      [.request (.submit (gpuSpec "a" 3)), .request (.submit (gpuSpec "b" 3))]
    (e.resourceUsed.getD (goString "gpu") 0).toInt = 3 ∧ e.stateOf "b" = some .queued := by
  intro e
  have hvalid : validateConfig gpuPool = none := by decide +kernel
  have hcfg : ∀ name capacity, gpuPool.resourceCapacities.lookup name = some capacity →
      capacity.toInt ≤ 4 := by
    intro name capacity hlook
    have hmem := mem_entries_iff.mpr hlook
    simp [gpuPool] at hmem
    rw [hmem.2]
    decide
  have hreach : ReachableBy .quiet gpuPool (fun _ ev => ev.Bounded (fun _ => 4) fun _ => 3) e :=
    (ReachableBy.launch .quiet hvalid).run (Engine.launch_runStarted hvalid)
      (by simp [Event.Bounded, gpuSpec])
  have hused := (resources_conserved (fun _ => by decide) hcfg hreach (by decide +kernel) (goString "gpu")).1
  exact ⟨hused.trans (by decide +kernel), by decide +kernel⟩

end Goultroid
