import Goultroid.Scheduler.Ticks

/-!
# The identity of a periodic task

A task is found again by two texts that are made of its owner and its name: its key in `entries`, and the id of its
definition, under which the jobs manager asks for it. Neither text escapes its parts, and a separator in a name can
make the texts of two tasks agree. Plain names have no separator, and both texts can be cut at their last one. A call
finds registrations by their key, so that among plain names it finds none but those that it is about.
-/

namespace Goultroid.Periodic

open List AList Threads

variable {a b : Identity} {env : Env} {choice : Choice} {c c' : Coordinator} {t t' : Task} {new : List Task}

def PeriodicRegistration.identity (reg : PeriodicRegistration) : Identity := (reg.owner, reg.name)

/-- A name with neither a slash nor a colon. -/
def plainName (name : GoString) : Bool := !name.contains 0x2F && !name.contains 0x3A

/-- The owner is one that `Register` accepts, and the name is plain. -/
def Plain (id : Identity) : Prop := id.1 ≠ [] ∧ plainName id.2 = true

/-- One of the two texts is the same. -/
def Clash (a b : Identity) : Prop :=
  periodicKey a.1 a.2 = periodicKey b.1 b.2 ∨ periodicDefinitionID a.1 a.2 = periodicDefinitionID b.1 b.2

theorem Plain.notMem (h : Plain a) : 0x2F ∉ a.2 ∧ 0x3A ∉ a.2 := by
  simpa [plainName] using h.2

theorem Plain.key_cases (h : Plain a) : a.1 = goString "runtime" ∧ periodicKey a.1 a.2 = a.2 ∨
    periodicKey a.1 a.2 = a.1 ++ 0x2F :: a.2 := by
  have hslash : goString "/" = [0x2F] := by decide
  unfold periodicKey
  split_ifs with howner
  · exact .inl ⟨howner.resolve_left h.1, rfl⟩
  · exact .inr (by simp [hslash])

theorem Plain.eq_of_key (ha : Plain a) (hb : Plain b) (h : periodicKey a.1 a.2 = periodicKey b.1 b.2) : a = b := by
  rcases ha.key_cases with ⟨howner, hkey⟩ | hkey <;> rcases hb.key_cases with ⟨howner', hkey'⟩ | hkey' <;> rw [hkey, hkey'] at h
  · exact Prod.ext (howner.trans howner'.symm) h
  · exact absurd (by simp [h]) ha.notMem.1
  · exact absurd (by simp [← h]) hb.notMem.1
  · obtain ⟨howner, hname⟩ := Text.append_cut ha.notMem.1 hb.notMem.1 h
    exact Prod.ext howner hname

theorem Plain.eq_of_definition (ha : Plain a) (hb : Plain b) (h : periodicDefinitionID a.1 a.2 = periodicDefinitionID b.1 b.2) : a = b := by
  have hcolon : goString ":" = [0x3A] := by decide
  simp only [periodicDefinitionID, hcolon, append_assoc, append_cancel_left_eq, singleton_append] at h
  obtain ⟨howner, hname⟩ := Text.append_cut ha.notMem.2 hb.notMem.2 h
  exact Prod.ext howner hname

theorem runtime_ne_nil : goString "runtime" ≠ [] := by decide

theorem Env.registerCheck_owner {name : GoString} {interval : Duration} {options : PeriodicTaskOptions} {task : Bool}
    (h : env.registerCheck name interval options task = .ok a) : a.1 ≠ [] := by
  unfold Env.registerCheck at h
  dsimp only at h
  split_ifs at h with _ _ _ _ _ howner <;> cases h
  · exact runtime_ne_nil
  · exact howner

/-! ### The registry -/

namespace Registry

variable {r r' : Registry} {q : Nat} {reg : PeriodicRegistration} {key owner name : GoString} {now : Time} {interval : Duration}

/-- The registered identities are plain, also those that only `jobDefs` still has. -/
structure PlainNames (r : Registry) : Prop where
  live : ∀ q reg, r.Live q reg → Plain reg.identity
  defs : ∀ d id, r.jobDefs.lookup d = some id → Plain id.1

theorem PlainNames.runTaskFunc (h : r.PlainNames) (hsound : r.Sound []) {defID : GoString} (hrun : r.runTaskFunc defID = .ok q) :
    ∃ reg, r.Live q reg ∧ reg.definitionID = defID := by
  unfold Registry.runTaskFunc at hrun
  split at hrun
  · cases hrun
  · next id hdef hid =>
    split at hrun <;> cases hrun
    next hlook =>
    obtain ⟨reg, hreg, hkey⟩ := hsound.keyed _ _ hlook
    have hlive : r.Live q reg := ⟨hkey ▸ hlook, hreg⟩
    obtain rfl := (h.live q reg hlive).eq_of_key (h.defs _ _ hid) hkey
    exact ⟨reg, hlive, hdef⟩

/-- A registration whose key a change does not touch. -/
theorem Live.kept (hlive : r.Live q reg) (hkept : Kept r r') (hlook : r'.entries.lookup reg.key = r.entries.lookup reg.key) :
    ∃ reg', r'.Live q reg' ∧ reg'.bare = reg.bare := by
  obtain ⟨reg', hreg', hbare⟩ := hkept.regs q reg hlive.2
  obtain ⟨t, rfl⟩ := PeriodicRegistration.of_bare hbare
  exact ⟨{ reg with heapEntry := t }, ⟨hlook.trans hlive.1, hreg'⟩, rfl⟩

theorem lookup_install (hkey : key ≠ periodicKey owner name) :
    (r.install now owner name interval).1.entries.lookup key = r.entries.lookup key := by
  rw [install_eq]
  split
  · exact lookup_insert_ne hkey
  · exact (lookup_insert_ne hkey).trans (congrArg _ entries_detach)

theorem lookup_drop {key' : GoString} (hkey : key ≠ key') : (r.drop key').1.entries.lookup key = r.entries.lookup key := by
  unfold drop
  split
  · rfl
  · exact lookup_erase_ne hkey

/-- What `UnregisterByOwner` removes and cancels is the owner's. -/
theorem Sound.dropOwner_owned (owner : GoString) (order : List GoString) (h : r.Sound []) :
    let owned (reg : PeriodicRegistration) := reg.owner = owner ∨ reg.owner = goString "plugin:" ++ owner
    (∀ q reg, r.Live q reg → ¬ owned reg → ∃ reg', (Registry.dropOwner owner order r).1.Live q reg' ∧ reg'.bare = reg.bare) ∧
      ∀ id ∈ (Registry.dropOwner owner order r).2.1, ∃ q reg, r.Live q reg ∧ owned reg ∧ reg.running = true ∧ reg.occurrenceID = id := by
  intro owned
  induction order generalizing r with
  | nil => exact ⟨fun q reg hlive _ => ⟨reg, hlive, rfl⟩, by simp [Registry.dropOwner]⟩
  | cons key order ih =>
    rw [Registry.dropOwner]
    split
    · exact ih h
    · next q old hentry =>
      obtain ⟨-, hold⟩ := h.entry? hentry
      by_cases howned : owned old
      · rw [if_pos howned]
        obtain ⟨hdropped, hkept⟩ := h.drop key
        obtain ⟨hothers, hids⟩ := ih hdropped
        refine ⟨fun q' reg hlive hother => ?_, fun id hid => ?_⟩
        · have hne : reg.key ≠ key := by
            rintro rfl
            cases hlive.entry?.symm.trans hentry
            exact hother howned
          obtain ⟨_, hlive', hbare⟩ := hlive.kept hkept (lookup_drop hne)
          obtain ⟨t, rfl⟩ := PeriodicRegistration.of_bare hbare
          exact hothers q' { reg with heapEntry := t } hlive' hother
        · rcases mem_append.mp hid with hid | hid
          · split_ifs at hid with hrunning
            · exact ⟨q, old, hold, howned, hrunning.1, (mem_singleton.mp hid).symm⟩
            · cases hid
          · obtain ⟨q', _, hlive', howned', hrunning, rfl⟩ := hids id hid
            rcases hkept.live q' _ hlive' with ⟨reg, hlive, hbare⟩ | ⟨-, hidle⟩
            · obtain ⟨_, rfl⟩ := PeriodicRegistration.of_bare hbare
              exact ⟨q', reg, hlive, howned', hrunning, rfl⟩
            · rw [hrunning] at hidle
              cases hidle
      · rw [if_neg howned]
        exact ih h

end Registry

/-! ### Calls -/

/-- The names that a call gives are plain. -/
def Task.Plain (env : Env) : Task → Prop
  | .install owner name _ => Periodic.Plain (owner, name)
  | .unregister name | .unregisterOwned _ name => plainName (env.trimSpace name) = true
  | _ => True

/-- The registrations that a step of a call is about. `Unregister` gives no owner: it means the task of the runtime, and if
there is none, any task with the name. -/
def Task.About (env : Env) (r : Registry) (reg : PeriodicRegistration) : Task → Prop
  | .install owner name _ => reg.identity = (owner, name)
  | .unregisterOwned owner name =>
    reg.identity = (if env.trimSpace owner = [] then goString "runtime" else env.trimSpace owner, env.trimSpace name)
  | .unregister name =>
    reg.name = env.trimSpace name ∧ (reg.owner = goString "runtime" ∨ r.entries.lookup (env.trimSpace name) = none)
  | .unregisterByOwner owner => reg.owner = env.trimSpace owner ∨ reg.owner = goString "plugin:" ++ env.trimSpace owner
  | .stop => True
  | _ => False

/-- The occurrences that a call is going to cancel. -/
def Task.cancels : Task → List OccurrenceID
  | .cancel ids .. | .stopContext _ _ ids | .stopping _ ids => ids
  | _ => []

/-- A step touches only registrations that the call is about: the others stay live with all but their timer entry, and none
of their occurrences is going to be cancelled. -/
structure Apart (env : Env) (c : Coordinator) (t : Task) (c' : Coordinator) (t' : Task) : Prop where
  others : ∀ q reg, c.registry.Live q reg → ¬ t.About env c.registry reg → ∃ reg', c'.registry.Live q reg' ∧ reg'.bare = reg.bare
  cancels : ∀ id ∈ t'.cancels, id ∈ t.cancels ∨ ∃ q reg, c.registry.Live q reg ∧ t.About env c.registry reg ∧ reg.occurrenceID = id

theorem Apart.same (hregistry : c'.registry = c.registry) (hids : ∀ id ∈ t'.cancels, id ∈ t.cancels) : Apart env c t c' t' :=
  ⟨fun _ reg hlive _ => ⟨reg, hregistry ▸ hlive, rfl⟩, fun id hid => .inl (hids id hid)⟩

theorem Apart.quiet (hregistry : c'.registry = c.registry) (hnone : t'.cancels = []) : Apart env c t c' t' :=
  .same hregistry (by simp [hnone])

section Calls

variable (hplain : c.registry.PlainNames) (hsound : c.registry.Sound [])
include hsound

/-- A key is dropped that belongs to a registration the call is about. -/
theorem Apart.drop {key : GoString} {jobs : Bool} {reason : GoString}
    (habout : ∀ q reg, c.registry.Live q reg → reg.key = key → t.About env c.registry reg) :
    Apart env c t { c with registry := (c.registry.drop key).1 }
      (.cancel (if (c.registry.drop key).2 = [] ∨ jobs = false then [] else [(c.registry.drop key).2]) reason .ok) := by
  refine ⟨fun q reg hlive hother => ?_, fun id hid => ?_⟩
  · exact hlive.kept (hsound.drop key).2 (Registry.lookup_drop fun hkey => hother (habout q reg hlive hkey))
  · cases hentry : c.registry.entry? key with
    | none => simp [Task.cancels, Registry.drop, hentry] at hid
    | some found =>
      obtain ⟨hkey, hlive⟩ := hsound.entry? hentry
      refine .inr ⟨found.1, found.2, hlive, habout _ _ hlive hkey, ?_⟩
      simp only [Task.cancels, Registry.drop, hentry] at hid
      split_ifs at hid
      · cases hid
      · exact (mem_singleton.mp hid).symm

theorem Apart.stop (h : env.advance choice c .stop = some (c', t', new)) : Apart env c .stop c' t' := by
  simp only [Env.advance] at h
  split_ifs at h <;> cases h
  · exact .quiet rfl rfl
  · refine ⟨fun q reg _ hother => absurd trivial hother, fun id hid => .inr ?_⟩
    obtain ⟨item, hitem, rfl⟩ := mem_map.mp hid
    obtain ⟨key, -, hitem⟩ := mem_filterMap.mp hitem
    split at hitem
    · cases hitem
    · next q reg hentry =>
      split_ifs at hitem
      cases hitem
      exact ⟨q, reg, (hsound.entry? hentry).2, trivial, rfl⟩

include hplain

theorem Apart.install {owner name : GoString} {interval : Duration} (hname : Plain (owner, name))
    (h : env.advance choice c (.install owner name interval) = some (c', t', new)) : Apart env c (.install owner name interval) c' t' := by
  cases h
  have habout (q : Nat) (reg : PeriodicRegistration) (hlive : c.registry.Live q reg) (hkey : reg.key = periodicKey owner name) :
      reg.identity = (owner, name) := (hplain.live q reg hlive).eq_of_key hname hkey
  refine ⟨fun q reg hlive hother => ?_, fun id hid => ?_⟩
  · exact hlive.kept (hsound.install _ owner name interval).2 (Registry.lookup_install fun hkey => hother (habout q reg hlive hkey))
  · cases hentry : c.registry.entry? (periodicKey owner name) with
    | none => simp [Task.cancels, Registry.install, hentry] at hid
    | some found =>
      obtain ⟨hkey, hlive⟩ := hsound.entry? hentry
      refine .inr ⟨found.1, found.2, hlive, habout _ _ hlive hkey, ?_⟩
      simp only [Task.cancels, Registry.install, hentry] at hid
      split_ifs at hid
      all_goals simp_all

theorem Apart.unregister {name : GoString} (hname : plainName (env.trimSpace name) = true)
    (h : env.advance choice c (.unregister name) = some (c', t', new)) : Apart env c (.unregister name) c' t' := by
  simp only [Env.advance] at h
  split_ifs at h
  · cases h
    exact .quiet rfl rfl
  · split at h <;> cases h
    · exact .quiet rfl rfl
    · next key hfind =>
      refine .drop hsound fun q reg hlive hkey => ?_
      unfold Registry.find at hfind
      split at hfind
      · cases hfind
        have hown : reg.identity = (goString "runtime", env.trimSpace name) :=
          (hplain.live q reg hlive).eq_of_key ⟨runtime_ne_nil, hname⟩ (hkey.trans (by simp [periodicKey]))
        exact ⟨congrArg Prod.snd hown, .inl (congrArg Prod.fst hown)⟩
      · next hnone =>
        have hfound := find?_some hfind
        rw [← hkey, hlive.entry?] at hfound
        refine ⟨by simpa using hfound, .inr ?_⟩
        cases hlook : c.registry.entries.lookup (env.trimSpace name) with
        | none => rfl
        | some q' =>
          obtain ⟨reg', hreg', hkey'⟩ := hsound.keyed _ _ hlook
          have hlive' : c.registry.Live q' reg' := ⟨hkey' ▸ hlook, hreg'⟩
          rw [← hkey', hlive'.entry?] at hnone
          cases hnone

theorem Apart.unregisterOwned {owner name : GoString} (hname : plainName (env.trimSpace name) = true)
    (h : env.advance choice c (.unregisterOwned owner name) = some (c', t', new)) : Apart env c (.unregisterOwned owner name) c' t' := by
  simp only [Env.advance] at h
  split at h <;> cases h
  · exact .quiet rfl rfl
  · refine .drop hsound fun q reg hlive hkey => (hplain.live q reg hlive).eq_of_key ⟨?_, hname⟩ (hkey.trans ?_)
    · dsimp only
      split_ifs with hempty
      · exact runtime_ne_nil
      · exact hempty
    · unfold periodicKey
      split_ifs <;> simp_all

theorem Apart.advance (hname : t.Plain env) (hloop : t.loop? = none) (h : env.advance choice c t = some (c', t', new)) :
    Apart env c t c' t' := by
  cases t with
  | loop => cases hloop
  | install => exact .install hplain hsound hname h
  | unregister => exact .unregister hplain hsound hname h
  | unregisterOwned => exact .unregisterOwned hplain hsound hname h
  | unregisterByOwner owner =>
    obtain ⟨hothers, hids⟩ := hsound.dropOwner_owned (env.trimSpace owner) choice.order
    simp only [Env.advance] at h
    split_ifs at h <;> cases h
    · exact .quiet rfl rfl
    · exact ⟨hothers, by simp [Task.cancels]⟩
    · refine ⟨hothers, fun id hid => .inr ?_⟩
      obtain ⟨q, reg, hlive, howned, -, hid⟩ := hids id hid
      exact ⟨q, reg, hlive, howned, hid⟩
    · exact ⟨hothers, by simp [Task.cancels]⟩
  | stop => exact .stop hsound h
  | cancel ids | stopping _ ids =>
    cases ids with
    | nil =>
      cases h
      exact .quiet rfl rfl
    | cons =>
      simp only [Env.advance, Env.transact] at h
      split_ifs at h <;> cases h
      all_goals first | exact .same rfl fun id hid => mem_cons_of_mem _ hid | exact .quiet rfl rfl
  | notify | start =>
    simp only [Env.advance] at h
    repeat' split at h
    all_goals
      cases h
      first | exact .quiet rfl rfl | exact .quiet startLoopLocked_same.1 rfl
  | returned => cases h
  | stopContext =>
    cases h
    exact .same rfl fun _ hid => hid
  | _ =>
    simp only [Env.advance] at h
    repeat' split at h
    all_goals
      cases h
      exact .quiet rfl rfl

end Calls

/-- The library of Go, with times in nanoseconds. -/
def goEnv : Env := ⟨⟨Text.decimalInt, Text.decimalInt, id⟩, Text.trimSpace⟩

/-- Two plugins register a task with the same name. -/
def twoPluginsActs : List (Act Task Choice) :=
  [.call .start, .move 0 {}, .call .setJobsManager, .move 1 {}, .move 1 {},
   .call (.register (goString " sync") 1 { owner := goString "plugin:a" } true), .move 2 {}, .move 2 {}, .move 2 {},
   .call (.register (goString "sync") 1 { owner := goString "plugin:b " } true), .move 3 {}, .move 3 {}, .move 3 {}]

end Goultroid.Periodic
