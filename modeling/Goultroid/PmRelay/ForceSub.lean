import Goultroid.Lib.Text
import Goultroid.Lib.Threads
import Goultroid.Tasks.Types

/-!
# The force-subscribe policy

`ForceSubConfig` and `ConfigureForceSub` of the relay service over its repository. A call is a sequence of statements and of sections under
the lock of the cache. The cache is as good as the table if what is put into it is still stored (`prompt`).

A write gives the next revision (`Call.Fits`), and in prompt runs the cache holds the stored configuration or nothing, unless a call has
written and not yet published (`Current`, `writing`). For what calls return, those that begin after a revision was seen are followed on
their own: none of them has an earlier one in hand (`Kept`).
-/

namespace Goultroid.PmRelay

open List Option Threads
open Threads (Act Pool Program Run)

variable {fault : Bool} {i : Nat}

inductive ForceSubFailureMode where
  | unset | closed | open
  | other (text : GoString)
  deriving DecidableEq

structure ForceSubConfig where
  enabled : Bool
  channelUsername : GoString
  joinURL : GoString
  failureMode : ForceSubFailureMode
  revision : Int
  updatedAt : Time
  deriving DecidableEq

def usernameByte (b : UInt8) : Bool := (0x61 ≤ b && b ≤ 0x7A) || (0x30 ≤ b && b ≤ 0x39) || b == 0x5F

def ForceSubConfig.normalize (c : ForceSubConfig) : Option ForceSubConfig :=
  let name := Text.toLower (Text.trimAt (Text.trimSpace c.channelUsername))
  let url := Text.trimSpace c.joinURL
  let mode := if c.failureMode = .unset then .closed else c.failureMode
  if mode ≠ .closed ∧ mode ≠ .open ∨ c.revision ≤ 0 ∨ c.updatedAt = 0 then none
  else if 32 < name.length ∨ 512 < url.length then none
  else if c.enabled then
    if name.length < 5 ∨ name.all usernameByte = false then none
    else
      let url := if url = [] then goString "https://t.me/" ++ name else url
      if (goString "https://t.me/").isPrefixOf url then some { c with channelUsername := name, joinURL := url, failureMode := mode }
      else none
  else some { c with channelUsername := [], joinURL := [], failureMode := mode }

/-- The arguments of `ConfigureForceSub` and its clock reading: a configuration that has no revision yet. -/
abbrev Request := ForceSubConfig

def Request.next (r : Request) (current : ForceSubConfig) : ForceSubConfig :=
  { r with failureMode := if r.enabled then r.failureMode else .closed, revision := current.revision + 1 }

/-- The cache of the service, and the row of the table. -/
structure Service where
  forceSubCached : Option ForceSubConfig
  stored : ForceSubConfig

/-- `GetForceSubConfig`; a row is normalized when it is read. -/
def Service.get (s : Service) (fault : Bool) : Option ForceSubConfig := if fault then none else s.stored.normalize

/-- What a call does next. `ConfigureForceSub` begins with `ForceSubConfig`, and has a request. -/
inductive Call where
  | cached (request : Option Request)
  | get (request : Option Request)
  | merge (request : Option Request) (config : ForceSubConfig)
  /-- the query of `UpdateForceSubConfig` -/
  | check (expected : Int) (next : ForceSubConfig)
  /-- its `UPDATE` -/
  | update (expected : Int) (next : ForceSubConfig)
  | readBack
  | publish (updated : ForceSubConfig)
  | invalidate
  | failed
  | read (config : ForceSubConfig)
  | configured (config : ForceSubConfig)
  deriving DecidableEq

/-- `ForceSubConfig` has its answer. -/
def Call.after (request : Option Request) (config : ForceSubConfig) : Call :=
  match request with
  | none => .read config
  | some r => (Request.next r config).normalize.elim .failed (.check config.revision)

/-- A step; any statement may fail. -/
def advance (fault : Bool) (s : Service) : Call → Option (Service × Call)
  | .cached request => some (s, s.forceSubCached.elim (.get request) (.after request))
  | .get request => some (s, (s.get fault).elim .failed (.merge request))
  | .merge request config =>
    let cached := match s.forceSubCached with
      | none => config
      | some c => if c.revision ≤ config.revision then config else c
    some ({ s with forceSubCached := some cached }, .after request cached)
  | .check expected next => some (s,
    if expected ≤ 0 then .failed
    else match s.get fault with
      | none => .failed
      | some current =>
        if current.revision ≠ expected then .invalidate
        else if next.revision ≠ expected + 1 then .failed
        else next.normalize.elim .failed (.update expected))
  | .update expected next =>
    if fault then some (s, .failed)
    else if s.stored.revision = expected then some ({ s with stored := next }, .readBack)
    else some (s, .invalidate)
  | .readBack => some (s, (s.get fault).elim .failed .publish)
  | .publish updated => some ({ s with forceSubCached := some updated }, .configured updated)
  | .invalidate => some ({ s with forceSubCached := none }, .failed)
  | .failed | .read _ | .configured _ => none

def program : Program Service Call Bool := fun _ fault s t => (advance fault s t).map fun (s', t') => (s', t', [])

def Call.entry : Call → Bool
  | .cached _ => true
  | _ => false

def start (stored : ForceSubConfig) : Pool Service Call := ⟨⟨none, stored⟩, []⟩

def Call.returned : Call → Bool
  | .failed | .read _ | .configured _ => true
  | _ => false

/-- A configuration is put into the cache while it is the stored one, and what was written is read back. -/
def prompt (p : Pool Service Call) : Act Call Bool → Bool
  | .call _ => true
  | .move i fault => match p.threads[i]? with
    | some (.merge _ config) =>
      decide (p.shared.stored.normalize = some config) || p.shared.forceSubCached.any (config.revision < ·.revision)
    | some .readBack => (p.shared.get fault).isSome
    | some (.publish updated) => decide (p.shared.stored.normalize = some updated)
    | _ => true

/-! ### Steps -/

variable {s s' : Service} {t t' : Call} {p p' q : Pool Service Call} {c c' config : ForceSubConfig} {n : Int}

theorem normalize_revision (h : c.normalize = some c') : c'.revision = c.revision := by
  simp only [ForceSubConfig.normalize] at h
  split_ifs at h <;> cases h <;> rfl

theorem get_revision (h : s.get fault = some c) : c.revision = s.stored.revision := by
  unfold Service.get at h
  split_ifs at h
  exact normalize_revision h

namespace Service

/-- Nobody gets an earlier revision. -/
def Above (n : Int) (s : Service) : Prop := n ≤ s.stored.revision ∧ ∀ c, s.forceSubCached = some c → n ≤ c.revision

def Bounded (s : Service) : Prop := ∀ c, s.forceSubCached = some c → c.revision ≤ s.stored.revision

/-- The cache holds nothing but the stored configuration. -/
def Current (s : Service) : Prop := ∀ c, s.forceSubCached = some c → s.stored.normalize = some c

end Service

namespace Call

/-- The call has changed the table, and not yet the cache. -/
def writing : Call → Bool
  | .readBack | .publish _ => true
  | _ => false

/-- What is returned was published, and what is written has the next revision. -/
def Fits (s : Service) : Call → Prop
  | .configured r => s.Above r.revision
  | .update expected next => next.revision = expected + 1
  | _ => True

/-- `ForceSubConfig` does not return an earlier revision. -/
def Holds (n : Int) : Call → Prop
  | .merge _ config | .read config => n ≤ config.revision
  | _ => True

theorem after_spec (s : Service) (request : Option Request) (config : ForceSubConfig) :
    (after request config).Fits s ∧ ∀ n ≤ config.revision, (after request config).Holds n := by
  cases request with
  | none => exact ⟨trivial, fun _ h => h⟩
  | some r =>
    rw [after]
    cases (Request.next r config).normalize <;> exact ⟨trivial, fun _ _ => trivial⟩

theorem Fits.mono (h : t.Fits s) (habove : ∀ n, s.Above n → s'.Above n) : t.Fits s' := by
  cases t with
  | configured r => exact habove _ h
  | _ => exact h

end Call

structure Steps (s : Service) (t : Call) (s' : Service) (t' : Call) : Prop where
  above : ∀ n, s.Above n → s'.Above n ∧ (t.Holds n → t'.Holds n)
  bounded : s'.Bounded
  current : t.writing = true ∨ s.Current → t'.writing = true ∨ s'.Current
  fits : t'.Fits s'

namespace Steps

theorem same (hb : s.Bounded) (hw : t.writing = true → t'.writing = true) (hfits : t'.Fits s)
    (hholds : ∀ n, s.Above n → t.Holds n → t'.Holds n) : Steps s t s t' :=
  ⟨fun n hn => ⟨hn, hholds n hn⟩, hb, Or.imp_left hw, hfits⟩

/-- The stored configuration is put into the cache. -/
theorem cache (hstored : s.stored.normalize = some config) (hfits : t'.Fits { s with forceSubCached := some config })
    (hholds : ∀ n, n ≤ config.revision → t'.Holds n) : Steps s t { s with forceSubCached := some config } t' := by
  have hrev := normalize_revision hstored
  refine ⟨fun n hn => ⟨⟨hn.1, fun c hc => ?_⟩, fun _ => hholds n (hrev ▸ hn.1)⟩, fun c hc => ?_, fun _ => .inr fun c hc => ?_, hfits⟩
  · rw [← some.inj hc, hrev]
    exact hn.1
  · rw [← some.inj hc, hrev]
  · rw [← some.inj hc]
    exact hstored

end Steps

theorem steps_of_prompt (hok : prompt p (.move i fault) = true) (ht : p.threads[i]? = some t) (hb : p.shared.Bounded)
    (hfits : t.Fits p.shared) (h : advance fault p.shared t = some (s', t')) : Steps p.shared t s' t' := by
  have hplain (t' : Call) (hw : t.writing = true → t'.writing = true) (hfits : t'.Fits p.shared)
      (hholds : ∀ n, t'.Holds n) : Steps p.shared t p.shared t' := .same hb hw hfits fun n _ _ => hholds n
  rw [prompt, ht] at hok
  cases t with
  | cached request =>
    cases h
    cases hcached : p.shared.forceSubCached with
    | none => exact hplain (.get request) id trivial fun _ => trivial
    | some c =>
      obtain ⟨hfits', hholds⟩ := Call.after_spec p.shared request c
      exact .same hb nofun hfits' fun n hn _ => hholds n (hn.2 c hcached)
  | get request =>
    cases h
    cases hget : p.shared.get fault with
    | none => exact hplain .failed id trivial fun _ => trivial
    | some c => exact .same hb id trivial fun n hn _ => hn.1.trans (get_revision hget).ge
  | merge request config =>
    cases h
    -- what is stored is cached, unless the cache is newer
    have hnew (hstored : p.shared.stored.normalize = some config) :=
      Steps.cache (t := .merge request config) hstored (Call.after_spec _ request config).1 (Call.after_spec p.shared request config).2
    cases hcached : p.shared.forceSubCached with
    | none => exact hnew (by simpa [hcached] using hok)
    | some c =>
      dsimp only
      split_ifs with hle
      · exact hnew (by simpa [hcached, not_lt.mpr hle] using hok)
      · rw [← hcached]
        obtain ⟨hfits', hholds⟩ := Call.after_spec p.shared request c
        exact .same hb nofun hfits' fun n hn _ => hholds n (hn.2 c hcached)
  | check expected next =>
    cases h
    split
    · exact hplain .failed id trivial fun _ => trivial
    · split
      · exact hplain .failed id trivial fun _ => trivial
      · split_ifs with hrev hnext
        · exact hplain .invalidate id trivial fun _ => trivial
        · exact hplain .failed id trivial fun _ => trivial
        · cases hnorm : next.normalize with
          | none => exact hplain .failed id trivial fun _ => trivial
          | some next' => exact hplain (.update expected next') id ((normalize_revision hnorm).trans (not_not.mp hnext)) fun _ => trivial
  | update expected next =>
    simp only [advance] at h
    split_ifs at h with hfault hrev
    · cases h
      exact hplain .failed id trivial fun _ => trivial
    · cases h
      have hnext : next.revision = expected + 1 := hfits
      refine ⟨fun n hn => ⟨⟨?_, hn.2⟩, fun _ => trivial⟩, fun c hc => ?_, fun _ => .inl rfl, trivial⟩
      · show n ≤ next.revision
        have hle := hn.1
        omega
      · show c.revision ≤ next.revision
        have hle := hb c hc
        omega
    · cases h
      exact hplain .invalidate id trivial fun _ => trivial
  | readBack =>
    cases h
    obtain ⟨c, hget⟩ := isSome_iff_exists.mp hok
    rw [hget]
    exact hplain (.publish c) id trivial fun _ => trivial
  | publish updated =>
    cases h
    have hstored := of_decide_eq_true hok
    have hrev := normalize_revision hstored
    exact .cache hstored ⟨hrev.le, fun c hc => some.inj hc ▸ le_rfl⟩ fun _ _ => trivial
  | invalidate =>
    cases h
    exact ⟨fun n hn => ⟨⟨hn.1, nofun⟩, id⟩, nofun, fun _ => .inr nofun, trivial⟩
  | failed | read | configured => cases h

/-! ### Runs -/

/-- The threads from `k` on have seen no revision below `n`. -/
structure Kept (k : Nat) (n : Int) (p : Pool Service Call) : Prop where
  bounded : p.shared.Bounded
  fits : ∀ t ∈ p.threads, t.Fits p.shared
  current : (∃ t ∈ p.threads, t.writing = true) ∨ p.shared.Current
  above : p.shared.Above n
  later : ∀ j (t : Call), k ≤ j → p.threads[j]? = some t → t.Holds n

namespace Kept

variable {k : Nat}

theorem call (hp : Kept k n p) (hentry : t.entry = true) : Kept k n ⟨p.shared, p.threads ++ [t]⟩ := by
  have hnew : t.Fits p.shared ∧ t.Holds n := by
    cases t with
    | cached => exact ⟨trivial, trivial⟩
    | _ => cases hentry
  refine ⟨hp.bounded, fun u hu => ?_, hp.current.imp_left fun ⟨u, hu, hw⟩ => ⟨u, mem_append_left _ hu, hw⟩, hp.above, fun j u hj hu => ?_⟩
  · rcases mem_append.mp hu with hu | hu
    · exact hp.fits u hu
    · exact mem_singleton.mp hu ▸ hnew.1
  · rcases getElem?_call_cases hu with hu | rfl
    · exact hp.later j u hj hu
    · exact hnew.2

theorem move (hp : Kept k n p) (ht : p.threads[i]? = some t) (h : Steps p.shared t s' t') : Kept k n ⟨s', p.threads.set i t' ++ []⟩ := by
  have hmem : t' ∈ p.threads.set i t' ++ [] := mem_of_getElem? (getElem?_move_self ht)
  refine ⟨h.bounded, fun u hu => ?_, ?_, (h.above n hp.above).1, fun j u hj hu => ?_⟩
  · obtain ⟨j, hj⟩ := getElem?_of_mem hu
    rcases getElem?_move_cases hj with ⟨-, rfl⟩ | ⟨-, hold⟩ | hnew
    · exact h.fits
    · exact (hp.fits u (mem_of_getElem? hold)).mono fun n hn => (h.above n hn).1
    · cases hnew
  · rcases hp.current with ⟨u, hu, hw⟩ | hcur
    · obtain ⟨j, hj⟩ := getElem?_of_mem hu
      by_cases hij : i = j
      · subst hij
        cases ht.symm.trans hj
        exact (h.current (.inl hw)).imp_left fun hw' => ⟨t', hmem, hw'⟩
      · exact .inl ⟨u, mem_of_getElem? (getElem?_move_of_ne hj hij), hw⟩
    · exact (h.current (.inr hcur)).imp_left fun hw' => ⟨t', hmem, hw'⟩
  · rcases getElem?_move_cases hu with ⟨rfl, rfl⟩ | ⟨-, hold⟩ | hnew
    · exact (h.above n hp.above).2 (hp.later j t hj ht)
    · exact hp.later j u hj hold
    · cases hnew

theorem act {a : Act Call Bool} (hp : Kept k n p) (hok : prompt p a = true) (h : Acts program Call.entry p a p') : Kept k n p' := by
  cases h with
  | call t ha hentry heq => exact heq ▸ hp.call hentry
  | move i fault t t' s' new ha ht hnext heq =>
    obtain ⟨⟨s1, t1⟩, hadvance, hnext⟩ := map_eq_some_iff.mp hnext
    cases hnext
    subst ha
    exact heq ▸ hp.move ht (steps_of_prompt hok ht hp.bounded (hp.fits t (mem_of_getElem? ht)) hadvance)

/-- What the state is above, the calls that begin now are. -/
theorem from_here {m : Int} (hp : Kept k n p) (habove : p.shared.Above m) : Kept p.threads.length m p :=
  { hp with above := habove, later := fun _ _ hj ht => absurd (List.getElem?_eq_some_iff.mp ht).1 (not_lt.mpr hj) }

end Kept

/-- In every run whose steps are prompt the revision in the cache does not decrease, a call that begins when a revision has been returned
returns none before it, and when no call is in progress what is cached is stored. -/
theorem force_sub_cache_coherent {stored : ForceSubConfig} (hp : Run program Call.entry prompt (start stored) p)
    (hq : Run program Call.entry prompt p q) :
    (∀ a q' c c', prompt q a = true → q.act program Call.entry a = some q' → q.shared.forceSubCached = some c →
      q'.shared.forceSubCached = some c' → c.revision ≤ c'.revision) ∧
    (∀ (i j : Nat) r c, p.threads[i]? = some (.configured r) → p.threads.length ≤ j → q.threads[j]? = some (.read c) →
      r.revision ≤ c.revision) ∧
    ((∀ t ∈ q.threads, t.returned = true) → ∀ c, q.shared.forceSubCached = some c → q.shared.stored.normalize = some c) := by
  have hstart : Kept 0 stored.revision (start stored) :=
    ⟨nofun, nofun, .inr nofun, ⟨le_rfl, nofun⟩, fun j t _ ht => by rw [start, getElem?_nil] at ht; cases ht⟩
  have hrun {p q k n} (h : Run program Call.entry prompt p q) (hp : Kept k n p) : Kept k n q :=
    h.invariant (fun _ _ _ hp hok hact => hp.act hok hact) hp
  have hkept := hrun hp hstart
  refine ⟨fun a q' c c' hok hact hc hc' => ?_, fun i j r c hi hj hread => ?_, fun hall => ?_⟩
  · have hq := hrun hq hkept
    have habove : q.shared.Above c.revision := ⟨hq.bounded c hc, fun c' hc' => (some.inj (hc.symm.trans hc')) ▸ le_rfl⟩
    exact ((hq.from_here habove).act hok (acts_of_act hact)).above.2 c' hc'
  · exact (hrun hq (hkept.from_here (hkept.fits _ (mem_of_getElem? hi)))).later j _ hj hread
  · refine (hrun hq hkept).current.resolve_left fun ⟨t, ht, hw⟩ => ?_
    have hreturned := hall t ht
    cases t with
    | readBack | publish => cases hreturned
    | _ => cases hw

/-- The row that the migration inserts, and a request that leaves the gate open. -/
def seeded : ForceSubConfig := ⟨false, [], [], .closed, 1, 1⟩

def disable : Request := ⟨false, [], [], .closed, 0, 2⟩

def moves (i n : Nat) : List (Act Call Bool) := replicate n (.move i false)

theorem force_sub_cache_coherent_alone : ∃ q, Run program Call.entry prompt (start seeded) q ∧
    ∃ c, q.shared.forceSubCached = some c ∧ c.revision = 2 ∧ q.shared.stored.normalize = some c := by
  obtain ⟨q, hrun, hall, hc⟩ : ∃ q, Run program Call.entry prompt (start seeded) q ∧ (∀ t ∈ q.threads, t.returned = true) ∧
      (q.shared.forceSubCached.any (·.revision = 2)) = true :=
    Run.of_check (.call (.cached (some disable)) :: moves 0 7) (by decide +kernel)
  obtain ⟨c, hc, hrev⟩ := (any_eq_true _ _).mp hc
  exact ⟨q, hrun, c, hc, of_decide_eq_true hrev, (force_sub_cache_coherent (.refl _) hrun).2.2 hall c hc⟩

/-- The first call has committed the second revision when another one finds a conflict and clears the cache, and a third one commits and
publishes the third revision. Then the first one publishes. -/
def overtaken : List (Act Call Bool) :=
  .call (.cached (some disable)) :: moves 0 3 ++ .call (.cached (some disable)) :: moves 1 1 ++ moves 0 3 ++ moves 1 2 ++
    .call (.cached (some disable)) :: moves 2 7 ++ moves 0 1 ++ .call (.cached none) :: moves 3 1

theorem cached_policy_goes_back : ∃ q, Run program Call.entry (fun _ _ => true) (start seeded) q ∧
    (∀ t ∈ q.threads, t.returned = true) ∧ q.shared.forceSubCached.map ForceSubConfig.revision = some 2 ∧ q.shared.stored.revision = 3 ∧
    q.threads.map (fun t => match t with
      | .configured c => (true, c.revision)
      | .read c => (false, c.revision)
      | _ => (false, 0)) = [(true, 2), (false, 0), (true, 3), (false, 2)] :=
  Run.of_check overtaken (by decide +kernel)

end Goultroid.PmRelay
