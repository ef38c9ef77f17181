import Goultroid.Lib.FinMap
import Goultroid.Lib.RingLog
import Goultroid.Tasks.Types

/-!
# The ingress window

`dispatcher_ingress_dedupe.go` and `dispatcher_ingress_claim.go`: a map of the messages that have been accepted, and a ring that bounds
it. An accepted message leaves the map when the ring has come round to it or its claim is released, and both take it out only if it is
there with their own expiry, so that no other claim is touched. Expiries strictly decrease along the claims, newest first: an expiry
names its claim, and what the map holds is always a claim among the last `maxEntries` (`Kept`).

Times are `UnixNano` values, which Go keeps in an `int64`. Here they are unbounded: the model is that of the code as long as a time
and the window after it are representable, up to the year 2262.
-/

namespace Goultroid.Ingress

open List AList

inductive PeerKind where
  | user | chat | channel
  deriving DecidableEq

/-- What identifies a message; a peer has a kind and an id. -/
structure Message where
  id : Int
  peerID : Option (PeerKind × Int)

structure MessageKey where
  peerID : Int
  messageID : Int
  peerKind : PeerKind
  deriving DecidableEq

/-- `ingressMessageKeyFrom`: no key for a message without a stable identity. -/
def messageKeyFrom (msg : Option Message) : Option MessageKey :=
  match msg with
  | none => none
  | some msg =>
    if msg.id ≤ 0 then none
    else match msg.peerID with
      | none => none
      | some (kind, id) => if id = 0 then none else some ⟨id, msg.id, kind⟩

structure DedupeEntry where
  key : MessageKey
  expiresAt : Time
  deriving DecidableEq

structure MessageDedupe where
  entries : AList fun _ : MessageKey => Time := ∅
  ring : List DedupeEntry := []
  cursor : Nat := 0

/-- What `newIngressMessageDedupe` fixes. -/
structure Limits where
  ttl : Duration
  maxEntries : Nat
  pos : 0 < maxEntries

def newLimits (ttl : Duration) (maxEntries : Int) : Limits where
  ttl := if ttl ≤ 0 then 5 * 60 * 1000000000 else ttl
  maxEntries := if maxEntries ≤ 0 then 8192 else maxEntries.toNat
  pos := by split <;> omega

structure DedupeClaim extends DedupeEntry where
  active : Bool

namespace MessageDedupe

variable (l : Limits) (d : MessageDedupe)

/-- The key is deleted if it is there with the expiry of the entry. -/
def drop (e : DedupeEntry) : MessageDedupe :=
  if d.entries.lookup e.key = some e.expiresAt then { d with entries := d.entries.erase e.key } else d

/-- The ring takes an entry, and when it is full the entry at the cursor goes. -/
def push (entry : DedupeEntry) : MessageDedupe :=
  if d.ring.length < l.maxEntries then { d with ring := d.ring ++ [entry] }
  else { (d.ring[d.cursor]?).elim d d.drop with
    ring := d.ring.set d.cursor entry
    cursor := if d.cursor + 1 = l.maxEntries then 0 else d.cursor + 1 }

def store (entry : DedupeEntry) : MessageDedupe :=
  { d.push l entry with entries := (d.push l entry).entries.insert entry.key entry.expiresAt }

def accept (msg : Option Message) (now : Time) : MessageDedupe × Bool :=
  match messageKeyFrom msg with
  | none => (d, true)
  | some key =>
    if ∃ currentExpiry ∈ d.entries.lookup key, now < currentExpiry then (d, false)
    else (d.store l ⟨key, now + l.ttl⟩, true)

/-- `Begin`; without a claim there is nothing to release. -/
def begin (msg : Option Message) (now : Time) : MessageDedupe × Option DedupeClaim × Bool :=
  match messageKeyFrom msg with
  | none => (d, none, true)
  | some key =>
    match d.accept l msg now with
    | (d', false) => (d', none, false)
    | (d', true) => (d', some ⟨⟨key, now + l.ttl⟩, true⟩, true)

end MessageDedupe

/-- The window with the claims that `Begin` has returned, newest first. -/
structure Window where
  dedupe : MessageDedupe := {}
  claims : List DedupeClaim := []

namespace Window

variable (s : Window)

def begin (l : Limits) (msg : Option Message) (now : Time) : Window where
  dedupe := (s.dedupe.begin l msg now).1
  claims := (s.dedupe.begin l msg now).2.1.toList ++ s.claims

/-- `Release` of the claim `i`. -/
def release (i : Nat) : Window :=
  match s.claims[i]? with
  | none => s
  | some c =>
    if c.active then ⟨s.dedupe.drop c.toDedupeEntry, s.claims.set i { c with active := false }⟩ else s

def log : List DedupeEntry := s.claims.map DedupeClaim.toDedupeEntry

end Window

/-- The states of a window in which `Begin` may be called at `now`, after every earlier call. -/
inductive Reach (l : Limits) : Window → Time → Prop where
  | new (now : Time) : Reach l {} now
  | begin {s : Window} {t now : Time} (msg : Option Message) (h : Reach l s t) (hlater : t < now) : Reach l (s.begin l msg t) now
  | release {s : Window} {t : Time} (i : Nat) (h : Reach l s t) : Reach l (s.release i) t

variable {l : Limits} {d : MessageDedupe} {s : Window} {e : DedupeEntry} {c : DedupeClaim} {key : MessageKey} {x t now : Time} {i j : Nat}

/-! ### The calls -/

theorem lookup_drop : (d.drop e).entries.lookup key = some x ↔ d.entries.lookup key = some x ∧ ⟨key, x⟩ ≠ e := by
  rw [MessageDedupe.drop]
  split_ifs with hown
  · rw [lookup_erase_eq]
    split_ifs with hkey
    · refine iff_of_false id fun ⟨hx, hne⟩ => hne ?_
      rw [hkey] at hx ⊢
      rw [Option.some.inj (hx.symm.trans hown)]
    · exact (and_iff_left fun heq => hkey (congrArg DedupeEntry.key heq)).symm
  · refine (and_iff_left_of_imp fun hx heq => hown ?_).symm
    rw [← heq]
    exact hx

theorem ring_drop : (d.drop e).ring = d.ring ∧ (d.drop e).cursor = d.cursor := by
  rw [MessageDedupe.drop]
  split <;> exact ⟨rfl, rfl⟩

/-- What the ring lets go of is the entry accepted `maxEntries` before. -/
theorem push_spec {log : List DedupeEntry} {k : MessageKey} (hring : RingLog l.maxEntries d.ring d.cursor log) :
    RingLog l.maxEntries (d.push l e).ring (d.push l e).cursor (e :: log) ∧
      ((d.push l e).entries.lookup k = some x ↔ d.entries.lookup k = some x ∧ log[l.maxEntries - 1]? ≠ some ⟨k, x⟩) := by
  have hlen := hring.length_eq
  have hpos := l.pos
  rw [MessageDedupe.push]
  split
  · next hroom =>
    refine ⟨hring.append hroom, (and_iff_left ?_).symm⟩
    rw [getElem?_eq_none (by omega)]
    exact (Option.some_ne_none _).symm
  · next hfull =>
    obtain ⟨hold, hring'⟩ := hring.overwrite hfull (a := e)
    refine ⟨hring', ?_⟩
    obtain ⟨old, hget⟩ : ∃ old, log[l.maxEntries - 1]? = some old := ⟨_, getElem?_eq_getElem (by omega)⟩
    simp only [hold.trans hget, Option.elim_some, lookup_drop, hget, ne_eq, Option.some.injEq]
    exact and_congr_right fun _ => ne_comm

/-- A message is rejected while its key has not expired, and accepted with a claim otherwise. -/
theorem begin_cases (l : Limits) (d : MessageDedupe) (msg : Option Message) (now : Time) :
    (messageKeyFrom msg = none ∧ d.begin l msg now = (d, none, true)) ∨
    (∃ key x, messageKeyFrom msg = some key ∧ d.entries.lookup key = some x ∧ now < x ∧ d.begin l msg now = (d, none, false)) ∨
    ∃ key, messageKeyFrom msg = some key ∧ (∀ x, d.entries.lookup key = some x → x ≤ now) ∧
      d.begin l msg now = (d.store l ⟨key, now + l.ttl⟩, some ⟨⟨key, now + l.ttl⟩, true⟩, true) := by
  rw [MessageDedupe.begin, MessageDedupe.accept]
  cases hkey : messageKeyFrom msg with
  | none => exact .inl ⟨rfl, rfl⟩
  | some key =>
    right
    dsimp only
    by_cases hlive : ∃ x ∈ d.entries.lookup key, now < x
    · rw [if_pos hlive]
      obtain ⟨x, hx, hlt⟩ := hlive
      exact .inl ⟨key, x, rfl, hx, hlt, rfl⟩
    · rw [if_neg hlive]
      exact .inr ⟨key, rfl, fun x hx => not_lt.mp fun hlt => hlive ⟨x, hx, hlt⟩, rfl⟩

theorem Window.getElem?_log (hi : s.claims[i]? = some c) : s.log[i]? = some c.toDedupeEntry := by
  rw [Window.log, getElem?_map, hi, Option.map_some]

/-! ### The invariant -/

/-- The claims of a window, its ring and its map, when `Begin` may be called at `now`. -/
structure Kept (l : Limits) (s : Window) (now : Time) : Prop where
  ring : RingLog l.maxEntries s.dedupe.ring s.dedupe.cursor s.log
  order : s.log.Pairwise fun e e' => e'.expiresAt < e.expiresAt
  recent : ∀ e ∈ s.log, e.expiresAt < now + l.ttl
  owned : ∀ key x, s.dedupe.entries.lookup key = some x → ∃ i < l.maxEntries, s.claims[i]? = some ⟨⟨key, x⟩, true⟩
  held : ∀ i key x, i < l.maxEntries → s.claims[i]? = some ⟨⟨key, x⟩, true⟩ → now < x → s.dedupe.entries.lookup key = some x

namespace Kept

theorem unique {e' : DedupeEntry} (h : Kept l s now) (hi : s.log[i]? = some e) (hj : s.log[j]? = some e')
    (hexp : e.expiresAt = e'.expiresAt) : i = j := by
  obtain ⟨hleft, rfl⟩ := List.getElem?_eq_some_iff.mp hi
  obtain ⟨hright, rfl⟩ := List.getElem?_eq_some_iff.mp hj
  have hlt := pairwise_iff_getElem.mp h.order
  rcases lt_trichotomy i j with hij | heq | hji
  · exact absurd hexp (hlt i j hleft hright hij).ne'
  · exact heq
  · exact absurd hexp (hlt j i hright hleft hji).ne

theorem later (h : Kept l s t) (hlt : t < now) : Kept l s now :=
  { h with
    recent := fun e he => (h.recent e he).trans (Int.add_lt_add_right hlt l.ttl)
    held := fun i key x hi hget hx => h.held i key x hi hget (hlt.trans hx) }

theorem begin (h : Kept l s t) (msg : Option Message) (hlt : t < now) : Kept l (s.begin l msg t) now := by
  rw [Window.begin]
  rcases begin_cases l s.dedupe msg t with ⟨-, heq⟩ | ⟨_, _, -, -, -, heq⟩ | ⟨key, -, hfree, heq⟩
  iterate 2
    · rw [heq]
      exact h.later hlt
  rw [heq]
  refine ⟨(push_spec h.ring (k := key) (x := t)).1, .cons h.recent h.order, forall_mem_cons.mpr ⟨?_, (h.later hlt).recent⟩,
    fun key' x hx => ?_, fun i key' x hi hget hx => ?_⟩
  · exact Int.add_lt_add_right hlt l.ttl
  · rcases of_lookup_insert hx with ⟨rfl, rfl⟩ | ⟨-, hx⟩
    · exact ⟨0, l.pos, rfl⟩
    · obtain ⟨hx, hne⟩ := (push_spec h.ring).2.mp hx
      obtain ⟨i, hi, hget⟩ := h.owned key' x hx
      refine ⟨i + 1, ?_, hget⟩
      by_contra hle
      refine hne ?_
      rw [show l.maxEntries - 1 = i by omega]
      exact Window.getElem?_log hget
  · cases i with
    | zero =>
      cases hget
      exact lookup_insert _
    | succ i =>
      -- the message of a live claim is not accepted again, and the ring has not come round to it
      have hx' := h.held i key' x (by omega) hget (hlt.trans hx)
      have hne : key' ≠ key := fun heq => absurd (hfree x (heq ▸ hx')) (not_le.mpr (hlt.trans hx))
      refine (lookup_insert_ne hne).trans ((push_spec h.ring).2.mpr ⟨hx', fun hlast => ?_⟩)
      have hlast := h.unique (Window.getElem?_log hget) hlast rfl
      omega

theorem release (h : Kept l s now) (i : Nat) : Kept l (s.release i) now := by
  rw [Window.release]
  split
  · exact h
  next c hc =>
  split
  · have hlog : Window.log ⟨s.dedupe.drop c.toDedupeEntry, s.claims.set i { c with active := false }⟩ = s.log := by
      obtain ⟨hlt, hget⟩ := List.getElem?_eq_some_iff.mp (Window.getElem?_log hc)
      rw [Window.log, map_set]
      exact hget ▸ set_getElem_self hlt
    obtain ⟨hring, hcursor⟩ := ring_drop (d := s.dedupe) (e := c.toDedupeEntry)
    refine ⟨?_, hlog ▸ h.order, hlog ▸ h.recent, fun key x hx => ?_, fun j key x hj hget hx => ?_⟩
    · rw [hlog, hring, hcursor]
      exact h.ring
    · obtain ⟨hx, hne⟩ := lookup_drop.mp hx
      obtain ⟨j, hj, hget⟩ := h.owned key x hx
      refine ⟨j, hj, (getElem?_set_ne ?_).trans hget⟩
      rintro rfl
      exact hne (congrArg DedupeClaim.toDedupeEntry (Option.some.inj (hget.symm.trans hc)))
    · have hne : i ≠ j := by
        rintro rfl
        rw [getElem?_set_self (List.getElem?_eq_some_iff.mp hc).1] at hget
        exact Bool.false_ne_true (congrArg DedupeClaim.active (Option.some.inj hget))
      rw [getElem?_set_ne hne] at hget
      refine lookup_drop.mpr ⟨h.held j key x hj hget hx, fun heq => hne ?_⟩
      exact h.unique (Window.getElem?_log hc) (Window.getElem?_log hget) (congrArg DedupeEntry.expiresAt heq).symm
  · exact h

theorem of_reach (h : Reach l s now) : Kept l s now := by
  induction h with
  | new now =>
    exact ⟨.nil l.pos, .nil, fun e he => absurd he not_mem_nil, fun key x hx => absurd hx (Option.some_ne_none x).symm,
      fun i key x _ hi => absurd hi (Option.some_ne_none _).symm⟩
  | begin msg h hlater ih => exact ih.begin msg hlater
  | release i h ih => exact ih.release i

/-- Every key of the map is one of the last that were accepted. -/
theorem length_keys (h : Kept l s now) : s.dedupe.entries.keys.length ≤ l.maxEntries := by
  have hsub : s.dedupe.entries.keys ⊆ (s.log.take l.maxEntries).map DedupeEntry.key := by
    intro key hkey
    obtain ⟨x, hx⟩ := mem_keys_iff_lookup.mp hkey
    obtain ⟨i, hi, hget⟩ := h.owned key x hx
    refine mem_map.mpr ⟨⟨key, x⟩, mem_iff_getElem?.mpr ⟨i, ?_⟩, rfl⟩
    rw [getElem?_take_of_lt hi]
    exact Window.getElem?_log hget
  have hle := (subperm_of_subset (keys_nodup _) hsub).length_le
  rw [length_map, length_take] at hle
  exact hle.trans (Nat.min_le_left _ _)

end Kept

def direct (id : Int) : Option Message := some ⟨id, some (.user, 7)⟩

/-- A window of two: the third message displaces the first one, and its claim is released. -/
def displaced : Window :=
  (((Window.begin {} (newLimits 10 2) (direct 1) 5).begin (newLimits 10 2) (direct 2) 6).begin (newLimits 10 2) (direct 3) 7).release 0

end Goultroid.Ingress
