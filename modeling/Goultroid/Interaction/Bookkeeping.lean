import Goultroid.Interaction.Runtime
import Goultroid.Lib.Index
import Goultroid.Lib.Machine
import Mathlib.Data.Multiset.UnionInter

/-!
# The indexes of the interaction runtime

`sessions` is kept beside four indexes, a heap and a byte count. `Kept r out` says that all of them are right,
when the expiry items `out` have been taken out of the heap and their sessions are still there; between two
sections nothing is out. Every section is made of a few edits: an entry is added, forgotten or rewritten, or an
expiry item goes out of the heap or back into it.

Each index is right for what it sees of an entry (`SessionEntry.scopeClass`, `SessionEntry.claimKey`,
`actorWeight`, `stateWeight`), so an edit is checked index by index, at one key, by the rules of `Index` and of
totals. The expiry items are what is shared: an item belongs to the one session that refers to it, and it is in
the heap at the position that it carries, or among `out`.
-/

namespace Goultroid.Interaction

open List Multiset Option Heap
open Index (Partitions Inverse Counts)
open Heap (bag)

variable {actorID : Int} {id id' : GoString} {e e' : SessionEntry} {key : InputBindingKey} {out : Multiset Nat} {t : Nat} {r' : Runtime}
  {item : ExpiryItem} {claim : InputClaim} {env : Env}

/-! ### What the indexes see of an entry -/

def SessionEntry.scopeClass (e : SessionEntry) : Option ScopeIdentity := some e.session.scope

def SessionEntry.claimKey (e : SessionEntry) : Option InputBindingKey := e.input.map (·.key)

/-- Counts the sessions of an actor; the zero actor stands for none. -/
def actorWeight (actorID : Int) (_ : GoString) (e : SessionEntry) : Int :=
  if actorID ≠ 0 ∧ e.session.binding.actorID = actorID then 1 else 0

def stateWeight (_ : GoString) (e : SessionEntry) : Int := e.session.state.length

def pointerWeight (_ : GoString) (e : SessionEntry) : Multiset (Option Nat) := {e.expiry}

theorem actorWeight_nonneg (actorID : Int) (id : GoString) (e : SessionEntry) : 0 ≤ actorWeight actorID id e := by
  rw [actorWeight]
  split_ifs <;> omega

theorem actorWeight_of_ne (h : actorID = 0 ∨ actorID ≠ e.session.binding.actorID) : actorWeight actorID id e = 0 := by
  refine if_neg fun hw => ?_
  rcases h with h | h
  · exact hw.1 h
  · exact h hw.2.symm

theorem actorWeight_self (id : GoString) (h : e.session.binding.actorID ≠ 0) :
    actorWeight e.session.binding.actorID id e = 1 := if_pos ⟨h, rfl⟩

theorem actorWeight_of_zero (h : e.session.binding.actorID = 0) : actorWeight actorID id e = 0 := by
  by_cases hzero : actorID = 0
  · exact actorWeight_of_ne (.inl hzero)
  · exact actorWeight_of_ne (.inr fun heq => hzero (heq.trans h))

structure Kept (r : Runtime) (out : Multiset Nat) : Prop where
  named : ∀ id e, r.sessions.lookup id = some e → e.session.id = id
  scopes : Partitions (r.sessions.view SessionEntry.scopeClass) r.byScope
  actors : Counts (fun actorID => r.sessions.total (actorWeight actorID)) r.actorCounts
  bytes : r.stateBytes = r.sessions.total stateWeight
  placed : r.expiries.Placed
  away : ∀ t ∈ out, r.expiries.index t < 0
  pointers : r.sessions.total pointerWeight = (bag r.expiries.items + out).map some
  timed : ∀ id e t, r.sessions.lookup id = some e → e.expiry = some t → r.items[t]? = some ⟨id, e.session.expiresAt⟩
  inputs : Inverse (r.sessions.view SessionEntry.claimKey) r.inputs
  few : r.sessions.entries.length ≤ r.config.maxSessions
  fewInScope : ∀ scope, (r.byScope.getD scope ∅).card ≤ r.config.maxSessionsPerScope
  fewOfActor : ∀ actorID, r.sessions.total (actorWeight actorID) ≤ r.config.maxSessionsPerActor
  small : r.stateBytes ≤ r.config.maxTotalStateBytes

variable {r : Runtime}

namespace Kept

theorem withDurable (h : Kept r out) (d : Option Store) : Kept { r with durable := d } out :=
  { h with }

theorem mem_bag {α : Type} {t : α} {a : Array α} : t ∈ bag a ↔ t ∈ a := by
  rw [bag, mem_coe, Array.mem_toList_iff]

section

variable (h : Kept r out)
include h

theorem exists_expiry (hid : r.sessions.lookup id = some e) : ∃ t, e.expiry = some t ∧ t ∈ bag r.expiries.items + out := by
  have hmem : e.expiry ∈ r.sessions.total pointerWeight :=
    AList.mem_total.mpr ⟨id, e, hid, Multiset.mem_singleton_self _⟩
  rw [h.pointers] at hmem
  obtain ⟨t, hin, ht⟩ := mem_map.mp hmem
  exact ⟨t, ht.symm, hin⟩

theorem owner (ht : t ∈ bag r.expiries.items + out) : ∃ id e, r.sessions.lookup id = some e ∧ e.expiry = some t := by
  have hmem : some t ∈ r.sessions.total pointerWeight := by
    rw [h.pointers]
    exact mem_map_of_mem some ht
  obtain ⟨id, e, hid, hin⟩ := AList.mem_total.mp hmem
  exact ⟨id, e, hid, (Multiset.mem_singleton.mp hin).symm⟩

theorem lt_length (ht : t ∈ bag r.expiries.items + out) : t < r.items.length := by
  obtain ⟨id, e, hid, hexp⟩ := h.owner ht
  exact (List.getElem?_eq_some_iff.mp (h.timed id e t hid hexp)).1

theorem eq_of_expiry (hid : r.sessions.lookup id = some e)
    (hid' : r.sessions.lookup id' = some e') (ht : e.expiry = some t) (ht' : e'.expiry = some t) : id = id' := by
  have hitem := (h.timed id e t hid ht).symm.trans (h.timed id' e' t hid' ht')
  exact congrArg ExpiryItem.id (some.inj hitem)

theorem nodup : (bag r.expiries.items + out).Nodup := by
  rw [Multiset.nodup_iff_count_le_one]
  intro t
  by_contra hmany
  have hin : t ∈ bag r.expiries.items + out := count_pos.mp (by omega)
  obtain ⟨id, e, hid, hexp⟩ := h.owner hin
  -- the pointers of the other sessions
  have hrest : (r.sessions.erase id).total pointerWeight = (bag r.expiries.items + out).map some - {some t} := by
    rw [← h.pointers, AList.total_eq_add_erase pointerWeight hid, pointerWeight, hexp, add_tsub_cancel_left]
  have hagain : some t ∈ (r.sessions.erase id).total pointerWeight := by
    rw [hrest, ← Multiset.count_pos, Multiset.count_sub, Multiset.count_singleton_self,
      count_map_eq_count' some _ (some_injective _)]
    omega
  obtain ⟨id', e', hid', hin'⟩ := AList.mem_total.mp hagain
  obtain ⟨hne, hid'⟩ := AList.of_lookup_erase hid'
  exact hne (h.eq_of_expiry hid hid' hexp (Multiset.mem_singleton.mp hin').symm).symm

theorem not_mem_heap (ht : t ∈ out) : t ∉ r.expiries.items := by
  intro hin
  exact disjoint_left.mp (nodup_add.mp h.nodup).2.2 (mem_bag.mpr hin) ht

theorem index_nonneg (ht : t ∈ r.expiries.items) : 0 ≤ r.expiries.index t := by
  obtain ⟨i, hi⟩ := Array.getElem?_of_mem ht
  rw [h.placed i t hi]
  omega

theorem getElem?_index (ht : t ∈ r.expiries.items) : r.expiries.items[(r.expiries.index t).toNat]? = some t :=
  Indexed.getElem?_of_holds (h.placed.holds_iff.mpr ht)

end

/-! ### Rewriting an entry -/

theorem replace (h : Kept r out) (e' : SessionEntry) (hid : r.sessions.lookup id = some e) (hconfig : r'.config = r.config)
    (hsessions : r'.sessions = r.sessions.insert id e') (hscopes : r'.byScope = r.byScope)
    (hact : r'.actorCounts = r.actorCounts) (hname : e'.session.id = e.session.id) (hscope : e'.session.scope = e.session.scope)
    (hactor : e'.session.binding.actorID = e.session.binding.actorID)
    (hbytes : r'.stateBytes = r.stateBytes - e.session.state.length + e'.session.state.length)
    (hsmall : r'.stateBytes ≤ r.config.maxTotalStateBytes) (hexp : e'.expiry = e.expiry)
    (hplaced : r'.expiries.Placed) (haway : ∀ t ∈ out, r'.expiries.index t < 0) (hbag : bag r'.expiries.items = bag r.expiries.items)
    (hitem : ∀ t, e.expiry = some t → r'.items[t]? = some ⟨id, e'.session.expiresAt⟩)
    (hitems : ∀ t, e.expiry ≠ some t → r'.items[t]? = r.items[t]?)
    (hinputs : Inverse (Function.update (r.sessions.view SessionEntry.claimKey) id e'.claimKey) r'.inputs) : Kept r' out := by
  have hcount : ∀ actorID, r'.sessions.total (actorWeight actorID) = r.sessions.total (actorWeight actorID) := by
    intro actorID
    rw [hsessions, AList.total_insert_of_lookup hid, actorWeight, actorWeight, hactor]
    omega
  constructor
  case named =>
    intro id' e'' hlook
    rw [hsessions, AList.lookup_insert_eq] at hlook
    split_ifs at hlook with heq
    · rw [← some.inj hlook, hname, heq]
      exact h.named id e hid
    · exact h.named id' e'' hlook
  case scopes =>
    have hclass : e'.scopeClass = e.scopeClass := congrArg some hscope
    rw [hsessions, hscopes, AList.view_insert_of_eq _ hid hclass]
    exact h.scopes
  case actors =>
    rw [hact, funext hcount]
    exact h.actors
  case bytes =>
    rw [hbytes, hsessions, AList.total_insert_of_lookup hid, h.bytes]
    rfl
  case placed => exact hplaced
  case away => exact haway
  case pointers =>
    rw [hsessions, hbag, ← h.pointers, AList.total_insert, AList.total_eq_add_erase _ hid, pointerWeight, pointerWeight, hexp]
  case timed =>
    intro id' e'' t hlook ht
    rw [hsessions] at hlook
    rcases AList.of_lookup_insert hlook with ⟨heq, rfl⟩ | ⟨heq, hlook⟩
    · rw [heq]
      exact hitem t (hexp ▸ ht)
    · rw [hitems t fun ht' => heq (h.eq_of_expiry hlook hid ht ht')]
      exact h.timed id' e'' t hlook ht
  case inputs =>
    rw [hsessions, AList.view_insert]
    exact hinputs
  case few =>
    have hlen : (r'.sessions.entries.length : ℤ) = r.sessions.entries.length := by
      rw [← AList.total_one, ← AList.total_one, hsessions, AList.total_insert_of_lookup hid]
      omega
    rw [hconfig, hlen]
    exact h.few
  case fewInScope =>
    rw [hscopes, hconfig]
    exact h.fewInScope
  case fewOfActor =>
    intro actorID
    rw [hcount, hconfig]
    exact h.fewOfActor actorID
  case small =>
    rw [hconfig]
    exact hsmall

theorem rewrite {total : Int} (h : Kept r out) (e' : SessionEntry) (hid : r.sessions.lookup id = some e)
    {inputs : AList fun _ : InputBindingKey => GoString} (hname : e'.session.id = e.session.id)
    (hscope : e'.session.scope = e.session.scope)
    (hactor : e'.session.binding.actorID = e.session.binding.actorID)
    (hbytes : total = r.stateBytes - e.session.state.length + e'.session.state.length)
    (hsmall : total ≤ r.config.maxTotalStateBytes) (hexp : e'.expiry = e.expiry)
    (htime : e'.session.expiresAt = e.session.expiresAt)
    (hinputs : Inverse (Function.update (r.sessions.view SessionEntry.claimKey) id e'.claimKey) inputs) :
    Kept { r with sessions := r.sessions.insert id e', stateBytes := total, inputs := inputs } out :=
  h.replace e' hid rfl rfl rfl rfl hname hscope hactor hbytes hsmall hexp h.placed h.away rfl
    (fun t ht => htime ▸ h.timed id e t hid ht) (fun _ _ => rfl) hinputs

theorem getElem?_modify_self {f : ExpiryItem → ExpiryItem} {items : List ExpiryItem}
    (ht : items[t]? = some item) : (items.modify t f)[t]? = some (f item) := by
  rw [getElem?_modify, ht]
  simp

theorem reschedule (h : Kept r out) (e' : SessionEntry) (expiresAt : Time) (hid : r.sessions.lookup id = some e)
    (hname : e'.session = { e.session with expiresAt := expiresAt }) (hexp : e'.expiry = e.expiry)
    (hclaim : e'.input = e.input) :
    Kept (({ r with sessions := r.sessions.insert id e' } : Runtime).scheduleExpiryLocked id expiresAt) out := by
  obtain ⟨t, ht, hin⟩ := h.exists_expiry hid
  have hinputs : Inverse (Function.update (r.sessions.view SessionEntry.claimKey) id e'.claimKey) r.inputs := by
    rw [SessionEntry.claimKey, hclaim, ← SessionEntry.claimKey, ← AList.view_of_lookup SessionEntry.claimKey hid,
      Function.update_eq_self]
    exact h.inputs
  simp only [Runtime.scheduleExpiryLocked, AList.lookup_insert, hexp, ht]
  refine h.replace e' hid rfl rfl rfl rfl ?_ ?_ ?_ ?_ h.small hexp ?_ ?_ ?_ ?_ ?_ hinputs
  · rw [hname]
  · rw [hname]
  · rw [hname]
  · rw [hname]
    show r.stateBytes = r.stateBytes - e.session.state.length + e.session.state.length
    omega
  · split_ifs
    · exact (Indexed.fix_sifted ..).placed h.placed
    · exact h.placed
  · intro t' ht'
    split_ifs
    · rw [(Indexed.fix_sifted ..).index t' (h.not_mem_heap ht')]
      exact h.away t' ht'
    · exact h.away t' ht'
  · dsimp only
    split_ifs
    · exact bag_of_perm (Indexed.fix_sifted ..).perm
    · rfl
  · intro t' ht'
    obtain rfl := mem_unique ht ht'
    rw [getElem?_modify_self (h.timed id e t hid ht), hname]
  · intro t' ht'
    have hne : t ≠ t' := fun heq => ht' (heq ▸ ht)
    simp [hne]

/-! ### Items leave the heap and come back -/

theorem pop (h : Kept r out) (ht : r.expiries.items[0]? = some t) :
    Kept { r with expiries := (r.expiries.pop (expiryLess r.items)).2 } (t ::ₘ out) := by
  obtain ⟨-, hplaced, hbag, hself, hindex⟩ := Indexed.pop_spec (expiryLess r.items) h.placed ht
  have haway : ∀ t' ∈ t ::ₘ out, (r.expiries.pop (expiryLess r.items)).2.index t' < 0 := by
    intro t' ht'
    rcases mem_cons.mp ht' with rfl | hin
    · omega
    · rw [hindex t' (h.not_mem_heap hin)]
      exact h.away t' hin
  have hpointers := h.pointers
  rw [hbag, cons_add, ← add_cons] at hpointers
  exact { h with placed := hplaced, away := haway, pointers := hpointers }

theorem push (h : Kept r (t ::ₘ out)) : Kept { r with expiries := r.expiries.push (expiryLess r.items) t } out := by
  have hnodup := (nodup_add.mp h.nodup).2.1
  obtain ⟨hplaced, hbag, hindex⟩ := Indexed.push_spec (expiryLess r.items) h.placed
    (h.not_mem_heap (mem_cons_self t out))
  have haway : ∀ t' ∈ out, (r.expiries.push (expiryLess r.items) t).index t' < 0 := by
    intro t' ht'
    have hne : t' ≠ t := fun heq => (nodup_cons.mp hnodup).1 (heq ▸ ht')
    have hin := mem_cons_of_mem (b := t) ht'
    rw [hindex t' (h.not_mem_heap hin) hne]
    exact h.away t' hin
  have hpointers := h.pointers
  rw [add_cons, ← cons_add, ← hbag] at hpointers
  exact { h with placed := hplaced, away := haway, pointers := hpointers }

end Kept

/-! ### Claims -/

theorem clearInputLocked_frame (r : Runtime) (id : GoString) :
    ∃ sessions inputs, r.clearInputLocked id = { r with sessions := sessions, inputs := inputs } := by
  unfold Runtime.clearInputLocked
  split
  · exact ⟨r.sessions, r.inputs, rfl⟩
  · split
    · exact ⟨r.sessions, r.inputs, rfl⟩
    · exact ⟨_, _, rfl⟩

/-- A later write at the same key does not see the cleared entry. -/
theorem clearInputLocked_insert (hid : r.sessions.lookup id = some e) (e' : SessionEntry) :
    (r.clearInputLocked id).sessions.insert id e' = r.sessions.insert id e' := by
  rw [Runtime.clearInputLocked, hid]
  dsimp only
  split
  · rfl
  · exact AList.insert_insert _

theorem clearInputLocked_erase (hid : r.sessions.lookup id = some e) : (r.clearInputLocked id).sessions.erase id = r.sessions.erase id := by
  rw [Runtime.clearInputLocked, hid]
  dsimp only
  split
  · rfl
  · exact AList.erase_insert_self _ _ _

namespace Kept

theorem view_claim (hid : r.sessions.lookup id = some e) (hclaim : e.input = some claim) :
    r.sessions.view SessionEntry.claimKey id = some claim.key := by
  rw [AList.view_of_lookup _ hid, SessionEntry.claimKey, hclaim]
  rfl

theorem inputs_lookup (h : Kept r out) (hid : r.sessions.lookup id = some e)
    (hclaim : e.input = some claim) : r.inputs.lookup claim.key = some id :=
  (h.inputs _ _).mpr (view_claim hid hclaim)

theorem clear_inputs (h : Kept r out) (hid : r.sessions.lookup id = some e) :
    Inverse (Function.update (r.sessions.view SessionEntry.claimKey) id none) (r.clearInputLocked id).inputs := by
  rw [Runtime.clearInputLocked, hid]
  dsimp only
  split
  · next hnone =>
    have hself : r.sessions.view SessionEntry.claimKey id = none := by
      rw [AList.view_of_lookup _ hid, SessionEntry.claimKey, hnone]
      rfl
    rw [← hself, Function.update_eq_self]
    exact h.inputs
  · next _ hclaim =>
    rw [if_pos (by rw [h.named id e hid]; exact h.inputs_lookup hid hclaim)]
    exact h.inputs.drop (view_claim hid hclaim)

theorem clear_free (h : Kept r out) (hid : r.sessions.lookup id = some e)
    (hkey : r.inputs.lookup key = none ∨ r.inputs.lookup key = some id) : (r.clearInputLocked id).inputs.lookup key = none := by
  rw [eq_none_iff_forall_ne_some]
  intro k hk
  have hview := (h.clear_inputs hid key k).mp hk
  rw [Function.update_apply] at hview
  split_ifs at hview with heq
  have hold := (h.inputs key k).mpr hview
  rcases hkey with hkey | hkey
  · rw [hkey] at hold
    cases hold
  · rw [hkey] at hold
    exact heq (some.inj hold).symm

theorem clear (h : Kept r out) (id : GoString) : Kept (r.clearInputLocked id) out := by
  cases hid : r.sessions.lookup id with
  | none =>
    rw [Runtime.clearInputLocked, hid]
    exact h
  | some e =>
    have hinputs := h.clear_inputs hid
    rw [Runtime.clearInputLocked, hid] at hinputs ⊢
    dsimp only at hinputs ⊢
    split at hinputs
    · exact h
    · refine h.rewrite { e with input := none } hid rfl rfl rfl ?_ h.small rfl rfl hinputs
      show r.stateBytes = r.stateBytes - e.session.state.length + e.session.state.length
      omega

end Kept

/-! ### Removal -/

namespace Kept

theorem release {heap : Indexed Nat} (h : Kept r out) (ht : t ∈ bag r.expiries.items + out)
    (hheap : heap = if 0 ≤ r.expiries.index t then (r.expiries.remove (expiryLess r.items) (r.expiries.index t).toNat).2 else r.expiries) :
    heap.Placed ∧ bag r.expiries.items + out = t ::ₘ (bag heap.items + out.erase t) ∧ ∀ t' ∈ out.erase t, heap.index t' < 0 := by
  by_cases hout : t ∈ out
  · have hneg := h.away t hout
    rw [if_neg (by omega)] at hheap
    subst hheap
    refine ⟨h.placed, ?_, fun t' ht' => h.away t' (mem_of_mem_erase ht')⟩
    rw [← add_cons, cons_erase hout]
  · have hin : t ∈ r.expiries.items := mem_bag.mp ((mem_add.mp ht).resolve_right hout)
    rw [if_pos (h.index_nonneg hin)] at hheap
    subst hheap
    obtain ⟨hplaced, hbag, hindex⟩ := Indexed.remove_spec (expiryLess r.items) h.placed (h.getElem?_index hin)
    rw [erase_of_notMem hout]
    refine ⟨hplaced, by rw [hbag, cons_add], fun t' ht' => ?_⟩
    rw [hindex t' (h.not_mem_heap ht')]
    exact h.away t' ht'

theorem actors_forget (h : Kept r out) (hid : r.sessions.lookup id = some e) :
    Counts (fun actorID => (r.sessions.erase id).total (actorWeight actorID)) (if e.session.binding.actorID ≠ 0 then
        if r.actorCounts.getD e.session.binding.actorID 0 ≤ 1 then r.actorCounts.erase e.session.binding.actorID
        else r.actorCounts.insert e.session.binding.actorID (r.actorCounts.getD e.session.binding.actorID 0 - 1) else r.actorCounts) := by
  simp only [AList.total_erase_of_lookup hid]
  by_cases hactor : e.session.binding.actorID ≠ 0
  · have hself := actorWeight_self id hactor
    have hpos : 0 < r.sessions.total (actorWeight e.session.binding.actorID) := by
      have hle := AList.le_total (fun k v _ => actorWeight_nonneg e.session.binding.actorID k v) hid
      omega
    have hdecrease := h.actors.decr hpos
    rw [if_pos hactor]
    convert hdecrease using 1
    funext actorID
    rw [Function.update_apply]
    split_ifs with heq
    · rw [heq, hself]
    · rw [actorWeight_of_ne (.inr heq), sub_zero]
  · rw [if_neg hactor]
    convert h.actors using 1
    funext actorID
    rw [actorWeight_of_zero (not_not.mp hactor), sub_zero]

theorem forget (h : Kept r out) (hid : r.sessions.lookup id = some e) (ht : e.expiry = some t) : Kept (r.forget id e) (out.erase t) := by
  obtain ⟨t', ht', hin⟩ := h.exists_expiry hid
  obtain rfl := mem_unique ht ht'
  have hinputs := h.clear_inputs hid
  have herase := clearInputLocked_erase hid
  obtain ⟨sessions, inputs, hclear⟩ := clearInputLocked_frame r id
  rw [hclear] at hinputs herase
  obtain ⟨hplaced, hbag, haway⟩ := h.release hin rfl
  have hlookup : ∀ id' e', (r.sessions.erase id).lookup id' = some e' → r.sessions.lookup id' = some e' := by
    intro id' e' hlook
    obtain ⟨-, hlook⟩ := AList.of_lookup_erase hlook
    exact hlook
  have hpointers := h.pointers
  rw [hbag, AList.total_eq_add_erase _ hid, pointerWeight, ht, Multiset.map_cons, Multiset.singleton_add] at hpointers
  have hlen : ((r.sessions.erase id).entries.length : ℤ) = r.sessions.entries.length - 1 := by
    rw [← AList.total_one, ← AList.total_one, AList.total_erase_of_lookup hid]
  rw [Runtime.forget, hclear]
  simp only [ht, herase]
  constructor <;> dsimp only
  case named => exact fun id' e' hlook => h.named id' e' (hlookup id' e' hlook)
  case scopes =>
    rw [AList.view_erase]
    exact h.scopes.drop (AList.view_of_lookup SessionEntry.scopeClass hid)
  case actors => exact h.actors_forget hid
  case bytes =>
    rw [AList.total_erase_of_lookup hid, h.bytes]
    rfl
  case placed => exact hplaced
  case away => exact haway
  case pointers => exact (Multiset.cons_inj_right (some t)).mp hpointers
  case timed => exact fun id' e' t' hlook => h.timed id' e' t' (hlookup id' e' hlook)
  case inputs =>
    rw [AList.view_erase]
    exact hinputs
  case few =>
    have hfew := h.few
    omega
  case fewInScope =>
    intro scope
    have hfew := h.fewInScope scope
    have hle := Index.card_drop_le r.byScope id e.session.scope scope
    omega
  case fewOfActor =>
    intro actorID
    have hfew := h.fewOfActor actorID
    have hweight := actorWeight_nonneg actorID id e
    rw [AList.total_erase_of_lookup hid]
    omega
  case small =>
    have hsmall := h.small
    omega

end Kept

theorem removeLocked_cases :
    (r.sessions.lookup id = none ∧ r.removeLocked env id = (r, .absent)) ∨
      ∃ e, r.sessions.lookup id = some e ∧
        ((r.mustDelete e = true ∧ env.deleteRefused id = true ∧ r.removeLocked env id = (r, .refused)) ∨
          (r.mustDelete e = true ∧ env.deleteRefused id = false ∧ r.removeLocked env id =
            (({ r with durable := r.durable.map fun store => store.erase id } : Runtime).forget id e, .removed)) ∨
          (r.mustDelete e = false ∧ r.removeLocked env id = (r.forget id e, .removed))) := by
  rw [Runtime.removeLocked]
  cases hid : r.sessions.lookup id with
  | none => exact .inl ⟨rfl, rfl⟩
  | some e =>
    refine .inr ⟨e, rfl, ?_⟩
    cases hdelete : r.mustDelete e with
    | false => exact .inr (.inr ⟨rfl, by simp [hdelete]⟩)
    | true =>
      cases href : env.deleteRefused id with
      | true => exact .inl ⟨rfl, rfl, by simp [hdelete]⟩
      | false => exact .inr (.inl ⟨rfl, rfl, by simp [hdelete]⟩)

/-! ### In passing -/

/-- Sessions go, and claims that have expired. -/
structure Passes (env : Env) (r r' : Runtime) : Prop where
  items : r'.items = r.items
  lookup : ∀ id e', r'.sessions.lookup id = some e' → ∃ e, r.sessions.lookup id = some e ∧
    (e' = e ∨ ∃ claim, e.input = some claim ∧ claim.expiresAt ≤ env.now ∧ e' = { e with input := none })

namespace Passes

theorem refl (env : Env) (r : Runtime) : Passes env r r := ⟨rfl, fun _ e hid => ⟨e, hid, .inl rfl⟩⟩

theorem of_sessions (hitems : r'.items = r.items) (hsessions : r'.sessions = r.sessions) : Passes env r r' :=
  ⟨hitems, fun _ e hid => ⟨e, hsessions ▸ hid, .inl rfl⟩⟩

theorem trans {r'' : Runtime} (h : Passes env r r') (h' : Passes env r' r'') : Passes env r r'' := by
  refine ⟨h'.items.trans h.items, fun id e'' hid => ?_⟩
  obtain ⟨e', hid', heq'⟩ := h'.lookup id e'' hid
  obtain ⟨e, hid, heq⟩ := h.lookup id e' hid'
  refine ⟨e, hid, ?_⟩
  rcases heq with rfl | ⟨claim, hclaim, hlapsed, rfl⟩
  · exact heq'
  · rcases heq' with rfl | ⟨claim', hclaim', -, -⟩
    · exact .inr ⟨claim, hclaim, hlapsed, rfl⟩
    · cases hclaim'

end Passes

theorem lookup_clearInputLocked : (r.clearInputLocked id).sessions.lookup id' =
    (r.sessions.lookup id').map fun e => if id' = id then { e with input := none } else e := by
  rw [Runtime.clearInputLocked]
  cases hid : r.sessions.lookup id with
  | none =>
    by_cases heq : id' = id
    · rw [heq, hid]
      rfl
    · simp [heq]
  | some =>
    dsimp only
    split
    · next hnone =>
      by_cases heq : id' = id
      · rw [heq, hid, map_some, if_pos rfl, ← hnone]
      · simp [heq]
    · rw [AList.lookup_insert_eq]
      by_cases heq : id' = id
      · rw [if_pos heq, heq, hid, map_some, if_pos rfl]
      · simp [heq]

theorem forget_passes : Passes env r (r.forget id e) := by
  obtain ⟨sessions, _, hclear⟩ := clearInputLocked_frame r id
  refine ⟨by rw [Runtime.forget, hclear], fun id' e' hid' => ?_⟩
  have hlook : ((r.clearInputLocked id).sessions.erase id).lookup id' = some e' := hid'
  obtain ⟨heq, hlook⟩ := AList.of_lookup_erase hlook
  rw [lookup_clearInputLocked] at hlook
  obtain ⟨e1, he1, rfl⟩ := map_eq_some_iff.mp hlook
  exact ⟨e1, he1, .inl (if_neg heq)⟩

theorem removeLocked_passes (env : Env) (r : Runtime) (id : GoString) : Passes env r (r.removeLocked env id).1 := by
  rcases removeLocked_cases with ⟨-, heq⟩ | ⟨e, -, ⟨-, -, heq⟩ | ⟨-, -, heq⟩ | ⟨-, heq⟩⟩
  · rw [heq]
    exact .refl env r
  · rw [heq]
    exact .refl env r
  · rw [heq]
    have hgone : Passes env r { r with durable := r.durable.map fun store => store.erase id } := .of_sessions rfl rfl
    exact hgone.trans forget_passes
  · rw [heq]
    exact forget_passes

theorem clear_passes (hid : r.sessions.lookup id = some e) (hclaim : e.input = some claim)
    (hlapsed : claim.expiresAt ≤ env.now) : Passes env r (r.clearInputLocked id) := by
  obtain ⟨sessions, _, hclear⟩ := clearInputLocked_frame r id
  refine ⟨by rw [hclear], fun id' e' hid' => ?_⟩
  rw [lookup_clearInputLocked] at hid'
  obtain ⟨e1, he1, rfl⟩ := map_eq_some_iff.mp hid'
  by_cases heq : id' = id
  · subst heq
    obtain rfl := mem_unique hid he1
    exact ⟨e, hid, .inr ⟨claim, hclaim, hlapsed, if_pos rfl⟩⟩
  · exact ⟨e1, he1, .inl (if_neg heq)⟩

namespace Kept

theorem removeLocked_item (h : Kept r out) (hid : r.sessions.lookup id = some e) (ht : e.expiry = some t) :
    (r.removeLocked env id = (r, .refused)) ∨ ((r.removeLocked env id).2 = .removed ∧ Kept (r.removeLocked env id).1 (out.erase t)) := by
  rcases removeLocked_cases with ⟨hnone, -⟩ | ⟨e', hid', hcase⟩
  · rw [hid] at hnone
    cases hnone
  · obtain rfl := mem_unique hid hid'
    rcases hcase with ⟨-, -, heq⟩ | ⟨-, -, heq⟩ | ⟨-, heq⟩
    · exact .inl heq
    · rw [heq]
      exact .inr ⟨rfl, (h.withDurable _).forget hid ht⟩
    · rw [heq]
      exact .inr ⟨rfl, h.forget hid ht⟩

theorem removeLocked (h : Kept r 0) (env : Env) (id : GoString) : Kept (r.removeLocked env id).1 0 := by
  cases hid : r.sessions.lookup id with
  | none =>
    rw [Runtime.removeLocked, hid]
    exact h
  | some =>
    obtain ⟨t, ht, -⟩ := h.exists_expiry hid
    rcases h.removeLocked_item hid ht with heq | ⟨-, hkept⟩
    · rw [heq]
      exact h
    · rwa [erase_of_notMem (notMem_zero t)] at hkept

/-! ### Pruning -/

theorem item_session (h : Kept r out) (ht : t ∈ bag r.expiries.items + out)
    (hitem : r.items[t]? = some item) : ∃ e, r.sessions.lookup item.id = some e ∧ e.expiry = some t := by
  obtain ⟨id, e, hid, hexp⟩ := h.owner ht
  have heq := some.inj (hitem.symm.trans (h.timed id e t hid hexp))
  refine ⟨e, ?_, hexp⟩
  rw [heq]
  exact hid

theorem pruneLoop (env : Env) (fuel : Nat) (retry : List Nat) (removed : Nat) (h : Kept r retry) :
    Kept (Runtime.pruneLoop env fuel r retry removed).1 (Runtime.pruneLoop env fuel r retry removed).2.1 ∧
      Passes env r (Runtime.pruneLoop env fuel r retry removed).1 := by
  induction fuel generalizing r retry removed with
  | zero => exact ⟨h, .refl env r⟩
  | succ fuel ih =>
    rw [Runtime.pruneLoop]
    split
    · exact ⟨h, .refl env r⟩
    · next t ht =>
      split
      · exact ⟨h, .refl env r⟩
      · next item hitem =>
        split_ifs with hfuture
        · exact ⟨h, .refl env r⟩
        · have hpop := h.pop ht
          have hout : Passes env r { r with expiries := (r.expiries.pop (expiryLess r.items)).2 } := .of_sessions rfl rfl
          obtain ⟨e, hid, hexp⟩ := hpop.item_session (mem_add.mpr (.inr (mem_cons_self t _))) hitem
          have hpass := hout.trans (removeLocked_passes env _ item.id)
          dsimp only at hid ⊢
          rw [hid]
          dsimp only
          rw [if_neg (not_not.mpr hexp)]
          rcases hpop.removeLocked_item hid hexp with heq | ⟨hremoved, hkept⟩
          · rw [heq]
            refine (ih _ _ ?_).imp id hout.trans
            rw [← coe_add, coe_singleton, add_comm, singleton_add]
            exact hpop
          · generalize Runtime.removeLocked env _ item.id = result at hremoved hkept hpass ⊢
            obtain ⟨r', _⟩ := result
            cases hremoved
            refine (ih _ _ ?_).imp id hpass.trans
            rwa [Multiset.erase_cons_head] at hkept

theorem pushBack (h : Kept r (t ::ₘ out)) : Kept (Runtime.pushBack r t) out ∧ Passes env r (Runtime.pushBack r t) := by
  have hin : t ∈ bag r.expiries.items + (t ::ₘ out) := mem_add.mpr (.inr (mem_cons_self t _))
  have hitem := getElem?_eq_getElem (h.lt_length hin)
  obtain ⟨e, hid, hexp⟩ := h.item_session hin hitem
  rw [Runtime.pushBack, hitem]
  dsimp only
  rw [hid]
  dsimp only
  rw [if_neg (not_not.mpr hexp)]
  exact ⟨h.push, .of_sessions rfl rfl⟩

theorem pruneExpiredLocked (h : Kept r 0) (env : Env) :
    Kept (r.pruneExpiredLocked env).1 0 ∧ Passes env r (r.pruneExpiredLocked env).1 := by
  have hloop := Kept.pruneLoop env r.expiries.items.size [] 0 h
  rw [Runtime.pruneExpiredLocked]
  generalize Runtime.pruneLoop env r.expiries.items.size r [] 0 = result at hloop
  obtain ⟨r', retry, _⟩ := result
  induction retry generalizing r' with
  | nil => exact hloop
  | cons t retry ih => exact ih _ (hloop.1.pushBack.imp id hloop.2.trans)

/-- One round finds its key free or as it was listed. -/
theorem pruneInput (h : Kept r out) (env : Env) (hkey : r.inputs.lookup key = none ∨ r.inputs.lookup key = some id) :
    (Kept (Runtime.pruneInput env r key id) out ∧ Passes env r (Runtime.pruneInput env r key id)) ∧
      ((Runtime.pruneInput env r key id).inputs = r.inputs ∨ (Runtime.pruneInput env r key id).inputs = r.inputs.erase key) := by
  -- a key that is listed is the claim of its session
  have hgone : (∀ e claim, r.sessions.lookup id = some e → e.input = some claim → claim.key ≠ key) →
      ({ r with inputs := r.inputs.erase key } : Runtime) = r := by
    intro hno
    have hnone : r.inputs.lookup key = none := by
      refine hkey.resolve_right fun hsome => ?_
      have hview := (h.inputs key id).mp hsome
      obtain ⟨e, hid, hclaim⟩ := bind_eq_some_iff.mp hview
      obtain ⟨claim, hinput, rfl⟩ := map_eq_some_iff.mp hclaim
      exact hno e claim hid hinput rfl
    rw [AList.erase_of_none hnone]
  rw [Runtime.pruneInput]
  split
  · next hnone =>
    rw [hgone fun e claim hid => by rw [hnone] at hid; cases hid]
    exact ⟨⟨h, .refl env r⟩, .inl rfl⟩
  · next e hid =>
    split
    · next hnone =>
      rw [hgone fun e' claim hid' hclaim => by
        obtain rfl := mem_unique hid hid'
        rw [hnone] at hclaim
        cases hclaim]
      exact ⟨⟨h, .refl env r⟩, .inl rfl⟩
    · next claim hclaim =>
      split_ifs with hother hlive
      · rw [hgone fun e' claim' hid' hclaim' => by
          obtain rfl := mem_unique hid hid'
          obtain rfl := mem_unique hclaim hclaim'
          exact hother]
        exact ⟨⟨h, .refl env r⟩, .inl rfl⟩
      · exact ⟨⟨h, .refl env r⟩, .inl rfl⟩
      · have hcleared : Kept (r.clearInputLocked id) out ∧ Passes env r (r.clearInputLocked id) :=
          ⟨h.clear id, clear_passes hid hclaim (not_lt.mp hlive)⟩
        refine ⟨?_, .inr rfl⟩
        rw [Runtime.clearInputLocked, hid] at hcleared
        dsimp only at hcleared
        rw [hclaim] at hcleared
        dsimp only at hcleared
        rw [not_not.mp hother, h.named id e hid, if_pos (not_not.mp hother ▸ h.inputs_lookup hid hclaim)] at hcleared
        exact hcleared

theorem pruneExpiredInputsLocked (h : Kept r out) (env : Env) :
    Kept (r.pruneExpiredInputsLocked env) out ∧ Passes env r (r.pruneExpiredInputsLocked env) := by
  have hstart : ∀ s ∈ r.inputs.entries, r.inputs.lookup s.1 = none ∨ r.inputs.lookup s.1 = some s.2 :=
    fun s hs => .inr (AList.mem_entries_iff.mp hs)
  rw [Runtime.pruneExpiredInputsLocked]
  generalize r.inputs.entries = listed at hstart ⊢
  induction listed generalizing r with
  | nil => exact ⟨h, .refl env r⟩
  | cons s listed ih =>
    obtain ⟨⟨hkept, hpass⟩, hinputs⟩ := h.pruneInput env (hstart s mem_cons_self)
    refine (ih hkept fun s' hs' => ?_).imp id hpass.trans
    have hold := hstart s' (mem_cons_of_mem s hs')
    rcases hinputs with heq | heq
    · rw [heq]
      exact hold
    · rw [heq, AList.lookup_erase_eq]
      split_ifs
      · exact .inl rfl
      · exact hold

/-! ### New sessions -/

theorem of_capacity {scope : ScopeIdentity} {n : Nat} (h : r.checkCapacityLocked scope actorID n = true) :
    r.sessions.entries.length < r.config.maxSessions ∧ (r.byScope.getD scope ∅).card < r.config.maxSessionsPerScope ∧
      (actorID ≠ 0 → r.actorCounts.getD actorID 0 < r.config.maxSessionsPerActor) ∧ r.stateBytes + n ≤ r.config.maxTotalStateBytes := by
  rw [Runtime.checkCapacityLocked] at h
  split_ifs at h with h1 h2 h3 h4
  refine ⟨by omega, by omega, fun hne => ?_, by omega⟩
  by_contra hge
  exact h3 ⟨hne, by omega⟩

end Kept

/-- The entry and everything that is kept about it. -/
def Runtime.add (r : Runtime) (id : GoString) (e : SessionEntry) : Runtime :=
  (({ r with sessions := r.sessions.insert id e } : Runtime).indexSessionLocked e).scheduleExpiryLocked id e.session.expiresAt

theorem Runtime.add_eq (hexp : e.expiry = none) : r.add id e =
    { ({ r with sessions := r.sessions.insert id { e with expiry := some r.items.length } } : Runtime).indexSessionLocked e with
      items := r.items ++ [⟨e.session.id, e.session.expiresAt⟩]
      expiries := r.expiries.push (expiryLess (r.items ++ [⟨e.session.id, e.session.expiresAt⟩])) r.items.length } := by
  simp only [Runtime.add, Runtime.scheduleExpiryLocked, Runtime.indexSessionLocked, AList.lookup_insert, hexp,
    AList.insert_insert]

theorem Kept.actors_add (h : Kept r out) (hid : r.sessions.lookup id = none)
    (hactor : e'.session.binding.actorID = e.session.binding.actorID) :
    Counts (fun actorID => (r.sessions.insert id e').total (actorWeight actorID)) (if e.session.binding.actorID ≠ 0 then
        r.actorCounts.insert e.session.binding.actorID (r.actorCounts.getD e.session.binding.actorID 0 + 1) else r.actorCounts) := by
  have hweight : ∀ actorID, actorWeight actorID id e' = actorWeight actorID id e := by
    intro actorID
    rw [actorWeight, hactor]
    rfl
  simp only [AList.total_insert_of_none hid, hweight]
  by_cases hzero : e.session.binding.actorID ≠ 0
  · have hincrease := h.actors.incr (g := e.session.binding.actorID) (AList.total_nonneg fun k v _ => actorWeight_nonneg _ k v)
    rw [if_pos hzero]
    convert hincrease using 1
    funext actorID
    rw [Function.update_apply]
    split_ifs with heq
    · rw [heq, actorWeight_self id hzero]
    · rw [actorWeight_of_ne (.inr heq), add_zero]
  · rw [if_neg hzero]
    convert h.actors using 1
    funext actorID
    rw [actorWeight_of_zero (not_not.mp hzero), add_zero]

theorem Kept.add (h : Kept r out) (id : GoString) (e : SessionEntry) (hid : r.sessions.lookup id = none) (hname : e.session.id = id)
    (hexp : e.expiry = none)
    (hcap : r.checkCapacityLocked e.session.scope e.session.binding.actorID e.session.state.length = true)
    {inputs : AList fun _ : InputBindingKey => GoString}
    (hinputs : Inverse (Function.update (r.sessions.view SessionEntry.claimKey) id e.claimKey) inputs) :
    Kept (({ r with inputs := inputs } : Runtime).add id e) out := by
  obtain ⟨_, _, hactor, hbytes⟩ := Kept.of_capacity hcap
  have hlen : ((r.sessions.insert id { e with expiry := some r.items.length }).entries.length : ℤ) =
      r.sessions.entries.length + 1 := by
    rw [← AList.total_one, ← AList.total_one, AList.total_insert_of_none hid]
  -- the new item is not among those that exist
  have hfresh : ∀ t ∈ bag r.expiries.items + out, t ≠ r.items.length := by
    intro t ht heq
    have hlt := h.lt_length ht
    omega
  have habs : r.items.length ∉ r.expiries.items := fun hin =>
    hfresh _ (mem_add.mpr (.inl (Kept.mem_bag.mpr hin))) rfl
  obtain ⟨hplaced, hbag, hindex⟩ := Indexed.push_spec
    (expiryLess (r.items ++ [⟨e.session.id, e.session.expiresAt⟩])) h.placed habs
  rw [Runtime.add_eq hexp]
  simp only [Runtime.indexSessionLocked]
  constructor <;> dsimp only
  case named =>
    intro id' e' hlook
    rw [AList.lookup_insert_eq] at hlook
    split_ifs at hlook with heq
    · rw [← some.inj hlook, heq]
      exact hname
    · exact h.named id' e' hlook
  case scopes =>
    rw [AList.view_insert, hname]
    exact h.scopes.add (AList.view_of_none _ hid) e.session.scope
  case actors => exact h.actors_add hid rfl
  case bytes =>
    rw [AList.total_insert_of_none hid, h.bytes]
    rfl
  case placed => exact hplaced
  case away =>
    intro t ht
    rw [hindex t (h.not_mem_heap ht) (hfresh t (mem_add.mpr (.inr ht)))]
    exact h.away t ht
  case pointers =>
    rw [hbag, AList.total_insert, AList.erase_of_none hid, h.pointers, pointerWeight, singleton_add,
      Multiset.cons_add, Multiset.map_cons]
  case timed =>
    intro id' e' t hlook ht
    rcases AList.of_lookup_insert hlook with ⟨heq, rfl⟩ | ⟨heq, hlook⟩
    · cases ht
      rw [getElem?_append_right (le_refl _), Nat.sub_self, hname, heq]
      rfl
    · have hold := h.timed id' e' t hlook ht
      rw [List.getElem?_append_left (List.getElem?_eq_some_iff.mp hold).1]
      exact hold
  case inputs =>
    rw [AList.view_insert]
    exact hinputs
  case few => omega
  case fewInScope =>
    intro scope
    have hfew := h.fewInScope scope
    rw [AList.getD_insert]
    split_ifs
    · have hle := Finset.card_insert_le e.session.id (r.byScope.getD e.session.scope ∅)
      omega
    · exact hfew
  case fewOfActor =>
    intro actorID
    have hfew := h.fewOfActor actorID
    rw [AList.total_insert_of_none hid, actorWeight]
    split_ifs with hw
    · have hlt := hactor (hw.2 ▸ hw.1)
      rw [h.actors.getD, hw.2] at hlt
      omega
    · omega
  case small => exact hbytes

end Goultroid.Interaction
