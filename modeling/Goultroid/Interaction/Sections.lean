import Goultroid.Interaction.Bookkeeping

/-!
# Every section keeps the indexes

Each critical section takes a runtime whose indexes are right to one whose indexes are right, whatever the
clock, the catalog and the store do, and so does a run of any sections in any order.

A section on one session ends with an error, or the session has expired and is removed, or it is there
(`Opened`); in the last case the section is an edit of `Bookkeeping` (`updateState_cases`,
`armInput_cases`, `takeInput_cases`). The sections that prune, displace or restore go through loops of the
same edits. `Consistent` says what the invariant means for the indexes, without the items that are out.
-/

namespace Goultroid.Interaction

open Multiset Option Bool
open Index (Inverse)

variable {env : Env} {r r' : Runtime} {id : GoString} {e : SessionEntry} {input : Option InputClaim} {draws : List (Option GoString)}
  {target : TargetBinding} {result : Runtime × Reply} {scope : ScopeIdentity} {request : UpdateRequest} {ttl : Duration}
  {expectedRevision : Nat} {key : InputBindingKey}

theorem saveDurableLocked_frame {session : Session}
    (h : r.saveDurableLocked env session input = some r') : ∃ store, r' = { r with durable := store } := by
  rw [Runtime.saveDurableLocked] at h
  split at h
  · exact ⟨r.durable, (some.inj h).symm⟩
  · dsimp only at h
    split_ifs at h
    · exact ⟨r.durable, (some.inj h).symm⟩
    · split at h
      · cases h
      · exact ⟨_, (some.inj h).symm⟩

theorem uniqueIDLocked_fresh {attempts : Nat}
    (h : r.uniqueIDLocked attempts draws = some id) : r.sessions.lookup id = none ∧ some id ∈ draws := by
  induction attempts generalizing draws with
  | zero => cases h
  | succ attempts ih =>
    cases draws with
    | nil => cases h
    | cons draw =>
      cases draw with
      | none => cases h
      | some =>
        rw [Runtime.uniqueIDLocked] at h
        split_ifs at h
        split at h
        · next hnone =>
          cases h
          exact ⟨hnone, List.mem_cons_self⟩
        · obtain ⟨hfresh, hdrawn⟩ := ih h
          exact ⟨hfresh, List.mem_cons_of_mem _ hdrawn⟩

theorem withTarget_actorID {b b' : Binding} (h : b.withTarget target = .ok b') : b'.actorID = b.actorID := by
  rw [Binding.withTarget] at h
  split at h
  · cases h
  · split_ifs at h
    · exact (Except.ok.inj h) ▸ rfl
    · exact (Except.ok.inj h) ▸ rfl

/-! ### What the sections can come to -/

/-- The next contents of the session in `UpdateState`. -/
def updated (env : Env) (request : UpdateRequest) (ttl : Duration) (s : Session) : Session :=
  { s with
    state := request.state
    revision := s.revision + 1
    expiresAt := if request.ttl ≠ 0 then env.now + ttl else s.expiresAt }

/-- The session gets new contents and no claim. -/
def Runtime.settle (r : Runtime) (id : GoString) (e : SessionEntry) (s : Session) (total : Int) : Runtime :=
  ({ r.clearInputLocked id with stateBytes := total } : Runtime).setSession id { e with input := none } s

theorem load_cases {includeState : Bool} :
    r.load env id includeState = (r, .failed .closed) ∨
      r.load env id includeState = ((r.pruneExpiredLocked env).1, .failed .notFound) ∨
      r.load env id includeState = ((r.removeLocked env id).1, .failed .expired) ∨
      ∃ e, r.sessions.lookup id = some e ∧ env.now < e.session.expiresAt ∧ r.load env id includeState =
        (r, .session (if includeState then e.session else { e.session with state := [] })) := by
  rw [Runtime.load]
  cases hclosed : r.closed with
  | true => exact .inl rfl
  | false =>
    cases hid : r.sessions.lookup id with
    | none => exact .inr (.inl rfl)
    | some e =>
      by_cases hexp : e.session.expiresAt ≤ env.now
      · exact .inr (.inr (.inl (by simp [hexp])))
      · exact .inr (.inr (.inr ⟨e, rfl, not_le.mp hexp, by simp [hexp]⟩))

/-- How a section on one session ends: with an error, or the session has expired, or it is there and `P` holds of it. -/
def Opened (env : Env) (r : Runtime) (id : GoString) (scope : ScopeIdentity) (result : Runtime × Reply) (P : SessionEntry → Prop) : Prop :=
  (∃ err, result = (r, .failed err)) ∨ result = ((r.removeLocked env id).1, .failed .expired) ∨
    ∃ e, r.sessions.lookup id = some e ∧ e.session.scope = scope ∧ env.now < e.session.expiresAt ∧ P e

/-- How it begins: the session is missing, of another scope or expired, or `k` goes on with it. -/
theorem opened {k : SessionEntry → Runtime × Reply} {P : SessionEntry → Prop}
    (hres : result = match r.sessions.lookup id with
      | none => (r, .failed .notFound)
      | some e =>
        if e.session.scope ≠ scope then (r, .failed .notFound)
        else if e.session.expiresAt ≤ env.now then ((r.removeLocked env id).1, .failed .expired)
        else k e)
    (hk : ∀ e, result = k e → (∃ err, k e = (r, .failed err)) ∨ P e) : Opened env r id scope result P := by
  cases hid : r.sessions.lookup id with
  | none => exact .inl ⟨_, by rw [hres, hid]⟩
  | some e =>
    rw [hid] at hres
    dsimp only at hres
    split_ifs at hres with hscope hexp
    · exact .inl ⟨_, hres⟩
    · exact .inr (.inl hres)
    · rcases hk e hres with ⟨err, hfail⟩ | hdone
      · exact .inl ⟨err, hres.trans hfail⟩
      · exact .inr (.inr ⟨e, hid, not_not.mp hscope, not_le.mp hexp, hdone⟩)

theorem updateState_cases : Opened env r id scope (r.updateState env id scope request ttl) fun e =>
      ∃ r1 total, e.session.revision = request.expectedRevision ∧
        total = r.stateBytes - e.session.state.length + request.state.length ∧ total ≤ r.config.maxTotalStateBytes ∧
        r.saveDurableLocked env (updated env request ttl e.session) none = some r1 ∧ r.updateState env id scope request ttl =
          (if request.ttl ≠ 0 then (r1.settle id e (updated env request ttl e.session) total).scheduleExpiryLocked id (env.now + ttl)
          else r1.settle id e (updated env request ttl e.session) total, .session (updated env request ttl e.session)) := by
  refine opened rfl fun e hres => ?_
  by_cases hrev : e.session.revision = request.expectedRevision
  · rw [if_neg (not_not.mpr hrev)] at hres ⊢
    dsimp only at hres ⊢
    by_cases hfull : r.config.maxTotalStateBytes < r.stateBytes - e.session.state.length + request.state.length
    · rw [if_pos hfull]
      exact .inl ⟨_, rfl⟩
    · rw [if_neg hfull] at hres ⊢
      cases hsave : r.saveDurableLocked env (updated env request ttl e.session) none with
      | none =>
        rw [updated] at hsave
        rw [hsave]
        exact .inl ⟨_, rfl⟩
      | some r1 =>
        refine .inr ⟨r1, _, hrev, rfl, not_lt.mp hfull, rfl, hres.trans ?_⟩
        rw [updated] at hsave ⊢
        rw [hsave]
        by_cases httl : request.ttl = 0
        · simp [httl, Runtime.settle]
        · simp [httl, Runtime.settle]
  · rw [if_pos hrev]
    exact .inl ⟨_, rfl⟩

theorem bindTarget_cases : Opened env r id scope (r.bindTarget env id scope expectedRevision target) fun e =>
      ∃ r1 binding, e.session.revision = expectedRevision ∧ e.session.binding.withTarget target = .ok binding ∧
        r.saveDurableLocked env { e.session with binding := binding } e.input = some r1 ∧
        r.bindTarget env id scope expectedRevision target =
          (r1.setSession id e { e.session with binding := binding }, .session { e.session with binding := binding }) := by
  refine opened rfl fun e hres => ?_
  by_cases hrev : e.session.revision = expectedRevision
  · rw [if_neg (not_not.mpr hrev)] at hres ⊢
    cases hbin : e.session.binding.withTarget target with
    | error => exact .inl ⟨_, rfl⟩
    | ok binding =>
      rw [hbin] at hres
      dsimp only at hres ⊢
      cases hsave : r.saveDurableLocked env { e.session with binding := binding } e.input with
      | none => exact .inl ⟨_, rfl⟩
      | some r1 =>
        rw [hsave] at hres
        exact .inr ⟨r1, binding, hrev, rfl, hsave, hres⟩
  · rw [if_pos hrev]
    exact .inl ⟨_, rfl⟩

theorem touch_cases : Opened env r id scope (r.touch env id scope ttl) fun e =>
      ∃ r1, r.saveDurableLocked env { e.session with expiresAt := env.now + ttl } e.input = some r1 ∧
        r.touch env id scope ttl =
          ((r1.setSession id e { e.session with expiresAt := env.now + ttl }).scheduleExpiryLocked id (env.now + ttl),
            .session { e.session with expiresAt := env.now + ttl }) := by
  refine opened rfl fun e hres => ?_
  dsimp only at hres ⊢
  cases hsave : r.saveDurableLocked env { e.session with expiresAt := env.now + ttl } e.input with
  | none => exact .inl ⟨_, rfl⟩
  | some r1 =>
    rw [hsave] at hres
    exact .inr ⟨r1, rfl, hres⟩

/-- The deadline of a claim: not after that of its session. -/
def claimExpiry (env : Env) (ttl : Duration) (s : Session) : Time :=
  if s.expiresAt < env.now + ttl then s.expiresAt else env.now + ttl

/-- The next contents of the session in `ArmInput`. -/
def armed (request : UpdateRequest) (s : Session) : Session :=
  { s with state := request.state, revision := s.revision + 1 }

theorem armInput_cases : Opened env r id scope (r.armInput env id scope key request ttl) fun e =>
      ∃ r1 total, e.session.revision = request.expectedRevision ∧ r.displace env id key = some r1 ∧
        total = r1.stateBytes - e.session.state.length + request.state.length ∧
        ((∃ err, r.armInput env id scope key request ttl = (r1, .failed err)) ∨
          ∃ r2, total ≤ r1.config.maxTotalStateBytes ∧
            r1.saveDurableLocked env (armed request e.session) (some ⟨key, claimExpiry env ttl e.session⟩) = some r2 ∧
            r.armInput env id scope key request ttl =
              ({ ({ r2.clearInputLocked id with stateBytes := total } : Runtime).setSession id
                    { e with input := some ⟨key, claimExpiry env ttl e.session⟩ } (armed request e.session) with
                  inputs := (r2.clearInputLocked id).inputs.insert key id },
                .session (armed request e.session))) := by
  refine opened rfl fun e hres => ?_
  by_cases hrev : e.session.revision = request.expectedRevision
  · rw [if_neg (not_not.mpr hrev)] at hres ⊢
    cases hdisplace : r.displace env id key with
    | none => exact .inl ⟨_, rfl⟩
    | some r1 =>
      rw [hdisplace] at hres
      refine .inr ⟨r1, _, hrev, rfl, rfl, ?_⟩
      rw [hres]
      dsimp only
      by_cases hfull : r1.config.maxTotalStateBytes < r1.stateBytes - e.session.state.length + request.state.length
      · rw [if_pos hfull]
        exact .inl ⟨_, rfl⟩
      · rw [if_neg hfull]
        cases hsave : r1.saveDurableLocked env (armed request e.session) (some ⟨key, claimExpiry env ttl e.session⟩) with
        | none =>
          rw [armed, claimExpiry] at hsave
          rw [hsave]
          exact .inl ⟨_, rfl⟩
        | some r2 =>
          refine .inr ⟨r2, not_lt.mp hfull, rfl, ?_⟩
          rw [armed, claimExpiry] at hsave ⊢
          rw [hsave]
          rfl
  · rw [if_pos hrev]
    exact .inl ⟨_, rfl⟩

theorem restoreDurable_cases : (∃ reply, r.restoreDurable env = (r, reply)) ∨
      ∃ store, r.durable = some store ∧ r.restoreDurable env = Runtime.restoreRows env (Store.load store) r := by
  rw [Runtime.restoreDurable]
  cases hclosed : r.closed with
  | true => exact .inl ⟨_, rfl⟩
  | false =>
    cases hstore : r.durable with
    | none => exact .inl ⟨_, rfl⟩
    | some store =>
      cases hload : env.loadRefused with
      | true => exact .inl ⟨_, rfl⟩
      | false => exact .inr ⟨store, rfl, rfl⟩

namespace Kept

section

variable (h : Kept r 0) {d : DurableSession}
include h

theorem of_opened {P : SessionEntry → Prop} (ho : Opened env r id scope result P)
    (hP : ∀ e, r.sessions.lookup id = some e → P e → Kept result.1 0) : Kept result.1 0 := by
  rcases ho with ⟨_, rfl⟩ | rfl | ⟨e, hid, -, -, he⟩
  · exact h
  · exact h.removeLocked env id
  · exact hP e hid he

/-- A claim on `key` that is left stands in the way, or belongs to the session. -/
theorem displace (hid : r.sessions.lookup id = some e) (hfree : r.displace env id key = some r') :
    (Kept r' 0 ∧ Passes env r r') ∧ r'.sessions.lookup id = some e ∧ (r'.inputs.lookup key = none ∨ r'.inputs.lookup key = some id) := by
  rw [Runtime.displace] at hfree
  split at hfree
  · next hnone =>
    cases hfree
    exact ⟨⟨h, .refl env r⟩, hid, .inl hnone⟩
  · next existingID hexisting =>
    split_ifs at hfree with hsame
    · cases hfree
      exact ⟨⟨h, .refl env r⟩, hid, .inr (hsame ▸ hexisting)⟩
    · -- the index is right, so the other session is there with its claim
      obtain ⟨_, hlook, hkey⟩ := bind_eq_some_iff.mp ((h.inputs key existingID).mp hexisting)
      obtain ⟨_, hclaim, -⟩ := map_eq_some_iff.mp hkey
      rw [hlook] at hfree
      dsimp only at hfree
      rw [hclaim] at hfree
      dsimp only at hfree
      split_ifs at hfree with hlive
      obtain rfl := some.inj hfree
      refine ⟨⟨h.clear existingID, clear_passes hlook hclaim (not_lt.mp hlive)⟩, ?_, .inl (h.clear_free hlook (.inr hexisting))⟩
      rw [lookup_clearInputLocked, hid, map_some, if_neg (Ne.symm hsame)]

theorem settle {total : Int} (s : Session) (hid : r.sessions.lookup id = some e)
    (hname : s.id = e.session.id) (hscope : s.scope = e.session.scope) (hactor : s.binding.actorID = e.session.binding.actorID)
    (hbytes : total = r.stateBytes - e.session.state.length + s.state.length)
    (hsmall : total ≤ r.config.maxTotalStateBytes) (htime : s.expiresAt = e.session.expiresAt) : Kept (r.settle id e s total) 0 := by
  rw [Runtime.settle]
  have hinsert := clearInputLocked_insert hid { session := s, durableVersion := e.durableVersion, expiry := e.expiry }
  have hinputs := h.clear_inputs hid
  obtain ⟨sessions, _, hclear⟩ := clearInputLocked_frame r id
  rw [hclear] at hinsert hinputs ⊢
  rw [Runtime.setSession]
  rw [hinsert]
  exact h.rewrite _ hid hname hscope hactor hbytes hsmall rfl htime hinputs

theorem create {featureID : GoString} {binding : Binding} {state : List UInt8} :
    Kept (r.create env scope featureID binding state ttl draws).1 0 := by
  obtain ⟨hprune, -⟩ := h.pruneExpiredLocked env
  rw [Runtime.create]
  split_ifs with hclosed
  · exact h
  · dsimp only
    split_ifs with hcap
    · exact hprune
    · split
      · exact hprune
      · next id hdraw =>
        split
        · exact hprune
        · next r2 hsave =>
          obtain ⟨hfresh, -⟩ := uniqueIDLocked_fresh hdraw
          obtain ⟨store, rfl⟩ := saveDurableLocked_frame hsave
          refine (hprune.withDurable store).add id ⟨_, _, none, none⟩ hfresh rfl rfl (not_eq_false _ ▸ hcap) ?_
          have hview := AList.view_of_none SessionEntry.claimKey hfresh
          rw [SessionEntry.claimKey, map_none, ← hview, Function.update_eq_self]
          exact hprune.inputs

theorem load (id : GoString) (includeState : Bool) : Kept (r.load env id includeState).1 0 := by
  rcases load_cases with heq | heq | heq | ⟨e, -, -, heq⟩
  · rw [heq]
    exact h
  · rw [heq]
    exact (h.pruneExpiredLocked env).1
  · rw [heq]
    exact h.removeLocked env id
  · rw [heq]
    exact h

theorem cancelIfScope (id : GoString) (scope : ScopeIdentity) : Kept (r.cancelIfScope env id scope).1 0 := by
  rw [Runtime.cancelIfScope]
  split
  · exact h
  · split_ifs
    · exact h.removeLocked env id
    · exact h

theorem updateState : Kept (r.updateState env id scope request ttl).1 0 := by
  refine h.of_opened updateState_cases ?_
  rintro e hid ⟨r1, total, -, hbytes, hsmall, hsave, heq⟩
  rw [heq]
  obtain ⟨store, rfl⟩ := saveDurableLocked_frame hsave
  have hstore := h.withDurable store
  by_cases httl : request.ttl = 0
  · rw [if_neg (not_not.mpr httl)]
    exact hstore.settle _ hid rfl rfl rfl hbytes hsmall (if_neg (not_not.mpr httl))
  · -- first the contents, then the deadline
    have hset := hstore.settle (armed request e.session) hid rfl rfl rfl hbytes hsmall rfl
    have hmoved := hset.reschedule { e with input := none, session := updated env request ttl e.session }
      (env.now + ttl) (AList.lookup_insert _) (by simp [updated, armed, httl]) rfl rfl
    rw [if_pos httl]
    simp only [Runtime.settle, Runtime.setSession, AList.insert_insert] at hmoved ⊢
    exact hmoved

theorem bindTarget : Kept (r.bindTarget env id scope expectedRevision target).1 0 := by
  refine h.of_opened bindTarget_cases ?_
  rintro e hid ⟨r1, binding, -, hbin, hsave, heq⟩
  rw [heq]
  obtain ⟨store, rfl⟩ := saveDurableLocked_frame hsave
  have hinputs : Inverse (Function.update (r.sessions.view SessionEntry.claimKey) id e.claimKey) r.inputs := by
    rw [← AList.view_of_lookup SessionEntry.claimKey hid, Function.update_eq_self]
    exact h.inputs
  refine (h.withDurable store).rewrite { e with session := { e.session with binding := binding } }
    hid rfl rfl (withTarget_actorID hbin) ?_ h.small rfl rfl hinputs
  show r.stateBytes = r.stateBytes - e.session.state.length + e.session.state.length
  omega

theorem touch : Kept (r.touch env id scope ttl).1 0 := by
  refine h.of_opened touch_cases ?_
  rintro e hid ⟨r1, hsave, heq⟩
  rw [heq]
  obtain ⟨store, rfl⟩ := saveDurableLocked_frame hsave
  exact (h.withDurable store).reschedule { e with session := { e.session with expiresAt := env.now + ttl } }
    (env.now + ttl) hid rfl rfl rfl

theorem armInput : Kept (r.armInput env id scope key request ttl).1 0 := by
  refine h.of_opened armInput_cases ?_
  rintro e hid ⟨r1, total, -, hdisplace, hbytes, hcase⟩
  obtain ⟨⟨hkept, -⟩, hid1, hkey⟩ := h.displace hid hdisplace
  rcases hcase with ⟨err, heq⟩ | ⟨r2, hsmall, hsave, heq⟩
  · rw [heq]
    exact hkept
  · rw [heq]
    obtain ⟨store, rfl⟩ := saveDurableLocked_frame hsave
    have hstore := hkept.withDurable store
    have hinsert := clearInputLocked_insert (r := { r1 with durable := store }) hid1
    have hinputs := hstore.clear_inputs hid1
    have hfree := hstore.clear_free hid1 hkey
    obtain ⟨_, _, hclear⟩ := clearInputLocked_frame { r1 with durable := store } id
    rw [hclear] at hinsert hinputs hfree ⊢
    simp only [Runtime.setSession, hinsert]
    have hadd := hinputs.add (Function.update_self _ _ _) hfree
    rw [Function.update_idem] at hadd
    exact hstore.rewrite { e with
      input := some ⟨key, claimExpiry env ttl e.session⟩
      session := armed request e.session } hid1 rfl rfl rfl hbytes hsmall rfl rfl hadd

theorem takeInput_cases :
    (r.takeInput env key = (r, .failed .closed) ∨ r.takeInput env key = (r, .unclaimed)) ∨
      ∃ id e claim, r.sessions.lookup id = some e ∧ e.input = some claim ∧ claim.key = key ∧
        ((claim.expiresAt ≤ env.now ∧ r.takeInput env key = (r.clearInputLocked id, .failed .inputExpired)) ∨
          (e.session.expiresAt ≤ env.now ∧ r.takeInput env key = ((r.removeLocked env id).1, .failed .expired)) ∨
          r.takeInput env key = (r, .failed .store) ∨
          ∃ r1, env.now < claim.expiresAt ∧ env.now < e.session.expiresAt ∧
            r.saveDurableLocked env { e.session with revision := e.session.revision + 1 } none = some r1 ∧
            r.takeInput env key = (r1.settle id e { e.session with revision := e.session.revision + 1 } r1.stateBytes,
              .session { e.session with revision := e.session.revision + 1 })) := by
  rw [Runtime.takeInput]
  cases hclosed : r.closed with
  | true => exact .inl (.inl rfl)
  | false =>
    cases hkey : r.inputs.lookup key with
    | none => exact .inl (.inr rfl)
    | some id =>
      obtain ⟨e, hid, hclaim⟩ := bind_eq_some_iff.mp ((h.inputs key id).mp hkey)
      obtain ⟨claim, hinput, hname⟩ := map_eq_some_iff.mp hclaim
      refine .inr ⟨id, e, claim, hid, hinput, hname, ?_⟩
      simp only [hid, hinput, hname, ne_eq, not_true_eq_false, if_false, false_eq_true]
      by_cases hlapsed : claim.expiresAt ≤ env.now
      · rw [if_pos hlapsed]
        exact .inl ⟨hlapsed, rfl⟩
      · rw [if_neg hlapsed]
        by_cases hexp : e.session.expiresAt ≤ env.now
        · rw [if_pos hexp]
          exact .inr (.inl ⟨hexp, rfl⟩)
        · rw [if_neg hexp]
          cases hsave : r.saveDurableLocked env { e.session with revision := e.session.revision + 1 } none with
          | none => exact .inr (.inr (.inl rfl))
          | some r1 =>
            refine .inr (.inr (.inr ⟨r1, not_le.mp hlapsed, not_le.mp hexp, rfl, ?_⟩))
            obtain ⟨sessions, inputs, hclear⟩ := clearInputLocked_frame r1 id
            simp only [Runtime.settle, hclear]

theorem takeInput (key : InputBindingKey) : Kept (r.takeInput env key).1 0 := by
  rcases h.takeInput_cases with (heq | heq) | ⟨id, e, claim, hid, -, -, hcase⟩
  · rw [heq]
    exact h
  · rw [heq]
    exact h
  · rcases hcase with ⟨-, heq⟩ | ⟨-, heq⟩ | heq | ⟨r1, -, -, hsave, heq⟩
    · rw [heq]
      exact h.clear id
    · rw [heq]
      exact h.removeLocked env id
    · rw [heq]
      exact h
    · rw [heq]
      obtain ⟨store, rfl⟩ := saveDurableLocked_frame hsave
      refine (h.withDurable store).settle _ hid rfl rfl rfl ?_ h.small rfl
      show r.stateBytes = r.stateBytes - e.session.state.length + e.session.state.length
      omega

theorem releaseInput (id : GoString) : Kept (r.releaseInput env id).1 0 := by
  rw [Runtime.releaseInput]
  split
  · exact h
  · split
    · exact h
    · split
      · exact h
      · next r1 hsave =>
        obtain ⟨store, rfl⟩ := saveDurableLocked_frame hsave
        exact (h.withDurable store).clear id

theorem removeAll (ids : List GoString) (removed : Nat) (failed : Bool) :
    Kept (Runtime.removeAll env ids r removed failed).1 0 ∧ Passes env r (Runtime.removeAll env ids r removed failed).1 := by
  induction ids generalizing r removed failed with
  | nil => exact ⟨h, .refl env r⟩
  | cons id ids ih =>
    have hnext := h.removeLocked env id
    have hremoved := removeLocked_passes env r id
    rw [Runtime.removeAll]
    split
    iterate 3
      · next r1 heq =>
        rw [heq] at hnext hremoved
        exact (ih hnext _ _).imp (fun hkept => hkept) hremoved.trans

theorem reject (hreject : r.reject env d = some r') : Kept r' 0 := by
  rw [Runtime.reject] at hreject
  split_ifs at hreject
  exact some.inj hreject ▸ h.withDurable _

theorem restoredInput
    (hid : r.sessions.lookup d.session.id = none) (hinput : r.restoredInput env d = .ok input) :
    Inverse (Function.update (r.sessions.view SessionEntry.claimKey) d.session.id (input.map (·.key)))
      (match input with | none => r | some claim => { r with inputs := r.inputs.insert claim.key d.session.id }).inputs := by
  have hview := AList.view_of_none SessionEntry.claimKey hid
  rw [Runtime.restoredInput] at hinput
  split_ifs at hinput
  · split at hinput
    · cases hinput
    · next key _ =>
      split_ifs at hinput with hbusy
      cases hinput
      exact h.inputs.add hview (not_isSome_iff_eq_none.mp hbusy)
  · cases hinput
    rw [map_none, ← hview, Function.update_eq_self]
    exact h.inputs

theorem restoreRow (hrow : r.restoreRow env d = some r') : Kept r' 0 := by
  rw [Runtime.restoreRow] at hrow
  split_ifs at hrow
  · exact h.reject hrow
  · split at hrow
    · exact some.inj hrow ▸ h
    · next hid =>
      dsimp only at hrow
      split_ifs at hrow with hcap
      · exact h.reject hrow
      · split at hrow
        · exact h.reject hrow
        · next input hinput =>
          have hinputs := h.restoredInput hid hinput
          cases hrow
          have hadded := h.add d.session.id {
            session := { d.session with scope := (env.catalog.featureScope d.session.featureID).getD ⟨[], 0⟩ }
            durableVersion := d.version
            input := input } hid rfl rfl (not_eq_false _ ▸ hcap) hinputs
          cases input with
          | none | some => exact hadded

theorem restoreRows (rows : List DurableSession) : Kept (Runtime.restoreRows env rows r).1 0 := by
  induction rows generalizing r with
  | nil => exact h
  | cons d rows ih =>
    rw [Runtime.restoreRows]
    split
    · exact h
    · next r1 hrow => exact ih (h.restoreRow hrow)

theorem close : Kept r.close.1 0 := by
  rw [Runtime.close]
  split_ifs
  · exact h
  · have hsessions := h.few
    have hscope := h.fewInScope ⟨[], 0⟩
    have hactor := h.fewOfActor 0
    have hsmall := h.small
    have hbytes : 0 ≤ r.stateBytes := by
      rw [h.bytes]
      exact AList.total_nonneg fun _ _ _ => Int.natCast_nonneg _
    have hzero : 0 ≤ r.sessions.total (actorWeight 0) := AList.total_nonneg fun k v _ => actorWeight_nonneg 0 k v
    constructor <;> dsimp only
    case named => exact nofun
    case scopes => exact Index.partitions_empty
    case actors => exact fun _ => rfl
    case bytes => rfl
    case placed => exact nofun
    case away => exact fun _ ht => absurd ht (notMem_zero _)
    case pointers => rfl
    case timed => exact nofun
    case inputs => exact Index.inverse_empty
    case few =>
      show ((0 : Nat) : ℤ) ≤ _
      omega
    case fewInScope =>
      intro _
      show ((0 : Nat) : ℤ) ≤ _
      omega
    case fewOfActor =>
      intro _
      show (0 : ℤ) ≤ _
      omega
    case small => omega

/-- **Every section keeps the indexes.** -/
theorem run (s : Section) : Kept (s.run env r).1 0 := by
  cases s with
  | create => exact h.create
  | load id includeState => exact h.load id includeState
  | cancelIfScope id scope => exact h.cancelIfScope id scope
  | updateState => exact h.updateState
  | bindTarget => exact h.bindTarget
  | touch => exact h.touch
  | armInput => exact h.armInput
  | takeInput key => exact h.takeInput key
  | releaseInput id => exact h.releaseInput id
  | cancel id => exact h.removeLocked env id
  | cancelScope scope order =>
    show Kept (r.cancelScope env scope order).1 0
    rw [Runtime.cancelScope]
    split_ifs
    · exact h
    · exact (h.removeAll _ 0 false).1
    · exact (h.removeAll _ 0 false).1
  | pruneExpired => exact ((h.pruneExpiredInputsLocked env).1.pruneExpiredLocked env).1
  | restoreDurable =>
    show Kept (r.restoreDurable env).1 0
    rcases restoreDurable_cases with ⟨reply, heq⟩ | ⟨store, -, heq⟩
    · rw [heq]
      exact h
    · rw [heq]
      exact h.restoreRows _
  | setDurableStore store =>
    show Kept (r.setDurableStore store).1 0
    rw [Runtime.setDurableStore]
    split_ifs
    · exact h
    · exact h.withDurable _
  | preserveDurableOnShutdown => exact { h with }
  | close => exact h.close

end

end Kept

theorem normalized_nonneg {c c' : Config} (h : c.normalized = some c') :
    0 ≤ c'.maxSessions ∧ 0 ≤ c'.maxSessionsPerScope ∧ 0 ≤ c'.maxSessionsPerActor ∧ 0 ≤ c'.maxTotalStateBytes := by
  have hdef : ∀ value fallback : Int, 0 ≤ value → 0 ≤ fallback → 0 ≤ orDefault value fallback := by
    intro value fallback _ _
    rw [orDefault]
    split_ifs <;> omega
  rw [Config.normalized] at h
  split_ifs at h with hneg
  cases h
  exact ⟨hdef _ _ (by omega) (by omega), hdef _ _ (by omega) (by omega), hdef _ _ (by omega) (by omega),
    hdef _ _ (by omega) (by omega)⟩

theorem kept_new {config : Config} (h : Runtime.new config = some r) : Kept r 0 := by
  obtain ⟨c, hc, rfl⟩ := map_eq_some_iff.mp h
  obtain ⟨hsessions, hscope, hactor, hbytes⟩ := normalized_nonneg hc
  exact {
    named := nofun
    scopes := Index.partitions_empty
    actors := fun _ => rfl
    bytes := rfl
    placed := nofun
    away := fun _ ht => absurd ht (notMem_zero _)
    pointers := rfl
    timed := nofun
    inputs := Index.inverse_empty
    few := hsessions
    fewInScope := fun _ => hscope
    fewOfActor := fun _ => hactor
    small := hbytes }

/-! ### Runs -/

def sections : Machine Runtime (Env × Section) Reply := fun r call => call.2.run call.1 r

theorem Kept.sections (h : Kept r 0) (calls : List (Env × Section)) : Kept (sections.run r calls) 0 :=
  Machine.run_invariant (P := fun _ r => Kept r 0) h (fun _ call _ hr => hr.run call.2) calls

/-- What the indexes say about the sessions. -/
structure Consistent (r : Runtime) : Prop where
  /-- `byScope` is the partition of the sessions by scope, without empty classes. -/
  byScope : (∀ scope ids, r.byScope.lookup scope = some ids → ids.Nonempty) ∧
    ∀ id scope, id ∈ r.byScope.getD scope ∅ ↔ ∃ e, r.sessions.lookup id = some e ∧ e.session.scope = scope
  actorCounts : ∀ actorID, r.actorCounts.lookup actorID =
    let n := r.sessions.entries.countP fun s => decide (actorID ≠ 0 ∧ s.2.session.binding.actorID = actorID)
    if n = 0 then none else some (n : Int)
  stateBytes : r.stateBytes = (r.sessions.entries.map fun s => (s.2.session.state.length : Int)).sum
  /-- The expiry item of a session stands in the heap where it says, with the deadline of the session. -/
  expiry : ∀ id e, r.sessions.lookup id = some e → ∃ t, e.expiry = some t ∧ r.items[t]? = some ⟨id, e.session.expiresAt⟩ ∧
    0 ≤ r.expiries.index t ∧ r.expiries.items[(r.expiries.index t).toNat]? = some t
  /-- The heap has no other items, and no item twice. -/
  expiries : r.expiries.items.toList.Nodup ∧
    ∀ t ∈ r.expiries.items, ∃ id e, r.sessions.lookup id = some e ∧ e.expiry = some t
  inputs : ∀ key id, r.inputs.lookup key = some id ↔
    ∃ e claim, r.sessions.lookup id = some e ∧ e.input = some claim ∧ claim.key = key
  maxSessions : r.sessions.entries.length ≤ r.config.maxSessions
  maxSessionsPerScope : ∀ scope, (r.byScope.getD scope ∅).card ≤ r.config.maxSessionsPerScope
  maxSessionsPerActor : ∀ actorID, r.actorCounts.getD actorID 0 ≤ r.config.maxSessionsPerActor
  maxTotalStateBytes : r.stateBytes ≤ r.config.maxTotalStateBytes

theorem Kept.consistent (h : Kept r 0) : Consistent r where
  byScope := by
    refine ⟨h.scopes.nonempty, fun id scope => ?_⟩
    rw [h.scopes.mem, AList.view, bind_eq_some_iff]
    simp only [SessionEntry.scopeClass, Option.some.injEq]
  actorCounts := by
    intro actorID
    have hcount := AList.total_ite_eq_countP
      (fun (_ : GoString) (e : SessionEntry) => decide (actorID ≠ 0 ∧ e.session.binding.actorID = actorID)) r.sessions
    simp only [decide_eq_true_eq] at hcount
    have hweight : r.sessions.total (actorWeight actorID) = _ := hcount
    simp only [h.actors actorID, hweight]
    split_ifs with hzero hnat hnat
    · rfl
    · omega
    · omega
    · rfl
  stateBytes := h.bytes
  expiry := by
    intro id e hid
    obtain ⟨t, ht, hin⟩ := h.exists_expiry hid
    rw [add_zero, Kept.mem_bag] at hin
    exact ⟨t, ht, h.timed id e t hid ht, h.index_nonneg hin, h.getElem?_index hin⟩
  expiries := ⟨h.placed.nodup, fun t ht => h.owner (mem_add.mpr (.inl (Kept.mem_bag.mpr ht)))⟩
  inputs := by
    intro key id
    rw [h.inputs, AList.view, bind_eq_some_iff]
    constructor
    · rintro ⟨e, hid, hkey⟩
      obtain ⟨claim, hclaim, hkey⟩ := map_eq_some_iff.mp hkey
      exact ⟨e, claim, hid, hclaim, hkey⟩
    · rintro ⟨e, claim, hid, hclaim, hkey⟩
      exact ⟨e, hid, by rw [SessionEntry.claimKey, hclaim, map_some, hkey]⟩
  maxSessions := h.few
  maxSessionsPerScope := h.fewInScope
  maxSessionsPerActor := fun actorID => (h.actors.getD actorID).symm ▸ h.fewOfActor actorID
  maxTotalStateBytes := h.small

/-- **Bookkeeping.** However the sections of a runtime follow each other, and whatever the clock, the catalog and
the store do, the indexes say what the sessions are, and the limits hold. -/
theorem interaction_bookkeeping (config : Config) (hnew : Runtime.new config = some r) (calls : List (Env × Section)) :
    Consistent (sections.run r calls) :=
  ((kept_new hnew).sections calls).consistent

/-- One feature, whose sessions are durable. -/
def demoCatalog : Catalog where
  featureScope _ := some ⟨goString "demo", 1⟩
  hasAction _ _ := true
  durabilityVersion _ := goString "1"

/-- A session is created, and it expires while the store refuses to delete its row. -/
def refusedExpiry : List (Env × Section) :=
  [({ now := 0, catalog := demoCatalog }, .setDurableStore ∅),
    ({ now := 100, catalog := demoCatalog }, .create ⟨goString "demo", 1⟩ (goString "demo") { actorID := 7 } [1, 2, 3] 10
      [some (goString "AAAAAAAAAAAAAAAAAAAAAA")]),
    ({ now := 200, catalog := demoCatalog, deleteRefused := fun _ => true }, .pruneExpired)]

theorem interaction_bookkeeping_refused_expiry : ∃ r, Runtime.new {} = some r ∧ (sections.run r refusedExpiry).sessions.entries.length = 1 ∧
      (sections.run r refusedExpiry).expiries.items = #[0] ∧ Consistent (sections.run r refusedExpiry) :=
  ⟨_, rfl, by decide +kernel, by decide +kernel, interaction_bookkeeping {} rfl refusedExpiry⟩

end Goultroid.Interaction
