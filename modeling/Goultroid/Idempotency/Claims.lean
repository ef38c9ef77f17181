import Goultroid.Idempotency.Manager

/-!
# Claims are exclusive

The map and the table are two views of one book of claims, in which the table keeps every expiry to the
millisecond (`Manager.holds`, `Manager.round`). Each method of the manager is one operation on that book, or
fails with the database (`Obeys`).

`method_obeys` puts every method, over the map or the table, on one operation of the book, by the rules of
`Leases` for maps and for conditional statements; what is said of claims is then said of the book. Tokens
are drawn once, so that a key has one owner (`Issued`). For the comparison of map and table two managers are
run beside each other (`Twins`): they hold the same claims as long as times are whole milliseconds and no
eviction comes at the very moment of an expiry.
-/

namespace Goultroid.Idempotency

open List AList Option Table
open Leases (Book)

variable {key token : GoString} {i : Nat} {c : ExecutionClaim} {now : Time} {m : Manager} {ttl : Duration} {ms : Int} {fault : Option Fault}
  {result : Manager × Except Error Bool} {done : Bool} {op : Op} {trimSpace : GoString → GoString} {call : Call}

/-! ### The book of claims -/

/-- Who holds a key, in what state, and until when. -/
structure Hold where
  status : ClaimStatus
  token : GoString
  expiresAt : Time
  deriving DecidableEq

def Entry.hold (e : Entry) : Hold := ⟨e.status, e.token, e.expiresAt⟩

def Row.hold (row : Row) : Hold := ⟨row.status, row.claimToken, ofUnixMilli row.expiresAtMs⟩

namespace Hold

variable (h : Hold)

def live (now : Time) : Bool := decide (now < h.expiresAt)

def processing (token : GoString) : Bool := decide (h.status = .processing) && decide (h.token = token)

def held (token : GoString) : Bool := decide (h.status = .processing ∨ h.status = .reserved) && decide (h.token = token)

end Hold

namespace Manager

variable (m : Manager)

def holds : Book GoString Hold :=
  match m.repo with
  | some t => t.book.view Row.hold
  | none => m.entries.book.view Entry.hold

/-- A time, as the store keeps it. -/
def round (t : Time) : Time :=
  match m.repo with
  | some _ => ofUnixMilli (unixMilli t)
  | none => t

def Valid (key token : GoString) : Prop := ∃ h, m.holds key = some h ∧ h.held token = true

end Manager

theorem lt_ofUnixMilli {now : Int} : now < ofUnixMilli ms ↔ unixMilli now < ms := by
  unfold ofUnixMilli unixMilli
  omega

theorem ofUnixMilli_le : ofUnixMilli ms ≤ now ↔ ms ≤ unixMilli now := by
  rw [← not_lt, lt_ofUnixMilli, not_lt]

theorem Row.live_hold (row : Row) (now : Time) : row.hold.live now = !decide (row.expiresAtMs ≤ unixMilli now) := by
  rw [Hold.live, ← decide_not]
  refine decide_eq_decide.mpr ?_
  rw [Row.hold, lt_ofUnixMilli]
  omega

/-! ### The methods of the store -/

variable {target : Book GoString Hold × Bool}

/-- What becomes of the book when a method of the store asks for `target`. -/
inductive Carries (m : Manager) (fault : Option Fault) (target : Book GoString Hold × Bool) : Manager × Except Error Bool → Prop where
  | done (m' : Manager) (hholds : m'.holds = target.1) (hrepo : m'.repo.isSome = m.repo.isSome) : Carries m fault target (m', .ok target.2)
  | failed (m' : Manager) (e : Error) (hfault : fault ≠ none) (hholds : m'.holds = m.holds ∨ m'.holds = target.1)
    (hrepo : m'.repo.isSome = m.repo.isSome) : Carries m fault target (m', .error e)

/-- A method that is refused changes nothing, not even what the book does not show. -/
def Obeys (m : Manager) (fault : Option Fault) (target : Book GoString Hold × Bool) (result : Manager × Except Error Bool) : Prop :=
  Carries m fault target result ∧ (target.2 = false → result.1 = m)

theorem Obeys.refuse (m : Manager) : Obeys m fault (m.holds, false) (m, .ok false) := ⟨.done m rfl rfl, fun _ => rfl⟩

theorem Obeys.grant {b : Book GoString Hold} {m' : Manager} (hholds : m'.holds = b) (hrepo : m'.repo.isSome = m.repo.isSome) :
    Obeys m fault (b, true) (m', .ok true) :=
  ⟨.done m' hholds hrepo, fun hno => by cases hno⟩

section Store

variable {t : Keys} {moment : Time} {during : GoString}

theorem holds_of_repo (hrepo : m.repo = some t) : m.holds = t.book.view Row.hold := by
  rw [Manager.holds, hrepo]

theorem holds_of_map (hrepo : m.repo = none) : m.holds = m.entries.book.view Entry.hold := by
  rw [Manager.holds, hrepo]

theorem round_of_repo (hrepo : m.repo = some t) : m.round moment = ofUnixMilli (unixMilli moment) := by
  rw [Manager.round, hrepo]

theorem round_of_map (hrepo : m.repo = none) : m.round moment = moment := by
  rw [Manager.round, hrepo]

theorem exec_obeys {statement : Keys × Nat} (hrepo : m.repo = some t)
    (h : ((statement.1.book.view Row.hold, statement.2 == 1) : Book GoString Hold × Bool) = target)
    (href : (statement.2 == 1) = false → statement.1 = t) :
    Obeys m fault target (m.stored (SQLiteRepository.exec during fault t statement)) := by
  subst h
  have hsame : ({ m with repo := some t } : Manager) = m := by rw [← hrepo]
  have hsome : m.repo.isSome = true := by rw [hrepo]; rfl
  constructor
  · match fault with
    | none => exact .done { m with repo := some statement.1 } rfl hsome.symm
    | some (.rowsAffected text) => exact .failed { m with repo := some statement.1 } _ (by simp) (.inr rfl) hsome.symm
    | some (.exec true text) => exact .failed { m with repo := some statement.1 } _ (by simp) (.inr rfl) hsome.symm
    | some (.exec false text) => exact .failed { m with repo := some t } _ (by simp) (.inl (by rw [hsame])) hsome.symm
  · intro hno
    have hkept : ({ m with repo := some statement.1 } : Manager) = m := by rw [href hno, hsame]
    match fault with
    | none | some (.rowsAffected _) | some (.exec true _) => exact hkept
    | some (.exec false _) => exact hsame

theorem upsert_obeys {status : ClaimStatus} {expiresAt : Time} (hrepo : m.repo = some t) :
    Obeys m fault (m.holds.take (fun h => h.live now) key ⟨status, token, m.round expiresAt⟩)
      (m.stored (SQLiteRepository.exec during fault t
        (t.upsert (fun row => decide (row.expiresAtMs ≤ unixMilli now)) ⟨key, unixMilli now, unixMilli expiresAt, status, token⟩))) := by
  refine exec_obeys hrepo ?_ (upsert_refused t _ _)
  have htake := t.take_upsert (fun row => decide (row.expiresAtMs ≤ unixMilli now)) ⟨key, unixMilli now, unixMilli expiresAt, status, token⟩
  have hlive : (fun row : Row => !decide (row.expiresAtMs ≤ unixMilli now)) = fun row => row.hold.live now :=
    funext fun row => (row.live_hold now).symm
  rw [hlive] at htake
  have hview := Book.view_take (b := t.book) (g := Row.hold) (k := key) (fun h => h.live now)
    ⟨key, unixMilli now, unixMilli expiresAt, status, token⟩
  rw [holds_of_repo hrepo, round_of_repo hrepo]
  refine Eq.trans ?_ hview
  rw [← htake]

theorem insert_obeys (hrepo : m.repo = none) (e : Entry) :
    Obeys m fault (m.holds.take (fun h => h.live now) key e.hold)
      (if (m.entries.lookup key).any fun e => decide (now < e.expiresAt) then (m, .ok false)
        else ({ m with entries := m.entries.insert key e }, .ok true)) := by
  have hany : (m.holds key).any (fun h => h.live now) = (m.entries.lookup key).any fun e => decide (now < e.expiresAt) := by
    rw [holds_of_map hrepo, Book.any_view]
    rfl
  split_ifs with hbusy
  · rw [Book.take_of_busy (hany.trans hbusy)]
    exact .refuse m
  · rw [Book.take_of_free (hany.trans (Bool.eq_false_iff.mpr hbusy))]
    refine .grant ?_ rfl
    rw [holds_of_map hrepo, holds_of_map (m := { m with entries := m.entries.insert key e }) hrepo, book_insert, Book.view_update]
    rfl

theorem claim_obeys (m : Manager) (fault : Option Fault) (key : GoString) (now expiresAt : Time) :
    Obeys m fault (m.holds.take (fun h => h.live now) key ⟨.accepted, [], m.round expiresAt⟩) (m.claim fault key now expiresAt) := by
  unfold Manager.claim
  split
  · next t hrepo => exact upsert_obeys hrepo
  · next hrepo =>
    rw [round_of_map hrepo]
    exact insert_obeys hrepo { key := key, createdAt := now, expiresAt := expiresAt }

theorem beginClaim_obeys (m : Manager) (fault : Option Fault) (key token : GoString) (now expiresAt : Time) :
    Obeys m fault (m.holds.take (fun h => h.live now) key ⟨.processing, token, m.round expiresAt⟩)
      (m.beginClaim fault key token now expiresAt) := by
  unfold Manager.beginClaim
  split
  · next t hrepo => exact upsert_obeys hrepo
  · next hrepo =>
    rw [round_of_map hrepo]
    exact insert_obeys hrepo { key := key, token := token, status := .processing, createdAt := now, expiresAt := expiresAt }

theorem update_obeys {f : Row → Row} (hrepo : m.repo = some t) (hf : ∀ row, (f row).key = row.key)
    {f' : Hold → Hold} (hview : ∀ row, (f row).hold = f' row.hold) :
    Obeys m fault (m.holds.amend (fun h => h.processing token) key fun h => some (f' h)) (m.stored (SQLiteRepository.exec during fault t
        (t.update (fun row => decide (row.key = key) && SQLiteRepository.processing token row) f hf,
          t.count fun row => decide (row.key = key) && SQLiteRepository.processing token row))) := by
  refine exec_obeys hrepo ?_ (update_refused f hf)
  have hamend := amend_update (t := t) (k := key) (SQLiteRepository.processing token) f hf
  rw [holds_of_repo hrepo]
  refine Eq.trans ?_ (Book.view_amend (b := t.book) (g := Row.hold) (k := key) (fun h => h.processing token) (f := fun row => some (f row))
    fun row => congrArg some (hview row))
  exact congrArg (fun x : Book GoString Row × Bool => (x.1.view Row.hold, x.2)) hamend

theorem map_obeys {mine : Hold → Bool} {refused : Entry → Prop} (hrepo : m.repo = none) {f : Hold → Option Hold} [DecidablePred refused]
    (href : ∀ e, refused e ↔ mine e.hold = false) {next : Entry → AList fun _ : GoString => Entry}
    (hnext : ∀ e, (next e).book.view Entry.hold = Function.update m.holds key (f e.hold)) :
    Obeys m fault (m.holds.amend mine key f)
      (match m.entries.lookup key with
        | none => (m, .ok false)
        | some current => if refused current then (m, .ok false) else ({ m with entries := next current }, .ok true)) := by
  have hholds : m.holds key = (m.entries.lookup key).map Entry.hold := by
    rw [holds_of_map hrepo]
    rfl
  cases hlook : m.entries.lookup key with
  | none =>
    rw [hlook] at hholds
    rw [Book.amend_of_other (by rw [hholds]; rfl)]
    exact .refuse m
  | some current =>
    rw [hlook] at hholds
    simp only
    split_ifs with hother
    · rw [Book.amend_of_other (by rw [hholds]; exact (href current).mp hother)]
      exact .refuse m
    · have hmine : mine current.hold = true := by
        rw [href] at hother
        exact Bool.eq_true_of_not_eq_false hother
      rw [Book.amend_of_mine hholds hmine]
      refine .grant ?_ rfl
      rw [holds_of_map (m := { m with entries := next current }) hrepo]
      exact hnext current

theorem refused_processing (e : Entry) : (e.status ≠ .processing ∨ e.token ≠ token) ↔ e.hold.processing token = false := by
  rw [Hold.processing, Bool.and_eq_false_iff, decide_eq_false_iff_not, decide_eq_false_iff_not]
  rfl

theorem refused_held (e : Entry) : ((e.status ≠ .processing ∧ e.status ≠ .reserved) ∨ e.token ≠ token) ↔ e.hold.held token = false := by
  rw [Hold.held, Bool.and_eq_false_iff, decide_eq_false_iff_not, decide_eq_false_iff_not, not_or]
  rfl

theorem view_insert (hrepo : m.repo = none) (e : Entry) :
    (m.entries.insert key e).book.view Entry.hold = Function.update m.holds key (some e.hold) := by
  rw [book_insert, Book.view_update, holds_of_map hrepo]
  rfl

/-- The call of the store that a method of claim `c` makes. -/
def Op.method (op : Op) (c : ExecutionClaim) (fault : Option Fault) (m : Manager) : Manager × Except Error Bool :=
  match op with
  | .accept _ ttl now => m.acceptClaim fault c.key c.token (now + normalTTL ttl)
  | .reserve _ ttl now => m.reserveClaim fault c.key c.token (now + normalTTL ttl)
  | .release _ => m.releaseClaim fault c.key c.token
  | _ => (m, .ok false)

def Op.request (op : Op) (c : ExecutionClaim) (m : Manager) : Book GoString Hold × Bool :=
  match op with
  | .accept _ ttl now =>
    m.holds.amend (fun h => h.processing c.token) c.key fun _ => some ⟨.accepted, [], m.round (now + normalTTL ttl)⟩
  | .reserve _ ttl now =>
    m.holds.amend (fun h => h.processing c.token) c.key fun h => some { h with status := .reserved, expiresAt := m.round (now + normalTTL ttl) }
  | .release _ => m.holds.amend (fun h => h.held c.token) c.key fun _ => none
  | _ => (m.holds, false)

theorem method_obeys (op : Op) (c : ExecutionClaim) (fault : Option Fault) (m : Manager) :
    Obeys m fault (op.request c m) (op.method c fault m) := by
  cases op with
  | accept | reserve =>
    simp only [Op.method, Op.request, Manager.acceptClaim, Manager.reserveClaim]
    split
    · next t hrepo =>
      rw [round_of_repo hrepo]
      exact update_obeys hrepo _ fun _ => rfl
    · next hrepo =>
      rw [round_of_map hrepo]
      exact map_obeys hrepo refused_processing fun e => view_insert hrepo _
  | release =>
    simp only [Op.method, Op.request, Manager.releaseClaim]
    split
    · next t hrepo =>
      refine exec_obeys hrepo ?_ delete_refused
      have hamend := amend_delete (t := t) (k := c.key) (SQLiteRepository.held c.token)
      rw [holds_of_repo hrepo]
      refine Eq.trans ?_ (Book.view_amend (b := t.book) (g := Row.hold) (k := c.key) (fun h => h.held c.token) (f := fun _ => none) fun _ => rfl)
      exact congrArg (fun x : Book GoString Row × Bool => (x.1.view Row.hold, x.2)) hamend
    · next hrepo =>
      refine map_obeys hrepo refused_held fun e => ?_
      rw [book_erase, Book.view_update, holds_of_map hrepo]
      rfl
  | _ => exact .refuse m

/-- An eviction sweeps the book: the map keeps an entry at the very moment of its expiry, the table does not. -/
theorem holds_evictExpired_map {ended : Bool} (hrepo : m.repo = none) :
    (m.evictExpired fault now ended).holds = m.holds.sweep fun h => decide (h.expiresAt < now) := by
  have hevict : m.evictExpired fault now ended = { m with entries := m.entries.reject fun e => decide (e.expiresAt < now) } := by
    rw [Manager.evictExpired, hrepo]
  have hview := Book.view_sweep (b := m.entries.book) (g := Entry.hold) fun h => decide (h.expiresAt < now)
  rw [hevict, holds_of_map hrepo, ← hview, Manager.holds]
  simp only [hrepo]
  rw [book_reject]
  rfl

theorem holds_evictExpired_table (hrepo : m.repo = some t) :
    (m.evictExpired none now false).holds = m.holds.sweep fun h => decide (h.expiresAt ≤ now) := by
  have hevict : m.evictExpired none now false =
      { m with repo := some (t.delete fun row => decide (row.expiresAtMs ≤ unixMilli now)) } := by
    rw [Manager.evictExpired, hrepo]
    rfl
  have hdead : (fun row : Row => decide (row.expiresAtMs ≤ unixMilli now)) = fun row => decide (row.hold.expiresAt ≤ now) :=
    funext fun row => decide_eq_decide.mpr ofUnixMilli_le.symm
  have hview := Book.view_sweep (b := t.book) (g := Row.hold) fun h => decide (h.expiresAt ≤ now)
  rw [hevict, holds_of_repo hrepo, ← hview, ← hdead, ← book_delete]
  rfl

theorem isProcessed_eq : m.isProcessed none key now = .ok ((m.holds key).any fun h => h.live now) := by
  unfold Manager.isProcessed
  split
  · next t hrepo =>
    rw [SQLiteRepository.isProcessed, count_key, holds_of_repo hrepo, Book.any_view]
    have hlive : (fun row : Row => decide (unixMilli now < row.expiresAtMs)) = fun row => row.hold.live now :=
      funext fun row => decide_eq_decide.mpr lt_ofUnixMilli.symm
    rw [hlive]
    cases (t.book key).any fun row => row.hold.live now <;> rfl
  · next hrepo =>
    rw [holds_of_map hrepo, Book.any_view]
    rfl

theorem not_processing (h : ¬ m.Valid key token) : (m.holds key).any (fun h => h.processing token) = false := by
  refine Bool.eq_false_iff.mpr fun hany => ?_
  obtain ⟨found, hfound, hmine⟩ := (any_eq_true _ _).mp hany
  refine h ⟨found, hfound, ?_⟩
  rw [Hold.processing, Bool.and_eq_true, decide_eq_true_eq] at hmine
  rw [Hold.held, Bool.and_eq_true, decide_eq_true_eq]
  exact ⟨.inl hmine.1, hmine.2⟩

theorem not_held (h : ¬ m.Valid key token) : (m.holds key).any (fun h => h.held token) = false := by
  refine Bool.eq_false_iff.mpr fun hany => ?_
  obtain ⟨found, hfound, hmine⟩ := (any_eq_true _ _).mp hany
  exact h ⟨found, hfound, hmine⟩

theorem request_refused (op : Op) (h : ¬ m.Valid c.key c.token) : (op.request c m).2 = false := by
  cases op with
  | accept | reserve => rw [Op.request, Book.amend_of_other (not_processing h)]
  | release => rw [Op.request, Book.amend_of_other (not_held h)]
  | _ => rfl

end Store

/-! ### Calls -/

def Op.claim? : Op → Option Nat
  | .accept i .. | .reserve i .. | .release i => some i
  | _ => none

def Op.asks? (trimSpace : GoString → GoString) : Op → Option (GoString × Time)
  | .begin key _ now _ | .checkAndSet key _ now => some (trimSpace key, now)
  | _ => none

def Op.token? : Op → Option GoString
  | .begin _ _ _ (.ok token) => some token
  | _ => none

def Answer.granted : Answer → Bool
  | .begun (some _) | .flag true | .done => true
  | _ => false

def State.Owns (s : State) (i : Nat) : Prop := ∃ c, s.claims[i]? = some c ∧ c.done = false ∧ s.manager.Valid c.key c.token

def drawn (calls : List Call) : List GoString := calls.filterMap fun call => call.op.token?

theorem Manager.Valid.unique {token' : GoString} (h : m.Valid key token) (h' : m.Valid key token') : token = token' := by
  obtain ⟨_, hfound, hheld⟩ := h
  obtain ⟨_, hfound', hheld'⟩ := h'
  obtain rfl := mem_unique hfound hfound'
  simp only [Hold.held, Bool.and_eq_true, decide_eq_true_eq] at hheld hheld'
  exact hheld.2.symm.trans hheld'.2

section Carried

theorem Carries.works (h : Carries m none target result) :
    ∃ m', result = (m', .ok target.2) ∧ m'.holds = target.1 ∧ m'.repo.isSome = m.repo.isSome := by
  cases h with
  | done m' hholds hrepo => exact ⟨m', rfl, hholds, hrepo⟩
  | failed m' e hfault => exact absurd rfl hfault

theorem Obeys.refused (h : Obeys m fault target result) (hno : target.2 = false) : result.1 = m ∧ result.2 ≠ .ok true := by
  refine ⟨h.2 hno, ?_⟩
  cases h.1 with
  | done => simp [hno]
  | failed => simp

end Carried

section Served

variable {s : State}

theorem settle_refused (h : result.1 = s.manager ∧ result.2 ≠ .ok true) :
    (s.settle i c done result).1 = s ∧ (s.settle i c done result).2 ≠ .done := by
  obtain ⟨m, answer⟩ := result
  obtain rfl : m = s.manager := h.1
  match answer with
  | .error e => exact ⟨rfl, by simp [State.settle]⟩
  | .ok false => exact ⟨rfl, by simp [State.settle]⟩
  | .ok true => exact absurd rfl h.2

/-- A method of a claim makes its call of the store unless the claim is over. -/
theorem serve_method (trimSpace : GoString → GoString) (hclaim : op.claim? = some i) : ∃ done ended, ∀ fault s,
    serve trimSpace s ⟨op, fault⟩ = (s.claims[i]?).elim (s, .done) fun c =>
      if c.done then (s, ended) else s.settle i c done (op.method c fault s.manager) := by
  cases op with
  | accept j =>
    obtain rfl : j = i := some.inj hclaim
    refine ⟨true, .done, fun fault s => ?_⟩
    simp only [serve, State.accept]
    cases s.claims[j]? <;> rfl
  | reserve j =>
    obtain rfl : j = i := some.inj hclaim
    refine ⟨false, .error .claimNotOwned, fun fault s => ?_⟩
    simp only [serve, State.reserve]
    cases s.claims[j]? <;> rfl
  | release j =>
    obtain rfl : j = i := some.inj hclaim
    refine ⟨true, .done, fun fault s => ?_⟩
    simp only [serve, State.release]
    cases s.claims[j]? <;> rfl
  | _ => cases hclaim

theorem serve_not_owner (hclaim : call.op.claim? = some i) (hnot : ¬ s.Owns i) : (serve trimSpace s call).1 = s ∧
      ∀ c, s.claims[i]? = some c → c.done = false → (serve trimSpace s call).2 ≠ .done := by
  obtain ⟨op, fault⟩ := call
  obtain ⟨done, ended, hserve⟩ := serve_method trimSpace hclaim
  rw [hserve]
  cases hc : s.claims[i]? with
  | none => exact ⟨rfl, fun c hc' => by cases hc'⟩
  | some c =>
    rw [elim_some]
    split_ifs with hopen
    · exact ⟨rfl, fun c' hc' hopen' => by cases hc'; rw [hopen] at hopen'; cases hopen'⟩
    · have hother := request_refused (m := s.manager) (c := c) op fun hvalid =>
        hnot ⟨c, hc, Bool.eq_false_iff.mpr hopen, hvalid⟩
      obtain ⟨hsame, hno⟩ := settle_refused ((method_obeys op c fault s.manager).refused hother)
      exact ⟨hsame, fun _ _ _ => hno⟩

theorem serve_live {h : Hold} (hasks : call.op.asks? trimSpace = some (key, now))
    (hholds : s.manager.holds key = some h) (hlive : now < h.expiresAt) :
    (serve trimSpace s call).1 = s ∧ (serve trimSpace s call).2.granted = false := by
  have hbusy : (s.manager.holds key).any (fun h => h.live now) = true := by
    rw [hholds]
    exact decide_eq_true hlive
  obtain ⟨op, fault⟩ := call
  cases op with
  | begin key' ttl _ random =>
    cases hasks
    simp only [serve, State.begin]
    split_ifs
    · exact ⟨rfl, rfl⟩
    · cases newClaimToken random with
      | error => exact ⟨rfl, rfl⟩
      | ok token =>
        obtain ⟨hsame, href⟩ := (beginClaim_obeys s.manager fault (trimSpace key') token now (now + normalTTL ttl)).refused
          (by rw [Book.take_of_busy hbusy])
        simp only
        generalize s.manager.beginClaim fault (trimSpace key') token now (now + normalTTL ttl) = result at hsame href
        obtain ⟨m, answer⟩ := result
        obtain rfl : m = s.manager := hsame
        match answer with
        | .error e => exact ⟨rfl, rfl⟩
        | .ok false => exact ⟨rfl, rfl⟩
        | .ok true => exact absurd rfl href
  | checkAndSet key' ttl =>
    cases hasks
    simp only [serve, State.checkAndSet]
    split_ifs
    · exact ⟨rfl, rfl⟩
    · obtain ⟨hsame, href⟩ := (claim_obeys s.manager fault (trimSpace key') now (now + normalTTL ttl)).refused
        (by rw [Book.take_of_busy hbusy])
      generalize s.manager.claim fault (trimSpace key') now (now + normalTTL ttl) = result at hsame href
      obtain ⟨m, answer⟩ := result
      obtain rfl : m = s.manager := hsame
      match answer with
      | .error e => exact ⟨rfl, rfl⟩
      | .ok false => exact ⟨rfl, rfl⟩
      | .ok true => exact absurd rfl href
  | _ => cases hasks

theorem serve_release (hc : s.claims[i]? = some c) (hopen : c.done = false) (hvalid : s.manager.Valid c.key c.token) :
    (serve trimSpace s ⟨.release i, none⟩).2 = .done ∧ (serve trimSpace s ⟨.release i, none⟩).1.manager.holds c.key = none := by
  obtain ⟨h, hholds, hheld⟩ := hvalid
  obtain ⟨m', hres, hholds', -⟩ := (method_obeys (.release i) c none s.manager).1.works
  rw [Op.request, Book.amend_of_mine hholds hheld] at hres hholds'
  rw [Op.method] at hres
  have hserve : serve trimSpace s ⟨.release i, none⟩ = ({ manager := m', claims := s.claims.set i { c with done := true } }, .done) := by
    simp only [serve, State.release, hc, hopen, hres]
    rfl
  rw [hserve]
  refine ⟨rfl, ?_⟩
  rw [hholds']
  exact Function.update_self ..

theorem serve_free (hkey : trimSpace key ≠ []) (hfree : s.manager.holds (trimSpace key) = none) :
    (serve trimSpace s ⟨.begin key ttl now (.ok token), none⟩).2 = .begun (some s.claims.length) ∧
      (serve trimSpace s ⟨.checkAndSet key ttl now, none⟩).2 = .flag true := by
  have hnone : (s.manager.holds (trimSpace key)).any (fun h => h.live now) = false := by
    rw [hfree]
    rfl
  obtain ⟨m1, hbegin, -⟩ := (beginClaim_obeys s.manager none (trimSpace key) token now (now + normalTTL ttl)).1.works
  obtain ⟨m2, hclaim, -⟩ := (claim_obeys s.manager none (trimSpace key) now (now + normalTTL ttl)).1.works
  rw [Book.take_of_free hnone] at hbegin hclaim
  constructor
  · simp only [serve, State.begin, newClaimToken, if_neg hkey, hbegin]
  · simp only [serve, State.checkAndSet, if_neg hkey, hclaim]

end Served

/-! ### Runs -/

section Runs

variable {s : State} {calls : List Call}

inductive Hands (op : Op) (claims : List ExecutionClaim) : List ExecutionClaim → Prop where
  | same : Hands op claims claims
  | new (key token : GoString) (hkey : key ≠ []) (htoken : op.token? = some token) : Hands op claims (claims ++ [⟨key, token, false⟩])
  | closed (i : Nat) (c : ExecutionClaim) (done : Bool) (hc : claims[i]? = some c) : Hands op claims (claims.set i { c with done := done })

theorem hands_settle (hc : s.claims[i]? = some c) : Hands op s.claims (s.settle i c done result).1.claims := by
  obtain ⟨m, answer⟩ := result
  match answer with
  | .error e => exact .same
  | .ok false => exact .same
  | .ok true => exact .closed i c done hc

theorem hands_method (hclaim : op.claim? = some i) : Hands op s.claims (serve trimSpace s ⟨op, fault⟩).1.claims := by
  obtain ⟨done, ended, hserve⟩ := serve_method trimSpace hclaim
  rw [hserve]
  cases hc : s.claims[i]? with
  | none => exact .same
  | some c =>
    rw [elim_some]
    split_ifs
    · exact .same
    · exact hands_settle hc

theorem serve_hands (trimSpace : GoString → GoString) (s : State) (call : Call) :
    Hands call.op s.claims (serve trimSpace s call).1.claims := by
  obtain ⟨op, _⟩ := call
  cases op with
  | begin key ttl now random =>
    simp only [serve, State.begin]
    split_ifs with hkey
    · exact .same
    · cases random with
      | error => exact .same
      | ok =>
        simp only [newClaimToken]
        split
        · exact .same
        · exact .same
        · exact .new _ _ hkey rfl
  | accept | reserve | release => exact hands_method rfl
  | checkAndSet =>
    simp only [serve, State.checkAndSet]
    split_ifs
    · exact .same
    · split <;> exact .same
  | isProcessed | evictExpired => exact .same

/-- The claims carry tokens that were drawn, in the order in which they were drawn. -/
structure Issued (calls : List Call) (s : State) : Prop where
  tokens : (s.claims.map ExecutionClaim.token).Sublist (drawn calls)
  keys : ∀ c ∈ s.claims, c.key ≠ []

theorem Issued.serve (h : Issued calls s) (call : Call) : Issued (calls ++ [call]) (serve trimSpace s call).1 := by
  have hdrawn : drawn (calls ++ [call]) = drawn calls ++ drawn [call] := filterMap_append
  have hhands := serve_hands trimSpace s call
  refine ⟨?_, ?_⟩
  · rw [hdrawn]
    generalize (Idempotency.serve trimSpace s call).1.claims = claims at hhands
    cases hhands with
    | same => exact h.tokens.trans (sublist_append_left ..)
    | new key token hkey htoken =>
      have hlast : drawn [call] = [token] := by simp [drawn, htoken]
      rw [map_append, hlast]
      exact h.tokens.append (List.Sublist.refl _)
    | closed i c done hc =>
      have hsame : (s.claims.set i { c with done := done }).map ExecutionClaim.token = s.claims.map ExecutionClaim.token := by
        obtain ⟨hlt, rfl⟩ := List.getElem?_eq_some_iff.mp hc
        have hlt' : i < (s.claims.map ExecutionClaim.token).length := by simpa using hlt
        have htoken : s.claims[i].token = (s.claims.map ExecutionClaim.token)[i] := by simp
        rw [map_set, htoken]
        exact set_getElem_self _
      rw [hsame]
      exact h.tokens.trans (sublist_append_left ..)
  · generalize (Idempotency.serve trimSpace s call).1.claims = claims at hhands
    intro c hmem
    cases hhands with
    | same => exact h.keys c hmem
    | new key token hkey =>
      rcases mem_append.mp hmem with hmem | hmem
      · exact h.keys c hmem
      · rw [mem_singleton.mp hmem]
        exact hkey
    | closed i c' done hc =>
      rcases mem_or_eq_of_mem_set hmem with hmem | rfl
      · exact h.keys c hmem
      · exact h.keys c' (mem_of_getElem? hc)

theorem issued_run (trimSpace : GoString → GoString) (hs : s.claims = []) (calls : List Call) :
    Issued calls ((serve trimSpace).run s calls) :=
  Machine.run_invariant (P := Issued) ⟨by rw [hs]; exact nil_sublist _, by rw [hs]; simp⟩ (fun _ call _ h => h.serve call) calls

theorem Issued.owner_unique {j : Nat} {c' : ExecutionClaim} (h : Issued calls s) (hfresh : (drawn calls).Nodup)
    (hc : s.claims[i]? = some c) (hc' : s.claims[j]? = some c') (hkey : c.key = c'.key) (howns : s.Owns i) (howns' : s.Owns j) : i = j := by
  obtain ⟨c1, hc1, -, hvalid⟩ := howns
  obtain ⟨c2, hc2, -, hvalid'⟩ := howns'
  obtain rfl := mem_unique hc hc1
  obtain rfl := mem_unique hc' hc2
  rw [hkey] at hvalid
  have htoken := hvalid.unique hvalid'
  have hlt : i < (s.claims.map ExecutionClaim.token).length := by
    rw [length_map]
    exact (List.getElem?_eq_some_iff.mp hc).1
  refine (getElem?_inj hlt (hfresh.sublist h.tokens)).mp ?_
  rw [getElem?_map, getElem?_map, hc, hc']
  exact congrArg some htoken

end Runs

/-! ### The map and the table -/

def Op.wholeMs : Op → Prop
  | .begin _ ttl now _ | .accept _ ttl now | .reserve _ ttl now | .checkAndSet _ ttl now => now % 1000000 = 0 ∧ ttl % 1000000 = 0
  | .isProcessed _ now | .evictExpired now _ => now % 1000000 = 0
  | .release _ => True

/-- No eviction comes at the very moment of an expiry, or when the context of the worker is over. -/
def Apart (s : State) (call : Call) : Prop :=
  ∀ now ended, call.op = .evictExpired now ended → ended = false ∧ ∀ key h, s.manager.holds key = some h → h.expiresAt ≠ now

/-- One manager has a map, the other one a table, and they hold the same claims. -/
structure Twins (s t : State) : Prop where
  map : s.manager.repo = none
  table : t.manager.repo.isSome = true
  holds : s.manager.holds = t.manager.holds
  claims : s.claims = t.claims

theorem twins_start : Twins inMemory (durable .empty) := ⟨rfl, rfl, rfl, rfl⟩

theorem ofUnixMilli_unixMilli {t : Int} (h : t % 1000000 = 0) : ofUnixMilli (unixMilli t) = t := by
  have hzero : (t - 62135596800000000000) % 1000000 = 0 := by omega
  rw [ofUnixMilli, unixMilli, Int.ediv_mul_cancel (Int.dvd_of_emod_eq_zero hzero)]
  exact Int.sub_add_cancel ..

theorem normalTTL_wholeMs (h : ttl % 1000000 = 0) : normalTTL ttl % 1000000 = 0 := by
  unfold normalTTL
  split_ifs
  · decide
  · exact h

section Twins

section

variable {s t : State} (h : Twins s t) {result' : Manager × Except Error Bool}
include h

theorem Twins.round (hwhole : now % 1000000 = 0 ∧ ttl % 1000000 = 0) :
    s.manager.round (now + normalTTL ttl) = t.manager.round (now + normalTTL ttl) := by
  obtain ⟨_, hrows⟩ := isSome_iff_exists.mp h.table
  have hsum : (now + normalTTL ttl) % 1000000 = 0 := by
    rw [Int.add_emod, hwhole.1, normalTTL_wholeMs hwhole.2]
    rfl
  rw [round_of_map h.map, round_of_repo hrows, ofUnixMilli_unixMilli hsum]

/-- Two methods that ask for the same end alike. -/
theorem Twins.carries (hleft : Carries s.manager none target result) (hright : Carries t.manager none target result') :
    ∃ m m', result = (m, .ok target.2) ∧ result' = (m', .ok target.2) ∧ m.repo = none ∧ m'.repo.isSome = true ∧ m.holds = m'.holds := by
  obtain ⟨m, hres, hholds, hrepo⟩ := hleft.works
  obtain ⟨m', hres', hholds', hrepo'⟩ := hright.works
  refine ⟨m, m', hres, hres', ?_, hrepo'.trans h.table, hholds.trans hholds'.symm⟩
  rw [h.map] at hrepo
  exact isSome_eq_false_iff.mp hrepo |> isNone_iff_eq_none.mp

theorem Twins.settle (hleft : Carries s.manager none target result) (hright : Carries t.manager none target result') :
    Twins (s.settle i c done result).1 (t.settle i c done result').1 ∧ (s.settle i c done result).2 = (t.settle i c done result').2 := by
  obtain ⟨m, m', rfl, rfl, hrepo, hrepo', hholds⟩ := h.carries hleft hright
  cases target.2 with
  | false => exact ⟨⟨hrepo, hrepo', hholds, h.claims⟩, rfl⟩
  | true => exact ⟨⟨hrepo, hrepo', hholds, by simp only [State.settle, h.claims]⟩, rfl⟩

theorem Twins.method (hclaim : op.claim? = some i) (hwhole : op.wholeMs) :
    Twins (serve trimSpace s ⟨op, none⟩).1 (serve trimSpace t ⟨op, none⟩).1 ∧
      (serve trimSpace s ⟨op, none⟩).2 = (serve trimSpace t ⟨op, none⟩).2 := by
  obtain ⟨done, ended, hserve⟩ := serve_method trimSpace hclaim
  rw [hserve, hserve, h.claims]
  cases t.claims[i]? with
  | none => exact ⟨h, rfl⟩
  | some c =>
    have hreq : op.request c s.manager = op.request c t.manager := by
      cases op with
      | accept _ ttl now | reserve _ ttl now => simp only [Op.request, h.holds, h.round hwhole]
      | _ => simp only [Op.request, h.holds]
    rw [elim_some, elim_some]
    split_ifs
    · exact ⟨h, rfl⟩
    · have hleft := (method_obeys op c none s.manager).1
      rw [hreq] at hleft
      exact h.settle hleft (method_obeys op c none t.manager).1

theorem Twins.evict (hapart : ∀ key h, s.manager.holds key = some h → h.expiresAt ≠ now) :
    (s.manager.evictExpired none now false).holds = (t.manager.evictExpired none now false).holds := by
  obtain ⟨_, hrows⟩ := isSome_iff_exists.mp h.table
  rw [holds_evictExpired_map h.map, holds_evictExpired_table hrows, ← h.holds]
  funext key
  show (s.manager.holds key).filter _ = (s.manager.holds key).filter _
  cases hkey : s.manager.holds key with
  | none => rfl
  | some found =>
    have hne := hapart key found hkey
    have hiff : decide (found.expiresAt < now) = decide (found.expiresAt ≤ now) :=
      decide_eq_decide.mpr ⟨le_of_lt, fun hle => lt_of_le_of_ne hle hne⟩
    simp only [filter_some, hiff]

theorem Twins.serve (hfault : call.fault = none) (hwhole : call.op.wholeMs) (hapart : Apart s call) :
    Twins (serve trimSpace s call).1 (serve trimSpace t call).1 ∧ (serve trimSpace s call).2 = (serve trimSpace t call).2 := by
  obtain ⟨op, fault⟩ := call
  obtain rfl : fault = none := hfault
  cases op with
  | begin key ttl now random =>
    simp only [Idempotency.serve, State.begin]
    split_ifs
    · exact ⟨h, rfl⟩
    · cases newClaimToken random with
      | error => exact ⟨h, rfl⟩
      | ok token =>
        have hleft := (beginClaim_obeys s.manager none (trimSpace key) token now (now + normalTTL ttl)).1
        rw [h.holds, h.round hwhole] at hleft
        obtain ⟨m, m', heq, heq', hrepo, hrepo', hholds⟩ := h.carries hleft (beginClaim_obeys t.manager none (trimSpace key) token now _).1
        generalize (Book.take _ _ _ t.manager.holds).2 = granted at heq heq'
        simp only [heq, heq', h.claims]
        cases granted with
        | false | true => exact ⟨⟨hrepo, hrepo', hholds, rfl⟩, rfl⟩
  | accept | reserve | release => exact h.method rfl hwhole
  | checkAndSet key ttl now =>
    simp only [Idempotency.serve, State.checkAndSet]
    split_ifs
    · exact ⟨h, rfl⟩
    · have hleft := (claim_obeys s.manager none (trimSpace key) now (now + normalTTL ttl)).1
      rw [h.holds, h.round hwhole] at hleft
      obtain ⟨m, m', heq, heq', hrepo, hrepo', hholds⟩ := h.carries hleft (claim_obeys t.manager none (trimSpace key) now _).1
      rw [heq, heq']
      exact ⟨⟨hrepo, hrepo', hholds, h.claims⟩, rfl⟩
  | isProcessed =>
    refine ⟨h, ?_⟩
    simp only [Idempotency.serve, State.isProcessed, isProcessed_eq, h.holds]
  | evictExpired now ended =>
    obtain ⟨rfl, hnever⟩ := hapart now ended rfl
    obtain ⟨_, hrows⟩ := isSome_iff_exists.mp h.table
    refine ⟨⟨?_, ?_, h.evict hnever, h.claims⟩, rfl⟩
    · show (s.manager.evictExpired none now false).repo = none
      rw [Manager.evictExpired, h.map]
    · show (t.manager.evictExpired none now false).repo.isSome = true
      rw [Manager.evictExpired, hrows]
      rfl

end

end Twins

/-- Whatever is called, at whatever times and however the database fails: one token of a key is valid, and one claim owns a key; a claim
that does not own its key changes nothing; a key with a live entry is not given away; and a key that its owner releases is free. A map and
a table answer alike, in whole milliseconds and unless an eviction comes at the very moment of an expiry or after the end of the worker. -/
theorem claims_exclusive (trimSpace : GoString → GoString) :
    (∀ (start : State) (calls : List Call), start.claims = [] → (drawn calls).Nodup →
      let s := (serve trimSpace).run start calls
      (∀ key token token', s.manager.Valid key token → s.manager.Valid key token' → token = token') ∧
      (∀ (i j : Nat) (c c' : ExecutionClaim), s.claims[i]? = some c → s.claims[j]? = some c' → c.key = c'.key → s.Owns i → s.Owns j → i = j) ∧
      (∀ call i, call.op.claim? = some i → ¬ s.Owns i → (serve trimSpace s call).1 = s ∧
        ∀ c, s.claims[i]? = some c → c.done = false → (serve trimSpace s call).2 ≠ .done) ∧
      (∀ call key now h, call.op.asks? trimSpace = some (key, now) → s.manager.holds key = some h → now < h.expiresAt →
        (serve trimSpace s call).1 = s ∧ (serve trimSpace s call).2.granted = false) ∧
      ∀ (i : Nat) (c : ExecutionClaim), s.claims[i]? = some c → s.Owns i →
        let released := serve trimSpace s ⟨.release i, none⟩
        released.2 = .done ∧ ∀ key ttl now token, trimSpace key = c.key →
          (serve trimSpace released.1 ⟨.begin key ttl now (.ok token), none⟩).2 = .begun (some released.1.claims.length) ∧
          (serve trimSpace released.1 ⟨.checkAndSet key ttl now, none⟩).2 = .flag true) ∧
    ∀ calls : List Call, (∀ call ∈ calls, call.fault = none ∧ call.op.wholeMs) → (serve trimSpace).Meets Apart inMemory calls →
      (serve trimSpace).answers inMemory calls = (serve trimSpace).answers (durable .empty) calls := by
  refine ⟨fun start calls hstart hfresh => ?_, fun calls hcalls hmeets => ?_⟩
  · have hissued := issued_run trimSpace hstart calls
    refine ⟨fun key token token' hvalid hvalid' => hvalid.unique hvalid',
      fun i j c c' hc hc' hkey howns howns' => hissued.owner_unique hfresh hc hc' hkey howns howns',
      fun call i hclaim hnot => serve_not_owner hclaim hnot, fun call key now h hasks hholds hlive => serve_live hasks hholds hlive,
      fun i c hc howns => ?_⟩
    obtain ⟨c', hc', hopen, hvalid⟩ := howns
    obtain rfl := mem_unique hc hc'
    obtain ⟨hdone, hfree⟩ := serve_release hc hopen hvalid
    refine ⟨hdone, fun key ttl now token hkey => ?_⟩
    exact serve_free (hkey ▸ hissued.keys c (mem_of_getElem? hc)) (hkey ▸ hfree)
  · have hok := hmeets.and hcalls
    refine Machine.answers_eq (R := Twins) (fun s t call htwins hcall => ?_) twins_start hok
    exact htwins.serve hcall.2.1 hcall.2.2 hcall.1

/-! ### An eviction at the moment of an expiry -/

/-- A claim for a second, an eviction at this moment, and an acceptance. -/
def callsWithEviction (now : Time) : List Call :=
  [⟨.begin (goString "k") 1000000000 0 (.ok (goString "t")), none⟩, ⟨.evictExpired now false, none⟩, ⟨.accept 0 1000000000 now, none⟩]

theorem callsWithEviction_served (hnow : now % 1000000 = 0) : ∀ call ∈ callsWithEviction now, call.fault = none ∧ call.op.wholeMs := by
  intro call hmem
  simp only [callsWithEviction, mem_cons, not_mem_nil, or_false] at hmem
  rcases hmem with rfl | rfl | rfl
  · exact ⟨rfl, rfl, rfl⟩
  · exact ⟨rfl, hnow⟩
  · exact ⟨rfl, hnow, rfl⟩

theorem claims_exclusive_late_eviction : (drawn (callsWithEviction 2000000000)).Nodup ∧
    ((serve id).run inMemory (callsWithEviction 2000000000)).claims.length = 1 ∧
    (∀ key token token', ((serve id).run inMemory (callsWithEviction 2000000000)).manager.Valid key token →
      ((serve id).run inMemory (callsWithEviction 2000000000)).manager.Valid key token' → token = token') ∧
    (serve id).answers inMemory (callsWithEviction 2000000000) = [.begun (some 0), .done, .error .claimNotOwned] ∧
    (serve id).answers inMemory (callsWithEviction 2000000000) = (serve id).answers (durable .empty) (callsWithEviction 2000000000) := by
  have hfresh : (drawn (callsWithEviction 2000000000)).Nodup := by decide
  obtain ⟨hexclusive, hagree⟩ := claims_exclusive id
  refine ⟨hfresh, by decide, (hexclusive inMemory _ rfl hfresh).1, by decide, hagree _ (callsWithEviction_served rfl) ?_⟩
  refine ⟨fun now ended hop => (nomatch hop), fun now ended hop => ?_, fun now ended hop => (nomatch hop), trivial⟩
  cases hop
  refine ⟨rfl, fun key h hholds => ?_⟩
  have hent : (serve id inMemory ⟨.begin (goString "k") 1000000000 0 (.ok (goString "t")), none⟩).1.manager.entries =
      AList.insert (goString "k") ⟨goString "k", goString "t", .processing, 0, 1000000000⟩ ∅ := rfl
  rw [holds_of_map rfl, hent, book_insert, Book.view_update, Function.update_apply] at hholds
  split_ifs at hholds
  · cases hholds
    decide
  · cases hholds

/-- The map keeps the claim, the table drops it. -/
theorem eviction_at_expiry_differs : (∀ call ∈ callsWithEviction 1000000000, call.fault = none ∧ call.op.wholeMs) ∧
    (serve id).answers inMemory (callsWithEviction 1000000000) = [.begun (some 0), .done, .done] ∧
    (serve id).answers (durable .empty) (callsWithEviction 1000000000) = [.begun (some 0), .done, .error .claimNotOwned] :=
  ⟨callsWithEviction_served rfl, by decide, by decide⟩

end Goultroid.Idempotency
