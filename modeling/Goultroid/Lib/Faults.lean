import Mathlib.Logic.Basic

/-!
# Procedures that may stop

A procedure changes a state by actions that outlive it. Each action may fail: it is refused, or an error is
reported of which the caller cannot tell whether the action took effect, or the procedure stops for good and
leaves the state as it is. What a procedure ensures is said of the state however it ends.

`Ensures.bind` and `Ensures.attempted` are the rules by which a procedure is walked through: each attempt is
split into its ends, and what has to hold where the procedure stops is shown on the spot.
-/

namespace Faults

inductive Fault where
  | refused
  | uncertain (applied : Bool)
  | crash
  deriving DecidableEq

inductive Answer where
  | done
  | refused
  | uncertain
  deriving DecidableEq

/-- The result, or nothing if the procedure stopped, and the state that it leaves. -/
def Proc (σ α : Type) := σ → Option α × σ

/-- An action that is attempted has its effect, whatever is reported. -/
def Effective (fault : Option Fault) : Prop := fault = none ∨ fault = some (.uncertain true)

instance (fault : Option Fault) : Decidable (Effective fault) :=
  inferInstanceAs (Decidable (fault = none ∨ fault = some (.uncertain true)))

namespace Proc

variable {σ α β : Type}

instance : Monad (Proc σ) where
  pure a := fun s => (some a, s)
  bind p f := fun s =>
    match p s with
    | (none, s') => (none, s')
    | (some a, s') => f a s'

/-- Attempts the action, which itself may refuse. -/
def attempt (fault : Option Fault) (action : σ → Option σ) : Proc σ Answer := fun s =>
  match fault with
  | none =>
    match action s with
    | some s' => (some .done, s')
    | none => (some .refused, s)
  | some .refused => (some .refused, s)
  | some (.uncertain applied) => (some .uncertain, if applied then (action s).getD s else s)
  | some .crash => (none, s)

/-- Reads the state: nothing is returned if the read fails. -/
def query (fault : Option Fault) (read : σ → α) : Proc σ (Option α) := fun s =>
  match fault with
  | none => (some (some (read s)), s)
  | some .crash => (none, s)
  | some _ => (some none, s)

def inspect (f : σ → α) : Proc σ α := fun s => (some (f s), s)

def modify (f : σ → σ) : Proc σ Unit := fun s => (some (), f s)

/-- What holds of the result and of the state, however the procedure ends. -/
def Ensures (p : Proc σ α) (s : σ) (Q : Option α → σ → Prop) : Prop := Q (p s).1 (p s).2

variable {p : Proc σ α} {s : σ} {Q : Option α → σ → Prop} {R : Option β → σ → Prop} {fault : Option Fault}

theorem ensures_pure {a : α} (h : Q (some a) s) : (pure a : Proc σ α).Ensures s Q := h

theorem Ensures.mono {Q' : Option α → σ → Prop} (h : p.Ensures s Q) (hQ : ∀ a s', Q a s' → Q' a s') : p.Ensures s Q' := hQ _ _ h

/-- The procedure stops in its first part, or its second part takes over. -/
theorem Ensures.bind {f : α → Proc σ β} (h : p.Ensures s Q) (hstop : ∀ s', Q none s' → R none s')
    (hnext : ∀ a s', Q (some a) s' → (f a).Ensures s' R) : (p >>= f).Ensures s R := by
  unfold Ensures at h ⊢
  show R (match p s with | (none, s') => (none, s') | (some a, s') => f a s').1
    (match p s with | (none, s') => (none, s') | (some a, s') => f a s').2
  cases hp : p s with
  | mk a s' =>
    rw [hp] at h
    cases a with
    | none => exact hstop s' h
    | some a => exact hnext a s' h

theorem ensures_inspect {f : α → Proc σ β} {g : σ → α} (h : (f (g s)).Ensures s R) : (inspect g >>= f).Ensures s R := h

theorem ensures_modify {f : Unit → Proc σ β} {g : σ → σ} (h : (f ()).Ensures (g s) R) : (modify g >>= f).Ensures s R := h

/-- What becomes of an action that is attempted: the state is as before, or as the action makes it. -/
inductive Attempted (fault : Option Fault) (refused : Prop) (kept made : σ → Prop) : Option Answer → σ → Prop where
  | crashed {s : σ} (hfault : fault = some .crash) (hs : kept s) : Attempted fault refused kept made none s
  | done {s : σ} (hfault : fault = none) (hs : made s) : Attempted fault refused kept made (some .done) s
  | applied {s : σ} (hfault : fault = some (.uncertain true)) (hs : made s) : Attempted fault refused kept made (some .uncertain) s
  | failed {s : σ} {answer : Answer} (hanswer : answer ≠ .done) (hwhy : ¬ Effective fault ∨ refused) (hs : kept s) :
    Attempted fault refused kept made (some answer) s

theorem Attempted.mono {refused refused' : Prop} {kept kept' made made' : σ → Prop} {result : Option Answer}
    (h : Attempted fault refused kept made result s) (href : refused → refused') (hkept : ∀ s, kept s → kept' s)
    (hmade : ∀ s, made s → made' s) : Attempted fault refused' kept' made' result s := by
  cases h with
  | crashed hfault hs => exact .crashed hfault (hkept _ hs)
  | done hfault hs => exact .done hfault (hmade _ hs)
  | applied hfault hs => exact .applied hfault (hmade _ hs)
  | failed hanswer hwhy hs => exact .failed hanswer (hwhy.imp_right href) (hkept _ hs)

theorem ensures_attempt {action : σ → Option σ} :
    (attempt fault action).Ensures s (Attempted fault (action s = none) (· = s) fun s' => action s = some s') := by
  unfold Ensures attempt
  cases fault with
  | none =>
    cases hact : action s with
    | none => exact .failed (by decide) (.inr rfl) rfl
    | some => exact .done rfl rfl
  | some fault =>
    cases fault with
    | refused => exact .failed (by decide) (.inl (by decide)) rfl
    | uncertain applied =>
      cases applied with
      | false => exact .failed (by decide) (.inl (by decide)) rfl
      | true =>
        cases hact : action s with
        | none => exact .failed (by decide) (.inr rfl) rfl
        | some => exact .applied rfl rfl
    | crash => exact .crashed rfl rfl

/-- An attempt and what follows it, for each of its ends. -/
theorem Ensures.attempted {p : Proc σ Answer} {f : Answer → Proc σ β} {refused : Prop} {kept made : σ → Prop}
    (h : p.Ensures s (Attempted fault refused kept made))
    (hstop : fault = some .crash → ∀ s', kept s' → R none s') (hdone : ∀ s', made s' → (f .done).Ensures s' R)
    (happlied : fault = some (.uncertain true) → ∀ s', made s' → (f .uncertain).Ensures s' R)
    (hfail : ∀ s', ¬ Effective fault ∨ refused → kept s' → (f .refused).Ensures s' R ∧ (f .uncertain).Ensures s' R) :
    (p >>= f).Ensures s R := by
  refine h.bind (fun s' hs' => ?_) fun answer s' hs' => ?_
  · cases hs' with
    | crashed hfault hs => exact hstop hfault s' hs
  · cases hs' with
    | done _ hs => exact hdone s' hs
    | applied hfault hs => exact happlied hfault s' hs
    | failed hanswer hwhy hs =>
      cases answer with
      | done => exact absurd rfl hanswer
      | refused => exact (hfail s' hwhy hs).1
      | uncertain => exact (hfail s' hwhy hs).2

/-- An action that is attempted without a fault, and has its effect. -/
theorem ensures_done {action : σ → Option σ} {f : Answer → Proc σ β} {s' : σ} (h : action s = some s') (hnext : (f .done).Ensures s' R) :
    (attempt none action >>= f).Ensures s R := by
  refine ensures_attempt.attempted (fun hfault => by cases hfault) (fun t ht => ?_) (fun hfault => by cases hfault) fun t hwhy _ => ?_
  · rw [h] at ht
    cases ht
    exact hnext
  · rcases hwhy with hwhy | hnone
    · exact absurd (.inl rfl) hwhy
    · rw [h] at hnone
      cases hnone

theorem bind_eq {f : α → Proc σ β} {a : α} {s' : σ} (h : p s = (some a, s')) : (p >>= f) s = f a s' := by
  show (match p s with | (none, s') => (none, s') | (some a, s') => f a s') = _
  rw [h]

theorem ensures_read {read : σ → α} {f : Option α → Proc σ β} (h : (f (some (read s))).Ensures s R) :
    (query none read >>= f).Ensures s R := h

theorem ensures_query {read : σ → α} {f : Option α → Proc σ β} (hstop : R none s) (hfail : (f none).Ensures s R)
    (hread : (f (some (read s))).Ensures s R) : (query fault read >>= f).Ensures s R := by
  cases fault with
  | none => exact ensures_read hread
  | some fault =>
    cases fault with
    | refused | uncertain => exact hfail
    | crash => exact hstop

end Proc

end Faults
