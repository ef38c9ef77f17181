/-!
# Machines that answer

A machine takes one call after another and answers each of them. What every call preserves holds after a whole
run, and two machines whose states stay related answer alike.
-/

/-- What a call does to the state, and its answer. -/
abbrev Machine (σ ι ω : Type) := σ → ι → σ × ω

namespace Machine

variable {σ ι ω : Type} (m : Machine σ ι ω)

def run (s : σ) (calls : List ι) : σ := calls.foldl (fun s call => (m s call).1) s

def answers : σ → List ι → List ω
  | _, [] => []
  | s, call :: calls => (m s call).2 :: answers (m s call).1 calls

/-- Every call finds a state in which it is allowed. -/
def Meets (ok : σ → ι → Prop) : σ → List ι → Prop
  | _, [] => True
  | s, call :: calls => ok s call ∧ Meets ok (m s call).1 calls

instance Meets.decidable (ok : σ → ι → Prop) [∀ s call, Decidable (ok s call)] :
    ∀ (s : σ) (calls : List ι), Decidable (m.Meets ok s calls)
  | _, [] => .isTrue trivial
  | s, call :: calls => @instDecidableAnd _ _ _ (Meets.decidable ok (m s call).1 calls)

variable {m} {ok : σ → ι → Prop} {s : σ}

theorem Meets.and {calls : List ι} {p : ι → Prop} (h : m.Meets ok s calls) (hp : ∀ call ∈ calls, p call) :
    m.Meets (fun s call => ok s call ∧ p call) s calls := by
  induction calls generalizing s with
  | nil => trivial
  | cons call calls ih => exact ⟨⟨h.1, hp call List.mem_cons_self⟩, ih h.2 fun c hc => hp c (List.mem_cons_of_mem _ hc)⟩

/-- What is said of a state and of the calls that led to it. -/
theorem run_invariant {P : List ι → σ → Prop} (hstart : P [] s)
    (hstep : ∀ calls call s, P calls s → P (calls ++ [call]) (m s call).1) (calls : List ι) : P calls (m.run s calls) := by
  suffices h : ∀ rest before s, P before s → P (before ++ rest) (m.run s rest) by
    simpa using h calls [] s hstart
  intro rest
  induction rest with
  | nil =>
    intro before s hs
    simpa [run] using hs
  | cons call rest ih =>
    intro before s hs
    have hnext := ih (before ++ [call]) _ (hstep before call s hs)
    simpa [run] using hnext

theorem answers_eq {τ : Type} {m' : Machine τ ι ω} {R : σ → τ → Prop}
    (hstep : ∀ s t call, R s t → ok s call → R (m s call).1 (m' t call).1 ∧ (m s call).2 = (m' t call).2) :
    ∀ {s : σ} {t : τ} {calls : List ι}, R s t → m.Meets ok s calls → m.answers s calls = m'.answers t calls := by
  intro s t calls
  induction calls generalizing s t with
  | nil => exact fun _ _ => rfl
  | cons call calls ih =>
    intro hrel ⟨hok, hmeets⟩
    obtain ⟨hrel', hanswer⟩ := hstep s t call hrel hok
    rw [answers, answers, hanswer, ih hrel' hmeets]

end Machine
