import Goultroid.Jobs.Manager
import Goultroid.Lib.Text

/-!
# Revisions of definitions

`Manager.Register`, `Start`, `UpdateDefinition` and `DeleteDefinition` over the table `job_definitions`
(`sqlite/resource_store.go`), one call after the other. Every statement may fail without an effect. A revision is
counted by the upsert and by the compare-and-set of the table, and remembered by the manager.

`Coherent` is kept by every call but a registration that does not fit: `Start` loads rows of the table
(`load_coherent`), an update stores the revision that it remembers afterwards, and a registration remembers its
own revision, which is the stored one if it found no row or counted up to it (`Fits`). After one that does not
fit the two revisions differ, which is the other direction.
-/

namespace Goultroid.Jobs

open List AList

/-- A definition with the columns that the drivers do not read. -/
structure Definition extends JobDefinition where
  scopeOwner : GoString
  quotaOwner : GoString
  version : Int := 0
  payload : List UInt8 := []
  pool : GoString := []
  cls : GoString := []
  resources : List ResourceRequirement := []
  revision : Nat := 0
  deriving DecidableEq

abbrev Definitions := AList fun _ : GoString => Definition

inductive DefinitionError where
  | required
  | resources
  | registered
  | unknownHandler
  | notFound
  | conflict
  | started
  | active
  | store
  deriving DecidableEq

def validateJobResources (resources : List ResourceRequirement) : Bool :=
  resources.all (fun r => r.name != [] && r.name == Text.trimSpace r.name && decide (0 < r.amount)) &&
    decide (resources.map (·.name)).Nodup

/-! ### The table -/

/-- The timeout is stored in milliseconds. -/
def Definition.row (d : Definition) (revision : Nat) : Definition :=
  { d with timeout := d.timeout.tdiv 1000000 * 1000000, revision := revision }

/-- `ON CONFLICT(id) DO UPDATE SET … revision = revision + 1`. -/
def Definitions.save (table : Definitions) (d : Definition) : Definitions :=
  table.insert d.id (d.row (match table.lookup d.id with
    | none => d.revision
    | some old => old.revision + 1))

/-- `WHERE id = ? AND revision = ?`, and the row is read again to tell a conflict from a missing one. -/
def Definitions.updateCAS (table : Definitions) (d : Definition) (expected : Nat) : Except DefinitionError Definitions :=
  match table.lookup d.id with
  | none => .error .notFound
  | some old =>
    if old.revision = expected then .ok (table.insert d.id (d.row (old.revision + 1))) else .error .conflict

/-- `ListDefinitions`, `ORDER BY id`. -/
def Definitions.list (table : Definitions) : List (Σ _ : GoString, Definition) :=
  table.entries.insertionSort fun a b => a.1 ≤ b.1

/-! ### The manager -/

/-- The manager's maps, with the table. -/
structure Registry where
  table : Definitions
  definitions : Definitions := ∅
  handlers : List GoString := []
  started : Bool := false

/-- A call, and whether the statement it comes to succeeds. -/
inductive Call where
  | registerHandler (handlerType : GoString)
  | register (d : Definition) (saved : Bool)
  | start (listed : Bool)
  | updateDefinition (d : Definition) (saved : Bool)
  | deleteDefinition (id : GoString) (tracked deleted : Bool)

namespace Registry

variable (m : Registry)

/-- What `Register` fills in. -/
def withDefaults (d : Definition) : Definition := { d with
  pool := if d.pool = [] then goString "general" else d.pool
  cls := if d.cls = [] then goString "normal" else d.cls
  version := if d.version ≤ 0 then 1 else d.version
  enabled := true }

/-- The checks of `Register`, the statement included. -/
def refusal? (d : Definition) (saved : Bool) : Option DefinitionError :=
  if d.id = [] ∨ d.scopeOwner = [] ∨ d.quotaOwner = [] ∨ d.handlerType = [] then some .required
  else if validateJobResources d.resources = false then some .resources
  else if (m.definitions.lookup d.id).isSome then some .registered
  else if d.handlerType ∉ m.handlers then some .unknownHandler
  else if saved = false then some .store
  else none

def register (d : Definition) (saved : Bool) : Except DefinitionError Registry :=
  match m.refusal? d saved with
  | some err => .error err
  | none => .ok { m with
    table := m.table.save (withDefaults d)
    definitions := m.definitions.insert d.id (withDefaults d) }

/-- The loop of `Start`: a row is loaded unless its id is known; invalid resources end it. -/
def load : List (Σ _ : GoString, Definition) → Definitions → Definitions × Bool
  | [], known => (known, true)
  | row :: rest, known =>
    if validateJobResources row.2.resources = false then (known, false)
    else load rest (if (known.lookup row.1).isSome then known else known.insert row.1 row.2)

def start (listed : Bool) : Registry × Option DefinitionError :=
  if m.started then (m, some .started)
  else if listed = false then (m, some .store)
  else
    let loaded := load m.table.list m.definitions
    if loaded.2 then ({ m with definitions := loaded.1, started := true }, none)
    else ({ m with definitions := loaded.1 }, some .resources)

def updateDefinition (d : Definition) (saved : Bool) : Except DefinitionError Registry :=
  if d.id = [] then .error .required
  else if validateJobResources d.resources = false then .error .resources
  else match m.definitions.lookup d.id with
    | none => .error .notFound
    | some current =>
      if saved = false then .error .store
      else match m.table.updateCAS d current.revision with
        | .error err => .error err
        | .ok table => .ok { m with
          table := table
          definitions := m.definitions.insert d.id { d with revision := current.revision + 1 } }

def deleteDefinition (id : GoString) (tracked deleted : Bool) : Except DefinitionError Registry :=
  let id := Text.trimSpace id
  if id = [] then .error .required
  else if tracked then .error .active
  else if (m.definitions.lookup id).isNone then .ok m
  else if deleted = false then .error .store
  else .ok { m with table := m.table.erase id, definitions := m.definitions.erase id }

/-- A call that fails changes nothing. -/
def ofExcept : Except DefinitionError Registry → Registry × Option DefinitionError
  | .ok m' => (m', none)
  | .error err => (m, some err)

def call : Call → Registry × Option DefinitionError
  | .registerHandler handlerType =>
    if handlerType = [] then (m, some .required)
    else if handlerType ∈ m.handlers then (m, some .registered)
    else ({ m with handlers := handlerType :: m.handlers }, none)
  | .register d saved => m.ofExcept (m.register d saved)
  | .start listed => m.start listed
  | .updateDefinition d saved => m.ofExcept (m.updateDefinition d saved)
  | .deleteDefinition id tracked deleted => m.ofExcept (m.deleteDefinition id tracked deleted)

def run (calls : List Call) : Registry := calls.foldl (fun m c => (m.call c).1) m

/-- The revision in memory is the stored one. -/
def Coherent : Prop :=
  ∀ id d, m.definitions.lookup id = some d → (m.table.lookup id).map (·.revision) = some d.revision

/-- A registration that passes its checks finds no row of its id, or one that it counts up to its own revision. -/
def Fits : Call → Prop
  | .register d saved => m.refusal? d saved = none → ∀ old, m.table.lookup d.id = some old → old.revision + 1 = d.revision
  | _ => True

variable {m} {d : Definition}

/-! ### One call -/

theorem coherent_insert (h : m.Coherent) (id : GoString) (row : Definition) :
    Coherent { m with table := m.table.insert id row, definitions := m.definitions.insert id d } ↔
      row.revision = d.revision := by
  constructor
  · intro hc
    simpa using hc id d (lookup_insert _)
  · intro hrev id' d' hd'
    rcases of_lookup_insert hd' with ⟨rfl, rfl⟩ | ⟨hne, hd'⟩
    · simp [hrev]
    · simpa [lookup_insert_ne hne] using h id' d' hd'

/-- What is loaded is a row of the table. -/
theorem load_coherent {rows : List ((_ : GoString) × Definition)} {table known : Definitions}
    (hrows : ∀ row ∈ rows, table.lookup row.1 = some row.2)
    (h : ∀ id d, known.lookup id = some d → (table.lookup id).map (·.revision) = some d.revision) :
    ∀ id d, (load rows known).1.lookup id = some d → (table.lookup id).map (·.revision) = some d.revision := by
  induction rows generalizing known with
  | nil => exact h
  | cons row _ ih =>
    rw [load]
    split_ifs with hvalid hknown
    · exact h
    · exact ih (fun r hr => hrows r (mem_cons_of_mem _ hr)) h
    · refine ih (fun r hr => hrows r (mem_cons_of_mem _ hr)) fun id d hd => ?_
      rcases of_lookup_insert hd with ⟨rfl, rfl⟩ | ⟨-, hd⟩
      · simp [hrows row mem_cons_self]
      · exact h id d hd

theorem mem_list {row : (_ : GoString) × Definition} {table : Definitions} (h : row ∈ table.list) : table.lookup row.1 = some row.2 := by
  have hmem : row ∈ table.entries := (perm_insertionSort _ _).mem_iff.mp h
  exact mem_lookup_iff.mpr hmem

theorem start_coherent (h : m.Coherent) (listed : Bool) : (m.start listed).1.Coherent := by
  unfold start
  dsimp only
  split_ifs
  · exact h
  · exact h
  · exact load_coherent (fun _ => mem_list) h
  · exact load_coherent (fun _ => mem_list) h

theorem register_coherent (h : m.Coherent) (d : Definition) (saved : Bool) :
    (m.ofExcept (m.register d saved)).1.Coherent ↔ m.Fits (.register d saved) := by
  unfold register Fits
  cases href : m.refusal? d saved with
  | some => exact iff_of_true h (by simp [href])
  | none =>
    refine (coherent_insert h _ _).trans ?_
    cases hold : m.table.lookup d.id <;> simp [withDefaults, Definition.row, hold, href]

theorem updateDefinition_coherent (h : m.Coherent) (d : Definition) (saved : Bool) :
    (m.ofExcept (m.updateDefinition d saved)).1.Coherent ∧ m.updateDefinition d saved ≠ .error .conflict := by
  unfold updateDefinition
  by_cases hreq : d.id = []
  · rw [if_pos hreq]
    exact ⟨h, nofun⟩
  rw [if_neg hreq]
  by_cases hres : validateJobResources d.resources = false
  · rw [if_pos hres]
    exact ⟨h, nofun⟩
  rw [if_neg hres]
  cases hd : m.definitions.lookup d.id with
  | none => exact ⟨h, nofun⟩
  | some current =>
    obtain ⟨old, hold, hrev⟩ := Option.map_eq_some_iff.mp (h d.id current hd)
    cases saved with
    | false => exact ⟨h, nofun⟩
    | true =>
      simp only [Definitions.updateCAS, hold, hrev]
      exact ⟨(coherent_insert h _ _).mpr rfl, nofun⟩

theorem deleteDefinition_coherent (h : m.Coherent) (id : GoString) (tracked deleted : Bool) :
    (m.ofExcept (m.deleteDefinition id tracked deleted)).1.Coherent := by
  unfold deleteDefinition
  dsimp only
  split_ifs
  · exact h
  · exact h
  · exact h
  · exact h
  · intro id' d hd
    obtain ⟨hne, hd⟩ := of_lookup_erase hd
    rw [← h id' d hd]
    exact congrArg (Option.map Definition.revision) (lookup_erase_ne hne)

theorem call_coherent (h : m.Coherent) (c : Call) : (m.call c).1.Coherent ↔ m.Fits c := by
  cases c with
  | registerHandler =>
    refine iff_of_true ?_ trivial
    unfold call
    dsimp only
    split_ifs <;> exact h
  | register d saved => exact register_coherent h d saved
  | start listed => exact iff_of_true (start_coherent h listed) trivial
  | updateDefinition d saved => exact iff_of_true (updateDefinition_coherent h d saved).1 trivial
  | deleteDefinition id tracked deleted => exact iff_of_true (deleteDefinition_coherent h id tracked deleted) trivial

theorem run_append (calls : List Call) (c : Call) : m.run (calls ++ [c]) = ((m.run calls).call c).1 := by
  simp [run]

/-- From a manager that knows no definition, over any table: the revisions agree after every call exactly when every
registration fits the table that it meets, and then no update meets a conflict. -/
theorem revisions_coherent_iff (table : Definitions) (calls : List Call) :
    ((∀ before, before <+: calls → (run { table := table } before).Coherent) ↔
      ∀ before c, before ++ [c] <+: calls → (run { table := table } before).Fits c) ∧
    ((∀ before c, before ++ [c] <+: calls → (run { table := table } before).Fits c) →
      ∀ before d saved, before ++ [.updateDefinition d saved] <+: calls →
        ((run { table := table } before).call (.updateDefinition d saved)).2 ≠ some .conflict) := by
  have hrun (hfits : ∀ before c, before ++ [c] <+: calls → (run { table := table } before).Fits c) :
      ∀ before, before <+: calls → (run { table := table } before).Coherent := by
    intro before
    induction before using List.reverseRecOn with
    | nil => exact fun _ _ _ hd => by cases hd
    | append_singleton before c ih =>
      intro hbefore
      rw [run_append]
      exact (call_coherent (ih ((prefix_append _ _).trans hbefore)) c).mpr (hfits before c hbefore)
  refine ⟨⟨fun hall before c hbefore => ?_, hrun⟩, fun hfits before d saved hbefore hconflict => ?_⟩
  · have hnow := hall before ((prefix_append _ _).trans hbefore)
    have hnext := hall _ hbefore
    rw [run_append] at hnext
    exact (call_coherent hnow c).mp hnext
  · have hnow := hrun hfits before ((prefix_append _ _).trans hbefore)
    have hno := (updateDefinition_coherent hnow d saved).2
    rw [call] at hconflict
    cases hupdate : (run { table := table } before).updateDefinition d saved with
    | ok => rw [hupdate] at hconflict; cases hconflict
    | error =>
      rw [hupdate] at hconflict hno
      cases hconflict
      exact hno rfl

def oldDefinition : Definition :=
  { id := [97], handlerType := [104], scopeOwner := [115], quotaOwner := [113], revision := 3 }

/-- A definition of an earlier run is registered again before `Start` has loaded it, and then updated. -/
theorem update_after_early_register :
    ∃ m : Registry, m = run { table := AList.singleton [97] oldDefinition }
        [.registerHandler [104], .register { oldDefinition with revision := 0 } true, .start true] ∧
      ¬ m.Coherent ∧ (m.call (.updateDefinition oldDefinition true)).2 = some .conflict := by
  refine ⟨_, rfl, fun h => ?_, by decide +kernel⟩
  have hrev := h [97] (withDefaults { oldDefinition with revision := 0 }) (by decide +kernel)
  exact absurd hrev (by decide +kernel)

end Registry

end Goultroid.Jobs
