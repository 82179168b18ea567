import AgentMemory.Engine.Vault
import AgentMemory.Lib.Runs
import AgentMemory.Lib.Table

/-!
# The fact ledger

`FactLedger` of `engines/living_memoryv2/src/living_memoryv2/facts.py`: the rows of `facts`
and of `fact_conflicts`. Supersession is recorded three times, in the status and in the
`superseded_by` of the superseded row and in a conflict row. Adding a fact replaces its row
by an active one and leaves the conflict rows, so the three agree in all states of a run
exactly when no fact is added that a conflict row names as superseded;
`ledger_coherent_iff` is that statement.
-/

namespace AgentMemory

open Dicts PyText JsonText Tables

/-- The runtime with `max(0.0, min(1.0, x))` and the order of its numbers. -/
structure LedgerRuntime (F : Type) extends Python F where
  clamp : F → F
  le : F → F → Bool

/-- The values of the column `facts.status`. -/
inductive FactStatus where
  | active | superseded
  deriving DecidableEq

/-- The arguments of `add_fact` after `str`, `dict` and `float`; the creation time is the
clock's reading where none is given. -/
structure AddFact (F : Type) where
  subject : Text
  predicate : Text
  object : Text
  sourceMemoryId : Text
  scope : List (Text × Json F)
  confidence : F
  validFrom : Option (Number F)
  validTo : Option (Number F)
  supersedes : List Text
  reason : Text
  createdAt : F

/-- A row of `facts` (`facts.py:75-93`) without its normalised columns, as `_row_to_fact`
reads it. -/
structure FactRow (F : Type) where
  factId : Text
  subject : Text
  predicate : Text
  object : Text
  sourceMemoryId : Text
  scope : List (Text × Json F)
  status : FactStatus
  supersedes : List Text
  supersededBy : Option Text
  reason : Text
  validFrom : Option F
  validTo : Option F
  confidence : F
  createdAt : F

/-- A row of `fact_conflicts` (`facts.py:97-103`). -/
structure FactConflict (F : Type) where
  supersedingFactId : Text
  supersededFactId : Text
  reason : Text
  createdAt : F

/-- The primary key of `fact_conflicts`. -/
def FactConflict.key {F : Type} (c : FactConflict F) : Text × Text :=
  (c.supersedingFactId, c.supersededFactId)

/-- The tables of the ledger. -/
structure FactLedger (F : Type) where
  facts : Table (FactRow F) FactRow.factId
  conflicts : Table (FactConflict F) FactConflict.key

section Model

variable {F : Type} (rt : LedgerRuntime F)

/-- `_norm` (`facts.py:315-316`). -/
def norm (text : Text) : Text := [' '].intercalate (split (rt.lower (strip text)))

/-- What a nullable `REAL` column holds: NaN is `NULL`. -/
def realColumn : Option (Number F) → Option F
  | none => none
  | some (.int n) => some (rt.ofInt n)
  | some (.float x) => if rt.isNan x = true then none else some x

/-- A nullable numeric column takes the value: integers have 64 bits. -/
def fitsNullable : Option (Number F) → Bool
  | some (.int n) => -2 ^ 63 ≤ n && n < 2 ^ 63
  | _ => true

namespace AddFact

variable (c : AddFact F)

/-- `[str(item) for item in supersedes or [] if str(item)]`. -/
def supersedesList : List Text := c.supersedes.filter (· ≠ [])

/-- The id of the fact (`facts.py:132-141`). -/
def factId : Text :=
  "fact_".toList ++ (sha256Hex rt.toPython (dict [("subject", .str (norm rt (strip c.subject))),
    ("predicate", .str (norm rt (strip c.predicate))), ("object", .str (norm rt (strip c.object))),
    ("source_memory_id", .str (strip c.sourceMemoryId)), ("valid_from", numberValue c.validFrom),
    ("valid_to", numberValue c.validTo)])).take 24

/-- The row of the fact (`facts.py:142-155`). -/
def record : FactRow F where
  factId := c.factId rt
  subject := strip c.subject
  predicate := strip c.predicate
  object := strip c.object
  sourceMemoryId := strip c.sourceMemoryId
  scope := c.scope
  status := .active
  supersedes := c.supersedesList
  supersededBy := none
  reason := c.reason
  validFrom := realColumn rt c.validFrom
  validTo := realColumn rt c.validTo
  confidence := rt.clamp c.confidence
  createdAt := c.createdAt

/-- `add_fact` raises no exception before its commit: the texts are not blank, the columns
take the numbers, and the graph takes the conflict edges, whose objects may not be blank. -/
def accepted : Bool :=
  strip c.subject ≠ [] && strip c.predicate ≠ [] && strip c.object ≠ [] &&
    strip c.sourceMemoryId ≠ [] && fitsNullable c.validFrom && fitsNullable c.validTo &&
    !rt.isNan (rt.clamp c.confidence) && !rt.isNan c.createdAt &&
    c.supersedesList.all fun old => strip old ≠ []

end AddFact

namespace FactLedger

def empty : FactLedger F := ⟨Table.empty, Table.empty⟩

/-- The row as a superseding fact leaves it (`facts.py:188-191`). -/
def superseded (factId : Text) (row : FactRow F) : FactRow F :=
  { row with status := .superseded, supersededBy := some factId }

/-- One round of the loop over `supersedes_list` (`facts.py:187-200`). -/
def supersede (record : FactRow F) (s : FactLedger F) (old : Text) : FactLedger F where
  facts := s.facts.mapRows (fun row => if row.factId = old then superseded record.factId row else row)
    fun row => by split <;> rfl
  conflicts := s.conflicts.upsert ⟨record.factId, old, record.reason, record.createdAt⟩

/-- `add_fact` (`facts.py:109-205`) on the tables; an exception rolls them back. -/
def addFact (c : AddFact F) (s : FactLedger F) : FactLedger F :=
  if c.accepted rt = true then
    c.supersedesList.foldl (supersede (c.record rt)) { s with facts := s.facts.upsert (c.record rt) }
  else s

end FactLedger

end Model

/-! ## What a call does to the tables -/

section Facts

variable {F : Type} {rt : LedgerRuntime F}

namespace FactLedger

/-- A conflict row says that the first fact superseded the second. -/
def Recorded (s : FactLedger F) (g f : Text) : Prop := s.conflicts.find? (g, f) ≠ none

/-- The loop over the superseded ids changes the two tables apart. -/
theorem supersede_foldl (record : FactRow F) (olds : List Text) (s : FactLedger F) :
    olds.foldl (supersede record) s =
      ⟨olds.foldl (fun t old => t.mapRows
          (fun row => if row.factId = old then superseded record.factId row else row)
          fun row => by split <;> rfl) s.facts,
        (olds.map fun old => ⟨record.factId, old, record.reason, record.createdAt⟩).foldl
          Table.upsert s.conflicts⟩ := by
  induction olds generalizing s with
  | nil => rfl
  | cons old olds ih => rw [List.foldl_cons, ih]; rfl

theorem find?_supersede_foldl (record : FactRow F) (olds : List Text) (s : FactLedger F) (id : Text) :
    (olds.foldl (supersede record) s).facts.find? id =
      (s.facts.find? id).map fun row => if id ∈ olds then superseded record.factId row else row := by
  rw [supersede_foldl]
  convert Table.find?_foldl_mapRows (f := superseded record.factId) (fun _ => by rfl)
    (fun _ => by rfl) olds s.facts id

theorem recorded_supersede_foldl (record : FactRow F) (olds : List Text) (s : FactLedger F)
    (g f : Text) : (olds.foldl (supersede record) s).Recorded g f ↔
      (g = record.factId ∧ f ∈ olds) ∨ s.Recorded g f := by
  rw [supersede_foldl, Recorded, Table.find?_foldl_upsert_ne_none]
  simp [FactConflict.key, Recorded, and_comm, eq_comm]

variable {c : AddFact F} {s : FactLedger F}

/-- The rows after an accepted call. -/
theorem find?_addFact (hc : c.accepted rt = true) (id : Text) :
    (s.addFact rt c).facts.find? id =
      (if c.factId rt = id then some (c.record rt) else s.facts.find? id).map fun row =>
        if id ∈ c.supersedesList then superseded (c.factId rt) row else row := by
  rw [addFact, if_pos hc, find?_supersede_foldl, Table.find?_upsert]
  rfl

theorem recorded_addFact (hc : c.accepted rt = true) (g f : Text) :
    (s.addFact rt c).Recorded g f ↔
      (g = c.factId rt ∧ f ∈ c.supersedesList) ∨ s.Recorded g f := by
  rw [addFact, if_pos hc, recorded_supersede_foldl]
  rfl

theorem addFact_of_rejected (hc : c.accepted rt = false) : s.addFact rt c = s := by
  simp [addFact, hc]

/-! ## Coherence -/

/-- The three records of supersession agree on every row. -/
def Coherent (s : FactLedger F) : Prop :=
  ∀ id row, s.facts.find? id = some row →
    (row.status = .superseded ↔ ∃ g, s.Recorded g id) ∧
      (row.status = .superseded ↔ row.supersededBy ≠ none) ∧
      ∀ g, row.supersededBy = some g → s.Recorded g id

/-- No conflict row names the added fact as superseded, or the call itself supersedes it. -/
def AddsCleanly (rt : LedgerRuntime F) (s : FactLedger F) (c : AddFact F) : Prop :=
  c.accepted rt = true → c.factId rt ∈ c.supersedesList ∨ ∀ g, ¬ s.Recorded g (c.factId rt)

/-- The step lemma. -/
theorem coherent_addFact_iff (hs : s.Coherent) : (s.addFact rt c).Coherent ↔ s.AddsCleanly rt c := by
  by_cases hc : c.accepted rt = true
  swap
  · rw [Bool.not_eq_true] at hc
    rw [addFact_of_rejected hc, AddsCleanly]
    simp [hc, hs]
  constructor
  · intro hcoherent _
    by_cases hown : c.factId rt ∈ c.supersedesList
    · exact Or.inl hown
    · right
      intro g hg
      have hrow : (s.addFact rt c).facts.find? (c.factId rt) = some (c.record rt) := by
        rw [find?_addFact hc, if_pos rfl]
        simp [hown]
      have hstatus := (hcoherent _ _ hrow).1.mpr ⟨g, (recorded_addFact hc g _).mpr (Or.inr hg)⟩
      cases hstatus
  · intro hclean id row hrow
    rw [find?_addFact hc, Option.map_eq_some_iff] at hrow
    obtain ⟨old, hold, rfl⟩ := hrow
    by_cases hmem : id ∈ c.supersedesList
    · have hrecorded : (s.addFact rt c).Recorded (c.factId rt) id :=
        (recorded_addFact hc _ _).mpr (Or.inl ⟨rfl, hmem⟩)
      rw [if_pos hmem]
      refine ⟨⟨fun _ => ⟨_, hrecorded⟩, fun _ => rfl⟩, by simp [superseded], fun g hg => ?_⟩
      obtain rfl := Option.some.inj hg
      exact hrecorded
    · rw [if_neg hmem]
      have hsame : ∀ g, (s.addFact rt c).Recorded g id ↔ s.Recorded g id := fun g => by
        rw [recorded_addFact hc]
        simp [hmem]
      simp only [hsame]
      by_cases hid : c.factId rt = id
      · subst hid
        rw [if_pos rfl] at hold
        obtain rfl := Option.some.inj hold
        have hnone : ∀ g, ¬ s.Recorded g (c.factId rt) := (hclean hc).resolve_left hmem
        simp [AddFact.record, hnone]
      · rw [if_neg hid] at hold
        exact hs id old hold

end FactLedger

/-- A call of `add_fact` as a step of the ledger. -/
def addFactStep (rt : LedgerRuntime F) (s : FactLedger F) (c : AddFact F) : Option (FactLedger F) :=
  some (s.addFact rt c)

/-- All states that a run of `add_fact` calls reaches are coherent exactly when no accepted
call adds a fact, which it does not itself supersede, that a conflict row names as
superseded. -/
theorem ledger_coherent_iff (rt : LedgerRuntime F) (calls : List (AddFact F)) :
    (∀ before after s, calls = before ++ after →
        Runs.run (addFactStep rt) FactLedger.empty before = some s → s.Coherent) ↔
      Runs.Guarded (addFactStep rt) (FactLedger.AddsCleanly rt) FactLedger.empty calls := by
  apply Runs.forall_reached_iff_guarded
  · exact fun s c => ⟨_, rfl⟩
  · intro s c s' hs hstep
    obtain rfl := Option.some.inj hstep
    exact FactLedger.coherent_addFact_iff hs
  · intro id row hrow
    simp [FactLedger.empty] at hrow

/-! ## A fact added after the fact that supersedes it -/

/-- The runtime of the examples, whose two numbers both lie in the unit interval. -/
def sampleLedgerRuntime : LedgerRuntime SampleNumber where
  toPython := samplePython
  clamp x := x
  le
    | .one, .half => false
    | _, _ => true

def sampleFact (object : Text) (supersedes : List Text) : AddFact SampleNumber :=
  ⟨"user".toList, "drinks".toList, object, "m".toList, [], .one, none, none, supersedes, [], .half⟩

/-- The id of the fact that the user drinks tea. -/
def sampleTeaId : Text := (sampleFact "tea".toList []).factId sampleLedgerRuntime

/-- A fact that supersedes the one about tea. -/
def sampleCoffee : AddFact SampleNumber := sampleFact "coffee".toList [sampleTeaId]

theorem accepted_sampleTea :
    (sampleFact "tea".toList []).accepted sampleLedgerRuntime = true := by
  decide +kernel

theorem supersedesList_sampleFact (object : Text) :
    (sampleFact object [sampleTeaId]).supersedesList = [sampleTeaId] := by
  simp [AddFact.supersedesList, sampleFact, sampleTeaId, AddFact.factId]

/-- A fact may supersede the one about tea. -/
theorem accepted_sampleFact {object : Text}
    (h : (sampleFact object []).accepted sampleLedgerRuntime = true) :
    (sampleFact object [sampleTeaId]).accepted sampleLedgerRuntime = true := by
  have hid : strip sampleTeaId ≠ [] := by
    have hblank : isBlank ('f' :: sampleTeaId.tail) = false := isBlank_cons (by decide)
    exact of_decide_eq_false hblank
  simp only [AddFact.accepted, Bool.and_eq_true] at h ⊢
  refine ⟨h.1, ?_⟩
  simp [supersedesList_sampleFact, hid]

theorem accepted_sampleCoffee : sampleCoffee.accepted sampleLedgerRuntime = true := by
  apply accepted_sampleFact
  decide +kernel

/-- A fact superseded before it is added ends up active and superseded at once. -/
theorem FactLedger.incoherent_after_late_fact :
    ∃ s, Runs.run (addFactStep sampleLedgerRuntime) FactLedger.empty
        [sampleCoffee, sampleFact "tea".toList []] = some s ∧ ¬ s.Coherent := by
  refine ⟨_, rfl, fun hcoherent => ?_⟩
  have hrow : ((FactLedger.empty.addFact sampleLedgerRuntime sampleCoffee).addFact sampleLedgerRuntime
      (sampleFact "tea".toList [])).facts.find? sampleTeaId =
        some ((sampleFact "tea".toList []).record sampleLedgerRuntime) := by
    rw [FactLedger.find?_addFact accepted_sampleTea]
    simp [sampleTeaId, AddFact.supersedesList, sampleFact]
  have hrecorded : ((FactLedger.empty.addFact sampleLedgerRuntime sampleCoffee).addFact
      sampleLedgerRuntime (sampleFact "tea".toList [])).Recorded
        (sampleCoffee.factId sampleLedgerRuntime) sampleTeaId := by
    rw [FactLedger.recorded_addFact accepted_sampleTea,
      FactLedger.recorded_addFact accepted_sampleCoffee]
    right; left
    simp [AddFact.supersedesList, sampleCoffee, sampleFact, sampleTeaId, AddFact.factId]
  have hstatus := (hcoherent _ _ hrow).1.mpr ⟨_, hrecorded⟩
  cases hstatus

end Facts

end AgentMemory
