import AgentMemory.Engine.Assertions
import AgentMemory.Engine.Inspect
import AgentMemory.Engine.Relations
import AgentMemory.Lib.Limits

/-!
# Listings

`list_memories` of `store.py`, `list_facts` of `facts.py` and `query` of `knowledge.py`: rows
are selected and ordered by SQL, cut off there at a multiple of the limit, filtered by scope and
tags in Python and cut off again. `limited_listing_iff` says when what is left is a prefix of
the listing without a limit.
-/

namespace AgentMemory

open Dicts PyText JsonText Tables Limits

/-- The runtime with `==` of a float and an integer. -/
structure ListingRuntime (F : Type) extends GraphRuntime F where
  equalsInt : F → Int → Bool

variable {F : Type} (rt : ListingRuntime F)

/-! ### Filters -/

/-- A number as the value of a comparison; a truth value is one or zero. -/
def numberOf : Json F → Option (Number F)
  | .bool b => some (.int (if b = true then 1 else 0))
  | .int n => some (.int n)
  | .float x => some (.float x)
  | _ => none

/-- `==` of numbers. -/
def Number.equals : Number F → Number F → Bool
  | .int m, .int n => m = n
  | .int n, .float x => rt.equalsInt x n
  | .float x, .int n => rt.equalsInt x n
  | .float x, .float y => rt.le x y && rt.le y x

mutual
/-- `==` of values. -/
def equals : Json F → Json F → Bool
  | .null, .null => true
  | .str s, .str t => s = t
  | .arr items, .arr items' => equalsItems items items'
  | .obj d, .obj d' => d.length = d'.length && equalsFields d d'
  | x, y =>
    match numberOf x, numberOf y with
    | some m, some n => m.equals rt n
    | _, _ => false

/-- `==` of lists. -/
def equalsItems : List (Json F) → List (Json F) → Bool
  | [], [] => true
  | x :: xs, y :: ys => equals x y && equalsItems xs ys
  | _, _ => false

/-- The second dictionary has the entries of the first. -/
def equalsFields : List (Text × Json F) → List (Text × Json F) → Bool
  | [], _ => true
  | (key, x) :: d, d' => (match valueAt key d' with | some y => equals x y | none => false) && equalsFields d d'
end

/-- `all(scope.get(key) == value for key, value in wanted.items())`; a missing filter is an
empty one. -/
def inScope (wanted scope : List (Text × Json F)) : Bool :=
  wanted.all fun kv => equals rt ((valueAt kv.1 scope).getD .null) kv.2

/-- The condition of `_filter` (`store.py:270-275`). -/
def MemoryEnvelope.matchesFilter (scope : List (Text × Json F)) (tags : List Text) (m : MemoryEnvelope F) : Bool :=
  inScope rt scope m.scope && tags.all (· ∈ m.tags)

/-! ### Order -/

/-- A number as a `REAL` column holds it. -/
def Number.toReal : Number F → F
  | .int n => rt.ofInt n
  | .float x => x

/-- `ORDER BY first DESC, second DESC`; rows that tie stay in the order of the table. -/
def orderBy {α : Type} (first second : α → F) (rows : List α) : List α :=
  rows.mergeSort fun a b =>
    if rt.le (first a) (first b) = true ∧ rt.le (first b) (first a) = true then
      rt.le (second b) (second a)
    else rt.le (first b) (first a)

/-! ### The listings -/

/-- The rows that `list_memories` selects, in order (`store.py:204-209`). -/
def TemporalStore.selectMemories (s : TemporalStore F) (minImportance : Option F) : List (MemoryRow F) :=
  orderBy rt MemoryRow.importance (fun row => row.createdAt.toReal rt)
    (s.memories.rows.filter fun row => minImportance.all fun x => rt.le x row.importance)

/-- `MemoryEnvelope.from_dict(json.loads(row["envelope_json"]))`. -/
def MemoryRow.envelope (now : F) (row : MemoryRow F) : Option (MemoryEnvelope F) :=
  (loads rt.toFloats row.envelopeJson).bind (MemoryEnvelope.fromDict rt.toPython now)

/-- `list_memories` (`store.py:195-217`). -/
def TemporalStore.listMemories (now : F) (s : TemporalStore F) (scope : List (Text × Json F))
    (tags : List Text) (minImportance : Option F) (limit : Option Nat) : Option (List (MemoryEnvelope F)) := do
  let memories ← (cut (limit.map (· * 4)) (s.selectMemories rt minImportance)).mapM (MemoryRow.envelope rt now)
  pure (cut limit (memories.filter (MemoryEnvelope.matchesFilter rt scope tags)))

/-- The rows that `list_facts` selects, in order (`facts.py:229-236`); an empty status is none. -/
def FactLedger.selectFacts (s : FactLedger F) (status : Text) : List (FactRow F) :=
  orderBy rt FactRow.confidence FactRow.createdAt
    (s.facts.rows.filter fun row => status = [] || row.status.text = status)

/-- `list_facts` (`facts.py:222-244`). -/
def FactLedger.listFacts (s : FactLedger F) (scope : List (Text × Json F)) (status : Text)
    (limit : Option Nat) : List (FactRow F) :=
  cut limit ((cut limit (s.selectFacts rt status)).filter fun row => inScope rt scope row.scope)

/-- The filters of `KnowledgeGraph.query` that are part of its statement. -/
structure AssertionQuery (F : Type) where
  subject : Option Text
  predicate : Option Text
  object : Option Text
  status : Text
  atTime : Option F
  memoryIds : List Text

/-- `column <= x` of a `REAL` column, where a text is greater than every number. -/
def RealColumn.atMost (x : F) : RealColumn F → Bool
  | .real y => rt.le y x
  | _ => false

/-- `column >= x`. -/
def RealColumn.atLeast (x : F) : RealColumn F → Bool
  | .null => false
  | .real y => rt.le x y
  | .text _ => !rt.isNan x

/-- The clauses of `query` (`knowledge.py:445-469`). -/
def AssertionQuery.selects (q : AssertionQuery F) (row : AssertionRow F) : Bool :=
  let normEq (wanted : Option Text) (text : Text) :=
    wanted.all fun s => norm rt.toLedgerRuntime text = norm rt.toLedgerRuntime s
  let ids := q.memoryIds.filter (· ≠ [])
  (q.status = [] || row.status = q.status) && normEq q.subject row.subject &&
    normEq q.predicate row.predicate && normEq q.object row.object &&
    (ids = [] || row.sourceMemoryId ∈ ids) &&
    q.atTime.all fun x => (!row.validFrom.isValue || row.validFrom.atMost rt x) &&
      (!row.validTo.isValue || row.validTo.atLeast rt x)

/-- The rows that `query` selects, in order. -/
def KnowledgeTables.selectAssertions (k : KnowledgeTables F) (q : AssertionQuery F) : List (AssertionRow F) :=
  orderBy rt AssertionRow.confidence AssertionRow.observedAt (k.assertions.rows.filter (q.selects rt))

/-- `query` (`knowledge.py:433-478`). -/
def KnowledgeTables.query (k : KnowledgeTables F) (q : AssertionQuery F) (scope : List (Text × Json F))
    (limit : Option Nat) : List (AssertionRow F) :=
  cut limit ((cut (limit.map fun n => max (n * 4) n) (k.selectAssertions rt q)).filter fun row =>
    inScope rt scope row.scope)

section Facts

variable {rt}

/-- The row of a remembered memory reads as its envelope. -/
theorem MemoryRow.envelope_memoryRow {options : StoreOptions} (c : RememberCall rt.toPython) (now : F) :
    (memoryRow rt.toPython (c.stored options)).envelope rt now = some (c.stored options) := by
  have hloads := @RememberCall.loads_record _ rt.toPython options c
  show (loads rt.toFloats (stableJson rt.toPython (c.record options))).bind _ = _
  rw [hloads, Option.bind_some]
  exact c.fromDict_record now

/-! ### When a limited listing is a prefix -/

/-- A listing that returns, returns with a limit the first elements of what it returns without. -/
theorem listMemories_iff (now : F) (s : TemporalStore F) (scope : List (Text × Json F))
    (tags : List Text) (minImportance : Option F) (n : Nat) :
    (∀ all, s.listMemories rt now scope tags minImportance none = some all →
        s.listMemories rt now scope tags minImportance (some n) = some (all.take n)) ↔
      ∀ memories, (s.selectMemories rt minImportance).mapM (MemoryRow.envelope rt now) = some memories →
        EnoughWithin (MemoryEnvelope.matchesFilter rt scope tags) (n * 4) n memories := by
  unfold TemporalStore.listMemories
  simp only [Option.map_none, Option.map_some, cut, Option.pure_def, Option.bind_eq_bind]
  cases hread : (s.selectMemories rt minImportance).mapM (MemoryRow.envelope rt now) with
  | none => simp
  | some memories =>
    have hfirst := Fallible.mapM_take hread (n * 4)
    rw [hfirst]
    simp only [Option.bind_some, Option.some.injEq, forall_eq']
    exact take_filter_take_iff _ _ _ _

theorem listFacts_iff (s : FactLedger F) (scope : List (Text × Json F)) (status : Text) (n : Nat) :
    s.listFacts rt scope status (some n) = (s.listFacts rt scope status none).take n ↔
      EnoughWithin (fun row => inScope rt scope row.scope) n n (s.selectFacts rt status) :=
  take_filter_take_iff _ _ _ _

theorem query_iff (k : KnowledgeTables F) (q : AssertionQuery F) (scope : List (Text × Json F)) (n : Nat) :
    k.query rt q scope (some n) = (k.query rt q scope none).take n ↔
      EnoughWithin (fun row => inScope rt scope row.scope) (n * 4) n (k.selectAssertions rt q) := by
  have hmax : max (n * 4) n = n * 4 := by omega
  unfold KnowledgeTables.query
  simp only [Option.map_some, Option.map_none, cut, hmax]
  exact take_filter_take_iff _ _ _ _

end Facts

/-- The runtime of the examples, in which no integer is a float. -/
def sampleListingRuntime : ListingRuntime SampleNumber where
  toGraphRuntime := sampleGraphRuntime
  equalsInt _ _ := false

/-- A fact of a project. -/
def sampleProjectFact (project : String) (confidence : SampleNumber) : FactRow SampleNumber where
  factId := project.toList
  subject := "owner".toList
  predicate := "is".toList
  object := "Helena".toList
  sourceMemoryId := "m".toList
  scope := [("project_id".toList, .str project.toList)]
  status := .active
  supersedes := []
  supersededBy := none
  reason := []
  validFrom := none
  validTo := none
  confidence := confidence
  createdAt := .half

/-- A ledger with a fact of another project of greater confidence. -/
def sampleProjectFacts : FactLedger SampleNumber :=
  ⟨⟨[sampleProjectFact "atlas" .one, sampleProjectFact "psi" .half], by decide⟩, Table.empty⟩

end AgentMemory
