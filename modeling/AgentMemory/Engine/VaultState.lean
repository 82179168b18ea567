import AgentMemory.Engine.Assertions
import AgentMemory.Engine.Mirror
import AgentMemory.Engine.Rebuild

/-!
# The stores of a vault

`MemoryVault` of `engines/living_memoryv2/src/living_memoryv2/vault.py` over all the stores
that `remember` and `rebuild_indexes` write: the temporal store with its log, the two graphs,
the fact ledger and the boxes. Each of them commits on its own, so a call that raises keeps
what the stores before have written. Where no facts are extracted and no box is named,
`MemoryVault.remember` says what happens to the first store, which is `returns_remember`.
-/

namespace AgentMemory

open Dicts PyText JsonText Tables Commits

/-- A row of `box_memories` (`vault.py:115-120`). -/
structure BoxMemory where
  boxId : Text
  memoryId : Text
  sequence : Nat

/-- The primary key of `box_memories`. -/
def BoxMemory.key (row : BoxMemory) : Text × Text := (row.boxId, row.memoryId)

/-- What `remember` and `rebuild_indexes` write. -/
structure VaultState (F : Type) where
  store : TemporalStore F
  graphs : Graphs F
  facts : FactLedger F
  boxMemories : Table BoxMemory BoxMemory.key

/-- A fact that is read from a text (`extraction.py:11-21`), with what `_extract_facts` uses. -/
structure ExtractedFact (F : Type) where
  subject : Text
  predicate : Text
  object : Text
  sourceMemoryId : Text
  scope : List (Text × Json F)
  confidence : F
  validFrom : Option F
  validTo : Option F
  reason : Text

section Model

variable {F : Type} (rt : GraphRuntime F) (options : StoreOptions)

/-- The arguments of `add_fact` for the fact (`vault.py:247-257`). -/
def ExtractedFact.args (now : F) (fact : ExtractedFact F) : AddFact F where
  subject := fact.subject
  predicate := fact.predicate
  object := fact.object
  sourceMemoryId := fact.sourceMemoryId
  scope := fact.scope
  confidence := fact.confidence
  validFrom := fact.validFrom.map .float
  validTo := fact.validTo.map .float
  supersedes := []
  reason := fact.reason
  createdAt := now

/-- The blobs that `_externalize_large_payloads` writes before it ends or raises. -/
def writtenBlobs (py : Python F) : List (ModalityRef F) → List Blob
  | [] => []
  | item :: items =>
    item.blobs py options ++
      if (item.externalize py options).isSome = true then writtenBlobs py items else []

/-- `TemporalStore.remember` with what it leaves where it raises: the transaction is rolled
back, and the blob files stay. -/
def TemporalStore.rememberCall (py : Python F) (now : F) (appendLog : Bool) (m : MemoryEnvelope F) :
    Call (TemporalStore F) Unit := fun s =>
  match TemporalStore.remember py options now appendLog m s with
  | some s' => .ok () s'
  | none =>
    match MemoryEnvelope.fromDict py now m.toDict with
    | some original =>
      .error () { s with blobs := (writtenBlobs options py original.modalities).foldl Table.putNew s.blobs }
    | none => .error () s

/-- The edge of a fact (`facts.py:318-330`). -/
def FactRow.edge (row : FactRow F) (validFrom validTo : Option (Number F)) : AddRelation F :=
  ⟨row.subject, row.predicate, row.object, row.sourceMemoryId, .str "facts".toList,
    numberValue validFrom, numberValue validTo, .float row.confidence, .str "fact_ledger".toList,
    .float row.createdAt⟩

/-- The edge to a superseded fact (`facts.py:332-342`). -/
def FactRow.conflictEdge (row : FactRow F) (old : Text) : AddRelation F :=
  ⟨row.factId, "supersedes".toList, old, row.sourceMemoryId, .str "conflict".toList, .null, .null,
    .float row.confidence, .str "fact_ledger".toList, .float row.createdAt⟩

namespace VaultState

/-- A new vault. -/
def empty : VaultState F := ⟨TemporalStore.empty, Graphs.empty, FactLedger.empty, Table.empty⟩

def onStore (c : Call (TemporalStore F) Unit) : Call (VaultState F) Unit :=
  on VaultState.store (fun store v => { v with store := store }) c

def onGraphs (c : Call (Graphs F) Unit) : Call (VaultState F) Unit :=
  on VaultState.graphs (fun graphs v => { v with graphs := graphs }) c

def onFacts (c : Call (FactLedger F) Unit) : Call (VaultState F) Unit :=
  on VaultState.facts (fun facts v => { v with facts := facts }) c

def onBoxes (c : Call (Table BoxMemory BoxMemory.key) Unit) : Call (VaultState F) Unit :=
  on VaultState.boxMemories (fun boxMemories v => { v with boxMemories := boxMemories }) c

/-- `add_relation` on the relation graph of the vault. -/
def addEdge (a : AddRelation F) : Call (VaultState F) Unit :=
  onGraphs (Graphs.onRelations (commit (GraphStore.addRelation rt a)))

/-- `add_fact` (`facts.py:109-205`) of a fact that supersedes none, with its edge and its
assertion. -/
def addFact (c : AddFact F) : Call (VaultState F) Unit := do
  check (c.accepted rt.toLedgerRuntime)
  addEdge rt ((c.record rt.toLedgerRuntime).edge c.validFrom c.validTo)
  onFacts (commit fun facts => some (facts.addFact rt.toLedgerRuntime c))
  reading fun v =>
    match v.facts.facts.find? (c.factId rt.toLedgerRuntime) with
    | some row => onGraphs (Graphs.indexFact rt row)
    | none => check false

/-- `COALESCE(MAX(sequence), 0) + 1` of a box (`vault.py:175-181`). -/
def nextSequence (boxId : Text) (t : Table BoxMemory BoxMemory.key) : Nat :=
  ((t.rows.filter fun row => row.boxId = boxId).map BoxMemory.sequence).foldl max 0 + 1

/-- The rows of the box with the memory (`vault.py:172-182`). -/
def putInBox (boxId memoryId : Text) : Call (VaultState F) Unit :=
  onBoxes (commit fun t => some (t.putNew ⟨boxId, memoryId, nextSequence boxId t⟩))

variable (extract : MemoryEnvelope F → List (ExtractedFact F))

/-- `remember` (`vault.py:159-183`); `extract` is `RuleBasedFactExtractor().extract`. -/
def remember (now : F) (appendLog : Bool) (m : MemoryEnvelope F) (boxId : Option Text)
    (extractFacts : Bool) : Call (VaultState F) Unit := do
  onStore (TemporalStore.rememberCall options rt.toPython now appendLog m)
  onGraphs (Graphs.onRelations (GraphStore.indexMemory rt m.indexedFields))
  onGraphs (Graphs.indexMemory rt m.indexedFields)
  callIf extractFacts (forM (extract m) fun fact => addFact rt (fact.args now))
  forM boxId.toList fun boxId => putInBox boxId m.id

/-- The tables that `rebuild_indexes` clears (`vault.py:229-231`). -/
def clear (v : VaultState F) : VaultState F :=
  { v with store := v.store.clearIndexes, graphs := Graphs.empty }

/-- The body of the loop over the lines of the log (`vault.py:237-238`). -/
def replay (now : F) (record : Option (Json F)) : Call (VaultState F) Unit :=
  match record.bind (MemoryEnvelope.fromDict rt.toPython now) with
  | some m => remember rt options extract now false m none false
  | none => check false

/-- `FactLedger.rebuild_graph_index` (`facts.py:276-297`). -/
def rebuildGraphIndex : Call (VaultState F) Unit :=
  reading fun v => do
    forM (v.facts.facts.rows.mergeSort fun row row' => rt.le row.createdAt row'.createdAt) fun row =>
      addEdge rt (row.edge (row.validFrom.map .float) (row.validTo.map .float))
    forM (v.facts.conflicts.rows.mergeSort fun c c' => rt.le c.createdAt c'.createdAt) fun c =>
      match v.facts.facts.find? c.supersedingFactId with
      | some row => addEdge rt (row.conflictEdge c.supersededFactId)
      | none => pure ()

/-- `rebuild_indexes` (`vault.py:228-241`) with the order of `list_facts`. A log that does
not exist is empty. -/
def rebuildIndexes (now : F) (order : List Text) : Call (VaultState F) Unit := do
  commit fun v => some v.clear
  reading fun v => callIf (v.store.log ≠ []) do
    forM (readLog rt.toFloats v.store.log) (replay rt options extract now)
    rebuildGraphIndex rt
    reading fun v => forM (v.facts.rowsOf order) fun row => onGraphs (Graphs.indexFact rt row)

end VaultState

/-- No relation of the envelope raises in `GraphStore.index_memory` or in
`KnowledgeGraph.index_memory`. -/
def relationsAccepted (m : IndexedFields F) : Bool :=
  (m.relations.all fun item => (relationArgs rt m item).any (AddRelation.accepted rt)) &&
    m.relations.all fun item => (assertionArgs rt m item).any (AddAssertion.accepted rt)

end Model

/-! ## The stores after the first -/

section Facts

variable {F : Type} {rt : GraphRuntime F}

namespace Graphs

theorem decides_indexRelation (m : IndexedFields F) (item : Json F) :
    Decides (indexRelation rt m item) ((assertionArgs rt m item).any (AddAssertion.accepted rt)) := by
  unfold indexRelation
  cases assertionArgs rt m item with
  | none => exact decides_check false
  | some a => exact decides_addAssertion a

theorem decides_indexMemory (m : IndexedFields F) :
    Decides (indexMemory rt m)
      (m.relations.all fun item => (assertionArgs rt m item).any (AddAssertion.accepted rt)) :=
  decides_forM fun item _ => decides_indexRelation m item

end Graphs

theorem bindReal_numberValue (o : Option (Number F)) :
    (bindReal rt (numberValue o)).isSome = fitsNullable o := by
  rcases o with _ | (n | x)
  · rfl
  · have hfits : fitsNullable (some (.int n : Number F)) = fitsParameter n := rfl
    rw [hfits]
    by_cases hn : fitsParameter n = true <;> simp [numberValue, Number.value, bindReal, hn]
  · rfl

/-- A row of the ledger that is indexed without raising, as the rows of accepted facts that
supersede none are. -/
structure FactRow.Indexable (rt : GraphRuntime F) (row : FactRow F) : Prop where
  subject : strip row.subject ≠ []
  predicate : strip row.predicate ≠ []
  object : strip row.object ≠ []
  sourceMemoryId : strip row.sourceMemoryId ≠ []
  createdAt : rt.isNan row.createdAt = false
  supersedes : row.supersedes = []

namespace FactRow.Indexable

variable {row : FactRow F}

theorem of_accepted {c : AddFact F} (hc : c.accepted rt.toLedgerRuntime = true)
    (hs : c.supersedes = []) : (c.record rt.toLedgerRuntime).Indexable rt := by
  simp only [AddFact.accepted, Bool.and_eq_true, decide_eq_true_eq, Bool.not_eq_true'] at hc
  obtain ⟨⟨⟨⟨⟨⟨⟨⟨hsubject, hpredicate⟩, hobject⟩, hsource⟩, -⟩, -⟩, -⟩, hcreated⟩, -⟩ := hc
  constructor <;> simp only [AddFact.record, strip_strip]
  · exact hsubject
  · exact hpredicate
  · exact hobject
  · exact hsource
  · exact hcreated
  · simp [AddFact.supersedesList, hs]

theorem accepted_edge (h : row.Indexable rt) {validFrom validTo : Option (Number F)}
    (hfrom : fitsNullable validFrom = true) (hto : fitsNullable validTo = true) :
    (row.edge validFrom validTo).accepted rt = true := by
  have hname : graphNameOf rt (.str "facts".toList) (numberValue validFrom) (numberValue validTo) =
      some "facts".toList := graphNameOf_allowed (by decide) _ _
  simp only [FactRow.edge, AddRelation.accepted, hname, required_isSome, bindReal_numberValue, hfrom, hto]
  simp [floatOf, bindText, bindReal, Number.value, h.subject, h.predicate, h.object]

/-- A fact that supersedes none is indexed the same whatever the graph holds. -/
theorem decides_indexFact (h : row.Indexable rt) : Decides (Graphs.indexFact rt row) true := by
  have hfits : ∀ o : Option F, fitsNullable (o.map Number.float) = true := by
    intro o
    cases o <;> rfl
  have hgraph : (row.assertionArgs []).graph = "knowledge".toList := rfl
  have hname : graphNameOf rt (.str (row.assertionArgs []).graph) (row.assertionArgs []).validFrom
      (row.assertionArgs []).validTo = some "knowledge".toList := by
    rw [hgraph]
    exact graphNameOf_allowed (by decide) _ _
  have haccepted : (row.assertionArgs []).accepted rt = true := by
    simp only [AddAssertion.accepted, hname]
    simp [FactRow.assertionArgs, AddAssertion.complete, AddAssertion.supersedesList,
      bindReal_numberValue, hfits, h.subject, h.predicate, h.object, h.sourceMemoryId, h.createdAt]
  intro g
  have hnone : g.knowledge.assertionIdsForFacts rt row.supersedes = [] := by
    simp [KnowledgeTables.assertionIdsForFacts, h.supersedes]
  rw [Graphs.indexFact, returns_reading, hnone, Graphs.decides_addAssertion _ g, haccepted]

end FactRow.Indexable

namespace VaultState

theorem decides_addEdge (a : AddRelation F) : Decides (addEdge rt a) (a.accepted rt) :=
  ((GraphStore.decides_addRelation a).on _ _).on _ _

/-- A fact that supersedes none is added where the ledger accepts it. -/
theorem decides_addFact {c : AddFact F} (hs : c.supersedes = []) :
    Decides (addFact rt c) (c.accepted rt.toLedgerRuntime) := by
  intro v
  by_cases hc : c.accepted rt.toLedgerRuntime = true
  swap
  · simp [addFact, returns_bind, hc]
  have hindexable := FactRow.Indexable.of_accepted hc hs
  have hfits : fitsNullable c.validFrom = true ∧ fitsNullable c.validTo = true := by
    simp only [AddFact.accepted, Bool.and_eq_true] at hc
    exact ⟨hc.1.1.1.1.2, hc.1.1.1.2⟩
  have hrow : ∀ s : FactLedger F, (s.addFact rt.toLedgerRuntime c).facts.find?
      (c.factId rt.toLedgerRuntime) = some (c.record rt.toLedgerRuntime) := by
    intro s
    rw [FactLedger.find?_addFact hc, if_pos rfl]
    simp [AddFact.supersedesList, hs]
  have hedge := @decides_addEdge _ rt ((c.record rt.toLedgerRuntime).edge c.validFrom c.validTo)
  rw [hindexable.accepted_edge hfits.1 hfits.2] at hedge
  rw [addFact, returns_bind, returns_bind, returns_bind, returns_check, hc, hedge _, Bool.true_and,
    Bool.true_and]
  simp only [onFacts, returns_on, returns_commit, Option.isSome_some, Bool.true_and, returns_reading,
    after_on, after_commit, Option.getD_some, hrow]
  exact (hindexable.decides_indexFact.on _ _) _

variable {options : StoreOptions} {extract : MemoryEnvelope F → List (ExtractedFact F)}

/-- Whether the stores after the first raise is decided by the envelope. -/
theorem decides_later (m : MemoryEnvelope F) (now : F) (boxId : Option Text) (extractFacts : Bool) :
    Decides (do
      onGraphs (Graphs.onRelations (GraphStore.indexMemory rt m.indexedFields))
      onGraphs (Graphs.indexMemory rt m.indexedFields)
      callIf extractFacts (forM (extract m) fun fact => addFact rt (fact.args now))
      forM boxId.toList fun boxId => putInBox boxId m.id : Call (VaultState F) Unit)
    (relationsAccepted rt m.indexedFields &&
      (!extractFacts || (extract m).all fun fact => (fact.args now).accepted rt.toLedgerRuntime)) := by
  have hrelations := ((@GraphStore.decides_indexMemory _ rt m.indexedFields).on
    Graphs.relations (fun relations g => { g with relations := relations })).on
      VaultState.graphs (fun graphs v => { v with graphs := graphs })
  have hassertions := (@Graphs.decides_indexMemory _ rt m.indexedFields).on
    VaultState.graphs (fun graphs v => { v with graphs := graphs })
  have hfacts : Decides (forM (extract m) fun fact => addFact rt (fact.args now))
      ((extract m).all fun fact => (fact.args now).accepted rt.toLedgerRuntime) :=
    decides_forM fun fact _ => decides_addFact rfl
  have hbox : Decides (forM boxId.toList fun boxId => putInBox boxId m.id : Call (VaultState F) Unit)
      (boxId.toList.all fun _ => true) := by
    apply decides_forM
    intro boxId _
    unfold putInBox onBoxes
    apply Decides.on
    exact decides_commit fun _ => rfl
  have hput : (boxId.toList.all fun _ => true) = true := by
    cases boxId <;> rfl
  intro v
  refine (hrelations.bind (hassertions.bind ((hfacts.callIf extractFacts).bind hbox)) v).trans ?_
  rw [hput, Bool.and_true, relationsAccepted, Bool.and_assoc]

end VaultState

end Facts

end AgentMemory
