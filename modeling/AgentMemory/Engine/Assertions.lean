import AgentMemory.Engine.Graph
import AgentMemory.Engine.Knowledge

/-!
# Entities and assertions

The whole of what `KnowledgeGraph` of `engines/living_memoryv2/src/living_memoryv2/knowledge.py`
writes: `kg_entities`, `kg_assertions` with the assertions of relations and of facts,
`kg_conflicts`, and the edges of the relation graph. `add_assertion` commits its entities, its
row and each edge one after the other; `decides_addAssertion` says when none of them raises.
-/

namespace AgentMemory

open Dicts PyText JsonText Tables Commits

/-- A row of `kg_entities` (`knowledge.py:114-126`) without its normalised name. -/
structure KgEntity (F : Type) where
  entityId : Text
  name : Text
  entityType : Text
  aliases : List Text
  scope : List (Text × Json F)
  sourceMemoryIds : List Text
  confidence : F
  status : Text
  createdAt : F
  updatedAt : F

/-- The arguments of `upsert_entity` after `str`, `dict` and `float`; an empty source is none. -/
structure UpsertEntity (F : Type) where
  name : Text
  entityType : Text
  aliases : List Text
  scope : List (Text × Json F)
  sourceMemoryId : Text
  confidence : F
  createdAt : F
  status : Text

/-- A row of `kg_assertions` (`knowledge.py:131-154`) without its normalised columns. -/
structure AssertionRow (F : Type) where
  assertionId : Text
  subject : Text
  predicate : Text
  object : Text
  sourceMemoryId : Text
  subjectEntityId : Text
  objectEntityId : Option Text
  objectKind : Text
  factId : Option Text
  scope : List (Text × Json F)
  graphName : Text
  validFrom : RealColumn F
  validTo : RealColumn F
  observedAt : F
  confidence : F
  status : Text
  reason : Text
  supersedes : List Text
  supersededBy : Option Text

/-- The arguments of `add_assertion` after `str`, `dict` and `float`. -/
structure AddAssertion (F : Type) where
  subject : Text
  predicate : Text
  object : Text
  sourceMemoryId : Text
  scope : List (Text × Json F)
  objectKind : Text
  graphName : Text
  factId : Option Text
  validFrom : Json F
  validTo : Json F
  observedAt : F
  confidence : F
  status : Text
  reason : Text
  supersedes : List Text

/-- The tables of the knowledge graph. -/
structure KnowledgeTables (F : Type) where
  entities : Table (KgEntity F) KgEntity.entityId
  assertions : Table (AssertionRow F) AssertionRow.assertionId
  conflicts : Table (KgConflict F) KgConflict.key

/-- The databases of the two graphs. -/
structure Graphs (F : Type) where
  relations : GraphStore F
  knowledge : KnowledgeTables F

section Model

variable {F : Type} (rt : GraphRuntime F)

/-- `max(x, y)`. -/
def maxOf (x y : F) : F := if rt.le y x = true then x else y

/-- `_clean_alias` (`knowledge.py:604-605`). -/
def cleanAlias (text : Text) : Text := [' '].intercalate (split (strip text))

/-- The id of an entity (`knowledge.py:197`). -/
def entityIdOf (name : Text) (scope : List (Text × Json F)) : Text :=
  "ent_".toList ++ (sha256Hex rt.toPython
    (dict [("name", .str (norm rt.toLedgerRuntime name)), ("scope", .obj scope)])).take 24

namespace UpsertEntity

variable (e : UpsertEntity F)

/-- `new_aliases` (`knowledge.py:198`). -/
def newAliases : List Text :=
  sortedSet ((e.aliases.map cleanAlias).filter (· ≠ []) ++ [strip e.name])

/-- `new_sources` (`knowledge.py:199`). -/
def newSources : List Text := if e.sourceMemoryId = [] then [] else [e.sourceMemoryId]

/-- The row that is written over this one, if there is one (`knowledge.py:203-234`). -/
def row (existing : Option (KgEntity F)) : KgEntity F where
  entityId := entityIdOf rt (strip e.name) e.scope
  name := strip e.name
  entityType := orText e.entityType "entity".toList
  aliases := existing.elim e.newAliases fun old => sortedSet (old.aliases ++ e.newAliases)
  scope := e.scope
  sourceMemoryIds := existing.elim e.newSources fun old => sortedSet (old.sourceMemoryIds ++ e.newSources)
  confidence := existing.elim (rt.clamp e.confidence) fun old =>
    maxOf rt old.confidence (rt.clamp e.confidence)
  status := orText e.status "active".toList
  createdAt := existing.elim e.createdAt KgEntity.createdAt
  updatedAt := existing.elim e.createdAt fun old => maxOf rt e.createdAt old.updatedAt

end UpsertEntity

namespace KnowledgeTables

/-- `clear` (`knowledge.py:174-178`). -/
def empty : KnowledgeTables F := ⟨Table.empty, Table.empty, Table.empty⟩

/-- `upsert_entity` (`knowledge.py:180-235`). A time that is `NULL` breaks `NOT NULL`. -/
def upsertEntity (e : UpsertEntity F) (k : KnowledgeTables F) : Option (KnowledgeTables F) :=
  if strip e.name ≠ [] ∧ rt.isNan e.createdAt = false then
    some { k with
      entities := k.entities.upsert (e.row rt (k.entities.find? (entityIdOf rt (strip e.name) e.scope))) }
  else none

/-- The assertion as a superseding one leaves it (`knowledge.py:359-362`). -/
def marked (assertionId : Text) (row : AssertionRow F) : AssertionRow F :=
  { row with status := "superseded".toList, supersededBy := some assertionId }

/-- One round of the loop over `supersedes_list` (`knowledge.py:358-371`). -/
def mark (record : AssertionRow F) (k : KnowledgeTables F) (old : Text) : KnowledgeTables F :=
  { k with
    assertions := k.assertions.mapRows
      (fun row => if row.assertionId = old then marked record.assertionId row else row)
      fun row => by split <;> rfl
    conflicts := k.conflicts.upsert ⟨record.assertionId, old, record.reason, record.observedAt⟩ }

/-- `assertion_ids_for_facts` (`knowledge.py:382-392`). -/
def assertionIdsForFacts (k : KnowledgeTables F) (factIds : List Text) : List Text :=
  ((k.assertions.rows.filter fun row => row.factId.any (· ∈ factIds.filter (· ≠ []))).mergeSort
    fun row row' => rt.le row.observedAt row'.observedAt).map AssertionRow.assertionId

end KnowledgeTables

namespace AddAssertion

variable (a : AddAssertion F)

/-- The entity of the subject (`knowledge.py:272-279`). -/
def subjectEntity : UpsertEntity F :=
  ⟨strip a.subject, "subject".toList, [], a.scope, strip a.sourceMemoryId, a.confidence, a.observedAt,
    "active".toList⟩

/-- The entity of the object (`knowledge.py:282-289`). -/
def objectEntity : UpsertEntity F :=
  ⟨strip a.object, "object".toList, [], a.scope, strip a.sourceMemoryId, a.confidence, a.observedAt,
    "active".toList⟩

/-- `str(object_kind or "entity")`. -/
def kind : Text := orText a.objectKind "entity".toList

/-- `str(graph_name or "knowledge")`. -/
def graph : Text := orText a.graphName "knowledge".toList

/-- `[str(item) for item in supersedes or [] if str(item)]`. -/
def supersedesList : List Text := a.supersedes.filter (· ≠ [])

/-- The id of the assertion (`knowledge.py:291-301`). -/
def assertionId : Text :=
  "kg_".toList ++ (sha256Hex rt.toPython
    (dict [("subject", .str (norm rt.toLedgerRuntime (strip a.subject))),
      ("predicate", .str (norm rt.toLedgerRuntime (strip a.predicate))),
      ("object", .str (norm rt.toLedgerRuntime (strip a.object))),
      ("source_memory_id", .str (strip a.sourceMemoryId)), ("fact_id", textValue a.factId),
      ("valid_from", a.validFrom), ("valid_to", a.validTo)])).take 24

/-- The row of the assertion (`knowledge.py:302-321`). -/
def record : Option (AssertionRow F) := do
  let validFrom ← bindReal rt a.validFrom
  let validTo ← bindReal rt a.validTo
  some {
    assertionId := a.assertionId rt
    subject := strip a.subject
    predicate := strip a.predicate
    object := strip a.object
    sourceMemoryId := strip a.sourceMemoryId
    subjectEntityId := entityIdOf rt (strip a.subject) a.scope
    objectEntityId := if a.kind = "entity".toList then some (entityIdOf rt (strip a.object) a.scope) else none
    objectKind := a.kind
    factId := a.factId
    scope := a.scope
    graphName := a.graph
    validFrom := validFrom
    validTo := validTo
    observedAt := a.observedAt
    confidence := rt.clamp a.confidence
    status := orText a.status "active".toList
    reason := a.reason
    supersedes := a.supersedesList
    supersededBy := none }

/-- The edge of the assertion (`knowledge.py:543-554`). -/
def edge : AddRelation F :=
  ⟨strip a.subject, strip a.predicate, strip a.object, strip a.sourceMemoryId, .str a.graph,
    a.validFrom, a.validTo, .float (rt.clamp a.confidence), .str "knowledge_graph".toList,
    .float a.observedAt⟩

/-- The edge to a superseded assertion (`knowledge.py:555-565`). -/
def conflictEdge (old : Text) : AddRelation F :=
  ⟨a.assertionId rt, "supersedes".toList, old, strip a.sourceMemoryId, .str "conflict".toList, .null,
    .null, .float (rt.clamp a.confidence), .str "knowledge_graph".toList, .float a.observedAt⟩

/-- None of the required texts is blank. -/
def complete : Bool :=
  strip a.subject ≠ [] && strip a.predicate ≠ [] && strip a.object ≠ [] && strip a.sourceMemoryId ≠ []

/-- `add_assertion` does not raise. -/
def accepted : Bool :=
  a.complete && !rt.isNan a.observedAt && (bindReal rt a.validFrom).isSome &&
    (bindReal rt a.validTo).isSome && (graphNameOf rt (.str a.graph) a.validFrom a.validTo).isSome &&
    a.supersedesList.all fun old => strip old ≠ []

end AddAssertion

/-- The transaction of `add_assertion` (`knowledge.py:322-371`). -/
def KnowledgeTables.insertAssertion (a : AddAssertion F) (k : KnowledgeTables F) :
    Option (KnowledgeTables F) :=
  (a.record rt).map fun record =>
    a.supersedesList.foldl (mark record) { k with assertions := k.assertions.upsert record }

namespace Graphs

def empty : Graphs F := ⟨GraphStore.empty, KnowledgeTables.empty⟩

/-- A call on the relation graph. -/
def onRelations (c : Call (GraphStore F) Unit) : Call (Graphs F) Unit :=
  on Graphs.relations (fun relations g => { g with relations := relations }) c

/-- A call on the knowledge graph's own tables. -/
def onKnowledge (c : Call (KnowledgeTables F) Unit) : Call (Graphs F) Unit :=
  on Graphs.knowledge (fun knowledge g => { g with knowledge := knowledge }) c

/-- `add_assertion` (`knowledge.py:244-373`). -/
def addAssertion (a : AddAssertion F) : Call (Graphs F) Unit := do
  check a.complete
  onKnowledge (commit (KnowledgeTables.upsertEntity rt a.subjectEntity))
  callIf (a.kind = "entity".toList) (onKnowledge (commit (KnowledgeTables.upsertEntity rt a.objectEntity)))
  onKnowledge (commit (KnowledgeTables.insertAssertion rt a))
  onRelations (commit (GraphStore.addRelation rt (a.edge rt)))
  forM a.supersedesList fun old => onRelations (commit (GraphStore.addRelation rt (a.conflictEdge rt old)))

end Graphs

/-- The arguments of `add_assertion` for a relation of an envelope (`knowledge.py:398-410`). -/
def assertionArgs (m : IndexedFields F) (item : Json F) : Option (AddAssertion F) :=
  match item with
  | .obj _ => do
    let confidence ← floatOf rt ((field item "confidence").getD (.float m.confidence))
    let observedAt ← floatOf rt m.createdAt.value
    some {
      subject := strOf rt ((field item "subject").getD (.str []))
      predicate := strOf rt ((field item "predicate").getD (.str []))
      object := strOf rt ((field item "object").getD (.str []))
      sourceMemoryId := m.id
      scope := m.scope
      objectKind := "entity".toList
      graphName := "knowledge".toList
      factId := none
      validFrom := (field item "valid_from").getD .null
      validTo := (field item "valid_to").getD .null
      observedAt := observedAt
      confidence := confidence
      status := "active".toList
      reason := "memory_relation".toList
      supersedes := [] }
  | _ => none

/-- `facts.status` as a text. -/
def FactStatus.text : FactStatus → Text
  | .active => "active".toList
  | .superseded => "superseded".toList

/-- The arguments of `add_assertion` for a fact (`knowledge.py:416-431`). -/
def FactRow.assertionArgs (row : FactRow F) (supersedes : List Text) : AddAssertion F where
  subject := row.subject
  predicate := row.predicate
  object := row.object
  sourceMemoryId := row.sourceMemoryId
  scope := row.scope
  objectKind := "literal".toList
  graphName := "knowledge".toList
  factId := some row.factId
  validFrom := numberValue (row.validFrom.map .float)
  validTo := numberValue (row.validTo.map .float)
  observedAt := row.createdAt
  confidence := row.confidence
  status := row.status.text
  reason := orText row.reason "fact_ledger".toList
  supersedes := supersedes

namespace Graphs

/-- The body of the loop of `KnowledgeGraph.index_memory`. -/
def indexRelation (m : IndexedFields F) (item : Json F) : Call (Graphs F) Unit :=
  match assertionArgs rt m item with
  | some a => addAssertion rt a
  | none => check false

/-- `KnowledgeGraph.index_memory` (`knowledge.py:394-412`). -/
def indexMemory (m : IndexedFields F) : Call (Graphs F) Unit := forM m.relations (indexRelation rt m)

/-- `index_fact` (`knowledge.py:414-431`). -/
def indexFact (row : FactRow F) : Call (Graphs F) Unit :=
  reading fun g => addAssertion rt (row.assertionArgs (g.knowledge.assertionIdsForFacts rt row.supersedes))

end Graphs

end Model

/-! ## When an assertion is added -/

section Facts

variable {F : Type} {rt : GraphRuntime F}

theorem KnowledgeTables.upsertEntity_isSome (e : UpsertEntity F) (k : KnowledgeTables F) :
    (k.upsertEntity rt e).isSome = (decide (strip e.name ≠ []) && !rt.isNan e.createdAt) := by
  unfold upsertEntity
  split <;> simp_all

theorem KnowledgeTables.insertAssertion_isSome (a : AddAssertion F) (k : KnowledgeTables F) :
    (k.insertAssertion rt a).isSome =
      ((bindReal rt a.validFrom).isSome && (bindReal rt a.validTo).isSome) := by
  unfold insertAssertion AddAssertion.record
  cases bindReal rt a.validFrom <;> cases bindReal rt a.validTo <;> rfl

namespace AddAssertion

variable (a : AddAssertion F)

theorem accepted_edge : (a.edge rt).accepted rt =
    ((graphNameOf rt (.str a.graph) a.validFrom a.validTo).isSome && decide (strip a.subject ≠ []) &&
      decide (strip a.predicate ≠ []) && decide (strip a.object ≠ []) &&
      (bindReal rt a.validFrom).isSome && (bindReal rt a.validTo).isSome) := by
  simp [edge, AddRelation.accepted, floatOf, bindText, bindReal, Number.value, required_isSome,
    strip_strip]

theorem required_assertionId : (required (a.assertionId rt)).isSome = true := by
  have hblank : isBlank (a.assertionId rt) = false := by
    rw [assertionId, show "kg_".toList = 'k' :: ['g', '_'] from rfl, List.cons_append]
    exact isBlank_cons (by decide)
  rw [isBlank] at hblank
  rw [required_isSome, decide_not, hblank]
  rfl

theorem accepted_conflictEdge (old : Text) :
    (a.conflictEdge rt old).accepted rt = decide (strip old ≠ []) := by
  have hname : graphNameOf rt (.str "conflict".toList) .null .null = some "conflict".toList :=
    graphNameOf_allowed (by decide) _ _
  have hpredicate : (required "supersedes".toList).isSome = true := by decide
  simp only [conflictEdge, AddRelation.accepted, hname, a.required_assertionId, hpredicate]
  simp [required_isSome, floatOf, bindText, bindReal, Number.value]

end AddAssertion

namespace Graphs

/-- Whether an assertion is added is decided by its arguments. -/
theorem decides_addAssertion (a : AddAssertion F) : Decides (addAssertion rt a) (a.accepted rt) := by
  have hsubject : Decides (onKnowledge (commit (KnowledgeTables.upsertEntity rt a.subjectEntity)))
      (decide (strip a.subject ≠ []) && !rt.isNan a.observedAt) := by
    apply Decides.on
    apply decides_commit
    intro k
    rw [KnowledgeTables.upsertEntity_isSome, AddAssertion.subjectEntity, strip_strip]
  have hobject : Decides (onKnowledge (commit (KnowledgeTables.upsertEntity rt a.objectEntity)))
      (decide (strip a.object ≠ []) && !rt.isNan a.observedAt) := by
    apply Decides.on
    apply decides_commit
    intro k
    rw [KnowledgeTables.upsertEntity_isSome, AddAssertion.objectEntity, strip_strip]
  have hrow : Decides (onKnowledge (commit (KnowledgeTables.insertAssertion rt a)))
      ((bindReal rt a.validFrom).isSome && (bindReal rt a.validTo).isSome) := by
    apply Decides.on
    exact decides_commit (KnowledgeTables.insertAssertion_isSome a)
  have hedge : Decides (onRelations (commit (GraphStore.addRelation rt (a.edge rt))))
      ((a.edge rt).accepted rt) := by
    apply Decides.on
    exact GraphStore.decides_addRelation _
  have hedges : Decides (forM a.supersedesList fun old =>
      onRelations (commit (GraphStore.addRelation rt (a.conflictEdge rt old))))
        (a.supersedesList.all fun old => (a.conflictEdge rt old).accepted rt) := by
    apply decides_forM
    intro old _
    apply Decides.on
    exact GraphStore.decides_addRelation _
  intro g
  rw [addAssertion, (decides_check _).bind (hsubject.bind ((hobject.callIf _).bind
    (hrow.bind (hedge.bind hedges)))) g]
  simp only [AddAssertion.accepted_edge, AddAssertion.accepted_conflictEdge, AddAssertion.accepted,
    AddAssertion.complete]
  rw [Bool.eq_iff_iff]
  simp only [Bool.and_eq_true, Bool.or_eq_true, Bool.not_eq_true']
  tauto

end Graphs

end Facts

end AgentMemory
