import AgentMemory.Engine.Facts
import AgentMemory.Lib.Commits

/-!
# The relation graph

`GraphStore` of `engines/living_memoryv2/src/living_memoryv2/graph.py`: the rows of the
table `relations`. `add_relation` raises before it writes or writes in one transaction, and
`addRelation_isSome` says when; `index_memory` adds the relations of an envelope one by one,
so that those before one that raises stay.
-/

namespace AgentMemory

open Dicts PyText JsonText Tables Commits

/-- The runtime with `str` and `float` of any value, and the conversions of SQLite's columns. -/
structure GraphRuntime (F : Type) extends LedgerRuntime F where
  /-- `str` of a list or a dictionary, whose keys come in an order of their own. -/
  container : Json F → Text
  /-- `float(text)`. -/
  parseFloat : Text → Option F
  /-- `float(n)` does not overflow. -/
  inRange : Int → Bool
  /-- The number that a `REAL` column makes of a text. -/
  numericText : Text → Option F
  /-- The text that a `TEXT` column makes of a number. -/
  realText : F → Text
  isNan_clamp : ∀ x, isNan (clamp x) = false
  lower_ascii : ∀ text : Text, text.all Char.isLower = true → lower text = text

/-- What a nullable `REAL` column holds. -/
inductive RealColumn (F : Type) where
  | null
  | real (x : F)
  | text (s : Text)

/-- The arguments of `add_relation` (`graph.py:150-163`); `null` is `None`. -/
structure AddRelation (F : Type) where
  subject : Text
  predicate : Text
  object : Text
  memoryId : Text
  graphName : Json F
  validFrom : Json F
  validTo : Json F
  confidence : Json F
  source : Json F
  createdAt : Number F

/-- A row of `relations` (`graph.py:76-93`) without its number and its normalised columns. -/
structure RelationRow (F : Type) where
  graphName : Text
  subject : Text
  predicate : Text
  object : Text
  memoryId : Text
  validFrom : RealColumn F
  validTo : RealColumn F
  confidence : F
  source : Option Text
  createdAt : F

/-- The table. -/
structure GraphStore (F : Type) where
  relations : List (RelationRow F)

/-- `ALLOWED_GRAPH_NAMES` (`graph.py:14-25`). -/
def allowedGraphNames : List Text :=
  ["semantic".toList, "temporal".toList, "multimodal".toList, "procedural".toList,
    "provenance".toList, "topology".toList, "facts".toList, "conflict".toList,
    "knowledge".toList, "default".toList]

section Model

variable {F : Type} (rt : GraphRuntime F)

/-- `str(value)`. -/
def strOf : Json F → Text
  | .arr items => rt.container (.arr items)
  | .obj d => rt.container (.obj d)
  | j => pyStr rt.toPython j

/-- `float(value)`. -/
def floatOf : Json F → Option F
  | .bool b => some (rt.ofInt (if b = true then 1 else 0))
  | .int n => if rt.inRange n = true then some (rt.ofInt n) else none
  | .float x => some x
  | .str s => rt.parseFloat s
  | _ => none

/-- An integer that a statement's parameter takes. -/
def fitsParameter (n : Int) : Bool := -2 ^ 63 ≤ n && n < 2 ^ 63

/-- What a nullable `REAL` column makes of a parameter; containers are no parameters. -/
def bindReal : Json F → Option (RealColumn F)
  | .null => some .null
  | .bool b => some (.real (rt.ofInt (if b = true then 1 else 0)))
  | .int n => if fitsParameter n = true then some (.real (rt.ofInt n)) else none
  | .float x => some (if rt.isNan x = true then .null else .real x)
  | .str s => some ((rt.numericText s).elim (.text s) .real)
  | _ => none

/-- What a nullable `TEXT` column makes of a parameter. -/
def bindText : Json F → Option (Option Text)
  | .null => some none
  | .bool b => some (some (decimal (if b = true then 1 else 0)))
  | .int n => if fitsParameter n = true then some (some (decimal n)) else none
  | .float x => some (if rt.isNan x = true then none else some (rt.realText x))
  | .str s => some (some s)
  | _ => none

/-- `_graph_name` (`graph.py:467-479`). -/
def graphNameOf (value validFrom validTo : Json F) : Option Text :=
  if isNone value = true ∨ strip (strOf rt value) = [] then
    some (if (isNone validFrom && isNone validTo) = true then "semantic".toList else "temporal".toList)
  else
    let name := (norm rt.toLedgerRuntime (strOf rt value)).map fun c => if c = ' ' then '_' else c
    if name ∈ allowedGraphNames then some name else none

/-- A text that has to be there, stripped. -/
def required (text : Text) : Option Text := if strip text = [] then none else some (strip text)

/-- The values are one under a `UNIQUE` constraint, where no `NULL` is equal to another. -/
def RealColumn.sameValue : RealColumn F → RealColumn F → Bool
  | .real x, .real y => rt.le x y && rt.le y x
  | .text s, .text t => s = t
  | _, _ => false

/-- The two rows violate the `UNIQUE` constraint (`graph.py:91`). -/
def RelationRow.sameRelation (row row' : RelationRow F) : Bool :=
  row.graphName = row'.graphName &&
    norm rt.toLedgerRuntime row.subject = norm rt.toLedgerRuntime row'.subject &&
    norm rt.toLedgerRuntime row.predicate = norm rt.toLedgerRuntime row'.predicate &&
    norm rt.toLedgerRuntime row.object = norm rt.toLedgerRuntime row'.object &&
    row.memoryId = row'.memoryId && row.validFrom.sameValue rt row'.validFrom &&
    row.validTo.sameValue rt row'.validTo

namespace GraphStore

/-- `clear` (`graph.py:146-148`). -/
def empty : GraphStore F := ⟨[]⟩

/-- `INSERT OR IGNORE INTO relations`. -/
def insertOrIgnore (row : RelationRow F) (s : GraphStore F) : GraphStore F :=
  if s.relations.any (RelationRow.sameRelation rt row) = true then s else ⟨s.relations ++ [row]⟩

/-- `add_relation` (`graph.py:150-206`). -/
def addRelation (a : AddRelation F) (s : GraphStore F) : Option (GraphStore F) := do
  let name ← graphNameOf rt a.graphName a.validFrom a.validTo
  let confidence ← floatOf rt a.confidence
  let subject ← required a.subject
  let predicate ← required a.predicate
  let object ← required a.object
  let validFrom ← bindReal rt a.validFrom
  let validTo ← bindReal rt a.validTo
  let source ← bindText rt a.source
  let createdAt ← bindReal rt a.createdAt.value
  match createdAt with
  | .real createdAt =>
    pure (s.insertOrIgnore rt ⟨name, subject, predicate, object, a.memoryId, validFrom, validTo,
      rt.clamp confidence, source, createdAt⟩)
  -- `OR IGNORE` also leaves out a row with `NULL` in a `NOT NULL` column.
  | _ => pure s

end GraphStore

/-- The arguments of `add_relation` for a relation of an envelope (`graph.py:211-222`). A
relation that is no dictionary has no `get`. -/
def relationArgs (m : IndexedFields F) (item : Json F) : Option (AddRelation F) :=
  match item with
  | .obj _ => some {
      subject := strOf rt ((field item "subject").getD (.str []))
      predicate := strOf rt ((field item "predicate").getD (.str []))
      object := strOf rt ((field item "object").getD (.str []))
      memoryId := m.id
      graphName := (field item "graph_name").getD .null
      validFrom := (field item "valid_from").getD .null
      validTo := (field item "valid_to").getD .null
      confidence := (field item "confidence").getD (.float m.confidence)
      source := (valueAt "source".toList m.provenance).getD .null
      createdAt := m.createdAt }
  | _ => none

/-- `GraphStore.index_memory` (`graph.py:208-224`). -/
def GraphStore.indexMemory (m : IndexedFields F) : Call (GraphStore F) Unit :=
  forM m.relations fun item => commit fun s => (relationArgs rt m item).bind fun a => s.addRelation rt a

/-- `add_relation` does not raise: the graph is known, the confidence is a number, no text
is blank and the columns take the values. -/
def AddRelation.accepted (a : AddRelation F) : Bool :=
  (graphNameOf rt a.graphName a.validFrom a.validTo).isSome && (floatOf rt a.confidence).isSome &&
    (required a.subject).isSome && (required a.predicate).isSome && (required a.object).isSome &&
    (bindReal rt a.validFrom).isSome && (bindReal rt a.validTo).isSome &&
    (bindText rt a.source).isSome && (bindReal rt a.createdAt.value).isSome

end Model

/-! ## When a relation is added -/

section Facts

variable {F : Type} {rt : GraphRuntime F}

theorem required_isSome (text : Text) : (required text).isSome = decide (strip text ≠ []) := by
  unfold required
  split <;> simp_all

/-- The name of a graph is the name of this graph. -/
theorem graphNameOf_allowed {name : Text} (h : name ∈ allowedGraphNames) (validFrom validTo : Json F) :
    graphNameOf rt (.str name) validFrom validTo = some name := by
  have hnames : ∀ name ∈ allowedGraphNames, name.all Char.isLower = true ∧ strip name = name ∧
      name ≠ [] ∧ [' '].intercalate (split name) = name ∧
      (name.map fun c => if c = ' ' then '_' else c) = name := by
    decide
  obtain ⟨hlower, hstrip, hne, hsplit, hspace⟩ := hnames name h
  have hnorm : norm rt.toLedgerRuntime name = name := by
    rw [norm, hstrip, rt.lower_ascii name hlower, hsplit]
  have hstr : strOf rt (.str name) = name := rfl
  simp [graphNameOf, isNone, hstr, hstrip, hne, hnorm, hspace, h]

namespace GraphStore

theorem addRelation_isSome (a : AddRelation F) (s : GraphStore F) :
    (s.addRelation rt a).isSome = a.accepted rt := by
  unfold addRelation AddRelation.accepted
  cases graphNameOf rt a.graphName a.validFrom a.validTo <;> try rfl
  cases floatOf rt a.confidence <;> try rfl
  cases required a.subject <;> try rfl
  cases required a.predicate <;> try rfl
  cases required a.object <;> try rfl
  cases bindReal rt a.validFrom <;> try rfl
  cases bindReal rt a.validTo <;> try rfl
  cases bindText rt a.source <;> try rfl
  rcases bindReal rt a.createdAt.value with _ | (_ | _ | _) <;> rfl

theorem decides_addRelation (a : AddRelation F) :
    Decides (commit (addRelation rt a)) (a.accepted rt) :=
  decides_commit (addRelation_isSome a)

/-- Indexing an envelope returns where each of its relations is accepted. -/
theorem decides_indexMemory (m : IndexedFields F) :
    Decides (indexMemory rt m)
      (m.relations.all fun item => (relationArgs rt m item).any (AddRelation.accepted rt)) := by
  apply decides_forM
  intro item _
  apply decides_commit
  intro s
  cases relationArgs rt m item with
  | none => rfl
  | some a => exact addRelation_isSome a s

end GraphStore

end Facts

/-- The runtime of the examples, in which no text is a number. -/
def sampleGraphRuntime : GraphRuntime SampleNumber where
  toLedgerRuntime := sampleLedgerRuntime
  container _ := "{}".toList
  parseFloat _ := none
  inRange _ := true
  numericText _ := none
  realText _ := "0.5".toList
  isNan_clamp _ := rfl
  lower_ascii _ _ := rfl

end AgentMemory
