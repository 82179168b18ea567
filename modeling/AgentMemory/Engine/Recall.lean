import AgentMemory.Engine.Engram
import AgentMemory.Engine.Inspect
import AgentMemory.Engine.Mobius
import AgentMemory.Engine.Packets
import AgentMemory.Engine.Walks
import AgentMemory.Lib.Fallible
import AgentMemory.Lib.Gather

/-!
# Recall

`RecallPipeline` of `engines/living_memoryv2/src/living_memoryv2/recall.py`. Six layers find memories, each with a
score; what is found of one memory is gathered into one candidate, the lifecycle drops or rescores it, and the first
of the ranking are returned. Every layer filters what it finds and no candidate changes its memory, so no result is
outside of the scope and the tags: `recall_isolated`.
-/

namespace AgentMemory

open Dicts PyText JsonText Tables Sorted Limits Fallible

/-- The runtime of the layers, with `math.sqrt`, the division of floats and that of integers. -/
structure RecallRuntime (F : Type) extends PacketRuntime F, WalkRuntime F, EngramRuntime F where
  sqrt : F → F
  div : F → F → F
  ratio : Nat → Nat → F

/-- `RecallResult` (`recall.py:14-32`): a result with the score that each layer gave it. -/
structure LayeredResult (F : Type) extends RecallResult F where
  layerSignals : List (Text × F)

/-- What a layer finds: the arguments of `_merge` (`recall.py:173-179`). -/
structure Finding (F : Type) where
  memory : MemoryEnvelope F
  layer : Text
  score : F

/-- The arguments of `recall` (`recall.py:49-59`). -/
structure RecallArgs (F : Type) extends EngramArgs F where
  topK : Nat
  useEngram : Bool
  atTime : Option F
  graphHops : Int

/-- `RecallPipeline` (`recall.py:35-47`) with the index of its store and the options of its cache. -/
structure RecallPipeline (F : Type) where
  store : TemporalStore F
  mobiusIndex : MobiusIndex
  graphStore : Option (GraphStore F)
  engramCache : Option (EngramCache F)
  engramOptions : EngramOptions
  criticalThreshold : F

/-- What SQLite and the sorts of the runtime decide: the rows of the full-text table that a search for the expression
selects, best first and none where it fails, the orders that other statements leave open, and the sorts. -/
structure RecallQueries (F : Type) where
  fullText : (expression query : Text) → List FtsRow → List FtsRow
  neighbours : List MobiusRow → List MobiusRow
  perm_neighbours : ∀ rows, (neighbours rows).Perm rows
  visits : Visits F
  walked : StableSort (Scored F)
  ranked : NeighbourSort (LayeredResult F)

section Model

variable {F : Type} (rt : RecallRuntime F)

/-! ## Terms and scores -/

/-- The terms, with others where one of these is among them. -/
def withTerms (terms : List Text) (rule : List String × List String) : List Text :=
  if rule.1.any (fun word => word.toList ∈ terms) = true then terms ++ rule.2.map String.toList else terms

/-- `_terms` (`recall.py:261-274`). -/
def queryTerms (query : Text) : List Text :=
  let raw := ((rt.lower query).splitOnP fun c => !rt.isWord c).filter (· ≠ [])
  let terms := [(["now", "latest", "active"], ["current"]), (["current"], ["now"]), (["run"], ["command", "commands"]),
    (["missing"], ["gap", "gaps"]), (["gap", "gaps"], ["missing"])].foldl withTerms raw
  terms.dedup.mergeSort fun s t => decide (s ≤ t)

/-- `_relation_text` (`recall.py:290-297`). -/
def MemoryEnvelope.relationText (m : MemoryEnvelope F) : Text :=
  let parts := m.relations.flatMap fun relation =>
    ["subject", "predicate", "object"].map fun key => strOr rt.toFacadeRuntime (field relation key) []
  [' '].intercalate (parts.filter (· ≠ []))

/-- `haystack` (`recall.py:245-253`). -/
def haystack (m : MemoryEnvelope F) : Text :=
  rt.lower ([' '].intercalate [m.textContent rt.toPython, [' '].intercalate m.tags, [' '].intercalate m.entities,
    m.memoryType, m.relationText rt])

/-- `_lexical_score` (`recall.py:241-259`). -/
def lexicalScore (query : Text) (m : MemoryEnvelope F) : F :=
  let terms := queryTerms rt query
  let matched := terms.countP fun term => decide (term <:+: haystack rt m)
  if matched = 0 then rt.ofRat 0
  else
    lesser rt.toLifecycleRuntime (rt.ofRat 1)
      (rt.add (rt.mul (rt.sqrt (rt.ratio matched terms.length)) (rt.ofRat (70 / 100)))
        (rt.mul m.importance (rt.ofRat (15 / 100))))

/-- `base + memory.importance * weight`. -/
def weighted (base weight : ℚ) (m : MemoryEnvelope F) : F := rt.add (rt.ofRat base) (rt.mul m.importance (rt.ofRat weight))

/-! ## Candidates -/

/-- `min(1.0, (score + memory.confidence) / 2)`. -/
def findingConfidence (finding : Finding F) (score : F) : F :=
  lesser rt.toLifecycleRuntime (rt.ofRat 1) (rt.div (rt.add score finding.memory.confidence) (rt.ofInt 2))

/-- `add_reason` (`recall.py:27-29`). -/
def LayeredResult.addReason (item : LayeredResult F) (reason : Text) : LayeredResult F :=
  { item with whyRetrieved := if reason ∈ item.whyRetrieved then item.whyRetrieved else item.whyRetrieved ++ [reason] }

/-- `add_signal` (`recall.py:31-32`). -/
def LayeredResult.addSignal (item : LayeredResult F) (layer : Text) (score : F) : LayeredResult F :=
  let signal := greater rt.toLifecycleRuntime ((valueAt layer item.layerSignals).getD (rt.ofRat 0)) score
  { item with layerSignals := insert layer signal item.layerSignals }

/-- A new candidate (`recall.py:180-189`). -/
def Finding.candidate (finding : Finding F) : LayeredResult F :=
  let score := toUnit rt.toLifecycleRuntime finding.score
  { memory := finding.memory
    score := score
    confidence := findingConfidence rt finding score
    whyRetrieved := [finding.layer]
    layerSignals := [(finding.layer, score)] }

/-- A candidate whose memory is found again (`recall.py:180`, `190-194`). -/
def LayeredResult.foundAgain (current : LayeredResult F) (finding : Finding F) : LayeredResult F :=
  let score := toUnit rt.toLifecycleRuntime finding.score
  let current := { current with
    score := greater rt.toLifecycleRuntime current.score score
    confidence := greater rt.toLifecycleRuntime current.confidence (findingConfidence rt finding score) }
  (current.addReason finding.layer).addSignal rt finding.layer score

/-- The candidates, one for each memory. -/
abbrev RecallCandidates (F : Type) := Table (LayeredResult F) fun item => item.memory.id

/-- `_merge` (`recall.py:173-194`). -/
def merging : Gathering (Finding F) fun item : LayeredResult F => item.memory.id where
  keyOf finding := finding.memory.id
  start := Finding.candidate rt
  add := LayeredResult.foundAgain rt
  key_start _ := rfl
  key_add _ _ := rfl

/-- The candidates of these findings. -/
def candidatesOf (findings : List (Finding F)) : RecallCandidates F := findings.foldl (merging rt).gather Table.empty

/-! ## Layers -/

namespace RecallArgs

variable (a : RecallArgs F)

/-- The conditions of `_matches` (`recall.py:276-288`) and `_filter` (`store.py:262-277`). -/
def admits (m : MemoryEnvelope F) : Bool := m.matchesFilter rt.toListingRuntime (a.scope.getD []) (a.tags.getD [])

end RecallArgs

namespace RecallPipeline

variable (queries : RecallQueries F) (now : F) (p : RecallPipeline F) (a : RecallArgs F)

/-- `list_memories` (`store.py:195-217`); a limit that is no parameter raises. -/
def listMemories (minImportance : Option F) (limit : Nat) : Option (List (MemoryEnvelope F)) :=
  if fitsParameter (limit * 4) = true then
    p.store.listMemories rt.toListingRuntime now (a.scope.getD []) (a.tags.getD []) minImportance (some limit)
  else none

/-- The memories with these ids that are stored and match (`recall.py:73-79`, `124-129`). -/
def inspected (ids : List Text) : Option (List (MemoryEnvelope F)) :=
  ((ids.filter fun id => (p.store.memories.find? id).isSome).mapM fun id =>
    p.store.inspect rt.toPython now id).map (List.filter (a.admits rt))

/-- `search_text` (`store.py:154-193`) with `_fts_expression` (`store.py:352-366`). -/
def searchText (limit : Nat) : Option (List (MemoryEnvelope F)) :=
  let expression := " OR ".toList.intercalate (queryTerms rt a.query)
  if expression = [] then p.listMemories rt now a none limit
  else if fitsParameter (max (limit * 4) limit) = true then
    let rows := ((queries.fullText expression a.query p.store.fts).filterMap fun row =>
      p.store.memories.find? row.id).take (max (limit * 4) limit)
    (rows.mapM (MemoryRow.envelope rt.toListingRuntime now)).map fun memories =>
      (memories.filter (a.admits rt)).take limit
  else none

/-- `by_mobius_neighbors` (`store.py:234-260`) with depth one. -/
def neighboursOf (address : MobiusAddress) (limit : Nat) : Option (List (MemoryEnvelope F)) :=
  let keys := p.mobiusIndex.neighbors address 1
  let rows := (queries.neighbours (p.store.mobius.rows.filter fun row => decide (row.address ∈ keys))).filterMap
    fun row => p.store.memories.find? row.memoryID
  (rows.mapM (MemoryRow.envelope rt.toListingRuntime now)).map fun memories =>
    (memories.filter (a.admits rt)).take limit

end RecallPipeline

/-- A bound of a relation that the time keeps; a text raises. -/
def RealColumn.bounds (keeps : F → Bool) : RealColumn F → Option Bool
  | .null => some true
  | .real x => some (keeps x)
  | .text _ => none

/-- `_relation_is_active_at` (`graph.py:462-465`), where a time is asked for. -/
def RelationRow.activeAt (row : RelationRow F) (atTime : Option F) : Option Bool :=
  match atTime with
  | none => some true
  | some x => do
    let starts ← row.validFrom.bounds fun y => rt.le y x
    let ends ← row.validTo.bounds fun y => rt.le x y
    some (starts && ends)

/-- `relation_nodes_for_memory` (`graph.py:272-312`). -/
def GraphStore.relationNodes (g : GraphStore F) (atTime : Option F) (id : Text) : Option (List Text) :=
  if id = [] then some []
  else
    let nodes := (g.relations.filter fun row => decide (row.memoryId = id)).mapM fun row =>
      (row.activeAt rt atTime).map fun active => if active = true then row.ends rt.toWalkRuntime else []
    nodes.map fun nodes => nodes.flatten.filter (· ≠ [])

namespace RecallPipeline

variable (queries : RecallQueries F) (now : F) (p : RecallPipeline F) (a : RecallArgs F)

/-- `_graph_nodes` (`recall.py:209-220`), of which the cache keeps what the query returns. -/
def graphNodes (id : Text) : Option (List Text) :=
  match p.graphStore with
  | some g => g.relationNodes rt a.atTime id
  | none => some []

/-- The critical memories (`recall.py:63-69`). -/
def listedCritical : Option (List (MemoryEnvelope F)) := p.listMemories rt now a (some p.criticalThreshold) (max a.topK 10)

def criticalFinding (m : MemoryEnvelope F) : Finding F := ⟨m, "critical".toList, weighted rt (70 / 100) (25 / 100) m⟩

/-- The ids that the cache answers (`recall.py:71-72`), and the cache without the ids of no memory. -/
def engramIds : List Text × Option (EngramCache F) :=
  match p.engramCache with
  | some cache =>
    if a.useEngram = true then
      let answer := cache.lookup rt.toEngramRuntime p.engramOptions a.toEngramArgs (some a.topK)
      (answer.1, some ((answer.1.filter fun id => (p.store.memories.find? id).isNone).foldl
        (fun cache id => (cache.invalidateMemory id).2) answer.2))
    else ([], some cache)
  | none => ([], none)

/-- `_mobius_graph_validates` (`recall.py:196-207`): the memory shares a node with the seed. -/
def mobiusGraphValidates (seedNodes : List Text) (id : Text) : Option Bool :=
  if seedNodes = [] then some false else (p.graphNodes rt a id).map fun nodes => nodes.any (· ∈ seedNodes)

/-- The neighbours of a memory that the search found (`recall.py:91-115`). -/
def neighbourFindings (seed : MemoryEnvelope F) (nodes : List Text) : Option (List (Finding F)) :=
  match p.store.mobius.find? seed.id with
  | none => some []
  | some row => do
    let neighbours ← p.neighboursOf rt queries now a row.address (max (a.topK * 2) 10)
    let found ← neighbours.mapM fun m => (p.mobiusGraphValidates rt a nodes m.id).map fun validated =>
      ⟨m, "mobius".toList, weighted rt (45 / 100) (20 / 100) m⟩ ::
        if m.id ≠ seed.id ∧ validated = true then
          [⟨m, "mobius_graph".toList, weighted rt (68 / 100) (22 / 100) m⟩]
        else []
    some found.flatten

/-- The layer of the Möbius neighbourhoods (`recall.py:86-115`). -/
def mobiusFindings (searched : List (MemoryEnvelope F)) : Option (List (Finding F)) := do
  let seeds := searched.take (min (max a.topK 1) 8)
  let nodes ← seeds.mapM fun seed => p.graphNodes rt a seed.id
  let found ← (seeds.zip nodes).mapM fun seed => p.neighbourFindings rt queries now a seed.1 seed.2
  some found.flatten

/-- The layer of the relation graph (`recall.py:117-130`). -/
def graphFindings : Option (List (Finding F)) :=
  match p.graphStore with
  | none => some []
  | some g => do
    let ids ← g.walkRelatedMemoryIds rt.toWalkRuntime queries.visits
      ⟨queryTerms rt a.query, (max (a.topK * 4) 10 : Nat), a.graphHops, a.atTime, []⟩ queries.walked
    let memories ← p.inspected rt now a ids
    some (memories.map fun m => ⟨m, "graph".toList, weighted rt (72 / 100) (28 / 100) m⟩)

/-- What the layers find after the critical memories (`recall.py:71-130`), in order. -/
def laterFindings : Option (List (Finding F)) := do
  let cached ← p.inspected rt now a (p.engramIds rt a).1
  let searched ← p.searchText rt queries now a (max (a.topK * 4) 10)
  let neighbours ← p.mobiusFindings rt queries now a searched
  let related ← p.graphFindings rt queries now a
  some (cached.map (fun m => ⟨m, "engram".toList, weighted rt (60 / 100) (25 / 100) m⟩) ++
    searched.map (fun m => ⟨m, "fts".toList, rt.add (lexicalScore rt a.query m) (rt.ofRat (35 / 100))⟩) ++
    neighbours ++ related)

/-- The fallback where the candidates are too few (`recall.py:132-136`). -/
def lexicalFindings (candidates : RecallCandidates F) : Option (List (Finding F)) :=
  if candidates.rows.length < a.topK then
    (p.listMemories rt now a none 100).map fun memories =>
      (memories.map fun m => ⟨m, "lexical".toList, lexicalScore rt a.query m⟩).filter fun finding =>
        less rt.toLifecycleRuntime (rt.ofRat 0) finding.score
  else some []

end RecallPipeline

/-! ## The ranking -/

/-- The lifecycle of a candidate (`recall.py:138-150`): none of the memory is left where it is not recalled. -/
def LayeredResult.settle (a : RecallArgs F) (item : LayeredResult F) : Option (Option (LayeredResult F)) := do
  let view ← lifecycleFor rt.toGovernedRuntime item.memory
  let terms := queryTerms rt a.query
  if view.shouldRecall rt.toLifecycleRuntime terms a.atTime = true then do
    let adjusted ← view.adjustedScore rt.toLifecycleRuntime terms a.atTime item.score
    let effective ← view.effectiveImportance rt.toLifecycleRuntime terms a.atTime none
    if (rt.le adjusted item.score && rt.le item.score adjusted) = true ∧ view.state = .active then some (some item)
    else
      let item := { item with
        score := adjusted
        confidence := toUnit rt.toLifecycleRuntime (rt.div (rt.add item.confidence effective) (rt.ofInt 2)) }
      some (some ((item.addReason "lifecycle".toList).addSignal rt "lifecycle".toList effective))
  else some none

/-- The first component of the key of the ranking (`recall.py:155`). -/
def LayeredResult.leads (item : LayeredResult F) : Bool :=
  "critical".toList ∈ item.whyRetrieved &&
    (lifecycleFor rt.toGovernedRuntime item.memory).any fun view => view.state = .active

/-- The key of the ranking (`recall.py:154-160`). -/
def rankingKeys : List (LayeredResult F → LayeredResult F → Bool) :=
  [fun x y => !x.leads rt || y.leads rt,
    fun x y => rt.le x.score y.score,
    fun x y => rt.le x.memory.importance y.memory.importance,
    fun x y => rt.le x.memory.confidence y.memory.confidence,
    fun x y => Number.le rt.toFrameRuntime x.memory.createdAt y.memory.createdAt]

/-- The ranking of the candidates that are recalled (`recall.py:138-162`). -/
def rankingOf (queries : RecallQueries F) (a : RecallArgs F) (candidates : RecallCandidates F) :
    Option (List (LayeredResult F)) :=
  (candidates.rows.mapM (LayeredResult.settle rt a)).map fun settled =>
    queries.ranked.descending (lexLess (rankingKeys rt)) settled.reduceOption

namespace RecallPipeline

variable (queries : RecallQueries F) (now : F) (p : RecallPipeline F) (a : RecallArgs F)

/-- What is found (`recall.py:63-136`). -/
def findings : Option (List (Finding F)) := do
  let critical ← p.listedCritical rt now a
  let later ← p.laterFindings rt queries now a
  let found := critical.map (criticalFinding rt) ++ later
  let lexical ← p.lexicalFindings rt now a (candidatesOf rt found)
  some (found ++ lexical)

/-- The cache after `record_result` (`recall.py:164-170`). -/
def recorded (results : List (LayeredResult F)) : Option (EngramCache F) :=
  (p.engramIds rt a).2.map fun cache =>
    if a.useEngram = true then
      (cache.recordResult rt.toEngramRuntime p.engramOptions a.toEngramArgs (results.map fun item => item.memory.id)).2
    else cache

/-- `recall` (`recall.py:49-171`): the results, and the cache after it; none is an exception. -/
def recallMemories : Option (List (LayeredResult F) × Option (EngramCache F)) := do
  let found ← p.findings rt queries now a
  let ordered ← rankingOf rt queries a (candidatesOf rt found)
  let results := ordered.take a.topK
  some (results, p.recorded rt a results)

end RecallPipeline

end Model

/-! ## What the layers find -/

section Facts

variable {F : Type} {rt : RecallRuntime F} {queries : RecallQueries F} {now : F} {p : RecallPipeline F} {a : RecallArgs F}

theorem forall_mem_filter_take {α : Type} {keep : α → Bool} {l : List α} (n : Nat) :
    ∀ x ∈ (l.filter keep).take n, keep x = true :=
  fun _ hx => (List.mem_filter.mp (List.mem_of_mem_take hx)).2

/-- What a listing, a search or an inspection returns matches. -/
def AllAdmitted (rt : RecallRuntime F) (a : RecallArgs F) (memories : List (MemoryEnvelope F)) : Prop :=
  ∀ m ∈ memories, a.admits rt m = true

namespace RecallPipeline

theorem allAdmitted_listMemories {minImportance : Option F} {limit : Nat} {memories : List (MemoryEnvelope F)}
    (h : p.listMemories rt now a minImportance limit = some memories) : AllAdmitted rt a memories := by
  unfold listMemories at h
  split at h
  · obtain ⟨rows, -, hrows⟩ := Option.bind_eq_some_iff.mp h
    obtain rfl := Option.some.inj hrows
    exact forall_mem_filter_take limit
  · cases h

theorem allAdmitted_inspected {ids : List Text} {memories : List (MemoryEnvelope F)}
    (h : p.inspected rt now a ids = some memories) : AllAdmitted rt a memories := by
  obtain ⟨found, -, rfl⟩ := Option.map_eq_some_iff.mp h
  exact fun m hm => (List.mem_filter.mp hm).2

theorem allAdmitted_searchText {limit : Nat} {memories : List (MemoryEnvelope F)}
    (h : p.searchText rt queries now a limit = some memories) : AllAdmitted rt a memories := by
  unfold searchText at h
  dsimp only at h
  split at h
  · exact allAdmitted_listMemories h
  · split at h
    · obtain ⟨found, -, rfl⟩ := Option.map_eq_some_iff.mp h
      exact forall_mem_filter_take limit
    · cases h

theorem allAdmitted_neighboursOf {address : MobiusAddress} {limit : Nat} {memories : List (MemoryEnvelope F)}
    (h : p.neighboursOf rt queries now a address limit = some memories) : AllAdmitted rt a memories := by
  obtain ⟨found, -, rfl⟩ := Option.map_eq_some_iff.mp h
  exact forall_mem_filter_take limit

end RecallPipeline

/-- A finding of a memory that matches, of a layer other than the critical one. -/
def Finding.Later (rt : RecallRuntime F) (a : RecallArgs F) (finding : Finding F) : Prop :=
  a.admits rt finding.memory = true ∧ finding.layer ≠ "critical".toList

/-- The findings of a layer of its own. -/
theorem later_map {layer : Text} {score : MemoryEnvelope F → F} {memories : List (MemoryEnvelope F)}
    (h : AllAdmitted rt a memories) (hlayer : layer ≠ "critical".toList) :
    ∀ finding ∈ memories.map (fun m => (⟨m, layer, score m⟩ : Finding F)), finding.Later rt a := by
  intro finding hfinding
  obtain ⟨m, hm, rfl⟩ := List.mem_map.mp hfinding
  exact ⟨h m hm, hlayer⟩

namespace RecallPipeline

theorem later_neighbourFindings {seed : MemoryEnvelope F} {nodes : List Text} {found : List (Finding F)}
    (h : p.neighbourFindings rt queries now a seed nodes = some found) : ∀ finding ∈ found, finding.Later rt a := by
  unfold neighbourFindings at h
  split at h
  · obtain rfl := Option.some.inj h
    exact fun finding hfinding => absurd hfinding List.not_mem_nil
  · obtain ⟨neighbours, hneighbours, h⟩ := Option.bind_eq_some_iff.mp h
    obtain ⟨each, heach, h⟩ := Option.bind_eq_some_iff.mp h
    obtain rfl := Option.some.inj h
    refine forall_mem_flatten_of_mapM heach ?_
    intro m hm findings hfindings finding hfinding
    obtain ⟨validated, -, rfl⟩ := Option.map_eq_some_iff.mp hfindings
    have hadmits := allAdmitted_neighboursOf hneighbours m hm
    have hmobius : "mobius".toList ≠ "critical".toList := by decide
    have hgraph : "mobius_graph".toList ≠ "critical".toList := by decide
    obtain rfl | hfinding := List.mem_cons.mp hfinding
    · exact ⟨hadmits, hmobius⟩
    · split at hfinding
      · obtain rfl := List.mem_singleton.mp hfinding
        exact ⟨hadmits, hgraph⟩
      · exact absurd hfinding List.not_mem_nil

theorem later_mobiusFindings {searched : List (MemoryEnvelope F)} {found : List (Finding F)}
    (h : p.mobiusFindings rt queries now a searched = some found) : ∀ finding ∈ found, finding.Later rt a := by
  obtain ⟨nodes, -, h⟩ := Option.bind_eq_some_iff.mp h
  obtain ⟨each, heach, h⟩ := Option.bind_eq_some_iff.mp h
  obtain rfl := Option.some.inj h
  exact forall_mem_flatten_of_mapM heach fun _ _ _ => later_neighbourFindings

theorem later_graphFindings {found : List (Finding F)} (h : p.graphFindings rt queries now a = some found) :
    ∀ finding ∈ found, finding.Later rt a := by
  unfold graphFindings at h
  split at h
  · obtain rfl := Option.some.inj h
    exact fun finding hfinding => absurd hfinding List.not_mem_nil
  · obtain ⟨ids, -, h⟩ := Option.bind_eq_some_iff.mp h
    obtain ⟨memories, hmemories, h⟩ := Option.bind_eq_some_iff.mp h
    obtain rfl := Option.some.inj h
    exact later_map (allAdmitted_inspected hmemories) (by decide)

theorem later_laterFindings {found : List (Finding F)} (h : p.laterFindings rt queries now a = some found) :
    ∀ finding ∈ found, finding.Later rt a := by
  obtain ⟨cached, hcached, h⟩ := Option.bind_eq_some_iff.mp h
  obtain ⟨searched, hsearched, h⟩ := Option.bind_eq_some_iff.mp h
  obtain ⟨neighbours, hneighbours, h⟩ := Option.bind_eq_some_iff.mp h
  obtain ⟨related, hrelated, h⟩ := Option.bind_eq_some_iff.mp h
  obtain rfl := Option.some.inj h
  intro finding hfinding
  simp only [List.mem_append] at hfinding
  obtain ((hfinding | hfinding) | hfinding) | hfinding := hfinding
  · exact later_map (allAdmitted_inspected hcached) (by decide) finding hfinding
  · exact later_map (allAdmitted_searchText hsearched) (by decide) finding hfinding
  · exact later_mobiusFindings hneighbours finding hfinding
  · exact later_graphFindings hrelated finding hfinding

theorem later_lexicalFindings {candidates : RecallCandidates F} {found : List (Finding F)}
    (h : p.lexicalFindings rt now a candidates = some found) : ∀ finding ∈ found, finding.Later rt a := by
  unfold lexicalFindings at h
  split at h
  · obtain ⟨memories, hmemories, rfl⟩ := Option.map_eq_some_iff.mp h
    intro finding hfinding
    exact later_map (allAdmitted_listMemories hmemories) (by decide) finding (List.mem_filter.mp hfinding).1
  · obtain rfl := Option.some.inj h
    exact fun finding hfinding => absurd hfinding List.not_mem_nil

/-- What is found: the critical memories first, and then what other layers find. -/
theorem findings_spec {found : List (Finding F)} (h : p.findings rt queries now a = some found) :
    ∃ critical later, p.listedCritical rt now a = some critical ∧ found = critical.map (criticalFinding rt) ++ later ∧
      AllAdmitted rt a critical ∧ ∀ finding ∈ later, finding.Later rt a := by
  simp only [findings, Option.bind_eq_bind, Option.bind_eq_some_iff] at h
  obtain ⟨critical, hcritical, later, hlater, lexical, hlexical, h⟩ := h
  obtain rfl := Option.some.inj h
  have hadmits : AllAdmitted rt a critical := by
    unfold listedCritical at hcritical
    exact allAdmitted_listMemories hcritical
  refine ⟨critical, later ++ lexical, hcritical, List.append_assoc _ _ _, hadmits, ?_⟩
  intro finding hfinding
  obtain hfinding | hfinding := List.mem_append.mp hfinding
  · exact later_laterFindings hlater finding hfinding
  · exact later_lexicalFindings hlexical finding hfinding

end RecallPipeline

/-! ## What a candidate keeps -/

namespace LayeredResult

variable {item item' : LayeredResult F} {findings : List (Finding F)}

theorem mem_addReason {reason reason' : Text} :
    reason' ∈ (item.addReason reason).whyRetrieved ↔ reason' ∈ item.whyRetrieved ∨ reason' = reason := by
  unfold addReason
  split
  · next h =>
    refine ⟨Or.inl, fun hreason => ?_⟩
    obtain hmem | rfl := hreason
    · exact hmem
    · exact h
  · simp

theorem memory_foundAgain (findings : List (Finding F)) (item : LayeredResult F) :
    (findings.foldl (foundAgain rt) item).memory = item.memory := by
  induction findings generalizing item with
  | nil => rfl
  | cons finding findings ih => rw [List.foldl_cons, ih]; rfl

theorem inUnit_foundAgain (h : InUnit rt.toLifecycleRuntime item.score) :
    InUnit rt.toLifecycleRuntime (findings.foldl (foundAgain rt) item).score := by
  induction findings generalizing item with
  | nil => exact h
  | cons finding findings ih => exact ih (inUnit_greater h (inUnit_toUnit _))

theorem mem_why_foundAgain {reason : Text} : reason ∈ (findings.foldl (foundAgain rt) item).whyRetrieved ↔
    reason ∈ item.whyRetrieved ∨ ∃ finding ∈ findings, finding.layer = reason := by
  induction findings generalizing item with
  | nil => simp
  | cons finding findings ih =>
    have hstep : reason ∈ (item.foundAgain rt finding).whyRetrieved ↔
        reason ∈ item.whyRetrieved ∨ reason = finding.layer := mem_addReason
    rw [List.foldl_cons, ih, hstep]
    simp [or_assoc, eq_comm]

/-- What the lifecycle leaves of a candidate. -/
theorem settle_spec (h : item.settle rt a = some (some item')) : item'.memory = item.memory ∧
    (∃ view, lifecycleFor rt.toGovernedRuntime item'.memory = some view ∧
      view.shouldRecall rt.toLifecycleRuntime (queryTerms rt a.query) a.atTime = true) ∧
    (InUnit rt.toLifecycleRuntime item.score → InUnit rt.toLifecycleRuntime item'.score) ∧
    ("critical".toList ∈ item'.whyRetrieved ↔ "critical".toList ∈ item.whyRetrieved) := by
  obtain ⟨view, hview, h⟩ := Option.bind_eq_some_iff.mp h
  dsimp only at h
  split at h
  · next hrecall =>
    obtain ⟨adjusted, hadjusted, h⟩ := Option.bind_eq_some_iff.mp h
    obtain ⟨effective, -, h⟩ := Option.bind_eq_some_iff.mp h
    split at h
    · obtain rfl := Option.some.inj (Option.some.inj h)
      exact ⟨rfl, ⟨view, hview, hrecall⟩, id, Iff.rfl⟩
    · obtain rfl := Option.some.inj (Option.some.inj h)
      refine ⟨rfl, ⟨view, hview, hrecall⟩, fun _ => LifecycleView.inUnit_adjustedScore hadjusted, ?_⟩
      have hlifecycle : "critical".toList ≠ "lifecycle".toList := by decide
      exact mem_addReason.trans (or_iff_left hlifecycle)
  · cases h

end LayeredResult

/-- A candidate is made of the findings of its memory. -/
theorem mem_candidatesOf {findings : List (Finding F)} {item : LayeredResult F}
    (h : item ∈ (candidatesOf rt findings).rows) : ∃ first rest,
      (findings.filter fun finding => finding.memory.id = item.memory.id) = first :: rest ∧
        item = rest.foldl (LayeredResult.foundAgain rt) (first.candidate rt) ∧ item.memory = first.memory := by
  obtain ⟨first, rest, hfilter, hitem⟩ := Gathering.mem_foldl_gather.mp h
  refine ⟨first, rest, hfilter, hitem, ?_⟩
  rw [hitem]
  exact LayeredResult.memory_foundAgain rest _

/-- A memory of a candidate was found, and its score is one. -/
theorem found_of_mem_candidatesOf {findings : List (Finding F)} {item : LayeredResult F}
    (h : item ∈ (candidatesOf rt findings).rows) :
    (∃ finding ∈ findings, finding.memory = item.memory) ∧ InUnit rt.toLifecycleRuntime item.score := by
  obtain ⟨first, rest, hfilter, hitem, hmemory⟩ := mem_candidatesOf h
  have hfirst : first ∈ findings := List.mem_of_mem_filter (hfilter.symm ▸ List.mem_cons_self)
  refine ⟨⟨first, hfirst, hmemory.symm⟩, ?_⟩
  rw [hitem]
  exact LayeredResult.inUnit_foundAgain (inUnit_toUnit _)

/-! ## The ranking -/

/-! ## The results -/

/-- The ranking has what the lifecycle leaves, each memory once, and the leading candidates first. -/
theorem rankingOf_spec {candidates : RecallCandidates F} {ordered : List (LayeredResult F)}
    (h : rankingOf rt queries a candidates = some ordered) :
    (∀ item, item ∈ ordered ↔ ∃ candidate ∈ candidates.rows, candidate.settle rt a = some (some item)) ∧
      (ordered.map fun item => item.memory.id).Nodup ∧
        ordered.Pairwise fun item item' => item'.leads rt = true → item.leads rt = true := by
  obtain ⟨settled, hsettled, rfl⟩ := Option.map_eq_some_iff.mp h
  have hperm := queries.ranked.perm_descending (lexLess (rankingKeys rt)) settled.reduceOption
  have hids : (settled.reduceOption.map fun item => item.memory.id).Sublist
      (candidates.rows.map fun item => item.memory.id) :=
    sublist_reduceOption_of_mapM (fun _ _ hsettle => by rw [(LayeredResult.settle_spec hsettle).1]) hsettled
  refine ⟨fun item => ?_, ?_, queries.ranked.pairwise_descending _ _⟩
  · rw [hperm.mem_iff, mem_reduceOption_of_mapM hsettled]
  · exact (hperm.map _).nodup_iff.mpr (candidates.nodup.sublist hids)

theorem exists_settle_of_rankingOf {candidates : RecallCandidates F} {ordered : List (LayeredResult F)}
    (h : rankingOf rt queries a candidates = some ordered) :
    ∀ candidate ∈ candidates.rows, ∃ settled, candidate.settle rt a = some settled := by
  obtain ⟨settled, hsettled, -⟩ := Option.map_eq_some_iff.mp h
  exact exists_of_mapM hsettled

/-- A result for the arguments: its memory matches the scope and the tags and is recalled at the time, and its score
is between zero and one. -/
structure LayeredResult.Isolated (rt : RecallRuntime F) (a : RecallArgs F) (item : LayeredResult F) : Prop where
  admits : a.admits rt item.memory = true
  recalled : ∃ view, lifecycleFor rt.toGovernedRuntime item.memory = some view ∧
    view.shouldRecall rt.toLifecycleRuntime (queryTerms rt a.query) a.atTime = true
  inUnit : InUnit rt.toLifecycleRuntime item.score

/-- What recall ranks and returns. -/
theorem RecallPipeline.recallMemories_spec {results : List (LayeredResult F)} {cache : Option (EngramCache F)}
    (h : p.recallMemories rt queries now a = some (results, cache)) : ∃ found ordered,
      p.findings rt queries now a = some found ∧ rankingOf rt queries a (candidatesOf rt found) = some ordered ∧
        results = ordered.take a.topK := by
  simp only [recallMemories, Option.bind_eq_bind, Option.bind_eq_some_iff] at h
  obtain ⟨found, hfound, ordered, hordered, h⟩ := h
  obtain ⟨rfl, -⟩ := Prod.mk.inj (Option.some.inj h)
  exact ⟨found, ordered, hfound, hordered, rfl⟩

/-- Where only the critical memories are found and they are enough. -/
theorem RecallPipeline.findings_of_critical {critical : List (MemoryEnvelope F)} (hgraph : p.graphStore = none)
    (hcache : p.engramCache = none) (hsearch : p.searchText rt queries now a (max (a.topK * 4) 10) = some [])
    (hcritical : p.listedCritical rt now a = some critical)
    (henough : a.topK ≤ (candidatesOf rt (critical.map (criticalFinding rt))).rows.length) :
    p.findings rt queries now a = some (critical.map (criticalFinding rt)) := by
  have hids : p.engramIds rt a = ([], none) := by rw [engramIds, hcache]
  have hinspected : p.inspected rt now a [] = some [] := rfl
  have hmobius : p.mobiusFindings rt queries now a [] = some [] := by
    rw [mobiusFindings, List.take_nil]
    rfl
  have hrelated : p.graphFindings rt queries now a = some [] := by rw [graphFindings, hgraph]
  have hlater : p.laterFindings rt queries now a = some [] := by
    simp only [laterFindings, hids, hinspected, hsearch, hmobius, hrelated, Option.bind_eq_bind, Option.bind_some,
      List.map_nil, List.append_nil]
  have hlexical : p.lexicalFindings rt now a (candidatesOf rt (critical.map (criticalFinding rt))) = some [] := by
    rw [lexicalFindings, if_neg (Nat.not_lt.mpr henough)]
  simp only [findings, hcritical, hlater, Option.bind_eq_bind, Option.bind_some, List.append_nil, hlexical]

/-- The lifecycle returns where the logarithm of the usage is a float. -/
theorem LayeredResult.exists_settle {item : LayeredResult F} {view : LifecycleView F}
    (hview : lifecycleFor rt.toGovernedRuntime item.memory = some view)
    (hlog : (rt.log1p (max 0 view.usageCount)).isSome = true) : ∃ settled, item.settle rt a = some settled := by
  obtain ⟨logarithm, hlog⟩ := Option.isSome_iff_exists.mp hlog
  have heffective : ∃ effective, view.effectiveImportance rt.toLifecycleRuntime (queryTerms rt a.query) a.atTime none =
      some effective := by
    unfold LifecycleView.effectiveImportance LifecycleView.usageBonus
    dsimp only
    rw [hlog]
    split <;> exact ⟨_, rfl⟩
  obtain ⟨effective, heffective⟩ := heffective
  have hadjusted : ∃ adjusted, view.adjustedScore rt.toLifecycleRuntime (queryTerms rt a.query) a.atTime item.score =
      some adjusted := by
    unfold LifecycleView.adjustedScore
    rw [heffective]
    split <;> exact ⟨_, rfl⟩
  obtain ⟨adjusted, hadjusted⟩ := hadjusted
  simp only [settle, hview, heffective, hadjusted, Option.bind_eq_bind, Option.bind_some]
  split
  · split <;> exact ⟨_, rfl⟩
  · exact ⟨_, rfl⟩

theorem RecallPipeline.isolated_of_settled {found : List (Finding F)} (hfound : p.findings rt queries now a = some found)
    {candidate item : LayeredResult F} (hcandidate : candidate ∈ (candidatesOf rt found).rows)
    (h : candidate.settle rt a = some (some item)) : item.Isolated rt a := by
  obtain ⟨critical, later, -, rfl, hcritical, hlater⟩ := findings_spec hfound
  obtain ⟨⟨finding, hfinding, hmemory⟩, hscore⟩ := found_of_mem_candidatesOf hcandidate
  obtain ⟨hsame, hrecalled, hunit, -⟩ := LayeredResult.settle_spec h
  have hadmits : a.admits rt finding.memory = true := by
    obtain hfinding | hfinding := List.mem_append.mp hfinding
    · obtain ⟨m, hm, rfl⟩ := List.mem_map.mp hfinding
      exact hcritical m hm
    · exact (hlater finding hfinding).1
  refine ⟨?_, hrecalled, hunit hscore⟩
  rw [hsame, ← hmemory]
  exact hadmits

end Facts

def sampleRecallRuntime : RecallRuntime SampleNumber where
  toPacketRuntime := samplePacketRuntime
  le_total := sampleOrderedRuntime.le_total
  le_trans := sampleOrderedRuntime.le_trans
  equalsInt _ _ := false
  isNan_weighted _ _ _ := rfl
  nfkc text := text
  sqrt x := x
  div x _ := x
  ratio _ _ := .half

/-- Searches that find nothing. -/
def sampleQueries : RecallQueries SampleNumber where
  fullText _ _ _ := []
  neighbours rows := rows
  perm_neighbours rows := .refl rows
  visits := sampleVisits
  walked := .merge _
  ranked := .merge _

/-- A memory of the highest importance. -/
def notedMemory (id : Text) (createdAt : SampleNumber) (metadata : List (Text × Json SampleNumber)) :
    MemoryEnvelope SampleNumber :=
  { sampleMemory [] sampleText with
    id := id
    createdAt := .float createdAt
    importance := .one
    metadata := metadata }

theorem valid_notedMemory {id : Text} (hid : id ≠ []) (createdAt : SampleNumber)
    {metadata : List (Text × Json SampleNumber)} (hmetadata : Canonical (.obj metadata)) :
    (notedMemory id createdAt metadata).Valid samplePython :=
  { @valid_sampleMemory [] pairwise_noTags sampleText valid_sampleText with
    id_ne := hid
    metadata := hmetadata }

theorem pastEpoch_noted : samplePython.isZero .one = false := rfl

theorem fitsColumns_notedMemory (id : Text) (createdAt : SampleNumber) (metadata : List (Text × Json SampleNumber)) :
    ((notedMemory id createdAt metadata).original samplePython .one).fitsColumns samplePython = true := rfl

/-- `remember` of such a memory. -/
def notedCall {id : Text} (hid : id ≠ []) (createdAt : SampleNumber) {metadata : List (Text × Json SampleNumber)}
    (hmetadata : Canonical (.obj metadata)) : RememberCall samplePython where
  memory := notedMemory id createdAt metadata
  valid := valid_notedMemory hid createdAt hmetadata
  now := .one
  pastEpoch := pastEpoch_noted
  fitsColumns := fitsColumns_notedMemory id createdAt metadata

theorem noteId_ne : "m".toList ≠ [] := by decide

theorem canonical_noMetadata : Canonical (.obj ([] : List (Text × Json SampleNumber))) := ⟨List.Pairwise.nil, trivial⟩

/-- A recall for no scope. -/
theorem canonical_noScope : ∀ d : List (Text × Json SampleNumber), none = some d → Canonical (.obj d) := by
  intro d hd
  cases hd

/-- A pipeline of this store without a graph and a cache, for which the highest importance is critical. -/
def storePipeline (calls : List (RememberCall samplePython)) : RecallPipeline SampleNumber :=
  ⟨MemoryVault.ofRun .default calls, MobiusIndex.default, none, none, sampleEngramOptions, .one⟩

/-- `recall("milk", top_k=1)`. -/
def milkArgs : RecallArgs SampleNumber :=
  ⟨⟨"milk".toList, none, none, canonical_noScope⟩, 1, true, none, 1⟩

theorem searchText_milk (calls : List (RememberCall samplePython)) :
    (storePipeline calls).searchText sampleRecallRuntime sampleQueries .one milkArgs 10 = some [] := by
  have hterms : " OR ".toList.intercalate (queryTerms sampleRecallRuntime milkArgs.query) = "milk".toList := by
    decide +kernel
  have hfits : fitsParameter (max ((10 : Nat) * 4) (10 : Nat)) = true := by decide
  rw [RecallPipeline.searchText, hterms]
  dsimp only
  rw [if_neg (by decide), if_pos hfits]
  rfl

theorem admits_milkArgs (m : MemoryEnvelope SampleNumber) : milkArgs.admits sampleRecallRuntime m = true := rfl

theorem rows_storePipeline {calls : List (RememberCall samplePython)}
    (hids : (calls.map fun c => c.memory.id).Nodup) : (storePipeline calls).store.memories.rows =
      calls.map fun c => memoryRow samplePython (c.stored .default) := by
  rw [storePipeline, MemoryVault.memories_ofRun, Table.rows_foldl_upsert]
  · rfl
  · rw [Table.empty, List.nil_append, List.map_map]
    exact hids

theorem envelope_storeRow (c : RememberCall samplePython) :
    (memoryRow samplePython (c.stored .default)).envelope sampleRecallRuntime.toListingRuntime .one =
      some (c.stored .default) :=
  @MemoryRow.envelope_memoryRow _ sampleRecallRuntime.toListingRuntime .default c .one

/-- The rows of noted memories, the later ones first, are listed in their order. -/
theorem listedCritical_storePipeline {calls : List (RememberCall samplePython)}
    (hids : (calls.map fun c => c.memory.id).Nodup) (hfew : calls.length ≤ 40)
    (hnoted : ∀ c ∈ calls, c.memory.importance = .one)
    (hordered : calls.Pairwise fun c d => sampleRecallRuntime.le
      ((d.stored .default).createdAt.toReal sampleRecallRuntime.toListingRuntime)
      ((c.stored .default).createdAt.toReal sampleRecallRuntime.toListingRuntime) = true) :
    (storePipeline calls).listedCritical sampleRecallRuntime .one milkArgs =
      some ((calls.map fun c => c.stored .default).take 10) := by
  have hrows := rows_storePipeline hids
  have hone : ∀ row ∈ calls.map (fun c => memoryRow samplePython (c.stored .default)), row.importance = .one := by
    intro row hrow
    obtain ⟨c, hc, rfl⟩ := List.mem_map.mp hrow
    exact hnoted c hc
  have hpairwise : (calls.map fun c => memoryRow samplePython (c.stored .default)).Pairwise fun row row' =>
      sampleRecallRuntime.le (row'.createdAt.toReal sampleRecallRuntime.toListingRuntime)
        (row.createdAt.toReal sampleRecallRuntime.toListingRuntime) = true := List.pairwise_map.mpr hordered
  have hself : sampleRecallRuntime.le .one .one = true := rfl
  have hselect : (storePipeline calls).store.selectMemories sampleRecallRuntime.toListingRuntime (some .one) =
      calls.map fun c => memoryRow samplePython (c.stored .default) := by
    have hall : ∀ row ∈ calls.map (fun c => memoryRow samplePython (c.stored .default)),
        (some SampleNumber.one).all (fun x => sampleRecallRuntime.le x row.importance) = true := by
      intro row hrow
      rw [hone row hrow]
      exact hself
    rw [TemporalStore.selectMemories, hrows, List.filter_eq_self.mpr hall, orderBy]
    refine List.mergeSort_of_pairwise (hpairwise.imp_of_mem ?_)
    intro row row' hrow hrow' hle
    rw [hone row hrow, hone row' hrow', if_pos ⟨hself, hself⟩]
    exact hle
  have hread : (calls.map fun c => memoryRow samplePython (c.stored .default)).mapM
      (MemoryRow.envelope sampleRecallRuntime.toListingRuntime .one) = some (calls.map fun c => c.stored .default) :=
    mapM_map_eq_some fun c _ => envelope_storeRow c
  have hlisted : (storePipeline calls).store.listMemories sampleRecallRuntime.toListingRuntime .one [] []
      (some .one) (some 10) = some ((calls.map fun c => c.stored .default).take 10) := by
    have hall : (calls.map fun c => memoryRow samplePython (c.stored .default)).take 40 =
        calls.map fun c => memoryRow samplePython (c.stored .default) :=
      List.take_of_length_le (by rwa [List.length_map])
    have hadmitted : (calls.map fun c => c.stored .default).filter
        (MemoryEnvelope.matchesFilter sampleRecallRuntime.toListingRuntime [] []) =
          calls.map fun c => c.stored .default := List.filter_eq_self.mpr fun _ _ => rfl
    simp only [TemporalStore.listMemories, hselect, Option.map_some, cut, hall, hread, Option.bind_eq_bind,
      Option.bind_some, hadmitted, Option.pure_def]
  have hfits : fitsParameter ((10 : Nat) * 4) = true := by decide
  have hlimit : max milkArgs.topK 10 = 10 := rfl
  rw [RecallPipeline.listedCritical, RecallPipeline.listMemories, hlimit, if_pos hfits]
  exact hlisted

/-- A recall of noted memories finds the critical ones, and returns what the lifecycle leaves of them. -/
theorem recallMemories_storePipeline {calls : List (RememberCall samplePython)}
    {critical : List (MemoryEnvelope SampleNumber)} (hne : critical ≠ [])
    (hcritical : (storePipeline calls).listedCritical sampleRecallRuntime .one milkArgs = some critical)
    {ordered : List (LayeredResult SampleNumber)} (hordered : rankingOf sampleRecallRuntime sampleQueries milkArgs
      (candidatesOf sampleRecallRuntime (critical.map (RecallPipeline.criticalFinding sampleRecallRuntime))) =
        some ordered) :
    (storePipeline calls).recallMemories sampleRecallRuntime sampleQueries .one milkArgs =
      some (ordered.take 1, none) := by
  obtain ⟨m, hm⟩ := List.exists_mem_of_ne_nil _ hne
  obtain ⟨item, hitem, -⟩ := @Gathering.exists_mem_foldl_gather _ _ _ _ _ (merging sampleRecallRuntime) _ _
    (List.mem_map_of_mem (f := RecallPipeline.criticalFinding sampleRecallRuntime) hm)
  have henough : milkArgs.topK ≤ (candidatesOf sampleRecallRuntime
      (critical.map (RecallPipeline.criticalFinding sampleRecallRuntime))).rows.length := List.length_pos_of_mem hitem
  have hfindings := RecallPipeline.findings_of_critical rfl rfl (searchText_milk calls) hcritical henough
  simp only [RecallPipeline.recallMemories, hfindings, hordered, Option.bind_eq_bind, Option.bind_some]
  rfl

/-- A memory without metadata is active. -/
theorem lifecycleFor_of_no_metadata {m : MemoryEnvelope SampleNumber} (h : m.metadata = []) : ∃ view,
    lifecycleFor sampleRecallRuntime.toGovernedRuntime m = some view ∧ view.state = .active := by
  have hstate : lifecycleState sampleRecallRuntime.toGovernedRuntime none = .active := by decide +kernel
  rw [lifecycleFor, h]
  exact ⟨_, rfl, hstate⟩

/-- `remember` of one memory. -/
def milkCall : RememberCall samplePython :=
  notedCall noteId_ne .one canonical_noMetadata

theorem listedCritical_milkCall : (storePipeline [milkCall]).listedCritical sampleRecallRuntime .one milkArgs =
    some [milkCall.stored .default] :=
  listedCritical_storePipeline (List.nodup_singleton _) (by decide) (List.forall_mem_singleton.mpr rfl)
    (List.pairwise_singleton _ _)

/-- The memory is recalled. -/
theorem exists_recallMemories_milkCall : ∃ results, (storePipeline [milkCall]).recallMemories sampleRecallRuntime
    sampleQueries .one milkArgs = some (results, none) := by
  obtain ⟨view, hview, -⟩ := lifecycleFor_of_no_metadata (show (milkCall.stored .default).metadata = [] from rfl)
  obtain ⟨settled, hsettled⟩ := @exists_mapM _ _ (LayeredResult.settle sampleRecallRuntime milkArgs)
    (candidatesOf sampleRecallRuntime
      ([milkCall.stored .default].map (RecallPipeline.criticalFinding sampleRecallRuntime))).rows (by
        intro item hitem
        obtain ⟨⟨finding, hfinding, hmemory⟩, -⟩ := found_of_mem_candidatesOf hitem
        obtain rfl := List.mem_singleton.mp hfinding
        have hmemory : item.memory = milkCall.stored .default := hmemory.symm
        rw [← hmemory] at hview
        exact LayeredResult.exists_settle hview rfl)
  have hordered := congrArg (Option.map fun settled => sampleQueries.ranked.descending
    (lexLess (rankingKeys sampleRecallRuntime)) settled.reduceOption) hsettled
  exact ⟨_, recallMemories_storePipeline (List.cons_ne_nil _ _) listedCritical_milkCall hordered⟩

end AgentMemory
