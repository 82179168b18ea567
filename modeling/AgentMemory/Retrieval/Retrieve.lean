import AgentMemory.Services.World
import Mathlib.Algebra.Order.Field.Rat

/-!
# Retrieval

`internal/services/retrieval`: four channels (text, vector, keyword and graph) feed one map
of candidates, which is gated, boosted, sorted, reranked and cut (`service.go`). The
channels that find ids read each memory with `Get` and skip what is gone or inactive; they
differ in a reason, two source labels and a score, which `Channel` holds.
-/

namespace AgentMemory

open Tables Calls

/-- The map from memory ids to candidates that `Retrieve` fills. -/
abbrev Candidates := Table Candidate (·.memory.id)

/-- `addFilter` of `ApplyScopeFilters`: a filter for a scope that is set, unless the caller
gave one. -/
def addFilter (filters : List (String × String)) (key value : String) : List (String × String) :=
  if value = "" then filters
  else if (filters.lookup key).isSome then filters
  else filters ++ [(key, value)]

/-- `ApplyScopeFilters` (`filters.go:14-29`). -/
def applyScopeFilters (q : Query) : Query :=
  { q with filters :=
      addFilter (addFilter q.filters "agent_id" q.agentID) "project_id" q.projectID }

/-- `PassesScope` (`filters.go:32-37`). -/
def passesScope (mem : Memory) (q : Query) : Bool :=
  !(q.sessionID ≠ "" && q.filter "session_only" = "true" && mem.sessionID ≠ q.sessionID)

/-- `PassesPrivacy` (`filters.go:42-54`). -/
def passesPrivacy (mem : Memory) (q : Query) : Bool :=
  mem.safetyLabels.all fun
    | .safetyCredential => false
    | .safetyPII => q.filter "include_pii" = "true"
    | _ => true

/-- `SearchPlan` (`planner.go:11-17`). -/
structure SearchPlan where
  useText : Bool
  useVector : Bool
  useKeyword : Bool
  useGraph : Bool
  graphDepth : Int

/-- The depth `Plan` takes from the filter `graph_depth` (`planner.go:30-34`). -/
def graphDepth (q : Query) : Int :=
  match (q.filters.lookup "graph_depth").bind fun raw => atoi raw.toList with
  | some depth => if 1 ≤ depth ∧ depth ≤ 4 then depth else 2
  | none => 2

/-- `Plan` (`planner.go:22-36`). -/
def plan (q : Query) (hasGraph hasKeyword : Bool) : SearchPlan where
  useText := true
  useVector := q.text ≠ ""
  useKeyword := hasKeyword && q.text ≠ ""
  useGraph := hasGraph && q.filter "graph" ≠ "off"
  graphDepth := graphDepth q

/-- What tells the channels apart that read the memories they find one by one. -/
structure Channel where
  /-- The reason recorded on a candidate. -/
  reason : String
  /-- The source of a candidate this channel found first, and of one it found again. -/
  found : String
  merged : String
  /-- The score of a memory whose result has this score. -/
  score : ℚ → Memory → ℚ

/-- The vector channel (`hybrid_search.go:51-60`). -/
def vectorChannel : Channel where
  reason := "vector_search"
  found := "vector"
  merged := "hybrid"
  score s mem := 65 / 100 * s + 20 / 100 * mem.importance + 15 / 100 * mem.confidence

/-- The keyword channel (`hybrid_search.go:80-89`). -/
def keywordChannel : Channel where
  reason := "keyword_search"
  found := "keyword"
  merged := "hybrid"
  score s mem := 45 / 100 * s + 20 / 100 * mem.importance

/-- The graph channel (`graph_search.go:37-46`). -/
def graphChannel : Channel where
  reason := "graph_search"
  found := "graph"
  merged := "hybrid_graph"
  score s mem :=
    50 / 100 + 25 / 100 * s + 15 / 100 * mem.importance + 10 / 100 * mem.confidence

/-- The candidate a channel writes for a memory it found with a result of score `s`. -/
def Channel.candidate (ch : Channel) (candidates : Candidates) (s : ℚ) (mem : Memory) : Candidate :=
  match candidates.find? mem.id with
  | some existing =>
      { existing with
        score := max existing.score (ch.score s mem)
        reasons := existing.reasons ++ [ch.reason]
        source := ch.merged }
  | none => ⟨mem, ch.score s mem, [ch.reason], ch.found⟩

/-- The loop over a channel's results, pairs of an id and a score. -/
def mergeResults (ch : Channel) (q : Query) :
    List (String × ℚ) → Candidates → Go Candidates
  | [], candidates => pure candidates
  | (id, s) :: rest, candidates => do
    match ← Prog.attempt (Call.get q.tenantID id) with
    | .error _ => mergeResults ch q rest candidates
    | .ok mem =>
      if mem.isActive q.now = true then
        mergeResults ch q rest (candidates.upsert (ch.candidate candidates s mem))
      else mergeResults ch q rest candidates

/-- The candidate of the text channel (`hybrid_search.go:22`). -/
def textCandidate (mem : Memory) : Candidate :=
  ⟨mem, 55 / 100 + 20 / 100 * mem.importance, ["text_search"], "text"⟩

/-- `textSearch` (`hybrid_search.go:13-25`). -/
def textSearch (q : Query) (candidates : Candidates) : Go Candidates := do
  let textual ← ask (.searchByText q)
  pure ((textual.filter (·.isActive q.now)).foldl
    (fun cs mem => Table.upsert cs (textCandidate mem)) candidates)

/-- `vectorSearch` (`hybrid_search.go:27-63`). -/
def vectorSearch (q : Query) (limit : Nat) (candidates : Candidates) : Go Candidates := do
  let vec ← ask (.embed q.text)
  let vres ← ask (.searchVectors ⟨q.tenantID, q.userID, q.text, vec, limit * 3, q.filters⟩)
  mergeResults vectorChannel q (vres.map fun result => (result.id, result.score)) candidates

/-- `keywordSearch` (`hybrid_search.go:67-92`). -/
def keywordSearch (q : Query) (candidates : Candidates) : Go Candidates := do
  let results ← ask (.searchKeywords q)
  mergeResults keywordChannel q (results.map fun result => (result.id, result.score)) candidates

/-- The loop of `graphExpand` over the seeds (`graph_search.go:23-48`). -/
def expandSeeds (q : Query) (depth : Int) : List String → Candidates → Go Candidates
  | [], candidates => pure candidates
  | seedID :: rest, candidates => do
    let results ← ask (.traverse ⟨q.tenantID, seedID, depth⟩)
    let candidates ←
      mergeResults graphChannel q (results.map fun result => (result.nodeID, result.score)) candidates
    expandSeeds q depth rest candidates

/-- `graphExpand` (`graph_search.go:15-50`). -/
def graphExpand (q : Query) (depth : Int) (candidates : Candidates) : Go Candidates := do
  let seedIDs ← ask (.rangeOver (candidates.rows.map (·.memory.id)))
  expandSeeds q depth seedIDs candidates

/-- A channel, where the plan uses it. -/
def planned (use : Bool) (search : Candidates → Go Candidates) (candidates : Candidates) :
    Go Candidates :=
  if use = true then search candidates else pure candidates

/-- The four channels in the order `Retrieve` runs them (`service.go:53-74`). -/
def gather (p : SearchPlan) (q : Query) (limit : Nat) : Go Candidates := do
  let candidates ← planned p.useText (textSearch q) .empty
  let candidates ← planned p.useVector (vectorSearch q limit) candidates
  let candidates ← planned p.useKeyword (keywordSearch q) candidates
  planned p.useGraph (graphExpand q p.graphDepth) candidates

/-- One hour in nanoseconds. -/
def hour : Int := 3600 * 1000000000

/-- `recencyBoost` (`service.go:145-154`). -/
def recencyBoost (mem : Memory) (now : Time) : ℚ :=
  if now - mem.updatedAt < 24 * hour then 5 / 100
  else if now - mem.updatedAt < 7 * 24 * hour then 25 / 1000
  else 0

/-- The gates on a candidate (`service.go:78-83`). -/
def passesGates (d : Deployment) (q : Query) (c : Candidate) : Bool :=
  passesScope c.memory q && (!d.privacyGates || passesPrivacy c.memory q)

/-- The order of `SortCandidates` (`domain/retrieval/ranking.go`). -/
def rankedBefore (a b : Candidate) : Bool :=
  if a.score = b.score then decide (b.memory.updatedAt ≤ a.memory.updatedAt)
  else decide (b.score < a.score)

/-- The candidates in the order in which the map was ranged over, gated, boosted and sorted
(`service.go:76-87`). -/
def rank (d : Deployment) (q : Query) (candidates : Candidates) (order : List String) :
    List Candidate :=
  (((order.filterMap candidates.find?).filter (passesGates d q)).map fun c =>
    { c with score := c.score + recencyBoost c.memory q.now }).mergeSort rankedBefore

/-- A candidate that a failed reranker left in place. -/
def fallback (c : Candidate) : Candidate := { c with reasons := c.reasons ++ ["rerank_fallback"] }

/-- `rerank` (`rerank.go:16-27`). -/
def rerank (q : Query) (ranked : List Candidate) : Go (List Candidate) := do
  match ← Prog.attempt (Call.rerank q.text ranked) with
  | .ok reranked => pure reranked
  | .error _ => pure (ranked.map fallback)

/-- `estimateTokens` (`service.go:156-162`): `1.35` is `27 / 20`. -/
def estimateTokens (text : String) : Nat := (fields text.toList).length * 27 / 20

/-- The trace of an answer with this id, made at this instant. -/
def traceOf (q : Query) (selected : List Candidate) (traceID : String) (now : Time) : Trace where
  id := traceID
  query := q.text
  tenantID := q.tenantID
  userID := q.userID
  candidateIDs := selected.map (·.memory.id)
  selectedIDs := selected.map (·.memory.id)
  rejectedIDs := []
  scores := selected.map fun c => (c.memory.id, c.score)
  filters := q.filters
  tokenEstimate := (selected.map fun c => estimateTokens c.memory.content).sum
  createdAt := now

/-- `buildTrace` (`service.go:112-143`) with the audit service `bootstrap/app.go` wires. -/
def buildTrace (q : Query) (selected : List Candidate) : Go Trace := do
  let traceID ← ask (.newID "trace")
  let now ← ask .now
  pure (traceOf q selected traceID now)

/-- `q.Now`, from the clock where the caller left it zero (`service.go:44-46`). -/
def queryNow (q : Query) : Go Time :=
  if q.now = 0 then ask .now else pure q.now

/-- `Retrieve` (`service.go:42-110`). -/
def retrieve (d : Deployment) (query : Query) : Go (List Candidate × Trace) := do
  let now ← queryNow query
  let q := applyScopeFilters { query with now := now }
  let limit := q.normalizedLimit
  let candidates ← gather (plan q d.hasGraph d.hasKeywords) q limit
  let order ← ask (.rangeOver (candidates.rows.map (·.memory.id)))
  let reranked ← rerank q (rank d q candidates order)
  let ranked := reranked.take limit
  let trace ← buildTrace q ranked
  ask (.saveTrace trace)
  pure (ranked, trace)

end AgentMemory
