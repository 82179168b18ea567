import AgentMemory.Lib.Prog
import AgentMemory.Domain.Text
import AgentMemory.Storage.MemoryStore

/-!
# The ports and what stands behind them

The services of `internal/services` reach everything through the interfaces of
`internal/ports`: they call a store, the clock, the id generator, an embedder, a reranker.
`Call` lists those calls, `World` holds the stores behind them (the in-process adapters of
`adapters/storage/memory`, with either backend for the memories), and `step` says how each
call may be answered. What the code leaves open is left open here: enumeration orders,
fresh ids, clock readings, answers of providers, and, in a faulty deployment, an error in
place of any answer. A call that fails leaves the stores as they were. The trace store
holds no memory and is no part of `World`.
-/

namespace AgentMemory

open Tables Calls

/-- `ports.VectorItem`. -/
structure VectorItem where
  id : String
  vector : List ℚ
  payload : List (String × String)
  deriving DecidableEq

/-- `ports.VectorQuery`. -/
structure VectorQuery where
  tenantID : String
  userID : String
  text : String
  vector : List ℚ
  limit : Int
  filters : List (String × String)

/-- `ports.VectorResult`, the answer of the vector and the keyword store. -/
structure VectorResult where
  id : String
  score : ℚ
  deriving DecidableEq

/-- An entry of the keyword store (`storage/memory/keyword_store.go`). -/
structure KeywordDoc where
  id : String
  text : String
  payload : List (String × String)
  deriving DecidableEq

/-- `ports.GraphNode`. -/
structure GraphNode where
  id : String
  labels : List String
  payload : List (String × String)
  deriving DecidableEq

/-- `ports.GraphEdge`. -/
structure GraphEdge where
  fromID : String
  toID : String
  type : String
  payload : List (String × String)
  deriving DecidableEq

/-- `ports.GraphQuery`. -/
structure GraphQuery where
  tenantID : String
  startID : String
  depth : Int

/-- `ports.GraphResult`. -/
structure GraphResult where
  nodeID : String
  score : ℚ
  deriving DecidableEq

/-- `retrieval.Candidate` (`retrieval/candidate.go`). -/
structure Candidate where
  memory : Memory
  score : ℚ
  reasons : List String
  source : String
  deriving DecidableEq

/-- `retrieval.Trace` (`retrieval/trace.go`) without its measured latency. -/
structure Trace where
  id : String
  query : String
  tenantID : String
  userID : String
  candidateIDs : List String
  selectedIDs : List String
  rejectedIDs : List String
  scores : List (String × ℚ)
  filters : List (String × String)
  tokenEstimate : Nat
  createdAt : Time
  deriving DecidableEq

/-- An audit receipt as the caller of `ReceiptLog.Append` gives it. -/
structure ReceiptEntry where
  tenantID : String
  action : String
  subject : String
  reason : String
  deriving DecidableEq

/-- `m[key]` of a `map[string]string`. -/
def payloadAt (payload : List (String × String)) (key : String) : String :=
  (payload.lookup key).getD ""

/-- The calls the services make. -/
inductive Call where
  | now
  | newID (idPrefix : String)
  | appendEvent (event : Event)
  | extract (event : Event)
  | list (q : Query)
  | get (tenantID memoryID : String)
  | upsert (mem : Memory)
  | delete (tenantID memoryID : String)
  | searchByText (q : Query)
  | embed (text : String)
  | embedBatch (texts : List String)
  | upsertVectors (items : List VectorItem)
  | searchVectors (q : VectorQuery)
  | deleteVectors (ids : List String)
  | indexKeyword (doc : KeywordDoc)
  | searchKeywords (q : Query)
  | upsertNode (node : GraphNode)
  | upsertEdge (edge : GraphEdge)
  | traverse (q : GraphQuery)
  | rerank (query : String) (candidates : List Candidate)
  | saveTrace (trace : Trace)
  | deleteTraces (tenantID memoryID : String)
  | appendReceipt (entry : ReceiptEntry)
  /-- The order in which Go ranges over a map with these keys. -/
  | rangeOver (keys : List String)

/-- What each call is answered with. -/
@[reducible] def Resp : Call → Type
  | .now => Time
  | .newID _ => String
  | .appendEvent _ => Unit
  | .extract _ => List Memory
  | .list _ => List Memory
  | .get _ _ => Memory
  | .upsert _ => Unit
  | .delete _ _ => Unit
  | .searchByText _ => List Memory
  | .embed _ => List ℚ
  | .embedBatch _ => List (List ℚ)
  | .upsertVectors _ => Unit
  | .searchVectors _ => List VectorResult
  | .deleteVectors _ => Unit
  | .indexKeyword _ => Unit
  | .searchKeywords _ => List VectorResult
  | .upsertNode _ => Unit
  | .upsertEdge _ => Unit
  | .traverse _ => List GraphResult
  | .rerank _ _ => List Candidate
  | .saveTrace _ => Unit
  | .deleteTraces _ _ => Unit
  | .appendReceipt _ => Unit
  | .rangeOver _ => List String

/-- Why a call fails: `memory.ErrNotFound`, a rejected event, or a fault of the store or
provider. -/
inductive Err where
  | notFound
  | invalid (message : String)
  | unavailable
  deriving DecidableEq, Repr

/-- A service method: a program over the calls. -/
abbrev Go := Prog Call Resp Err

/-- Make a call and pass its error on, as `if err != nil { return err }` does. -/
abbrev ask (c : Call) : Go (Resp c) := Prog.perform c

/-- The calls a store, provider or network can fail. The clock, the id generator and Go's
own map iteration cannot. -/
def Call.canFail : Call → Bool
  | .now | .newID _ | .rangeOver _ => false
  | _ => true

/-- The calls a working store can answer with an error. -/
def Call.canRefuse : Call → Bool
  | .get _ _ | .delete _ _ => true
  | _ => false

/-- Everything behind the ports. `issued` holds the ids handed out so far. -/
structure World where
  events : Table Event Event.id
  memories : MemoryStore
  vectors : Table VectorItem VectorItem.id
  keywords : Table KeywordDoc KeywordDoc.id
  nodes : Table GraphNode GraphNode.id
  edges : List GraphEdge
  receipts : List ReceiptEntry
  issued : List String

/-- Empty stores. -/
def World.empty : World :=
  ⟨Table.empty, Table.empty, Table.empty, Table.empty, Table.empty, [], [], []⟩

/-- Empty stores but for these memories. -/
def World.holding (s : MemoryStore) : World := { World.empty with memories := s }

/-- What a deployment fixes (`bootstrap/app.go`): the backend of the memories, the optional
dependencies, the runtime's lower-case table, the distiller and the floating-point cosine,
and which clock readings and failures its environment can give. -/
structure Deployment where
  backend : Backend
  lower : Char → Char
  hasGraph : Bool
  hasKeywords : Bool
  hasConsolidator : Bool
  privacyGates : Bool
  cosine : List ℚ → List ℚ → ℚ
  /-- The candidates `Distiller.Extract` makes of an event, before they get their ids. -/
  distill : Event → List Memory
  clock : Time → Prop
  faulty : Prop

/-- The in-process deployment at one instant: every optional dependency wired, nothing
distilled, no failures. -/
def Deployment.inProcess (now : Time) : Deployment where
  backend := .memory
  lower := Char.toLower
  hasGraph := true
  hasKeywords := true
  hasConsolidator := true
  privacyGates := true
  cosine := fun _ _ => 0
  distill := fun _ => []
  clock := (· = now)
  faulty := False

/-- An id that was never handed out and that no event or memory carries. -/
def World.Fresh (w : World) (id : String) : Prop :=
  id ∉ w.issued ∧ w.events.find? id = none ∧ w.memories.find? id = none

/-- `payloadMatches` (`storage/memory/vector_store.go:65-72`). -/
def payloadMatches (payload filters : List (String × String)) : Bool :=
  filters.all fun kv => payloadAt payload kv.1 = kv.2

/-- The tests of `VectorStore.Search` on an item. -/
def vectorMatches (q : VectorQuery) (item : VectorItem) : Bool :=
  (q.tenantID = "" || payloadAt item.payload "tenant_id" = q.tenantID) &&
  (q.userID = "" || payloadAt item.payload "user_id" = q.userID) &&
  payloadMatches item.payload q.filters

/-- The sort and cut of `VectorStore.Search` (`vector_store.go:48-52`). -/
def topResults (limit : Int) (out : List VectorResult) : List VectorResult :=
  let ranked := out.mergeSort fun a b => decide (b.score ≤ a.score)
  if 0 < limit then ranked.take limit.toNat else ranked

/-- `keywordScore` (`storage/memory/keyword_store.go:61-74`). -/
def keywordScore (lower : Char → Char) (query doc : String) : ℚ :=
  let q := fields (toLower lower query.toList)
  let d := toLower lower doc.toList
  let hits := (q.filter fun token => 2 < len token && contains d token).length
  if q = [] then 0 else (hits : ℚ) / q.length

/-- The tests of `KeywordStore.Search` on an entry. -/
def keywordMatches (lower : Char → Char) (q : Query) (doc : KeywordDoc) : Bool :=
  (q.tenantID = "" || payloadAt doc.payload "tenant_id" = q.tenantID) &&
  (q.userID = "" || payloadAt doc.payload "user_id" = q.userID) &&
  0 < keywordScore lower q.text doc.text

/-- The reasons the four retrieval channels record. -/
def channelReasons : List String :=
  ["text_search", "vector_search", "keyword_search", "graph_search"]

/-- A candidate as a reranker may give it back: another score and further reasons of its
own, the memory and the channels that found it unchanged. -/
def Candidate.RerankOf (c c' : Candidate) : Prop :=
  c'.memory = c.memory ∧ ∀ r ∈ channelReasons, r ∈ c'.reasons ↔ r ∈ c.reasons

/-- Candidates with the ids the generator gave them. -/
def withIDs (mems : List Memory) (ids : List String) : List Memory :=
  mems.zipWith (fun mem id => { mem with id := id }) ids

theorem mem_withIDs {mems : List Memory} {ids : List String} {m : Memory}
    (h : m ∈ withIDs mems ids) : ∃ mem ∈ mems, m.id ∈ ids ∧ m = { mem with id := m.id } := by
  obtain ⟨i, hi, rfl⟩ := List.getElem_of_mem h
  simp only [withIDs, List.length_zipWith] at hi
  simp only [withIDs, List.getElem_zipWith]
  exact ⟨mems[i], List.getElem_mem _, List.getElem_mem _, rfl⟩

theorem map_id_withIDs {mems : List Memory} {ids : List String} (h : ids.length = mems.length) :
    (withIDs mems ids).map Memory.id = ids := by
  induction mems generalizing ids with
  | nil =>
    obtain rfl := List.eq_nil_of_length_eq_zero h
    rfl
  | cons mem rest ih =>
    cases ids with
    | nil => cases h
    | cons id ids => exact congrArg (id :: ·) (ih (Nat.succ.inj h))

theorem exists_withIDs {mems : List Memory} {ids : List String} (h : ids.length = mems.length)
    {mem : Memory} (hm : mem ∈ mems) : ∃ m ∈ withIDs mems ids, m.content = mem.content := by
  induction mems generalizing ids with
  | nil => cases hm
  | cons m rest ih =>
    cases ids with
    | nil => cases h
    | cons id ids =>
      rcases List.mem_cons.mp hm with rfl | hm
      · exact ⟨_, List.mem_cons_self, rfl⟩
      · obtain ⟨m', hm', hc⟩ := ih (Nat.succ.inj h) hm
        exact ⟨m', List.mem_cons_of_mem _ hm', hc⟩

/-- What an answered call returns and does. -/
def Answers (d : Deployment) : (c : Call) → World → Resp c → World → Prop
  | .now, w, t, w' => d.clock t ∧ w' = w
  | .newID _, w, id, w' => w.Fresh id ∧ w' = { w with issued := id :: w.issued }
  | .appendEvent e, w, _, w' => w' = { w with events := w.events.upsert e }
  | .extract e, w, out, w' =>
      ∃ ids : List String, ids.Nodup ∧ (∀ id ∈ ids, w.Fresh id) ∧
        ids.length = (d.distill e).length ∧
        out = withIDs (d.distill e) ids ∧
        w' = { w with issued := ids ++ w.issued }
  | .list q, w, out, w' => d.backend.Lists w.memories q out ∧ w' = w
  | .get t id, w, m, w' => d.backend.get w.memories t id = some m ∧ w' = w
  | .upsert m, w, _, w' => w' = { w with memories := d.backend.upsert w.memories m }
  | .delete t id, w, _, w' =>
      ∃ now s, d.backend.delete w.memories t id now = some s ∧ w' = { w with memories := s }
  | .searchByText q, w, out, w' =>
      d.backend.Searches d.lower w.memories q out ∧ w' = w
  | .embed _, w, _, w' => w' = w
  | .embedBatch _, w, _, w' => w' = w
  | .upsertVectors items, w, _, w' =>
      w' = { w with vectors := items.foldl Table.upsert w.vectors }
  | .searchVectors q, w, out, w' =>
      (∃ items : List VectorItem, items.Perm (w.vectors.rows.filter (vectorMatches q)) ∧
        out = topResults q.limit
          (items.map fun item => ⟨item.id, d.cosine q.vector item.vector⟩)) ∧ w' = w
  | .deleteVectors ids, w, _, w' =>
      w' = { w with vectors := ids.foldl Table.erase w.vectors }
  | .indexKeyword doc, w, _, w' => w' = { w with keywords := w.keywords.upsert doc }
  | .searchKeywords q, w, out, w' =>
      out.Perm ((w.keywords.rows.filter (keywordMatches d.lower q)).map fun doc =>
        ⟨doc.id, keywordScore d.lower q.text doc.text⟩) ∧ w' = w
  | .upsertNode node, w, _, w' => w' = { w with nodes := w.nodes.upsert node }
  | .upsertEdge edge, w, _, w' => w' = { w with edges := w.edges ++ [edge] }
  | .traverse q, w, out, w' =>
      out = (w.edges.filter (·.fromID = q.startID)).map (fun e => ⟨e.toID, 1⟩) ∧ w' = w
  | .rerank _ candidates, w, out, w' =>
      (∀ c' ∈ out, ∃ c ∈ candidates, c.RerankOf c') ∧ w' = w
  | .saveTrace _, w, _, w' => w' = w
  | .deleteTraces _ _, w, _, w' => w' = w
  | .appendReceipt entry, w, _, w' => w' = { w with receipts := w.receipts ++ [entry] }
  | .rangeOver keys, w, out, w' => out.Perm keys ∧ w' = w

/-- When a working store answers with an error. -/
def Refuses (d : Deployment) : Call → World → Err → Prop
  | .get t id, w, e => d.backend.get w.memories t id = none ∧ e = .notFound
  | .delete t id, w, e => (∀ now, d.backend.delete w.memories t id now = none) ∧ e = .notFound
  | _, _, _ => False

/-- How a call may be answered in a deployment. -/
def step (d : Deployment) : Step Call Resp Err World := fun c w r w' =>
  (∃ a, r = .ok a ∧ Answers d c w a w') ∨
    ∃ e, r = .error e ∧ w' = w ∧
      (Refuses d c w e ∨ (d.faulty ∧ c.canFail = true ∧ e = .unavailable))

/-- The writes a history of a service records. -/
def Call.isWrite : Call → Bool
  | .appendEvent _ | .upsert _ => true
  | _ => false

/-- A history of writes. -/
abbrev History := List (Made Call World)

/-- The calls of a deployment, with a history of the writes. -/
abbrev watched (d : Deployment) : Step Call Resp Err (World × History) :=
  recorded Call.isWrite (step d)

/-- An answered call as the first step of an execution. -/
theorem exec_answer {d : Deployment} {c : Call} {w w' : World} {a : Resp c} {history : History}
    {β : Type} {f : Resp c → Go β} {o : Except Err β} {t : World × History}
    (h : Answers d c w a w')
    (hf : Exec (watched d) (f a) (w', note Call.isWrite c w (.ok a : Except Err (Resp c)) history)
      o t) :
    Exec (watched d) (ask c >>= f) (w, history) o t :=
  Exec.answer ⟨Or.inl ⟨a, rfl, h⟩, rfl⟩ hf

/-- An answer is a step. -/
theorem step_answer {d : Deployment} {c : Call} {w w' : World} {a : Resp c}
    (h : Answers d c w a w') : step d c w (.ok a) w' :=
  Or.inl ⟨a, rfl, h⟩

theorem canRefuse_of_refuses {d : Deployment} {c : Call} {w : World} {e : Err}
    (h : Refuses d c w e) : c.canRefuse = true := by
  cases c <;> first | rfl | exact h.elim

/-- What a step can do: answer, or fail and change nothing. -/
theorem step_cases {d : Deployment} {c : Call} {w w' : World} {r : Except Err (Resp c)}
    (h : step d c w r w') :
    (∃ a, r = .ok a ∧ Answers d c w a w') ∨ ∃ e, r = .error e ∧ w' = w := by
  rcases h with h | ⟨e, hr, hw, -⟩
  · exact Or.inl h
  · exact Or.inr ⟨e, hr, hw⟩

/-- A store call that is never refused answers, or fails in a faulty deployment. -/
theorem step_store {d : Deployment} {c : Call} {w w' : World} {r : Except Err (Resp c)}
    (h : step d c w r w') (hc : c.canRefuse = false) :
    (∃ a, r = .ok a ∧ Answers d c w a w') ∨ (∃ e, r = .error e ∧ d.faulty ∧ w' = w) := by
  rcases h with h | ⟨e, he, hw, hno | ⟨hf, -⟩⟩
  · exact Or.inl h
  · exact absurd (canRefuse_of_refuses hno) (by simp [hc])
  · exact Or.inr ⟨e, he, hf, hw⟩

/-- The clock, the id generator and a map iteration always answer. -/
theorem step_sure {d : Deployment} {c : Call} {w w' : World} {r : Except Err (Resp c)}
    (h : step d c w r w') (hc : c.canFail = false) : ∃ a, r = .ok a ∧ Answers d c w a w' := by
  rcases h with h | ⟨e, he, hw, hno | ⟨-, hf, -⟩⟩
  · exact h
  · cases c <;> first | exact hno.elim | cases hc
  · rw [hc] at hf
    cases hf

end AgentMemory
