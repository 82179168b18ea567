import AgentMemory.Services.Indexing
import AgentMemory.Consolidation.Consolidate

/-!
# Ingest

`ingestion.Service.Ingest` (`service.go:57-124`) appends the event, asks the distiller for
candidates, consolidates and writes them one by one, and then indexes what it wrote. There
is no transaction around these calls. `wp_ingestLoop` is the rule for the candidate loop:
an invariant of the loop is one that `storeCandidate` keeps.
-/

namespace AgentMemory

open Tables Calls

/-- `IngestRequest` (`service.go:36-47`). -/
structure IngestRequest where
  tenantID : String
  userID : String
  agentID : String
  sessionID : String
  projectID : String
  role : EventRole
  content : String
  toolName : String
  toolResult : String
  metadata : List (String × MetaValue)

/-- A user's statement as an ingest request. -/
def statement (content : String) : IngestRequest where
  tenantID := "t"
  userID := "u"
  agentID := ""
  sessionID := ""
  projectID := ""
  role := .user
  content := content
  toolName := ""
  toolResult := ""
  metadata := []

/-- What `Extract` and the model it may ask decide about a candidate: everything but whose it is
(`distillation/service.go:44-66`, `distillation/extractor.go:46-83`). -/
structure Draft where
  madeAt : Time
  type : MemoryType
  scope : Scope
  content : String
  confidence : ℚ
  importance : ℚ
  safetyLabels : List SafetyLabel
  distiller : String

/-- The candidate `Extract` makes of a draft and its event. -/
def Draft.memory (event : Event) (draft : Draft) : Memory :=
  { newMemory draft.madeAt draft.type draft.scope draft.content with
    tenantID := event.tenantID
    userID := event.userID
    agentID := event.agentID
    projectID := event.projectID
    sessionID := event.sessionID
    sourceEventIDs := [event.id]
    confidence := draft.confidence
    importance := draft.importance
    safetyLabels := draft.safetyLabels
    metadata := [("distiller", .text draft.distiller)] }

/-- The deployment with `Extract` for its distiller. -/
def Deployment.distilling (d : Deployment) (drafts : Event → List Draft) : Deployment :=
  { d with distill := fun event => (drafts event).map (Draft.memory event) }

/-- `IngestResponse` (`service.go:49-52`). -/
structure IngestResponse where
  event : Event
  memories : List Memory

/-- `NormalizeText` (`normalize.go:5-7`). -/
def normalizeText (text : String) : String := String.ofList (join (fields text.toList) [' '])

/-- The event `Ingest` makes of a request (`service.go:61-75`). -/
def newEvent (now : Time) (id : String) (req : IngestRequest) : Event where
  id := id
  tenantID := req.tenantID
  userID := req.userID
  agentID := req.agentID
  sessionID := req.sessionID
  projectID := req.projectID
  role := req.role
  content := normalizeText req.content
  toolName := req.toolName
  toolResult := normalizeText req.toolResult
  createdAt := now
  metadata := req.metadata

/-- `Event.Validate` (`memory/event.go:33-51`): the message of the error, if any. -/
def validateEvent (e : Event) : Option String :=
  if trimSpace e.tenantID.toList = [] then some "tenant_id is required"
  else if trimSpace e.userID.toList = [] then some "user_id is required"
  else if trimSpace e.content.toList = [] ∧ trimSpace e.toolResult.toList = [] then
    some "content or tool_result is required"
  else match e.role with
    | .user | .assistant | .system | .tool => none
    | .other "" => some "role is required"
    | .other _ => some "unsupported role"

/-- The form in which `IsDuplicate` compares contents. -/
def dedupeKey (lower : Char → Char) (mem : Memory) : List Char :=
  toLower lower (trimSpace mem.content.toList)

/-- `IsDuplicate` (`dedupe.go:9-17`). -/
def isDuplicate (lower : Char → Char) (existing : List Memory) (candidate : Memory) : Bool :=
  existing.any fun mem => dedupeKey lower mem = dedupeKey lower candidate

/-- Consolidate a candidate where a consolidator is wired, and write what is to be stored
(`service.go:93-102`). -/
def storeCandidate (d : Deployment) (mem : Memory) : Go Memory :=
  if d.hasConsolidator = true then do
    let result ← consolidate d mem
    ask (.upsert result.memory)
    pure result.memory
  else do
    ask (.upsert mem)
    pure mem

/-- The candidate loop of `Ingest` (`service.go:88-111`). -/
def ingestLoop (d : Deployment) (created : List Memory) : List Memory → Go (List Memory)
  | [] => pure created
  | mem :: rest =>
    if isDuplicate d.lower created mem = true then ingestLoop d created rest
    else do
      let mem ← storeCandidate d mem
      indexKeywords d mem
      ingestLoop d (created ++ [mem]) rest

/-- The tail of `Ingest` (`service.go:112-121`). -/
def indexCreated (d : Deployment) (created : List Memory) : Go Unit := do
  indexMemories created
  if d.hasGraph = true then upsertNodes created

/-- `Ingest` (`service.go:57-124`). -/
def ingest (d : Deployment) (req : IngestRequest) : Go IngestResponse := do
  let now ← ask .now
  let id ← ask (.newID "evt")
  let event := newEvent now id req
  match validateEvent event with
  | some message => Prog.fail (.invalid message)
  | none => do
    ask (.appendEvent event)
    let candidates ← ask (.extract event)
    let created ← ingestLoop d [] candidates
    indexCreated d created
    pure ⟨event, created⟩

theorem indexes_indexCreated (d : Deployment) (created : List Memory) :
    Indexes (indexCreated d created) := by
  refine avoids_bind (indexes_indexMemories created) fun _ _ => ?_
  split
  · exact indexes_upsertNodes created
  · trivial

/-- The rule for the candidate loop: `I created rest` holds before the candidates `rest`,
where `created` are the memories written so far. -/
theorem wp_ingestLoop {d : Deployment} (I : List Memory → List Memory → World × History → Prop)
    (E : Err → World × History → Prop)
    (hframe : ∀ created rest w w' history, SameRows w w' → I created rest (w, history) →
      I created rest (w', history))
    (hdup : ∀ created mem rest t, I created (mem :: rest) t →
      isDuplicate d.lower created mem = true → I created rest t)
    (hstore : ∀ created mem rest t, I created (mem :: rest) t →
      isDuplicate d.lower created mem = false →
      wp (watched d) (fun o t' => match o with
        | .ok stored => I (created ++ [stored]) rest t'
        | .error e => E e t') (storeCandidate d mem) t)
    {created candidates : List Memory} {t : World × History} (h : I created candidates t) :
    wp (watched d) (fun o t' => match o with
      | .ok created' => I created' [] t'
      | .error e => E e t') (ingestLoop d created candidates) t := by
  induction candidates generalizing created t with
  | nil => exact h
  | cons mem rest ih =>
    rw [ingestLoop]
    split
    · next hd => exact ih (hdup _ _ _ _ h hd)
    · next hd =>
      rw [wp_bind]
      refine wp_mono (fun o t' ho => ?_) _ _ (hstore _ _ _ _ h (by simpa using hd))
      cases o with
      | error e => exact ho
      | ok stored =>
        obtain ⟨w', history'⟩ := t'
        change wp (watched d) _ (indexKeywords d stored >>= _) (w', history')
        rw [wp_bind]
        refine wp_mono ?_ _ _ wp_indexKeywords
        rintro o ⟨w'', history''⟩ ⟨rfl, hsame, rfl⟩
        exact ih (hframe _ _ _ _ _ hsame ho)

end AgentMemory
