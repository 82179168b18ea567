import AgentMemory.Agentic.Artifacts
import AgentMemory.Consolidation.Compaction
import AgentMemory.Forgetting.Forget
import AgentMemory.Forgetting.Redaction
import AgentMemory.Ingestion.Ingest
import AgentMemory.Retrieval.Retrieve

/-!
# The services side by side

The API server and the worker answer requests with the services, and the scheduler runs its jobs, all over the same
stores. `ServiceCall` is a request or one run of a job, `program` what it does, and a pool of such programs is the
system.
-/

namespace AgentMemory

open Calls

/-- A request to one of the services, or one run of a job for a tenant. -/
inductive ServiceCall where
  | ingest (req : IngestRequest)
  | retrieve (query : Query)
  | delete (req : DeletionRequest)
  | redact (tenantID memoryID reason : String)
  | createSpec (req : SpecRequest)
  | createPlan (req : PlanRequest)
  | controlContext (req : ControlRequest)
  | sweep (tenantID : String) (pol : RetentionPolicy)
  | compaction (tenantID : String)

/-- Whom a call is for. -/
def ServiceCall.tenantID : ServiceCall → String
  | .ingest req => req.tenantID
  | .retrieve query => query.tenantID
  | .delete req => req.tenantID
  | .redact tenantID _ _ => tenantID
  | .createSpec req => req.scope.tenantID
  | .createPlan req => req.scope.tenantID
  | .controlContext req => req.tenantID
  | .sweep tenantID _ => tenantID
  | .compaction tenantID => tenantID

/-- What a call returns. -/
inductive Reply where
  | ingested (response : IngestResponse)
  | retrieved (candidates : List Candidate) (trace : Trace)
  | receipt (receipt : DeletionReceipt)
  | spec (spec : Written SpecArtifact)
  | plan (plan : Written PlanArtifact)
  | control (control : ControlContext)
  | swept (affected : Nat)
  | compacted

/-- `CreateSpec` and `CreatePlan` (`agentic/service.go:74-136`): what `make` makes of the clock and of a new id is
stored, and returned. The source looks at the request before it reads the clock; nothing is stored either way. -/
def createArtifact {α : Type} (idPrefix : String) (make : Time → String → Except Err (Written α × Written Memory)) :
    Go (Written α) := do
  let now ← ask .now
  let id ← ask (.newID idPrefix)
  match make now id with
  | .error e => Prog.fail e
  | .ok (artifact, mem) => do
    ask (.upsert mem.value)
    pure artifact

/-- What runs for a call. -/
def ServiceCall.program (d : Deployment) (json : ArtifactCodec) : ServiceCall → Go Reply
  | .ingest req => do
    let response ← AgentMemory.ingest d req
    pure (.ingested response)
  | .retrieve query => do
    let answer ← AgentMemory.retrieve d query
    pure (.retrieved answer.1 answer.2)
  | .delete req => do
    let receipt ← AgentMemory.delete req
    pure (.receipt receipt)
  | .redact tenantID memoryID reason => do
    let receipt ← AgentMemory.redact redactPII tenantID memoryID reason
    pure (.receipt receipt)
  | .createSpec req => do
    let spec ← createArtifact "spec" (AgentMemory.createSpec json req)
    pure (.spec spec)
  | .createPlan req => do
    let plan ← createArtifact "plan" (AgentMemory.createPlan json req)
    pure (.plan plan)
  | .controlContext req => do
    let control ← assembleControlContext json.toArtifactJSON d.lower req
    pure (.control control)
  | .sweep tenantID pol => do
    let affected ← AgentMemory.sweep tenantID pol
    pure (.swept affected)
  | .compaction tenantID => do
    AgentMemory.compaction d tenantID
    pure .compacted

/-- The memory of an artifact has the tenant of the request, the new id and its kind. -/
structure StoredArtifact (tenantID id : String) (mem : Memory) : Prop where
  tenantID : mem.tenantID = tenantID
  id : mem.id = id
  kind : (mem.metadata.lookup "agentic_kind").isSome = true

theorem storedArtifact_createSpec {json : ArtifactCodec} {req : SpecRequest} {now : Time} {id : String}
    {spec : Written SpecArtifact} {mem : Written Memory} (h : createSpec json req now id = .ok (spec, mem)) :
    StoredArtifact req.scope.tenantID id mem.value := by
  unfold createSpec memoryForSpec at h
  split at h
  · cases h
  · cases hpayload : json.marshalSpec (newSpec req now id) with
    | error e => simp [hpayload] at h
    | ok payload =>
      rw [hpayload] at h
      cases h
      exact ⟨rfl, rfl, rfl⟩

theorem storedArtifact_createPlan {json : ArtifactCodec} {req : PlanRequest} {now : Time} {id : String}
    {plan : Written PlanArtifact} {mem : Written Memory} (h : createPlan json req now id = .ok (plan, mem)) :
    StoredArtifact req.scope.tenantID id mem.value := by
  unfold createPlan memoryForPlan at h
  split at h
  · cases h
  split at h
  · cases h
  · cases hpayload : json.marshalPlan (newPlan req now id) with
    | error e => simp [hpayload] at h
    | ok payload =>
      rw [hpayload] at h
      cases h
      exact ⟨rfl, rfl, rfl⟩

/-! ## A request -/

/-- A codec that writes every artifact as the same text. -/
def plainCodec : ArtifactCodec where
  spec := fun _ => .error .notFound
  plan := fun _ => .error .notFound
  marshalSpec := fun _ => .ok "{}"
  marshalPlan := fun _ => .ok "{}"

/-- A specification about a credential. -/
def tokenSpec : SpecRequest :=
  ⟨⟨"t", "u", "", "", ""⟩, "Rotate the deploy token", "No old token works", "", [], [], [], [], []⟩

/-- Its memory. -/
def tokenSpecMemory : Written Memory :=
  artifactMemory tokenSpec.scope 5 "spec_1" (specToMarkdown (newSpec tokenSpec 5 "spec_1").value)
    (newSpec tokenSpec 5 "spec_1").summary (92 / 100) (88 / 100)
    [("agentic_kind", .text "agentic_spec"), ("artifact_json", .text "{}"),
      ("title", .text (newSpec tokenSpec 5 "spec_1").value.title)]

theorem createSpec_tokenSpec :
    createSpec plainCodec tokenSpec 5 "spec_1" = .ok (newSpec tokenSpec 5 "spec_1", tokenSpecMemory) := by
  have hcomplete : ¬ (trimText tokenSpec.title = "" ∨ trimText tokenSpec.goal = "") := by decide +kernel
  rw [createSpec, if_neg hcomplete]
  rfl

/-- The stores that hold nothing else. -/
def worldOfTokenSpec : World :=
  { World.empty with
    memories := Backend.memory.upsert World.empty.memories tokenSpecMemory.value
    issued := ["spec_1"] }

theorem exec_tokenSpec (drafts : Event → List Draft) :
    Exec (step ((Deployment.inProcess 5).distilling drafts))
      (ServiceCall.program ((Deployment.inProcess 5).distilling drafts) plainCodec (.createSpec tokenSpec)) World.empty
      (.ok (.spec (newSpec tokenSpec 5 "spec_1"))) worldOfTokenSpec := by
  refine Exec.bind (a := newSpec tokenSpec 5 "spec_1") ?_ (.ret _ _)
  have hnow : Answers ((Deployment.inProcess 5).distilling drafts) .now World.empty 5 World.empty := ⟨rfl, rfl⟩
  refine .answer (step_answer hnow) (.answer (a := "spec_1") (step_answer ⟨⟨List.not_mem_nil, rfl, rfl⟩, rfl⟩) ?_)
  rw [createSpec_tokenSpec]
  exact .answer (a := ()) (step_answer rfl) (.ret _ _)

end AgentMemory
