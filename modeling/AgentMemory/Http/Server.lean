import AgentMemory.Ingestion.Ingest
import AgentMemory.Forgetting.Forget
import AgentMemory.Context.Pack

/-!
# The HTTP server

`internal/adapters/http`: the routes, the middleware that resolves the tenant of a request, and
the handlers. What `encoding/json` makes of a body is left open (`RequestJSON`), as are the
answers of the rate limiter and of the queue (`Outside`). The services are those that `NewApp`
wires; of the optional ones only the recorder can be missing. `CreateSpec` and `CreatePlan`
return artifacts, which hold no tenant, and are left open too.
-/

namespace AgentMemory.Http

open Tables Calls

/-! ## Requests and responses -/

/-- `http.Request` as the handlers read it: `header` is `r.Header.Get`, `param` is
`r.URL.Query().Get`, `remoteHost` is the host of `r.RemoteAddr`. -/
structure Request where
  method : String
  path : String
  header : String → String
  param : String → String
  body : String
  remoteHost : String

/-- Why the server refuses a request. -/
inductive ApiError where
  | unauthorized | tenantForbidden | rateLimited | methodNotAllowed | notFound | serviceUnavailable
  | noPage | badBody | unpublished
  | service (e : Err)
  deriving DecidableEq, Repr

/-- `statusForError` (`server.go:70-75`) and the statuses the handlers write themselves. -/
def ApiError.status : ApiError → Nat
  | .unauthorized => 401
  | .tenantForbidden => 403
  | .rateLimited => 429
  | .methodNotAllowed => 405
  | .notFound | .noPage => 404
  | .serviceUnavailable => 503
  | .badBody => 400
  | .unpublished => 500
  | .service .notFound => 404
  | .service _ => 400

/-- The text of the error, where this repository words it. -/
def ApiError.message : ApiError → Option String
  | .unauthorized => some "unauthorized"
  | .tenantForbidden => some "tenant not allowed for this key"
  | .rateLimited => some "rate limit exceeded"
  | .methodNotAllowed => some "method not allowed"
  | .notFound => some "not found"
  | .serviceUnavailable => some "service unavailable"
  | .service .notFound => some "memory not found"
  | .service (.invalid message) => some message
  | .noPage | .badBody | .unpublished | .service .unavailable => none

/-- `exportLine` (`evaluation/export.go:13-25`) without the measured latency. -/
structure ExportLine where
  traceID : String
  query : String
  tenantID : String
  userID : String
  candidateIDs : List String
  selectedIDs : List String
  scores : List (String × ℚ)
  tokenEstimate : Nat
  costEstimate : ℚ
  createdAt : Time

/-- The bodies of the responses. -/
inductive Body where
  | error (e : ApiError)
  | health
  | metrics
  | accepted (tenantID userID : String)
  | ingested (response : IngestResponse)
  | search (memories : List Candidate) (traceID : String)
  | memory (mem : Memory)
  | memories (mems : List Memory)
  | receipt (receipt : DeletionReceipt)
  | exported (rows : List ExportLine)
  | pack (pack : ContextPack)
  | trace (trace : Trace)
  | skills (skills : List SkillCard)
  | advice (advice : DecisionAdvice)
  | control (control : ControlContext)
  | spec (spec : SpecArtifact)
  | plan (plan : PlanArtifact)

/-- The tenants of the memories, traces, events, receipts and export rows of a body. -/
def Body.tenants : Body → List String
  | .ingested response => response.event.tenantID :: response.memories.map Memory.tenantID
  | .search candidates _ => candidates.map fun c => c.memory.tenantID
  | .memory mem => [mem.tenantID]
  | .memories mems => mems.map Memory.tenantID
  | .receipt deletion => [deletion.tenantID]
  | .exported rows => rows.map ExportLine.tenantID
  | .pack assembled => assembled.memories.map Memory.tenantID
  | .trace found => [found.tenantID]
  | .accepted tenantID _ => [tenantID]
  | _ => []

/-! ## The recorder and the traces -/

/-- `evaluation.Record` (`recorder.go:14-24`), with the fields of its query that are exported and
without the measured latency. -/
structure Record where
  traceID : String
  query : String
  tenantID : String
  userID : String
  candidateIDs : List String
  selectedIDs : List String
  scores : List (String × ℚ)
  tokenEstimate : Nat
  createdAt : Time

/-- What `Retrieve` records of an answer (`retrieval/service.go:98-108`). -/
def recordOf (trace : Trace) : Record where
  traceID := trace.id
  query := trace.query
  tenantID := trace.tenantID
  userID := trace.userID
  candidateIDs := trace.candidateIDs
  selectedIDs := trace.selectedIDs
  scores := trace.scores
  tokenEstimate := trace.tokenEstimate
  createdAt := trace.createdAt

/-- `evaluation.Recorder` (`recorder.go:26-31`). -/
structure Recorder where
  max : Nat
  records : List Record

/-- The size of the buffer that `NewRecorder` makes (`recorder.go:12-38`). -/
def bufferSize (max : Int) : Nat := if max ≤ 0 then 10000 else max.toNat

/-- `NewRecorder` (`recorder.go:33-38`). -/
def newRecorder (max : Int) : Recorder := ⟨bufferSize max, []⟩

/-- `Recorder.Record` (`recorder.go:40-47`). -/
def Recorder.record (r : Recorder) (rec : Record) : Recorder :=
  let records := r.records ++ [rec]
  if r.max < records.length then { r with records := records.drop (records.length - r.max) }
  else { r with records := records }

/-- `Recorder.Snapshot` (`recorder.go:49-55`). -/
def Recorder.snapshot (r : Recorder) : List Record := r.records

/-- `costPerToken` (`export.go:11`). -/
def costPerToken : ℚ := 3 / 1000000

/-- A line of `ExportJSONL` (`export.go:29-50`). -/
def exportLine (rec : Record) : ExportLine where
  traceID := rec.traceID
  query := rec.query
  tenantID := rec.tenantID
  userID := rec.userID
  candidateIDs := rec.candidateIDs
  selectedIDs := rec.selectedIDs
  scores := rec.scores
  tokenEstimate := rec.tokenEstimate
  costEstimate := rec.tokenEstimate * costPerToken
  createdAt := rec.createdAt

/-- The rows of a trace store, one per id. -/
abbrev TraceStore := Table Trace Trace.id

/-- `TraceStore.GetTrace` (`storage/memory/trace_store.go:28-37`, `postgres/audit_store.go:66-77`). -/
def getTrace (traces : TraceStore) (tenantID traceID : String) : Except Err Trace :=
  match traces.find? traceID with
  | none => .error .notFound
  | some trace => if trace.tenantID ≠ tenantID then .error .notFound else .ok trace

/-- What the server holds between requests, apart from the stores behind the ports. -/
structure ServerState where
  recorder : Option Recorder
  traces : TraceStore

/-- A response, and the retrieval that the recorder takes up with it. -/
structure Reply where
  status : Nat
  body : Body
  recorded : Option Record

/-- `writeError`. -/
def refuse (e : ApiError) : Go Reply := pure ⟨e.status, .error e, none⟩

/-- `writeJSON`, for a request that retrieves nothing. -/
def wrote (status : Nat) (body : Body) : Reply := ⟨status, body, none⟩

/-! ## Keys and tenants -/

/-- `config.Config`, as far as the server reads it. -/
structure ServerConfig where
  defaultTenant : String
  apiKeys : String
  asyncIngestion : Bool

/-- `ParseAPIKeys` (`middleware/auth.go:15-28`): keys and their tenants, the last entry first. -/
def parseAPIKeys (raw : String) : List (String × String) :=
  (raw.toList.splitOn ',').foldl (fun keys entry =>
    let entry := trimSpace entry
    let key := entry.takeWhile (· ≠ ':')
    let tenant := (entry.dropWhile (· ≠ ':')).drop 1
    if entry = [] ∨ key = [] then keys else (String.ofList key, String.ofList tenant) :: keys) []

/-- `bearerToken` (`middleware/auth.go:59-66`). -/
def bearerToken (r : Request) : String :=
  let auth := (r.header "Authorization").toList
  if 7 < auth.length ∧ (auth.take 7).map Char.toLower = "bearer ".toList then
    String.ofList (trimSpace (auth.drop 7))
  else ""

/-- `Auth` (`middleware/auth.go:32-57`): the tenant the key is bound to, which is empty where it
is bound to none or no keys are configured. -/
def authenticate (cfg : ServerConfig) (r : Request) : Except ApiError String :=
  let keys := parseAPIKeys cfg.apiKeys
  if keys = [] then .ok ""
  else
    let key := if bearerToken r = "" then r.header "X-API-Key" else bearerToken r
    if key = "" then .error .unauthorized
    else match keys.lookup key with
      | none => .error .unauthorized
      | some tenant => .ok tenant

/-- The tenants in the context of a request (`middleware/context.go`). -/
structure RequestContext where
  bound : String
  tenant : String

/-- `Tenant` (`middleware/tenant.go:12-31`). -/
def resolveTenant (cfg : ServerConfig) (bound : String) (r : Request) : Except ApiError RequestContext :=
  let header := r.header "X-Tenant-ID"
  if bound ≠ "" then
    if header ≠ "" ∧ header ≠ bound then .error .tenantForbidden else .ok ⟨bound, bound⟩
  else if header ≠ "" then .ok ⟨"", header⟩
  else .ok ⟨"", cfg.defaultTenant⟩

/-- The answers of the rate limiter, where one is wired, and of the queue to a request. -/
structure Outside where
  allows : String → Bool
  publishes : Bool

/-- `withMiddleware` (`middleware.go:12-25`), with `RateLimit` (`middleware/rate_limit.go:66-96`). -/
def withMiddleware (cfg : ServerConfig) (out : Outside) (r : Request) (next : RequestContext → Go Reply) :
    Go Reply :=
  match authenticate cfg r with
  | .error e => refuse e
  | .ok bound => match resolveTenant cfg bound r with
    | .error e => refuse e
    | .ok ctx =>
      if out.allows (if ctx.tenant = "" then r.remoteHost else ctx.tenant) = true then next ctx
      else refuse .rateLimited

/-- `tenantFor` (`middleware.go:30-41`). -/
def tenantFor (cfg : ServerConfig) (ctx : RequestContext) (explicit : String) : Except ApiError String :=
  if explicit ≠ "" then
    if ctx.bound ≠ "" ∧ ctx.bound ≠ explicit then .error .tenantForbidden else .ok explicit
  else if ctx.tenant ≠ "" then .ok ctx.tenant
  else .ok cfg.defaultTenant

/-! ## Handlers -/

/-- `decodeJSON` into the requests of the handlers. A decision comes with the tenant of its scope;
a spec or a plan is decoded for its tenant, and the body goes on to its service. -/
structure RequestJSON where
  ingest : String → Option IngestRequest
  query : String → Option Query
  decision : String → Option (String × DecisionRequest)
  control : String → Option ControlRequest
  spec : String → Option String
  plan : String → Option String

/-- The server and what it is wired with. -/
structure Server where
  config : ServerConfig
  base : Deployment
  drafts : Event → List Draft
  redactPII : String → String × Bool
  sorting : SliceSort
  artifacts : ArtifactJSON
  requests : RequestJSON
  /-- `CreateSpec` and `CreatePlan` on a body, for a tenant. -/
  createSpec : String → String → Go SpecArtifact
  createPlan : String → String → Go PlanArtifact

/-- The deployment behind the server. -/
def Server.deployment (srv : Server) : Deployment := srv.base.distilling srv.drafts

variable (srv : Server) (ctx : RequestContext) (r : Request)

/-- What most handlers do: resolve the tenant, run a service and write what it returns. -/
def served {α : Type} (explicit : String) (run : String → Go α) (write : α → Reply) : Go Reply :=
  match tenantFor srv.config ctx explicit with
  | .error e => refuse e
  | .ok tenantID => do
    match ← (run tenantID).caught with
    | .error e => refuse (.service e)
    | .ok a => pure (write a)

/-- A handler of a method. -/
def onMethod (method : String) (next : Go Reply) : Go Reply :=
  if r.method ≠ method then refuse .methodNotAllowed else next

/-- A handler of a posted body. -/
def posted {α : Type} (decode : String → Option α) (next : α → Go Reply) : Go Reply :=
  onMethod r "POST" <| match decode r.body with
    | none => refuse .badBody
    | some a => next a

/-- The rest of a path that starts with `start`. -/
def trimPrefix (text start : String) : String :=
  if start.toList.isPrefixOf text.toList then String.ofList (text.toList.drop start.length) else text

/-- An id that names no entry of a collection. -/
def badID (id : String) : Bool := id = "" || id.toList.contains '/'

/-- `handleHealth` (`handlers_health.go`). -/
def handleHealth : Go Reply := onMethod r "GET" (pure (wrote 200 .health))

/-- `handleEvents` (`handlers_events.go:9-48`). -/
def handleEvents (out : Outside) : Go Reply :=
  posted r srv.requests.ingest fun req =>
    if srv.config.asyncIngestion = true then
      match tenantFor srv.config ctx req.tenantID with
      | .error e => refuse e
      | .ok tenantID =>
        if out.publishes = true then pure (wrote 202 (.accepted tenantID req.userID)) else refuse .unpublished
    else
      served srv ctx req.tenantID (fun tenantID => ingest srv.deployment { req with tenantID := tenantID })
        fun response => wrote 201 (.ingested response)

/-- `handleMemorySearch` (`handlers_search.go:14-36`). -/
def handleMemorySearch : Go Reply :=
  posted r srv.requests.query fun q =>
    served srv ctx q.tenantID (fun tenantID => retrieve srv.deployment { q with tenantID := tenantID })
      fun answer => ⟨200, .search answer.1 answer.2.id, some (recordOf answer.2)⟩

/-- The limit `handleMemoryList` reads (`handlers_memories.go:86-91`). -/
def listLimit : Int := (atoi (r.param "limit").toList).getD 0

/-- `handleMemoryList` (`handlers_memories.go:76-103`). -/
def handleMemoryList : Go Reply :=
  onMethod r "GET" <|
    served srv ctx (r.param "tenant_id")
      (fun tenantID => ask (.list { Query.zero with
        tenantID := tenantID, userID := r.param "user_id", limit := listLimit r }))
      fun mems => wrote 200 (.memories mems)

/-- `handleMemoryRedact` (`handlers_memories.go:48-73`). -/
def handleMemoryRedact (id : String) : Go Reply :=
  onMethod r "POST" <|
    if badID id = true then refuse .notFound
    else served srv ctx (r.param "tenant_id")
      (fun tenantID => redact srv.redactPII tenantID id (r.param "reason"))
      fun receipt => wrote 200 (.receipt receipt)

/-- `handleMemoryByID` (`handlers_memories.go:12-44`). -/
def handleMemoryByID : Go Reply :=
  let id := trimPrefix r.path "/v1/memories/"
  if "/redact".toList.isSuffixOf id.toList then
    handleMemoryRedact srv ctx r (String.ofList (id.toList.take (id.length - "/redact".length)))
  else if badID id = true then refuse .notFound
  else if r.method = "GET" then
    served srv ctx (r.param "tenant_id") (fun tenantID => ask (.get tenantID id)) fun mem => wrote 200 (.memory mem)
  else if r.method = "DELETE" then
    served srv ctx (r.param "tenant_id") (fun tenantID => delete ⟨tenantID, "", id, r.param "reason"⟩)
      fun receipt => wrote 200 (.receipt receipt)
  else match tenantFor srv.config ctx (r.param "tenant_id") with
    | .error e => refuse e
    | .ok _ => refuse .methodNotAllowed

/-- `handleEvalsExport` (`handlers_evals.go:11-24`). -/
def handleEvalsExport (state : ServerState) : Go Reply :=
  match state.recorder with
  | none => refuse .notFound
  | some recorder => onMethod r "GET" (pure (wrote 200 (.exported (recorder.snapshot.map exportLine))))

/-- `handleContextAssemble` (`handlers_context.go:9-31`); the recorder takes up the retrieval. -/
def handleContextAssemble : Go Reply :=
  posted r srv.requests.query fun q =>
    served srv ctx q.tenantID
      (fun tenantID => do
        let (candidates, trace) ← retrieve srv.deployment { q with tenantID := tenantID }
        let pack ← packAnswer srv.sorting (some srv.artifacts) srv.deployment { q with tenantID := tenantID }
          candidates trace
        pure (pack, trace))
      fun answer => ⟨200, .pack answer.1, some (recordOf answer.2)⟩

/-- `handleTraceByID` (`handlers_traces.go:8-29`). -/
def handleTraceByID (state : ServerState) : Go Reply :=
  let id := trimPrefix r.path "/v1/traces/"
  onMethod r "GET" <|
    if badID id = true then refuse .notFound
    else served srv ctx (r.param "tenant_id") (fun tenantID => Prog.ended (getTrace state.traces tenantID id))
      fun trace => wrote 200 (.trace trace)

/-- `handleAgenticSkills` (`handlers_agentic.go:10-20`). -/
def handleAgenticSkills : Go Reply := onMethod r "GET" (pure (wrote 200 (.skills defaultSkills)))

/-- `handleAgenticDecide` (`handlers_agentic.go:22-47`). -/
def handleAgenticDecide : Go Reply :=
  posted r srv.requests.decision fun req =>
    served srv ctx req.1 (fun _ => Prog.ended (Agentic.decide srv.deployment.lower req.2))
      fun advice => wrote 200 (.advice advice)

/-- `handleAgenticContext` (`handlers_agentic.go:49-74`). -/
def handleAgenticContext : Go Reply :=
  posted r srv.requests.control fun req =>
    served srv ctx req.tenantID
      (fun tenantID => assembleControlContext srv.artifacts srv.deployment.lower { req with tenantID := tenantID })
      fun control => wrote 200 (.control control)

/-- `GetSpec` (`agentic/service.go:138-144`). -/
def getSpec (json : ArtifactJSON) (tenantID id : String) : Go SpecArtifact := do
  let mem ← ask (.get tenantID id)
  Prog.ended (specFromMemory json mem)

/-- `GetPlan` (`agentic/service.go:146-152`). -/
def getPlan (json : ArtifactJSON) (tenantID id : String) : Go PlanArtifact := do
  let mem ← ask (.get tenantID id)
  Prog.ended (planFromMemory json mem)

/-- The handlers of `/v1/agentic/specs` and `/v1/agentic/plans` (`handlers_agentic.go:76-187`):
the collection takes a body, an id below it reads one artifact. -/
def handleArtifacts {α : Type} (collection : String) (tenantOf : String → Option String)
    (create : String → String → Go α) (get : String → String → Go α) (body : α → Body) : Go Reply :=
  if r.path = collection then
    posted r tenantOf fun explicit =>
      served srv ctx explicit (fun tenantID => create tenantID r.body) fun artifact => wrote 201 (body artifact)
  else
    let id := trimPrefix r.path (collection ++ "/")
    onMethod r "GET" <|
      if badID id = true then refuse .notFound
      else served srv ctx (r.param "tenant_id") (fun tenantID => get tenantID id)
        fun artifact => wrote 200 (body artifact)

/-- `handleAgenticSpecs` (`handlers_agentic.go:76-105`). -/
def handleAgenticSpecs : Go Reply :=
  handleArtifacts srv ctx r "/v1/agentic/specs" srv.requests.spec srv.createSpec (getSpec srv.artifacts) .spec

/-- `handleAgenticPlans` (`handlers_agentic.go:107-136`). -/
def handleAgenticPlans : Go Reply :=
  handleArtifacts srv ctx r "/v1/agentic/plans" srv.requests.plan srv.createPlan (getPlan srv.artifacts) .plan

/-- The path lies below a collection. -/
def below (start : String) : Bool := start.toList.isPrefixOf r.path.toList

/-- The handler of a path behind the middleware (`routes.go:8-23`). -/
def handler (state : ServerState) (out : Outside) : Option (RequestContext → Go Reply) :=
  if r.path = "/v1/events" then some fun ctx => handleEvents srv ctx r out
  else if r.path = "/v1/memories/search" then some fun ctx => handleMemorySearch srv ctx r
  else if r.path = "/v1/memories" then some fun ctx => handleMemoryList srv ctx r
  else if below r "/v1/memories/" = true then some fun ctx => handleMemoryByID srv ctx r
  else if r.path = "/v1/evals/export" then some fun _ => handleEvalsExport r state
  else if r.path = "/v1/context/assemble" then some fun ctx => handleContextAssemble srv ctx r
  else if below r "/v1/traces/" = true then some fun ctx => handleTraceByID srv ctx r state
  else if r.path = "/v1/agentic/skills" then some fun _ => handleAgenticSkills r
  else if r.path = "/v1/agentic/decide" then some fun ctx => handleAgenticDecide srv ctx r
  else if r.path = "/v1/agentic/context" then some fun ctx => handleAgenticContext srv ctx r
  else if r.path = "/v1/agentic/specs" ∨ below r "/v1/agentic/specs/" = true then
    some fun ctx => handleAgenticSpecs srv ctx r
  else if r.path = "/v1/agentic/plans" ∨ below r "/v1/agentic/plans/" = true then
    some fun ctx => handleAgenticPlans srv ctx r
  else none

/-- `ServeHTTP`, on a path in the form in which the mux matches it. -/
def serve (state : ServerState) (out : Outside) : Go Reply :=
  if r.path = "/healthz" then handleHealth r
  else if r.path = "/metrics" then pure (wrote 200 .metrics)
  else match handler srv r state out with
    | none => refuse .noPage
    | some next => withMiddleware srv.config out r next

end AgentMemory.Http
