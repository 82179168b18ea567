import AgentMemory.Agentic.Heuristics

/-!
# The control context

`internal/services/agentic/service.go`: the active spec and plan are read from the memory store,
where each is kept as JSON in the metadata of a memory, and joined with what `Decide`
recommends for the query. What `json.Unmarshal` makes of a stored text is left open
(`ArtifactJSON`).
-/

namespace AgentMemory

open Calls

/-- `agentic.SpecArtifact`. -/
structure SpecArtifact where
  id : String
  title : String
  goal : String
  background : String
  constraints : List String
  acceptanceCriteria : List String
  nonGoals : List String
  risks : List String
  evidence : List String
  summary : String
  createdAt : Time
  updatedAt : Time
  deriving DecidableEq

/-- `agentic.PlanStep`. -/
structure PlanStep where
  id : String
  title : String
  description : String
  files : List String
  verification : List String
  expectedEvidence : List String
  status : String
  deriving DecidableEq

/-- `agentic.PlanArtifact`. -/
structure PlanArtifact where
  id : String
  specID : String
  title : String
  objective : String
  steps : List PlanStep
  checkpoints : List String
  tokenBudget : Int
  risk : RiskLevel
  evidenceRefs : List String
  summary : String
  createdAt : Time
  updatedAt : Time
  deriving DecidableEq

/-- `agentic.ControlRequest` with the fields of its scope. -/
structure ControlRequest where
  tenantID : String
  userID : String
  agentID : String
  projectID : String
  sessionID : String
  query : String
  tokenBudget : Int
  specID : String
  planID : String

/-- `agentic.ControlContext`. -/
structure ControlContext where
  activeSpec : Option SpecArtifact
  activePlan : Option PlanArtifact
  currentStep : Option PlanStep
  recommendedSkills : List SkillCard
  rails : List RailFinding
  instructions : List String
  tokenEstimate : Nat
  deriving DecidableEq

/-- `json.Unmarshal` into the two artifacts. -/
structure ArtifactJSON where
  spec : String → Except Err SpecArtifact
  plan : String → Except Err PlanArtifact

/-- `mem.Metadata[key].(string)`. -/
def metadataText (mem : Memory) (key : String) : Option String :=
  match mem.metadata.lookup key with
  | some (.text value) => some value
  | _ => none

/-- `isKind` (`service.go:341-347`). -/
def isKind (mem : Memory) (kind : String) : Bool := (metadataText mem "agentic_kind").getD "" = kind

/-- `artifactJSON` (`service.go:349-357`). -/
def artifactJSON (mem : Memory) : String := (metadataText mem "artifact_json").getD "{}"

/-- `specFromMemory` (`service.go:319-328`). -/
def specFromMemory (json : ArtifactJSON) (mem : Memory) : Except Err SpecArtifact :=
  if isKind mem "agentic_spec" then json.spec (artifactJSON mem) else .error .notFound

/-- `planFromMemory` (`service.go:330-339`). -/
def planFromMemory (json : ArtifactJSON) (mem : Memory) : Except Err PlanArtifact :=
  if isKind mem "agentic_plan" then json.plan (artifactJSON mem) else .error .notFound

/-- `queryForScope` (`service.go:246-255`). -/
def queryForScope (req : ControlRequest) : Query :=
  { Query.zero with
    tenantID := req.tenantID
    userID := req.userID
    agentID := req.agentID
    projectID := req.projectID
    sessionID := req.sessionID
    text := req.query }

/-- The loop of `selectSpec` and `selectPlan`: the artifact that was updated last, the first of
several. -/
def latestArtifact {α : Type} (read : Memory → Option α) (updatedAt : α → Time) (mems : List Memory) : Option α :=
  mems.foldl (fun selected mem =>
    match read mem with
    | none => selected
    | some artifact => match selected with
      | none => some artifact
      | some held => if updatedAt held < updatedAt artifact then some artifact else some held) none

/-- `selectSpec` (`service.go:179-209`); its one caller drops the error. -/
def selectSpec (json : ArtifactJSON) (req : ControlRequest) : Go (Option SpecArtifact) := do
  if req.specID ≠ "" then
    match ← Prog.attempt (Call.get req.tenantID req.specID) with
    | .error _ => pure none
    | .ok mem => pure (specFromMemory json mem).toOption
  else
    match ← Prog.attempt (Call.list (queryForScope req)) with
    | .error _ => pure none
    | .ok mems =>
      pure (latestArtifact (fun mem => (specFromMemory json mem).toOption) SpecArtifact.updatedAt mems)

/-- The plans `selectPlan` considers: those of the requested spec, where there is one. -/
def planFor (json : ArtifactJSON) (req : ControlRequest) (mem : Memory) : Option PlanArtifact :=
  (planFromMemory json mem).toOption.filter fun plan => req.specID = "" ∨ plan.specID = req.specID

/-- `selectPlan` (`service.go:211-244`); its one caller drops the error. -/
def selectPlan (json : ArtifactJSON) (req : ControlRequest) : Go (Option PlanArtifact) := do
  if req.planID ≠ "" then
    match ← Prog.attempt (Call.get req.tenantID req.planID) with
    | .error _ => pure none
    | .ok mem => pure (planFromMemory json mem).toOption
  else
    match ← Prog.attempt (Call.list (queryForScope req)) with
    | .error _ => pure none
    | .ok mems => pure (latestArtifact (planFor json req) PlanArtifact.updatedAt mems)

/-- `currentPlanStep` (`service.go:425-434`). -/
def currentPlanStep (lower : Char → Char) (plan : PlanArtifact) : Option PlanStep :=
  plan.steps.find? fun step =>
    String.ofList (toLower lower (trimSpace step.status.toList)) ∉ ["done", "complete", "completed"]

/-- `buildControlInstructions` (`service.go:436-452`). -/
def buildControlInstructions (spec : Option SpecArtifact) (plan : Option PlanArtifact)
    (decision : DecisionAdvice) : List String :=
  ["Inject only the smallest control context that changes the next decision.",
    "Prefer evidence-backed memories and active spec/plan artifacts over generic model priors.",
    "If evidence is missing for a current or external claim, route through research-grounding before committing it to memory."] ++
  (if spec.isSome then ["Treat the active SPEC as the source of truth for goal, non-goals, constraints, and acceptance criteria."]
    else []) ++
  (if plan.isSome then ["Execute only the current PLAN step, then verify and update state before continuing."]
    else []) ++
  (if decision.shouldVerify then
    ["Before completion, verify output against spec, plan, retrieved evidence, and safety rails."] else [])

/-- The words of a text. -/
def wordsOf (text : String) : Nat := wordCount text.toList

/-- The words of the artifacts that `estimateControlTokens` counts. -/
def artifactWords (spec : Option SpecArtifact) (plan : Option PlanArtifact) (step : Option PlanStep) : Nat :=
  (match spec with
    | some spec => wordsOf spec.summary
    | none => 0) +
  (match plan with
    | some plan => wordsOf plan.summary
    | none => 0) +
  (match step with
    | some step => wordsOf step.title + wordsOf step.description
    | none => 0)

/-- The words and weights of what goes with the artifacts. -/
def guidanceWords (instructions : List String) (skills : List SkillCard) (rails : List RailFinding) : Nat :=
  (instructions.map wordsOf).sum + skills.length * 12 + rails.length * 18

/-- `estimateControlTokens` (`service.go:454-471`): `1.35` is `27 / 20`. -/
def estimateControlTokens (control : ControlContext) : Nat :=
  (artifactWords control.activeSpec control.activePlan control.currentStep +
    guidanceWords control.instructions control.recommendedSkills control.rails) * 27 / 20

/-- What `AssembleControlContext` asks `Decide`. -/
def controlDecision (lower : Char → Char) (req : ControlRequest) (hasSpec hasPlan : Bool) : DecisionAdvice :=
  (Agentic.decide lower {
    task := req.query
    phase := .other ""
    risk := .other ""
    tokenBudget := req.tokenBudget
    hasApprovedSpec := hasSpec
    hasPlan := hasPlan
    hasEvidence := false
    userAskedForCode := false }).toOption.getD .zero

/-- The control context of an active spec and an active plan. -/
def controlContext (lower : Char → Char) (req : ControlRequest) (spec : Option SpecArtifact)
    (plan : Option PlanArtifact) : ControlContext :=
  let decision := controlDecision lower req spec.isSome plan.isSome
  let control : ControlContext := {
    activeSpec := spec
    activePlan := plan
    currentStep := plan.bind (currentPlanStep lower)
    recommendedSkills := decision.recommendedSkills
    rails := decision.rails
    instructions := buildControlInstructions spec plan decision
    tokenEstimate := 0 }
  { control with tokenEstimate := estimateControlTokens control }

/-- `AssembleControlContext` (`service.go:154-177`). -/
def assembleControlContext (json : ArtifactJSON) (lower : Char → Char) (req : ControlRequest) :
    Go ControlContext := do
  let spec ← selectSpec json req
  let plan ← selectPlan json req
  pure (controlContext lower req spec plan)

end AgentMemory
