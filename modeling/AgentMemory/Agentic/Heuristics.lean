import AgentMemory.Services.World

/-!
# The advice of the control plane

`internal/domain/agentic` and the heuristics of `internal/services/agentic`: from a task, a
phase and a few flags `Decide` recommends one route, with the rails and skills that go with it.
-/

namespace AgentMemory

/-- `agentic.Phase` (`agentic/types.go`). -/
inductive Phase where
  | triage | specify | research | plan | execute | verify | recover
  | other (name : String)
  deriving DecidableEq, Repr

/-- `agentic.RiskLevel` (`agentic/types.go`); a request that leaves it out has `other ""`. -/
inductive RiskLevel where
  | low | medium | high | critical
  | other (name : String)
  deriving DecidableEq, Repr

/-- The string a `RiskLevel` is. -/
def RiskLevel.name : RiskLevel → String
  | .low => "low"
  | .medium => "medium"
  | .high => "high"
  | .critical => "critical"
  | .other name => name

/-- `agentic.Horizon` (`agentic/types.go`). -/
inductive Horizon where
  | short | medium | long
  deriving DecidableEq, Repr

/-- The string a `Horizon` is. -/
def Horizon.name : Horizon → String
  | .short => "short"
  | .medium => "medium"
  | .long => "long"

/-- `agentic.Route` (`agentic/types.go`). -/
inductive Route where
  | answerDirectly | clarify | specify | research | plan | execute | verify | recover
  deriving DecidableEq, Repr

/-- `agentic.SkillCard`. -/
structure SkillCard where
  name : String
  description : String
  useWhen : List String
  inputs : List String
  outputs : List String
  tokenOverhead : Nat
  defaultPhase : Phase
  deriving DecidableEq

/-- `agentic.RailFinding`. -/
structure RailFinding where
  code : String
  severity : RiskLevel
  message : String
  action : String
  tokenCost : Nat
  confidence : ℚ
  deriving DecidableEq

/-- `agentic.DecisionRequest`, less the scope, which the heuristics do not read. -/
structure DecisionRequest where
  task : String
  phase : Phase
  risk : RiskLevel
  tokenBudget : Int
  hasApprovedSpec : Bool
  hasPlan : Bool
  hasEvidence : Bool
  userAskedForCode : Bool
  deriving DecidableEq

/-- `agentic.DecisionAdvice`. -/
structure DecisionAdvice where
  route : Route
  reason : String
  risk : RiskLevel
  horizon : Horizon
  recommendedSkills : List SkillCard
  rails : List RailFinding
  requiredActions : List String
  contextBudget : Int
  shouldWriteSpec : Bool
  shouldResearch : Bool
  shouldExecute : Bool
  shouldVerify : Bool

/-- The advice that comes with an error. -/
def DecisionAdvice.zero : DecisionAdvice :=
  ⟨.answerDirectly, "", .other "", .short, [], [], [], 0, false, false, false, false⟩

/-- `DefaultSkills` (`catalog.go:5-80`). -/
def defaultSkills : List SkillCard :=
  [{ name := "brainstorming"
     description := "turn a rough request into a small, explicit design before implementation"
     useWhen := ["unclear requirements", "multiple possible approaches", "new feature", "architecture decision"]
     inputs := ["task", "constraints", "success criteria"]
     outputs := ["short design", "tradeoffs", "open questions"]
     tokenOverhead := 220
     defaultPhase := .triage },
   { name := "spec-writing"
     description :=
       "externalize requirements, non-goals, risks, and acceptance criteria into a durable artifact"
     useWhen := ["high-risk change", "multi-step execution", "team handoff", "user asks for everything ready"]
     inputs := ["approved design", "evidence", "constraints"]
     outputs := ["SPEC artifact", "acceptance criteria", "risk list"]
     tokenOverhead := 320
     defaultPhase := .specify },
   { name := "research-grounding"
     description := "force claims and decisions to cite fresh external or repository evidence"
     useWhen := ["URLs provided", "latest/current information", "market comparison", "unknown technology",
       "legal/security/compliance claims"]
     inputs := ["research question", "allowed sources", "recency needs"]
     outputs := ["evidence list", "source-backed decision", "uncertainties"]
     tokenOverhead := 280
     defaultPhase := .research },
   { name := "planning"
     description := "break an approved spec into small, verifiable tasks with exact files and checks"
     useWhen := ["implementation requested", "change touches multiple files", "agent needs handoff", "TDD desired"]
     inputs := ["SPEC artifact", "repo evidence", "risk budget"]
     outputs := ["PLAN artifact", "task checklist", "verification commands"]
     tokenOverhead := 260
     defaultPhase := .plan },
   { name := "execution"
     description := "execute one bounded plan step at a time while preserving context and audit trail"
     useWhen := ["approved plan", "clear next step", "implementation phase"]
     inputs := ["current task", "files", "expected checks"]
     outputs := ["code or artifact change", "test result", "step status"]
     tokenOverhead := 180
     defaultPhase := .execute },
   { name := "verification"
     description := "verify outputs against spec, tests, evidence, and hallucination risks before completion"
     useWhen := ["before final answer", "after code changes", "before storing memory", "after research"]
     inputs := ["output", "spec", "plan", "evidence"]
     outputs := ["pass/fail", "gaps", "repair actions"]
     tokenOverhead := 240
     defaultPhase := .verify },
   { name := "systematic-debugging"
     description := "recover from failures by isolating root cause instead of guessing or adding unrelated changes"
     useWhen := ["test failure", "unexpected behavior", "agent is stuck", "regression"]
     inputs := ["symptom", "last change", "logs", "expected behavior"]
     outputs := ["hypothesis", "minimal repro", "fix", "regression check"]
     tokenOverhead := 260
     defaultPhase := .recover },
   { name := "memory-governance"
     description := "decide what deserves durable memory and what must be scoped, updated, redacted, or forgotten"
     useWhen := ["new preference", "contradiction", "PII", "security-sensitive fact", "long-term project state"]
     inputs := ["candidate memory", "source event", "scope", "retention policy"]
     outputs := ["memory decision", "scope", "confidence", "forget/update action"]
     tokenOverhead := 160
     defaultPhase := .verify }]

/-- `containsAny` (`heuristics.go:190-197`). -/
def containsAny (text : List Char) (needles : List String) : Bool :=
  needles.any fun n => contains text n.toList

/-- `wordCount` (`heuristics.go:199-217`). -/
def wordCount (text : List Char) : Nat :=
  let scan := text.foldl (fun (state : Nat × Bool) r =>
    if isSpace r then (if state.2 then (state.1 + 1, false) else state) else (state.1, true)) (0, false)
  if scan.2 then scan.1 + 1 else scan.1

/-- `inferRisk` (`heuristics.go:10-25`). -/
def inferRisk (lower : Char → Char) (req : DecisionRequest) : RiskLevel :=
  let text := toLower lower req.task.toList
  if req.risk ≠ .other "" then req.risk
  else if containsAny text ["credential", "secret", "production", "prod", "security", "compliance", "gdpr",
      "lgpd", "payment", "delete", "migration", "database", "multi-tenant", "tenant", "pii"] then .high
  else if 80 < wordCount text ∨ 4 < text.count ',' + text.count ';' ∨
      containsAny text ["architecture", "arquitetura", "benchmark", "mercado", "zip", "everything ready",
        "tudo pronto"] = true then .medium
  else .low

/-- `inferHorizon` (`heuristics.go:27-36`). -/
def inferHorizon (lower : Char → Char) (req : DecisionRequest) : Horizon :=
  let text := toLower lower req.task.toList
  if containsAny text ["longo prazo", "long term", "roadmap", "arquitetura", "platform", "plataforma",
      "mercado", "produção", "production"] then .long
  else if containsAny text ["médio", "medio", "medium", "planejar", "plan", "implementar", "build", "zip",
      "entregar"] = true ∨ 45 < wordCount text then .medium
  else .short

/-- `needsResearch` (`heuristics.go:38-47`). -/
def needsResearch (lower : Char → Char) (req : DecisionRequest) : Bool :=
  let text := toLower lower req.task.toList
  if req.hasEvidence then false
  else if contains text "http://".toList || contains text "https://".toList then true
  else containsAny text ["latest", "atual", "atuais", "mercado", "market", "benchmark", "paper", "arxiv",
    "github", "preço", "lei", "regulação", "hoje"]

/-- `needsSpec` (`heuristics.go:49-61`). -/
def needsSpec (lower : Char → Char) (req : DecisionRequest) (risk : RiskLevel) (horizon : Horizon) : Bool :=
  if req.hasApprovedSpec then false
  else if risk = .high ∨ risk = .critical then true
  else if horizon = .long ∨ horizon = .medium then true
  else containsAny (toLower lower req.task.toList) ["arquitetura", "architecture", "design", "implementar",
    "build", "gerar", "zip", "tudo pronto", "everything ready"]

/-- The words by which `needsPlan` takes a task for an implementation request. -/
def asksForWork (lower : Char → Char) (task : String) : Bool :=
  containsAny (toLower lower task.toList) ["implementar", "gerar", "build", "code", "código", "codigo", "zip",
    "pronto", "execute", "desenvolvimento"]

/-- `needsPlan` (`heuristics.go:63-69`). -/
def needsPlan (lower : Char → Char) (req : DecisionRequest) : Bool :=
  if req.hasPlan then false
  else req.userAskedForCode || asksForWork lower req.task

/-- The skills `chooseSkills` wants (`heuristics.go:72-92`). -/
def wantedSkills (lower : Char → Char) (req : DecisionRequest) (risk : RiskLevel) (horizon : Horizon) :
    List String :=
  let text := toLower lower req.task.toList
  (if needsSpec lower req risk horizon then ["brainstorming", "spec-writing"] else []) ++
  (if needsResearch lower req then ["research-grounding"] else []) ++
  (if needsPlan lower req || req.hasApprovedSpec then ["planning"] else []) ++
  (if req.hasPlan || req.userAskedForCode then ["execution", "verification"] else []) ++
  (if containsAny text ["bug", "erro", "error", "falha", "failing", "debug"] then ["systematic-debugging"]
    else []) ++
  (if containsAny text ["memória", "memoria", "memory", "lembrar", "forget", "esquecer", "pii", "lgpd"] then
    ["memory-governance"] else [])

/-- `chooseSkills` (`heuristics.go:71-100`). -/
def chooseSkills (lower : Char → Char) (req : DecisionRequest) (risk : RiskLevel) (horizon : Horizon)
    (catalog : List SkillCard) : List SkillCard :=
  catalog.filter fun skill => skill.name ∈ wantedSkills lower req risk horizon

/-- `buildRails` (`heuristics.go:102-145`). -/
def buildRails (lower : Char → Char) (req : DecisionRequest) (risk : RiskLevel) (horizon : Horizon) :
    List RailFinding :=
  (if needsResearch lower req then
    [⟨"needs_evidence", .medium, "task depends on fresh, external, or user-provided sources",
      "run research-grounding before persisting claims or making market/current recommendations", 280,
      86 / 100⟩] else []) ++
  (if needsSpec lower req risk horizon then
    [⟨"needs_spec", risk,
      "task is large or risky enough that direct execution may create rework or hallucinated assumptions",
      "create or retrieve a compact SPEC artifact before planning or execution", 320, 78 / 100⟩] else []) ++
  (if needsPlan lower req then
    [⟨"needs_plan", .medium, "implementation request should be decomposed into verifiable tasks",
      "create a PLAN artifact with checkpoints and verification commands", 260, 74 / 100⟩] else []) ++
  (if containsAny (toLower lower req.task.toList) ["credencial", "credential", "secret", "token", "pii", "lgpd",
      "gdpr"] then
    [⟨"sensitive_data", .high,
      "task may involve sensitive data or durable memory with compliance implications",
      "scope memory narrowly, redact secrets, and create a deletion/update path", 160, 80 / 100⟩] else [])

/-- `chooseRoute` (`heuristics.go:147-164`). -/
def chooseRoute (lower : Char → Char) (req : DecisionRequest) (risk : RiskLevel) (horizon : Horizon) : Route :=
  if needsResearch lower req then .research
  else if needsSpec lower req risk horizon then .specify
  else if needsPlan lower req then .plan
  else if req.hasPlan || req.userAskedForCode then .execute
  else if req.phase = .verify then .verify
  else .answerDirectly

/-- `contextBudget` (`heuristics.go:166-187`). -/
def contextBudget (req : DecisionRequest) (skills : List SkillCard) (rails : List RailFinding) : Int :=
  let budget := min 2500 (max 350 (if req.tokenBudget ≤ 0 then 900 else req.tokenBudget))
  let cost : Int := 120 + ((skills.map fun s => s.tokenOverhead / 4).sum + (rails.map fun r => r.tokenCost / 5).sum : Nat)
  if budget < cost then budget else cost

/-- `reasonFor` (`service.go:495-510`). -/
def reasonFor (route : Route) (risk : RiskLevel) (horizon : Horizon) : String :=
  match route with
  | .research => "fresh or external evidence is required before reliable planning or memory updates"
  | .specify => risk.name ++ "-risk, " ++ horizon.name ++
      "-horizon work benefits from a compact spec before execution"
  | .plan => "implementation was requested but the next steps are not yet decomposed into verifiable work"
  | .execute => "a plan exists or execution was explicitly requested; run one bounded step and verify it"
  | .verify => "verification is the active phase"
  | _ => "task is low-risk enough to answer directly with retrieved memory"

/-- `compactStrings` (`service.go:473-485`): trimmed, without empty and repeated ones. -/
def compactStrings (values : List String) : List String :=
  values.foldl (fun out value =>
    let trimmed := String.ofList (trimSpace value.toList)
    if trimmed = "" ∨ trimmed ∈ out then out else out ++ [trimmed]) []

/-- `actionsFor` (`service.go:512-526`). -/
def actionsFor (route : Route) (rails : List RailFinding) : List String :=
  let actions := rails.map RailFinding.action
  compactStrings (if actions = [] then
    match route with
    | .answerDirectly => ["answer directly and avoid storing low-value transient context"]
    | .execute => ["execute the current bounded plan step"]
    | _ => []
  else actions)

/-- `hasRail` (`service.go:528-535`). -/
def hasRail (rails : List RailFinding) (code : String) : Bool := rails.any (·.code = code)

/-- `Decide` (`service.go:46-72`) with the default skills. -/
def Agentic.decide (lower : Char → Char) (req : DecisionRequest) : Except Err DecisionAdvice :=
  if trimSpace req.task.toList = [] then .error (.invalid "invalid agentic request: task is required")
  else
    let risk := inferRisk lower req
    let horizon := inferHorizon lower req
    let skills := chooseSkills lower req risk horizon defaultSkills
    let rails := buildRails lower req risk horizon
    let route := chooseRoute lower req risk horizon
    .ok {
      route := route
      reason := reasonFor route risk horizon
      risk := risk
      horizon := horizon
      recommendedSkills := skills
      rails := rails
      requiredActions := actionsFor route rails
      contextBudget := contextBudget req skills rails
      shouldWriteSpec := route = .specify || hasRail rails "needs_spec"
      shouldResearch := route = .research || hasRail rails "needs_evidence"
      shouldExecute := route = .execute
      shouldVerify := route = .verify || route = .execute || req.userAskedForCode }

end AgentMemory
