import AgentMemory.Agentic.Selection
import AgentMemory.Lib.Utf8

/-!
# Storing specs and plans

`CreateSpec` and `CreatePlan` (`internal/services/agentic/service.go:74-136`) keep an artifact as JSON in
the metadata of a memory, and `GetSpec` and `GetPlan` decode it. Requests come as JSON, so their texts are
valid UTF-8; the one text that need not be is the `Summary`, which `truncate` cuts at a byte.
`artifacts_round_trip_iff` says that this cut is the only thing that can come between writing an artifact
and reading it.
-/

namespace AgentMemory

open Tables Utf8

/-- `agentic.Scope`. -/
structure AgenticScope where
  tenantID : String
  userID : String
  agentID : String
  projectID : String
  sessionID : String

/-- `agentic.SpecRequest`. -/
structure SpecRequest where
  scope : AgenticScope
  title : String
  goal : String
  background : String
  constraints : List String
  acceptanceCriteria : List String
  nonGoals : List String
  risks : List String
  evidence : List String

/-- `agentic.PlanRequest`; `risk` is `other ""` where it is left out. -/
structure PlanRequest where
  scope : AgenticScope
  specID : String
  title : String
  objective : String
  steps : List PlanStep
  checkpoints : List String
  tokenBudget : Int
  risk : RiskLevel
  evidenceRefs : List String

/-- A value with a `Summary` that may be cut within a character. `summary` is the Go string, and `value`
has in its place what a reader makes of it who replaces stray bytes. -/
structure Written (α : Type) where
  value : α
  summary : Bytes
  deriving DecidableEq

/-- `json.Marshal` and `json.Unmarshal` of the two artifacts. -/
structure ArtifactCodec extends ArtifactJSON where
  marshalSpec : Written SpecArtifact → Except Err String
  marshalPlan : Written PlanArtifact → Except Err String

/-- `strings.TrimSpace` of a text of a request. -/
def trimText (text : String) : String := String.ofList (trimSpace text.toList)

/-- `truncate` (`service.go:487-493`). -/
def truncate (value : Bytes) (maxLen : Nat) : Bytes :=
  let value := trimWhere isSpace value
  if value.length ≤ maxLen then value
  else trimWhere isSpace (value.take (maxLen - 1)) ++ encode ['…']

/-- What a reader who replaces stray bytes makes of a string. -/
def readable (bytes : Bytes) : String := String.ofList (replaceInvalid bytes)

/-- The text that `summarizeSpec` cuts. -/
def specText (spec : SpecArtifact) : List Char :=
  join ([spec.title.toList, spec.goal.toList] ++
    (if spec.acceptanceCriteria = [] then []
      else ["acceptance: ".toList ++ join (spec.acceptanceCriteria.map String.toList) "; ".toList])) " | ".toList

/-- `summarizeSpec` (`service.go:359-365`). -/
def summarizeSpec (spec : SpecArtifact) : Bytes := truncate (encode (specText spec)) 420

/-- The text that `summarizePlan` cuts. -/
def planText (plan : PlanArtifact) : List Char :=
  (plan.title ++ " | " ++ plan.objective ++ " | " ++ toString plan.steps.length ++ " steps | risk=" ++
    plan.risk.name).toList

/-- `summarizePlan` (`service.go:367-369`). -/
def summarizePlan (plan : PlanArtifact) : Bytes := truncate (encode (planText plan)) 420

/-- `writeList` (`service.go:394-402`). -/
def writeList (title : String) (values : List String) : String :=
  if values = [] then "" else "\n" ++ title ++ ":\n" ++ String.join (values.map fun v => "- " ++ v ++ "\n")

/-- `specToMarkdown` (`service.go:371-380`). -/
def specToMarkdown (spec : SpecArtifact) : String :=
  "# SPEC: " ++ spec.title ++ "\n\nGoal: " ++ spec.goal ++ "\n" ++
    writeList "Acceptance Criteria" spec.acceptanceCriteria ++ writeList "Constraints" spec.constraints ++
    writeList "Non Goals" spec.nonGoals ++ writeList "Risks" spec.risks ++ writeList "Evidence" spec.evidence

/-- `planToMarkdown` (`service.go:382-392`). -/
def planToMarkdown (plan : PlanArtifact) : String :=
  "# PLAN: " ++ plan.title ++ "\n\nObjective: " ++ plan.objective ++ "\nRisk: " ++ plan.risk.name ++
    "\nToken budget: " ++ toString plan.tokenBudget ++ "\n" ++
    String.join (plan.steps.map fun step =>
      "\n## " ++ step.id ++ ": " ++ step.title ++ "\n" ++ step.description ++ "\n" ++
        writeList "Files" step.files ++ writeList "Verification" step.verification) ++
    writeList "Checkpoints" plan.checkpoints

/-- `normalizeSteps` (`service.go:404-423`). -/
def normalizeSteps (steps : List PlanStep) : List PlanStep :=
  steps.mapIdx fun i step =>
    { id := if trimText step.id = "" then "T" ++ toString (i + 1) else trimText step.id
      title := trimText step.title
      description := trimText step.description
      files := compactStrings step.files
      verification := compactStrings step.verification
      expectedEvidence := compactStrings step.expectedEvidence
      status := if trimText step.status = "" then "pending" else trimText step.status }

/-- `memoryScope` (`service.go:304-317`). -/
def memoryScope (scope : AgenticScope) : Scope :=
  if scope.sessionID ≠ "" then .session
  else if scope.projectID ≠ "" then .project
  else if scope.agentID ≠ "" then .agent
  else if scope.userID ≠ "" then .user
  else .tenant

/-- What both `memoryForSpec` and `memoryForPlan` fill in. -/
def artifactMemory (scope : AgenticScope) (now : Time) (id content : String) (summary : Bytes)
    (confidence importance : ℚ) (metadata : List (String × MetaValue)) : Written Memory where
  value := { newMemory now .procedure (memoryScope scope) content with
    id := id
    tenantID := scope.tenantID
    userID := scope.userID
    agentID := scope.agentID
    projectID := scope.projectID
    sessionID := scope.sessionID
    summary := readable summary
    confidence := confidence
    importance := importance
    metadata := metadata }
  summary := summary

/-- `memoryForSpec` (`service.go:257-278`). -/
def memoryForSpec (json : ArtifactCodec) (scope : AgenticScope) (spec : Written SpecArtifact) (now : Time) :
    Except Err (Written Memory) := do
  let payload ← json.marshalSpec spec
  pure (artifactMemory scope now spec.value.id (specToMarkdown spec.value) spec.summary (92 / 100) (88 / 100)
    [("agentic_kind", .text "agentic_spec"), ("artifact_json", .text payload), ("title", .text spec.value.title)])

/-- `memoryForPlan` (`service.go:280-302`). -/
def memoryForPlan (json : ArtifactCodec) (scope : AgenticScope) (plan : Written PlanArtifact) (now : Time) :
    Except Err (Written Memory) := do
  let payload ← json.marshalPlan plan
  pure (artifactMemory scope now plan.value.id (planToMarkdown plan.value) plan.summary (90 / 100) (86 / 100)
    [("agentic_kind", .text "agentic_plan"), ("artifact_json", .text payload),
      ("spec_id", .text plan.value.specID), ("title", .text plan.value.title)])

/-- The spec `CreateSpec` makes, before it is summarised. -/
def draftSpec (req : SpecRequest) (now : Time) (id : String) : SpecArtifact where
  id := id
  title := trimText req.title
  goal := trimText req.goal
  background := trimText req.background
  constraints := compactStrings req.constraints
  acceptanceCriteria := compactStrings req.acceptanceCriteria
  nonGoals := compactStrings req.nonGoals
  risks := compactStrings req.risks
  evidence := compactStrings req.evidence
  summary := ""
  createdAt := now
  updatedAt := now

/-- The spec with its summary. -/
def newSpec (req : SpecRequest) (now : Time) (id : String) : Written SpecArtifact :=
  let summary := summarizeSpec (draftSpec req now id)
  ⟨{ draftSpec req now id with summary := readable summary }, summary⟩

/-- `CreateSpec` (`service.go:74-98`), with its reading of the clock and its new id: what it returns, and
the memory it upserts. -/
def createSpec (json : ArtifactCodec) (req : SpecRequest) (now : Time) (id : String) :
    Except Err (Written SpecArtifact × Written Memory) :=
  if trimText req.title = "" ∨ trimText req.goal = "" then
    .error (.invalid "invalid agentic request: title and goal are required")
  else do
    let mem ← memoryForSpec json req.scope (newSpec req now id) now
    pure (newSpec req now id, mem)

/-- The plan `CreatePlan` makes, before it is summarised. -/
def draftPlan (req : PlanRequest) (now : Time) (id : String) : PlanArtifact where
  id := id
  specID := trimText req.specID
  title := trimText req.title
  objective := trimText req.objective
  steps := normalizeSteps req.steps
  checkpoints := compactStrings req.checkpoints
  tokenBudget := if req.tokenBudget ≤ 0 then 1200 else req.tokenBudget
  risk := if req.risk.name = "" then .medium else req.risk
  evidenceRefs := compactStrings req.evidenceRefs
  summary := ""
  createdAt := now
  updatedAt := now

/-- The plan with its summary. -/
def newPlan (req : PlanRequest) (now : Time) (id : String) : Written PlanArtifact :=
  let summary := summarizePlan (draftPlan req now id)
  ⟨{ draftPlan req now id with summary := readable summary }, summary⟩

/-- `CreatePlan` (`service.go:100-136`). -/
def createPlan (json : ArtifactCodec) (req : PlanRequest) (now : Time) (id : String) :
    Except Err (Written PlanArtifact × Written Memory) :=
  if trimText req.title = "" ∨ trimText req.objective = "" then
    .error (.invalid "invalid agentic request: title and objective are required")
  else if req.steps = [] then .error (.invalid "invalid agentic request: at least one plan step is required")
  else do
    let mem ← memoryForPlan json req.scope (newPlan req now id) now
    pure (newPlan req now id, mem)

/-! ## The store between -/

/-- The rows of a memory store, with the bytes of their summaries. -/
abbrev WrittenStore := Table (Written Memory) fun m => m.value.id

/-- What an `Upsert` that succeeds leaves. Postgres takes a text only where it is valid UTF-8. -/
def Backend.Keeps : Backend → WrittenStore → Written Memory → WrittenStore → Prop
  | .memory, s, m, s' => s' = s.upsert m
  | .postgres timestamptz ilike, s, m, s' => Valid m.summary ∧
      s' = s.upsert ⟨(Backend.postgres timestamptz ilike).stored ((s.find? m.value.id).map Written.value) m.value, m.summary⟩

/-- `MemoryStore.Get`. -/
def WrittenStore.get (s : WrittenStore) (tenantID memoryID : String) : Except Err Memory :=
  match s.find? memoryID with
  | some m => if m.value.tenantID = tenantID ∧ m.value.status ≠ .deleted then .ok m.value else .error .notFound
  | none => .error .notFound

/-- `GetSpec` (`service.go:138-144`). -/
def getSpec (json : ArtifactCodec) (s : WrittenStore) (tenantID id : String) : Except Err SpecArtifact := do
  let mem ← WrittenStore.get s tenantID id
  specFromMemory json.toArtifactJSON mem

/-- `GetPlan` (`service.go:146-152`). -/
def getPlan (json : ArtifactCodec) (s : WrittenStore) (tenantID id : String) : Except Err PlanArtifact := do
  let mem ← WrittenStore.get s tenantID id
  planFromMemory json.toArtifactJSON mem

/-- The two are the same `SpecArtifact`, byte for byte. -/
def SameSpec (got : SpecArtifact) (made : Written SpecArtifact) : Prop :=
  { got with summary := "" } = { made.value with summary := "" } ∧ encode got.summary.toList = made.summary

/-- The two are the same `PlanArtifact`, byte for byte. -/
def SamePlan (got : PlanArtifact) (made : Written PlanArtifact) : Prop :=
  { got with summary := "" } = { made.value with summary := "" } ∧ encode got.summary.toList = made.summary

/-- An artifact is created, its memory has a valid summary, and wherever the memory is kept under its new id the
artifact is read back as it was returned. -/
def RoundTrips {α β : Type} (b : Backend) (created : Except Err (Written α × Written Memory))
    (get : WrittenStore → String → String → Except Err β) (Same : β → Written α → Prop) (tenantID id : String) : Prop :=
  ∃ made mem, created = .ok (made, mem) ∧ Valid mem.summary ∧
    ∀ s s', s.find? id = none → b.Keeps s mem s' → ∃ got, get s' tenantID id = .ok got ∧ Same got made

/-- A text need not be cut, or the cut does not go through a character. -/
def CutsBetween (text : List Char) : Prop :=
  len (trimSpace text) ≤ 420 ∨ ∃ front rest, trimSpace text = front ++ rest ∧ len front = 419

/-! ## What is cut -/

theorem length_encode_eq (text : List Char) : (encode text).length = len text := length_encode text

theorem trimWhere_isSpace (text : List Char) : trimWhere isSpace (encode text) = encode (trimSpace text) :=
  trimWhere_encode isSpace text

/-- A text that is cut after `n` bytes is valid exactly where these are whole characters. -/
theorem valid_truncate_iff (text : List Char) (n : Nat) : Valid (truncate (encode text) (n + 1)) ↔
    len (trimSpace text) ≤ n + 1 ∨ ∃ front rest, trimSpace text = front ++ rest ∧ len front = n := by
  unfold truncate
  rw [trimWhere_isSpace, Nat.add_sub_cancel]
  dsimp only
  rw [length_encode_eq]
  split
  · next hshort => exact iff_of_true (Valid.encode _) (Or.inl hshort)
  · next hlong =>
    rw [or_iff_right hlong]
    have hcut : n ≤ (encode (trimSpace text)).length := by
      rw [length_encode_eq]
      omega
    have hellipsis : encode ['…'] = String.utf8EncodeChar '…' := List.append_nil _
    have hvalid : Valid (trimWhere isSpace ((encode (trimSpace text)).take n) ++ encode ['…']) ↔
        Valid ((encode (trimSpace text)).take n) := by
      rw [← valid_trimWhere_iff isSpace ((encode (trimSpace text)).take n)]
      refine ⟨fun h => ?_, fun h => h.append (Valid.encode _)⟩
      rw [hellipsis] at h
      exact valid_of_append_char h
    rw [hvalid, valid_take_iff hcut]
    simp only [length_encode_eq]

theorem valid_summary_iff (text : List Char) : Valid (truncate (encode text) 420) ↔ CutsBetween text :=
  valid_truncate_iff text 419

/-! ## Reading back -/

theorem encode_readable_iff {bytes : Bytes} : encode (readable bytes).toList = bytes ↔ Valid bytes := by
  rw [readable, String.toList_ofList]
  exact encode_replaceInvalid_iff

/-- What is kept under a new id is found there, with the metadata it had. -/
theorem get_of_keeps {b : Backend} {s s' : WrittenStore} {m : Written Memory} (hnew : s.find? m.value.id = none)
    (hkeeps : b.Keeps s m s') (hstatus : m.value.status ≠ .deleted) :
    ∃ got, s'.get m.value.tenantID m.value.id = .ok got ∧
      ∀ key, metadataText got key = metadataText m.value key := by
  cases b with
  | memory =>
    obtain rfl := hkeeps
    refine ⟨m.value, ?_, fun _ => rfl⟩
    rw [WrittenStore.get, Table.find?_upsert_self]
    exact if_pos ⟨rfl, hstatus⟩
  | postgres timestamptz ilike =>
    obtain ⟨-, rfl⟩ := hkeeps
    rw [hnew]
    refine ⟨m.value.encoded, ?_, fun key => ?_⟩
    · have hfind : (s.upsert ⟨m.value.encoded, m.summary⟩).find? m.value.id = some ⟨m.value.encoded, m.summary⟩ :=
        Table.find?_upsert_self s (⟨m.value.encoded, m.summary⟩ : Written Memory)
      show WrittenStore.get (s.upsert ⟨m.value.encoded, m.summary⟩) m.value.tenantID m.value.id = _
      rw [WrittenStore.get, hfind]
      exact if_pos ⟨rfl, hstatus⟩
    · unfold metadataText
      rw [lookup_encoded]
      cases m.value.metadata.lookup key with
      | none => rfl
      | some value => cases value <;> rfl

/-- An artifact that is read from a memory's metadata comes back exactly where the summary is whole. -/
theorem roundTrips_iff {α β : Type} {b : Backend} {made : Written α} {mem : Written Memory}
    {read : Memory → Except Err β} {Same : β → Written α → Prop} (hstatus : mem.value.status ≠ .deleted)
    (hread : Valid mem.summary → ∀ got, (∀ key, metadataText got key = metadataText mem.value key) →
      ∃ artifact, read got = .ok artifact ∧ Same artifact made) :
    RoundTrips b (.ok (made, mem)) (fun s tenantID id => WrittenStore.get s tenantID id >>= read) Same
      mem.value.tenantID mem.value.id ↔ Valid mem.summary := by
  constructor
  · rintro ⟨_, _, heq, hvalid, -⟩
    cases heq
    exact hvalid
  · intro hvalid
    refine ⟨made, mem, rfl, hvalid, fun s s' hnew hkeeps => ?_⟩
    obtain ⟨got, hgot, hmetadata⟩ := get_of_keeps hnew hkeeps hstatus
    obtain ⟨artifact, hartifact, hsame⟩ := hread hvalid got hmetadata
    refine ⟨artifact, ?_, hsame⟩
    show WrittenStore.get s' mem.value.tenantID mem.value.id >>= read = .ok artifact
    rw [hgot]
    exact hartifact

variable {json : ArtifactCodec} {now : Time} {id : String}

theorem valid_newSpec_iff (req : SpecRequest) :
    Valid (newSpec req now id).summary ↔ CutsBetween (specText (draftSpec req now id)) := by
  simp only [newSpec, summarizeSpec]
  exact valid_summary_iff (specText (draftSpec req now id))

theorem valid_newPlan_iff (req : PlanRequest) :
    Valid (newPlan req now id).summary ↔ CutsBetween (planText (draftPlan req now id)) := by
  simp only [newPlan, summarizePlan]
  exact valid_summary_iff (planText (draftPlan req now id))

theorem artifactMemory_not_deleted (scope : AgenticScope) (content : String) (summary : Bytes)
    (confidence importance : ℚ) (metadata : List (String × MetaValue)) :
    (artifactMemory scope now id content summary confidence importance metadata).value.status ≠ .deleted := by
  show Status.active ≠ .deleted
  decide

theorem specRoundTrips_iff {req : SpecRequest} (b : Backend) (htitle : trimText req.title ≠ "")
    (hgoal : trimText req.goal ≠ "")
    (hjson : ∃ text, json.marshalSpec (newSpec req now id) = .ok text ∧
      json.spec text = .ok (newSpec req now id).value) :
    RoundTrips b (createSpec json req now id) (getSpec json) SameSpec req.scope.tenantID id ↔
      CutsBetween (specText (draftSpec req now id)) := by
  obtain ⟨text, hmarshal, hunmarshal⟩ := hjson
  have hcreate : createSpec json req now id = memoryForSpec json req.scope (newSpec req now id) now >>= fun mem =>
      pure (newSpec req now id, mem) := by
    rw [createSpec, if_neg (not_or.mpr ⟨htitle, hgoal⟩)]
  have hid : (newSpec req now id).value.id = id := rfl
  have hsummary : (newSpec req now id).value.summary = readable (newSpec req now id).summary := by simp only [newSpec]
  rw [hcreate, ← valid_newSpec_iff, memoryForSpec]
  generalize newSpec req now id = made at hid hsummary hmarshal hunmarshal ⊢
  subst hid
  rw [hmarshal]
  refine roundTrips_iff (artifactMemory_not_deleted _ _ _ _ _ _) fun hvalid got hmetadata => ?_
  refine ⟨made.value, ?_, rfl, hsummary ▸ encode_readable_iff.mpr hvalid⟩
  have hkind : isKind got "agentic_spec" = true := by
    unfold isKind
    rw [hmetadata]
    rfl
  have hpayload : artifactJSON got = text := by
    unfold artifactJSON
    rw [hmetadata]
    rfl
  rw [specFromMemory, if_pos hkind, hpayload, hunmarshal]

theorem planRoundTrips_iff {req : PlanRequest} (b : Backend) (htitle : trimText req.title ≠ "")
    (hobjective : trimText req.objective ≠ "") (hsteps : req.steps ≠ [])
    (hjson : ∃ text, json.marshalPlan (newPlan req now id) = .ok text ∧
      json.plan text = .ok (newPlan req now id).value) :
    RoundTrips b (createPlan json req now id) (getPlan json) SamePlan req.scope.tenantID id ↔
      CutsBetween (planText (draftPlan req now id)) := by
  obtain ⟨text, hmarshal, hunmarshal⟩ := hjson
  have hcreate : createPlan json req now id = memoryForPlan json req.scope (newPlan req now id) now >>= fun mem =>
      pure (newPlan req now id, mem) := by
    rw [createPlan, if_neg (not_or.mpr ⟨htitle, hobjective⟩), if_neg hsteps]
  have hid : (newPlan req now id).value.id = id := rfl
  have hsummary : (newPlan req now id).value.summary = readable (newPlan req now id).summary := by simp only [newPlan]
  rw [hcreate, ← valid_newPlan_iff, memoryForPlan]
  generalize newPlan req now id = made at hid hsummary hmarshal hunmarshal ⊢
  subst hid
  rw [hmarshal]
  refine roundTrips_iff (artifactMemory_not_deleted _ _ _ _ _ _) fun hvalid got hmetadata => ?_
  refine ⟨made.value, ?_, rfl, hsummary ▸ encode_readable_iff.mpr hvalid⟩
  have hkind : isKind got "agentic_plan" = true := by
    unfold isKind
    rw [hmetadata]
    rfl
  have hpayload : artifactJSON got = text := by
    unfold artifactJSON
    rw [hmetadata]
    rfl
  rw [planFromMemory, if_pos hkind, hpayload, hunmarshal]

/-- A valid request's artifact is read back as it was made, with a valid summary, exactly where the summary is
not cut within a character. -/
theorem artifacts_round_trip_iff (b : Backend) (json : ArtifactCodec) (now : Time) (id : String) :
    (∀ req : SpecRequest, trimText req.title ≠ "" → trimText req.goal ≠ "" →
      (∃ text, json.marshalSpec (newSpec req now id) = .ok text ∧ json.spec text = .ok (newSpec req now id).value) →
      (RoundTrips b (createSpec json req now id) (getSpec json) SameSpec req.scope.tenantID id ↔
        CutsBetween (specText (draftSpec req now id)))) ∧
    ∀ req : PlanRequest, trimText req.title ≠ "" → trimText req.objective ≠ "" → req.steps ≠ [] →
      (∃ text, json.marshalPlan (newPlan req now id) = .ok text ∧ json.plan text = .ok (newPlan req now id).value) →
      (RoundTrips b (createPlan json req now id) (getPlan json) SamePlan req.scope.tenantID id ↔
        CutsBetween (planText (draftPlan req now id))) :=
  ⟨fun _ htitle hgoal hjson => specRoundTrips_iff b htitle hgoal hjson,
    fun _ htitle hobjective hsteps hjson => planRoundTrips_iff b htitle hobjective hsteps hjson⟩

/-- `encoding/json`, as far as one spec and one plan go. -/
def codecOf (spec : Written SpecArtifact) (specText : String) (plan : Written PlanArtifact) (planText : String) :
    ArtifactCodec where
  marshalSpec made := if made = spec then .ok specText else .error .unavailable
  marshalPlan made := if made = plan then .ok planText else .error .unavailable
  spec raw := if raw = specText then .ok spec.value else .error .unavailable
  plan raw := if raw = planText then .ok plan.value else .error .unavailable

theorem codecOf_spec (spec : Written SpecArtifact) (specText : String) (plan : Written PlanArtifact)
    (planText : String) : ∃ text, (codecOf spec specText plan planText).marshalSpec spec = .ok text ∧
      (codecOf spec specText plan planText).spec text = .ok spec.value :=
  ⟨specText, if_pos rfl, if_pos rfl⟩

theorem codecOf_plan (spec : Written SpecArtifact) (specText : String) (plan : Written PlanArtifact)
    (planText : String) : ∃ text, (codecOf spec specText plan planText).marshalPlan plan = .ok text ∧
      (codecOf spec specText plan planText).plan text = .ok plan.value :=
  ⟨planText, if_pos rfl, if_pos rfl⟩

/-- The request behind `oneSpec`. -/
def shipSpec : SpecRequest := ⟨⟨"t", "", "", "", ""⟩, "Ship", " Ship it", "", [], [], [], [], []⟩

/-- A plan of one step. -/
def shipPlan : PlanRequest :=
  ⟨⟨"t", "", "", "", ""⟩, "spec_1", "Ship", "Ship it", [⟨"", "Build", "make", [], [], [], ""⟩], [], 0, .other "", []⟩

/-- The plan as JSON. -/
def shipPlanText : String :=
  "\x7b\"id\":\"plan_1\",\"spec_id\":\"spec_1\",\"title\":\"Ship\",\"objective\":\"Ship it\",\"steps\":[\x7b" ++
    "\"id\":\"T1\",\"title\":\"Build\",\"description\":\"make\",\"status\":\"pending\"\x7d]," ++
    "\"token_budget\":1200,\"risk\":\"medium\",\"summary\":\"Ship | Ship it | 1 steps | risk=medium\"," ++
    "\"created_at\":\"1970-01-01T00:00:00.000000001Z\",\"updated_at\":\"1970-01-01T00:00:00.000000001Z\"\x7d"

def shipCodec (id : String) : ArtifactCodec :=
  codecOf (newSpec shipSpec 1 id) oneSpecText (newPlan shipPlan 1 id) shipPlanText

theorem artifacts_round_trip_ship :
    (RoundTrips .memory (createSpec (shipCodec "spec_1") shipSpec 1 "spec_1") (getSpec (shipCodec "spec_1")) SameSpec
        "t" "spec_1" ↔ CutsBetween (specText (draftSpec shipSpec 1 "spec_1"))) ∧
    (RoundTrips .memory (createPlan (shipCodec "plan_1") shipPlan 1 "plan_1") (getPlan (shipCodec "plan_1")) SamePlan
        "t" "plan_1" ↔ CutsBetween (planText (draftPlan shipPlan 1 "plan_1"))) :=
  ⟨(artifacts_round_trip_iff .memory (shipCodec "spec_1") 1 "spec_1").1 shipSpec (by decide +kernel)
      (by decide +kernel) (codecOf_spec _ _ _ _),
    (artifacts_round_trip_iff .memory (shipCodec "plan_1") 1 "plan_1").2 shipPlan (by decide +kernel)
      (by decide +kernel) (by decide) (codecOf_plan _ _ _ _)⟩

/-- A goal of 250 accented letters, whose summary is cut after 419 bytes. -/
def accentsSpec : SpecRequest :=
  ⟨⟨"t", "", "", "", ""⟩, "a", String.ofList (List.replicate 250 'é'), "", [], [], [], [], []⟩

/-- The spec as JSON. -/
def accentsSpecText : String :=
  "\x7b\"id\":\"spec_1\",\"title\":\"a\",\"goal\":\"" ++ accentsSpec.goal ++ "\",\"summary\":\"" ++
    (newSpec accentsSpec 1 "spec_1").value.summary ++
    "\",\"created_at\":\"1970-01-01T00:00:00.000000001Z\",\"updated_at\":\"1970-01-01T00:00:00.000000001Z\"\x7d"

def accentsCodec : ArtifactCodec :=
  codecOf (newSpec accentsSpec 1 "spec_1") accentsSpecText (newPlan shipPlan 1 "plan_1") shipPlanText

theorem toList_accents : accentsSpec.goal.toList = List.replicate 250 'é' := String.toList_ofList

theorem trimText_accents : trimText accentsSpec.goal = accentsSpec.goal := by
  have htrim : trimSpace (List.replicate 250 'é') = List.replicate 250 'é' := by decide +kernel
  rw [trimText, toList_accents, htrim]
  rfl

theorem specText_of_no_criteria {spec : SpecArtifact} (h : spec.acceptanceCriteria = []) :
    specText spec = spec.title.toList ++ (" | ".toList ++ spec.goal.toList) := by
  rw [specText, if_pos h, List.append_nil, join]
  simp [List.intersperse]

theorem specText_accents : specText (draftSpec accentsSpec 1 "spec_1") =
    ['a', ' ', '|', ' '] ++ List.replicate 250 'é' := by
  have htitle : trimText accentsSpec.title = "a" := by decide +kernel
  rw [specText_of_no_criteria rfl]
  show (trimText accentsSpec.title).toList ++ (" | ".toList ++ (trimText accentsSpec.goal).toList) = _
  rw [htitle, trimText_accents, toList_accents]
  generalize List.replicate 250 'é' = letters
  rfl

/-- No beginning of the text has 419 bytes: after the title, each letter takes two. -/
theorem not_cutsBetween_accents : ¬ CutsBetween (specText (draftSpec accentsSpec 1 "spec_1")) := by
  have htrim : trimSpace (['a', ' ', '|', ' '] ++ List.replicate 250 'é') =
      ['a', ' ', '|', ' '] ++ List.replicate 250 'é' := by decide +kernel
  have hlong : ¬ len (['a', ' ', '|', ' '] ++ List.replicate 250 'é') ≤ 420 := by decide +kernel
  unfold CutsBetween
  rw [specText_accents, htrim, or_iff_right hlong]
  rintro ⟨front, rest, heq, hlen⟩
  have hfront := congrArg (List.take front.length) heq
  rw [List.take_left, List.take_append, List.take_replicate] at hfront
  rw [← hfront, len, List.map_append, List.sum_append, List.map_replicate, List.sum_replicate_nat] at hlen
  have htwo : Char.utf8Size 'é' = 2 := by decide
  rw [htwo] at hlen
  by_cases hshort : front.length < 4
  · have hlist : front.length = 0 ∨ front.length = 1 ∨ front.length = 2 ∨ front.length = 3 := by omega
    rcases hlist with h | h | h | h <;> rw [h] at hlen <;> revert hlen <;> decide
  · rw [List.take_of_length_le (by simpa using hshort)] at hlen
    have hfour : (List.map Char.utf8Size ['a', ' ', '|', ' ']).sum = 4 := by decide
    omega

/-- The spec is made and stored, and what is read back has another summary. -/
theorem accents_not_round_trip :
    ¬ (trimText accentsSpec.title ≠ "" → trimText accentsSpec.goal ≠ "" →
      (∃ text, accentsCodec.marshalSpec (newSpec accentsSpec 1 "spec_1") = .ok text ∧
        accentsCodec.spec text = .ok (newSpec accentsSpec 1 "spec_1").value) →
      RoundTrips .memory (createSpec accentsCodec accentsSpec 1 "spec_1") (getSpec accentsCodec) SameSpec
        "t" "spec_1") := by
  intro h
  have htitle : trimText accentsSpec.title ≠ "" := by decide +kernel
  have hgoal : trimText accentsSpec.goal ≠ "" := by
    rw [trimText_accents]
    decide +kernel
  have hjson : ∃ text, accentsCodec.marshalSpec (newSpec accentsSpec 1 "spec_1") = .ok text ∧
      accentsCodec.spec text = .ok (newSpec accentsSpec 1 "spec_1").value := codecOf_spec _ _ _ _
  exact not_cutsBetween_accents ((specRoundTrips_iff .memory htitle hgoal hjson).mp (h htitle hgoal hjson))

end AgentMemory
