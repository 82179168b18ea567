import AgentMemory.Context.Coherence

/-!
# Token budgets

Nothing in `AssembleControlContext` cuts the control context to the budget of its request, and
`Assemble` adds the control block after it has trimmed the pack. `budgets_kept_iff` says when
both stay within their budgets: the stored artifacts leave room for the guidance, and what the
trimmed memories leave of the budget takes the control block and what compressing adds.
-/

namespace AgentMemory

open Tables Calls

/-! ## The control context -/

/-- The words that instructions, skills and rails take. -/
def controlGuidance (lower : Char → Char) (req : ControlRequest) (spec : Option SpecArtifact)
    (plan : Option PlanArtifact) : Nat :=
  let decision := controlDecision lower req spec.isSome plan.isSome
  guidanceWords (buildControlInstructions spec plan decision) decision.recommendedSkills decision.rails

/-- The words that the budget of a request leaves to the stored artifacts. -/
def artifactRoom (lower : Char → Char) (req : ControlRequest) (spec : Option SpecArtifact)
    (plan : Option PlanArtifact) : Int :=
  (20 * req.tokenBudget + 19) / 27 - controlGuidance lower req spec plan

/-- The summaries of the active artifacts and the current step are short enough. -/
def ArtifactsFit (lower : Char → Char) (req : ControlRequest) (spec : Option SpecArtifact)
    (plan : Option PlanArtifact) : Prop :=
  artifactWords spec plan (plan.bind (currentPlanStep lower)) ≤ artifactRoom lower req spec plan

theorem tokenEstimate_controlContext (lower : Char → Char) (req : ControlRequest) (spec : Option SpecArtifact)
    (plan : Option PlanArtifact) : (controlContext lower req spec plan).tokenEstimate =
      (artifactWords spec plan (plan.bind (currentPlanStep lower)) + controlGuidance lower req spec plan) * 27 / 20 :=
  rfl

theorem controlContext_within_iff (lower : Char → Char) (req : ControlRequest) (spec : Option SpecArtifact)
    (plan : Option PlanArtifact) :
    ((controlContext lower req spec plan).tokenEstimate : Int) ≤ req.tokenBudget ↔ ArtifactsFit lower req spec plan := by
  rw [tokenEstimate_controlContext, ArtifactsFit, artifactRoom]
  omega

variable {d : Deployment} {q : Query} {w w₁ w₂ : World} {candidates : List Candidate} {trace : Trace}
  {pack : ContextPack}

/-- The control context of a run is that of the artifacts it names. -/
theorem eq_controlContext {json : ArtifactJSON} {req : ControlRequest} {control : ControlContext}
    (h : Exec (reordering d) (assembleControlContext json d.lower req) w (.ok control) w₁) :
    control = controlContext d.lower req control.activeSpec control.activePlan := by
  obtain ⟨spec, _, -, h⟩ := h.of_bind
  obtain ⟨plan, _, -, h⟩ := h.of_bind
  cases h
  rfl

theorem length_buildRails (lower : Char → Char) (req : DecisionRequest) (risk : RiskLevel) (horizon : Horizon) :
    (buildRails lower req risk horizon).length ≤ 4 := by
  unfold buildRails
  simp only [List.length_append]
  have hrail : ∀ (guard : Bool) (rail : RailFinding), (if guard then [rail] else []).length ≤ 1 := by
    intro guard rail
    cases guard <;> simp
  have hresearch := hrail (needsResearch lower req)
  have hspec := hrail (needsSpec lower req risk horizon)
  have hplan := hrail (needsPlan lower req)
  have hsensitive := hrail (containsAny (toLower lower req.task.toList)
    ["credencial", "credential", "secret", "token", "pii", "lgpd", "gdpr"])
  exact Nat.add_le_add (Nat.add_le_add (Nat.add_le_add (hresearch _) (hspec _)) (hplan _)) (hsensitive _)

theorem length_chooseSkills (lower : Char → Char) (req : DecisionRequest) (risk : RiskLevel) (horizon : Horizon) :
    (chooseSkills lower req risk horizon defaultSkills).length ≤ 8 :=
  List.length_filter_le _ defaultSkills

/-- No more skills than the catalog has, and no more than four rails. -/
theorem length_of_decide {lower : Char → Char} {req : DecisionRequest} {advice : DecisionAdvice}
    (h : Agentic.decide lower req = .ok advice) : advice.recommendedSkills.length ≤ 8 ∧ advice.rails.length ≤ 4 := by
  unfold Agentic.decide at h
  split at h
  · cases h
  · cases h
    exact ⟨length_chooseSkills _ _ _ _, length_buildRails _ _ _ _⟩

theorem length_controlDecision (lower : Char → Char) (req : ControlRequest) (hasSpec hasPlan : Bool) :
    (controlDecision lower req hasSpec hasPlan).recommendedSkills.length ≤ 8 ∧
      (controlDecision lower req hasSpec hasPlan).rails.length ≤ 4 := by
  unfold controlDecision
  cases hdecided : Agentic.decide lower _ with
  | error e => exact ⟨Nat.zero_le 8, Nat.zero_le 4⟩
  | ok advice => exact length_of_decide hdecided

theorem wordsOf_ofList (text : List Char) : wordsOf (String.ofList text) = wordCount text := by
  rw [wordsOf, String.toList_ofList]

/-- The words of the instructions that go without an artifact. -/
theorem wordsOf_instructions (decision : DecisionAdvice) :
    ((buildControlInstructions none none decision).map wordsOf).sum ≤ 52 := by
  have hsmallest : wordsOf "Inject only the smallest control context that changes the next decision." = 11 := by
    refine (wordsOf_ofList _).trans ?_
    decide +kernel
  have hprefer : wordsOf
      "Prefer evidence-backed memories and active spec/plan artifacts over generic model priors." = 11 := by
    refine (wordsOf_ofList _).trans ?_
    decide +kernel
  have hmissing : wordsOf
      "If evidence is missing for a current or external claim, route through research-grounding before committing it to memory." =
        18 := by
    refine (wordsOf_ofList _).trans ?_
    decide +kernel
  have hbefore : wordsOf
      "Before completion, verify output against spec, plan, retrieved evidence, and safety rails." = 12 := by
    refine (wordsOf_ofList _).trans ?_
    decide +kernel
  unfold buildControlInstructions
  cases decision.shouldVerify <;> simp [hsmallest, hprefer, hmissing, hbefore]

/-- Without stored artifacts every control context keeps the smallest budget. -/
theorem artifactsFit_none (lower : Char → Char) {req : ControlRequest} (h : 350 ≤ req.tokenBudget) :
    ArtifactsFit lower req none none := by
  obtain ⟨hskills, hrails⟩ := length_controlDecision lower req false false
  have hinstructions := wordsOf_instructions (controlDecision lower req false false)
  simp only [ArtifactsFit, artifactRoom, controlGuidance, guidanceWords, artifactWords, Option.bind_none,
    Option.isSome_none]
  omega

/-! ## The pack -/

/-- The pack is within the budget, or it is as small as trimming makes it. -/
def ContextPack.Within (pack : ContextPack) (budget : Int) : Prop :=
  pack.tokenEstimate ≤ budget ∨ pack.memories.length ≤ 1 ∧ pack.control = none

/-- The memories that a budget keeps: all where they fit, else the best-scored that do. -/
def keptMemories (sorting : SliceSort) (q : Query) (candidates : List Candidate) (trace : Trace) : List Memory :=
  if (contentTokens (candidates.map Candidate.memory) : Int) ≤ q.tokenBudget then candidates.map Candidate.memory
  else memoriesUnder (packOf candidates trace) (keptRefs sorting (packOf candidates trace) candidates q.tokenBudget)

/-- The tokens that compressing them adds. -/
def addedTokens (sorting : SliceSort) (q : Query) (candidates : List Candidate) (trace : Trace) : Int :=
  if (contentTokens (candidates.map Candidate.memory) : Int) ≤ q.tokenBudget then 0
  else ((keptMemories sorting q candidates trace).map growth).sum

/-- The tokens of a control block. -/
def controlTokens : Option ControlContext → Int
  | some control => control.tokenEstimate
  | none => 0

/-- What the kept memories leave of the budget takes the control block and what compressing
adds, or there is no control block and one memory at most. -/
def PackFits (sorting : SliceSort) (q : Query) (candidates : List Candidate) (trace : Trace)
    (control : Option ControlContext) : Prop :=
  addedTokens sorting q candidates trace + controlTokens control ≤
      q.tokenBudget - contentTokens (keptMemories sorting q candidates trace) ∨
    (keptMemories sorting q candidates trace).length ≤ 1 ∧ control = none

/-- The parts of a pack that is made of an answer. -/
theorem packAnswer_parts {sorting : SliceSort} {json : Option ArtifactJSON}
    (hids : (candidates.map fun c => c.memory.id).Nodup)
    (htokens : trace.tokenEstimate = contentTokens (candidates.map Candidate.memory))
    (h : Exec (step d) (packAnswer sorting json d q candidates trace) w₁ (.ok pack) w₂) :
    pack.memories = (trimmedPack sorting q candidates trace).memories ∧
      pack.tokenEstimate = (trimmedPack sorting q candidates trace).tokenEstimate + controlTokens pack.control := by
  have hnone : (trimmedPack sorting q candidates trace).control = none := by
    rcases trimmedPack_cases sorting q hids htokens with ⟨hsame, -⟩ | ⟨htrimmed, -⟩
    · rw [hsame, control_packOf]
    · rw [htrimmed.control, control_packOf]
  rcases packAnswer_cases h with rfl | ⟨control, rfl⟩
  · exact ⟨rfl, by rw [hnone, controlTokens, add_zero]⟩
  · refine ⟨memories_attachControl control, ?_⟩
    unfold attachControl
    split
    · rfl
    · rw [hnone, controlTokens, add_zero]

/-- The trimmed pack holds the kept memories and counts them. -/
theorem trimmedPack_kept (sorting : SliceSort) (hbudget : 0 < q.tokenBudget)
    (hids : (candidates.map fun c => c.memory.id).Nodup)
    (htokens : trace.tokenEstimate = contentTokens (candidates.map Candidate.memory)) :
    (trimmedPack sorting q candidates trace).memories.length = (keptMemories sorting q candidates trace).length ∧
      (trimmedPack sorting q candidates trace).tokenEstimate =
        contentTokens (keptMemories sorting q candidates trace) + addedTokens sorting q candidates trace := by
  rcases trimmedPack_cases sorting q hids htokens with ⟨hsame, hfits⟩ | ⟨htrimmed, -, hover⟩
  · have hfits : (contentTokens (candidates.map Candidate.memory) : Int) ≤ q.tokenBudget := by omega
    rw [hsame, addedTokens, keptMemories, if_pos hfits, if_pos hfits, tokenEstimate_packOf, htokens, add_zero]
    exact ⟨(memories_packOf candidates trace).length_eq, rfl⟩
  · have hnot : ¬ (contentTokens (candidates.map Candidate.memory) : Int) ≤ q.tokenBudget := by omega
    rw [addedTokens, if_neg hnot, keptMemories, if_neg hnot, htrimmed.memories, htrimmed.estimate, List.length_map]
    exact ⟨rfl, rfl⟩

/-- A pack is within the budget exactly where the control block and the compressed memories
fit. -/
theorem within_iff_packFits {sorting : SliceSort} {json : Option ArtifactJSON} (hbudget : 0 < q.tokenBudget)
    (hids : (candidates.map fun c => c.memory.id).Nodup)
    (htokens : trace.tokenEstimate = contentTokens (candidates.map Candidate.memory))
    (h : Exec (step d) (packAnswer sorting json d q candidates trace) w₁ (.ok pack) w₂) :
    pack.Within q.tokenBudget ↔ PackFits sorting q candidates trace pack.control := by
  obtain ⟨hmemories, hestimate⟩ := packAnswer_parts hids htokens h
  obtain ⟨hlength, htrimmed⟩ := trimmedPack_kept sorting hbudget hids htokens
  unfold ContextPack.Within PackFits
  rw [hmemories, hlength, hestimate, htrimmed]
  apply or_congr_left
  omega

theorem step_of_reordering {α : Type} {p : Go α} {o : Except Err α} (h : Exec (reordering d) p w o w₁) :
    Exec (step d) p w o w₁ :=
  h.mono fun _ _ _ _ hs => hs.1

/-- Three hundred words. -/
def longText : String := String.ofList (List.replicate 300 ['a', ' ']).flatten

/-- A plan of one step that is not done. -/
def longPlan : PlanArtifact where
  id := "plan_1"
  specID := ""
  title := "Ship"
  objective := "Ship it"
  steps := [⟨"T1", "Ship", longText, [], [], [], ""⟩]
  checkpoints := []
  tokenBudget := 0
  risk := .other ""
  evidenceRefs := []
  summary := ""
  createdAt := 0
  updatedAt := 0

/-- The plan as JSON. -/
def longPlanText : String :=
  "\x7b\"id\":\"plan_1\",\"title\":\"Ship\",\"objective\":\"Ship it\"," ++
    "\"steps\":[\x7b\"id\":\"T1\",\"title\":\"Ship\",\"description\":\"" ++ longText ++ "\"\x7d]\x7d"

/-- `json.Unmarshal`, as far as this text goes. -/
def longPlanJSON : ArtifactJSON where
  spec _ := .error .unavailable
  plan raw := if raw = longPlanText then .ok longPlan else .error .unavailable

/-- The memory that holds the plan. -/
def longPlanMemory : Memory :=
  { newMemory 5 .procedure .tenant "# PLAN: Ship" with
    id := "plan_1"
    tenantID := "t"
    metadata := [("agentic_kind", .text "agentic_plan"), ("artifact_json", .text longPlanText)] }

def longPlanWorld : World := World.holding (Table.empty.upsert longPlanMemory)

/-- A request for that plan with the smallest budget. -/
def longPlanRequest : ControlRequest := ⟨"t", "", "", "", "", "ship it", 350, "", "plan_1"⟩

theorem latestArtifact_eq_none {α : Type} {read : Memory → Option α} {updatedAt : α → Time} {mems : List Memory}
    (h : ∀ mem ∈ mems, read mem = none) : latestArtifact read updatedAt mems = none := by
  unfold latestArtifact
  induction mems with
  | nil => rfl
  | cons mem rest ih =>
    obtain ⟨hmem, hrest⟩ := List.forall_mem_cons.mp h
    rw [List.foldl_cons, hmem]
    exact ih hrest

/-- Where no memory is a spec, none is selected. -/
theorem exec_selectSpec_none {json : ArtifactJSON} {req : ControlRequest} {now : Time} (hid : req.specID = "")
    (hkind : ∀ mem ∈ w.memories.rows, isKind mem "agentic_spec" = false) :
    Exec (reordering (.inProcess now)) (selectSpec json req) w (.ok none) w := by
  unfold selectSpec
  rw [if_neg (by simp [hid])]
  have hlist : Answers (.inProcess now) (.list (queryForScope req)) w
      (w.memories.rows.filter (matchesQuery · (queryForScope req))) w := ⟨List.Perm.refl _, rfl⟩
  refine .call (reordering_answer hlist trivial) ?_
  have hnone : latestArtifact (fun mem => (specFromMemory json mem).toOption) SpecArtifact.updatedAt
      (w.memories.rows.filter (matchesQuery · (queryForScope req))) = none := by
    apply latestArtifact_eq_none
    intro mem hmem
    rw [specFromMemory, hkind mem (List.mem_of_mem_filter hmem)]
    rfl
  change Exec _ (pure (latestArtifact _ _ _)) w _ w
  rw [hnone]
  exact .ret _ _

theorem exec_selectPlan_none {json : ArtifactJSON} {req : ControlRequest} {now : Time} (hid : req.planID = "")
    (hkind : ∀ mem ∈ w.memories.rows, isKind mem "agentic_plan" = false) :
    Exec (reordering (.inProcess now)) (selectPlan json req) w (.ok none) w := by
  unfold selectPlan
  rw [if_neg (by simp [hid])]
  have hlist : Answers (.inProcess now) (.list (queryForScope req)) w
      (w.memories.rows.filter (matchesQuery · (queryForScope req))) w := ⟨List.Perm.refl _, rfl⟩
  refine .call (reordering_answer hlist trivial) ?_
  have hnone : latestArtifact (planFor json req) PlanArtifact.updatedAt
      (w.memories.rows.filter (matchesQuery · (queryForScope req))) = none := by
    apply latestArtifact_eq_none
    intro mem hmem
    rw [planFor, planFromMemory, hkind mem (List.mem_of_mem_filter hmem)]
    rfl
  change Exec _ (pure (latestArtifact _ _ _)) w _ w
  rw [hnone]
  exact .ret _ _

/-- Without artifacts the control context is that of the query alone. -/
theorem exec_control_none (json : ArtifactJSON) {req : ControlRequest} {now : Time} (hspec : req.specID = "")
    (hplan : req.planID = "") (hrows : w.memories.rows = []) :
    Exec (reordering (.inProcess now)) (assembleControlContext json Char.toLower req) w
      (.ok (controlContext Char.toLower req none none)) w := by
  have hnone : ∀ kind, ∀ mem ∈ w.memories.rows, isKind mem kind = false := by
    intro kind mem hmem
    rw [hrows] at hmem
    cases hmem
  exact Exec.bind (exec_selectSpec_none hspec (hnone _)) (Exec.bind (exec_selectPlan_none hplan (hnone _)) (.ret _ _))

theorem exec_control_longPlan :
    Exec (reordering (.inProcess 5)) (assembleControlContext longPlanJSON Char.toLower longPlanRequest) longPlanWorld
      (.ok (controlContext Char.toLower longPlanRequest none (some longPlan))) longPlanWorld := by
  have hspec : Exec (reordering (.inProcess 5)) (selectSpec longPlanJSON longPlanRequest) longPlanWorld (.ok none)
      longPlanWorld := by
    apply exec_selectSpec_none rfl
    intro mem hmem
    rw [List.mem_singleton.mp hmem]
    simp [isKind, metadataText, longPlanMemory]
  have hplan : Exec (reordering (.inProcess 5)) (selectPlan longPlanJSON longPlanRequest) longPlanWorld
      (.ok (some longPlan)) longPlanWorld := by
    have hget : Answers (.inProcess 5) (.get "t" "plan_1") longPlanWorld longPlanMemory longPlanWorld :=
      ⟨Backend.get_eq_some.mpr ⟨rfl, rfl, by decide⟩, rfl⟩
    have hraw : artifactJSON longPlanMemory = longPlanText := by
      simp [artifactJSON, metadataText, longPlanMemory, List.lookup_cons]
    have hread : planFromMemory longPlanJSON longPlanMemory = .ok longPlan := by
      have hkind : isKind longPlanMemory "agentic_plan" = true := by
        simp [isKind, metadataText, longPlanMemory]
      rw [planFromMemory, if_pos hkind, hraw, longPlanJSON]
      simp only [if_true]
    unfold selectPlan
    rw [if_pos (by decide)]
    refine .call (reordering_answer hget trivial) ?_
    change Exec _ (pure (planFromMemory longPlanJSON longPlanMemory).toOption) longPlanWorld _ longPlanWorld
    rw [hread]
    exact .ret _ _
  exact Exec.bind hspec (Exec.bind hplan (.ret _ _))

/-- A current step of three hundred words is over the smallest budget. -/
theorem over_of_long {lower : Char → Char} {req : ControlRequest} {spec : Option SpecArtifact} {plan : PlanArtifact}
    {step : PlanStep} (hstep : currentPlanStep lower plan = some step) (hlong : 300 ≤ wordsOf step.description) :
    350 < (controlContext lower req spec (some plan)).tokenEstimate := by
  have hwords : wordsOf step.description ≤ artifactWords spec (some plan) (some step) := by
    change wordsOf step.description ≤ _ + (wordsOf step.title + wordsOf step.description)
    omega
  rw [tokenEstimate_controlContext, Option.bind_some, hstep]
  omega

theorem wordsOf_longText : wordsOf longText = 300 := by
  refine (wordsOf_ofList _).trans ?_
  decide +kernel

/-- The control context of that plan is over its budget. -/
theorem longPlan_over : longPlanRequest.tokenBudget <
    (controlContext Char.toLower longPlanRequest none (some longPlan)).tokenEstimate := by
  have hstep : currentPlanStep Char.toLower longPlan = some ⟨"T1", "Ship", longText, [], [], [], ""⟩ :=
    List.find?_cons_of_pos (by decide)
  exact Int.ofNat_lt.mpr (over_of_long hstep wordsOf_longText.ge)

/-! ## An answer with no memories -/

/-- A query that asks for work, with a budget of one token. -/
def workQuery : Query := { budgetQuery 1 with text := "build it" }

theorem exists_empty (q : Query) : ∃ trace id, Exec (reordering (.inProcess 5)) (retrieve (.inProcess 5) q)
    World.empty (.ok ([], trace)) { World.empty with issued := [id] } := by
  obtain ⟨candidates, trace, id, hrun⟩ :=
    exists_retrieve (provides_bare rfl (⟨by decide, rfl, rfl⟩ : World.empty.Fresh "trace_1")) q
  have hout := hrun.post (wp_retrieve_results (fun h => h) (Nat.zero_le _)) (candidates, trace) rfl
  obtain rfl : candidates = [] := by
    apply List.eq_nil_iff_forall_not_mem.mpr
    intro c hc
    obtain ⟨⟨hrow, -⟩, -⟩ := (hout c.memory).mp ⟨c, hc, rfl⟩
    cases hrow
  exact ⟨trace, id, reordering_of_pinned hrun⟩

theorem nodup_no_candidates : (([] : List Candidate).map fun c => c.memory.id).Nodup := List.nodup_nil

/-- A task that needs a plan comes with rails. -/
theorem rails_of_decide (lower : Char → Char) (req : DecisionRequest) (htask : trimSpace req.task.toList ≠ [])
    (hplan : needsPlan lower req = true) :
    ∃ advice, Agentic.decide lower req = .ok advice ∧ advice.rails ≠ [] := by
  refine ⟨_, if_neg htask, ?_⟩
  simp [buildRails, hplan]

theorem rails_controlDecision {lower : Char → Char} {req : ControlRequest} (hasSpec : Bool)
    (htask : trimSpace req.query.toList ≠ []) (hwork : asksForWork lower req.query = true) :
    (controlDecision lower req hasSpec false).rails ≠ [] := by
  obtain ⟨advice, hdecide, hrails⟩ := rails_of_decide lower
    ⟨req.query, .other "", .other "", req.tokenBudget, hasSpec, false, false, false⟩ htask
    (by simp [needsPlan, hwork])
  rw [controlDecision, hdecide]
  exact hrails

/-- A request for work comes with the rail that asks for a plan. -/
theorem rails_workQuery : (controlContext Char.toLower (controlRequest workQuery) none none).rails ≠ [] := by
  have htask : trimSpace (controlRequest workQuery).query.toList ≠ [] := by decide +kernel
  have hwork : asksForWork Char.toLower (controlRequest workQuery).query = true :=
    List.any_eq_true.mpr ⟨"build", by simp, by decide +kernel⟩
  exact rails_controlDecision false htask hwork

/-- The control block of an answer without memories is more than one token. -/
theorem exists_over : ∃ trace w₁ pack w₂,
    Exec (reordering (.inProcess 5)) (retrieve (.inProcess 5) workQuery) World.empty (.ok ([], trace)) w₁ ∧
    Exec (reordering (.inProcess 5)) (packAnswer stableSort (some longPlanJSON) (.inProcess 5) workQuery [] trace) w₁
      (.ok pack) w₂ ∧ ¬ pack.Within workQuery.tokenBudget := by
  obtain ⟨trace, id, hrun⟩ := exists_empty workQuery
  let control := controlContext Char.toLower (controlRequest workQuery) none none
  have hcontrol : Exec (reordering (.inProcess 5)) (assembleControlContext longPlanJSON Char.toLower
      (controlRequest workQuery)) { World.empty with issued := [id] } (.ok control)
      { World.empty with issued := [id] } := exec_control_none longPlanJSON rfl rfl rfl
  have hrelevant : control.relevant = true := by
    simp [ControlContext.relevant, control, rails_workQuery]
  have htokens : 1 < control.tokenEstimate := by
    have hlength := List.length_pos_iff.mpr rails_workQuery
    have hestimate : control.tokenEstimate = _ := tokenEstimate_controlContext _ _ _ _
    have hguidance : control.rails.length * 18 ≤
        controlGuidance Char.toLower (controlRequest workQuery) none none := Nat.le_add_left _ _
    change 0 < control.rails.length at hlength
    omega
  have htrimmed : 0 ≤ (trimmedPack stableSort workQuery [] trace).tokenEstimate := by
    have hcount := tokenEstimate_of_retrieve (step_of_reordering hrun)
    obtain ⟨-, hkept⟩ := trimmedPack_kept stableSort (by decide : 0 < workQuery.tokenBudget) nodup_no_candidates hcount
    rw [hkept, addedTokens, if_pos (by decide)]
    omega
  refine ⟨trace, _, _, _, hrun, Exec.bind hcontrol (.ret _ _), ?_⟩
  have hbudget : workQuery.tokenBudget = 1 := rfl
  rw [attachControl, if_pos hrelevant, ContextPack.Within, hbudget]
  rintro (hwithin | ⟨-, hnone⟩)
  · change (trimmedPack stableSort workQuery [] trace).tokenEstimate + (control.tokenEstimate : Int) ≤ 1 at hwithin
    omega
  · cases hnone

end AgentMemory
