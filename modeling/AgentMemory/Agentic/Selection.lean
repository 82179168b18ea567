import AgentMemory.Agentic.Control
import AgentMemory.Consolidation.Compaction
import AgentMemory.Consolidation.Scoped
import AgentMemory.Lib.Pages

/-!
# The active spec and the active plan

`selectSpec` and `selectPlan` (`internal/services/agentic/service.go:179-244`) take the artifact that was
updated last among the memories `List` returns for the scope of the request. `queryForScope` asks for no
number of them, so `NormalizedLimit` makes it 8, of whatever kind, the most important ones first.
`selects_newest_iff` says when the newest artifact of all is among them.
-/

namespace AgentMemory

open Tables Calls

/-- The active memories of the scope of a request. -/
def inRequestScope (req : ControlRequest) (m : Memory) : Bool :=
  (req.tenantID = "" || m.tenantID = req.tenantID) && (req.userID = "" || m.userID = req.userID) &&
    (req.projectID = "" || m.projectID = req.projectID) && m.status = .active

section Newest

variable {α : Type} (read : Memory → Option α) (updatedAt : α → Time) (rows : List Memory)

/-- What is selected is an artifact of one of these memories and none of theirs was updated later, or there
is no artifact. -/
def SelectsNewest : Option α → Prop
  | none => ∀ m ∈ rows, read m = none
  | some a => (∃ m ∈ rows, read m = some a) ∧ ∀ m ∈ rows, ∀ b, read m = some b → updatedAt b ≤ updatedAt a

/-- The memory holds an artifact, and none was updated later. -/
def isNewest (m : Memory) : Bool :=
  match read m with
  | none => false
  | some a => rows.all fun n => (read n).all fun b => updatedAt b ≤ updatedAt a

/-- There is no artifact, or fewer than 8 memories without a newest one may be listed before one with it. -/
def Surfaces : Prop :=
  (∀ m ∈ rows, read m = none) ∨ ∃ m ∈ rows, isNewest read updatedAt rows m = true ∧
    (rows.filter fun n => !isNewest read updatedAt rows n && ListedBefore n m).length < 8

variable {read updatedAt rows}

theorem isNewest_iff {m : Memory} : isNewest read updatedAt rows m = true ↔
    ∃ a, read m = some a ∧ ∀ n ∈ rows, ∀ b, read n = some b → updatedAt b ≤ updatedAt a := by
  unfold isNewest
  cases read m with
  | none => simp
  | some a =>
    simp only [List.all_eq_true, Option.all_eq_true_iff_get, decide_eq_true_eq, Option.some.injEq, exists_eq_left']
    refine forall_congr' fun n => imp_congr_right fun _ => ?_
    cases read n with
    | none => simp
    | some b => simp

theorem latestArtifact_concat (mems : List Memory) (m : Memory) :
    latestArtifact read updatedAt (mems ++ [m]) =
      match read m with
      | none => latestArtifact read updatedAt mems
      | some artifact => match latestArtifact read updatedAt mems with
        | none => some artifact
        | some held => if updatedAt held < updatedAt artifact then some artifact else some held := by
  unfold latestArtifact
  rw [List.foldl_append]
  rfl

/-- The loop selects the newest artifact of the memories it is given. -/
theorem latestArtifact_selects (mems : List Memory) :
    SelectsNewest read updatedAt mems (latestArtifact read updatedAt mems) := by
  induction mems using List.reverseRecOn with
  | nil => exact fun m hm => nomatch hm
  | append_singleton mems m ih =>
    rw [latestArtifact_concat]
    cases hm : read m with
    | none =>
      have hlast : ∀ b, read m ≠ some b := by simp [hm]
      cases hlatest : latestArtifact read updatedAt mems with
      | none =>
        rw [hlatest] at ih
        exact List.forall_mem_append.mpr ⟨ih, List.forall_mem_singleton.mpr hm⟩
      | some held =>
        rw [hlatest] at ih
        obtain ⟨⟨n, hn, hheld⟩, hmax⟩ := ih
        refine ⟨⟨n, List.mem_append_left _ hn, hheld⟩, List.forall_mem_append.mpr ⟨hmax, ?_⟩⟩
        exact List.forall_mem_singleton.mpr fun b hb => absurd hb (hlast b)
    | some artifact =>
      have hself : m ∈ mems ++ [m] := List.mem_append_right _ (List.mem_singleton_self m)
      have hlast : ∀ b, read m = some b → b = artifact := fun b hb => Option.some.inj (hb.symm.trans hm)
      cases hlatest : latestArtifact read updatedAt mems with
      | none =>
        rw [hlatest] at ih
        refine ⟨⟨m, hself, hm⟩, List.forall_mem_append.mpr ⟨?_, ?_⟩⟩
        · intro n hn b hb
          rw [ih n hn] at hb
          cases hb
        · exact List.forall_mem_singleton.mpr fun b hb => hlast b hb ▸ le_refl _
      | some held =>
        rw [hlatest] at ih
        obtain ⟨⟨n, hn, hheld⟩, hmax⟩ := ih
        dsimp only
        split
        · next hlt =>
          refine ⟨⟨m, hself, hm⟩, List.forall_mem_append.mpr ⟨?_, ?_⟩⟩
          · exact fun n hn b hb => (hmax n hn b hb).trans hlt.le
          · exact List.forall_mem_singleton.mpr fun b hb => hlast b hb ▸ le_refl _
        · next hge =>
          refine ⟨⟨n, List.mem_append_left _ hn, hheld⟩, List.forall_mem_append.mpr ⟨hmax, ?_⟩⟩
          exact List.forall_mem_singleton.mpr fun b hb => hlast b hb ▸ not_lt.mp hge

/-- From a part of the memories it selects the newest artifact of all where the part holds one. -/
theorem selectsNewest_of_part {part : List Memory} (hpart : ∀ m ∈ part, m ∈ rows) :
    SelectsNewest read updatedAt rows (latestArtifact read updatedAt part) ↔
      (∀ m ∈ rows, read m = none) ∨ ∃ m ∈ part, isNewest read updatedAt rows m = true := by
  have hselects : SelectsNewest read updatedAt part (latestArtifact read updatedAt part) := latestArtifact_selects part
  cases hlatest : latestArtifact read updatedAt part with
  | none =>
    rw [hlatest] at hselects
    refine ⟨Or.inl, fun h => h.resolve_right ?_⟩
    rintro ⟨m, hm, hnewest⟩
    obtain ⟨a, ha, -⟩ := isNewest_iff.mp hnewest
    rw [hselects m hm] at ha
    cases ha
  | some a =>
    rw [hlatest] at hselects
    obtain ⟨⟨m, hm, ha⟩, hmax⟩ := hselects
    constructor
    · rintro ⟨-, hall⟩
      exact Or.inr ⟨m, hm, isNewest_iff.mpr ⟨a, ha, hall⟩⟩
    · rintro (hnone | ⟨n, hn, hnewest⟩)
      · rw [hnone m (hpart m hm)] at ha
        cases ha
      · obtain ⟨b, hb, hall⟩ := isNewest_iff.mp hnewest
        refine ⟨⟨m, hpart m hm, ha⟩, fun x hx c hc => ?_⟩
        exact (hall x hx c hc).trans (hmax n hn b hb)

/-- Every page of 8 has the newest artifact selected exactly where it surfaces. -/
theorem forall_page_selects_iff (hnodup : rows.Nodup) :
    (∀ page, Pages.Page ListedBefore 8 rows page →
        SelectsNewest read updatedAt rows (latestArtifact read updatedAt page)) ↔ Surfaces read updatedAt rows := by
  by_cases hnone : ∀ m ∈ rows, read m = none
  · refine iff_of_true (fun page hpage => ?_) (Or.inl hnone)
    exact (selectsNewest_of_part fun m hm => hpage.mem hm).mpr (Or.inl hnone)
  · have hpages : (∀ page, Pages.Page ListedBefore 8 rows page → ∃ m ∈ page, isNewest read updatedAt rows m = true) ↔
        ∃ m ∈ rows, isNewest read updatedAt rows m = true ∧
          (Pages.crowd ListedBefore (isNewest read updatedAt rows) rows m).length < 8 :=
      Pages.forall_page_exists_iff hnodup
    rw [Surfaces, or_iff_right hnone]
    refine Iff.trans (forall_congr' fun page => forall_congr' fun hpage => ?_) hpages
    rw [selectsNewest_of_part fun m hm => hpage.mem hm, or_iff_right hnone]

end Newest

/-! ## What is listed for a request -/

variable {d : Deployment} {timestamptz : String → Time} {ilike : String → String → Bool} {now : Time}
  {req : ControlRequest} {json : ArtifactJSON} {w w' : World}

theorem listClauses_queryForScope (req : ControlRequest) (m : Memory) :
    listClauses timestamptz (queryForScope req) m = inRequestScope req m := by
  have hfilter : ∀ key, (queryForScope req).filter key = "" := fun _ => rfl
  have hstatus : Status.ofName (listStatus (queryForScope req)) = .active := rfl
  rw [Bool.eq_iff_iff]
  simp only [listClauses, inRequestScope, hfilter, hstatus, Bool.and_eq_true, Bool.or_eq_true, decide_eq_true_eq,
    true_or, and_true]
  exact Iff.rfl

/-- What is listed is a page of 8 of the active memories of the scope. -/
theorem lists_queryForScope {s : MemoryStore} {listed : List Memory} :
    ((d.onPostgres timestamptz ilike).steady now).backend.Lists s (queryForScope req) listed ↔
      Pages.Page ListedBefore 8 (s.rows.filter (inRequestScope req)) listed := by
  have hclauses : listClauses timestamptz (queryForScope req) = inRequestScope req :=
    funext (listClauses_queryForScope req)
  show Selects (listClauses timestamptz (queryForScope req)) s (queryForScope req) listed ↔ _
  rw [hclauses]
  exact Iff.rfl

/-- What both selections do where the request names no artifact. -/
def selectListed {α : Type} (read : Memory → Option α) (updatedAt : α → Time) (req : ControlRequest) : Go (Option α) := do
  match ← Prog.attempt (Call.list (queryForScope req)) with
  | .error _ => pure none
  | .ok mems => pure (latestArtifact read updatedAt mems)

theorem exec_selectListed_iff {α : Type} {read : Memory → Option α} {updatedAt : α → Time} {o : Except Err (Option α)} :
    Exec (step ((d.onPostgres timestamptz ilike).steady now)) (selectListed read updatedAt req) w o w' ↔
      ∃ listed, Pages.Page ListedBefore 8 (w.memories.rows.filter (inRequestScope req)) listed ∧
        o = .ok (latestArtifact read updatedAt listed) ∧ w' = w := by
  constructor
  · intro hexec
    refine hexec.post (Q := fun o w' => ∃ listed,
      Pages.Page ListedBefore 8 (w.memories.rows.filter (inRequestScope req)) listed ∧
        o = .ok (latestArtifact read updatedAt listed) ∧ w' = w) ?_
    unfold selectListed
    rw [wp_bind, wp_attempt]
    intro r w₁ hs
    rcases step_store hs rfl with ⟨listed, rfl, hlists, rfl⟩ | ⟨e, -, hf, -⟩
    · exact ⟨listed, lists_queryForScope.mp hlists, rfl, rfl⟩
    · exact hf.elim
  · rintro ⟨listed, hpage, rfl, rfl⟩
    have hlists : Answers ((d.onPostgres timestamptz ilike).steady now) (.list (queryForScope req)) w' listed w' :=
      ⟨lists_queryForScope.mpr hpage, rfl⟩
    exact .call (step_answer hlists) (.ret _ _)

theorem selectSpec_eq (hid : req.specID = "") :
    selectSpec json req = selectListed (fun m => (specFromMemory json m).toOption) SpecArtifact.updatedAt req := by
  unfold selectSpec
  rw [if_neg (by simp [hid])]
  rfl

theorem selectPlan_eq (hspec : req.specID = "") (hid : req.planID = "") :
    selectPlan json req = selectListed (fun m => (planFromMemory json m).toOption) PlanArtifact.updatedAt req := by
  have hread : planFor json req = fun m => (planFromMemory json m).toOption := by
    funext m
    unfold planFor
    cases (planFromMemory json m).toOption <;> simp [hspec]
  unfold selectPlan
  rw [if_neg (by simp [hid]), hread]
  rfl

/-- Every run selects the newest artifact exactly where it surfaces. -/
theorem selectListed_newest_iff {α : Type} {read : Memory → Option α} {updatedAt : α → Time} :
    (∀ o w', Exec (step ((d.onPostgres timestamptz ilike).steady now)) (selectListed read updatedAt req) w o w' →
        ∃ selected, o = .ok selected ∧
          SelectsNewest read updatedAt (w.memories.rows.filter (inRequestScope req)) selected) ↔
      Surfaces read updatedAt (w.memories.rows.filter (inRequestScope req)) := by
  rw [← forall_page_selects_iff (w.memories.rows_nodup.filter _)]
  constructor
  · intro h page hpage
    obtain ⟨selected, heq, hselects⟩ := h _ _ (exec_selectListed_iff.mpr ⟨page, hpage, rfl, rfl⟩)
    obtain rfl := Except.ok.inj heq
    exact hselects
  · intro h o w' hexec
    obtain ⟨page, hpage, rfl, rfl⟩ := exec_selectListed_iff.mp hexec
    exact ⟨_, rfl, h page hpage⟩

/-- A request that names no artifact is given the newest spec and the newest plan of its scope exactly where
fewer than 8 other memories may be listed before them. -/
theorem selects_newest_iff (d : Deployment) (timestamptz : String → Time) (ilike : String → String → Bool)
    (now : Time) (json : ArtifactJSON) {req : ControlRequest} (hspec : req.specID = "") (hplan : req.planID = "")
    (w : World) :
    ((∀ o w', Exec (step ((d.onPostgres timestamptz ilike).steady now)) (selectSpec json req) w o w' →
        ∃ selected, o = .ok selected ∧ SelectsNewest (fun m => (specFromMemory json m).toOption) SpecArtifact.updatedAt
          (w.memories.rows.filter (inRequestScope req)) selected) ↔
      Surfaces (fun m => (specFromMemory json m).toOption) SpecArtifact.updatedAt
        (w.memories.rows.filter (inRequestScope req))) ∧
    ((∀ o w', Exec (step ((d.onPostgres timestamptz ilike).steady now)) (selectPlan json req) w o w' →
        ∃ selected, o = .ok selected ∧ SelectsNewest (fun m => (planFromMemory json m).toOption) PlanArtifact.updatedAt
          (w.memories.rows.filter (inRequestScope req)) selected) ↔
      Surfaces (fun m => (planFromMemory json m).toOption) PlanArtifact.updatedAt
        (w.memories.rows.filter (inRequestScope req))) := by
  rw [selectSpec_eq hspec, selectPlan_eq hspec hplan]
  exact ⟨selectListed_newest_iff, selectListed_newest_iff⟩

/-- A spec as `CreateSpec` makes it. -/
def oneSpec : SpecArtifact where
  id := "spec_1"
  title := "Ship"
  goal := "Ship it"
  background := ""
  constraints := []
  acceptanceCriteria := []
  nonGoals := []
  risks := []
  evidence := []
  summary := "Ship | Ship it"
  createdAt := 1
  updatedAt := 1

/-- The spec as JSON. -/
def oneSpecText : String :=
  "\x7b\"id\":\"spec_1\",\"title\":\"Ship\",\"goal\":\"Ship it\",\"summary\":\"Ship | Ship it\"," ++
    "\"created_at\":\"1970-01-01T00:00:00.000000001Z\",\"updated_at\":\"1970-01-01T00:00:00.000000001Z\"\x7d"

/-- `json.Unmarshal`, as far as this text goes. -/
def oneSpecJSON : ArtifactJSON where
  spec raw := if raw = oneSpecText then .ok oneSpec else .error .unavailable
  plan _ := .error .unavailable

/-- The memory that holds the spec, with the importance `CreateSpec` gives it. -/
def oneSpecMemory : Memory :=
  { newMemory 1 .procedure .tenant "# SPEC: Ship\n\nGoal: Ship it\n" with
    id := "spec_1"
    tenantID := "t"
    summary := "Ship | Ship it"
    confidence := 23 / 25
    importance := 22 / 25
    metadata := [("agentic_kind", .text "agentic_spec"), ("artifact_json", .text oneSpecText), ("title", .text "Ship")] }

/-- A memory that is more important than any spec. -/
def weightyFact (n : Nat) : Memory :=
  { newMemory 1 .fact .tenant "alice gosta de cafe" with
    id := String.ofList (List.replicate (n + 1) 'i')
    tenantID := "t"
    importance := 1 }

def oneSpecStore : MemoryStore := Table.empty.upsert oneSpecMemory

/-- The spec behind eight such memories. -/
def hiddenSpecStore : MemoryStore := ⟨oneSpecMemory :: (List.range 8).map weightyFact, by decide +kernel⟩

def openRequest : ControlRequest := ⟨"t", "", "", "", "", "ship it", 350, "", ""⟩

theorem selects_newest_one :
    ((∀ o w', Exec (step (((Deployment.inProcess 5).onPostgres (fun _ => 0) (fun _ _ => false)).steady 5))
          (selectSpec oneSpecJSON openRequest) (.holding oneSpecStore) o w' →
        ∃ selected, o = .ok selected ∧ SelectsNewest (fun m => (specFromMemory oneSpecJSON m).toOption)
          SpecArtifact.updatedAt (oneSpecStore.rows.filter (inRequestScope openRequest)) selected) ↔
      Surfaces (fun m => (specFromMemory oneSpecJSON m).toOption) SpecArtifact.updatedAt
        (oneSpecStore.rows.filter (inRequestScope openRequest))) ∧
    ((∀ o w', Exec (step (((Deployment.inProcess 5).onPostgres (fun _ => 0) (fun _ _ => false)).steady 5))
          (selectPlan oneSpecJSON openRequest) (.holding oneSpecStore) o w' →
        ∃ selected, o = .ok selected ∧ SelectsNewest (fun m => (planFromMemory oneSpecJSON m).toOption)
          PlanArtifact.updatedAt (oneSpecStore.rows.filter (inRequestScope openRequest)) selected) ↔
      Surfaces (fun m => (planFromMemory oneSpecJSON m).toOption) PlanArtifact.updatedAt
        (oneSpecStore.rows.filter (inRequestScope openRequest))) :=
  selects_newest_iff (.inProcess 5) (fun _ => 0) (fun _ _ => false) 5 oneSpecJSON rfl rfl (.holding oneSpecStore)

/-- No spec is selected, and there is one. -/
theorem hidden_spec_not_selected :
    ¬ ∀ o w', Exec (step (((Deployment.inProcess 5).onPostgres (fun _ => 0) (fun _ _ => false)).steady 5))
        (selectSpec oneSpecJSON openRequest) (.holding hiddenSpecStore) o w' →
      ∃ selected, o = .ok selected ∧ SelectsNewest (fun m => (specFromMemory oneSpecJSON m).toOption)
        SpecArtifact.updatedAt (hiddenSpecStore.rows.filter (inRequestScope openRequest)) selected := by
  intro h
  rw [selectSpec_eq rfl] at h
  have hsurfaces := selectListed_newest_iff.mp h
  revert hsurfaces
  unfold Surfaces
  decide +kernel

end AgentMemory
