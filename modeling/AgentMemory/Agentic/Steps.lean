import AgentMemory.Agentic.Artifacts

/-!
# The ids of plan steps

`normalizeSteps` (`internal/services/agentic/service.go:404-423`) gives a step without an id the one of its
place, `T1`, `T2` and so on, and does not look whether another step has taken it. `step_ids_distinct_iff` says
which lists of steps come out with distinct ids.
-/

namespace AgentMemory

/-- The id of a step without one at this place. -/
def generatedID (i : Nat) : String := "T" ++ toString (i + 1)

/-- The ids that the steps bring with them. -/
def explicitIDs (steps : List PlanStep) : List String := (steps.map fun step => trimText step.id).filter (· ≠ "")

/-- No step has the id that is generated at the place of a step without one. -/
def NoneTaken (steps : List PlanStep) : Prop :=
  ∀ (i j : Nat) (hi : i < steps.length) (hj : j < steps.length),
    trimText steps[i].id = "" → trimText steps[j].id ≠ generatedID i

/-- The steps have ids, and no two the same. -/
structure DistinctIDs (steps : List PlanStep) : Prop where
  nonempty : ∀ step ∈ steps, step.id ≠ ""
  nodup : (steps.map PlanStep.id).Nodup

theorem generatedID_injective {i j : Nat} (h : generatedID i = generatedID j) : i = j := by
  have hlist := congrArg String.toList h
  simp only [generatedID, String.toList_append, List.append_cancel_left_eq] at hlist
  have hnum : i + 1 = j + 1 := Nat.repr_injective (String.toList_inj.mp hlist)
  omega

theorem generatedID_ne_empty (i : Nat) : generatedID i ≠ "" := by
  intro h
  have hlist := congrArg String.toList h
  simp [generatedID] at hlist

/-- The id that a step comes out with. -/
def stepID (i : Nat) (step : PlanStep) : String :=
  if trimText step.id = "" then generatedID i else trimText step.id

theorem stepID_ne_empty (i : Nat) (step : PlanStep) : stepID i step ≠ "" := by
  unfold stepID
  split
  · exact generatedID_ne_empty i
  · next h => exact h

variable {steps : List PlanStep}

theorem ids_normalizeSteps (steps : List PlanStep) : (normalizeSteps steps).map PlanStep.id = steps.mapIdx stepID := by
  apply List.ext_getElem
  · simp [normalizeSteps]
  · intro i _ _
    simp only [normalizeSteps, List.getElem_map, List.getElem_mapIdx]
    rfl

/-- Explicit ids are distinct where they are so at any two places. -/
theorem nodup_explicitIDs_iff : (explicitIDs steps).Nodup ↔
    ∀ (i j : Nat) (hi : i < steps.length) (hj : j < steps.length), i < j →
      trimText steps[i].id ≠ "" → trimText steps[j].id ≠ "" → trimText steps[i].id ≠ trimText steps[j].id := by
  rw [explicitIDs, List.Nodup, List.pairwise_filter, List.pairwise_map, List.pairwise_iff_getElem]
  simp only [decide_eq_true_eq]

theorem nodup_ids_iff : ((normalizeSteps steps).map PlanStep.id).Nodup ↔
    ∀ (i j : Nat) (hi : i < steps.length) (hj : j < steps.length), i < j → stepID i steps[i] ≠ stepID j steps[j] := by
  rw [ids_normalizeSteps, List.Nodup, List.pairwise_iff_getElem]
  simp only [List.length_mapIdx, List.getElem_mapIdx]

/-- Two steps come out with one id only where one has what is generated for the other. -/
theorem stepID_ne (h : (explicitIDs steps).Nodup) (hnone : NoneTaken steps) {i j : Nat} (hi : i < steps.length)
    (hj : j < steps.length) (hlt : i < j) : stepID i steps[i] ≠ stepID j steps[j] := by
  unfold stepID
  split
  · next hblank =>
    split
    · intro heq
      have hij := generatedID_injective heq
      omega
    · exact (hnone i j hi hj hblank).symm
  · next hexplicit =>
    split
    · next hblank => exact hnone j i hj hi hblank
    · next hexplicit' => exact nodup_explicitIDs_iff.mp h i j hi hj hlt hexplicit hexplicit'

theorem noneTaken_of_nodup (h : ((normalizeSteps steps).map PlanStep.id).Nodup) : NoneTaken steps := by
  intro i j hi hj hblank htaken
  have hexplicit : trimText steps[j].id ≠ "" := by
    rw [htaken]
    exact generatedID_ne_empty i
  have hsame : stepID i steps[i] = stepID j steps[j] := by
    rw [stepID, if_pos hblank, stepID, if_neg hexplicit, htaken]
  obtain hlt | rfl | hgt := lt_trichotomy i j
  · exact nodup_ids_iff.mp h i j hi hj hlt hsame
  · exact hexplicit hblank
  · exact nodup_ids_iff.mp h j i hj hi hgt hsame.symm

theorem distinctIDs_normalizeSteps_iff (h : (explicitIDs steps).Nodup) :
    DistinctIDs (normalizeSteps steps) ↔ NoneTaken steps := by
  constructor
  · intro hdistinct
    exact noneTaken_of_nodup hdistinct.nodup
  · intro hnone
    constructor
    · intro step hstep
      have hid : step.id ∈ steps.mapIdx stepID := ids_normalizeSteps steps ▸ List.mem_map_of_mem hstep
      obtain ⟨i, hi, heq⟩ := List.mem_mapIdx.mp hid
      rw [← heq]
      exact stepID_ne_empty i _
    · apply nodup_ids_iff.mpr
      intro i j hi hj hlt
      exact stepID_ne h hnone hi hj hlt

/-- The plan that `CreatePlan` returns is the one it stores, and has the steps of the request, normalised. -/
theorem createPlan_eq_ok {json : ArtifactCodec} {req : PlanRequest} {now : Time} {id : String}
    {made : Written PlanArtifact} {mem : Written Memory} (h : createPlan json req now id = .ok (made, mem)) :
    made.value.steps = normalizeSteps req.steps ∧ ∃ payload, json.marshalPlan made = .ok payload ∧
      mem.value.metadata.lookup "artifact_json" = some (.text payload) := by
  unfold createPlan at h
  split at h
  · cases h
  · split at h
    · cases h
    · unfold memoryForPlan at h
      cases hjson : json.marshalPlan (newPlan req now id) with
      | error e =>
        rw [hjson] at h
        cases h
      | ok payload =>
        rw [hjson] at h
        obtain ⟨rfl, rfl⟩ := Prod.mk.inj (Except.ok.inj h)
        refine ⟨?_, payload, hjson, rfl⟩
        simp only [newPlan, draftPlan]

/-- Steps whose explicit ids are distinct come out with distinct ids, in a stored plan as well, exactly where no
explicit id is generated for another step. -/
theorem step_ids_distinct_iff (steps : List PlanStep) (h : (explicitIDs steps).Nodup) :
    (DistinctIDs (normalizeSteps steps) ↔ NoneTaken steps) ∧
      ∀ (json : ArtifactCodec) (req : PlanRequest) (now : Time) (id : String) (made : Written PlanArtifact)
        (mem : Written Memory), req.steps = steps → createPlan json req now id = .ok (made, mem) →
          (∃ payload, json.marshalPlan made = .ok payload ∧
            mem.value.metadata.lookup "artifact_json" = some (.text payload)) ∧
          (DistinctIDs made.value.steps ↔ NoneTaken steps) := by
  refine ⟨distinctIDs_normalizeSteps_iff h, ?_⟩
  rintro json req now id made mem rfl hcreate
  obtain ⟨hsteps, hstored⟩ := createPlan_eq_ok hcreate
  rw [hsteps]
  exact ⟨hstored, distinctIDs_normalizeSteps_iff h⟩

theorem step_ids_distinct_iff_ship : (DistinctIDs (normalizeSteps shipPlan.steps) ↔ NoneTaken shipPlan.steps) ∧
    ∃ made mem, createPlan (shipCodec "plan_1") shipPlan 1 "plan_1" = .ok (made, mem) ∧
      (∃ payload, (shipCodec "plan_1").marshalPlan made = .ok payload ∧
        mem.value.metadata.lookup "artifact_json" = some (.text payload)) ∧
      (DistinctIDs made.value.steps ↔ NoneTaken shipPlan.steps) := by
  have hcreate : ∃ mem, createPlan (shipCodec "plan_1") shipPlan 1 "plan_1" =
      .ok (newPlan shipPlan 1 "plan_1", mem) := by
    obtain ⟨text, hmarshal, -⟩ := codecOf_plan (newSpec shipSpec 1 "plan_1") oneSpecText
      (newPlan shipPlan 1 "plan_1") shipPlanText
    have hcodec : (shipCodec "plan_1").marshalPlan (newPlan shipPlan 1 "plan_1") = .ok text := hmarshal
    have htitle : ¬ (trimText shipPlan.title = "" ∨ trimText shipPlan.objective = "") := by decide +kernel
    have hsteps : shipPlan.steps ≠ [] := List.cons_ne_nil _ _
    rw [createPlan, if_neg htitle, if_neg hsteps, memoryForPlan, hcodec]
    exact ⟨_, rfl⟩
  obtain ⟨hsteps, hplan⟩ := step_ids_distinct_iff shipPlan.steps (by decide +kernel)
  obtain ⟨mem, hcreate⟩ := hcreate
  exact ⟨hsteps, _, mem, hcreate, hplan _ _ _ _ _ mem rfl hcreate⟩

/-- A step of a plan with this id. -/
def idStep (id title : String) : PlanStep := ⟨id, title, "", [], [], [], ""⟩

/-- The first step has the id that is generated for the second. -/
theorem generated_id_taken :
    ¬ ∀ steps : List PlanStep, (explicitIDs steps).Nodup → DistinctIDs (normalizeSteps steps) := by
  intro h
  have hdistinct := h [idStep "T2" "Build", idStep "" "Ship"] (by decide +kernel)
  have hids : (normalizeSteps [idStep "T2" "Build", idStep "" "Ship"]).map PlanStep.id = ["T2", "T2"] := by
    decide +kernel
  have hnodup := hdistinct.nodup
  rw [hids] at hnodup
  simp at hnodup

end AgentMemory
