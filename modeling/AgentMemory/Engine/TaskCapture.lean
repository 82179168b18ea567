import AgentMemory.Engine.Capture
import AgentMemory.Engine.TaskClients

/-!
# What a capture does to its task

A capture of agentic items derives a patch from what it has captured and updates the task with
it. The patch has a value for almost every field, also for those that no captured item speaks
of; `capture_keeps_unfed_iff` says which stored states survive that.
-/

namespace AgentMemory

open Dicts PyText JsonText Tables Commits

/-- The roles whose items give the text its value (`mcp_server.py:1142-1161`). -/
def TextField.feeders : TextField → List CaptureRole
  | objective => [.plan, .spec]
  | status => [.plan, .checkpoint]
  | checkpointId => [.checkpoint]

/-- The roles whose items give the list its value (`mcp_server.py:1149-1158`). -/
def ListField.feeders : ListField → List CaptureRole
  | constraints => [.spec]
  | currentPlan => [.plan]
  | openSubtasks | completedSubtasks => [.progress]
  | irreversibleDecisions => [.decision]
  | toolEvidenceIds =>
    [.note, .decision, .lesson, .spec, .plan, .progress, .checkpoint, .artifact, .risk, .openQuestion]
  | conflictMarkers => []

/-- No item of these roles is captured. -/
def Unfed (captured : List (CaptureRole × Text)) (roles : List CaptureRole) : Prop :=
  ∀ role ∈ roles, idsOf captured role = []

section Model

variable {F : Type}

/-- `get` of the task (`task_state.py:147-152`). -/
def TaskStateStore.get {V : Type} (o : Objects F V) (now : F) (taskId : Text) (rows : TaskRows F) :
    Except TaskError (Option (TaskState F V)) :=
  loaded o now (rows.find? taskId)

/-- The fields that no captured item feeds are what they were, and the checkpoint is the next. -/
structure KeepsUnfed (captured : List (CaptureRole × Text)) (old new : TaskState F (Json F)) : Prop where
  texts : ∀ f : TextField, Unfed captured f.feeders → new.texts f = old.texts f
  lists : ∀ f : ListField, Unfed captured f.feeders → new.lists f = old.lists f
  sequence : new.checkpointSequence = old.checkpointSequence + 1

/-- The fields that no captured item feeds are what a derived patch writes. -/
structure UnfedAreDefault (captured : List (CaptureRole × Text)) (old : TaskState F (Json F)) : Prop where
  texts : ∀ f : TextField, f ≠ .checkpointId → Unfed captured f.feeders → old.texts f = f.default
  lists : ∀ f : ListField, f ≠ .conflictMarkers → Unfed captured f.feeders → old.lists f = []

end Model

/-! ## The derived patch -/

section Facts

variable {F : Type} {rt : FacadeRuntime F}

theorem firstContent_of_idsOf_eq_nil {now : F} {s : TemporalStore F}
    {captured : List (CaptureRole × Text)} {role : CaptureRole} (h : idsOf captured role = []) :
    firstContent rt now s captured role = some [] := by
  rw [firstContent, h]
  rfl

theorem firstOf_nil (keys : List String) (default : Json F) : firstOf rt [] keys default = default := by
  induction keys with
  | nil => rfl
  | cons key keys ih => exact ih

theorem valueAt_cons_toList (key key' : String) (j : Json F) (d : List (Text × Json F)) :
    valueAt key.toList ((key'.toList, j) :: d) = if key = key' then some j else valueAt key.toList d := by
  simp only [valueAt, String.toList_inj]

/-- The derived patch has the default for a text that nothing feeds, and no checkpoint id. -/
theorem patchFromCapture_text {now : F} {s : TemporalStore F} {captured : List (CaptureRole × Text)}
    {patch : List (Text × Json F)} (h : patchFromCapture rt now s captured = some patch) (f : TextField)
    (hunfed : Unfed captured f.feeders) :
    valueAt f.name.toList patch = if f = .checkpointId then none else some (.str f.default) := by
  simp only [patchFromCapture, Option.bind_eq_bind, Option.bind_eq_some_iff] at h
  obtain ⟨spec, hspec, plan, hplan, progress, -, checkpoint, hcheckpoint, decisions, -, all, -, h⟩ := h
  obtain rfl := Option.some.inj h
  have hempty : ∀ role, role ∈ f.feeders → firstContent rt now s captured role = some [] :=
    fun role hrole => firstContent_of_idsOf_eq_nil (hunfed role hrole)
  cases f with
  | objective =>
    obtain rfl := Option.some.inj (hspec.symm.trans (hempty .spec (by simp [TextField.feeders])))
    obtain rfl := Option.some.inj (hplan.symm.trans (hempty .plan (by simp [TextField.feeders])))
    simp only [TextField.name, List.cons_append, valueAt_cons_toList, firstOf_nil]
    rfl
  | status =>
    obtain rfl := Option.some.inj (hplan.symm.trans (hempty .plan (by simp [TextField.feeders])))
    obtain rfl := Option.some.inj
      (hcheckpoint.symm.trans (hempty .checkpoint (by simp [TextField.feeders])))
    simp only [TextField.name, List.cons_append, valueAt_cons_toList, firstOf_nil]
    rfl
  | checkpointId =>
    obtain rfl := Option.some.inj
      (hcheckpoint.symm.trans (hempty .checkpoint (by simp [TextField.feeders])))
    have hid : strip (strOf rt.toGraphRuntime (firstOf rt [] ["checkpoint_id", "id", "title"] (.str []))) = [] := by
      rw [firstOf_nil]
      rfl
    simp only [TextField.name, List.cons_append, valueAt_cons_toList, hid, if_true, List.nil_append]
    rfl

/-- Likewise for a list; only the conflict markers have no value in the patch. -/
theorem patchFromCapture_list {now : F} {s : TemporalStore F} {captured : List (CaptureRole × Text)}
    {patch : List (Text × Json F)} (h : patchFromCapture rt now s captured = some patch) (f : ListField)
    (hunfed : Unfed captured f.feeders) :
    valueAt f.name.toList patch = if f = .conflictMarkers then none else some (.arr []) := by
  simp only [patchFromCapture, Option.bind_eq_bind, Option.bind_eq_some_iff] at h
  obtain ⟨spec, hspec, plan, hplan, progress, hprogress, checkpoint, -, decisions, hdecisions, all, hall,
    h⟩ := h
  obtain rfl := Option.some.inj h
  have hempty : ∀ role, role ∈ f.feeders → firstContent rt now s captured role = some [] :=
    fun role hrole => firstContent_of_idsOf_eq_nil (hunfed role hrole)
  cases f with
  | constraints =>
    obtain rfl := Option.some.inj (hspec.symm.trans (hempty .spec (by simp [ListField.feeders])))
    simp only [ListField.name, List.cons_append, valueAt_cons_toList]
    rfl
  | currentPlan =>
    obtain rfl := Option.some.inj (hplan.symm.trans (hempty .plan (by simp [ListField.feeders])))
    simp only [ListField.name, List.cons_append, valueAt_cons_toList, firstOf_nil]
    rfl
  | openSubtasks | completedSubtasks =>
    obtain rfl := Option.some.inj (hprogress.symm.trans (hempty .progress (by simp [ListField.feeders])))
    simp only [ListField.name, List.cons_append, valueAt_cons_toList, firstOf_nil]
    rfl
  | irreversibleDecisions =>
    rw [hunfed .decision (by simp [ListField.feeders])] at hdecisions
    obtain rfl := Option.some.inj hdecisions
    simp only [ListField.name, List.cons_append, valueAt_cons_toList]
    rfl
  | toolEvidenceIds =>
    have hids : ∀ role, idsOf captured role = [] := fun role =>
      hunfed role (by cases role <;> simp [ListField.feeders])
    have hnone : (rolesOf captured).flatMap (idsOf captured) = [] := by simp [hids]
    rw [hnone] at hall
    obtain rfl := Option.some.inj hall
    simp only [ListField.name, List.cons_append, valueAt_cons_toList]
    rfl
  | conflictMarkers =>
    simp only [ListField.name, List.cons_append, valueAt_cons_toList, String.reduceEq, if_false, if_true]
    split <;> rfl

/-- The derived patch leaves the sequence to the store. -/
theorem patchFromCapture_sequence {now : F} {s : TemporalStore F} {captured : List (CaptureRole × Text)}
    {patch : List (Text × Json F)} (h : patchFromCapture rt now s captured = some patch) :
    valueAt "checkpoint_sequence".toList patch = none := by
  simp only [patchFromCapture, Option.bind_eq_bind, Option.bind_eq_some_iff] at h
  obtain ⟨_, -, _, -, _, -, _, -, _, -, _, -, h⟩ := h
  obtain rfl := Option.some.inj h
  simp only [List.cons_append, valueAt_cons_toList, String.reduceEq, if_false]
  split <;> rfl

/-! ## The update of the task -/

/-- What `get` gives of a row that an update has saved. -/
structure ReadsAs (st read : TaskState F (Json F)) : Prop where
  texts : ∀ f, read.texts f = f.orDefault (st.texts f)
  lists : ∀ f, read.lists f = (st.lists f).filter (· ≠ [])
  sequence : read.checkpointSequence = max 0 st.checkpointSequence

theorem readsAs_of_get {o : Objects F (Json F)} {now : F} {taskId : Text} {rows : TaskRows F}
    {st read : TaskState F (Json F)} {scope : List (Text × Json F)} (hst : st.Normal)
    (hrow : rows.find? taskId = some (st.row scope))
    (h : TaskStateStore.get o now taskId rows = .ok (some read)) : ReadsAs st read := by
  obtain ⟨loaded, hloaded, -, -, htexts, hlists, hseq⟩ :=
    @TaskState.Normal.fromDict_toDict _ _ o _ scope hst now
  rw [TaskStateStore.get, hrow, TaskStateStore.loaded, TaskState.row, hloaded] at h
  obtain rfl := Option.some.inj (Except.ok.inj h)
  exact ⟨htexts, hlists, hseq⟩

/-- An update over a row, by the fields of its patch. -/
theorem prepared_patched {o : Objects F (Json F)} {c : UpdateCall F (Json F)}
    {st state : TaskState F (Json F)} {scope : List (Text × Json F)} {saved : TaskRow F}
    (hst : st.Normal) (h : TaskStateStore.prepared o c (some (st.row scope)) = .ok (state, saved)) :
    (∀ f text, c.patchText o f (f.orDefault (st.texts f)) = .ok text → text ≠ [] ∨ f ≠ .checkpointId →
      state.texts f = text) ∧
    (∀ f, c.patchList o f ((st.lists f).filter (· ≠ [])) = .ok (state.lists f)) ∧
    (c.get "checkpoint_sequence" = none →
      state.checkpointSequence = max 0 st.checkpointSequence + 1) := by
  obtain ⟨existing, -, hexisting, hmerge, -, -⟩ := TaskStateStore.prepared_eq_ok h
  obtain ⟨read, hread, -, -, htexts, hlists, hseq⟩ :=
    @TaskState.Normal.fromDict_toDict _ _ o _ scope hst (c.now 0)
  obtain rfl : some read = existing := by
    rw [TaskStateStore.loaded, TaskState.row, hread] at hexisting
    exact Except.ok.inj hexisting
  obtain ⟨first, hfirst, hmerged, hsequence⟩ := UpdateCall.merge_eq_ok hmerge
  obtain ⟨-, -, hfirstTexts, hfirstLists, hfirstSeq, -⟩ := UpdateCall.start_some hfirst
  refine ⟨fun f text htext hne => ?_, fun f => ?_, fun hnone => ?_⟩
  · apply hmerged.texts f text _ hne
    rw [hfirstTexts, htexts, TextField.orDefault_orDefault, htext]
  · have hpatched := hmerged.lists f
    have hsame : first.lists f = (st.lists f).filter (· ≠ []) := by
      rw [hfirstLists, hlists, List.filter_filter]
      simp
    rwa [hsame] at hpatched
  · rw [UpdateCall.sequence, hnone] at hsequence
    have hnext := Except.ok.inj hsequence
    omega

/-! ## The rest of the capture -/

variable {options : StoreOptions} {extract : MemoryEnvelope F → List (ExtractedFact F)}
  {lessons : List (Text × Json F) → Option (List (MemoryEnvelope F))} {req : CaptureRequest F}
  {now : Nat → F} {newId : Nat → Text} {rows : TaskRows F}

namespace Facade

theorem keepsTasks_onVault (c : Call (VaultState F) Unit) :
    Preserves (fun t => t.tasks = rows) (onVault c) := by
  apply preserves_on
  intro _ _ h
  exact h

theorem keepsTasks_captureItem (time : F) (id : Text) (item : CaptureItem F) :
    Preserves (fun t => t.tasks = rows) (captureItem rt options extract req time id item) := by
  unfold captureItem
  split
  · exact preserves_check _
  · exact preserves_pure
  · split
    · apply preserves_on
      intro _ _ h
      exact h
    · exact keepsTasks_onVault _

theorem keepsTasks_captureTrace (time : F) :
    Preserves (fun t => t.tasks = rows) (captureTrace rt options extract lessons req time) := by
  unfold captureTrace
  apply Preserves.callIf
  split
  · exact preserves_check _
  · exact preserves_forM fun m _ => keepsTasks_onVault _

theorem keepsTasks_captureRelations :
    Preserves (fun t => t.tasks = rows) (captureRelations rt req now) :=
  preserves_forM fun _ _ => keepsTasks_onVault _

theorem keepsTasks_captureReport :
    Preserves (fun t => t.tasks = rows) (captureReport rt req now) :=
  preserves_reading fun _ => preserves_check _

theorem keepsTasks_captureWrites {now : Nat → F} {newId : Nat → Text} :
    Preserves (fun t : Facade F => t.tasks = rows) (do
      forM req.items.zipIdx fun (item, i) => captureItem rt options extract req (now i) (newId i) item
      captureTrace rt options extract lessons req (now req.items.length)
      captureRelations rt req now) := by
  apply Preserves.bind
  · exact preserves_forM fun _ _ => keepsTasks_captureItem _ _ _
  · exact (keepsTasks_captureTrace _).bind keepsTasks_captureRelations

/-- The tasks after a capture that returns are those after its update. -/
theorem tasks_after_captureRequest {s : Facade F}
    (h : returns (captureRequest rt options extract lessons req now newId) s = true) :
    ∃ t : Facade F, t.tasks = s.tasks ∧ returns (captureTask rt req now) t = true ∧
      (after (captureRequest rt options extract lessons req now newId) s).tasks =
        (after (captureTask rt req now) t).tasks := by
  have hkept := @keepsTasks_captureWrites F rt options extract lessons req s.tasks now newId s rfl
  simp only [captureRequest, returns_bind, Bool.and_eq_true] at h
  obtain ⟨hreturns₁, hreturns₂, hreturns₃, hreturns₄, -⟩ := h
  simp only [after_bind, hreturns₁, hreturns₂, if_true] at hkept
  refine ⟨_, hkept, hreturns₄, ?_⟩
  simp only [captureRequest, after_bind, hreturns₁, hreturns₂, hreturns₃, hreturns₄, if_true]
  exact keepsTasks_captureReport _ rfl

end Facade

/-- The row of an update that returns. -/
theorem find?_after_updateTask {c : UpdateCall F (Json F)} {st : TaskState F (Json F)}
    {scope : List (Text × Json F)} (hst : st.Normal) (hrow : rows.find? c.taskId = some (st.row scope))
    (h : returns (Facade.updateTask rt c) rows = true) :
    ∃ (state : TaskState F (Json F)) (newScope : List (Text × Json F)),
      TaskStateStore.prepared rt.objects c (some (st.row scope)) = .ok (state, state.row newScope) ∧
        state.Normal ∧
        (after (Facade.updateTask rt c) rows).find? c.taskId = some (state.row newScope) := by
  have hid : st.taskId = c.taskId := (Table.find?_eq_some.mp hrow).2
  unfold returns after Facade.updateTask TaskStateStore.update at *
  rw [hrow] at *
  cases hprepared : TaskStateStore.prepared rt.objects c (some (st.row scope)) with
  | error e => simp [hprepared] at h
  | ok result =>
    obtain ⟨state, saved⟩ := result
    obtain ⟨hkeeps, newScope, -, rfl⟩ := TaskStateStore.prepared_some hst hprepared
    refine ⟨state, newScope, rfl, hkeeps.normal, ?_⟩
    have hkey : (state.row newScope).taskId = c.taskId := by
      rw [TaskState.row, hkeeps.taskId, hid]
    simp only
    rw [← hkey]
    exact Table.find?_upsert_self _ _

/-- What the update with a derived patch makes of the fields that nothing feeds. -/
theorem unfed_of_patchFromCapture {s : TemporalStore F} {captured : List (CaptureRole × Text)}
    {patch : List (Text × Json F)} {time : F} (hpatch : patchFromCapture rt time s captured = some patch)
    {taskId : Text} {scopeArg : Json F} {clock : Nat → F} {st state : TaskState F (Json F)}
    {scope : List (Text × Json F)} {saved : TaskRow F} (hst : st.Normal)
    (h : TaskStateStore.prepared rt.objects ⟨taskId, scopeArg, patch, clock⟩ (some (st.row scope)) =
      .ok (state, saved)) :
    (∀ f : TextField, Unfed captured f.feeders → f.orDefault (state.texts f) =
      if f = .checkpointId then f.orDefault (st.texts f) else f.default) ∧
    (∀ f : ListField, Unfed captured f.feeders → state.lists f =
      if f = .conflictMarkers then (st.lists f).filter (· ≠ []) else []) ∧
    state.checkpointSequence = max 0 st.checkpointSequence + 1 := by
  obtain ⟨htexts, hlists, hsequence⟩ := prepared_patched hst h
  refine ⟨fun f hunfed => ?_, fun f hunfed => ?_, hsequence (patchFromCapture_sequence hpatch)⟩
  · have hget := patchFromCapture_text hpatch f hunfed
    by_cases hf : f = .checkpointId
    · subst hf
      rw [if_pos rfl] at hget ⊢
      have hne : TextField.checkpointId.orDefault (st.texts .checkpointId) ≠ [] := by
        rw [TextField.orDefault, if_neg hst.named]
        exact hst.named
      have hkept := htexts .checkpointId _ (by rw [UpdateCall.patchText, UpdateCall.get, hget]) (Or.inl hne)
      rw [hkept, TextField.orDefault_orDefault]
    · rw [if_neg hf] at hget ⊢
      have hpatched : UpdateCall.patchText rt.objects ⟨taskId, scopeArg, patch, clock⟩ f
          (f.orDefault (st.texts f)) = .ok f.default := by
        rw [UpdateCall.patchText, UpdateCall.get, hget]
        cases f <;> rfl
      rw [htexts f _ hpatched (Or.inr hf)]
      cases f <;> rfl
  · have hget := patchFromCapture_list hpatch f hunfed
    have hpatched := hlists f
    rw [UpdateCall.patchList, UpdateCall.get, hget] at hpatched
    by_cases hf : f = .conflictMarkers
    · rw [if_pos hf] at hpatched ⊢
      exact (Except.ok.inj hpatched).symm
    · rw [if_neg hf] at hpatched ⊢
      exact (Except.ok.inj hpatched).symm

/-- A capture with a task and no patch of its own, over a stored state: the fields that none of
the captured items feeds keep their values and the checkpoint advances by one exactly where
the request has agentic values and those fields already are what the derived patch writes. -/
theorem capture_keeps_unfed_iff (rt : FacadeRuntime F) (options : StoreOptions)
    (extract : MemoryEnvelope F → List (ExtractedFact F))
    (lessons : List (Text × Json F) → Option (List (MemoryEnvelope F))) {args : Json F}
    {req : CaptureRequest F} (hreq : CaptureRequest.read rt args = some req) (htask : req.taskId ≠ [])
    (hpatch : req.patch = none) {now : Nat → F} {newId : Nat → Text} {s : Facade F}
    (hrows : AllNormal (Json F) s.tasks)
    (hreturns : returns (Facade.capture rt options extract lessons args now newId) s = true)
    {time time' : F} {old new : TaskState F (Json F)}
    (hold : TaskStateStore.get rt.objects time req.taskId s.tasks = .ok (some old))
    (hnew : TaskStateStore.get rt.objects time' req.taskId
      (after (Facade.capture rt options extract lessons args now newId) s).tasks = .ok (some new)) :
    KeepsUnfed (req.captured rt now) old new ↔
      req.agenticSeen = true ∧ UnfedAreDefault (req.captured rt now) old := by
  obtain ⟨row, hrow⟩ : ∃ row, s.tasks.find? req.taskId = some row := by
    cases hfound : s.tasks.find? req.taskId with
    | none => simp [TaskStateStore.get, hfound, TaskStateStore.loaded] at hold
    | some row => exact ⟨row, rfl⟩
  obtain ⟨st, scope, rfl, hst⟩ := hrows row (Table.find?_eq_some.mp hrow).1
  have hread := readsAs_of_get hst hrow hold
  rw [Facade.capture, hreq] at hreturns hnew
  obtain ⟨t, htasks, htaskReturns, hafter⟩ := Facade.tasks_after_captureRequest hreturns
  rw [hafter] at hnew
  rw [← htasks] at hrow
  by_cases hagentic : req.agenticSeen = true
  swap
  · have hnone : Facade.taskPatch rt req now t.vault.store = some none := by simp [Facade.taskPatch, hpatch, hagentic]
    rw [Facade.captureTask, after_reading, hnone, after_pure] at hnew
    have hread' := readsAs_of_get hst hrow hnew
    have hsame : ¬ KeepsUnfed (req.captured rt now) old new := by
      intro hkeeps
      have hnext := hkeeps.sequence
      rw [hread.sequence, hread'.sequence] at hnext
      omega
    exact ⟨fun hkeeps => absurd hkeeps hsame, fun h => absurd h.1 hagentic⟩
  have hsome : Facade.taskPatch rt req now t.vault.store =
      (patchFromCapture rt (now req.items.length) t.vault.store (req.captured rt now)).map some := by
    simp [Facade.taskPatch, hpatch, hagentic, htask]
  rw [Facade.captureTask, returns_reading, hsome] at htaskReturns
  rw [Facade.captureTask, after_reading, hsome] at hnew
  cases hderived : patchFromCapture rt (now req.items.length) t.vault.store (req.captured rt now) with
  | none => simp [hderived] at htaskReturns
  | some patch =>
    simp only [hderived, Option.map_some, Facade.onTasks, returns_on] at htaskReturns
    simp only [hderived, Option.map_some, Facade.onTasks, after_on] at hnew
    obtain ⟨state, newScope, hprepared, hstate, hsaved⟩ := find?_after_updateTask hst hrow htaskReturns
    have hread' := readsAs_of_get hstate hsaved hnew
    obtain ⟨htexts, hlists, hsequence⟩ := unfed_of_patchFromCapture hderived hst hprepared
    constructor
    · intro hkeeps
      refine ⟨hagentic, fun f hne hunfed => ?_, fun f hne hunfed => ?_⟩
      · rw [← hkeeps.texts f hunfed, hread'.texts, htexts f hunfed, if_neg hne]
      · rw [← hkeeps.lists f hunfed, hread'.lists, hlists f hunfed, if_neg hne, List.filter_nil]
    · rintro ⟨-, hdefault⟩
      refine ⟨fun f hunfed => ?_, fun f hunfed => ?_, ?_⟩
      · rw [hread'.texts, htexts f hunfed]
        split
        · rw [hread.texts]
        · next hne => exact (hdefault.texts f hne hunfed).symm
      · rw [hread'.lists, hlists f hunfed]
        split
        · rw [hread.lists, List.filter_filter]
          simp
        · next hne => exact (hdefault.lists f hne hunfed).symm
      · rw [hread'.sequence, hread.sequence, hsequence]
        omega

end Facts

/-! ## A blank progress item -/

/-- A request with one agentic item, which is blank. -/
def blankProgress : Json SampleNumber := dict [("task_id", .str "t".toList), ("progress", .str " ".toList)]

/-- The stored task with this objective. -/
def sampleTask (objective : Text) : TaskState SampleNumber (Json SampleNumber) where
  taskId := "t".toList
  scope := .obj []
  texts
    | .objective => objective
    | .status => "active".toList
    | .checkpointId => "ckpt_1".toList
  lists _ := []
  checkpointSequence := 1
  createdAt := .one
  updatedAt := .one

/-- A facade that stores the task. -/
def sampleFacade (objective : Text) : Facade SampleNumber :=
  ⟨VaultState.empty, Table.empty, Table.empty.upsert ((sampleTask objective).row [])⟩

/-- The capture of the blank item. -/
def captureBlank : Call (Facade SampleNumber) Unit :=
  Facade.capture sampleFacadeRuntime .default (fun _ => []) (fun _ => none) blankProgress (fun _ => .one)
    fun _ => "prop_1".toList

theorem allNormal_sampleFacade (objective : Text) :
    AllNormal (Json SampleNumber) (sampleFacade objective).tasks := by
  intro row hrow
  obtain rfl := List.mem_singleton.mp hrow
  exact ⟨sampleTask objective, [], rfl, by simp [sampleTask], rfl, by simp [sampleTask]⟩

/-- The task as it is stored, and after the capture. -/
def TaskPair (objective : Text) (old new : TaskState SampleNumber (Json SampleNumber)) : Prop :=
  TaskStateStore.get sampleFacadeRuntime.objects .one "t".toList (sampleFacade objective).tasks =
      .ok (some old) ∧
    returns captureBlank (sampleFacade objective) = true ∧
      TaskStateStore.get sampleFacadeRuntime.objects .one "t".toList
        (after captureBlank (sampleFacade objective)).tasks = .ok (some new)

/-- The request as it is read. -/
def blankRequest : CaptureRequest SampleNumber := ⟨blankProgress, [], [], .null, false, "t".toList, none⟩

theorem read_blankProgress : CaptureRequest.read sampleFacadeRuntime blankProgress = some blankRequest := rfl

theorem captured_blankRequest : blankRequest.captured sampleFacadeRuntime (fun _ => .one) = [] := rfl

theorem agenticSeen_blankRequest : blankRequest.agenticSeen = true := rfl

/-- A task without an objective is kept. -/
theorem unfed_kept_blank : ∃ old new, TaskPair [] old new ∧
    KeepsUnfed (blankRequest.captured sampleFacadeRuntime fun _ => .one) old new := by
  have htask : ∃ old new, TaskPair [] old new := ⟨_, _, rfl, rfl, rfl⟩
  obtain ⟨old, new, hold, hreturns, hnew⟩ := htask
  refine ⟨old, new, ⟨hold, hreturns, hnew⟩, (capture_keeps_unfed_iff sampleFacadeRuntime .default
    (fun _ => []) (fun _ => none) read_blankProgress (by simp [blankRequest]) rfl
      (allNormal_sampleFacade []) hreturns hold hnew).mpr ⟨agenticSeen_blankRequest, ?_⟩⟩
  have hrow : (sampleFacade []).tasks.find? "t".toList = some ((sampleTask []).row []) := rfl
  have hnormal : (sampleTask []).Normal := ⟨by simp [sampleTask], rfl, by simp [sampleTask]⟩
  have hread := readsAs_of_get hnormal hrow hold
  constructor
  · intro f hf _
    rw [hread.texts]
    cases f with
    | objective | status => rfl
    | checkpointId => exact absurd rfl hf
  · intro f _ _
    rw [hread.lists]
    rfl

/-- The objective of a task is lost with a blank progress item. -/
theorem objective_lost : ∃ old new, TaskPair "ship".toList old new ∧
    ¬ KeepsUnfed (blankRequest.captured sampleFacadeRuntime fun _ => .one) old new := by
  refine ⟨_, _, ⟨rfl, rfl, rfl⟩, fun hkeeps => ?_⟩
  have hunfed : Unfed (blankRequest.captured sampleFacadeRuntime fun _ => .one)
      TextField.objective.feeders := fun _ _ => rfl
  have hobjective : ([] : Text) = "ship".toList := hkeeps.texts .objective hunfed
  simp at hobjective

end AgentMemory
