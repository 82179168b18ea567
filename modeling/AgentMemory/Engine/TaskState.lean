import AgentMemory.Engine.Schema
import AgentMemory.Lib.Table

/-!
# Task states

`TaskState` and `TaskStateStore` of
`engines/living_memoryv2/src/living_memoryv2/task_state.py`. An update reads the row of its
task, merges the patch into it and saves the whole row again. `prepared` is all that lies
between the `SELECT` and the `INSERT OR REPLACE`; `prepared_none` and `prepared_some` say what
it makes of the row that was read.

The text of `state_json` is left out: what `json.loads` reads back of `json.dumps` is the
value itself.
-/

namespace AgentMemory

open Dicts PyText JsonText

/-- `TASK_STATE_STRING_FIELDS` (`task_state.py:22`). -/
inductive TextField where
  | objective | status | checkpointId
  deriving DecidableEq

/-- `TASK_STATE_LIST_FIELDS` (`task_state.py:12-20`). -/
inductive ListField where
  | constraints | currentPlan | openSubtasks | completedSubtasks | irreversibleDecisions
  | toolEvidenceIds | conflictMarkers
  deriving DecidableEq

namespace TextField

def all : List TextField := [.objective, .status, .checkpointId]

def name : TextField → String
  | objective => "objective"
  | status => "status"
  | checkpointId => "checkpoint_id"

/-- What `__post_init__` puts for an empty text. -/
def default : TextField → Text
  | objective => []
  | status => "active".toList
  | checkpointId => []

theorem mem_all (f : TextField) : f ∈ all := by cases f <;> decide

theorem nodup_all : all.Nodup := by decide

end TextField

namespace ListField

def all : List ListField :=
  [.constraints, .currentPlan, .openSubtasks, .completedSubtasks, .irreversibleDecisions,
    .toolEvidenceIds, .conflictMarkers]

def name : ListField → String
  | constraints => "constraints"
  | currentPlan => "current_plan"
  | openSubtasks => "open_subtasks"
  | completedSubtasks => "completed_subtasks"
  | irreversibleDecisions => "irreversible_decisions"
  | toolEvidenceIds => "tool_evidence_ids"
  | conflictMarkers => "conflict_markers"

theorem mem_all (f : ListField) : f ∈ all := by cases f <;> decide

theorem nodup_all : all.Nodup := by decide

end ListField

/-- What a value is, as far as `_string_list` asks. -/
inductive Kind (V : Type) where
  | null
  | text (s : Text)
  | items (values : List V)
  | other

/-- The Python runtime on the values `V` that callers pass; a result `none` is an exception.
Texts that no database can store (lone surrogates) count as exceptions of `str`. -/
structure Objects (F V : Type) where
  zero : F
  isZero : F → Bool
  /-- `str` of a JSON value that is no string. -/
  repr : Json F → Text
  /-- `int` of a JSON value that is no integer. -/
  intOf : Json F → Option Int
  /-- `float` of a JSON value that is no float. -/
  floatOf : Json F → Option F
  kind : V → Kind V
  truthy : V → Option Bool
  str : V → Option Text
  int : V → Option Int
  /-- `dict(value)`. -/
  dict : V → Option V
  /-- What `json.loads` reads of `json.dumps(value, sort_keys=True)`. -/
  dumps : V → Option (List (Text × Json F))
  /-- A dictionary that `json.loads` returns. -/
  ofDict : List (Text × Json F) → V
  dumps_ofDict : ∀ d, dumps (ofDict d) = some d

/-- The exceptions of an update: its own `ValueError`s, or one of the runtime. -/
inductive TaskError where
  | valueError (message : Text)
  | raised

/-- A result of the runtime. -/
def orRaise {α : Type} : Option α → Except TaskError α
  | some a => .ok a
  | none => .error .raised

/-- `setattr` in a loop over fields. -/
def setEach {ι β : Type} [DecidableEq ι] (value : ι → β → Except TaskError β) :
    List ι → (ι → β) → Except TaskError (ι → β)
  | [], attrs => .ok attrs
  | f :: fields, attrs => do
    let b ← value f (attrs f)
    setEach value fields (Function.update attrs f b)

/-- `TaskState` (`task_state.py:25-41`), with its texts and lists by field. -/
structure TaskState (F V : Type) where
  taskId : Text
  scope : V
  texts : TextField → Text
  lists : ListField → List Text
  checkpointSequence : Int
  createdAt : F
  updatedAt : F

/-- A row of `task_states` (`task_state.py:129-140`). -/
structure TaskRow (F : Type) where
  taskId : Text
  scopeJson : List (Text × Json F)
  stateJson : Json F
  checkpointSequence : Int
  createdAt : F
  updatedAt : F

abbrev TaskRows (F : Type) := Tables.Table (TaskRow F) TaskRow.taskId

/-- A call of `update`: its arguments and its readings of the clock. -/
structure UpdateCall (F V : Type) where
  taskId : Text
  scope : V
  patch : List (Text × V)
  now : Nat → F

section Model

variable {F V : Type} (o : Objects F V)

/-- `bool(value)` of a JSON value. -/
def isTruthy : Json F → Bool
  | .null => false
  | .bool b => b
  | .int n => n ≠ 0
  | .float x => !o.isZero x
  | .str s => s ≠ []
  | .arr items => !items.isEmpty
  | .obj fields => !fields.isEmpty

/-- `str(value)` of a JSON value. -/
def strJson : Json F → Text
  | .str s => s
  | j => o.repr j

/-- `str(data.get(key) or default)`. -/
def readStr (default : Text) : Option (Json F) → Text
  | none => default
  | some j => if isTruthy o j = true then strJson o j else default

/-- `_string_list` (`task_state.py:224-231`) of `data.get(key)`. -/
def readStringList : Option (Json F) → List Text
  | none | some .null => []
  | some (.arr items) => (items.map (strJson o)).filter (· ≠ [])
  | some (.str s) => if s = [] then [] else [s]
  | some j => [o.repr j]

/-- `int(data.get(key) or 0)`. -/
def readSequence : Option (Json F) → Except TaskError Int
  | none => .ok 0
  | some (.int n) => .ok n
  | some j => if isTruthy o j = true then orRaise (o.intOf j) else .ok 0

/-- `float(data.get(key) or 0.0)`. -/
def readTime : Option (Json F) → Except TaskError F
  | none => .ok o.zero
  | some (.float x) => .ok (if o.isZero x = true then o.zero else x)
  | some j => if isTruthy o j = true then orRaise (o.floatOf j) else .ok o.zero

/-- `_string_list` (`task_state.py:224-231`). -/
def stringList (value : V) : Except TaskError (List Text) :=
  match o.kind value with
  | .null => .ok []
  | .text s => .ok (if s = [] then [] else [s])
  | .items values => do
    let texts ← orRaise (values.mapM o.str)
    .ok (texts.filter (· ≠ []))
  | .other => do
    let text ← orRaise (o.str value)
    .ok [text]

/-- `str(value or "")`. -/
def strOrEmpty (value : V) : Except TaskError Text := do
  if ← orRaise (o.truthy value) then orRaise (o.str value) else .ok []

/-- `dict(value or {})`. -/
def dictOrEmpty (value : V) : Except TaskError V := do
  if ← orRaise (o.truthy value) then orRaise (o.dict value) else .ok (o.ofDict [])

namespace TaskState

/-- `__post_init__` (`task_state.py:43-56`). -/
def postInit (now : F) (s : TaskState F V) : Except TaskError (TaskState F V) :=
  let taskId := strip s.taskId
  if taskId = [] then .error (.valueError "task_id is required".toList)
  else
    let createdAt := if o.isZero s.createdAt = true then now else s.createdAt
    .ok {
      taskId := taskId
      scope := s.scope
      texts := fun f => if s.texts f = [] then f.default else s.texts f
      lists := fun f => (s.lists f).filter (· ≠ [])
      checkpointSequence := max 0 s.checkpointSequence
      createdAt := createdAt
      updatedAt := if o.isZero s.updatedAt = true then createdAt else s.updatedAt }

/-- The entries of `to_dict` (`task_state.py:58-75`), with the scope as `json.dumps` writes it. -/
def entries (s : TaskState F V) (scope : List (Text × Json F)) : List (String × Json F) :=
  let strings := fun f => Json.arr ((s.lists f).map Json.str)
  [("task_id", .str s.taskId), ("scope", .obj scope),
    ("objective", .str (s.texts .objective)), ("constraints", strings .constraints),
    ("current_plan", strings .currentPlan), ("open_subtasks", strings .openSubtasks),
    ("completed_subtasks", strings .completedSubtasks),
    ("irreversible_decisions", strings .irreversibleDecisions),
    ("tool_evidence_ids", strings .toolEvidenceIds),
    ("conflict_markers", strings .conflictMarkers), ("status", .str (s.texts .status)),
    ("checkpoint_id", .str (s.texts .checkpointId)),
    ("checkpoint_sequence", .int s.checkpointSequence), ("created_at", .float s.createdAt),
    ("updated_at", .float s.updatedAt)]

/-- `to_dict` (`task_state.py:58-75`). -/
def toDict (s : TaskState F V) (scope : List (Text × Json F)) : Json F := dict (s.entries scope)

/-- `from_dict` (`task_state.py:94-112`). -/
def fromDict (now : F) (data : Json F) : Except TaskError (TaskState F V) := do
  let scope ← match readFields (field data "scope") with
    | some scope => .ok scope
    | none => .error .raised
  let checkpointSequence ← readSequence o (field data "checkpoint_sequence")
  let createdAt ← readTime o (field data "created_at")
  let updatedAt ← readTime o (field data "updated_at")
  postInit o now {
    taskId := readStr o [] (field data "task_id")
    scope := o.ofDict scope
    texts := fun f => readStr o f.default (field data f.name)
    lists := fun f => readStringList o (field data f.name)
    checkpointSequence := checkpointSequence
    createdAt := createdAt
    updatedAt := updatedAt }

end TaskState

namespace UpdateCall

variable (c : UpdateCall F V)

/-- `patch.get(name)`, where the patch has it. -/
def get (name : String) : Option V := valueAt name.toList c.patch

/-- The state the patch is merged into (`task_state.py:156-163`). -/
def start (existing : Option (TaskState F V)) : Except TaskError (TaskState F V) :=
  match existing with
  | none => do
    let scope ← dictOrEmpty o c.scope
    TaskState.postInit o (c.now 2) {
      taskId := c.taskId
      scope := scope
      texts := TextField.default
      lists := fun _ => []
      checkpointSequence := 0
      createdAt := c.now 1
      updatedAt := c.now 1 }
  | some existing => do
    let state ← existing.postInit o (c.now 1)
    if ← orRaise (o.truthy c.scope) then
      let scope ← orRaise (o.dict c.scope)
      .ok { state with scope := scope }
    else .ok state

/-- The sequence after the update (`task_state.py:165-176`). -/
def sequence (exists_ : Bool) (state : TaskState F V) : Except TaskError Int :=
  let next := max 1 (state.checkpointSequence + 1)
  match c.get "checkpoint_sequence" with
  | none => .ok next
  | some value =>
    match o.kind value with
    | .null => .ok next
    | _ => do
      let requested ← orRaise (o.int value)
      if exists_ = true ∧ requested < state.checkpointSequence then
        .error (.valueError ("stale checkpoint for task_id=".toList ++ state.taskId ++ ": ".toList ++
          decimal requested ++ " < ".toList ++ decimal state.checkpointSequence))
      else .ok requested

/-- A text after the update (`task_state.py:178-180`). -/
def patchText (f : TextField) (old : Text) : Except TaskError Text :=
  match c.get f.name with
  | none => .ok old
  | some value => strOrEmpty o value

/-- A list after the update (`task_state.py:181-183`). -/
def patchList (f : ListField) (old : List Text) : Except TaskError (List Text) :=
  match c.get f.name with
  | none => .ok old
  | some value => stringList o value

/-- The scope after the update (`task_state.py:184-185`). -/
def patchScope (old : V) : Except TaskError V :=
  match c.get "scope" with
  | none => .ok old
  | some value => dictOrEmpty o value

/-- `if not state.checkpoint_id` (`task_state.py:186-187`). -/
def named (state : TaskState F V) : TaskState F V :=
  if state.texts .checkpointId = [] then
    { state with
      texts := Function.update state.texts .checkpointId
        ("ckpt_".toList ++ decimal state.checkpointSequence) }
  else state

/-- What `update` computes between reading and saving (`task_state.py:154-188`). -/
def merge (existing : Option (TaskState F V)) : Except TaskError (TaskState F V) := do
  let state ← c.start o existing
  let checkpointSequence ← c.sequence o existing.isSome state
  let texts ← setEach (c.patchText o) TextField.all state.texts
  let lists ← setEach (c.patchList o) ListField.all state.lists
  let scope ← c.patchScope o state.scope
  .ok { named { state with
    scope := scope
    texts := texts
    lists := lists
    checkpointSequence := checkpointSequence } with updatedAt := c.now 3 }

end UpdateCall

/-- The columns of a state. -/
def TaskState.row (s : TaskState F V) (scope : List (Text × Json F)) : TaskRow F where
  taskId := s.taskId
  scopeJson := scope
  stateJson := s.toDict scope
  checkpointSequence := s.checkpointSequence
  createdAt := s.createdAt
  updatedAt := s.updatedAt

/-- The row `_save` inserts (`task_state.py:202-221`); an integer column has 64 bits. -/
def savedRow (state : TaskState F V) : Except TaskError (TaskRow F) := do
  let scope ← orRaise (o.dumps state.scope)
  if -2 ^ 63 ≤ state.checkpointSequence ∧ state.checkpointSequence < 2 ^ 63 then
    .ok (state.row scope)
  else .error .raised

namespace TaskStateStore

/-- What `get` (`task_state.py:147-152`) makes of the row it selects. -/
def loaded (now : F) : Option (TaskRow F) → Except TaskError (Option (TaskState F V))
  | none => .ok none
  | some row => do
    let state ← TaskState.fromDict o now row.stateJson
    .ok (some state)

/-- The state an update returns and the row it saves, from the row it selected. -/
def prepared (c : UpdateCall F V) (row : Option (TaskRow F)) :
    Except TaskError (TaskState F V × TaskRow F) := do
  let existing ← loaded o (c.now 0) row
  let state ← c.merge o existing
  let saved ← savedRow o state
  .ok (state, saved)

/-- `update` (`task_state.py:154-190`). -/
def update (c : UpdateCall F V) (rows : TaskRows F) :
    Except TaskError (TaskState F V) × TaskRows F :=
  match prepared o c (rows.find? c.taskId) with
  | .ok (state, saved) => (.ok state, rows.upsert saved)
  | .error e => (.error e, rows)

end TaskStateStore

end Model

/-! ## What an update saves -/

theorem bind_eq_ok {α β : Type} {x : Except TaskError α} {f : α → Except TaskError β} {b : β} :
    (x >>= f) = .ok b ↔ ∃ a, x = .ok a ∧ f a = .ok b := by
  cases x with
  | ok a => simp [bind, Except.bind]
  | error e => simp [bind, Except.bind]

@[simp] theorem orRaise_eq_ok {α : Type} {x : Option α} {a : α} :
    orRaise x = .ok a ↔ x = some a := by
  cases x <;> simp [orRaise]

/-- Every field is set from its own value alone. -/
theorem setEach_eq_ok {ι β : Type} [DecidableEq ι] {value : ι → β → Except TaskError β}
    {fields : List ι} {attrs attrs' : ι → β} (hnodup : fields.Nodup)
    (h : setEach value fields attrs = .ok attrs') :
    (∀ f ∈ fields, value f (attrs f) = .ok (attrs' f)) ∧ ∀ f, f ∉ fields → attrs' f = attrs f := by
  induction fields generalizing attrs with
  | nil =>
    rw [setEach, Except.ok.injEq] at h
    simp [h]
  | cons f fields ih =>
    rw [setEach, bind_eq_ok] at h
    obtain ⟨b, hb, hrest⟩ := h
    rw [List.nodup_cons] at hnodup
    obtain ⟨hset, hother⟩ := ih hnodup.2 hrest
    constructor
    · rintro g (_ | ⟨_, hg⟩)
      · rw [hother f hnodup.1, Function.update_self, hb]
      · have hne : g ≠ f := fun heq => hnodup.1 (heq ▸ hg)
        have hvalue := hset g hg
        rwa [Function.update_of_ne hne] at hvalue
    · intro g hg
      rw [List.mem_cons, not_or] at hg
      rw [hother g hg.2, Function.update_of_ne hg.1]

/-- What `__post_init__` makes of a text. -/
def TextField.orDefault (f : TextField) (text : Text) : Text := if text = [] then f.default else text

@[simp] theorem TextField.orDefault_orDefault (f : TextField) (text : Text) :
    f.orDefault (f.orDefault text) = f.orDefault text := by
  unfold orDefault
  split <;> simp_all

@[simp] theorem TextField.orDefault_objective (text : Text) :
    TextField.objective.orDefault text = text := by
  by_cases h : text = []
  · rw [orDefault, if_pos h, h]
    rfl
  · rw [orDefault, if_neg h]

section Facts

variable {F V : Type} {o : Objects F V}

namespace TaskState

theorem postInit_eq_ok {now : F} {s s' : TaskState F V} (h : s.postInit o now = .ok s') :
    strip s.taskId ≠ [] ∧ s'.taskId = strip s.taskId ∧ s'.scope = s.scope ∧
      (∀ f, s'.texts f = f.orDefault (s.texts f)) ∧
      (∀ f, s'.lists f = (s.lists f).filter (· ≠ [])) ∧
      s'.checkpointSequence = max 0 s.checkpointSequence := by
  simp only [postInit] at h
  split at h
  · cases h
  · next hne =>
    obtain rfl := Except.ok.inj h
    exact ⟨hne, rfl, rfl, fun _ => rfl, fun _ => rfl, rfl⟩

theorem postInit_isOk {now : F} {s : TaskState F V} (h : strip s.taskId ≠ []) :
    ∃ s', s.postInit o now = .ok s' := by
  simp [postInit, h]

/-- What a saved state has. -/
structure Normal (s : TaskState F V) : Prop where
  taskId_ne : s.taskId ≠ []
  stripped : strip s.taskId = s.taskId
  named : s.texts .checkpointId ≠ []

variable {s : TaskState F V} {scope : List (Text × Json F)}

theorem field_toDict (key : String) :
    field (s.toDict scope) key = shown key (s.entries scope) := field_dict (by simp [entries]) key

theorem field_list (f : ListField) :
    field (s.toDict scope) f.name = some (.arr ((s.lists f).map Json.str)) := by
  rw [field_toDict]
  cases f <;> simp [ListField.name, shown, entries]

theorem field_text (f : TextField) :
    field (s.toDict scope) f.name = some (.str (s.texts f)) := by
  rw [field_toDict]
  cases f <;> simp [TextField.name, shown, entries]

theorem readStringList_lists (f : ListField) :
    readStringList o (field (s.toDict scope) f.name) = (s.lists f).filter (· ≠ []) := by
  rw [field_list, readStringList, List.map_map]
  have hid : (s.lists f).map (strJson o ∘ Json.str) = s.lists f := by
    simp [Function.comp_def, strJson]
  rw [hid]

theorem readStr_str (default text : Text) :
    readStr o default (some (.str text)) = if text = [] then default else text := by
  by_cases h : text = [] <;> simp [readStr, isTruthy, strJson, h]

/-- `get` reads back what was saved, with its defaults and no negative sequence. -/
theorem Normal.fromDict_toDict (h : s.Normal) (now : F) :
    ∃ loaded : TaskState F V, fromDict o now (s.toDict scope) = .ok loaded ∧
      loaded.taskId = s.taskId ∧ loaded.scope = o.ofDict scope ∧
      (∀ f, loaded.texts f = f.orDefault (s.texts f)) ∧
      (∀ f, loaded.lists f = (s.lists f).filter (· ≠ [])) ∧
      loaded.checkpointSequence = max 0 s.checkpointSequence := by
  have hid : readStr o [] (field (s.toDict scope) "task_id") = s.taskId := by
    rw [field_toDict]
    simp [shown, entries, readStr_str, h.taskId_ne]
  have hscope : readFields (field (s.toDict scope) "scope") = some scope := by
    rw [field_toDict]
    simp [shown, entries, readFields]
  have hseq : readSequence o (field (s.toDict scope) "checkpoint_sequence") =
      .ok s.checkpointSequence := by
    rw [field_toDict]
    simp [shown, entries, readSequence]
  obtain ⟨createdAt, hcreated⟩ :
      ∃ x, readTime o (field (s.toDict scope) "created_at") = .ok x := by
    rw [field_toDict]
    simp [shown, entries, readTime]
  obtain ⟨updatedAt, hupdated⟩ :
      ∃ x, readTime o (field (s.toDict scope) "updated_at") = .ok x := by
    rw [field_toDict]
    simp [shown, entries, readTime]
  let data : TaskState F V := {
    taskId := s.taskId
    scope := o.ofDict scope
    texts := fun f => f.orDefault (s.texts f)
    lists := fun f => (s.lists f).filter (· ≠ [])
    checkpointSequence := s.checkpointSequence
    createdAt := createdAt
    updatedAt := updatedAt }
  have hdata : fromDict o now (s.toDict scope) = postInit o now data := by
    have htexts : (fun f : TextField => readStr o f.default (field (s.toDict scope) f.name)) =
        fun f => f.orDefault (s.texts f) := by
      funext f
      rw [field_text, readStr_str, TextField.orDefault]
    have hlists : (fun f : ListField => readStringList o (field (s.toDict scope) f.name)) =
        fun f => (s.lists f).filter (· ≠ []) := funext readStringList_lists
    simp only [fromDict, hscope, hseq, hcreated, hupdated, hid, htexts, hlists]
    rfl
  have hne : strip data.taskId ≠ [] := by
    rw [h.stripped]
    exact h.taskId_ne
  obtain ⟨loaded, hloaded⟩ := @postInit_isOk _ _ o now _ hne
  obtain ⟨-, htask, hscope', htexts, hlists, hsequence⟩ := postInit_eq_ok hloaded
  refine ⟨loaded, hdata.trans hloaded, htask.trans h.stripped, hscope', fun f => ?_, fun f => ?_,
    hsequence⟩
  · rw [htexts]
    exact f.orDefault_orDefault _
  · rw [hlists]
    simp [data]

end TaskState

namespace UpdateCall

variable {c : UpdateCall F V}

/-- A new state begins with empty lists. -/
theorem start_none {s : TaskState F V} (h : c.start o none = .ok s) :
    strip c.taskId ≠ [] ∧ s.taskId = strip c.taskId ∧ ∀ f, s.lists f = [] := by
  simp only [start, bind_eq_ok] at h
  obtain ⟨scope, -, h⟩ := h
  obtain ⟨hne, htask, -, -, hlists, -⟩ := TaskState.postInit_eq_ok h
  exact ⟨hne, htask, fun f => by simp [hlists]⟩

theorem start_some {existing s : TaskState F V} (h : c.start o (some existing) = .ok s) :
    strip existing.taskId ≠ [] ∧ s.taskId = strip existing.taskId ∧
      (∀ f, s.texts f = f.orDefault (existing.texts f)) ∧
      (∀ f, s.lists f = (existing.lists f).filter (· ≠ [])) ∧
      s.checkpointSequence = max 0 existing.checkpointSequence ∧
      (o.truthy c.scope = some false → s.scope = existing.scope) := by
  simp only [start, bind_eq_ok, orRaise_eq_ok] at h
  obtain ⟨state, hstate, truth, htruth, h⟩ := h
  obtain ⟨hne, htask, hscope, htexts, hlists, hseq⟩ := TaskState.postInit_eq_ok hstate
  cases truth with
  | false =>
    obtain rfl := Except.ok.inj h
    exact ⟨hne, htask, htexts, hlists, hseq, fun _ => hscope⟩
  | true =>
    obtain ⟨scope, -, h⟩ := bind_eq_ok.mp h
    obtain rfl := Except.ok.inj h
    exact ⟨hne, htask, htexts, hlists, hseq, fun hfalse => by simp [htruth] at hfalse⟩

/-- An accepted sequence is not below that of an existing row. -/
theorem le_sequence {s : TaskState F V} {seq : Int} (h : c.sequence o true s = .ok seq) :
    s.checkpointSequence ≤ seq := by
  have hnext : s.checkpointSequence ≤ max 1 (s.checkpointSequence + 1) := by omega
  simp only [sequence] at h
  split at h
  · rwa [← Except.ok.inj h]
  · split at h
    · rwa [← Except.ok.inj h]
    · obtain ⟨requested, -, h⟩ := bind_eq_ok.mp h
      split at h
      · cases h
      · next hstale =>
        obtain rfl := Except.ok.inj h
        simpa using hstale

theorem named_texts (s : TaskState F V) (f : TextField) (h : f ≠ .checkpointId ∨ s.texts f ≠ []) :
    (named s).texts f = s.texts f := by
  unfold named
  split
  · next hempty =>
    have hf : f ≠ .checkpointId := by
      rcases h with h | h
      · exact h
      · rintro rfl
        exact h hempty
    exact Function.update_of_ne hf _ _
  · rfl

theorem named_checkpointId_ne (s : TaskState F V) : (named s).texts .checkpointId ≠ [] := by
  unfold named
  split
  · dsimp only
    rw [Function.update_self]
    exact List.append_ne_nil_of_left_ne_nil (by decide) _
  · next h => exact h

theorem named_eq (s : TaskState F V) :
    (named s).taskId = s.taskId ∧ (named s).scope = s.scope ∧ (named s).lists = s.lists ∧
      (named s).checkpointSequence = s.checkpointSequence := by
  unfold named
  split <;> exact ⟨rfl, rfl, rfl, rfl⟩

/-- What a merge makes of the state it starts from. -/
structure Merged (o : Objects F V) (c : UpdateCall F V) (start s : TaskState F V) : Prop where
  taskId : s.taskId = start.taskId
  named : s.texts .checkpointId ≠ []
  texts : ∀ f text, c.patchText o f (start.texts f) = .ok text → text ≠ [] ∨ f ≠ .checkpointId →
    s.texts f = text
  lists : ∀ f, c.patchList o f (start.lists f) = .ok (s.lists f)
  scope : c.patchScope o start.scope = .ok s.scope

theorem merge_eq_ok {existing : Option (TaskState F V)} {s : TaskState F V}
    (h : c.merge o existing = .ok s) :
    ∃ first, c.start o existing = .ok first ∧ Merged o c first s ∧
      c.sequence o existing.isSome first = .ok s.checkpointSequence := by
  simp only [merge, bind_eq_ok] at h
  obtain ⟨first, hfirst, seq, hseq, texts, htexts, lists, hlists, scope, hscope, h⟩ := h
  obtain rfl := Except.ok.inj h
  obtain ⟨hpatched, -⟩ := setEach_eq_ok TextField.nodup_all htexts
  obtain ⟨hpatchedLists, -⟩ := setEach_eq_ok ListField.nodup_all hlists
  let merged : TaskState F V := { first with
    scope := scope
    texts := texts
    lists := lists
    checkpointSequence := seq }
  obtain ⟨htask, hnamedScope, hnamedLists, hnamedSeq⟩ := named_eq merged
  refine ⟨first, hfirst, ?_, ?_⟩
  · constructor
    · exact htask
    · exact named_checkpointId_ne merged
    · intro f text htext hne
      rw [hpatched f (TextField.mem_all f), Except.ok.injEq] at htext
      have hor : f ≠ .checkpointId ∨ merged.texts f ≠ [] := by
        rcases hne with hne | hne
        · exact Or.inr fun hempty => hne (htext.symm.trans hempty)
        · exact Or.inl hne
      exact (named_texts merged f hor).trans htext
    · intro f
      rw [hpatchedLists f (ListField.mem_all f)]
      exact congrArg Except.ok (congrFun hnamedLists f).symm
    · rw [hscope]
      exact congrArg Except.ok hnamedScope.symm
  · rw [hseq]
    exact congrArg Except.ok hnamedSeq.symm

end UpdateCall

namespace TaskStateStore

variable {c : UpdateCall F V} {state : TaskState F V} {saved : TaskRow F}

theorem prepared_eq_ok {row : Option (TaskRow F)} (h : prepared o c row = .ok (state, saved)) :
    ∃ existing scope, loaded o (c.now 0) row = .ok existing ∧ c.merge o existing = .ok state ∧
      o.dumps state.scope = some scope ∧ saved = state.row scope := by
  simp only [prepared, bind_eq_ok] at h
  obtain ⟨existing, hexisting, state', hmerge, saved', hsaved, h⟩ := h
  obtain ⟨rfl, rfl⟩ := Prod.mk.inj (Except.ok.inj h)
  simp only [savedRow, bind_eq_ok, orRaise_eq_ok] at hsaved
  obtain ⟨scope, hscope, hsaved⟩ := hsaved
  split at hsaved
  · exact ⟨existing, scope, hexisting, hmerge, hscope, (Except.ok.inj hsaved).symm⟩
  · cases hsaved

/-- An update that finds no row saves a new state. -/
theorem prepared_none (h : prepared o c none = .ok (state, saved)) :
    state.Normal ∧ state.taskId = strip c.taskId ∧ saved.taskId = state.taskId := by
  obtain ⟨existing, scope, hexisting, hmerge, -, rfl⟩ := prepared_eq_ok h
  obtain rfl := Except.ok.inj hexisting
  obtain ⟨first, hfirst, hmerged, -⟩ := UpdateCall.merge_eq_ok hmerge
  obtain ⟨hne, htask, -⟩ := UpdateCall.start_none hfirst
  have htaskId : state.taskId = strip c.taskId := hmerged.taskId.trans htask
  refine ⟨⟨htaskId ▸ hne, ?_, hmerged.named⟩, htaskId, rfl⟩
  rw [htaskId, strip_strip]

/-- What an update keeps of the row it finds. -/
structure Keeps (o : Objects F V) (c : UpdateCall F V) (old : TaskState F V)
    (oldScope : List (Text × Json F)) (s : TaskState F V) : Prop where
  normal : s.Normal
  taskId : s.taskId = old.taskId
  sequence : old.checkpointSequence ≤ s.checkpointSequence
  texts : ∀ f : TextField, c.get f.name = none → f.orDefault (s.texts f) = f.orDefault (old.texts f)
  lists : ∀ f, c.patchList o f ((old.lists f).filter (· ≠ [])) = .ok (s.lists f)
  scope : c.get "scope" = none → o.truthy c.scope = some false → o.dumps s.scope = some oldScope

/-- An update that finds a row saves a state that keeps it. -/
theorem prepared_some {old : TaskState F V} {oldScope : List (Text × Json F)} (hold : old.Normal)
    (h : prepared o c (some (old.row oldScope)) = .ok (state, saved)) :
    Keeps o c old oldScope state ∧ ∃ scope, o.dumps state.scope = some scope ∧
      saved = state.row scope := by
  obtain ⟨existing, scope, hexisting, hmerge, hscope, rfl⟩ := prepared_eq_ok h
  obtain ⟨read, hread, hreadTask, hreadScope, hreadTexts, hreadLists, hreadSeq⟩ :=
    @TaskState.Normal.fromDict_toDict _ _ o _ oldScope hold (c.now 0)
  obtain rfl : some read = existing := by
    rw [loaded, TaskState.row, hread] at hexisting
    exact Except.ok.inj hexisting
  obtain ⟨first, hfirst, hmerged, hseq⟩ := UpdateCall.merge_eq_ok hmerge
  obtain ⟨-, htask, htexts, hlists, hfirstSeq, hfirstScope⟩ := UpdateCall.start_some hfirst
  have htaskId : state.taskId = old.taskId := by
    rw [hmerged.taskId, htask, hreadTask, hold.stripped]
  have hfirstTexts : ∀ f, first.texts f = f.orDefault (old.texts f) := fun f => by
    rw [htexts, hreadTexts, TextField.orDefault_orDefault]
  have hfirstLists : ∀ f, first.lists f = (old.lists f).filter (· ≠ []) := fun f => by
    rw [hlists, hreadLists, List.filter_filter]
    simp
  refine ⟨?_, scope, hscope, rfl⟩
  constructor
  · refine ⟨htaskId ▸ hold.taskId_ne, ?_, hmerged.named⟩
    rw [htaskId, hold.stripped]
  · exact htaskId
  · have hle := UpdateCall.le_sequence hseq
    omega
  · intro f hf
    have hnamed : first.texts f ≠ [] ∨ f ≠ .checkpointId := by
      by_cases hid : f = .checkpointId
      · subst hid
        left
        rw [hfirstTexts, TextField.orDefault, if_neg hold.named]
        exact hold.named
      · exact Or.inr hid
    have hpatch : c.patchText o f (first.texts f) = .ok (first.texts f) := by
      rw [UpdateCall.patchText, hf]
    rw [hmerged.texts f _ hpatch hnamed, hfirstTexts, TextField.orDefault_orDefault]
  · intro f
    rw [← hfirstLists f, hmerged.lists f]
  · intro hnone hfalse
    have hsame := hmerged.scope
    rw [UpdateCall.patchScope, hnone, Except.ok.injEq] at hsame
    rw [← hsame, hfirstScope hfalse, hreadScope, o.dumps_ofDict]

end TaskStateStore

end Facts

end AgentMemory
