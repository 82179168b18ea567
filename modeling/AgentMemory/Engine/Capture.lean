import AgentMemory.Engine.Inspect
import AgentMemory.Engine.Proposals
import AgentMemory.Engine.TaskState

/-!
# Capturing through the facade

`_living_memory_capture` of `engines/living_memoryv2/src/living_memoryv2/mcp_server.py` over
the stores it writes: the vault, the proposals and the task states. A request is a JSON
object. Its items are checked and written one after the other, then the lessons of its tool
trace, its relations and, last, the checkpoint of its task.

What a request captures does not depend on the stores, so the ids of its memories are
functions of the request. The tool curriculum lives in the memory of the process; `lessons`
is what `record_tool_trace` makes of it. Ids of proposals come from `uuid4`.
-/

namespace AgentMemory

open Dicts PyText JsonText Tables Commits

/-- The runtime with `dict` of a list of pairs, and with `int` of a text and of a float. -/
structure FacadeRuntime (F : Type) extends GraphRuntime F where
  dictOfItems : List (Json F) → Option (List (Text × Json F))
  parseInt : Text → Option Int
  truncate : F → Option Int

/-- The roles of captured items. -/
inductive CaptureRole where
  | note | decision | lesson | spec | plan | progress | checkpoint | artifact | risk | openQuestion
  deriving DecidableEq

/-- An entry of `capture_specs` or of `_agentic_capture_specs`. -/
structure CaptureSpec where
  keys : List String
  role : CaptureRole
  memoryType : String
  tags : List String
  importance : String
  agentic : Bool

/-- An item of a request. -/
structure CaptureItem (F : Type) where
  spec : CaptureSpec
  value : Json F

/-- The stores a capture writes. -/
structure Facade (F : Type) where
  vault : VaultState F
  proposals : ProposalRows F
  tasks : TaskRows F

def CaptureRole.name : CaptureRole → String
  | note => "note"
  | decision => "decision"
  | lesson => "lesson"
  | spec => "spec"
  | plan => "plan"
  | progress => "progress"
  | checkpoint => "checkpoint"
  | artifact => "artifact"
  | risk => "risk"
  | openQuestion => "open_question"

/-- `capture_specs` (`mcp_server.py:637-641`). -/
def captureSpecs : List CaptureSpec :=
  [⟨["notes"], .note, "episodic", ["annotation", "note"], "0.58", false⟩,
    ⟨["decisions"], .decision, "decision", ["annotation", "decision"], "0.74", false⟩,
    ⟨["lessons"], .lesson, "procedural", ["annotation", "lesson"], "0.70", false⟩]

/-- `_agentic_capture_specs` (`mcp_server.py:987-996`). -/
def agenticCaptureSpecs : List CaptureSpec :=
  [⟨["spec", "specs"], .spec, "spec", ["agentic", "spec"], "0.84", true⟩,
    ⟨["plan", "plans"], .plan, "plan", ["agentic", "plan"], "0.80", true⟩,
    ⟨["progress"], .progress, "progress", ["agentic", "progress"], "0.66", true⟩,
    ⟨["checkpoint", "checkpoints"], .checkpoint, "checkpoint", ["agentic", "checkpoint"], "0.86", true⟩,
    ⟨["artifact", "artifacts"], .artifact, "artifact", ["agentic", "artifact"], "0.70", true⟩,
    ⟨["risk", "risks"], .risk, "risk", ["agentic", "risk"], "0.72", true⟩,
    ⟨["open_question", "open_questions"], .openQuestion, "open_question", ["agentic", "open_question"],
      "0.62", true⟩]

/-- Lifecycles of items that are not kept (`mcp_server.py:1012`). -/
def ephemeralLifecycles : List Text := ["ephemeral".toList, "scratchpad".toList, "transient".toList]

/-- Keys that are no content of their own (`mcp_server.py:1016-1027`). -/
def excludedKeys : List Text :=
  ["tags".toList, "metadata".toList, "importance".toList, "confidence".toList, "relations".toList,
    "provenance".toList, "sensitivity".toList, "memory_type".toList, "modalities".toList,
    "durable".toList]

section Values

variable {F : Type} (rt : FacadeRuntime F)

/-- `bool(value)`. -/
def truthy : Json F → Bool
  | .null => false
  | .bool b => b
  | .int n => n ≠ 0
  | .float x => !rt.isZero x
  | .str s => s ≠ []
  | .arr items => !items.isEmpty
  | .obj fields => !fields.isEmpty

/-- `value or default`. -/
def orValue (value : Option (Json F)) (default : Json F) : Json F :=
  match value with
  | some j => if truthy rt j = true then j else default
  | none => default

/-- `str(value or default)`. -/
def strOr (value : Option (Json F)) (default : Text) : Text :=
  strOf rt.toGraphRuntime (orValue rt value (.str default))

/-- `dict(value)`. -/
def dictOf : Json F → Option (List (Text × Json F))
  | .obj d => some d
  | .arr items => rt.dictOfItems items
  | .str s => rt.dictOfItems (s.map fun c => .str [c])
  | _ => none

/-- `dict(value or default)`. -/
def dictOr (value : Option (Json F)) (default : List (Text × Json F)) : Option (List (Text × Json F)) :=
  dictOf rt (orValue rt value (.obj default))

/-- `list(value)`. -/
def listOf : Json F → Option (List (Json F))
  | .arr items => some items
  | .obj d => some (d.map fun kv => .str kv.1)
  | .str s => some (s.map fun c => .str [c])
  | _ => none

/-- `list(value or [])`. -/
def listOr (value : Option (Json F)) : Option (List (Json F)) := listOf (orValue rt value (.arr []))

/-- `_as_list` (`mcp_server.py:1806-1811`). -/
def asList : Option (Json F) → List (Json F)
  | none | some .null => []
  | some (.arr items) => items
  | some j => [j]

/-- `int(value)`. -/
def intOf : Json F → Option Int
  | .bool b => some (if b = true then 1 else 0)
  | .int n => some n
  | .float x => rt.truncate x
  | .str s => rt.parseInt s
  | _ => none

/-- The runtime on JSON values as callers of the task states pass them. -/
def FacadeRuntime.objects : Objects F (Json F) where
  zero := rt.ofInt 0
  isZero := rt.isZero
  repr := strOf rt.toGraphRuntime
  intOf := intOf rt
  floatOf := floatOf rt.toGraphRuntime
  kind
    | .null => .null
    | .str s => .text s
    | .arr items => .items items
    | _ => .other
  truthy j := some (truthy rt j)
  str j := some (strOf rt.toGraphRuntime j)
  int := intOf rt
  dict j := (dictOf rt j).map .obj
  dumps
    | .obj d => some d
    | _ => none
  ofDict := .obj
  dumps_ofDict _ := rfl

/-- `_one_line` (`mcp_server.py:1821-1825`). -/
def oneLine (text : Text) (maxChars : Nat) : Text :=
  let compact := [' '].intercalate (split text)
  if compact.length ≤ maxChars then compact
  else (compact.take (maxChars - 3)).rdropWhile PyText.isSpace ++ "...".toList

end Values

/-! ## One item -/

section Items

variable {F : Type} (rt : FacadeRuntime F)

/-- The request, read as far as `mcp_server.py:617-631`. -/
structure CaptureRequest (F : Type) where
  args : Json F
  scope : List (Text × Json F)
  tags : List (Json F)
  boxId : Json F
  propose : Bool
  taskId : Text
  /-- `task_state_update` or `task_state`. -/
  patch : Option (List (Text × Json F))

/-- `data.get("content", data.get("text", data.get("note", default)))`. -/
def contentOf (item default : Json F) : Json F :=
  (field item "content").getD ((field item "text").getD ((field item "note").getD default))

/-- `content is None or content == ""`. -/
def isBlank : Json F → Bool
  | .null | .str [] => true
  | _ => false

/-- `content == "" or content == {} or content == []`. -/
def isEmptyContent : Json F → Bool
  | .str [] | .obj [] | .arr [] => true
  | _ => false

/-- The end of `_prepare_agentic_capture_item` (`mcp_server.py:1036-1043`). -/
def prepareTags (role : CaptureRole) (taskId : Text) (prepared : List (Text × Json F)) :
    Option (Json F) :=
  (dictOr rt (valueAt "metadata".toList prepared) []).map fun metadata =>
    let metadata := insert "capture".toList (.str "living_memory_capture_v2".toList) metadata
    let metadata := insert "capture_role".toList (.str role.name.toList) metadata
    let metadata :=
      if taskId = [] then metadata else insert "task_id".toList (.str taskId) metadata
    let tags := (asList (valueAt "tags".toList prepared)).map (strOf rt.toGraphRuntime)
    let tags := sortedSet (tags ++ ["agentic".toList, role.name.toList])
    let prepared := insert "metadata".toList (.obj metadata) prepared
    let prepared := insert "memory_type".toList (.str role.name.toList) prepared
    .obj (insert "tags".toList (.arr (tags.map .str)) prepared)

/-- The item of a value that is no dictionary, or an empty one (`mcp_server.py:1033-1034`). -/
def plainItem (role : CaptureRole) (item : Json F) : List (Text × Json F) :=
  let text := Json.str (strOf rt.toGraphRuntime item)
  [("content".toList, if role = .openQuestion then dict [("question", text)] else text)]

/-- The lifecycle says that the item is not kept (`mcp_server.py:1011-1013`). -/
def isEphemeral (item : Json F) : Bool :=
  let lifecycle := strOf rt.toGraphRuntime
    (orValue rt (field item "status") (orValue rt (field item "lifecycle") (.str [])))
  rt.lower (strip lifecycle) ∈ ephemeralLifecycles && !((field item "durable").any (truthy rt))

/-- `_prepare_agentic_capture_item` (`mcp_server.py:1004-1043`): it raises, gives nothing to
capture, or gives the item. -/
def prepareAgenticItem (role : CaptureRole) (taskId : Text) (item : Json F) :
    Option (Option (Json F)) :=
  match item with
  | .null => some none
  | .obj (kv :: d) =>
    if isEphemeral rt item = true then some none
    else
      let content :=
        match contentOf item .null with
        | .null => .obj ((kv :: d).filter fun kv => kv.1 ∉ excludedKeys)
        | content => content
      if isEmptyContent content = true then some none
      else (prepareTags rt role taskId (insert "content".toList content (kv :: d))).map some
  | .str s =>
    if strip s = [] then some none
    else (prepareTags rt role taskId (plainItem rt role item)).map some
  | item => (prepareTags rt role taskId (plainItem rt role item)).map some

/-- `ModalityRef("text", content=str(content))` or `ModalityRef("structured", content=dict(content))`. -/
def contentModality (content : Json F) : Option (ModalityRef F) :=
  match content with
  | .obj d => ModalityRef.postInit rt.toPython
      ⟨"structured".toList, .obj d, none, some "application/json".toList, none, none, []⟩
  | content => ModalityRef.postInit rt.toPython
      ⟨"text".toList, .str (strOf rt.toGraphRuntime content), none, some "text/plain".toList, none, none, []⟩

/-- The modalities of an item (`mcp_server.py:1239-1253`). -/
def itemModalities (raw : List (Json F)) (content : Json F) : Option (List (ModalityRef F)) := do
  let modalities ← raw.mapM fun item =>
    (dictOf rt item).bind fun d => ModalityRef.fromDict rt.toPython (.obj d)
  if (!raw.isEmpty && isBlank content) = true then some modalities
  else (contentModality rt content).map (· :: modalities)

/-- The envelope that `_capture_memory_item` makes of an item (`mcp_server.py:1216-1253`): it
raises, there is nothing to capture, or it is this envelope. -/
def itemEnvelope (now : F) (req : CaptureRequest F) (spec : CaptureSpec) (item : Json F) :
    Option (Option (MemoryEnvelope F)) := do
  let raw ← listOr rt (field item "modalities")
  let content := contentOf item item
  if (isBlank content && raw.isEmpty) = true then some none
  else
    let itemTags ← listOr rt (field item "tags")
    let provenance ← dictOr rt (field item "provenance")
      [("source".toList, .str "living_memory_facade".toList)]
    let metadata ← dictOr rt (field item "metadata") []
    let scope ← dictOr rt (field item "scope") req.scope
    let entities ← listOr rt (field item "entities")
    let relations ← listOr rt (field item "relations")
    let importance ← floatOf rt.toGraphRuntime
      ((field item "importance").getD (.float (rt.ofText spec.importance.toList)))
    let confidence ← floatOf rt.toGraphRuntime
      ((field item "confidence").getD (.float (rt.ofText "1.0".toList)))
    let modalities ← itemModalities rt raw content
    let str := strOf rt.toGraphRuntime
    let m ← MemoryEnvelope.postInit rt.toPython {
      scope := scope
      memoryType := strOr rt (field item "memory_type") spec.memoryType.toList
      modalities := modalities
      id := []
      createdAt := .float now
      updatedAt := none
      tags := (req.tags ++ spec.tags.map (fun tag : String => Json.str tag.toList) ++ itemTags).map str
      entities := entities.map str
      relations := relations
      importance := importance
      confidence := confidence
      sensitivity := strOr rt (field item "sensitivity") "normal".toList
      provenance := provenance
      metadata := if valueAt "capture".toList metadata = none then
        insert "capture".toList (.str "living_memory_facade".toList) metadata else metadata
      contentHash := [] }
    some (some m)

namespace CaptureItem

variable (req : CaptureRequest F) (item : CaptureItem F)

/-- The item as it is captured; an agentic one is prepared first. -/
def prepared : Option (Option (Json F)) :=
  if item.spec.agentic = true then prepareAgenticItem rt item.spec.role req.taskId item.value
  else some (some item.value)

/-- The envelope of the item: it raises, there is nothing to capture, or it is this one. -/
def envelope (now : F) : Option (Option (MemoryEnvelope F)) :=
  match item.prepared rt req with
  | none => none
  | some none => some none
  | some (some value) => itemEnvelope rt now req item.spec value

end CaptureItem

namespace CaptureRequest

variable (req : CaptureRequest F)

/-- The request of an object (`mcp_server.py:617-631`). -/
def read (args : Json F) : Option (CaptureRequest F) := do
  let scope ← dictOr rt (field args "scope") []
  let tags ← listOr rt (field args "tags")
  let writeMode := rt.lower (strip (strOr rt (field args "write_mode") "remember".toList))
  let taskId := strip (strOr rt (field args "task_id") [])
  let given := match field args "task_state_update" with
    | none | some .null => (field args "task_state").getD .null
    | some given => given
  let patch ← match given with
    | .null => some none
    | .obj d => some (some d)
    | _ => none
  if (writeMode = "remember".toList ∨ writeMode = "propose".toList) ∧ (patch.isSome → taskId ≠ []) then
    some {
      args := args
      scope := scope
      tags := tags
      boxId := (field args "box_id").getD .null
      propose := writeMode = "propose".toList
      taskId := taskId
      patch := patch }
  else none

/-- The items under these keys, in order. -/
def itemsOf (specs : List CaptureSpec) : List (CaptureItem F) :=
  specs.flatMap fun spec =>
    (spec.keys.flatMap fun key => asList (field req.args key)).map fun value => ⟨spec, value⟩

/-- All items of the request, in the order they are captured. -/
def items : List (CaptureItem F) := req.itemsOf captureSpecs ++ req.itemsOf agenticCaptureSpecs

/-- `agentic_seen`. -/
def agenticSeen : Bool := !(req.itemsOf agenticCaptureSpecs).isEmpty

/-- `captured` and `captured_by_role`: the roles and the ids of the memories, where no item
raises. -/
def captured (now : Nat → F) : List (CaptureRole × Text) :=
  if req.propose = true then []
  else req.items.zipIdx.filterMap fun (item, i) =>
    ((item.envelope rt req (now i)).bind id).map fun m => (item.spec.role, m.id)

end CaptureRequest

/-- `captured_by_role.get(role) or []`. -/
def idsOf (captured : List (CaptureRole × Text)) (role : CaptureRole) : List Text :=
  (captured.filter fun entry => entry.1 = role).map Prod.snd

/-- The roles of `captured_by_role` in their order. -/
def rolesOf (captured : List (CaptureRole × Text)) : List CaptureRole := (captured.map Prod.fst).eraseDups

/-! ## Relations -/

/-- `captured_memory_ids[index]`, where a negative index counts from the end. -/
def idAt (ids : List Text) (index : Int) : Option Text :=
  let index := if index < 0 then (ids.length : Int) + index else index
  if 0 ≤ index then ids[index.toNat]? else none

/-- `_memory_id_from_ref` (`mcp_server.py:1325-1337`). -/
def memoryIdFromRef (ref : Option (Json F)) (ids : List Text) : Option Text :=
  match ref with
  | none | some .null => none
  | some (.str text) =>
    if text = "last".toList then ids.getLast? else (rt.parseInt text).bind (idAt ids)
  | some ref => (intOf rt ref).bind (idAt ids)

/-- The memory of a relation (`mcp_server.py:1284-1288`); none is an error. -/
def relationMemory (item : Json F) (ids : List Text) : Option Text :=
  let found := orValue rt (field item "memory_id")
    (textValue (memoryIdFromRef rt (field item "memory_ref") ids))
  match found with
  | .null => ids.head?
  | found => if truthy rt found = true then some (strOf rt.toGraphRuntime found) else none

/-- `item.get(key, item.get(alias))`, which has to be there. -/
def relationText (item : Json F) (key alias_ : String) : Option Text :=
  let value := (field item key).getD ((field item alias_).getD .null)
  if truthy rt value = true then some (strOf rt.toGraphRuntime value) else none

/-- The arguments of `add_relation` (`mcp_server.py:1289-1304`). -/
def facadeRelation (now : F) (ids : List Text) (item : Json F) : Option (AddRelation F) := do
  let memoryId ← relationMemory rt item ids
  let subject ← relationText rt item "subject" "from"
  let predicate ← relationText rt item "predicate" "type"
  let object ← relationText rt item "object" "to"
  let confidence ← floatOf rt.toGraphRuntime ((field item "confidence").getD (.float (rt.ofText "1.0".toList)))
  some {
    subject := subject
    predicate := predicate
    object := object
    memoryId := memoryId
    graphName := (field item "graph_name").getD .null
    validFrom := (field item "valid_from").getD .null
    validTo := (field item "valid_to").getD .null
    confidence := .float confidence
    source := orValue rt (field item "source") (.str "living_memory_facade".toList)
    createdAt := .float now }

/-- The arguments of `add_assertion` (`mcp_server.py:1310-1321`). -/
def facadeAssertion (now : F) (scope : List (Text × Json F)) (a : AddRelation F) (confidence : F) :
    AddAssertion F where
  subject := a.subject
  predicate := a.predicate
  object := a.object
  sourceMemoryId := a.memoryId
  scope := scope
  objectKind := "entity".toList
  graphName := "knowledge".toList
  factId := none
  validFrom := a.validFrom
  validTo := a.validTo
  observedAt := now
  confidence := confidence
  status := "active".toList
  reason := "living_memory_facade_relation".toList
  supersedes := []

/-- `store.inspect(id, resolve_blobs=False).scope`; a memory that is missing has none. -/
def scopeOf (now : F) (id : Text) (s : TemporalStore F) : Option (List (Text × Json F)) :=
  match s.memories.find? id with
  | none => some []
  | some row => do
    let data ← loads rt.toFloats row.envelopeJson
    let m ← MemoryEnvelope.fromDict rt.toPython now data
    some m.scope

/-- The rules of `_auto_agentic_relations` (`mcp_server.py:1088-1096`). -/
def autoRelationRules : List (CaptureRole × String × CaptureRole) :=
  [(.plan, "implements", .spec), (.progress, "updates", .plan), (.checkpoint, "verifies", .plan),
    (.artifact, "evidences", .plan), (.artifact, "evidences", .checkpoint), (.risk, "threatens", .plan),
    (.openQuestion, "blocks", .plan), (.decision, "constrains", .plan), (.lesson, "informs", .plan)]

/-- `_auto_agentic_relations` (`mcp_server.py:1066-1097`). -/
def autoRelations (captured : List (CaptureRole × Text)) : List (Json F) :=
  autoRelationRules.flatMap fun (subject, predicate, object) =>
    match (idsOf captured object).head? with
    | none => []
    | some objectId => (idsOf captured subject).map fun subjectId =>
        dict [("subject", .str subjectId), ("predicate", .str predicate.toList),
          ("object", .str objectId), ("memory_id", .str subjectId),
          ("source", .str "capture_v2_auto_relation".toList)]

/-! ## The checkpoint of the task -/

/-- The dictionary of the first structured modality, or the text of the memory. -/
def structuredOf (m : MemoryEnvelope F) : List (Text × Json F) :=
  let structured := m.modalities.findSome? fun item =>
    if item.modality = "structured".toList then readDict item.content else none
  structured.getD [("text".toList, .str (m.textContent rt.toPython))]
where
  readDict : Json F → Option (List (Text × Json F))
    | .obj d => some d
    | _ => none

/-- `_structured_memory_content` (`mcp_server.py:1168-1176`). -/
def structuredContent (now : F) (s : TemporalStore F) (id : Text) : Option (List (Text × Json F)) :=
  match s.memories.find? id with
  | none => some []
  | some _ => (s.inspect rt.toPython now id).map (structuredOf rt)

/-- `_first_structured_content` (`mcp_server.py:1164-1166`). -/
def firstContent (now : F) (s : TemporalStore F) (captured : List (CaptureRole × Text))
    (role : CaptureRole) : Option (List (Text × Json F)) :=
  match (idsOf captured role).head? with
  | none => some []
  | some id => structuredContent rt now s id

/-- `d.get(key_1) or d.get(key_2) or …`; without a truthy value it is the last one. -/
def firstOf (d : List (Text × Json F)) (keys : List String) (default : Json F) : Json F :=
  keys.foldr (fun key rest => orValue rt (valueAt key.toList d) rest) default

/-- `_string_items` (`mcp_server.py:1198-1199`). -/
def stringItems (value : Json F) : List Text :=
  ((asList (some value)).map (strOf rt.toGraphRuntime)).filter (· ≠ [])

/-- `_decision_lines` (`mcp_server.py:1178-1185`). -/
def decisionLines (contents : List (List (Text × Json F))) : List Text :=
  let lines := contents.map fun d =>
    strip (strOf rt.toGraphRuntime (firstOf rt d ["decision", "content", "text"] (.str [])))
  ((lines.filter (· ≠ [])).map fun line => oneLine line 160).take 6

/-- `_capture_evidence_ids` (`mcp_server.py:1187-1196`). -/
def evidenceIds (contents : List (List (Text × Json F))) : List Text :=
  (contents.flatMap fun d => stringItems rt (firstOf rt d ["evidence_ids", "evidence"] (.arr []))).eraseDups.take 12

/-- `_checkpoint_id` (`mcp_server.py:1201-1203`). -/
def checkpointIdOf (value : Text) : Text :=
  let words := (value.splitOnP fun c => !(c.isAlphanum)).filter (· ≠ [])
  let cleaned := rt.lower (['_'].intercalate words)
  if cleaned ≠ [] ∧ ¬ "ckpt_".toList.isPrefixOf cleaned = true then "ckpt_".toList ++ cleaned.take 40
  else cleaned

/-- `_task_state_patch_from_capture_v2` (`mcp_server.py:1137-1162`). -/
def patchFromCapture (now : F) (s : TemporalStore F) (captured : List (CaptureRole × Text)) :
    Option (List (Text × Json F)) := do
  let spec ← firstContent rt now s captured .spec
  let plan ← firstContent rt now s captured .plan
  let progress ← firstContent rt now s captured .progress
  let checkpoint ← firstContent rt now s captured .checkpoint
  let decisions ← (idsOf captured .decision).mapM (structuredContent rt now s)
  let all ← ((rolesOf captured).flatMap (idsOf captured)).mapM (structuredContent rt now s)
  let texts := fun items : List Text => Json.arr (items.map Json.str)
  let str := strOf rt.toGraphRuntime
  let objective := str (firstOf rt plan ["title", "goal"] (firstOf rt spec ["goal", "title"] (.str [])))
  let status := str (firstOf rt plan ["status"] (firstOf rt checkpoint ["status"] (.str "active".toList)))
  let checkpointId := strip (str (firstOf rt checkpoint ["checkpoint_id", "id", "title"] (.str [])))
  some ([("objective".toList, .str objective), ("status".toList, .str status),
    ("constraints".toList, texts (stringItems rt ((valueAt "constraints".toList spec).getD .null))),
    ("current_plan".toList, texts (stringItems rt (firstOf rt plan ["steps"]
      ((valueAt "current_plan".toList plan).getD .null)))),
    ("open_subtasks".toList, texts (stringItems rt (firstOf rt progress ["open"]
      ((valueAt "open_subtasks".toList progress).getD .null)))),
    ("completed_subtasks".toList, texts (stringItems rt (firstOf rt progress ["completed"]
      ((valueAt "completed_subtasks".toList progress).getD .null)))),
    ("irreversible_decisions".toList, texts (decisionLines rt decisions)),
    ("tool_evidence_ids".toList, texts (evidenceIds rt all))] ++
    if checkpointId = [] then [] else [("checkpoint_id".toList, .str (checkpointIdOf rt checkpointId))])

end Items

/-! ## The call -/

section Model

variable {F : Type} (rt : FacadeRuntime F) (options : StoreOptions)
  (extract : MemoryEnvelope F → List (ExtractedFact F))
  (lessons : List (Text × Json F) → Option (List (MemoryEnvelope F)))

namespace Facade

def onVault (c : Call (VaultState F) Unit) : Call (Facade F) Unit :=
  on Facade.vault (fun vault t => { t with vault := vault }) c

def onProposals (c : Call (ProposalRows F) Unit) : Call (Facade F) Unit :=
  on Facade.proposals (fun proposals t => { t with proposals := proposals }) c

def onTasks (c : Call (TaskRows F) Unit) : Call (Facade F) Unit :=
  on Facade.tasks (fun tasks t => { t with tasks := tasks }) c

/-- `vault.remember(memory, box_id=box_id)`; what is no text is bound as SQLite binds it. -/
def rememberIn (now : F) (boxId : Json F) (m : MemoryEnvelope F) : Call (VaultState F) Unit := do
  VaultState.remember rt.toGraphRuntime options extract now true m none false
  match bindText rt.toGraphRuntime boxId with
  | some box => forM box.toList fun box => VaultState.putInBox box m.id
  | none => check false

/-- `propose_memory` with the arguments of the facade (`mcp_server.py:1255-1261`). A row
under a known id breaks the primary key. -/
def propose (now : F) (id : Text) (data : Json F) (m : MemoryEnvelope F) : Call (ProposalRows F) Unit :=
  commit fun rows =>
    if (rows.find? id).isSome = true then none
    else some (rows.upsert (proposedRow id m (strOr rt (field data "proposal_type") "facade_capture".toList)
      (strOr rt (field data "rationale") "final interaction capture".toList)
      (strOr rt (field data "created_by") "living_memory".toList) now))

/-- What an item writes. -/
def captureItem (req : CaptureRequest F) (now : F) (newId : Text) (item : CaptureItem F) :
    Call (Facade F) Unit :=
  match item.envelope rt req now with
  | none => check false
  | some none => pure ()
  | some (some m) =>
    if req.propose = true then
      onProposals (propose rt now newId (((item.prepared rt req).bind id).getD .null) m)
    else onVault (rememberIn rt options extract now req.boxId m)

/-- The tool trace of the request (`mcp_server.py:688-692`). -/
def captureTrace (req : CaptureRequest F) (now : F) : Call (Facade F) Unit :=
  let trace := (field req.args "tool_trace").getD .null
  callIf (truthy rt trace) <|
    match (dictOf rt trace).bind fun d =>
        lessons (if valueAt "scope".toList d = none then insert "scope".toList (.obj req.scope) d else d) with
    | none => check false
    | some memories => forM memories fun m =>
        onVault (VaultState.remember rt.toGraphRuntime options extract now true m none false)

/-- One round of the loop of `_capture_relations` (`mcp_server.py:1279-1322`). -/
def captureRelation (now : F) (ids : List Text) (item : Json F) : Call (VaultState F) Unit :=
  callIf (truthy rt item) <|
    match facadeRelation rt now ids item with
    | none => check false
    | some a => do
      VaultState.addEdge rt.toGraphRuntime a
      reading fun v =>
        match scopeOf rt now a.memoryId v.store, floatOf rt.toGraphRuntime a.confidence with
        | some scope, some confidence =>
          VaultState.onGraphs (Graphs.addAssertion rt.toGraphRuntime (facadeAssertion now scope a confidence))
        | _, _ => check false

/-- The relations of the request, and those between what it captures. -/
def captureRelations (req : CaptureRequest F) (now : Nat → F) : Call (Facade F) Unit :=
  let captured := req.captured rt now
  let items := (asList (field req.args "relations")).map (fun item => (captured.map Prod.snd, item)) ++
    (autoRelations captured).map fun item => ([], item)
  forM items.zipIdx fun ((ids, item), i) =>
    onVault (captureRelation rt (now (req.items.length + 1 + i)) ids item)

/-- The patch of the task, if there is one (`mcp_server.py:702-703`). -/
def taskPatch (req : CaptureRequest F) (now : Nat → F) (s : TemporalStore F) :
    Option (Option (List (Text × Json F))) :=
  match req.patch with
  | some patch => some (some patch)
  | none =>
    if req.taskId ≠ [] ∧ req.agenticSeen = true then
      (patchFromCapture rt (now req.items.length) s (req.captured rt now)).map some
    else some none

/-- `task_states.update`. -/
def updateTask (c : UpdateCall F (Json F)) : Call (TaskRows F) Unit := fun rows =>
  match TaskStateStore.update rt.objects c rows with
  | (.ok _, rows) => .ok () rows
  | (.error _, rows) => .error () rows

/-- The checkpoint of the task (`mcp_server.py:701-705`). -/
def captureTask (req : CaptureRequest F) (now : Nat → F) : Call (Facade F) Unit :=
  reading fun t =>
    match taskPatch rt req now t.vault.store with
    | none => check false
    | some none => pure ()
    | some (some patch) => onTasks (updateTask rt ⟨req.taskId, .obj req.scope, patch, now⟩)

/-- The report of the capture reads the contents it counts (`mcp_server.py:1125-1135`). -/
def captureReport (req : CaptureRequest F) (now : Nat → F) : Call (Facade F) Unit :=
  reading fun t =>
    let ids := [CaptureRole.decision, .checkpoint, .artifact].flatMap (idsOf (req.captured rt now))
    check (ids.all fun id => (structuredContent rt (now req.items.length) t.vault.store id).isSome)

/-- What a request does after it is read. -/
def captureRequest (req : CaptureRequest F) (now : Nat → F) (newId : Nat → Text) :
    Call (Facade F) Unit := do
  forM req.items.zipIdx fun (item, i) => captureItem rt options extract req (now i) (newId i) item
  captureTrace rt options extract lessons req (now req.items.length)
  captureRelations rt req now
  captureTask rt req now
  captureReport rt req now

/-- `_living_memory_capture` (`mcp_server.py:616-732`) with its readings of the clock and the
ids of its proposals. -/
def capture (args : Json F) (now : Nat → F) (newId : Nat → Text) : Call (Facade F) Unit :=
  match CaptureRequest.read rt args with
  | none => check false
  | some req => captureRequest rt options extract lessons req now newId

end Facade

end Model

def sampleFacadeRuntime : FacadeRuntime SampleNumber where
  toGraphRuntime := sampleGraphRuntime
  dictOfItems _ := none
  parseInt _ := none
  truncate _ := none

end AgentMemory
