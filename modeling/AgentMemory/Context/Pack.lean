import AgentMemory.Agentic.Control
import AgentMemory.Retrieval.Answers
import AgentMemory.Lib.Trim

/-!
# Context packs

`internal/services/context` and `domain/retrieval/context.go`: an answer of retrieval is sorted
into sections, cited, trimmed to the token budget of the query and joined with the control
context. `sort.Slice` leaves ties in an order of its own, so the sort is an argument. The
package counts tokens as retrieval does (`compression.go:83-90`), so `estimateTokens` stands
for both functions.
-/

namespace AgentMemory

open Tables Calls

/-- `retrieval.Citation` (`retrieval/context.go:24-30`). -/
structure Citation where
  memoryID : String
  sourceEventIDs : List String
  score : ℚ
  source : String
  reasons : List String
  deriving DecidableEq

/-- `retrieval.ContextPack` (`retrieval/context.go:8-20`). -/
structure ContextPack where
  profile : List Memory
  preferences : List Memory
  projectMemory : List Memory
  recentEpisodes : List Memory
  relevantFacts : List Memory
  procedures : List Memory
  warnings : List String
  citations : List Citation
  tokenEstimate : Int
  traceID : String
  control : Option ControlContext

/-- The fields of a pack that hold memories. -/
inductive PackSection where
  | profile | preferences | projectMemory | recentEpisodes | relevantFacts | procedures
  deriving DecidableEq

/-- The sections in the order `EnforceBudget` goes through them (`compression.go:30-33`). -/
def PackSection.all : List PackSection :=
  [.profile, .preferences, .projectMemory, .recentEpisodes, .relevantFacts, .procedures]

namespace ContextPack

/-- The memories of a section. -/
def rows (pack : ContextPack) : PackSection → List Memory
  | .profile => pack.profile
  | .preferences => pack.preferences
  | .projectMemory => pack.projectMemory
  | .recentEpisodes => pack.recentEpisodes
  | .relevantFacts => pack.relevantFacts
  | .procedures => pack.procedures

/-- The pack with other memories in a section. -/
def setRows (pack : ContextPack) (s : PackSection) (mems : List Memory) : ContextPack :=
  match s with
  | .profile => { pack with profile := mems }
  | .preferences => { pack with preferences := mems }
  | .projectMemory => { pack with projectMemory := mems }
  | .recentEpisodes => { pack with recentEpisodes := mems }
  | .relevantFacts => { pack with relevantFacts := mems }
  | .procedures => { pack with procedures := mems }

/-- The memories of a pack, section by section. -/
def memories (pack : ContextPack) : List Memory := PackSection.all.flatMap pack.rows

@[simp] theorem rows_setRows (pack : ContextPack) (s t : PackSection) (mems : List Memory) :
    (pack.setRows s mems).rows t = if t = s then mems else pack.rows t := by
  cases s <;> cases t <;> rfl

@[simp] theorem citations_setRows (pack : ContextPack) (s : PackSection) (mems : List Memory) :
    (pack.setRows s mems).citations = pack.citations := by
  cases s <;> rfl

@[simp] theorem control_setRows (pack : ContextPack) (s : PackSection) (mems : List Memory) :
    (pack.setRows s mems).control = pack.control := by
  cases s <;> rfl

@[simp] theorem tokenEstimate_setRows (pack : ContextPack) (s : PackSection) (mems : List Memory) :
    (pack.setRows s mems).tokenEstimate = pack.tokenEstimate := by
  cases s <;> rfl

theorem mem_memories {pack : ContextPack} {mem : Memory} : mem ∈ pack.memories ↔ ∃ s, mem ∈ pack.rows s := by
  rw [memories, List.mem_flatMap]
  constructor
  · rintro ⟨s, -, hmem⟩
    exact ⟨s, hmem⟩
  · rintro ⟨s, hmem⟩
    exact ⟨s, by cases s <;> simp [PackSection.all], hmem⟩

end ContextPack

/-- The section `Assemble` puts a memory in (`assembler.go:36-54`). -/
def sectionFor (mem : Memory) : PackSection :=
  match mem.type with
  | .preference => .preferences
  | .procedure => .procedures
  | .fact => if mem.projectID ≠ "" then .projectMemory else .relevantFacts
  | .episode => .recentEpisodes
  | _ => .relevantFacts

/-- The loop of `Assemble` over the memories of the candidates. -/
def fileMemories (pack : ContextPack) : List Memory → ContextPack
  | [] => pack
  | mem :: rest => fileMemories (pack.setRows (sectionFor mem) (pack.rows (sectionFor mem) ++ [mem])) rest

/-- `BuildCitations` (`citation.go:13-28`). -/
def buildCitations (candidates : List Candidate) : List Citation :=
  candidates.map fun c => ⟨c.memory.id, c.memory.sourceEventIDs, c.score, c.source, c.reasons⟩

/-- A memory of a pack as `EnforceBudget` ranks it (`compression.go:36-40`). -/
structure Ref where
  inSection : PackSection
  id : String
  score : ℚ
  deriving DecidableEq

/-- `sort.Slice` on the references, by score (`compression.go:49`). -/
structure SliceSort where
  sort : List Ref → List Ref
  perm : ∀ refs, (sort refs).Perm refs
  sorted : ∀ refs, (sort refs).Pairwise fun a b => a.score ≤ b.score

/-- The map `scores` of `EnforceBudget`: the last candidate of an id counts. -/
def scoreOf (candidates : List Candidate) (id : String) : ℚ :=
  ((candidates.reverse.find? fun c => c.memory.id = id).map Candidate.score).getD 0

/-- The references to the memories of a pack (`compression.go:41-48`). -/
def refsOf (pack : ContextPack) (candidates : List Candidate) : List Ref :=
  PackSection.all.flatMap fun s => (pack.rows s).map fun mem => ⟨s, mem.id, scoreOf candidates mem.id⟩

/-- `removeByID` (`compression.go:92-100`). -/
def removeByID (memories : List Memory) (id : String) : List Memory := memories.filter fun mem => mem.id ≠ id

/-- The loop of `EnforceBudget` that drops memories (`compression.go:51-64`), with the estimate
and the number of memories it keeps count of. -/
def dropVictims (budget : Int) : List Ref → ContextPack → Int → Nat → ContextPack × Int
  | [], pack, estimate, _ => (pack, estimate)
  | victim :: rest, pack, estimate, total =>
    if estimate ≤ budget ∨ total ≤ 1 then (pack, estimate)
    else
      let estimate := match (pack.rows victim.inSection).find? fun mem => mem.id = victim.id with
        | some mem => estimate - estimateTokens mem.content
        | none => estimate
      dropVictims budget rest
        (pack.setRows victim.inSection (removeByID (pack.rows victim.inSection) victim.id)) estimate (total - 1)

/-- The text up to and with its `n`-th end of a sentence. -/
def sentencePrefix : Nat → List Char → Option (List Char)
  | _, [] => none
  | n, r :: rest =>
    if r = '.' ∨ r = '!' ∨ r = '?' then
      if n = 1 then some [r] else (sentencePrefix (n - 1) rest).map (r :: ·)
    else (sentencePrefix n rest).map (r :: ·)

/-- `leadingSentences` (`compression.go:102-113`). -/
def leadingSentences (text : List Char) (n : Nat) : List Char :=
  match sentencePrefix n text with
  | some found => trimSpace found
  | none => text

/-- The content that `EnforceBudget` compresses a long one to (`compression.go:73`). -/
def compressed (content : String) : String := String.ofList (leadingSentences content.toList 2 ++ " …".toList)

/-- The loop of `EnforceBudget` that compresses a section (`compression.go:66-77`). -/
def compressRows : List Memory → Int → List Memory × Int
  | [], estimate => ([], estimate)
  | mem :: rest, estimate =>
    if (fields mem.content.toList).length ≤ 120 then
      let (out, estimate) := compressRows rest estimate
      (mem :: out, estimate)
    else
      let (out, estimate) := compressRows rest
        (estimate - (estimateTokens mem.content - estimateTokens (compressed mem.content)))
      ({ mem with content := compressed mem.content } :: out, estimate)

/-- That loop over sections. -/
def compressSections : List PackSection → ContextPack → Int → ContextPack × Int
  | [], pack, estimate => (pack, estimate)
  | s :: rest, pack, estimate =>
    let (out, estimate) := compressRows (pack.rows s) estimate
    compressSections rest (pack.setRows s out) estimate

/-- `EnforceBudget` (`compression.go:21-81`). -/
def enforceBudget (sorting : SliceSort) (pack : ContextPack) (candidates : List Candidate) (budget : Int) :
    ContextPack :=
  if budget ≤ 0 ∨ pack.tokenEstimate ≤ budget then pack
  else
    let refs := refsOf pack candidates
    let (pack, estimate) := dropVictims budget (sorting.sort refs) pack pack.tokenEstimate refs.length
    let (pack, estimate) := compressSections PackSection.all pack estimate
    { pack with
      tokenEstimate := estimate
      warnings := pack.warnings ++ ["context_compressed_to_budget"] }

/-- The pack of the candidates with their citations (`assembler.go:35-58`). -/
def packOf (candidates : List Candidate) (trace : Trace) : ContextPack :=
  let pack := fileMemories ⟨[], [], [], [], [], [], [], [], trace.tokenEstimate, trace.id, none⟩
    (candidates.map Candidate.memory)
  { pack with
    warnings := if candidates = [] then ["no_relevant_memory_found"] else []
    citations := buildCitations candidates }

/-- The pack trimmed to the budget of the query (`assembler.go:59-61`). -/
def trimmedPack (sorting : SliceSort) (q : Query) (candidates : List Candidate) (trace : Trace) : ContextPack :=
  if 0 < q.tokenBudget then enforceBudget sorting (packOf candidates trace) candidates q.tokenBudget
  else packOf candidates trace

/-- The request of `Assemble` for a control context. -/
def controlRequest (q : Query) : ControlRequest where
  tenantID := q.tenantID
  userID := q.userID
  agentID := q.agentID
  projectID := q.projectID
  sessionID := q.sessionID
  query := q.text
  tokenBudget := q.limit * 220
  specID := ""
  planID := ""

/-- A control context that says something. -/
def ControlContext.relevant (control : ControlContext) : Bool :=
  control.activeSpec.isSome || control.activePlan.isSome || control.rails ≠ [] || control.recommendedSkills ≠ []

/-- The control block of a pack (`assembler.go:74-77`). -/
def attachControl (pack : ContextPack) (control : ControlContext) : ContextPack :=
  if control.relevant then
    { pack with control := some control, tokenEstimate := pack.tokenEstimate + control.tokenEstimate }
  else pack

/-- What `Assemble` makes of an answer of retrieval; without a control plane there is no control
block (`assembler.go:35-79`). -/
def packAnswer (sorting : SliceSort) (json : Option ArtifactJSON) (d : Deployment) (q : Query)
    (candidates : List Candidate) (trace : Trace) : Go ContextPack :=
  match json with
  | none => pure (trimmedPack sorting q candidates trace)
  | some json => do
    let control ← assembleControlContext json d.lower (controlRequest q)
    pure (attachControl (trimmedPack sorting q candidates trace) control)

/-- `Assemble` (`assembler.go:27-80`). -/
def assemble (sorting : SliceSort) (json : Option ArtifactJSON) (d : Deployment) (q : Query) : Go ContextPack := do
  let (candidates, trace) ← retrieve d q
  packAnswer sorting json d q candidates trace

end AgentMemory
