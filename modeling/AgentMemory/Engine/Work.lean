import AgentMemory.Lib.Fallible
import AgentMemory.Engine.Governance

/-!
# What the facade shows of memories

`_living_memory_work` of `engines/living_memoryv2/src/living_memoryv2/mcp_server.py` from the
ranked results on: the SIF frame of `sif.py`, the evidence with its copies in the second
frame, and the procedural lessons. `work_withholds_iff` says for which memories a text leaves
that is not cut from their notice.
-/

namespace AgentMemory

open Dicts PyText JsonText Fallible

/-- A ranked result (`recall.py:14-20`) without its layer signals. -/
structure RecallResult (F : Type) where
  memory : MemoryEnvelope F
  score : F
  confidence : F
  whyRetrieved : List Text

/-- A line of the frame, with the memory it is about. -/
inductive SifLine (F : Type) where
  | header (text : Text)
  | about (m : MemoryEnvelope F) (text : Text)
  | snippet (m : MemoryEnvelope F) (text : Text)

/-- `SIFContextAssembler` (`sif.py:56-66`) that keeps the order of the results. -/
structure SifAssembler where
  maxTokens : Nat
  charsPerToken : Nat

/-- The frame while it is assembled. -/
structure SifState (F : Type) where
  lines : List (SifLine F)
  memoryIds : List Text
  dropped : Nat

/-- An entry of the evidence (`mcp_server.py:1610-1628`) with the fields the second frame
takes its hints by. -/
structure Evidence (F : Type) where
  memory : MemoryEnvelope F
  hint : Text

/-- A procedural lesson: one of the tool curriculum, by its tool, or one of a memory. -/
inductive ProceduralLesson (F : Type) where
  | tool (name : Text)
  | memory (m : MemoryEnvelope F) (toolName lesson : Text)

/-- What a work call answers, as far as it shows memories. -/
structure WorkResponse (F : Type) where
  frame : SifState F
  evidence : List (Evidence F)
  decisions : List (Evidence F)
  structuredEvidence : List (Evidence F)
  lessons : List (ProceduralLesson F)

def SifLine.text {F : Type} : SifLine F → Text
  | header text => text
  | about _ text => text
  | snippet _ text => text

/-- `"\n".join(lines)`. -/
def joinLines (lines : List Text) : Text := ['\n'].intercalate lines

/-- `STOPWORDS` (`mcp_server.py:30-57`). -/
def stopwords : List Text :=
  ["about".toList, "after".toList, "and".toList, "antes".toList, "are".toList, "como".toList,
    "com".toList, "das".toList, "deve".toList, "does".toList, "dos".toList, "for".toList,
    "from".toList, "how".toList, "into".toList, "not".toList, "para".toList, "por".toList,
    "que".toList, "the".toList, "this".toList, "use".toList, "what".toList, "when".toList,
    "where".toList, "with".toList]

section Model

variable {F : Type} (rt : WorkRuntime F)

/-! ## The SIF frame -/

/-- `SIFContextAssembler._one_line` (`sif.py:215-223`). -/
def sifOneLine (text : Text) (maxChars : Nat) : Text :=
  if text = [] ∨ maxChars = 0 then []
  else if (compact text).length ≤ maxChars then compact text
  else if maxChars ≤ 3 then (compact text).take maxChars
  else ((compact text).take (maxChars - 3)).rdropWhile PyText.isSpace ++ "...".toList

/-- `_fit_chars` (`sif.py:205-213`). -/
def fitChars (text : Text) (charBudget : Nat) : Text :=
  let clean := sifOneLine text charBudget
  if clean = [] ∨ charBudget = 0 then []
  else if clean.length ≤ charBudget then clean
  else if charBudget ≤ 3 then []
  else (clean.take (charBudget - 3)).rdropWhile PyText.isSpace ++ "...".toList

/-- `gov=…`, where the policy is not inline. -/
def policyPart (labels : List Text) : List Text :=
  if isInspectOnly labels = true then ["gov=inspect_only".toList] else []

/-- `src=…`, where the memory has a source. -/
def sourcePart (m : MemoryEnvelope F) (maxChars : Nat) : List Text :=
  match valueAt "source".toList m.provenance with
  | some source =>
    if truthy rt.toFacadeRuntime source = true then
      ["src=".toList ++ sifOneLine (strOf rt.toGraphRuntime source) maxChars]
    else []
  | none => []

/-- `why=…`, where there are reasons. -/
def whyPart (reasons : List Text) : List Text :=
  if reasons = [] then [] else ["why=".toList ++ [','].intercalate reasons]

def inspectPart (id : Text) : Text := "inspect_memory(".toList ++ id ++ ")".toList

namespace SifAssembler

variable (a : SifAssembler)

/-- `estimate_tokens` (`sif.py:131-134`). -/
def estimateTokens (text : Text) : Nat :=
  if text = [] then 0 else max 1 ((text.length + a.charsPerToken - 1) / a.charsPerToken)

/-- The lines fit the budget. -/
def fits (lines : List Text) : Bool := a.estimateTokens (joinLines lines) ≤ a.maxTokens

/-- `_header_line` (`sif.py:136-145`). -/
def headerLine (query : Text) : Text :=
  let base := "LMV2_SIF v1 q=".toList
  let maxQueryChars :=
    if a.maxTokens < 80 then min 72 (a.maxTokens * a.charsPerToken - base.length - 52) else 72
  base ++ sifOneLine query maxQueryChars

/-- `_meta_line` (`sif.py:177-200`). -/
def metaLine (index : Nat) (result : RecallResult F) (labels : List Text) : Text :=
  let m := result.memory
  let modalities := (sortedSet (m.modalities.map ModalityRef.modality)).filter (· ≠ "text".toList)
  [' '].intercalate (["[M".toList ++ decimal index ++ "]".toList, "id=".toList ++ m.id,
    "type=".toList ++ m.memoryType, "score=".toList ++ rt.fixed2 result.score,
    "conf=".toList ++ rt.fixed2 result.confidence] ++ whyPart result.whyRetrieved ++ sourcePart rt m 36 ++
    (if m.tags = [] then [] else ["tags=".toList ++ [','].intercalate (m.tags.take 4)]) ++
    policyPart labels ++
    (if modalities = [] then [] else ["mods=".toList ++ [','].intercalate (modalities.take 4)]) ++
    [inspectPart m.id])

/-- `_fit_micro_meta_line` (`sif.py:147-175`); none is the empty line. -/
def microMetaLine (index : Nat) (result : RecallResult F) (labels lines : List Text) : Option Text :=
  let m := result.memory
  let parts := ["M".toList ++ decimal index, "id=".toList ++ m.id]
  let extras := ["type=".toList ++ m.memoryType, "score=".toList ++ rt.fixed2 result.score,
    "conf=".toList ++ rt.fixed2 result.confidence] ++ whyPart (result.whyRetrieved.take 2) ++
    sourcePart rt m 24 ++ policyPart labels ++ [inspectPart m.id]
  if a.fits (lines ++ [[' '].intercalate parts]) = true then
    some ([' '].intercalate (extras.foldl (fun parts extra =>
      if a.fits (lines ++ [[' '].intercalate (parts ++ [extra])]) = true then parts ++ [extra] else parts)
      parts))
  else none

/-- The snippet of a result, where one fits (`sif.py:88-107`). -/
def fitSnippet (lines : List Text) (safeText : Text) : Option Text :=
  let pre := joinLines (lines ++ [[]])
  let remaining := a.maxTokens - a.estimateTokens pre
  if remaining = 0 then none
  else
    let snippet := fitChars safeText (remaining * a.charsPerToken)
    if snippet = [] then none
    else if a.fits (lines ++ [snippet]) = true then some snippet
    else
      let snippet := fitChars safeText (a.maxTokens * a.charsPerToken - pre.length)
      if snippet ≠ [] ∧ a.fits (lines ++ [snippet]) = true then some snippet else none

/-- The body of the loop over the results (`sif.py:84-118`). -/
def addResult (state : SifState F) (result : RecallResult F) : Option (SifState F) := do
  let m := result.memory
  let labels ← safetyLabels rt m
  let safeText ← promptText rt m
  let index := state.memoryIds.length + 1
  let lines := state.lines.map SifLine.text
  let metaText := metaLine rt index result labels
  some <| match a.fitSnippet (lines ++ [metaText]) safeText with
    | some snippet =>
      { state with
        lines := state.lines ++ [.about m metaText, .snippet m snippet]
        memoryIds := state.memoryIds ++ [m.id] }
    | none =>
      match a.microMetaLine rt index result labels lines with
      | some micro =>
        { state with
          lines := state.lines ++ [.about m micro]
          memoryIds := state.memoryIds ++ [m.id] }
      | none => { state with dropped := state.dropped + 1 }

/-- `assemble` (`sif.py:68-129`). -/
def assemble (query : Text) (results : List (RecallResult F)) : Option (SifState F) :=
  results.foldlM (a.addResult rt) ⟨[.header (a.headerLine query)], [], 0⟩

end SifAssembler

/-! ## Evidence and lessons -/

/-- `_facade_evidence` (`mcp_server.py:1594-1632`); the loop ends once it has `limit` entries. -/
def facadeEvidence (results : List (RecallResult F)) (memoryIds : List Text) (limit : Nat) :
    Option (List (Evidence F)) :=
  ((results.filter fun item => memoryIds = [] ∨ item.memory.id ∈ memoryIds).take (max 1 limit)).mapM
    fun item => (promptText rt item.memory).map fun text => ⟨item.memory, oneLine text 180⟩

/-- An entry of `_decisions` (`sif.py:311-325`). -/
def Evidence.isDecision (item : Evidence F) : Bool :=
  item.memory.memoryType = "decision".toList ||
    item.memory.tags.any fun tag => rt.lower tag = "decision".toList

/-- `_content_terms` (`mcp_server.py:1829-1857`). -/
def contentTerms (text : Text) : List Text :=
  let raw := ((rt.lower text).splitOnP fun c => !rt.isWord c).filter (· ≠ [])
  let kept := raw.filter fun term => 3 ≤ term.length ∧ term ∉ stopwords
  let has := fun word : String => word.toList ∈ raw
  kept ++ ((kept.filter fun term => 4 < term.length ∧ term.getLast? = some 's').map List.dropLast) ++
    (if has "now" ∨ has "latest" ∨ has "active" then ["current".toList] else []) ++
    (if has "current" then ["now".toList] else []) ++
    (if has "run" then ["command".toList, "commands".toList] else []) ++
    (if has "missing" then ["gap".toList, "gaps".toList] else []) ++
    (if has "gap" ∨ has "gaps" then ["missing".toList] else [])

/-- The memory is a lesson for the query (`mcp_server.py:1741-1747`). -/
def teaches (query : Text) (m : MemoryEnvelope F) : Bool :=
  let queryTerms := contentTerms rt query
  let memoryTerms := contentTerms rt
    (m.textContent rt.toPython ++ ' ' :: [' '].intercalate (m.tags ++ m.entities))
  (m.memoryType = "procedural".toList || "lesson".toList ∈ m.tags || "tool-use".toList ∈ m.tags) &&
    (queryTerms.isEmpty || queryTerms.any (· ∈ memoryTerms))

/-- A lesson of a memory (`mcp_server.py:1752-1762`). -/
def lessonOf (m : MemoryEnvelope F) : ProceduralLesson F :=
  .memory m ((m.entities.head?.or m.tags.head?).getD "memory".toList)
    (oneLine (m.textContent rt.toPython) 220)

/-- The loop over the results (`mcp_server.py:1739-1764`), once `count` lessons are there. -/
def memoryLessons (query : Text) (limit : Nat) :
    List (RecallResult F) → List Text → Nat → List (ProceduralLesson F)
  | [], _, _ => []
  | item :: items, seen, count =>
    if teaches rt query item.memory = true ∧ item.memory.id ∉ seen then
      lessonOf rt item.memory ::
        if limit ≤ count + 1 then []
        else memoryLessons query limit items (item.memory.id :: seen) (count + 1)
    else memoryLessons query limit items seen count

/-- `_procedural_lessons` (`mcp_server.py:1728-1765`) with the tools of the curriculum's lessons. -/
def proceduralLessons (query : Text) (tools : List Text) (results : List (RecallResult F)) (limit : Nat) :
    List (ProceduralLesson F) :=
  let toolLessons := tools.eraseDups.map .tool
  (toolLessons ++ memoryLessons rt query limit results [] toolLessons.length).take limit

/-- `_living_memory_work` (`mcp_server.py:508-595`) from the ranked results on. The second
frame keeps as many of its decisions and of its evidence as fit (`sif.py:357-388`). -/
def livingMemoryWork (query : Text) (maxTokens topK : Nat) (tools : List Text) (keptDecisions keptEvidence : Nat)
    (ranked : List (RecallResult F)) : Option (WorkResponse F) := do
  let ranked := ranked.take topK
  let frame ← SifAssembler.assemble rt ⟨maxTokens, 4⟩ query ranked
  let inspectableIds :=
    if frame.memoryIds = [] then ranked.map fun item => item.memory.id else frame.memoryIds
  let evidence ← facadeEvidence rt ranked inspectableIds (min topK 8)
  some {
    frame := frame
    evidence := evidence
    decisions := (evidence.filter (Evidence.isDecision rt)).take keptDecisions
    structuredEvidence := evidence.take keptEvidence
    lessons := proceduralLessons rt query tools ranked 4 }

/-! ## What leaves -/

/-- The text of a memory in the line. -/
def SifLine.shown : SifLine F → Option (MemoryEnvelope F × Text)
  | snippet m text => some (m, text)
  | _ => none

def ProceduralLesson.shown : ProceduralLesson F → Option (MemoryEnvelope F × Text)
  | memory m _ lesson => some (m, lesson)
  | tool _ => none

/-- The texts made of the texts of memories. -/
def WorkResponse.shown (response : WorkResponse F) : List (MemoryEnvelope F × Text) :=
  response.frame.lines.filterMap SifLine.shown ++
    (response.evidence ++ response.decisions ++ response.structuredEvidence).map
      (fun item => (item.memory, item.hint)) ++
        response.lessons.filterMap ProceduralLesson.shown

/-- The text is cut from the notice of the memory, if it has to be. -/
def Withheld (m : MemoryEnvelope F) (text : Text) : Prop :=
  ∀ labels, safetyLabels rt m = some labels → isInspectOnly labels = true →
    IsTruncation (withheldNotice labels m.id) text

/-- The memories that teach the query, each once. -/
def taught (query : Text) : List (RecallResult F) → List Text → List (MemoryEnvelope F)
  | [], _ => []
  | item :: items, seen =>
    if teaches rt query item.memory = true ∧ item.memory.id ∉ seen then
      item.memory :: taught query items (item.memory.id :: seen)
    else taught query items seen

/-- The memories whose lessons are shown. -/
def shownLessons (query : Text) (topK : Nat) (tools : List Text) (ranked : List (RecallResult F)) :
    List (MemoryEnvelope F) :=
  (taught rt query (ranked.take topK) []).take (4 - tools.eraseDups.length)

end Model

section Facts

variable {F : Type} {rt : WorkRuntime F}

theorem length_sifOneLine_le (text : Text) (n : Nat) : (sifOneLine text n).length ≤ n := by
  unfold sifOneLine
  split
  · simp
  · split
    · assumption
    · split
      · simp
      · have hcut := (List.rdropWhile_prefix PyText.isSpace ((compact text).take (n - 3))).length_le
        rw [List.length_take] at hcut
        simp only [List.length_append]
        have hdots : "...".toList.length = 3 := rfl
        omega

/-- What is cut to one line fits already. -/
theorem fitChars_eq (text : Text) (n : Nat) : fitChars text n = sifOneLine text n := by
  have hlength := length_sifOneLine_le text n
  simp only [fitChars]
  split
  · next hempty =>
    obtain hclean | rfl := hempty
    · exact hclean.symm
    · simp [sifOneLine]
  · rfl

theorem isTruncation_fitChars (text : Text) (n : Nat) : IsTruncation text (fitChars text n) := by
  rw [fitChars_eq]
  unfold sifOneLine
  split
  · exact isTruncation_nil text
  · split
    · exact isTruncation_compact text
    · split
      · exact ⟨n, Or.inl rfl⟩
      · exact ⟨n - 3, Or.inr rfl⟩

/-- What is cut from the prompt text is withheld. -/
theorem withheld_of_promptText {m : MemoryEnvelope F} {safeText text : Text}
    (hsafe : promptText rt m = some safeText) (htext : IsTruncation safeText text) :
    Withheld rt m text := by
  intro labels hlabels hpolicy
  rw [promptText, hlabels, Option.map_some, if_pos hpolicy] at hsafe
  rw [Option.some.inj hsafe]
  exact htext

namespace SifAssembler

variable {a : SifAssembler}

theorem isTruncation_fitSnippet {lines : List Text} {safeText snippet : Text}
    (h : a.fitSnippet lines safeText = some snippet) : IsTruncation safeText snippet := by
  simp only [fitSnippet] at h
  split at h
  · cases h
  · split at h
    · cases h
    · split at h
      · obtain rfl := Option.some.inj h
        exact isTruncation_fitChars _ _
      · split at h
        · obtain rfl := Option.some.inj h
          exact isTruncation_fitChars _ _
        · cases h

/-- Each line about a text is withheld. -/
def Clean (rt : WorkRuntime F) (lines : List (SifLine F)) : Prop :=
  ∀ line ∈ lines, ∀ m text, line.shown = some (m, text) → Withheld rt m text

theorem clean_addResult {state state' : SifState F} {result : RecallResult F}
    (hclean : Clean rt state.lines) (h : a.addResult rt state result = some state') :
    Clean rt state'.lines := by
  simp only [addResult, Option.bind_eq_bind, Option.bind_eq_some_iff] at h
  obtain ⟨labels, -, safeText, hsafe, h⟩ := h
  obtain rfl := Option.some.inj h
  split
  · next snippet hsnippet =>
    have hwithheld := withheld_of_promptText hsafe (isTruncation_fitSnippet hsnippet)
    intro line hline m text hshown
    simp only [List.mem_append, List.mem_cons, List.not_mem_nil, or_false] at hline
    obtain hline | rfl | rfl := hline
    · exact hclean line hline m text hshown
    · cases hshown
    · cases hshown
      exact hwithheld
  · split
    · intro line hline m text hshown
      simp only [List.mem_append, List.mem_cons, List.not_mem_nil, or_false] at hline
      obtain hline | rfl := hline
      · exact hclean line hline m text hshown
      · cases hshown
    · exact hclean

theorem clean_assemble {query : Text} {results : List (RecallResult F)} {state : SifState F}
    (h : a.assemble rt query results = some state) : Clean rt state.lines := by
  have hrun : ∀ (results : List (RecallResult F)) (start : SifState F), Clean rt start.lines →
      results.foldlM (a.addResult rt) start = some state → Clean rt state.lines := by
    intro results
    induction results with
    | nil =>
      intro start hstart h
      obtain rfl := Option.some.inj h
      exact hstart
    | cons result results ih =>
      intro start hstart h
      rw [List.foldlM_cons, Option.bind_eq_bind, Option.bind_eq_some_iff] at h
      obtain ⟨next, hnext, h⟩ := h
      exact ih next (clean_addResult hstart hnext) h
  apply hrun results _ _ h
  intro line hline m text hshown
  obtain rfl := List.mem_singleton.mp hline
  cases hshown

end SifAssembler

/-- Each hint of the evidence is withheld. -/
theorem withheld_of_mem_facadeEvidence {results : List (RecallResult F)} {memoryIds : List Text}
    {limit : Nat} {evidence : List (Evidence F)}
    (h : facadeEvidence rt results memoryIds limit = some evidence) :
    ∀ item ∈ evidence, Withheld rt item.memory item.hint := by
  refine forall_mem_of_mapM h ?_
  intro result _ item hitem
  obtain ⟨safeText, hsafe, rfl⟩ := Option.map_eq_some_iff.mp hitem
  exact withheld_of_promptText hsafe (isTruncation_oneLine safeText 180)

/-- The lessons of memories are those of the first memories that teach the query. -/
theorem memoryLessons_eq (query : Text) (limit : Nat) (items : List (RecallResult F)) (seen : List Text)
    (count : Nat) : memoryLessons rt query limit items seen count =
      ((taught rt query items seen).take (max 1 (limit - count))).map (lessonOf rt) := by
  induction items generalizing seen count with
  | nil => simp [memoryLessons, taught]
  | cons item items ih =>
    rw [memoryLessons, taught]
    split
    · by_cases hlast : limit ≤ count + 1
      · have hone : max 1 (limit - count) = 1 := by omega
        simp [hlast, hone]
      · have hmore : max 1 (limit - count) = max 1 (limit - (count + 1)) + 1 := by omega
        rw [if_neg hlast, ih, hmore, List.take_succ_cons, List.map_cons]
    · exact ih seen count

/-- The lessons with a text of a memory. -/
theorem shown_proceduralLessons (query : Text) (topK : Nat) (tools : List Text)
    (ranked : List (RecallResult F)) :
    (proceduralLessons rt query tools (ranked.take topK) 4).filterMap ProceduralLesson.shown =
      (shownLessons rt query topK tools ranked).map fun m => (m, oneLine (m.textContent rt.toPython) 220) := by
  have htools : (((tools.eraseDups).map ProceduralLesson.tool).take 4).filterMap
      (ProceduralLesson.shown (F := F)) = [] := by
    rw [List.filterMap_eq_nil_iff]
    intro lesson hlesson
    obtain ⟨name, -, rfl⟩ := List.mem_map.mp (List.mem_of_mem_take hlesson)
    rfl
  have hmin : min (4 - tools.eraseDups.length) (max 1 (4 - tools.eraseDups.length)) =
      4 - tools.eraseDups.length := by
    omega
  have hlesson : (ProceduralLesson.shown ∘ lessonOf rt : MemoryEnvelope F → _) =
      fun m => some (m, oneLine (m.textContent rt.toPython) 220) := rfl
  simp only [proceduralLessons, List.take_append, List.filterMap_append, htools, List.nil_append,
    List.length_map, memoryLessons_eq]
  rw [← List.map_take, List.take_take, hmin, List.filterMap_map, hlesson, List.filterMap_eq_map']
  rfl

theorem SifAssembler.isSome_assemble {a : SifAssembler} {query : Text} {results : List (RecallResult F)}
    (h : ∀ item ∈ results, (safetyLabels rt item.memory).isSome = true) :
    (a.assemble rt query results).isSome = true := by
  apply isSome_foldlM
  intro state result hresult
  obtain ⟨labels, hlabels⟩ := Option.isSome_iff_exists.mp (h result hresult)
  rw [addResult, promptText, hlabels]
  rfl

/-- A work call answers where the labels of each memory can be read. -/
theorem livingMemoryWork_isSome {query : Text} {maxTokens topK : Nat} {tools : List Text}
    {keptDecisions keptEvidence : Nat} {ranked : List (RecallResult F)}
    (h : ∀ item ∈ ranked.take topK, (safetyLabels rt item.memory).isSome = true) :
    (livingMemoryWork rt query maxTokens topK tools keptDecisions keptEvidence ranked).isSome = true := by
  obtain ⟨frame, hframe⟩ := Option.isSome_iff_exists.mp
    (@SifAssembler.isSome_assemble _ rt ⟨maxTokens, 4⟩ query _ h)
  have hevidence : ∀ ids limit, (facadeEvidence rt (ranked.take topK) ids limit).isSome = true := by
    intro ids limit
    refine Option.isSome_iff_exists.mpr (exists_mapM fun item hitem => Option.isSome_iff_exists.mp ?_)
    have hlabels := h item (List.mem_filter.mp (List.mem_of_mem_take hitem)).1
    simpa [promptText] using hlabels
  obtain ⟨evidence, hsome⟩ := Option.isSome_iff_exists.mp (hevidence
    (if frame.memoryIds = [] then (ranked.take topK).map fun item => item.memory.id else frame.memoryIds)
    (min topK 8))
  simp only [livingMemoryWork, hframe, Option.bind_eq_bind, Option.bind_some, hsome, Option.isSome_some]

variable {query : Text} {maxTokens topK : Nat} {tools : List Text} {keptDecisions keptEvidence : Nat}
  {ranked : List (RecallResult F)} {response : WorkResponse F}

/-- A lesson that is shown leaves with the text of its memory. -/
theorem shown_of_mem_shownLessons
    (h : livingMemoryWork rt query maxTokens topK tools keptDecisions keptEvidence ranked = some response)
    {m : MemoryEnvelope F} (hm : m ∈ shownLessons rt query topK tools ranked) :
    (m, oneLine (m.textContent rt.toPython) 220) ∈ response.shown := by
  simp only [livingMemoryWork, Option.bind_eq_bind, Option.bind_eq_some_iff] at h
  obtain ⟨frame, -, evidence, -, h⟩ := h
  obtain rfl := Option.some.inj h
  simp only [WorkResponse.shown, shown_proceduralLessons, List.mem_append]
  exact Or.inr (List.mem_map_of_mem hm)

/-- What leaves beside the lessons is withheld. -/
theorem withheld_or_lesson
    (h : livingMemoryWork rt query maxTokens topK tools keptDecisions keptEvidence ranked = some response)
    {m : MemoryEnvelope F} {text : Text} (hmem : (m, text) ∈ response.shown) :
    Withheld rt m text ∨
      m ∈ shownLessons rt query topK tools ranked ∧ text = oneLine (m.textContent rt.toPython) 220 := by
  simp only [livingMemoryWork, Option.bind_eq_bind, Option.bind_eq_some_iff] at h
  obtain ⟨frame, hframe, evidence, hevidence, h⟩ := h
  obtain rfl := Option.some.inj h
  have hhints := withheld_of_mem_facadeEvidence hevidence
  simp only [WorkResponse.shown, shown_proceduralLessons, List.mem_append] at hmem
  obtain (hmem | hmem) | hmem := hmem
  · obtain ⟨line, hline, hshown⟩ := List.mem_filterMap.mp hmem
    exact Or.inl (SifAssembler.clean_assemble hframe line hline m text hshown)
  · obtain ⟨item, hitem, hpair⟩ := List.mem_map.mp hmem
    cases hpair
    left
    apply hhints
    obtain (hitem | hitem) | hitem := by simpa only [List.mem_append] using hitem
    · exact hitem
    · exact (List.mem_filter.mp (List.mem_of_mem_take hitem)).1
    · exact List.mem_of_mem_take hitem
  · obtain ⟨m', hm', hpair⟩ := List.mem_map.mp hmem
    cases hpair
    exact Or.inr ⟨hm', rfl⟩

/-- A work call shows no text of an inspect-only memory but what is cut from its notice exactly
where each inspect-only memory whose lesson is shown has a text that is cut from the notice. -/
theorem work_withholds_iff (rt : WorkRuntime F) (query : Text) (maxTokens topK : Nat) (tools : List Text)
    (keptDecisions keptEvidence : Nat) (ranked : List (RecallResult F)) {response : WorkResponse F}
    (h : livingMemoryWork rt query maxTokens topK tools keptDecisions keptEvidence ranked = some response) :
    (∀ m text, (m, text) ∈ response.shown → Withheld rt m text) ↔
      ∀ m ∈ shownLessons rt query topK tools ranked,
        Withheld rt m (oneLine (m.textContent rt.toPython) 220) := by
  constructor
  · intro hall m hm
    exact hall m _ (shown_of_mem_shownLessons h hm)
  · intro hlessons m text hmem
    obtain hwithheld | ⟨hm, rfl⟩ := withheld_or_lesson h hmem
    · exact hwithheld
    · exact hlessons m hm

end Facts

/-! ## A credential in a lesson -/

def sampleWorkRuntime : WorkRuntime SampleNumber where
  toFacadeRuntime := sampleFacadeRuntime
  isWord c := c.isAlphanum || c = '_'
  isDecimal := Char.isDigit
  fixed2 _ := "0.50".toList

/-- A credential. -/
def credentialMemory (memoryType : Text) : MemoryEnvelope SampleNumber where
  scope := []
  memoryType := memoryType
  modalities := [⟨"text".toList, .str "open sesame".toList, none, none, none, none, []⟩]
  id := "mem_1".toList
  createdAt := .float .one
  updatedAt := none
  tags := []
  entities := []
  relations := []
  importance := .one
  confidence := .one
  sensitivity := "credential".toList
  provenance := []
  metadata := []
  contentHash := []

/-- A work call that recalls the credential. -/
def recallCredential (memoryType : Text) : Option (WorkResponse SampleNumber) :=
  livingMemoryWork sampleWorkRuntime "sesame".toList 700 8 [] 8 8
    [⟨credentialMemory memoryType, .one, .one, []⟩]

theorem labels_credentialMemory (memoryType : Text) :
    safetyLabels sampleWorkRuntime (credentialMemory memoryType) = some ["credential".toList] := by
  have hlabels : safetyLabels sampleWorkRuntime (credentialMemory []) = some ["credential".toList] := by
    decide +kernel
  exact hlabels

theorem recallCredential_isSome (memoryType : Text) : (recallCredential memoryType).isSome = true := by
  apply livingMemoryWork_isSome
  intro item hitem
  obtain rfl := List.mem_singleton.mp hitem
  rw [labels_credentialMemory]
  rfl

/-- A credential that is no lesson is withheld. -/
theorem credential_withheld : ∃ response, recallCredential "episodic".toList = some response ∧
    ∀ m text, (m, text) ∈ response.shown → Withheld sampleWorkRuntime m text := by
  obtain ⟨response, hresponse⟩ := Option.isSome_iff_exists.mp (recallCredential_isSome "episodic".toList)
  refine ⟨response, hresponse, (work_withholds_iff sampleWorkRuntime "sesame".toList 700 8 [] 8 8
    [⟨credentialMemory "episodic".toList, .one, .one, []⟩] hresponse).mpr ?_⟩
  intro m hm
  have hnone : shownLessons sampleWorkRuntime "sesame".toList 8 []
      [⟨credentialMemory "episodic".toList, .one, .one, []⟩] = [] := rfl
  rw [hnone] at hm
  cases hm

/-- How a truncation begins. -/
theorem IsTruncation.head? {text shown : Text} (h : IsTruncation text shown) :
    shown = [] ∨ shown.head? = (compact text).head? ∨ shown.head? = some '.' := by
  obtain ⟨k, rfl | rfl⟩ := h
  · cases k with
    | zero => exact Or.inl rfl
    | succ k =>
      right; left
      cases compact text <;> rfl
  · right
    cases hcut : ((compact text).take k).rdropWhile PyText.isSpace with
    | nil => exact Or.inr rfl
    | cons c rest =>
      left
      have hbegins : c :: rest <+: compact text := by
        rw [← hcut]
        exact (List.rdropWhile_prefix _ _).trans (List.take_prefix k _)
      obtain ⟨later, hlater⟩ := hbegins
      rw [← hlater]
      rfl

/-- The lesson of a procedural memory shows the credential. -/
theorem credential_shown : ∃ response m text, recallCredential "procedural".toList = some response ∧
    (m, text) ∈ response.shown ∧ ¬ Withheld sampleWorkRuntime m text := by
  obtain ⟨response, hresponse⟩ := Option.isSome_iff_exists.mp (recallCredential_isSome "procedural".toList)
  have hteaches : teaches sampleWorkRuntime "sesame".toList (credentialMemory "procedural".toList) = true := by
    decide +kernel
  have hlesson : credentialMemory "procedural".toList ∈ shownLessons sampleWorkRuntime "sesame".toList 8 []
      [⟨credentialMemory "procedural".toList, .one, .one, []⟩] := by
    rw [shownLessons, List.take_succ_cons, taught, if_pos ⟨hteaches, List.not_mem_nil⟩]
    exact List.mem_cons_self
  have htext : oneLine ((credentialMemory "procedural".toList).textContent sampleWorkRuntime.toPython) 220 =
      "open sesame".toList := by
    decide +kernel
  refine ⟨response, credentialMemory "procedural".toList, "open sesame".toList, hresponse, ?_, ?_⟩
  · rw [← htext]
    exact shown_of_mem_shownLessons hresponse hlesson
  · intro hwithheld
    have hcut := hwithheld _ (labels_credentialMemory _) (by decide)
    have hnotice : (compact (withheldNotice ["credential".toList]
        (credentialMemory "procedural".toList).id)).head? = some '[' := by
      decide +kernel
    obtain hnil | hhead | hdot := hcut.head?
    · simp at hnil
    · rw [hnotice] at hhead
      simp at hhead
    · simp at hdot

end AgentMemory
