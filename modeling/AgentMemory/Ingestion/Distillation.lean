import AgentMemory.Ingestion.Ingest
import AgentMemory.Lib.Occurrences
import AgentMemory.Lib.Words

/-!
# Distillation

`Service.Extract` of `internal/services/distillation`: the candidates that an event gives, from a language model where
one is wired and answers with something usable, else from the text itself. `drafts_spec` says what every candidate is
like, whatever the model answers. The labels are those of a text before its white space is normalised:
`labelled_drafts` says when every candidate that names a credential is labelled so.
-/

namespace AgentMemory

open Occurrences Words

/-- `ports.GenerateRequest`, without the options that are left at their defaults. -/
structure GenerateRequest where
  system : String
  prompt : String

/-- `ExtractedMemorySchema` (`schemas.go`). -/
structure ExtractedMemory where
  type : String
  content : String
  scope : String
  confidence : ℚ
  importance : ℚ

/-- `distillation.Service`. The model answers a request with what `GenerateJSON` decodes of its text; `none` is an
error. -/
structure Distiller where
  lower : Char → Char
  clock : Event → Time
  llm : Option (GenerateRequest → Option (List ExtractedMemory))

/-- `containsAny` (`service.go:83-90`). -/
def Distillation.containsAny (text : List Char) (terms : List String) : Bool :=
  terms.any fun term => contains text term.toList

/-- `normalizeMemoryText` (`service.go:79-81`). -/
def normalizeMemoryText (text : List Char) : List Char := join (fields text) [' ']

/-- `classify` (`service.go:65-77`). -/
def classify (lower : Char → Char) (text : List Char) : MemoryType :=
  let t := toLower lower text
  if Distillation.containsAny t ["prefiro", "prefer", "gosto", "não gosto", "quero que", "my preference"] then
    .preference
  else if Distillation.containsAny t ["quando", "sempre que", "use este processo", "passo", "workflow"] then .procedure
  else if Distillation.containsAny t ["estou", "sou", "trabalho", "construindo", "projeto", "empresa"] then .fact
  else .episode

/-- `confidenceFor` (`service.go:92-100`). -/
def confidenceFor (event : Event) (typ : MemoryType) : ℚ :=
  if event.role = .user then
    if typ = .preference ∨ typ = .fact then 86 / 100 else 74 / 100
  else 62 / 100

/-- `ClampScore` (`memory/confidence.go`). -/
def clampScore (v : ℚ) : ℚ := if v < 0 then 0 else if 1 < v then 1 else v

/-- `importanceFor` (`service.go:102-111`). -/
def importanceFor (text : List Char) (typ : MemoryType) : ℚ :=
  let base : ℚ := if typ = .preference ∨ typ = .procedure then 70 / 100 else 45 / 100
  clampScore (if 160 < len text then base + 10 / 100 else base)

/-- What makes `safetyLabels` label a text as a credential. -/
def credentialTerms : List String := ["senha", "password", "api key", "token", "secret"]

/-- `safetyLabels` (`service.go:113-123`). -/
def Distillation.safetyLabels (lower : Char → Char) (text : List Char) : List SafetyLabel :=
  let t := toLower lower text
  [.safetyInternal] ++ (if Distillation.containsAny t credentialTerms then [.safetyCredential] else []) ++
    (if contains t ['@'] || Distillation.containsAny t ["cpf", "rg", "telefone"] then [.safetyPII] else [])

/-- The scope of an event where nothing else is said (`service.go:42-45`, `extractor.go:58-61`). -/
def eventScope (event : Event) : Scope := if event.projectID ≠ "" then .project else .user

/-- `ExtractionSystemPrompt` (`prompts.go`). -/
def extractionSystemPrompt : String :=
  "Extract durable, useful and scoped memories from agent events. Return JSON only."

/-- The string an `EventRole` is. -/
def EventRole.name : EventRole → String
  | .user => "user"
  | .assistant => "assistant"
  | .system => "system"
  | .tool => "tool"
  | .other name => name

/-- `extractionUserPrompt` (`prompts.go`). -/
def extractionUserPrompt (event : Event) (text : List Char) : String :=
  "Extract memory candidates from this agent event.\n\nEvent role: " ++ event.role.name ++ "\nEvent content:\n" ++
    String.ofList text ++
    "\n\nReturn a JSON array (possibly empty) of objects with fields:\n" ++
    "- \"type\": one of \"episode\", \"fact\", \"preference\", \"procedure\"\n" ++
    "- \"content\": a single self-contained sentence stating the memory\n" ++
    "- \"scope\": \"user\" or \"project\"\n" ++
    "- \"confidence\": number in [0,1] for how certain the memory is\n" ++
    "- \"importance\": number in [0,1] for how useful it will be later\n\n" ++
    "Only extract durable information worth recalling in future sessions.\nSkip greetings, fillers and one-off chatter."

namespace Distiller

/-- The type of an item (`extractor.go:50-55`). -/
def itemType (s : Distiller) (item : ExtractedMemory) (content : List Char) : MemoryType :=
  match MemoryType.ofName item.type with
  | .episode => .episode
  | .fact => .fact
  | .preference => .preference
  | .procedure => .procedure
  | _ => classify s.lower content

/-- The scope of an item (`extractor.go:56-64`). -/
def itemScope (event : Event) (item : ExtractedMemory) : Scope :=
  if item.scope = "user" then .user
  else if item.scope = "project" then .project
  else eventScope event

/-- What the loop of `llmExtract` makes of an item (`extractor.go:45-83`). -/
def itemDraft (s : Distiller) (event : Event) (item : ExtractedMemory) : Option Draft :=
  let content := trimSpace item.content.toList
  if content = [] then none
  else some {
    madeAt := s.clock event
    type := s.itemType item content
    scope := itemScope event item
    content := String.ofList (normalizeMemoryText content)
    confidence := clampScore item.confidence
    importance := clampScore item.importance
    safetyLabels := Distillation.safetyLabels s.lower content
    distiller := "llm_v1" }

/-- `llmExtract` (`extractor.go:33-84`). -/
def llmExtract (s : Distiller) (event : Event) (text : List Char) : List Draft :=
  match s.llm with
  | none => []
  | some generateJSON =>
    ((generateJSON ⟨extractionSystemPrompt, extractionUserPrompt event text⟩).getD []).filterMap (s.itemDraft event)

/-- The candidate of the text itself (`service.go:40-62`). -/
def heuristicDraft (s : Distiller) (event : Event) (text : List Char) : Draft where
  madeAt := s.clock event
  type := classify s.lower text
  scope := eventScope event
  content := String.ofList (normalizeMemoryText text)
  confidence := confidenceFor event (classify s.lower text)
  importance := importanceFor text (classify s.lower text)
  safetyLabels := Distillation.safetyLabels s.lower text
  distiller := "heuristic_v1"

/-- The text that is distilled (`service.go:25-31`). -/
def textOf (event : Event) : List Char :=
  if trimSpace event.content.toList ≠ [] then trimSpace event.content.toList else trimSpace event.toolResult.toList

/-- `Extract` (`service.go:21-63`), up to the ids and the owner. -/
def drafts (s : Distiller) (event : Event) : List Draft :=
  if textOf event = [] then []
  else if s.llmExtract event (textOf event) ≠ [] then s.llmExtract event (textOf event)
  else [s.heuristicDraft event (textOf event)]

end Distiller

/-! ## Normalised text -/

theorem join_fields (text : List Char) : join (fields text) [' '] = spaced ' ' (fields text) := rfl

theorem fields_normalizeMemoryText (text : List Char) : fields (normalizeMemoryText text) = fields text :=
  words_spaced (by decide) (areWords_filter_splitOnP text)

theorem normalizeMemoryText_normalizeMemoryText (text : List Char) :
    normalizeMemoryText (normalizeMemoryText text) = normalizeMemoryText text := by
  rw [normalizeMemoryText, fields_normalizeMemoryText, ← normalizeMemoryText]

theorem trimSpace_normalizeMemoryText (text : List Char) :
    trimSpace (normalizeMemoryText text) = normalizeMemoryText text := by
  have hwords : AreWords isSpace (fields text) := areWords_filter_splitOnP text
  rw [trimSpace, normalizeMemoryText, join_fields, dropWhile_spaced hwords, rdropWhile_spaced hwords]

theorem normalizeText_eq (text : String) : normalizeText text = String.ofList (normalizeMemoryText text.toList) := rfl

theorem normalizeMemoryText_eq_nil {text : List Char} (h : normalizeMemoryText text = []) :
    ∀ c ∈ text, isSpace c = true := by
  have hfields := fields_normalizeMemoryText text
  rw [h] at hfields
  have hlength : starts isSpace true text = 0 := by
    rw [← (length_filter_splitOnP text).1]
    have hnil : (text.splitOnP isSpace).filter (· ≠ []) = [] := hfields.symm
    simpa using hnil
  by_contra hword
  simp only [not_forall, Bool.not_eq_true] at hword
  obtain ⟨c, hc, hspace⟩ := hword
  exact Nat.ne_of_gt (starts_true_pos.mpr ⟨c, hc, hspace⟩) hlength

theorem normalizeMemoryText_trimSpace_ne_nil {text : List Char} (h : trimSpace text ≠ []) :
    normalizeMemoryText (trimSpace text) ≠ [] := by
  intro hnil
  have hblank := normalizeMemoryText_eq_nil hnil
  have hlast := hblank _ (List.getLast_mem h)
  have htrimmed : isSpace ((trimSpace text).getLast h) ≠ true := by
    have hself : (trimSpace text).rdropWhile isSpace = trimSpace text := by
      rw [trimSpace, List.rdropWhile_idempotent]
    exact (List.rdropWhile_eq_self_iff.mp hself) h
  exact htrimmed hlast

/-! ## What every candidate is like -/

theorem clampScore_mem (v : ℚ) : 0 ≤ clampScore v ∧ clampScore v ≤ 1 := by
  unfold clampScore
  split
  · exact ⟨le_refl 0, by decide⟩
  split
  · exact ⟨by decide, le_refl 1⟩
  · next hneg hone => exact ⟨not_lt.mp hneg, not_lt.mp hone⟩

theorem confidenceFor_mem (event : Event) (typ : MemoryType) :
    0 ≤ confidenceFor event typ ∧ confidenceFor event typ ≤ 1 := by
  unfold confidenceFor
  split
  · split <;> norm_num
  · norm_num

/-- A candidate of one of the four distilled types, in the scope of a user or a project. -/
structure Draft.WellFormed (draft : Draft) : Prop where
  type : draft.type ∈ [MemoryType.episode, .fact, .preference, .procedure]
  scope : draft.scope = .user ∨ draft.scope = .project
  content : draft.content ≠ "" ∧ normalizeText draft.content = draft.content
  confidence : 0 ≤ draft.confidence ∧ draft.confidence ≤ 1
  importance : 0 ≤ draft.importance ∧ draft.importance ≤ 1
  labels : .safetyInternal ∈ draft.safetyLabels

theorem mem_classify (lower : Char → Char) (text : List Char) :
    classify lower text ∈ [MemoryType.episode, .fact, .preference, .procedure] := by
  unfold classify
  dsimp only
  split_ifs <;> simp

theorem eventScope_eq (event : Event) : eventScope event = .user ∨ eventScope event = .project := by
  unfold eventScope
  split
  · exact .inr rfl
  · exact .inl rfl

theorem safetyInternal_mem (lower : Char → Char) (text : List Char) :
    .safetyInternal ∈ Distillation.safetyLabels lower text := by
  simp [Distillation.safetyLabels]

theorem content_normalized {text : List Char} (h : trimSpace text ≠ []) :
    String.ofList (normalizeMemoryText (trimSpace text)) ≠ "" ∧
      normalizeText (String.ofList (normalizeMemoryText (trimSpace text))) =
        String.ofList (normalizeMemoryText (trimSpace text)) := by
  refine ⟨fun hempty => normalizeMemoryText_trimSpace_ne_nil h ?_, ?_⟩
  · simpa using congrArg String.toList hempty
  · rw [normalizeText_eq, String.toList_ofList, normalizeMemoryText_normalizeMemoryText]

namespace Distiller

theorem exists_textOf (event : Event) : ∃ text, textOf event = trimSpace text := by
  unfold textOf
  split
  · exact ⟨_, rfl⟩
  · exact ⟨_, rfl⟩

theorem wellFormed_heuristicDraft (s : Distiller) {event : Event} (h : textOf event ≠ []) :
    (s.heuristicDraft event (textOf event)).WellFormed := by
  obtain ⟨text, htext⟩ := exists_textOf event
  exact {
    type := mem_classify _ _
    scope := eventScope_eq event
    content := by
      rw [heuristicDraft, htext]
      exact content_normalized (htext ▸ h)
    confidence := confidenceFor_mem _ _
    importance := clampScore_mem _
    labels := safetyInternal_mem _ _ }

theorem mem_itemType (s : Distiller) (item : ExtractedMemory) (content : List Char) :
    s.itemType item content ∈ [MemoryType.episode, .fact, .preference, .procedure] := by
  unfold itemType
  split
  · simp
  · simp
  · simp
  · simp
  · exact mem_classify _ _

theorem itemScope_eq (event : Event) (item : ExtractedMemory) :
    itemScope event item = .user ∨ itemScope event item = .project := by
  unfold itemScope
  split
  · exact .inl rfl
  split
  · exact .inr rfl
  · exact eventScope_eq event

theorem wellFormed_itemDraft {s : Distiller} {event : Event} {item : ExtractedMemory} {draft : Draft}
    (h : s.itemDraft event item = some draft) : draft.WellFormed := by
  obtain ⟨hne, h⟩ := Option.ite_none_left_eq_some.mp h
  obtain rfl := Option.some.inj h
  exact ⟨s.mem_itemType _ _, itemScope_eq _ _, content_normalized hne, clampScore_mem _, clampScore_mem _,
    safetyInternal_mem _ _⟩

/-- What is distilled came of an item, or of the text. -/
theorem mem_drafts {s : Distiller} {event : Event} {draft : Draft} (h : draft ∈ s.drafts event) :
    (∃ generateJSON request items item, s.llm = some generateJSON ∧ generateJSON request = some items ∧ item ∈ items ∧
      s.itemDraft event item = some draft) ∨
    (textOf event ≠ [] ∧ draft = s.heuristicDraft event (textOf event)) := by
  unfold drafts at h
  split at h
  · cases h
  next htext =>
  split at h
  · left
    unfold llmExtract at h
    split at h
    · cases h
    next generateJSON hllm =>
    obtain ⟨item, hitem, hdraft⟩ := List.mem_filterMap.mp h
    cases hitems : generateJSON ⟨extractionSystemPrompt, extractionUserPrompt event (textOf event)⟩ with
    | none => simp [hitems] at hitem
    | some items => exact ⟨generateJSON, _, items, item, hllm, hitems, by simpa [hitems] using hitem, hdraft⟩
  · exact .inr ⟨htext, List.mem_singleton.mp h⟩

/-- Whatever a model answers, an event without a text gives no candidate, any other event gives one at least, and every
candidate is well formed. -/
theorem drafts_spec (s : Distiller) (event : Event) :
    (s.drafts event = [] ↔ textOf event = []) ∧ ∀ draft ∈ s.drafts event, draft.WellFormed := by
  constructor
  · constructor
    · intro h
      by_contra htext
      unfold drafts at h
      rw [if_neg htext] at h
      split at h
      · next hllm => exact hllm h
      · cases h
    · intro h
      rw [drafts, if_pos h]
  · intro draft hdraft
    rcases mem_drafts hdraft with ⟨_, _, _, _, _, _, _, hitem⟩ | ⟨htext, rfl⟩
    · exact wellFormed_itemDraft hitem
    · exact s.wellFormed_heuristicDraft htext

end Distiller

/-! ## Credentials -/

/-- The text names a credential. -/
def namesCredential (lower : Char → Char) (text : List Char) : Bool :=
  Distillation.containsAny (toLower lower text) credentialTerms

theorem safetyCredential_mem_iff (lower : Char → Char) (text : List Char) :
    .safetyCredential ∈ Distillation.safetyLabels lower text ↔ namesCredential lower text = true := by
  unfold Distillation.safetyLabels namesCredential
  by_cases h : Distillation.containsAny (toLower lower text) credentialTerms = true
  · simp [h]
  · refine iff_of_false (fun hmem => ?_) h
    dsimp only at hmem
    rw [if_neg h] at hmem
    split at hmem <;> simp at hmem

/-- A content that names a credential is labelled so. -/
def Draft.Labelled (lower : Char → Char) (draft : Draft) : Prop :=
  namesCredential lower draft.content.toList = true → .safetyCredential ∈ draft.safetyLabels

/-- The white space that is normalised hides no credential. -/
def Shown (lower : Char → Char) (text : List Char) : Prop :=
  namesCredential lower (normalizeMemoryText text) = true → namesCredential lower text = true

namespace Distiller

/-- No content that a model answers with hides a credential. -/
def AnswersShown (s : Distiller) : Prop :=
  ∀ generateJSON request items, s.llm = some generateJSON → generateJSON request = some items → ∀ item ∈ items,
    Shown s.lower (trimSpace item.content.toList)

theorem labelled_drafts {s : Distiller} (hs : s.AnswersShown) {event : Event} (htext : Shown s.lower (textOf event)) :
    ∀ draft ∈ s.drafts event, draft.Labelled s.lower := by
  intro draft hdraft hnames
  rcases mem_drafts hdraft with ⟨generateJSON, request, items, item, hllm, hitems, hitem, heq⟩ | ⟨-, rfl⟩
  · have hshown := hs generateJSON request items hllm hitems item hitem
    obtain ⟨-, heq⟩ := Option.ite_none_left_eq_some.mp heq
    obtain rfl := Option.some.inj heq
    rw [String.toList_ofList] at hnames
    exact (safetyCredential_mem_iff _ _).mpr (hshown hnames)
  · simp only [heuristicDraft, String.toList_ofList] at hnames
    exact (safetyCredential_mem_iff _ _).mpr (htext hnames)

/-- The text of an event that `Ingest` makes is normalised already. -/
theorem shown_textOf_newEvent (lower : Char → Char) (now : Time) (id : String) (req : IngestRequest) :
    Shown lower (textOf (newEvent now id req)) := by
  have hself : normalizeMemoryText (textOf (newEvent now id req)) = textOf (newEvent now id req) := by
    have htrim : ∀ text : String,
        trimSpace (normalizeText text).toList = normalizeMemoryText text.toList := fun text => by
      rw [normalizeText_eq, String.toList_ofList, trimSpace_normalizeMemoryText]
    unfold textOf newEvent
    dsimp only
    rw [htrim, htrim]
    split <;> exact normalizeMemoryText_normalizeMemoryText _
  intro h
  rwa [hself] at h

end Distiller

end AgentMemory
