import AgentMemory.Engine.Frames
import AgentMemory.Engine.Lifecycles

/-!
# Evidence packets and their budget

`governance_for` of `engines/living_memoryv2/src/living_memoryv2/governance.py` and
`ContextAssembler` of `context.py`. A text that costs more than what remains of the budget is
cut to as many characters as the remaining tokens stand for, so each packet costs no more than
what remained before it; `packets_keep_budget` carries that through the loop.
-/

namespace AgentMemory

open Dicts PyText JsonText Sorted Fallible

/-- The runtime of the frame and of the governance of a memory. -/
structure PacketRuntime (F : Type) extends FrameRuntime F, GovernedRuntime F

inductive PromptPolicy where
  | inspectOnly | inline
  deriving DecidableEq

/-- What `governance_for` returns; what it leaves out is none or empty. -/
structure Governance (F : Type) where
  state : LifecycleState
  sensitivity : Text
  safetyLabels : List Text
  promptPolicy : PromptPolicy
  effectiveImportance : F
  version : Option Text
  supersededBy : Option Text
  supersedes : List Text

/-- The metadata of a packet (`context.py:77-84`). -/
structure PacketMetadata (F : Type) where
  scope : List (Text × Json F)
  tags : List Text
  entities : List Text
  modalities : List Text
  contentHash : Text
  governance : Governance F

/-- `EvidencePacket` (`context.py:9-21`). -/
structure EvidencePacket (F : Type) where
  memoryId : Text
  memoryType : Text
  createdAt : Number F
  source : Option (Json F)
  snippet : Text
  score : F
  confidence : F
  whyRetrieved : List Text
  provenance : List (Text × Json F)
  metadata : PacketMetadata F
  estimatedTokens : Nat

/-- `ContextAssembler` (`context.py:39-44`). -/
structure ContextAssembler where
  maxTokens : Nat
  charsPerToken : Nat
  maxTokens_pos : 0 < maxTokens
  charsPerToken_pos : 0 < charsPerToken

/-- The packets so far and the tokens they use. -/
structure Packed (F : Type) where
  packets : List (EvidencePacket F)
  usedTokens : Nat

section Model

variable {F : Type} (rt : PacketRuntime F)

/-! ## Governance -/

/-- `governance_for` (`governance.py:54-73`); none is an exception. -/
def governanceFor (m : MemoryEnvelope F) : Option (Governance F) := do
  let lifecycle ← lifecycleFor rt.toGovernedRuntime m
  let labels ← safetyLabels rt.toWorkRuntime m
  let effective ← lifecycle.effectiveImportance rt.toLifecycleRuntime [] none none
  some {
    state := lifecycle.state
    sensitivity := normalizedSensitivity rt.toWorkRuntime m.sensitivity
    safetyLabels := labels
    promptPolicy := if isInspectOnly labels = true then .inspectOnly else .inline
    effectiveImportance := rt.round4 effective
    version := lifecycle.version
    supersededBy := lifecycle.supersededBy
    supersedes := lifecycle.supersedes.take 4 }

/-- What a prompt may show of a memory with the governance (`governance.py:76-83`). -/
def Governance.promptText (governance : Governance F) (m : MemoryEnvelope F) : Text :=
  if governance.promptPolicy = .inline then m.textContent rt.toPython
  else withheldNotice governance.safetyLabels m.id

/-- `prompt_text_for` (`governance.py:76-83`). -/
def promptTextFor (m : MemoryEnvelope F) : Option Text :=
  (governanceFor rt m).map fun governance => governance.promptText rt m

/-- The packet of a result (`context.py:67-86`). -/
def RecallResult.packet (result : RecallResult F) (governance : Governance F) (snippet : Text) (tokens : Nat) :
    EvidencePacket F where
  memoryId := result.memory.id
  memoryType := result.memory.memoryType
  createdAt := result.memory.createdAt
  source := valueAt "source".toList result.memory.provenance
  snippet := snippet
  score := result.score
  confidence := result.confidence
  whyRetrieved := result.whyRetrieved
  provenance := result.memory.provenance
  metadata := {
    scope := result.memory.scope
    tags := result.memory.tags
    entities := result.memory.entities
    modalities := sortedSet (result.memory.modalities.map ModalityRef.modality)
    contentHash := result.memory.contentHash
    governance := governance }
  estimatedTokens := tokens

/-- The components of the key by which packets are ordered (`context.py:49-54`). -/
def packetKeys : List (RecallResult F → RecallResult F → Bool) :=
  [fun a b => !a.memory.leads rt.toFrameRuntime || b.memory.leads rt.toFrameRuntime,
    fun a b => rt.le a.score b.score,
    fun a b => rt.le a.memory.importance b.memory.importance,
    fun a b => Number.le rt.toFrameRuntime a.memory.createdAt b.memory.createdAt]

namespace ContextAssembler

/-- `__init__` (`context.py:40-44`), which raises without a budget. -/
def init (maxTokens charsPerToken : Int) : Option ContextAssembler :=
  if h : 0 < maxTokens then
    some ⟨maxTokens.toNat, (max 1 charsPerToken).toNat, Int.pos_iff_toNat_pos.mp h,
      Int.pos_iff_toNat_pos.mp (lt_max_of_lt_left Int.one_pos)⟩
  else none

variable (a : ContextAssembler)

/-- `estimate_tokens` (`context.py:91-92`). -/
def estimateTokens (text : Text) : Nat := max 1 ((text.length + a.charsPerToken - 1) / a.charsPerToken)

/-- `_fit_text` (`context.py:94-102`). -/
def fitText (text : Text) (tokenBudget : Nat) : Text × Nat :=
  if text = [] ∨ tokenBudget = 0 then ([], 0)
  else
    let tokens := a.estimateTokens text
    if tokens ≤ tokenBudget then (text, tokens)
    else
      let snippet := (text.take (tokenBudget * a.charsPerToken)).rdropWhile PyText.isSpace
      (snippet, a.estimateTokens snippet)

/-- The body of the loop over the results (`context.py:59-88`); once nothing remains the loop
has ended, so later results change nothing. -/
def addPacket (state : Packed F) (result : RecallResult F) : Option (Packed F) :=
  let remaining := a.maxTokens - state.usedTokens
  if remaining = 0 then some state
  else do
    let text ← promptTextFor rt result.memory
    let fitted := a.fitText text remaining
    if fitted.1 = [] then some state
    else do
      let governance ← governanceFor rt result.memory
      some ⟨state.packets ++ [result.packet governance fitted.1 fitted.2], state.usedTokens + fitted.2⟩

variable (sorting : StableSort (RecallResult F))

/-- The results in the order of their packets (`context.py:47-56`). -/
def ordered (results : List (RecallResult F)) : List (RecallResult F) :=
  sorting.descending (lexLess (packetKeys rt)) results

/-- `assemble` (`context.py:46-89`); none is an exception. -/
def assemble (results : List (RecallResult F)) : Option (List (EvidencePacket F)) :=
  ((ordered rt sorting results).foldlM (a.addPacket rt) ⟨[], 0⟩).map Packed.packets

end ContextAssembler

/-- A text or a beginning of it without the spaces at its end. -/
def IsCut (text snippet : Text) : Prop :=
  snippet = text ∨ ∃ k, snippet = (text.take k).rdropWhile PyText.isSpace

/-- The packet shows what a prompt may show of the memory of the result, at its own estimate. -/
structure IsPacketOf (a : ContextAssembler) (result : RecallResult F) (packet : EvidencePacket F) : Prop where
  made : ∃ governance, governanceFor rt result.memory = some governance ∧
    packet = result.packet governance packet.snippet packet.estimatedTokens
  shown : ∃ text, promptTextFor rt result.memory = some text ∧ IsCut text packet.snippet
  snippet_ne : packet.snippet ≠ []
  estimated : packet.estimatedTokens = a.estimateTokens packet.snippet

/-- What a state says of the results it is made of. -/
structure Packed.Accounts (a : ContextAssembler) (results : List (RecallResult F)) (state : Packed F) : Prop where
  used : state.usedTokens = (state.packets.map EvidencePacket.estimatedTokens).sum
  within : state.usedTokens ≤ a.maxTokens
  kept : ∃ kept : List (RecallResult F), kept.Sublist results ∧ List.Forall₂ (IsPacketOf rt a) kept state.packets

end Model

section Facts

variable {F : Type} {rt : PacketRuntime F} {a : ContextAssembler}

/-- What the packets show is what the other surfaces show. -/
theorem promptText_of_promptTextFor {m : MemoryEnvelope F} {text : Text} (h : promptTextFor rt m = some text) :
    promptText rt.toWorkRuntime m = some text := by
  obtain ⟨governance, hgovernance, rfl⟩ := Option.map_eq_some_iff.mp h
  simp only [governanceFor, Option.bind_eq_bind, Option.bind_eq_some_iff] at hgovernance
  obtain ⟨lifecycle, -, labels, hlabels, effective, -, hgovernance⟩ := hgovernance
  obtain rfl := Option.some.inj hgovernance
  rw [promptText, hlabels, Option.map_some]
  by_cases hpolicy : isInspectOnly labels = true <;> simp [Governance.promptText, hpolicy]

namespace ContextAssembler

/-- As many characters as some tokens stand for cost no more than these tokens. -/
theorem estimateTokens_le {text : Text} {tokens : Nat} (htokens : 0 < tokens)
    (h : text.length ≤ tokens * a.charsPerToken) : a.estimateTokens text ≤ tokens := by
  have hpos := a.charsPerToken_pos
  refine max_le htokens (Nat.le_of_lt_succ ((Nat.div_lt_iff_lt_mul hpos).mpr ?_))
  rw [Nat.succ_mul]
  omega

/-- What is fitted is a cut that costs its estimate and no more than the budget. -/
theorem spec_fitText {text : Text} {budget : Nat} (h : (a.fitText text budget).1 ≠ []) :
    IsCut text (a.fitText text budget).1 ∧
      (a.fitText text budget).2 = a.estimateTokens (a.fitText text budget).1 ∧
      (a.fitText text budget).2 ≤ budget := by
  unfold fitText at h ⊢
  dsimp only at h ⊢
  split at h
  · exact absurd rfl h
  · next hsome =>
    rw [if_neg hsome]
    split
    · next hfits => exact ⟨Or.inl rfl, rfl, hfits⟩
    · have hbudget : 0 < budget := by omega
      refine ⟨Or.inr ⟨_, rfl⟩, rfl, estimateTokens_le hbudget ?_⟩
      have hcut := (List.rdropWhile_prefix PyText.isSpace (text.take (budget * a.charsPerToken))).length_le
      exact hcut.trans (List.length_take_le _ _)

end ContextAssembler

namespace Packed.Accounts

variable {results : List (RecallResult F)} {state state' : Packed F} {result : RecallResult F}

/-- A result without a packet. -/
theorem skip (h : state.Accounts rt a results) : state.Accounts rt a (results ++ [result]) where
  used := h.used
  within := h.within
  kept := by
    obtain ⟨kept, hsub, hkept⟩ := h.kept
    exact ⟨kept, hsub.trans (List.sublist_append_left _ _), hkept⟩

/-- A result with a packet that costs no more than what remains. -/
theorem add (h : state.Accounts rt a results) {packet : EvidencePacket F} (hpacket : IsPacketOf rt a result packet)
    (hremains : packet.estimatedTokens ≤ a.maxTokens - state.usedTokens) :
    Packed.Accounts rt a (results ++ [result])
      ⟨state.packets ++ [packet], state.usedTokens + packet.estimatedTokens⟩ where
  used := by
    rw [h.used, List.map_append, List.sum_append]
    simp
  within := by
    have hwithin := h.within
    show state.usedTokens + packet.estimatedTokens ≤ a.maxTokens
    omega
  kept := by
    obtain ⟨kept, hsub, hkept⟩ := h.kept
    have hlast : List.Forall₂ (IsPacketOf rt a) [result] [packet] := List.Forall₂.cons hpacket List.Forall₂.nil
    exact ⟨kept ++ [result], hsub.append (List.Sublist.refl _), List.rel_append hkept hlast⟩

theorem addPacket (h : state.Accounts rt a results) (hstep : a.addPacket rt state result = some state') :
    state'.Accounts rt a (results ++ [result]) := by
  unfold ContextAssembler.addPacket at hstep
  dsimp only at hstep
  split at hstep
  · obtain rfl := Option.some.inj hstep
    exact h.skip
  · simp only [Option.bind_eq_bind, Option.bind_eq_some_iff] at hstep
    obtain ⟨text, htext, hstep⟩ := hstep
    split at hstep
    · obtain rfl := Option.some.inj hstep
      exact h.skip
    · next hsnippet =>
      obtain ⟨governance, hgovernance, hstep⟩ := Option.bind_eq_some_iff.mp hstep
      obtain rfl := Option.some.inj hstep
      obtain ⟨hcut, htokens, hbudget⟩ := ContextAssembler.spec_fitText hsnippet
      have hpacket : IsPacketOf rt a result (result.packet governance
          (a.fitText text (a.maxTokens - state.usedTokens)).1
          (a.fitText text (a.maxTokens - state.usedTokens)).2) :=
        ⟨⟨governance, hgovernance, rfl⟩, ⟨text, htext, hcut⟩, hsnippet, htokens⟩
      exact h.add hpacket hbudget

/-- The loop over the results. -/
theorem addPackets {later : List (RecallResult F)} (h : state.Accounts rt a results)
    (hrun : later.foldlM (a.addPacket rt) state = some state') : state'.Accounts rt a (results ++ later) := by
  induction later generalizing state results with
  | nil =>
    obtain rfl := Option.some.inj hrun
    rwa [List.append_nil]
  | cons result later ih =>
    rw [List.foldlM_cons, Option.bind_eq_bind, Option.bind_eq_some_iff] at hrun
    obtain ⟨next, hnext, hrun⟩ := hrun
    have hlater := ih (h.addPacket hnext) hrun
    rwa [List.append_assoc] at hlater

end Packed.Accounts

/-- Packets are assembled where the governance of each memory can be read. -/
theorem ContextAssembler.isSome_assemble {sorting : StableSort (RecallResult F)} {results : List (RecallResult F)}
    (h : ∀ result ∈ results, (governanceFor rt result.memory).isSome = true) :
    (a.assemble rt sorting results).isSome = true := by
  unfold assemble
  rw [Option.isSome_map]
  apply isSome_foldlM
  intro state result hresult
  have hmem := (sorting.perm_descending _ results).mem_iff.mp hresult
  obtain ⟨governance, hgovernance⟩ := Option.isSome_iff_exists.mp (h result hmem)
  simp only [addPacket, promptTextFor, hgovernance, Option.map_some, Option.bind_eq_bind, Option.bind_some]
  split
  · rfl
  · split <;> rfl

end Facts

/-! ## The packet of a credential -/

/-- The number of the sample that is nearest. -/
def sampleOfRat (q : ℚ) : SampleNumber := if q ≤ 1 / 2 then .half else .one

theorem sampleOfRat_le (p q : ℚ) (h : p ≤ q) : sampleWorkRuntime.le (sampleOfRat p) (sampleOfRat q) = true := by
  by_cases hq : q ≤ 1 / 2
  · rw [sampleOfRat, sampleOfRat, if_pos hq, if_pos (h.trans hq)]
    rfl
  · rw [sampleOfRat, sampleOfRat, if_neg hq]
    split <;> rfl

def samplePacketRuntime : PacketRuntime SampleNumber where
  toFrameRuntime := sampleFrameRuntime
  add x _ := x
  sub x _ := x
  mul x _ := x
  ofRat := sampleOfRat
  log1p _ := some .half
  ofRat_le := sampleOfRat_le
  round4 x := x

end AgentMemory
