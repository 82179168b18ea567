import AgentMemory.Forgetting.Interleaving
import AgentMemory.Forgetting.Redaction

/-!
# What a redaction reaches

`Redact` (`internal/services/forgetting/redaction.go:52-86`) masks the content and the summary of a
memory. Consolidation keeps what the content was in the metadata (`consolidation/versioning.go`), and
no line of the redactor looks there: the snapshots of a redacted memory are the snapshots it had.
-/

namespace AgentMemory

open Tables Calls

/-- The snapshots under `Metadata["versions"]`, as Consolidate put them there or decoded from JSON. -/
def Memory.history (m : Memory) : List Version :=
  match m.metadata.lookup "versions" with
  | some (.versions history) | some (.decodedVersions history) => history
  | _ => []

/-- There is nothing left to redact in any text of a memory. -/
structure Covered (m : Memory) : Prop where
  content : Masked m.content
  summary : Masked m.summary
  snapshots : ∀ v ∈ m.history, Masked v.content

/-- What a redaction of a memory can reach is all there is: its texts are masked in one application, and
its snapshots are masked already. -/
structure WithinReach (m : Memory) : Prop where
  content : ¬ NumberBeforePhone (beforePhones m.content.toList)
  summary : ¬ NumberBeforePhone (beforePhones m.summary.toList)
  snapshots : ∀ v ∈ m.history, Masked v.content

theorem foldl_redactStep_changed (patterns : List PIIPattern) {state : List Char × Bool} (h : state.2 = true) :
    (patterns.foldl redactStep state).2 = true := by
  induction patterns generalizing state with
  | nil => exact h
  | cons p patterns ih =>
    rw [List.foldl_cons]
    apply ih
    unfold redactStep
    split
    · rfl
    · exact h

/-- Where nothing has changed, no pattern has matched. -/
theorem redactPII_of_unchanged {text : String} (h : (redactPII text).2 = false) : (redactPII text).1 = text := by
  have hfold : ∀ patterns : List PIIPattern, (patterns.foldl redactStep (text.toList, false)).2 = false →
      patterns.foldl redactStep (text.toList, false) = (text.toList, false) := by
    intro patterns hpatterns
    induction patterns with
    | nil => rfl
    | cons p patterns ih =>
      rw [List.foldl_cons] at hpatterns ⊢
      by_cases hp : Regex.matchString p.pattern.re text.toList = true
      · rw [redactStep, if_pos hp, foldl_redactStep_changed patterns rfl] at hpatterns
        cases hpatterns
      · rw [redactStep, if_neg hp] at hpatterns ⊢
        exact ih hpatterns
  have hall := hfold piiPatterns h
  unfold redactPII
  rw [hall]
  exact String.ofList_toList

theorem history_encoded (m : Memory) : m.encoded.history = m.history := by
  unfold Memory.history
  rw [lookup_encoded]
  cases m.metadata.lookup "versions" with
  | none => rfl
  | some value => cases value <;> rfl

/-- A store keeps the texts and the snapshots of a memory, in whichever representation. -/
theorem history_stored (b : Backend) (old : Option Memory) (m : Memory) : (b.stored old m).history = m.history := by
  cases b with
  | memory => rfl
  | postgres ts ilike =>
    cases old with
    | none => exact history_encoded m
    | some old => exact history_encoded m

@[simp] theorem stored_summary (b : Backend) (old : Option Memory) (m : Memory) :
    (b.stored old m).summary = m.summary := by
  cases b <;> cases old <;> rfl

/-- What a redaction makes of a memory. -/
structure RedactedFrom (before after : Memory) : Prop where
  content : after.content = (redactPII before.content).1
  summary : after.summary = (redactPII before.summary).1
  history : after.history = before.history

variable {d : Deployment} {tenantID memoryID reason : String} {receipt : DeletionReceipt} {w w' : World}

theorem exec_indexMemory_memories {m : Memory} {o : Except Err Unit}
    (h : Exec (step d) (indexMemory m) w o w') : w'.memories = w.memories := by
  have hindexing : wp (watched d) (fun _ t => SameRows w t.1 ∧ t.2 = []) (indexMemory m) (w, []) :=
    wp_indexing (indexes_indexMemory m)
  have hsame := wp_of_recorded _ w [] (wp_mono (fun _ _ h => h.1) _ _ hindexing)
  exact (h.post hsame).memories

/-- A redaction that succeeds scrubs the content and the summary, and touches nothing else that is text. -/
theorem exec_redact_scrubbed {scrub : String → String × Bool}
    (hkept : ∀ text, (scrub text).2 = false → (scrub text).1 = text)
    (h : Exec (step d) (redact scrub tenantID memoryID reason) w (.ok receipt) w') :
    ∃ before after, w.memories.find? memoryID = some before ∧ w'.memories.find? memoryID = some after ∧
      after.content = (scrub before.content).1 ∧ after.summary = (scrub before.summary).1 ∧
        after.history = before.history := by
  suffices hwp : wp (step d) (fun o w' => o = .ok receipt → ∃ before after,
      w.memories.find? memoryID = some before ∧ w'.memories.find? memoryID = some after ∧
        after.content = (scrub before.content).1 ∧ after.summary = (scrub before.summary).1 ∧
          after.history = before.history)
      (redact scrub tenantID memoryID reason) w from h.post hwp rfl
  unfold redact
  rw [wp_perform_bind]
  intro r w₁ hget
  rcases step_cases hget with ⟨before, rfl, hfound, rfl⟩ | ⟨e, rfl, rfl⟩
  swap
  · exact nofun
  obtain ⟨hbefore, -, -⟩ := Backend.get_eq_some.mp hfound
  have hid : before.id = memoryID := (Table.find?_eq_some.mp hbefore).2
  dsimp only
  rw [wp_perform_bind]
  intro r w₂ hnow
  obtain ⟨now, rfl, -, rfl⟩ := step_sure hnow rfl
  unfold redactCopy
  dsimp only
  split
  · rw [wp_perform_bind]
    intro r w₃ hupsert
    rcases step_cases hupsert with ⟨_, rfl, hw⟩ | ⟨e, rfl, rfl⟩
    swap
    · exact nofun
    dsimp only
    rw [wp_bind, wp_iff_exec]
    intro o w₄ hindex
    cases o with
    | error e => exact nofun
    | ok _ =>
      intro _
      refine ⟨before, d.backend.stored (w₂.memories.find? before.id) (redacted before
        (scrub before.content).1 (scrub before.summary).1 now), hbefore, ?_, ?_⟩
      · rw [exec_indexMemory_memories hindex, hw, Backend.find?_upsert]
        exact if_pos hid
      · exact ⟨Backend.stored_content _ _ _, stored_summary _ _ _, history_stored _ _ _⟩
  · next hunchanged =>
    rw [Bool.or_eq_true, not_or, Bool.not_eq_true, Bool.not_eq_true] at hunchanged
    intro _
    exact ⟨before, before, hbefore, hbefore, (hkept _ hunchanged.1).symm, (hkept _ hunchanged.2).symm, rfl⟩

theorem exec_redact (h : Exec (step d) (redact redactPII tenantID memoryID reason) w (.ok receipt) w') :
    ∃ before after, w.memories.find? memoryID = some before ∧ w'.memories.find? memoryID = some after ∧
      RedactedFrom before after := by
  obtain ⟨before, after, hbefore, hafter, hcontent, hsummary, hhistory⟩ :=
    exec_redact_scrubbed (fun _ => redactPII_of_unchanged) h
  exact ⟨before, after, hbefore, hafter, ⟨hcontent, hsummary, hhistory⟩⟩

/-- After a redaction every text of the memory is masked exactly where the redaction could reach all of them. -/
theorem redact_covers_iff (h : Exec (step d) (redact redactPII tenantID memoryID reason) w (.ok receipt) w') :
    ∃ before after, w.memories.find? memoryID = some before ∧ w'.memories.find? memoryID = some after ∧
      (Covered after ↔ WithinReach before) := by
  obtain ⟨before, after, hbefore, hafter, hredacted⟩ := exec_redact h
  refine ⟨before, after, hbefore, hafter, ?_⟩
  have hcontent := masked_redactPII_iff before.content
  have hsummary := masked_redactPII_iff before.summary
  rw [← hredacted.content] at hcontent
  rw [← hredacted.summary] at hsummary
  constructor
  · intro hcovered
    exact ⟨hcontent.mp hcovered.content, hsummary.mp hcovered.summary, hredacted.history ▸ hcovered.snapshots⟩
  · intro hreach
    exact ⟨hcontent.mpr hreach.content, hsummary.mpr hreach.summary, hredacted.history ▸ hreach.snapshots⟩

/-! ## A snapshot keeps the address -/

theorem exec_redact_masked {scrub : String → String × Bool} {mem : Memory} {now : Time}
    (hget : d.backend.get w.memories tenantID memoryID = some mem) (hclock : d.clock now)
    (hchanged : (scrub mem.content).2 = true) :
    Exec (step d) (redact scrub tenantID memoryID reason) w
      (.ok ⟨"redact_" ++ memoryID, tenantID, memoryID, now, if reason = "" then "pii_redaction" else reason⟩)
      (w.masked d (redacted mem (scrub mem.content).1 (scrub mem.summary).1 now)) := by
  refine .answer (step_answer (show Answers d (.get _ _) w mem w from ⟨hget, rfl⟩)) ?_
  refine .answer (step_answer (show Answers d .now w now w from ⟨hclock, rfl⟩)) ?_
  exact exec_redactCopy w hchanged

/-- The receipt of a redaction of a tenant's memory. -/
def addressReceipt (memoryID : String) : DeletionReceipt := ⟨"redact_" ++ memoryID, "t", memoryID, 5, "pii_redaction"⟩

def addressMasked : World :=
  addressOnly.masked (.inProcess 5)
    (redacted address (redactPII address.content).1 (redactPII address.summary).1 5)

theorem exec_addressMasked : Exec (step (.inProcess 5)) (redact redactPII "t" "m1" "") addressOnly
    (.ok (addressReceipt "m1")) addressMasked := by
  have hget : Backend.memory.get addressOnly.memories "t" "m1" = some address := by decide +kernel
  have hchanged : (redactPII address.content).2 = true := by decide +kernel
  exact exec_redact_masked hget rfl hchanged

/-- A memory that is an address has no snapshots. -/
theorem redact_covers_address : ∃ before after, addressOnly.memories.find? "m1" = some before ∧
    addressMasked.memories.find? "m1" = some after ∧ (Covered after ↔ WithinReach before) :=
  redact_covers_iff exec_addressMasked

/-- A statement with an address, and one that supersedes it. -/
def addressFact : Memory := userFact 1 "a" "alice prefere cafe a@b.co"
def addressRestated : Memory := userFact 2 "b" "alice prefere cafe a@b.co quente"

/-- Only the first is stored. -/
def addressKept : World := World.holding (Table.empty.upsert addressFact)

/-- Consolidate has closed it. -/
def addressClosed : World :=
  { addressKept with
    issued := ["v1"]
    memories := Backend.memory.upsert addressKept.memories (closed addressFact addressRestated "v1" 5)
    edges := [relationEdge addressRestated (closed addressFact addressRestated "v1" 5) .supersedes] }

theorem exec_addressClosed : Exec (step (.inProcess 5)) (consolidate (.inProcess 5) addressRestated) addressKept
    (.ok ⟨addressRestated, .superseded, [closed addressFact addressRestated "v1" 5]⟩) addressClosed := by
  have hlist : Backend.memory.Lists addressKept.memories (neighborQuery addressRestated) [addressFact] :=
    List.Perm.refl _
  have hmatch : [addressFact].find? (applies Char.toLower 5 addressRestated) = some addressFact := by
    decide +kernel
  have hfresh : addressKept.Fresh "v1" := ⟨by decide, by decide, by decide⟩
  have hlt : similar Char.toLower addressFact.content addressRestated.content < mergeThreshold := by decide +kernel
  have hsupersede : shouldSupersede Char.toLower addressFact addressRestated = true := by decide +kernel
  have hrun : Exec (watched (.inProcess 5)) (consolidate (.inProcess 5) addressRestated) (addressKept, []) _ _ :=
    exec_consolidate_superseded rfl hlist hmatch hlt hsupersede hfresh rfl
  exact hrun.of_recorded

/-- The row Consolidate leaves, and the row Redact makes of it. -/
def addressSuperseded : Memory := closed addressFact addressRestated "v1" 5
def addressRemoved : Memory :=
  redacted addressSuperseded (redactPII addressSuperseded.content).1 (redactPII addressSuperseded.summary).1 5

/-- The content is masked, and the snapshot is what the content was. -/
theorem redact_misses_snapshot :
    ¬ ∀ (w w' w'' : World) (candidate : Memory) (result : Result) (receipt : DeletionReceipt),
      Exec (step (.inProcess 5)) (consolidate (.inProcess 5) candidate) w (.ok result) w' →
      Exec (step (.inProcess 5)) (redact redactPII "t" "a" "") w' (.ok receipt) w'' →
      ∀ m, w''.memories.find? "a" = some m → Covered m := by
  intro h
  have hget : Backend.memory.get addressClosed.memories "t" "a" = some addressSuperseded := by decide +kernel
  have hchanged : (redactPII addressSuperseded.content).2 = true := by decide +kernel
  have hredact : Exec (step (.inProcess 5)) (redact redactPII "t" "a" "") addressClosed (.ok (addressReceipt "a"))
      (addressClosed.masked (.inProcess 5) addressRemoved) := exec_redact_masked hget rfl hchanged
  have hafter : (addressClosed.masked (.inProcess 5) addressRemoved).memories.find? "a" = some addressRemoved := by
    exact (Backend.find?_upsert .memory _ _ _).trans (if_pos rfl)
  have hcovered : Covered addressRemoved := h _ _ _ _ _ _ exec_addressClosed hredact _ hafter
  have hsnapshot : Masked addressFact.content := hcovered.snapshots (snapshot addressFact (supersededBy "b") "v1" 5)
    (by decide +kernel)
  have hfound : Regex.matchString PII.email.re addressFact.content.toList = true := by decide +kernel
  have hnone := hsnapshot.1 ⟨"email", PII.email⟩ List.mem_cons_self
  rw [hfound] at hnone
  cases hnone

end AgentMemory
