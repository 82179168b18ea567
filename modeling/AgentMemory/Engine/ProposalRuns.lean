import AgentMemory.Engine.Extraction
import AgentMemory.Engine.Inspect
import AgentMemory.Engine.Listing
import AgentMemory.Engine.Proposals
import AgentMemory.Engine.Work

/-!
# Proposing facts from recent memories

`ConsolidationRunner.propose_from_recent` of
`engines/living_memoryv2/src/living_memoryv2/consolidation.py`. A run knows the signatures of the
listed facts and of what it has proposed itself, so it proposes the first fact of each other
signature, which is `run_spec`. It writes proposals only, and proposals are no facts: the next
run proposes the same again, unless `second_run_proposes_nothing_iff`.
-/

namespace AgentMemory

open Dicts PyText JsonText Tables Limits Uniques Commits

/-- The runtime of the extractor and of the listings. -/
structure ConsolidationRuntime (F : Type) extends ExtractionRuntime F, ListingRuntime F

/-- An extractor of facts that an envelope accepts. -/
structure FactExtractor {F : Type} (py : Python F) where
  extract : MemoryEnvelope F → List (DerivedFact F)
  inUnit : ∀ m, ∀ fact ∈ extract m, py.inUnit fact.confidence = true

/-- What a run reads besides the stores: the clock at the listing, the clock at each later
reading, and `"prop_" + uuid.uuid4().hex[:20]`, which no proposal has yet. -/
structure RunReadings (F : Type) where
  now : F
  clock : Nat → F
  uuid : ProposalRows F → Text
  uuid_fresh : ∀ rows : ProposalRows F, rows.find? (uuid rows) = none

/-- A run: the signatures it knows, and what it has proposed. -/
structure ProposalRun (F : Type) where
  known : List FactSignature
  proposalIds : List Text
  proposals : ProposalRows F

/-- The arguments of `propose_from_recent` and the stores of the vault that it reads. -/
structure ProposeFromRecent (F : Type) where
  vault : VaultState F
  scope : List (Text × Json F)
  limit : Int

section Model

variable {F : Type} (rt : ConsolidationRuntime F)

/-- `RuleBasedFactExtractor()`. -/
def ruleBasedFactExtractor : FactExtractor rt.toPython where
  extract := RuleBasedFactExtractor.extract rt.toExtractionRuntime
  inUnit m fact hfact := ((RuleBasedFactExtractor.extract_spec rt.toExtractionRuntime m).1 fact hfact).confidence

theorem ruleBasedFactExtractor_extract (m : MemoryEnvelope F) :
    (ruleBasedFactExtractor rt).extract m = RuleBasedFactExtractor.extract rt.toExtractionRuntime m := rfl

/-- `list_memories(scope=scope, limit=limit)` (`store.py:195-217`) with any limit; a parameter of
more than 64 bits raises. -/
def TemporalStore.listRecent (now : F) (s : TemporalStore F) (scope : List (Text × Json F)) (limit : Int) :
    Option (List (MemoryEnvelope F)) :=
  if fitsParameter (limit * 4) = true then
    ((limitTo (limit * 4) (s.selectMemories rt.toListingRuntime none)).mapM
      (MemoryRow.envelope rt.toListingRuntime now)).map fun memories =>
        sliceTo limit (memories.filter (MemoryEnvelope.matchesFilter rt.toListingRuntime scope []))
  else none

/-- The envelope of a proposal (`consolidation.py:50-67`). -/
def candidateOf (now : F) (fact : DerivedFact F) : Option (MemoryEnvelope F) := do
  let item ← contentModality rt.toFacadeRuntime fact.toDict
  let signature := fact.signature rt.toExtractionRuntime
  MemoryEnvelope.postInit rt.toPython {
    scope := fact.scope
    memoryType := "semantic_fact".toList
    modalities := [item]
    id := []
    createdAt := .float now
    updatedAt := none
    tags := ["derived".toList, "fact".toList, "consolidation".toList]
    entities := fact.entities
    relations := []
    importance := rt.ofText "0.64".toList
    confidence := fact.confidence
    sensitivity := "normal".toList
    provenance := ofPairs [("source".toList, .str "background_consolidation".toList),
      ("derived_from".toList, .str fact.sourceMemoryId), ("extractor".toList, .str "rule_based".toList)]
    metadata := ofPairs [("review_status".toList, .str "pending".toList),
      ("fact_signature".toList, .str (['|'].intercalate
        [signature.1, signature.2.1, signature.2.2.1, signature.2.2.2]))]
    contentHash := [] }

/-- `Derived … from …` (`consolidation.py:71`). -/
def rationaleOf (m : MemoryEnvelope F) (fact : DerivedFact F) : Text :=
  "Derived ".toList ++ fact.subject ++ " ".toList ++ fact.predicate ++ " ".toList ++ fact.object ++
    " from ".toList ++ m.id ++ ".".toList

variable (extractor : FactExtractor rt.toPython) (readings : RunReadings F)

/-- The body of the loop over the facts of the memories (`consolidation.py:42-75`); none is an
exception. -/
def ProposalRun.proposeFact (run : ProposalRun F) (item : MemoryEnvelope F × DerivedFact F) :
    Option (ProposalRun F) :=
  let signature := item.2.signature rt.toExtractionRuntime
  if signature ∈ run.known then some run
  else
    (candidateOf rt (readings.clock (2 * run.proposalIds.length)) item.2).map fun candidate =>
      let id := readings.uuid run.proposals
      let row := proposedRow id candidate "derived_fact".toList (rationaleOf item.1 item.2)
        "consolidation_runner".toList (readings.clock (2 * run.proposalIds.length + 1))
      ⟨signature :: run.known, run.proposalIds ++ [id], run.proposals.upsert row⟩

namespace ProposeFromRecent

variable (call : ProposeFromRecent F)

/-- `existing_signatures` (`consolidation.py:31-39`). -/
def existingSignatures : List FactSignature :=
  let limit := (max (call.limit * 4) 100).toNat
  (call.vault.facts.listFacts rt.toListingRuntime call.scope [] (some limit)).map fun fact =>
    (rt.lower fact.subject, rt.lower fact.predicate, rt.lower fact.object, fact.sourceMemoryId)

/-- The memories that are listed. -/
def memories (now : F) : Option (List (MemoryEnvelope F)) :=
  call.vault.store.listRecent rt now call.scope call.limit

/-- The facts of the memories, each with its memory. -/
def factsOf (memories : List (MemoryEnvelope F)) : List (MemoryEnvelope F × DerivedFact F) :=
  memories.flatMap fun m => (extractor.extract m).map fun fact => (m, fact)

/-- `propose_from_recent` (`consolidation.py:23-76`) over these proposals; none is an exception. -/
def run (rows : ProposalRows F) : Option (ProposalRun F) :=
  (call.memories rt readings.now).bind fun memories =>
    (factsOf rt extractor memories).foldlM (ProposalRun.proposeFact rt readings)
      ⟨call.existingSignatures rt, [], rows⟩

/-- The proposals after the run, which writes none before it raises. -/
def proposalsAfter (rows : ProposalRows F) : ProposalRows F :=
  ((call.run rt extractor readings rows).map ProposalRun.proposals).getD rows

/-- Each fact of the memories is listed already. -/
def AllListed (memories : List (MemoryEnvelope F)) : Prop :=
  ∀ m ∈ memories, ∀ fact ∈ extractor.extract m,
    fact.signature rt.toExtractionRuntime ∈ call.existingSignatures rt

end ProposeFromRecent

end Model

section Facts

variable {F : Type} {rt : ConsolidationRuntime F} {extractor : FactExtractor rt.toPython} {readings : RunReadings F}

/-- With a limit that is no negative number these are the memories that `listMemories` lists. -/
theorem TemporalStore.listRecent_natCast (now : F) (s : TemporalStore F) (scope : List (Text × Json F)) {limit : Nat}
    (h : fitsParameter (limit * 4) = true) : s.listRecent rt now scope limit =
      s.listMemories rt.toListingRuntime now scope [] none (some limit) := by
  have hfour : limitTo ((limit : Int) * 4) (s.selectMemories rt.toListingRuntime none) =
      cut (some (limit * 4)) (s.selectMemories rt.toListingRuntime none) := limitTo_natCast (limit * 4) _
  rw [listRecent, if_pos h, hfour, listMemories, Option.map_some, Option.map_eq_bind]
  simp only [sliceTo_natCast]
  rfl

/-- The constructor takes scores between zero and one. -/
theorem MemoryEnvelope.isSome_postInit {py : Python F} {m : MemoryEnvelope F} (himportance : py.inUnit m.importance = true)
    (hconfidence : py.inUnit m.confidence = true) : (m.postInit py).isSome = true := by
  rw [postInit, himportance, hconfidence]
  rfl

/-- The envelope of a fact is accepted. -/
theorem isSome_candidateOf (now : F) {fact : DerivedFact F} (h : rt.inUnit fact.confidence = true) :
    (candidateOf rt now fact).isSome = true := by
  have hlower : rt.lower "structured".toList = "structured".toList := rt.lower_ascii _ (by decide)
  have himportance : rt.inUnit (rt.ofText "0.64".toList) = true := rt.inUnit_ofText "64".toList rfl
  have hitem : (contentModality rt.toFacadeRuntime fact.toDict).isSome = true := by
    have hstrip : strip "structured".toList = "structured".toList := by decide
    obtain ⟨d, hd⟩ : ∃ d, fact.toDict = .obj d := ⟨_, rfl⟩
    rw [hd, contentModality, ModalityRef.postInit, hstrip, hlower]
    rfl
  obtain ⟨item, hitem⟩ := Option.isSome_iff_exists.mp hitem
  rw [candidateOf, hitem]
  exact MemoryEnvelope.isSome_postInit himportance h

/-! ## One run -/

section Run

variable {run run' : ProposalRun F} {items : List (MemoryEnvelope F × DerivedFact F)}

/-- What a run proposes: the first fact of each signature that it does not know. -/
abbrev newFacts (rt : ConsolidationRuntime F) (known : List FactSignature)
    (items : List (MemoryEnvelope F × DerivedFact F)) : List (MemoryEnvelope F × DerivedFact F) :=
  firstsBy (fun item => item.2.signature rt.toExtractionRuntime) known items

/-- Each id of the run is that of a pending proposal. -/
def ProposalRun.Pending (run : ProposalRun F) : Prop :=
  ∀ id ∈ run.proposalIds, ∃ row, run.proposals.find? id = some row ∧ row.status = .pending

theorem ProposalRun.proposeFact_known {item : MemoryEnvelope F × DerivedFact F}
    (h : item.2.signature rt.toExtractionRuntime ∈ run.known) : run.proposeFact rt readings item = some run :=
  if_pos h

/-- The step lemma: a fact of an unknown signature is proposed under a new id. -/
theorem ProposalRun.proposeFact_new {item : MemoryEnvelope F × DerivedFact F}
    (hnew : item.2.signature rt.toExtractionRuntime ∉ run.known) (hunit : rt.inUnit item.2.confidence = true)
    (hpending : run.Pending) : ∃ run', run.proposeFact rt readings item = some run' ∧ run'.Pending ∧
      run'.known = item.2.signature rt.toExtractionRuntime :: run.known ∧
      run'.proposalIds = run.proposalIds ++ [readings.uuid run.proposals] := by
  obtain ⟨candidate, hcandidate⟩ := Option.isSome_iff_exists.mp
    (@isSome_candidateOf _ rt (readings.clock (2 * run.proposalIds.length)) item.2 hunit)
  rw [proposeFact, if_neg hnew, hcandidate, Option.map_some]
  refine ⟨_, rfl, ?_, rfl, rfl⟩
  intro id hid
  obtain hid | hid := List.mem_append.mp hid
  · obtain ⟨row, hrow, hstatus⟩ := hpending id hid
    refine ⟨row, ?_, hstatus⟩
    rw [Table.find?_upsert_of_ne, hrow]
    intro heq
    have hfresh := readings.uuid_fresh run.proposals
    have hid : readings.uuid run.proposals = id := heq
    rw [hid, hrow] at hfresh
    cases hfresh
  · obtain rfl := List.mem_singleton.mp hid
    exact ⟨_, Table.find?_upsert_self _ _, rfl⟩

/-- The run lemma: the loop ends, and it has proposed as many facts as are new. -/
theorem ProposalRun.proposeFacts (hunit : ∀ item ∈ items, rt.inUnit item.2.confidence = true)
    (hpending : run.Pending) : ∃ run', items.foldlM (ProposalRun.proposeFact rt readings) run = some run' ∧
      run'.Pending ∧ run'.proposalIds.length = run.proposalIds.length + (newFacts rt run.known items).length ∧
      (newFacts rt run.known items = [] → run' = run) := by
  induction items generalizing run with
  | nil => exact ⟨run, rfl, hpending, rfl, fun _ => rfl⟩
  | cons item items ih =>
    obtain ⟨hitem, hitems⟩ := List.forall_mem_cons.mp hunit
    rw [newFacts, firstsBy, List.foldlM_cons]
    split
    · next hknown =>
      rw [proposeFact_known hknown]
      exact ih hitems hpending
    · next hnew =>
      obtain ⟨next, hnext, hnextPending, hknown, hids⟩ := @proposeFact_new _ rt readings _ _ hnew hitem hpending
      obtain ⟨run', hrun, hend, hlength, -⟩ := ih hitems hnextPending
      refine ⟨run', ?_, hend, ?_, fun hnone => absurd hnone (List.cons_ne_nil _ _)⟩
      · rw [hnext]
        exact hrun
      · show _ = _ + ((newFacts rt (_ :: run.known) items).length + 1)
        rw [hids, hknown, List.length_append, List.length_singleton] at hlength
        omega

end Run

/-! ## Runs -/

namespace ProposeFromRecent

variable (call : ProposeFromRecent F)

/-- A run ends where the memories can be listed, and has proposed the new facts of these. -/
theorem run_spec (rt : ConsolidationRuntime F) (extractor : FactExtractor rt.toPython) (readings : RunReadings F)
    (rows : ProposalRows F) {memories : List (MemoryEnvelope F)}
    (h : call.memories rt readings.now = some memories) :
    ∃ run, call.run rt extractor readings rows = some run ∧ run.Pending ∧
      run.proposalIds.length = (newFacts rt (call.existingSignatures rt) (factsOf rt extractor memories)).length ∧
      (newFacts rt (call.existingSignatures rt) (factsOf rt extractor memories) = [] → run.proposals = rows) := by
  have hunit : ∀ item ∈ factsOf rt extractor memories, rt.inUnit item.2.confidence = true := by
    intro item hitem
    obtain ⟨m, -, hm⟩ := List.mem_flatMap.mp hitem
    obtain ⟨fact, hfact, rfl⟩ := List.mem_map.mp hm
    exact extractor.inUnit m fact hfact
  have hstart : ProposalRun.Pending (⟨call.existingSignatures rt, [], rows⟩ : ProposalRun F) :=
    fun id hid => absurd hid List.not_mem_nil
  obtain ⟨run, hrun, hpending, hlength, hsame⟩ :=
    @ProposalRun.proposeFacts _ rt readings _ _ hunit hstart
  refine ⟨run, ?_, hpending, ?_, fun hnone => ?_⟩
  · rw [ProposeFromRecent.run, h, Option.bind_some, hrun]
  · rw [hlength, List.length_nil, Nat.zero_add]
  · rw [hsame hnone]

theorem newFacts_eq_nil_iff (memories : List (MemoryEnvelope F)) :
    newFacts rt (call.existingSignatures rt) (factsOf rt extractor memories) = [] ↔
      call.AllListed rt extractor memories := by
  rw [newFacts, firstsBy_eq_nil_iff]
  constructor
  · intro h m hm fact hfact
    exact h (m, fact) (List.mem_flatMap.mpr ⟨m, hm, List.mem_map_of_mem hfact⟩)
  · intro h item hitem
    obtain ⟨m, hm, hfacts⟩ := List.mem_flatMap.mp hitem
    obtain ⟨fact, hfact, rfl⟩ := List.mem_map.mp hfacts
    exact h m hm fact hfact

/-- A run proposes nothing exactly where all facts of its memories are listed. -/
theorem proposes_nothing_iff (rows : ProposalRows F) :
    (∀ run, call.run rt extractor readings rows = some run → run.proposalIds = [] ∧ run.proposals = rows) ↔
      ∀ memories, call.memories rt readings.now = some memories → call.AllListed rt extractor memories := by
  constructor
  · intro h memories hmemories
    obtain ⟨run, hrun, -, hlength, -⟩ := call.run_spec rt extractor readings rows hmemories
    rw [(h run hrun).1] at hlength
    exact (call.newFacts_eq_nil_iff memories).mp (List.eq_nil_of_length_eq_zero hlength.symm)
  · intro h run hrun
    obtain ⟨memories, hmemories, -⟩ := Option.bind_eq_some_iff.mp hrun
    obtain ⟨run', hrun', -, hlength, hsame⟩ := call.run_spec rt extractor readings rows hmemories
    obtain rfl := Option.some.inj (hrun.symm.trans hrun')
    have hnone := (call.newFacts_eq_nil_iff memories).mpr (h memories hmemories)
    rw [hnone] at hlength
    exact ⟨List.eq_nil_of_length_eq_zero hlength, hsame hnone⟩

/-- After a run with the same arguments a second one proposes nothing exactly where each fact of the memories it lists
is, up to the case of its letters, among the facts it lists. -/
theorem second_run_proposes_nothing_iff (rt : ConsolidationRuntime F) (extractor : FactExtractor rt.toPython)
    (call : ProposeFromRecent F) (first second : RunReadings F) (rows : ProposalRows F) :
    (∀ run, call.run rt extractor second (call.proposalsAfter rt extractor first rows) = some run →
        run.proposalIds = [] ∧ run.proposals = call.proposalsAfter rt extractor first rows) ↔
      ∀ memories, call.memories rt second.now = some memories → call.AllListed rt extractor memories :=
  call.proposes_nothing_iff _

end ProposeFromRecent

/-- Without the extraction of facts `remember` leaves the ledger as it is. -/
theorem VaultState.facts_after_remember {rt : GraphRuntime F} {options : StoreOptions}
    {extract : MemoryEnvelope F → List (ExtractedFact F)} {now : F} {appendLog : Bool} {m : MemoryEnvelope F}
    {boxId : Option Text} (v : VaultState F) :
    (after (remember rt options extract now appendLog m boxId false) v).facts = v.facts := by
  have hkeeps := @preserves_later _ rt extract now m boxId false (fun v' => v'.facts = v.facts)
    (fun _ _ h => h) (fun _ _ h => h) (fun h => absurd h Bool.false_ne_true)
  rw [remember, after_bind]
  split
  · exact hkeeps _ (by rw [onStore, after_on])
  · rw [onStore, after_on]

end Facts

/-! ## A fact that is proposed twice -/

def sampleConsolidationRuntime : ConsolidationRuntime SampleNumber where
  toWorkRuntime := sampleWorkRuntime
  lowerChar := Char.toLower
  timestamp _ := none
  inUnit_ofText _ _ := rfl
  equalsInt _ _ := false

/-- `owner: alice`. -/
def ownerText : ModalityRef SampleNumber :=
  ⟨"text".toList, .str "owner: alice".toList, none, some "text/plain".toList, some "d".toList, some 12, []⟩

theorem valid_ownerText : ownerText.Valid samplePython :=
  { valid_sampleText with content := trivial }

/-- `remember` of the text at one second past the epoch. -/
def ownerCall : RememberCall samplePython :=
  sampleCall [] pairwise_noTags ownerText valid_ownerText

/-- The vault that remembers the text without its facts. -/
def ownerVault : VaultState SampleNumber :=
  after (VaultState.remember sampleGraphRuntime .default
    (fun m => (RuleBasedFactExtractor.extract sampleConsolidationRuntime.toExtractionRuntime m).map
      DerivedFact.toExtractedFact) .one true ownerCall.memory none false) VaultState.empty

/-- `propose_from_recent()` on the vault. -/
def ownerRun : ProposeFromRecent SampleNumber := ⟨ownerVault, [], 50⟩

theorem memories_ownerRun (now : SampleNumber) :
    ownerRun.memories sampleConsolidationRuntime now = some [ownerCall.stored .default] := by
  have hstore : ownerVault.store = ownerCall.after .default true TemporalStore.empty := by
    have hremember := @TemporalStore.remember_eq _ samplePython StoreOptions.default ownerCall true TemporalStore.empty
    rw [ownerVault, VaultState.store_after_remember]
    exact TemporalStore.after_rememberCall hremember
  have hselect : ownerVault.store.selectMemories sampleConsolidationRuntime.toListingRuntime none =
      [memoryRow samplePython (ownerCall.stored .default)] := by
    rw [hstore]
    exact List.mergeSort_singleton _
  have hrow : MemoryRow.envelope sampleConsolidationRuntime.toListingRuntime now
      (memoryRow samplePython (ownerCall.stored .default)) = some (ownerCall.stored .default) :=
    @MemoryRow.envelope_memoryRow _ sampleConsolidationRuntime.toListingRuntime .default ownerCall now
  have hread : ([memoryRow samplePython (ownerCall.stored .default)].mapM
      (MemoryRow.envelope sampleConsolidationRuntime.toListingRuntime now)) = some [ownerCall.stored .default] := by
    rw [List.mapM_cons, hrow]
    rfl
  have hlimit : ∀ row : MemoryRow SampleNumber, limitTo (50 * 4) [row] = [row] := fun _ => rfl
  rw [ProposeFromRecent.memories, ownerRun, TemporalStore.listRecent, if_pos (by decide), hselect, hlimit, hread]
  rfl

/-- The ledger of the vault lists no fact. -/
theorem existingSignatures_ownerRun : ownerRun.existingSignatures sampleConsolidationRuntime = [] := by
  have hfacts : ownerVault.facts = FactLedger.empty := VaultState.facts_after_remember _
  rw [ProposeFromRecent.existingSignatures, ownerRun, hfacts]
  simp [FactLedger.listFacts, FactLedger.selectFacts, orderBy, FactLedger.empty, Table.empty, cut]

theorem textContent_ownerCall : (ownerCall.stored .default).textContent samplePython = "owner: alice".toList := by
  decide +kernel

/-- The only line of the text is a key with its value. -/
theorem keyValueMatches_owner : (RuleBasedFactExtractor.keyValueMatches sampleConsolidationRuntime.toExtractionRuntime
    "owner: alice".toList).head? = some ("owner".toList, "alice".toList) := by
  have hstart : RuleBasedFactExtractor.spaces 0 (none, "owner: alice".toList) = [(none, "owner: alice".toList)] := by
    decide +kernel
  have hkey : Pattern.sequence [Pattern.oneOf Char.isAlpha,
      Pattern.greedy (RuleBasedFactExtractor.nameTail sampleConsolidationRuntime.toExtractionRuntime)]
      (none, "owner: alice".toList) = [(some 'r', ": alice".toList), (some 'e', "r: alice".toList),
        (some 'n', "er: alice".toList), (some 'w', "ner: alice".toList)] := by
    decide +kernel
  have hcolon : Pattern.sequence [RuleBasedFactExtractor.spaces 0, Pattern.oneOf (· = ':'),
      RuleBasedFactExtractor.spaces 0] (some 'r', ": alice".toList) =
        [(some ' ', "alice".toList), (some ':', " alice".toList)] := by
    decide +kernel
  have hvalue : ((RuleBasedFactExtractor.anything (some ' ', "alice".toList)).filter fun valueEnd =>
      (RuleBasedFactExtractor.spaces 0 valueEnd).any Pattern.isEnd) = [(some 'e', [])] := by
    decide +kernel
  have hkeyText : Pattern.between (none, "owner: alice".toList) (some 'r', ": alice".toList) = "owner".toList := by
    decide +kernel
  have hvalueText : Pattern.between (some ' ', "alice".toList) (some 'e', []) = "alice".toList := by
    decide +kernel
  rw [RuleBasedFactExtractor.keyValueMatches, hstart, List.flatMap_cons, hkey, List.flatMap_cons, hcolon,
    List.flatMap_cons, hvalue, List.map_cons, hkeyText, hvalueText]
  simp only [List.cons_append, List.head?_cons]

theorem extract_ownerCall : ∃ fact, fact ∈ RuleBasedFactExtractor.extract
    sampleConsolidationRuntime.toExtractionRuntime (ownerCall.stored .default) := by
  have hlines : splitlines "owner: alice".toList = ["owner: alice".toList] := by decide +kernel
  have hsubject : RuleBasedFactExtractor.cleanSubject sampleConsolidationRuntime.toExtractionRuntime "owner".toList =
      "owner".toList := by
    decide +kernel
  have hobject : strip "alice".toList = "alice".toList := by decide +kernel
  have htext : (ownerCall.stored .default).textContent sampleConsolidationRuntime.toPython =
      "owner: alice".toList := textContent_ownerCall
  have hline : "owner: alice".toList ∈
      splitlines ((ownerCall.stored .default).textContent sampleConsolidationRuntime.toPython) := by
    rw [htext, hlines]
    exact List.mem_singleton_self _
  have hfact := @RuleBasedFactExtractor.exists_fact_of_line _ sampleConsolidationRuntime.toExtractionRuntime
    (ownerCall.stored .default) "owner: alice".toList "owner".toList "alice".toList hline keyValueMatches_owner
  rw [hsubject, hobject] at hfact
  obtain ⟨fact, hfact, -⟩ := hfact (by simp) (by simp)
  exact ⟨fact, hfact⟩

/-- An id that is longer than those of the proposals. -/
def longId (rows : ProposalRows SampleNumber) : Text :=
  List.replicate ((rows.rows.map fun row => row.id.length).sum + 1) '0'

theorem find?_longId (rows : ProposalRows SampleNumber) : rows.find? (longId rows) = none := by
  rw [Table.find?_eq_none]
  intro row hrow heq
  have hle := List.single_le_sum (fun _ _ => Nat.zero_le _) _ (List.mem_map_of_mem (f := fun row => row.id.length) hrow)
  have hlength := congrArg List.length heq
  rw [longId, List.length_replicate] at hlength
  omega

def sampleReadings : RunReadings SampleNumber := ⟨.one, fun _ => .one, longId, find?_longId⟩

/-- The fact of the text is proposed by the first run and again by the second. -/
theorem fact_proposed_again :
    ¬ ∀ (call : ProposeFromRecent SampleNumber) (first second : RunReadings SampleNumber)
      (rows : ProposalRows SampleNumber) (run : ProposalRun SampleNumber),
      call.run sampleConsolidationRuntime (ruleBasedFactExtractor _) second
          (call.proposalsAfter sampleConsolidationRuntime (ruleBasedFactExtractor _) first rows) = some run →
        run.proposalIds = [] ∧
          run.proposals = call.proposalsAfter sampleConsolidationRuntime (ruleBasedFactExtractor _) first rows := by
  intro h
  have hlisted := (ownerRun.proposes_nothing_iff _).mp (h ownerRun sampleReadings sampleReadings Table.empty)
    _ (memories_ownerRun _) _ (List.mem_singleton_self _)
  rw [existingSignatures_ownerRun] at hlisted
  obtain ⟨fact, hfact⟩ := extract_ownerCall
  -- by the equation: to compare the two as they stand would run the extractor
  rw [← ruleBasedFactExtractor_extract] at hfact
  exact List.not_mem_nil (hlisted fact hfact)

end AgentMemory
