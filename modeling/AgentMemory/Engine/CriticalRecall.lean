import AgentMemory.Lib.Pages
import AgentMemory.Engine.Recall

/-!
# Critical memories in a recall

`RecallPipeline.recall` of `engines/living_memoryv2/src/living_memoryv2/recall.py` puts the memories first that its
first listing finds. That listing cuts its rows before it filters them by the scope and the tags, and memories that
the lifecycle drops later take places in it; `critical_memories_lead_iff` says that the memories that are critical
come first, as critical ones, exactly where the rows before them leave a place to each.
-/

namespace AgentMemory

open Dicts PyText JsonText Tables Sorted Limits Fallible

section Model

variable {F : Type} (rt : RecallRuntime F) (now : F)

/-- A row has the id and the importance of its envelope. -/
def TemporalStore.Consistent (s : TemporalStore F) : Prop :=
  ∀ row ∈ s.memories.rows, ∀ m, row.envelope rt.toListingRuntime now = some m →
    m.id = row.id ∧ m.importance = row.importance

namespace RecallPipeline

variable (p : RecallPipeline F) (a : RecallArgs F)

/-- An active memory of critical importance that matches and is recalled at the time. -/
def isCritical (m : MemoryEnvelope F) : Bool :=
  (lifecycleFor rt.toGovernedRuntime m).any (fun view => view.state = .active &&
    view.shouldRecall rt.toLifecycleRuntime (queryTerms rt a.query) a.atTime) &&
      rt.le p.criticalThreshold m.importance && a.admits rt m

/-- Those of the store. -/
def criticalMemories : List (MemoryEnvelope F) :=
  (p.store.memories.rows.filterMap (MemoryRow.envelope rt.toListingRuntime now)).filter (p.isCritical rt a)

/-- The rows of critical importance before that of the memory leave it a place: of the rows that a listing reads, and
of the memories among them that match. -/
def LeavesPlace (m : MemoryEnvelope F) : Prop :=
  ∃ front row back, p.store.selectMemories rt.toListingRuntime (some p.criticalThreshold) = front ++ row :: back ∧
    row.envelope rt.toListingRuntime now = some m ∧ front.length < max a.topK 10 * 4 ∧
      ((front.filterMap (MemoryRow.envelope rt.toListingRuntime now)).filter (a.admits rt)).length < max a.topK 10

/-- They leave one to each critical memory. -/
def LeavesPlaces : Prop := ∀ m ∈ p.criticalMemories rt now a, p.LeavesPlace rt now a m

end RecallPipeline

/-- The results begin with these memories. -/
def LedBy (memories : List (MemoryEnvelope F)) (results : List (LayeredResult F)) : Prop :=
  ∃ lead rest, results = lead ++ rest ∧ (lead.map fun item => item.memory).Perm memories

/-- The results begin with these memories, each as a critical one. -/
def LedAsCritical (memories : List (MemoryEnvelope F)) (results : List (LayeredResult F)) : Prop :=
  ∃ lead rest, results = lead ++ rest ∧ (lead.map fun item => item.memory).Perm memories ∧
    ∀ item ∈ lead, "critical".toList ∈ item.whyRetrieved

end Model

section Facts

variable {F : Type} {rt : RecallRuntime F} {queries : RecallQueries F} {now : F} {p : RecallPipeline F} {a : RecallArgs F}

/-! ## Rows and envelopes -/

/-- What `remember` has written is consistent. -/
theorem consistent_ofRun (rt : RecallRuntime F) (options : StoreOptions) (now : F)
    (calls : List (RememberCall rt.toPython)) :
    (MemoryVault.ofRun options calls).Consistent rt now := by
  intro row hrow m hm
  rw [MemoryVault.memories_ofRun] at hrow
  obtain hwritten | hbefore := Table.mem_of_mem_foldl_upsert hrow
  · obtain ⟨c, -, rfl⟩ := List.mem_map.mp hwritten
    rw [MemoryRow.envelope_memoryRow] at hm
    obtain rfl := Option.some.inj hm
    exact ⟨rfl, rfl⟩
  · exact absurd hbefore List.not_mem_nil

/-- A listed memory is that of a row of critical importance, and matches. -/
theorem RecallPipeline.mem_listedCritical {listed : List (MemoryEnvelope F)} (h : p.listedCritical rt now a = some listed)
    {m : MemoryEnvelope F} (hm : m ∈ listed) : ∃ row ∈ p.store.memories.rows,
      row.envelope rt.toListingRuntime now = some m ∧ rt.le p.criticalThreshold row.importance = true ∧
        a.admits rt m = true := by
  unfold listedCritical listMemories at h
  split at h
  · obtain ⟨memories, hmemories, h⟩ := Option.bind_eq_some_iff.mp h
    obtain rfl := Option.some.inj h
    obtain ⟨hmem, hadmits⟩ := List.mem_filter.mp (List.mem_of_mem_take hm)
    obtain ⟨row, hrow, henvelope⟩ := (mem_of_mapM hmemories).mp hmem
    have hselected := List.mem_of_mem_take hrow
    rw [TemporalStore.selectMemories, orderBy, List.mem_mergeSort, List.mem_filter] at hselected
    exact ⟨row, hselected.1, henvelope, hselected.2, hadmits⟩
  · cases h

/-- A memory that matches is listed where the rows before leave it a place. -/
theorem RecallPipeline.mem_listedCritical_iff {listed : List (MemoryEnvelope F)}
    (h : p.listedCritical rt now a = some listed) {m : MemoryEnvelope F} (hadmits : a.admits rt m = true) :
    m ∈ listed ↔ p.LeavesPlace rt now a m := by
  unfold listedCritical listMemories at h
  split at h
  · obtain ⟨memories, hmemories, h⟩ := Option.bind_eq_some_iff.mp h
    obtain rfl := Option.some.inj h
    have hread := filterMap_eq_of_mapM hmemories
    have hcut : m ∈ (memories.filter (a.admits rt)).take (max a.topK 10) ↔ p.LeavesPlace rt now a m := by
      rw [← hread, List.filter_filterMap]
      refine Pages.mem_take_filterMap_take.trans (exists₃_congr fun front row back => ?_)
      rw [List.filter_filterMap, Option.filter_eq_some_iff]
      simp [hadmits]
    exact hcut
  · cases h

/-- Envelopes of consistent rows with one id are one. -/
theorem TemporalStore.Consistent.eq_of_id (hstore : p.store.Consistent rt now) {row row' : MemoryRow F}
    (hrow : row ∈ p.store.memories.rows) (hrow' : row' ∈ p.store.memories.rows) {m m' : MemoryEnvelope F}
    (hm : row.envelope rt.toListingRuntime now = some m) (hm' : row'.envelope rt.toListingRuntime now = some m')
    (hid : m.id = m'.id) : m = m' := by
  have hids : row.id = row'.id := by rw [← (hstore row hrow m hm).1, hid, (hstore row' hrow' m' hm').1]
  obtain rfl := Table.eq_of_key hrow hrow' hids
  exact Option.some.inj (hm.symm.trans hm')

theorem RecallPipeline.mem_criticalMemories {m : MemoryEnvelope F} : m ∈ p.criticalMemories rt now a ↔
    (∃ row ∈ p.store.memories.rows, row.envelope rt.toListingRuntime now = some m) ∧ p.isCritical rt a m = true := by
  rw [criticalMemories, List.mem_filter, List.mem_filterMap]

theorem RecallPipeline.isCritical_iff {m : MemoryEnvelope F} : p.isCritical rt a m = true ↔
    (∃ view, lifecycleFor rt.toGovernedRuntime m = some view ∧ view.state = .active ∧
      view.shouldRecall rt.toLifecycleRuntime (queryTerms rt a.query) a.atTime = true) ∧
    rt.le p.criticalThreshold m.importance = true ∧ a.admits rt m = true := by
  simp [isCritical, Option.any_eq_true, and_assoc]

theorem RecallPipeline.nodup_criticalMemories (hstore : p.store.Consistent rt now) :
    (p.criticalMemories rt now a).Nodup := by
  refine List.Nodup.filter _ ?_
  have hrows := p.store.memories.rows_nodup
  refine List.pairwise_filterMap.mpr (hrows.imp_of_mem ?_)
  intro row row' hrow hrow' hne m hm m' hm' heq
  apply hne
  apply Table.eq_of_key hrow hrow'
  rw [← (hstore row hrow m hm).1, ← (hstore row' hrow' m' hm').1, heq]

/-! ## Candidates that a listing made critical -/

variable {found later : List (Finding F)} {listed : List (MemoryEnvelope F)}

/-- A candidate is critical where its memory is listed. -/
theorem listed_of_critical (hlater : ∀ finding ∈ later, finding.Later rt a) {item : LayeredResult F}
    (h : item ∈ (candidatesOf rt (listed.map (RecallPipeline.criticalFinding rt) ++ later)).rows)
    (hcritical : "critical".toList ∈ item.whyRetrieved) : item.memory ∈ listed := by
  obtain ⟨first, rest, hfilter, hitem, hmemory⟩ := mem_candidatesOf h
  rw [hitem, LayeredResult.mem_why_foundAgain] at hcritical
  have hexists : ∃ finding ∈ first :: rest, finding.layer = "critical".toList := by
    obtain hfirst | ⟨finding, hfinding, hlayer⟩ := hcritical
    · exact ⟨first, List.mem_cons_self, (List.mem_singleton.mp hfirst).symm⟩
    · exact ⟨finding, List.mem_cons_of_mem _ hfinding, hlayer⟩
  obtain ⟨finding, hfinding, hlayer⟩ := hexists
  -- the critical findings stand first, so the first one of the memory is among them
  rw [List.filter_append] at hfilter
  rw [← hfilter] at hfinding
  cases hparts : (listed.map (RecallPipeline.criticalFinding rt)).filter
      fun finding => finding.memory.id = item.memory.id with
  | nil =>
    rw [hparts, List.nil_append] at hfinding
    exact absurd hlayer (hlater finding (List.mem_filter.mp hfinding).1).2
  | cons start others =>
    rw [hparts, List.cons_append] at hfilter
    obtain ⟨rfl, -⟩ := List.cons.inj hfilter
    have hstart : start ∈ listed.map (RecallPipeline.criticalFinding rt) :=
      List.mem_of_mem_filter (hparts.symm ▸ List.mem_cons_self)
    obtain ⟨m, hm, rfl⟩ := List.mem_map.mp hstart
    rw [hmemory]
    exact hm

/-- A listed memory has a critical candidate of its id. -/
theorem exists_critical {m : MemoryEnvelope F} (hm : m ∈ listed) :
    ∃ item ∈ (candidatesOf rt (listed.map (RecallPipeline.criticalFinding rt) ++ later)).rows,
      item.memory.id = m.id ∧ "critical".toList ∈ item.whyRetrieved := by
  have hfinding : RecallPipeline.criticalFinding rt m ∈ listed.map (RecallPipeline.criticalFinding rt) ++ later :=
    List.mem_append_left _ (List.mem_map_of_mem hm)
  obtain ⟨item, hitem, hid⟩ := @Gathering.exists_mem_foldl_gather _ _ _ _ _ (merging rt) _ _ hfinding
  have hid : item.memory.id = m.id := hid
  refine ⟨item, hitem, hid, ?_⟩
  obtain ⟨first, rest, hfilter, hmade, -⟩ := mem_candidatesOf hitem
  have hmem : RecallPipeline.criticalFinding rt m ∈ first :: rest := by
    rw [← hfilter]
    exact List.mem_filter.mpr ⟨hfinding, decide_eq_true hid.symm⟩
  rw [hmade, LayeredResult.mem_why_foundAgain]
  obtain rfl | hrest := List.mem_cons.mp hmem
  · exact Or.inl (List.mem_singleton_self _)
  · exact Or.inr ⟨_, hrest, rfl⟩

/-! ## The lead of a ranking -/

theorem LayeredResult.settle_of_not_recalled {item : LayeredResult F} {view : LifecycleView F}
    (hview : lifecycleFor rt.toGovernedRuntime item.memory = some view)
    (hrecall : view.shouldRecall rt.toLifecycleRuntime (queryTerms rt a.query) a.atTime = false) :
    item.settle rt a = some none := by
  simp only [settle, hview, Option.bind_eq_bind, Option.bind_some, hrecall, Bool.false_eq_true, if_false]

/-- A candidate that the lifecycle drops is not recalled. -/
theorem LayeredResult.not_recalled_of_settle {item : LayeredResult F} (h : item.settle rt a = some none) :
    ∃ view, lifecycleFor rt.toGovernedRuntime item.memory = some view ∧
      view.shouldRecall rt.toLifecycleRuntime (queryTerms rt a.query) a.atTime = false := by
  obtain ⟨view, hview, h⟩ := Option.bind_eq_some_iff.mp h
  dsimp only at h
  split at h
  · obtain ⟨adjusted, -, h⟩ := Option.bind_eq_some_iff.mp h
    obtain ⟨effective, -, h⟩ := Option.bind_eq_some_iff.mp h
    split at h <;> cases h
  · next hrecall => exact ⟨view, hview, Bool.eq_false_iff.mpr hrecall⟩

variable {ordered : List (LayeredResult F)}

/-- What leads the ranking is a critical memory. -/
theorem critical_of_leads (hstore : p.store.Consistent rt now) (hlisted : p.listedCritical rt now a = some listed)
    (hlater : ∀ finding ∈ later, finding.Later rt a)
    (hordered : rankingOf rt queries a
      (candidatesOf rt (listed.map (RecallPipeline.criticalFinding rt) ++ later)) = some ordered)
    {item : LayeredResult F} (hitem : item ∈ ordered) (hlead : item.leads rt = true) :
    item.memory ∈ p.criticalMemories rt now a := by
  obtain ⟨hwhy, hactive⟩ := Bool.and_eq_true_iff.mp hlead
  obtain ⟨candidate, hcandidate, hsettle⟩ := ((rankingOf_spec hordered).1 item).mp hitem
  obtain ⟨hmemory, ⟨view, hview, hrecall⟩, -, hcritical⟩ := LayeredResult.settle_spec hsettle
  have hmem := listed_of_critical hlater hcandidate (hcritical.mp (of_decide_eq_true hwhy))
  rw [← hmemory] at hmem
  obtain ⟨row, hrow, henvelope, himportance, hadmits⟩ := RecallPipeline.mem_listedCritical hlisted hmem
  rw [hview, Option.any_some] at hactive
  rw [← (hstore row hrow _ henvelope).2] at himportance
  exact RecallPipeline.mem_criticalMemories.mpr ⟨⟨row, hrow, henvelope⟩, RecallPipeline.isCritical_iff.mpr
    ⟨⟨view, hview, of_decide_eq_true hactive, hrecall⟩, himportance, hadmits⟩⟩

/-- A critical memory that is listed is in the lead. -/
theorem exists_lead (hstore : p.store.Consistent rt now) (hlisted : p.listedCritical rt now a = some listed)
    (hlater : ∀ finding ∈ later, finding.Later rt a)
    (hordered : rankingOf rt queries a
      (candidatesOf rt (listed.map (RecallPipeline.criticalFinding rt) ++ later)) = some ordered)
    {m : MemoryEnvelope F} (hm : m ∈ p.criticalMemories rt now a) (hmem : m ∈ listed) :
    ∃ item ∈ ordered, item.memory = m ∧ item.leads rt = true := by
  obtain ⟨candidate, hcandidate, hid, hwhy⟩ := @exists_critical _ rt later listed m hmem
  have hmemory : candidate.memory = m := by
    obtain ⟨row, hrow, henvelope, -⟩ := RecallPipeline.mem_listedCritical hlisted hmem
    obtain ⟨row', hrow', henvelope', -⟩ :=
      RecallPipeline.mem_listedCritical hlisted (listed_of_critical hlater hcandidate hwhy)
    exact hstore.eq_of_id hrow' hrow henvelope' henvelope hid
  obtain ⟨⟨view, hview, hactive, hrecall⟩, -⟩ := RecallPipeline.isCritical_iff.mp
    (RecallPipeline.mem_criticalMemories.mp hm).2
  obtain ⟨settled, hsettle⟩ := exists_settle_of_rankingOf hordered candidate hcandidate
  cases settled with
  | none =>
    obtain ⟨view', hview', hdropped⟩ := LayeredResult.not_recalled_of_settle hsettle
    rw [hmemory, hview] at hview'
    obtain rfl := Option.some.inj hview'
    rw [hrecall] at hdropped
    cases hdropped
  | some item =>
    obtain ⟨hsame, -, -, hcritical⟩ := LayeredResult.settle_spec hsettle
    have hitem : item.memory = m := hsame.trans hmemory
    refine ⟨item, ((rankingOf_spec hordered).1 item).mpr ⟨candidate, hcandidate, hsettle⟩, hitem, ?_⟩
    rw [LayeredResult.leads, hitem, hview, Option.any_some, Bool.and_eq_true]
    exact ⟨decide_eq_true (hcritical.mpr hwhy), decide_eq_true hactive⟩

/-- Where all critical memories are listed, they lead the results. -/
theorem ledAsCritical_of_listed (hstore : p.store.Consistent rt now) (hlisted : p.listedCritical rt now a = some listed)
    (hlater : ∀ finding ∈ later, finding.Later rt a)
    (hordered : rankingOf rt queries a
      (candidatesOf rt (listed.map (RecallPipeline.criticalFinding rt) ++ later)) = some ordered)
    (hfew : (p.criticalMemories rt now a).length ≤ a.topK)
    (hall : ∀ m ∈ p.criticalMemories rt now a, m ∈ listed) :
    LedAsCritical (p.criticalMemories rt now a) (ordered.take a.topK) := by
  obtain ⟨-, hids, hfirst⟩ := rankingOf_spec hordered
  have hperm : ((ordered.filter (LayeredResult.leads rt)).map fun item => item.memory).Perm
      (p.criticalMemories rt now a) := by
    have hmemories : (ordered.map fun item => item.memory).Nodup := by
      have hmap : ((ordered.map fun item => item.memory).map MemoryEnvelope.id).Nodup := by
        rw [List.map_map]
        exact hids
      exact hmap.of_map _
    have hlead : ((ordered.filter (LayeredResult.leads rt)).map fun item => item.memory).Nodup :=
      hmemories.sublist (List.filter_sublist.map _)
    rw [List.perm_ext_iff_of_nodup hlead (RecallPipeline.nodup_criticalMemories hstore)]
    intro m
    constructor
    · intro hm
      obtain ⟨item, hitem, rfl⟩ := List.mem_map.mp hm
      obtain ⟨hitem, hleads⟩ := List.mem_filter.mp hitem
      exact critical_of_leads hstore hlisted hlater hordered hitem hleads
    · intro hm
      obtain ⟨item, hitem, rfl, hleads⟩ := exists_lead hstore hlisted hlater hordered hm (hall m hm)
      exact List.mem_map_of_mem (List.mem_filter.mpr ⟨hitem, hleads⟩)
  have hlength : (ordered.filter (LayeredResult.leads rt)).length ≤ a.topK := by
    rw [← List.length_map fun item : LayeredResult F => item.memory, hperm.length_eq]
    exact hfew
  refine ⟨_, _, take_of_pairwise hfirst hlength, hperm, fun item hitem => ?_⟩
  exact of_decide_eq_true (Bool.and_eq_true_iff.mp (List.mem_filter.mp hitem).2).1

end Facts

/-- Where no more memories are critical than are asked for and the rows before them leave a place to each, the results
begin with all of them; as critical ones they do so only there. -/
theorem critical_memories_lead_iff {F : Type} (rt : RecallRuntime F) (queries : RecallQueries F) (now : F)
    (p : RecallPipeline F) (a : RecallArgs F) (hstore : p.store.Consistent rt now)
    {results : List (LayeredResult F)} {cache : Option (EngramCache F)}
    (h : p.recallMemories rt queries now a = some (results, cache))
    (hfew : (p.criticalMemories rt now a).length ≤ a.topK) :
    (p.LeavesPlaces rt now a → LedBy (p.criticalMemories rt now a) results) ∧
      (LedAsCritical (p.criticalMemories rt now a) results ↔ p.LeavesPlaces rt now a) := by
  obtain ⟨found, ordered, hfound, hordered, rfl⟩ := RecallPipeline.recallMemories_spec h
  obtain ⟨listed, later, hlisted, rfl, -, hlater⟩ := RecallPipeline.findings_spec hfound
  have hplace : ∀ m ∈ p.criticalMemories rt now a, (m ∈ listed ↔ p.LeavesPlace rt now a m) := fun m hm =>
    RecallPipeline.mem_listedCritical_iff hlisted
      (RecallPipeline.isCritical_iff.mp (RecallPipeline.mem_criticalMemories.mp hm).2).2.2
  have hlead : p.LeavesPlaces rt now a → LedAsCritical (p.criticalMemories rt now a) (ordered.take a.topK) :=
    fun hplaces => ledAsCritical_of_listed hstore hlisted hlater hordered hfew fun m hm =>
      (hplace m hm).mpr (hplaces m hm)
  refine ⟨fun hplaces => ?_, fun hled => ?_, hlead⟩
  · obtain ⟨lead, rest, hresults, hperm, -⟩ := hlead hplaces
    exact ⟨lead, rest, hresults, hperm⟩
  · intro m hm
    apply (hplace m hm).mp
    obtain ⟨lead, rest, hresults, hperm, hwhy⟩ := hled
    obtain ⟨item, hitem, rfl⟩ := List.mem_map.mp (hperm.mem_iff.mpr hm)
    have hordereditem : item ∈ ordered := by
      apply List.mem_of_mem_take
      rw [hresults]
      exact List.mem_append_left _ hitem
    obtain ⟨candidate, hcandidate, hsettle⟩ := ((rankingOf_spec hordered).1 item).mp hordereditem
    obtain ⟨hmemory, -, -, hcritical⟩ := LayeredResult.settle_spec hsettle
    rw [hmemory]
    exact listed_of_critical hlater hcandidate (hcritical.mp (hwhy item hitem))

theorem critical_memories_lead_milk : ∃ results,
    (storePipeline [milkCall]).recallMemories sampleRecallRuntime sampleQueries .one milkArgs = some (results, none) ∧
      ((storePipeline [milkCall]).LeavesPlaces sampleRecallRuntime .one milkArgs →
        LedBy ((storePipeline [milkCall]).criticalMemories sampleRecallRuntime .one milkArgs) results) ∧
      (LedAsCritical ((storePipeline [milkCall]).criticalMemories sampleRecallRuntime .one milkArgs) results ↔
        (storePipeline [milkCall]).LeavesPlaces sampleRecallRuntime .one milkArgs) := by
  obtain ⟨results, hresults⟩ := exists_recallMemories_milkCall
  have hfew : ((storePipeline [milkCall]).criticalMemories sampleRecallRuntime .one milkArgs).length ≤ 1 :=
    (List.length_filter_le _ _).trans (List.length_filterMap_le _ _)
  exact ⟨results, hresults, critical_memories_lead_iff sampleRecallRuntime sampleQueries .one _ milkArgs
    (consistent_ofRun sampleRecallRuntime .default .one [milkCall]) hresults hfew⟩

/-! ## A listing that deleted memories fill -/

def deletedMetadata : List (Text × Json SampleNumber) :=
  [("lifecycle".toList, .obj [("state".toList, .str "deleted".toList)])]

theorem canonical_deletedMetadata : Canonical (.obj deletedMetadata) :=
  ⟨List.pairwise_singleton _ _, ⟨List.pairwise_singleton _ _, trivial, trivial⟩, trivial⟩

/-- A memory that is deleted is not recalled. -/
theorem lifecycleFor_of_deletedMetadata {m : MemoryEnvelope SampleNumber} (h : m.metadata = deletedMetadata) : ∃ view,
    lifecycleFor sampleRecallRuntime.toGovernedRuntime m = some view ∧ view.state = .deleted := by
  have hstate : lifecycleState sampleRecallRuntime.toGovernedRuntime (some (.str "deleted".toList)) = .deleted := by
    decide +kernel
  rw [lifecycleFor, h]
  exact ⟨_, rfl, hstate⟩

theorem deletedId_ne (n : Nat) : 'd' :: List.replicate n 'd' ≠ [] := List.cons_ne_nil _ _

/-- `remember` of a memory that is deleted. -/
def deletedCall (n : Nat) : RememberCall samplePython :=
  notedCall (deletedId_ne n) .one canonical_deletedMetadata

/-- `remember` of an active memory that is older. -/
def olderCall : RememberCall samplePython :=
  notedCall noteId_ne .half canonical_noMetadata

/-- Ten deleted memories and an older active one. -/
def crowdedCalls : List (RememberCall samplePython) := (List.range 10).map deletedCall ++ [olderCall]

theorem nodup_crowdedCalls : (crowdedCalls.map fun c => c.memory.id).Nodup := by
  have hids : crowdedCalls.map (fun c => c.memory.id) =
      (List.range 10).map (fun n => 'd' :: List.replicate n 'd') ++ ["m".toList] := rfl
  rw [hids]
  decide

theorem listedCritical_crowdedCalls :
    (storePipeline crowdedCalls).listedCritical sampleRecallRuntime .one milkArgs =
      some ((List.range 10).map fun n => (deletedCall n).stored .default) := by
  have hnoted : ∀ c ∈ crowdedCalls, c.memory.importance = .one := by
    intro c hc
    obtain hc | hc := List.mem_append.mp hc
    · obtain ⟨n, -, rfl⟩ := List.mem_map.mp hc
      rfl
    · obtain rfl := List.mem_singleton.mp hc
      rfl
  have hordered : crowdedCalls.Pairwise fun c d => sampleRecallRuntime.le
      ((d.stored .default).createdAt.toReal sampleRecallRuntime.toListingRuntime)
      ((c.stored .default).createdAt.toReal sampleRecallRuntime.toListingRuntime) = true := by
    refine List.pairwise_append.mpr ⟨List.pairwise_map.mpr ?_, List.pairwise_singleton _ _, ?_⟩
    · exact List.pairwise_of_forall fun _ _ => rfl
    · intro c hc d hd
      obtain ⟨n, -, rfl⟩ := List.mem_map.mp hc
      obtain rfl := List.mem_singleton.mp hd
      rfl
  have hlisted := listedCritical_storePipeline nodup_crowdedCalls (by decide) hnoted hordered
  rw [hlisted]
  rfl

/-- The only critical memory of the store is the older one. -/
theorem criticalMemories_crowdedCalls :
    (storePipeline crowdedCalls).criticalMemories sampleRecallRuntime .one milkArgs = [olderCall.stored .default] := by
  have hread : ((storePipeline crowdedCalls).store.memories.rows.filterMap
      (MemoryRow.envelope sampleRecallRuntime.toListingRuntime .one)) = crowdedCalls.map fun c => c.stored .default := by
    rw [rows_storePipeline nodup_crowdedCalls, List.filterMap_map, ← List.filterMap_eq_map]
    refine List.filterMap_congr fun c _ => ?_
    rw [Function.comp_apply, Function.comp_apply, envelope_storeRow]
  have hdeleted : ((List.range 10).map fun n => (deletedCall n).stored .default).filter
      ((storePipeline crowdedCalls).isCritical sampleRecallRuntime milkArgs) = [] := by
    rw [List.filter_eq_nil_iff]
    intro m hm hcritical
    obtain ⟨n, -, rfl⟩ := List.mem_map.mp hm
    obtain ⟨⟨view, hview, hactive, -⟩, -⟩ := RecallPipeline.isCritical_iff.mp hcritical
    obtain ⟨view', hview', hstate⟩ := lifecycleFor_of_deletedMetadata
      (show ((deletedCall n).stored .default).metadata = deletedMetadata from rfl)
    obtain rfl := Option.some.inj (hview.symm.trans hview')
    rw [hactive] at hstate
    cases hstate
  have holder : (storePipeline crowdedCalls).isCritical sampleRecallRuntime milkArgs (olderCall.stored .default) = true := by
    obtain ⟨view, hview, hactive⟩ := lifecycleFor_of_no_metadata
      (show (olderCall.stored .default).metadata = [] from rfl)
    have hrecall : view.shouldRecall sampleRecallRuntime.toLifecycleRuntime
        (queryTerms sampleRecallRuntime milkArgs.query) milkArgs.atTime = true := by
      simp [LifecycleView.shouldRecall, LifecycleView.activeAt, hactive, milkArgs]
    exact RecallPipeline.isCritical_iff.mpr ⟨⟨view, hview, hactive, hrecall⟩, rfl, rfl⟩
  have hcalls : crowdedCalls.map (fun c => c.stored .default) =
      ((List.range 10).map fun n => (deletedCall n).stored .default) ++ [olderCall.stored .default] := by
    rw [crowdedCalls, List.map_append, List.map_map]
    rfl
  rw [RecallPipeline.criticalMemories, hread, hcalls, List.filter_append, hdeleted, List.nil_append,
    List.filter_cons_of_pos holder, List.filter_nil]

/-- The ten take the places of the listing and are dropped by the lifecycle, and the active one is not returned. -/
theorem critical_memory_dropped :
    ¬ ∀ (p : RecallPipeline SampleNumber) (a : RecallArgs SampleNumber) (results : List (LayeredResult SampleNumber))
      (cache : Option (EngramCache SampleNumber)), p.store.Consistent sampleRecallRuntime .one →
        p.recallMemories sampleRecallRuntime sampleQueries .one a = some (results, cache) →
        (p.criticalMemories sampleRecallRuntime .one a).length ≤ a.topK →
        LedBy (p.criticalMemories sampleRecallRuntime .one a) results := by
  intro h
  let deleted := ((List.range 10).map fun n => (deletedCall n).stored .default).map
    (RecallPipeline.criticalFinding sampleRecallRuntime)
  have hdropped : ∀ item ∈ (candidatesOf sampleRecallRuntime deleted).rows,
      item.settle sampleRecallRuntime milkArgs = some none := by
    intro item hitem
    obtain ⟨⟨finding, hfinding, hmemory⟩, -⟩ := found_of_mem_candidatesOf hitem
    obtain ⟨m, hm, rfl⟩ := List.mem_map.mp hfinding
    obtain ⟨n, -, rfl⟩ := List.mem_map.mp hm
    have hmemory : (deletedCall n).stored .default = item.memory := hmemory
    obtain ⟨view, hview, hstate⟩ := lifecycleFor_of_deletedMetadata
      (show ((deletedCall n).stored .default).metadata = deletedMetadata from rfl)
    rw [hmemory] at hview
    refine LayeredResult.settle_of_not_recalled hview ?_
    simp [LifecycleView.shouldRecall, hstate]
  obtain ⟨settled, hsettled⟩ := exists_mapM fun item hitem => ⟨none, hdropped item hitem⟩
  obtain ⟨ordered, hordered⟩ : ∃ ordered, rankingOf sampleRecallRuntime sampleQueries milkArgs
      (candidatesOf sampleRecallRuntime deleted) = some ordered :=
    ⟨_, congrArg (Option.map _) hsettled⟩
  have hrecall := recallMemories_storePipeline (by simp) listedCritical_crowdedCalls hordered
  have hempty : ordered = [] := by
    refine List.eq_nil_iff_forall_not_mem.mpr fun item hitem => ?_
    obtain ⟨candidate, hcandidate, hsettle⟩ := ((rankingOf_spec hordered).1 item).mp hitem
    rw [hdropped candidate hcandidate] at hsettle
    cases hsettle
  rw [hempty] at hrecall
  have hled := h (storePipeline crowdedCalls) milkArgs [] none
    (consistent_ofRun sampleRecallRuntime .default .one crowdedCalls) hrecall
  rw [criticalMemories_crowdedCalls] at hled
  obtain ⟨lead, rest, hresults, hperm⟩ := hled le_rfl
  obtain ⟨rfl, -⟩ := List.append_eq_nil_iff.mp hresults.symm
  exact absurd hperm.length_eq (by simp)

end AgentMemory
