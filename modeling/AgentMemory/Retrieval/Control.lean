import AgentMemory.Retrieval.Scores

/-!
# Filters that steer the search

`filters.include_pii`, `graph_depth`, `graph` and `session_only` steer the plan and the gates,
but the same map is what the vector store matches payloads against. `results_of_retrieve` says
which memories an answer holds where nothing fails, the limit cuts nothing and the reranker
drops nothing; `control_entry_keeps_iff` compares two runs with it.
-/

namespace AgentMemory

open Tables Calls

/-- What the embedder and the vector store answer, and what the clock reads, in the runs that
are compared. -/
structure Providers where
  now : Time
  embed : String → List ℚ
  search : VectorQuery → List VectorResult

def Providers.Pins (pr : Providers) : (c : Call) → Except Err (Resp c) → Prop
  | .now, .ok now => now = pr.now
  | .embed text, .ok vec => vec = pr.embed text
  | .searchVectors q, .ok out => out = pr.search q
  | _, _ => True

/-- The reranker drops nothing. -/
def KeepsAll : (c : Call) → Except Err (Resp c) → Prop
  | .rerank _ candidates, .ok out => (out.map Candidate.memory).Perm (candidates.map Candidate.memory)
  | _, _ => True

/-- The calls of a deployment with these providers. -/
def pinned (d : Deployment) (pr : Providers) : Step Call Resp Err World := fun c w r w' =>
  step d c w r w' ∧ pr.Pins c r ∧ KeepsAll c r

/-- The query with an entry in its filters. -/
def Query.withEntry (q : Query) (key value : String) : Query :=
  { q with filters := (key, value) :: q.filters.filter fun kv => kv.1 ≠ key }

/-- The entries that steer the plan and the gates. -/
inductive Control : String → String → Prop where
  | includePII : Control "include_pii" "true"
  | graphDepth (depth : String) : Control "graph_depth" depth
  | graph (value : String) : Control "graph" value
  | sessionOnly (value : String) : Control "session_only" value

section Finds

variable (d : Deployment) (w : World) (pr : Providers) (q : Query)

/-- The gates on a memory. -/
def gated (mem : Memory) : Bool := passesScope mem q && (!d.privacyGates || passesPrivacy mem q)

/-- The rows that `SearchByText` selects. -/
def textFinds (mem : Memory) : Bool :=
  match d.backend with
  | .memory => textMatches d.lower q mem
  | .postgres timestamptz ilike => listClauses timestamptz q mem && likeClause ilike q mem

/-- The query of the vector channel. -/
def vectorQuery : VectorQuery :=
  ⟨q.tenantID, q.userID, q.text, pr.embed q.text, q.normalizedLimit * 3, q.filters⟩

/-- The vector store answers with the id of the memory, and the tenant may read it. -/
def VectorFinds (mem : Memory) : Prop :=
  q.text ≠ "" ∧ mem.tenantID = q.tenantID ∧ ∃ result ∈ pr.search (vectorQuery pr q), result.id = mem.id

/-- The keyword store has an entry of the memory that matches. -/
def KeywordFinds (mem : Memory) : Prop :=
  (d.hasKeywords = true ∧ q.text ≠ "") ∧ mem.tenantID = q.tenantID ∧
    ∃ doc ∈ w.keywords.rows, keywordMatches d.lower q doc = true ∧ doc.id = mem.id

/-- An edge leads from an active memory with this property to the memory. -/
def GraphFinds (Seed : Memory → Prop) (mem : Memory) : Prop :=
  (d.hasGraph = true ∧ q.filter "graph" ≠ "off") ∧ mem.tenantID = q.tenantID ∧
    ∃ seed ∈ w.memories.rows, (seed.isActive q.now = true ∧ Seed seed) ∧
      ∃ edge ∈ w.edges, edge.fromID = seed.id ∧ edge.toID = mem.id

/-- The channels before the graph find the memory. -/
def Seeded (mem : Memory) : Prop :=
  (textFinds d q mem = true ∨ VectorFinds pr q mem) ∨ KeywordFinds d w q mem

/-- Some channel finds the memory. -/
def Reached (mem : Memory) : Prop := Seeded d w pr q mem ∨ GraphFinds d w q (Seeded d w pr q) mem

end Finds

/-- The candidates are the active memories with this property. -/
def Gathered (w : World) (q : Query) (candidates : Candidates) (P : Memory → Prop) : Prop :=
  ∀ mem, (∃ c ∈ candidates.rows, c.memory = mem) ↔
    mem ∈ w.memories.rows ∧ mem.isActive q.now = true ∧ P mem

/-- What a channel leaves where nothing fails. -/
def LeavesGathered (w : World) (q : Query) (P : Memory → Prop) : Except Err Candidates → World → Prop
  | .ok candidates, w' => w' = w ∧ Gathered w q candidates P
  | .error _, _ => True

/-! ## The channels -/

variable {d : Deployment} {pr : Providers} {w : World} {q : Query} {P : Memory → Prop}

/-- Where the limit cuts nothing, `SearchByText` answers with the rows it selects. -/
theorem mem_searches (hlimit : w.memories.rows.length ≤ q.normalizedLimit) {out : List Memory}
    (h : d.backend.Searches d.lower w.memories q out) (mem : Memory) :
    mem ∈ out ↔ mem ∈ w.memories.rows ∧ textFinds d q mem = true := by
  unfold textFinds
  cases hbackend : d.backend with
  | memory =>
    rw [hbackend] at h
    rw [h.mem_iff, List.mem_filter]
  | postgres timestamptz ilike =>
    rw [hbackend] at h
    obtain ⟨ordered, hperm, -, rfl⟩ := h
    have hall : ordered.length ≤ q.normalizedLimit := by
      rw [hperm.length_eq]
      exact (List.length_filter_le _ _).trans hlimit
    rw [List.take_of_length_le hall, hperm.mem_iff, List.mem_filter]

theorem exists_mem_channelScores {ch : Channel} {results : List (String × ℚ)} {mem : Memory} :
    (∃ s, s ∈ channelScores q ch results mem) ↔
      mem.tenantID = q.tenantID ∧ ∃ result ∈ results, result.1 = mem.id := by
  simp only [mem_channelScores]
  constructor
  · rintro ⟨s, htenant, result, hresult, hid, -⟩
    exact ⟨htenant, result, hresult, hid⟩
  · rintro ⟨htenant, result, hresult, hid⟩
    exact ⟨_, htenant, result, hresult, hid, rfl⟩

/-- A channel before the graph gives a memory a score where it finds it. -/
theorem exists_mem_seedScores {f : Found} {mem : Memory} (hrow : mem ∈ w.memories.rows)
    (htexts : ∀ mem, mem ∈ f.texts ↔ mem ∈ w.memories.rows ∧ textFinds d q mem = true)
    (hnearest : q.text ≠ "" → f.nearest = pr.search (vectorQuery pr q)) :
    (∃ s, s ∈ seedScores d w q f mem) ↔ Seeded d w pr q mem := by
  have htext : (∃ s, s ∈ textScores f.texts mem) ↔ textFinds d q mem = true := by
    simp [textScores, htexts, hrow]
  have hvector : (∃ s, s ∈ vectorScores q f mem) ↔ VectorFinds pr q mem := by
    unfold vectorScores VectorFinds
    split
    · next hwired =>
      rw [exists_mem_channelScores, hnearest hwired]
      simp [hwired]
    · next hunwired => simp [hunwired]
  have hkeyword : (∃ s, s ∈ keywordScores d w q mem) ↔ KeywordFinds d w q mem := by
    unfold keywordScores KeywordFinds
    split
    · next hwired =>
      rw [exists_mem_channelScores, and_iff_right hwired]
      simp [keywordResults, and_assoc]
    · next hunwired => simp [hunwired]
  simp only [seedScores, List.mem_append, exists_or, htext, hvector, hkeyword]
  rfl

/-- Some channel gives a memory a score where it is reached. -/
theorem exists_mem_scores {f : Found} {mem : Memory} (hrow : mem ∈ w.memories.rows)
    (htexts : ∀ mem, mem ∈ f.texts ↔ mem ∈ w.memories.rows ∧ textFinds d q mem = true)
    (hnearest : q.text ≠ "" → f.nearest = pr.search (vectorQuery pr q)) :
    (∃ s, s ∈ scores d w q f mem) ↔ Reached d w pr q mem := by
  have hseeds : ∀ id, id ∈ seedIDs d w q f ↔
      ∃ seed ∈ w.memories.rows, (seed.isActive q.now = true ∧ Seeded d w pr q seed) ∧ seed.id = id := by
    intro id
    simp only [seedIDs, List.mem_map, List.mem_filter, Bool.and_eq_true, Bool.not_eq_true', List.isEmpty_eq_false_iff,
      and_assoc]
    refine exists_congr fun seed => and_congr_right fun hseed => and_congr_right fun _ => and_congr_left fun _ => ?_
    rw [← exists_mem_seedScores hseed htexts hnearest]
    exact ⟨List.exists_mem_of_ne_nil _, fun hseeds => hseeds.elim fun _ hs => List.ne_nil_of_mem hs⟩
  have hgraph : (∃ s, s ∈ graphScores d w q f mem) ↔ GraphFinds d w q (Seeded d w pr q) mem := by
    unfold graphScores GraphFinds
    split
    · next hwired =>
      rw [and_iff_right hwired]
      simp only [List.mem_flatMap, hseeds]
      constructor
      · rintro ⟨s, id, ⟨seed, hseed, hfound, rfl⟩, hs⟩
        obtain ⟨htenant, result, hresult, hid⟩ := exists_mem_channelScores.mp ⟨s, hs⟩
        obtain ⟨edge, hedge, rfl⟩ := List.mem_map.mp hresult
        obtain ⟨hmem, hfrom⟩ := List.mem_filter.mp hedge
        exact ⟨htenant, seed, hseed, hfound, edge, hmem, by simpa using hfrom, hid⟩
      · rintro ⟨htenant, seed, hseed, hfound, edge, hedge, hfrom, hto⟩
        have hresult : (edge.toID, (1 : ℚ)) ∈ neighborResults w seed.id :=
          List.mem_map_of_mem (List.mem_filter.mpr ⟨hedge, by simpa using hfrom⟩)
        obtain ⟨s, hs⟩ := (@exists_mem_channelScores q graphChannel _ mem).mpr ⟨htenant, _, hresult, hto⟩
        exact ⟨s, seed.id, ⟨seed, hseed, hfound, rfl⟩, hs⟩
    · next hunwired => simp [hunwired]
  simp only [scores, List.mem_append, exists_or, exists_mem_seedScores hrow htexts hnearest, hgraph]
  rfl

/-- The channels together gather the active memories that some channel finds. -/
theorem wp_gather_leaves (hd : ¬ d.faulty) (hlimit : w.memories.rows.length ≤ q.normalizedLimit) :
    wp (pinned d pr) (LeavesGathered w q (Reached d w pr q))
      (gather (plan q d.hasGraph d.hasKeywords) q q.normalizedLimit) w := by
  refine wp_mono ?_ _ _ (wp_gather_collected (fun _ _ _ _ hs => hs.1) hd)
  rintro (e | cs) w' ⟨f, ⟨hsearch, -⟩, hanswered, hleaves⟩
  · trivial
  obtain ⟨rfl, hcollected⟩ := hleaves
  have htexts : ∀ mem, mem ∈ f.texts ↔ mem ∈ w'.memories.rows ∧ textFinds d q mem = true := by
    obtain ⟨texts, heq, hanswer, -⟩ | ⟨e, heq, -⟩ := step_cases hsearch
    · cases heq
      exact mem_searches hlimit hanswer
    · cases heq
  have hnearest : q.text ≠ "" → f.nearest = pr.search (vectorQuery pr q) := by
    intro htext
    obtain ⟨vec, ⟨-, hvec, -⟩, -, hnearest, -⟩ := hanswered htext
    obtain rfl : vec = pr.embed q.text := hvec
    exact hnearest
  refine ⟨rfl, fun mem => ⟨?_, ?_⟩⟩
  · rintro ⟨c, hc, rfl⟩
    obtain ⟨hrow, hactive⟩ := hcollected.live c hc
    exact ⟨hrow, hactive, (exists_mem_scores hrow htexts hnearest).mp ⟨_, (hcollected.best c hc).1⟩⟩
  · rintro ⟨hrow, hactive, hreached⟩
    obtain ⟨s, hs⟩ := (exists_mem_scores hrow htexts hnearest).mpr hreached
    exact hcollected.found mem hrow hactive s hs

/-! ## The answer -/

/-- The ranked memories are the candidates' that pass the gates. -/
theorem mem_rank {candidates : Candidates} {order : List String}
    (horder : order.Perm (candidates.rows.map fun c => c.memory.id)) (mem : Memory) :
    mem ∈ (rank d q candidates order).map Candidate.memory ↔
      (∃ c ∈ candidates.rows, c.memory = mem) ∧ gated d q mem = true := by
  have hranked : mem ∈ (rank d q candidates order).map Candidate.memory ↔
      mem ∈ ((order.filterMap candidates.find?).filter (passesGates d q)).map Candidate.memory := by
    rw [rank, ((List.mergeSort_perm _ _).map Candidate.memory).mem_iff, List.map_map]
    rfl
  rw [hranked, List.mem_map]
  constructor
  · rintro ⟨c, hc, rfl⟩
    obtain ⟨hfound, hgates⟩ := List.mem_filter.mp hc
    obtain ⟨id, -, hid⟩ := List.mem_filterMap.mp hfound
    exact ⟨⟨c, (Table.find?_eq_some.mp hid).1, rfl⟩, hgates⟩
  · rintro ⟨⟨c, hc, rfl⟩, hgates⟩
    refine ⟨c, List.mem_filter.mpr ⟨List.mem_filterMap.mpr ⟨c.memory.id, ?_, ?_⟩, hgates⟩, rfl⟩
    · exact horder.mem_iff.mpr (List.mem_map_of_mem hc)
    · exact Table.find?_of_mem hc

/-- No more memories are ranked than the store has. -/
theorem length_rank_le {candidates : Candidates} {order : List String}
    (horder : order.Perm (candidates.rows.map fun c => c.memory.id)) (h : Gathered w q candidates P) :
    (rank d q candidates order).length ≤ w.memories.rows.length := by
  have hsub : (candidates.rows.map fun c => c.memory.id) ⊆ w.memories.rows.map Memory.id := by
    intro id hid
    obtain ⟨c, hc, rfl⟩ := List.mem_map.mp hid
    exact List.mem_map_of_mem ((h c.memory).mp ⟨c, hc, rfl⟩).1
  have hstore := (List.subperm_of_subset candidates.nodup hsub).length_le
  have hfound := (ids_filterMap_find? candidates order).length_le
  have hgated := List.length_filter_le (passesGates d q) (order.filterMap candidates.find?)
  have hkeys := horder.length_eq
  simp only [List.length_map] at hstore hfound hkeys
  rw [rank, List.length_mergeSort, List.length_map]
  omega

/-- The query that is searched with at the pinned instant. -/
def pinnedQuery (pr : Providers) (query : Query) : Query :=
  searched query (if query.now = 0 then pr.now else query.now)

theorem wp_queryNow_pinned {query : Query} :
    wp (pinned d pr) (fun o w' => w' = w ∧
      ∀ now, o = .ok now → now = if query.now = 0 then pr.now else query.now) (queryNow query) w := by
  unfold queryNow
  split
  · refine wp_perform.mpr ?_
    rintro r w' ⟨hs, hpin, -⟩
    obtain ⟨now, rfl, -, rfl⟩ | ⟨e, rfl, rfl⟩ := step_cases hs
    · refine ⟨rfl, ?_⟩
      rintro now' ⟨⟩
      exact hpin
    · refine ⟨rfl, ?_⟩
      rintro now' ⟨⟩
  · refine ⟨rfl, ?_⟩
    rintro now ⟨⟩
    rfl

theorem wp_rerank_perm {ranked : List Candidate} {w' : World} :
    wp (pinned d pr)
      (fun o _ => ∀ out, o = .ok out → (out.map Candidate.memory).Perm (ranked.map Candidate.memory))
      (rerank q ranked) w' := by
  unfold rerank
  rw [wp_bind, wp_attempt]
  rintro (e | out) w'' ⟨-, -, hkeeps⟩
  · rintro out' ⟨⟩
    rw [List.map_map]
    exact List.Perm.refl _
  · rintro out' ⟨⟩
    exact hkeeps

/-- Fewer answers leave what holds of all. -/
theorem wp_pinned {α : Type} {Q : Except Err α → World → Prop} {p : Go α} {w' : World}
    (h : wp (step d) Q p w') : wp (pinned d pr) Q p w' :=
  wp_step_mono (fun _ _ _ _ hs => hs.1) p w' h

/-- The memory is active, some channel finds it and the gates let it pass. -/
def Selected (d : Deployment) (w : World) (pr : Providers) (q : Query) (mem : Memory) : Prop :=
  (mem ∈ w.memories.rows ∧ mem.isActive q.now = true ∧ Reached d w pr q mem) ∧ gated d q mem = true

/-- An answer holds exactly the memories that are selected. -/
theorem wp_retrieve_results (hd : ¬ d.faulty) {query : Query}
    (hlimit : w.memories.rows.length ≤ query.normalizedLimit) :
    wp (pinned d pr) (fun o _ => ∀ out, o = .ok out →
      ∀ mem, (∃ c ∈ out.1, c.memory = mem) ↔ Selected d w pr (pinnedQuery pr query) mem)
      (retrieve d query) w := by
  unfold retrieve
  rw [wp_bind]
  refine wp_mono ?_ _ _ wp_queryNow_pinned
  rintro (e | now) w₁ ⟨rfl, hnow⟩
  · rintro out ⟨⟩
  obtain rfl := hnow now rfl
  simp only [bindPost]
  change wp _ _ (gather (plan (pinnedQuery pr query) d.hasGraph d.hasKeywords) (pinnedQuery pr query)
    (pinnedQuery pr query).normalizedLimit >>= _) _
  rw [wp_bind]
  refine wp_mono ?_ _ _ (wp_gather_leaves hd hlimit)
  rintro (e | candidates) w₂ hleaves
  · rintro out ⟨⟩
  obtain ⟨rfl, hholds⟩ := hleaves
  simp only [bindPost]
  rw [wp_perform_bind]
  rintro (e | order) w₃ ⟨hs, -⟩
  · rintro out ⟨⟩
  have horder : order.Perm (candidates.rows.map fun c => c.memory.id) := by
    obtain ⟨_, ⟨⟩, hperm, -⟩ | ⟨_, ⟨⟩, -⟩ := step_cases hs
    exact hperm
  simp only
  rw [wp_bind]
  refine wp_mono ?_ _ _ wp_rerank_perm
  rintro (e | reranked) w₄ hperm
  · rintro out ⟨⟩
  refine wp_mono ?_ _ _ (wp_pinned wp_traced)
  intro o w₅ hout out ho mem
  have hperm := hperm reranked rfl
  have hlength : reranked.length ≤ query.normalizedLimit := by
    have hsame := hperm.length_eq
    rw [List.length_map, List.length_map] at hsame
    rw [hsame]
    exact (length_rank_le horder hholds).trans hlimit
  rw [hout out ho]
  change (∃ c ∈ reranked.take query.normalizedLimit, c.memory = mem) ↔ _
  rw [List.take_of_length_le hlength]
  refine List.mem_map.symm.trans (hperm.mem_iff.trans ((mem_rank horder mem).trans ?_))
  exact and_congr_left fun _ => hholds mem

/-! ## Two runs -/

section Entries

variable (d pr w)
variable (query : Query) (key value : String)

/-- The query with the entry, as it is searched with. -/
def entryQuery : Query := pinnedQuery pr (query.withEntry key value)

/-- What the entry must not take away: with `include_pii` the memories of the answer without it,
else the memories that the vector channel finds without it and that pass the gates. -/
def Expected (out : List Candidate) (mem : Memory) : Prop :=
  if key = "include_pii" then ∃ c ∈ out, c.memory = mem
  else (mem ∈ w.memories.rows ∧ mem.isActive (pinnedQuery pr query).now = true ∧
    VectorFinds pr (pinnedQuery pr query) mem) ∧ gated d (entryQuery pr query key value) mem = true

/-- The entry takes no expected memory away. -/
def EntryKeeps (out out' : List Candidate) : Prop :=
  ∀ mem, Expected d pr w query key value out mem → ∃ c' ∈ out', c'.memory = mem

/-- The memory is found without the vector channel, or by it with the entry as well. -/
def FoundStill (mem : Memory) : Prop :=
  (textFinds d (pinnedQuery pr query) mem = true ∨ VectorFinds pr (entryQuery pr query key value) mem) ∨
    KeywordFinds d w (pinnedQuery pr query) mem

/-- Each expected memory is still found, or an edge leads to it from one that is. -/
def EntryHarmless : Prop :=
  ∀ mem ∈ w.memories.rows, mem.isActive (pinnedQuery pr query).now = true →
    (if key = "include_pii" then Reached d w pr (pinnedQuery pr query) mem ∧
        gated d (pinnedQuery pr query) mem = true
      else VectorFinds pr (pinnedQuery pr query) mem ∧ gated d (entryQuery pr query key value) mem = true) →
    FoundStill d pr w query key value mem ∨
      GraphFinds d w (entryQuery pr query key value) (FoundStill d pr w query key value) mem

end Entries

variable {query : Query} {key value : String}

theorem filter_withEntry {other : String} (hne : other ≠ key) :
    (query.withEntry key value).filter other = query.filter other := by
  have hbeq : (other == key) = false := by simpa using hne
  simp only [Query.filter, Query.withEntry, List.lookup_cons, hbeq]
  congr 1
  induction query.filters with
  | nil => rfl
  | cons kv rest ih =>
    by_cases hkey : kv.1 = key
    · have hskip : (other == kv.1) = false := by simpa [hkey] using hne
      rw [List.filter_cons_of_neg (by simp [hkey]), List.lookup_cons, hskip]
      exact ih
    · rw [List.filter_cons_of_pos (by simp [hkey]), List.lookup_cons, List.lookup_cons, ih]

/-- What the entry does not name is read the same. -/
theorem filter_entryQuery {other : String} (hne : other ≠ key) (hagent : other ≠ "agent_id")
    (hproject : other ≠ "project_id") :
    (entryQuery pr query key value).filter other = (pinnedQuery pr query).filter other := by
  rw [entryQuery, pinnedQuery, pinnedQuery, filter_searched hagent hproject, filter_searched hagent hproject,
    filter_withEntry hne]

/-- The text channel does not read the entries that steer. -/
theorem textFinds_entryQuery (hcontrol : Control key value) (mem : Memory) :
    textFinds d (entryQuery pr query key value) mem = textFinds d (pinnedQuery pr query) mem := by
  have hsame : ∀ other ∈ ["status", "type", "created_after", "created_before"],
      (entryQuery pr query key value).filter other = (pinnedQuery pr query).filter other := by
    intro other hother
    apply filter_entryQuery
    · rintro rfl
      cases hcontrol <;> simp at hother
    · rintro rfl
      simp at hother
    · rintro rfl
      simp at hother
  unfold textFinds
  cases d.backend with
  | memory => rfl
  | postgres timestamptz ilike =>
    have hlist : listClauses timestamptz (entryQuery pr query key value) mem =
        listClauses timestamptz (pinnedQuery pr query) mem := by
      simp only [listClauses, listStatus, hsame "status" (by simp), hsame "type" (by simp),
        hsame "created_after" (by simp), hsame "created_before" (by simp)]
      rfl
    simp only [hlist]
    rfl

theorem reached_entryQuery (hcontrol : Control key value) (mem : Memory) :
    Reached d w pr (entryQuery pr query key value) mem ↔ FoundStill d pr w query key value mem ∨
      GraphFinds d w (entryQuery pr query key value) (FoundStill d pr w query key value) mem := by
  have hseeded : Seeded d w pr (entryQuery pr query key value) = FoundStill d pr w query key value := by
    funext mem
    rw [Seeded, FoundStill, textFinds_entryQuery hcontrol]
    rfl
  rw [Reached, hseeded]

theorem Control.eq_true (h : Control key value) (hkey : key = "include_pii") : value = "true" := by
  cases h with
  | includePII => rfl
  | graphDepth depth => exact absurd hkey (by decide)
  | graph value => exact absurd hkey (by decide)
  | sessionOnly value => exact absurd hkey (by decide)

/-- Asking for PII opens the gates. -/
theorem gated_includePII {mem : Memory} (h : gated d (pinnedQuery pr query) mem = true) :
    gated d (entryQuery pr query "include_pii" "true") mem = true := by
  have hsession : (entryQuery pr query "include_pii" "true").filter "session_only" =
      (pinnedQuery pr query).filter "session_only" :=
    filter_entryQuery (by decide) (by decide) (by decide)
  have hpii : (entryQuery pr query "include_pii" "true").filter "include_pii" = "true" := by
    rw [entryQuery, pinnedQuery, filter_searched (by decide) (by decide)]
    rfl
  simp only [gated, Bool.and_eq_true, Bool.or_eq_true] at h ⊢
  refine ⟨?_, h.2.imp_right fun hprivacy => ?_⟩
  · have hscope := h.1
    simp only [passesScope, hsession] at hscope ⊢
    exact hscope
  · rw [passesPrivacy, List.all_eq_true] at hprivacy ⊢
    intro label hlabel
    have hpasses := hprivacy label hlabel
    cases label <;> simp_all

/-- The reranker keeps what it is given in its order. -/
def KeepsOrder : (c : Call) → Except Err (Resp c) → Prop
  | .rerank _ candidates, .ok out => out.map Candidate.memory = candidates.map Candidate.memory
  | _, _ => True

/-- The calls are answered as a deployment with these providers answers them. -/
structure Grants (st : Step Call Resp Err World) (d : Deployment) (pr : Providers) : Prop where
  answer : ∀ (c : Call) (w : World) (a : Resp c) (w' : World), Answers d c w a w' → pr.Pins c (.ok a) →
    KeepsOrder c (.ok a) → st c w (.ok a) w'
  refuse : ∀ (w : World) (tenantID id : String), d.backend.get w.memories tenantID id = none →
    st (.get tenantID id) w (.error .notFound) w

theorem grants_pinned : Grants (pinned d pr) d pr := by
  refine ⟨fun c w a w' h hpin horder => ⟨step_answer h, hpin, ?_⟩, fun w tenantID id hnone => ?_⟩
  · cases c with
    | rerank text candidates => exact List.Perm.of_eq horder
    | _ => trivial
  · exact ⟨Or.inr ⟨.notFound, rfl, rfl, Or.inl ⟨hnone, rfl⟩⟩, trivial, trivial⟩

section Granted

variable {st : Step Call Resp Err World}

theorem exists_mergeResults (g : Grants st d pr) (ch : Channel) (results : List (String × ℚ))
    (candidates : Candidates) : ∃ cs, Exec st (mergeResults ch q results candidates) w (.ok cs) w := by
  induction results generalizing candidates with
  | nil => exact ⟨candidates, .ret _ _⟩
  | cons result rest ih =>
    unfold mergeResults
    cases hget : d.backend.get w.memories q.tenantID result.1 with
    | none =>
      obtain ⟨cs, hrest⟩ := ih candidates
      exact ⟨cs, .call (g.refuse w _ _ hget) hrest⟩
    | some mem =>
      have hread := g.answer (.get q.tenantID result.1) w mem w ⟨hget, rfl⟩ trivial trivial
      by_cases hactive : mem.isActive q.now = true
      · obtain ⟨cs, hrest⟩ := ih (candidates.upsert (ch.candidate candidates result.2 mem))
        refine ⟨cs, .call hread ?_⟩
        change Exec _ (if mem.isActive q.now = true then _ else _) w _ w
        rw [if_pos hactive]
        exact hrest
      · obtain ⟨cs, hrest⟩ := ih candidates
        refine ⟨cs, .call hread ?_⟩
        change Exec _ (if mem.isActive q.now = true then _ else _) w _ w
        rw [if_neg hactive]
        exact hrest

theorem exists_expandSeeds (g : Grants st d pr) (depth : Int) (seeds : List String) (candidates : Candidates) :
    ∃ cs, Exec st (expandSeeds q depth seeds candidates) w (.ok cs) w := by
  induction seeds generalizing candidates with
  | nil => exact ⟨candidates, .ret _ _⟩
  | cons id rest ih =>
    obtain ⟨cs, hmerge⟩ := @exists_mergeResults d pr w q st g graphChannel
      (((w.edges.filter (·.fromID = id)).map fun e => (⟨e.toID, 1⟩ : GraphResult)).map
        fun result => (result.nodeID, result.score)) candidates
    obtain ⟨cs', hrest⟩ := ih cs
    have htraverse := g.answer (.traverse ⟨q.tenantID, id, depth⟩) w _ w ⟨rfl, rfl⟩ trivial trivial
    exact ⟨cs', Exec.answer htraverse (Exec.bind hmerge hrest)⟩

theorem exists_planned {use : Bool} {search : Candidates → Go Candidates} {candidates : Candidates}
    (h : ∃ cs, Exec st (search candidates) w (.ok cs) w) :
    ∃ cs, Exec st (planned use search candidates) w (.ok cs) w := by
  unfold planned
  split
  · exact h
  · exact ⟨candidates, .ret _ _⟩

/-- What a run needs of its providers: the clock can read the instant, each search has an answer
and the vector store gives these. -/
structure Provides (d : Deployment) (pr : Providers) (w : World) : Prop where
  clock : d.clock pr.now
  texts : ∀ q, ∃ out, d.backend.Searches d.lower w.memories q out
  vectors : ∀ q, Answers d (.searchVectors q) w (pr.search q) w
  id : ∃ id, w.Fresh id

theorem exists_gather (g : Grants st d pr) (h : Provides d pr w) (p : SearchPlan) (limit : Nat) :
    ∃ cs, Exec st (gather p q limit) w (.ok cs) w := by
  have htext : ∃ cs, Exec st (textSearch q .empty) w (.ok cs) w := by
    obtain ⟨textual, hsearch⟩ := h.texts q
    exact ⟨_, Exec.answer (g.answer (.searchByText q) w textual w ⟨hsearch, rfl⟩ trivial trivial) (.ret _ _)⟩
  have hvector : ∀ candidates, ∃ cs, Exec st (vectorSearch q limit candidates) w (.ok cs) w := by
    intro candidates
    have hembed := g.answer (.embed q.text) w (pr.embed q.text) w rfl rfl trivial
    have hsearch := g.answer _ w _ w (h.vectors ⟨q.tenantID, q.userID, q.text, pr.embed q.text, limit * 3, q.filters⟩)
      rfl trivial
    obtain ⟨cs, hmerge⟩ := @exists_mergeResults d pr w q st g vectorChannel ((pr.search ⟨q.tenantID, q.userID,
      q.text, pr.embed q.text, limit * 3, q.filters⟩).map fun result => (result.id, result.score)) candidates
    exact ⟨cs, Exec.answer hembed (Exec.answer hsearch hmerge)⟩
  have hkeyword : ∀ candidates, ∃ cs, Exec st (keywordSearch q candidates) w (.ok cs) w := by
    intro candidates
    have hsearch := g.answer (.searchKeywords q) w _ w ⟨List.Perm.refl _, rfl⟩ trivial trivial
    obtain ⟨cs, hmerge⟩ := @exists_mergeResults d pr w q st g keywordChannel _ candidates
    exact ⟨cs, Exec.answer hsearch hmerge⟩
  have hgraph : ∀ candidates, ∃ cs, Exec st (graphExpand q p.graphDepth candidates) w (.ok cs) w := by
    intro candidates
    have hrange := g.answer (.rangeOver (candidates.rows.map (·.memory.id))) w _ w ⟨List.Perm.refl _, rfl⟩
      trivial trivial
    obtain ⟨cs, hexpand⟩ := @exists_expandSeeds d pr w q st g p.graphDepth _ candidates
    exact ⟨cs, Exec.answer hrange hexpand⟩
  obtain ⟨cs₁, h₁⟩ := @exists_planned w st p.useText _ _ htext
  obtain ⟨cs₂, h₂⟩ := @exists_planned w st p.useVector _ _ (hvector cs₁)
  obtain ⟨cs₃, h₃⟩ := @exists_planned w st p.useKeyword _ _ (hkeyword cs₂)
  obtain ⟨cs₄, h₄⟩ := @exists_planned w st p.useGraph _ _ (hgraph cs₃)
  exact ⟨cs₄, Exec.bind h₁ (Exec.bind h₂ (Exec.bind h₃ h₄))⟩

/-- Once the candidates are gathered, they may be ranked from any order. -/
theorem exec_retrieve_of_gather (g : Grants st d pr) (hclock : d.clock pr.now) {query : Query} {id : String}
    (hid : w.Fresh id) {cs : Candidates} {order : List String} (horder : order.Perm (cs.rows.map (·.memory.id)))
    (hgather : Exec st (gather (plan (pinnedQuery pr query) d.hasGraph d.hasKeywords) (pinnedQuery pr query)
      (pinnedQuery pr query).normalizedLimit) w (.ok cs) w) :
    Exec st (retrieve d query) w
      (.ok ((rank d (pinnedQuery pr query) cs order).take (pinnedQuery pr query).normalizedLimit,
        traceOf (pinnedQuery pr query)
          ((rank d (pinnedQuery pr query) cs order).take (pinnedQuery pr query).normalizedLimit) id pr.now))
      { w with issued := id :: w.issued } := by
  have hnow : ∀ w : World, st .now w (.ok pr.now) w := fun w => g.answer .now w pr.now w ⟨hclock, rfl⟩ rfl trivial
  have hinstant : Exec st (queryNow query) w (.ok (if query.now = 0 then pr.now else query.now)) w := by
    unfold queryNow
    split
    · exact .call (hnow w) (.ret _ _)
    · exact .ret _ _
  have hrange := g.answer (.rangeOver (cs.rows.map (·.memory.id))) w order w ⟨horder, rfl⟩ trivial trivial
  have hrerank := g.answer (.rerank (pinnedQuery pr query).text (rank d (pinnedQuery pr query) cs order)) w _ w
    ⟨fun c hc => ⟨c, hc, rfl, fun _ _ => Iff.rfl⟩, rfl⟩ trivial rfl
  have hnewID := g.answer (.newID "trace") w id _ ⟨hid, rfl⟩ trivial trivial
  have hsave : ∀ trace w', st (.saveTrace trace) w' (.ok ()) w' := fun trace w' =>
    g.answer (.saveTrace trace) w' () w' rfl trivial trivial
  refine Exec.bind hinstant (Exec.bind hgather (Exec.answer hrange ?_))
  refine Exec.bind (.call hrerank (.ret _ _)) ?_
  exact Exec.bind (Exec.answer hnewID (Exec.answer (hnow _) (.ret _ _))) (Exec.answer (hsave _ _) (.ret _ _))

end Granted

/-- Retrieval answers every query where nothing fails. -/
theorem exists_retrieve (h : Provides d pr w) (query : Query) :
    ∃ out trace id, Exec (pinned d pr) (retrieve d query) w (.ok (out, trace)) { w with issued := id :: w.issued } := by
  obtain ⟨id, hid⟩ := h.id
  obtain ⟨cs, hgather⟩ := @exists_gather d pr w (pinnedQuery pr query) _ grants_pinned h
    (plan (pinnedQuery pr query) d.hasGraph d.hasKeywords) (pinnedQuery pr query).normalizedLimit
  exact ⟨_, _, id, exec_retrieve_of_gather grants_pinned h.clock hid (List.Perm.refl _) hgather⟩

/-! ## Stores that the code has written -/

/-- No payload that `IndexMemory` writes has an entry that steers, so the vector store finds
nothing under one. -/
theorem not_vectorFinds_entry (hcontrol : Control key value) (hvalue : value ≠ "")
    (hitems : ∀ item ∈ w.vectors.rows, ∃ mem vec, item = vectorItem mem vec)
    (hsearch : ∀ q, Answers d (.searchVectors q) w (pr.search q) w) (mem : Memory) :
    ¬ VectorFinds pr (entryQuery pr query key value) mem := by
  rintro ⟨-, -, result, hresult, -⟩
  obtain ⟨⟨items, hperm, htop⟩, -⟩ := hsearch (vectorQuery pr (entryQuery pr query key value))
  rw [htop] at hresult
  have hfound := mem_of_mem_topResults hresult
  obtain ⟨item, hitem, -⟩ := List.mem_map.mp hfound
  obtain ⟨hrow, hmatch⟩ := List.mem_filter.mp (hperm.mem_iff.mp hitem)
  obtain ⟨mem', vec, rfl⟩ := hitems item hrow
  have hentry : (key, value) ∈ (entryQuery pr query key value).filters :=
    mem_addFilter_of_mem (mem_addFilter_of_mem List.mem_cons_self)
  have hpayload : payloadMatches (vectorItem mem' vec).payload (entryQuery pr query key value).filters = true := by
    rw [vectorMatches, Bool.and_eq_true] at hmatch
    exact hmatch.2
  have hsame := List.all_eq_true.mp hpayload _ hentry
  apply hvalue
  cases hcontrol <;> simpa [payloadAt, vectorItem, List.lookup_cons] using hsame.symm

/-! ## One memory behind the vector channel -/

/-- The memory `factWorld` holds, with its vector. -/
def vectorWorld : World :=
  { factWorld with
    vectors := Table.empty.upsert (vectorItem (userFact 5 "m1" "the deploy key rotates") []) }

/-- Providers over the vector store of `vectorWorld`. -/
def vectorProviders : Providers where
  now := 5
  embed := fun _ => []
  search := fun q => (vectorWorld.vectors.rows.filter (vectorMatches q)).map fun item => ⟨item.id, 0⟩

/-- A query of the tenant for this text. -/
def textQuery (text : String) : Query := { tenantQuery with text := text }

theorem topResults_of_length_le_one {limit : Int} {out : List VectorResult} (h : out.length ≤ 1) :
    topResults limit out = out := by
  have hsorted : out.mergeSort (fun a b => decide (b.score ≤ a.score)) = out := by
    match out, h with
    | [], _ => simp
    | [result], _ => simp
  unfold topResults
  rw [hsorted]
  split
  · next hlimit => exact List.take_of_length_le (by omega)
  · rfl

theorem provides_vectorWorld : Provides (.inProcess 5) vectorProviders vectorWorld where
  clock := rfl
  texts := fun q => ⟨_, List.Perm.refl _⟩
  vectors := by
    intro q
    have hone : (vectorProviders.search q).length ≤ 1 := by
      rw [vectorProviders, List.length_map]
      exact List.length_filter_le _ _
    exact ⟨⟨_, List.Perm.refl _, (topResults_of_length_le_one hone).symm⟩, rfl⟩
  id := ⟨"trace_1", by decide, rfl, rfl⟩

end AgentMemory
