import AgentMemory.Retrieval.Retrieve
import AgentMemory.Services.Indexing

/-!
# What scope a retrieved candidate is in

A run of `Retrieve` only reads the stores, so every candidate can be traced to what its
channels found in them. `FoundBy` says what each channel checks on the way. The text
channel applies the visibility rule of its store to the memory itself; the vector and
keyword channels look at the payload of an index entry; the graph channel follows an edge.
The session is a matter of the text channel alone, unless the caller asks for
`session_only`.
-/

namespace AgentMemory

open Tables Calls

/-- The visibility rule for a query: its user's memories, and for the agent, project and
session it names those that carry it or none. -/
structure InScope (q : Query) (mem : Memory) : Prop where
  user : q.userID ≠ "" → mem.userID = q.userID
  agent : q.agentID ≠ "" → mem.agentID = q.agentID ∨ mem.agentID = ""
  project : q.projectID ≠ "" → mem.projectID = q.projectID ∨ mem.projectID = ""
  session : q.sessionID ≠ "" → mem.sessionID = q.sessionID ∨ mem.sessionID = ""

/-- What `SearchByText` of a backend checks of the scope: the table has no clause on the
agent or the session. -/
def TextScope : Backend → Query → Memory → Prop
  | .memory, q, mem => InScope q mem
  | .postgres _ _, q, mem =>
      (q.userID ≠ "" → mem.userID = q.userID) ∧ (q.projectID ≠ "" → mem.projectID = q.projectID)

/-- A payload under the query's tenant and user. -/
structure PayloadOfUser (q : Query) (payload : List (String × String)) : Prop where
  tenant : q.tenantID ≠ "" → payloadAt payload "tenant_id" = q.tenantID
  user : q.userID ≠ "" → payloadAt payload "user_id" = q.userID

/-- A payload under the query's tenant, user, agent and project. -/
structure PayloadInScope (q : Query) (payload : List (String × String)) : Prop
    extends PayloadOfUser q payload where
  agent : q.agentID ≠ "" → payloadAt payload "agent_id" = q.agentID
  project : q.projectID ≠ "" → payloadAt payload "project_id" = q.projectID

/-- Why the channel with this reason found a memory in the stores of `w`. -/
inductive FoundBy (d : Deployment) (w : World) (q : Query) (mem : Memory) : String → Prop where
  | text : TextScope d.backend q mem → FoundBy d w q mem "text_search"
  | vector {item : VectorItem} : item ∈ w.vectors.rows → item.id = mem.id →
      PayloadInScope q item.payload → FoundBy d w q mem "vector_search"
  | keyword {doc : KeywordDoc} : doc ∈ w.keywords.rows → doc.id = mem.id →
      PayloadOfUser q doc.payload → FoundBy d w q mem "keyword_search"
  | graph {edge : GraphEdge} : edge ∈ w.edges → edge.toID = mem.id →
      FoundBy d w q mem "graph_search"

/-- A candidate that is a stored memory of the query's tenant, found by some channel, and
by every channel it names for that channel's reason. -/
structure Traced (d : Deployment) (w : World) (q : Query) (c : Candidate) : Prop where
  stored : c.memory ∈ w.memories.rows
  tenant : q.tenantID ≠ "" → c.memory.tenantID = q.tenantID
  channel : ∃ r ∈ channelReasons, r ∈ c.reasons
  found : ∀ r ∈ channelReasons, r ∈ c.reasons → FoundBy d w q c.memory r

/-- A memory of the query's user, and of exactly the agent and the project it names. -/
structure OwnScope (q : Query) (mem : Memory) : Prop where
  user : q.userID ≠ "" → mem.userID = q.userID
  agent : q.agentID ≠ "" → mem.agentID = q.agentID
  project : q.projectID ≠ "" → mem.projectID = q.projectID

/-- Every vector carries the payload that indexing its memory gives it. -/
def VectorsInStep (w : World) : Prop :=
  ∀ item ∈ w.vectors.rows, ∀ mem ∈ w.memories.rows, item.id = mem.id →
    item.payload = (vectorItem mem item.vector).payload

/-- Two worlds with the same contents of the stores that retrieval reads. -/
structure SameStores (w w' : World) : Prop where
  memories : w'.memories = w.memories
  vectors : w'.vectors = w.vectors
  keywords : w'.keywords = w.keywords
  edges : w'.edges = w.edges

/-- All candidates of a map are traced. -/
def Traces (d : Deployment) (w : World) (q : Query) (candidates : Candidates) : Prop :=
  ∀ c ∈ candidates.rows, Traced d w q c

/-- What every channel leaves: the stores as they were and traced candidates. -/
def Finds (d : Deployment) (w : World) (q : Query) : Except Err Candidates → World → Prop
  | .ok candidates, w' => SameStores w w' ∧ Traces d w q candidates
  | .error _, _ => True

/-! ## The stores' answers -/

theorem textScope_of_searches {b : Backend} {lower : Char → Char} {s : MemoryStore} {q : Query}
    {out : List Memory} (h : b.Searches lower s q out) {mem : Memory} (hm : mem ∈ out) :
    mem ∈ s.rows ∧ (q.tenantID ≠ "" → mem.tenantID = q.tenantID) ∧ TextScope b q mem := by
  cases b with
  | memory =>
    obtain ⟨hrow, hmatch⟩ := List.mem_filter.mp (h.mem_iff.mp hm)
    simp only [textMatches, Bool.and_eq_true] at hmatch
    have hq := hmatch.1
    unfold matchesQuery at hq
    split_ifs at hq with _ htenant huser hagent hproject hsession
    refine ⟨hrow, by grind, ⟨by grind, by grind, by grind, by grind⟩⟩
  | postgres timestamptz ilike =>
    obtain ⟨hrow, hmatch⟩ := Backend.mem_of_selects h hm
    simp only [listClauses, Bool.and_eq_true, Bool.or_eq_true, decide_eq_true_eq] at hmatch
    obtain ⟨⟨⟨⟨⟨⟨⟨htenant, huser⟩, hproject⟩, -⟩, -⟩, -⟩, -⟩, -⟩ := hmatch
    exact ⟨hrow, fun hne => htenant.resolve_left hne, fun hne => huser.resolve_left hne,
      fun hne => hproject.resolve_left hne⟩

theorem payloadAt_of_matches {payload filters : List (String × String)}
    (h : payloadMatches payload filters = true) {key value : String}
    (hkv : (key, value) ∈ filters) : payloadAt payload key = value := by
  simpa using List.all_eq_true.mp h _ hkv

theorem mem_of_mem_topResults {limit : Int} {out : List VectorResult} {result : VectorResult}
    (h : result ∈ topResults limit out) : result ∈ out := by
  unfold topResults at h
  split at h
  · exact (List.mergeSort_perm _ _).mem_iff.mp (List.mem_of_mem_take h)
  · exact (List.mergeSort_perm _ _).mem_iff.mp h

/-! ## The channels -/

variable {d : Deployment} {w₀ : World} {q : Query}

theorem traces_empty : Traces d w₀ q .empty := fun _ hc => absurd hc List.not_mem_nil

theorem Traces.upsert {candidates : Candidates} {c : Candidate} (h : Traces d w₀ q candidates)
    (hc : Traced d w₀ q c) : Traces d w₀ q (candidates.upsert c) := by
  intro c' hc'
  rcases Table.mem_upsert.mp hc' with rfl | ⟨hold, -⟩
  · exact hc
  · exact h c' hold

/-- What a channel writes for a memory it found is traced. -/
theorem traced_candidate {ch : Channel} {candidates : Candidates} {mem : Memory} {s : ℚ}
    (h : Traces d w₀ q candidates) (hrow : mem ∈ w₀.memories.rows)
    (htenant : mem.tenantID = q.tenantID) (hreason : ch.reason ∈ channelReasons)
    (hfound : FoundBy d w₀ q mem ch.reason) : Traced d w₀ q (ch.candidate candidates s mem) := by
  unfold Channel.candidate
  cases hf : candidates.find? mem.id with
  | none =>
    refine ⟨hrow, fun _ => htenant, ⟨_, hreason, List.mem_singleton_self _⟩, fun r _ hr => ?_⟩
    rw [List.mem_singleton.mp hr]
    exact hfound
  | some existing =>
    obtain ⟨hold, hid⟩ := Table.find?_eq_some.mp hf
    have ht := h existing hold
    have hsame : existing.memory = mem := Table.eq_of_key ht.stored hrow hid
    obtain ⟨r, hr, hr'⟩ := ht.channel
    refine ⟨ht.stored, ht.tenant, ⟨r, hr, List.mem_append_left _ hr'⟩, fun r' hr' hmem => ?_⟩
    rcases List.mem_append.mp hmem with hmem | hmem
    · exact ht.found r' hr' hmem
    · rw [List.mem_singleton.mp hmem]
      exact hsame ▸ hfound

/-- A channel followed by others. -/
theorem wp_finds_bind {p : Go Candidates} {w : World} {f : Candidates → Go Candidates}
    (hp : wp (step d) (Finds d w₀ q) p w)
    (hf : ∀ cs w', SameStores w₀ w' → Traces d w₀ q cs → wp (step d) (Finds d w₀ q) (f cs) w') :
    wp (step d) (Finds d w₀ q) (p >>= f) w := by
  rw [wp_bind]
  refine wp_mono ?_ _ _ hp
  rintro (e | cs) w' hfinds
  · trivial
  · exact hf cs w' hfinds.1 hfinds.2

theorem wp_mergeResults {ch : Channel} (hreason : ch.reason ∈ channelReasons)
    {results : List (String × ℚ)} {candidates : Candidates} {w : World}
    (hresults : ∀ p ∈ results, ∀ mem ∈ w₀.memories.rows, mem.id = p.1 →
      FoundBy d w₀ q mem ch.reason)
    (hw : SameStores w₀ w) (hc : Traces d w₀ q candidates) :
    wp (step d) (Finds d w₀ q) (mergeResults ch q results candidates) w := by
  induction results generalizing candidates w with
  | nil => exact ⟨hw, hc⟩
  | cons p rest ih =>
    have hrest := fun p' hp' => hresults p' (List.mem_cons_of_mem _ hp')
    unfold mergeResults
    rw [wp_bind, wp_attempt]
    intro r w' hs
    rcases step_cases hs with ⟨mem, rfl, hget, rfl⟩ | ⟨e, rfl, rfl⟩
    · rw [Backend.get_eq_some, hw.memories, Table.find?_eq_some] at hget
      obtain ⟨⟨hrow, hid⟩, htenant, -⟩ := hget
      have hfound := hresults p List.mem_cons_self mem hrow hid
      simp only [bindPost]
      split
      · exact ih hrest hw (hc.upsert (traced_candidate hc hrow htenant hreason hfound))
      · exact ih hrest hw hc
    · exact ih hrest hw hc

theorem wp_textSearch {candidates : Candidates} {w : World} (hw : SameStores w₀ w)
    (hc : Traces d w₀ q candidates) :
    wp (step d) (Finds d w₀ q) (textSearch q candidates) w := by
  unfold textSearch
  rw [wp_perform_bind]
  intro r w' hs
  rcases step_cases hs with ⟨textual, rfl, hsearch, rfl⟩ | ⟨e, rfl, -⟩
  · rw [hw.memories] at hsearch
    have htraced : ∀ mem ∈ textual, Traced d w₀ q (textCandidate mem) := by
      intro mem hmem
      obtain ⟨hrow, htenant, hscope⟩ := textScope_of_searches hsearch hmem
      refine ⟨hrow, htenant, ⟨"text_search", by decide, List.mem_singleton_self _⟩, fun r _ hr => ?_⟩
      rw [List.mem_singleton.mp hr]
      exact .text hscope
    refine ⟨hw, ?_⟩
    have hactive : ∀ mem ∈ textual.filter (·.isActive q.now), Traced d w₀ q (textCandidate mem) :=
      fun mem hmem => htraced mem (List.mem_filter.mp hmem).1
    generalize textual.filter (·.isActive q.now) = found at hactive
    induction found generalizing candidates with
    | nil => exact hc
    | cons mem rest ih =>
      exact ih (hc.upsert (hactive mem List.mem_cons_self))
        fun mem' hmem' => hactive mem' (List.mem_cons_of_mem _ hmem')
  · trivial

theorem wp_vectorSearch {limit : Nat} {candidates : Candidates} {w : World}
    (hagent : q.agentID ≠ "" → ("agent_id", q.agentID) ∈ q.filters)
    (hproject : q.projectID ≠ "" → ("project_id", q.projectID) ∈ q.filters)
    (hw : SameStores w₀ w) (hc : Traces d w₀ q candidates) :
    wp (step d) (Finds d w₀ q) (vectorSearch q limit candidates) w := by
  unfold vectorSearch
  rw [wp_perform_bind]
  intro r w₁ hs
  rcases step_cases hs with ⟨vec, rfl, rfl⟩ | ⟨e, rfl, -⟩
  · simp only
    rw [wp_perform_bind]
    intro r w₂ hs
    rcases step_cases hs with ⟨vres, rfl, ⟨items, hperm, rfl⟩, rfl⟩ | ⟨e, rfl, -⟩
    · refine wp_mergeResults (by decide) ?_ hw hc
      intro p hp mem hrow hid
      obtain ⟨result, hresult, rfl⟩ := List.mem_map.mp hp
      obtain ⟨item, hitem, rfl⟩ := List.mem_map.mp (mem_of_mem_topResults hresult)
      obtain ⟨hstored, hmatch⟩ := List.mem_filter.mp (hperm.mem_iff.mp hitem)
      rw [hw.vectors] at hstored
      simp only [vectorMatches, Bool.and_eq_true, Bool.or_eq_true, decide_eq_true_eq] at hmatch
      obtain ⟨⟨htenant, huser⟩, hfilters⟩ := hmatch
      exact .vector hstored hid.symm
        { tenant := htenant.resolve_left
          user := huser.resolve_left
          agent := fun hne => payloadAt_of_matches hfilters (hagent hne)
          project := fun hne => payloadAt_of_matches hfilters (hproject hne) }
    · trivial
  · trivial

theorem wp_keywordSearch {candidates : Candidates} {w : World} (hw : SameStores w₀ w)
    (hc : Traces d w₀ q candidates) :
    wp (step d) (Finds d w₀ q) (keywordSearch q candidates) w := by
  unfold keywordSearch
  rw [wp_perform_bind]
  intro r w₁ hs
  rcases step_cases hs with ⟨results, rfl, hperm, rfl⟩ | ⟨e, rfl, -⟩
  · refine wp_mergeResults (by decide) ?_ hw hc
    intro p hp mem hrow hid
    obtain ⟨result, hresult, rfl⟩ := List.mem_map.mp hp
    obtain ⟨doc, hdoc, rfl⟩ := List.mem_map.mp (hperm.mem_iff.mp hresult)
    obtain ⟨hstored, hmatch⟩ := List.mem_filter.mp hdoc
    rw [hw.keywords] at hstored
    simp only [keywordMatches, Bool.and_eq_true, Bool.or_eq_true, decide_eq_true_eq] at hmatch
    obtain ⟨⟨htenant, huser⟩, -⟩ := hmatch
    exact .keyword hstored hid.symm ⟨htenant.resolve_left, huser.resolve_left⟩
  · trivial

theorem wp_expandSeeds {depth : Int} {seeds : List String} {candidates : Candidates} {w : World}
    (hw : SameStores w₀ w) (hc : Traces d w₀ q candidates) :
    wp (step d) (Finds d w₀ q) (expandSeeds q depth seeds candidates) w := by
  induction seeds generalizing candidates w with
  | nil => exact ⟨hw, hc⟩
  | cons seedID rest ih =>
    unfold expandSeeds
    rw [wp_perform_bind]
    intro r w₁ hs
    rcases step_cases hs with ⟨results, rfl, rfl, rfl⟩ | ⟨e, rfl, -⟩
    · refine wp_finds_bind (wp_mergeResults (by decide) ?_ hw hc) fun _ _ hw' hc' => ih hw' hc'
      intro p hp mem hrow hid
      obtain ⟨result, hresult, rfl⟩ := List.mem_map.mp hp
      obtain ⟨edge, hedge, rfl⟩ := List.mem_map.mp hresult
      exact .graph (hw.edges ▸ (List.mem_filter.mp hedge).1) hid.symm
    · trivial

theorem wp_graphExpand {depth : Int} {candidates : Candidates} {w : World}
    (hw : SameStores w₀ w) (hc : Traces d w₀ q candidates) :
    wp (step d) (Finds d w₀ q) (graphExpand q depth candidates) w := by
  unfold graphExpand
  rw [wp_perform_bind]
  intro r w₁ hs
  rcases step_cases hs with ⟨seeds, rfl, -, rfl⟩ | ⟨e, rfl, -⟩
  · exact wp_expandSeeds hw hc
  · trivial

theorem wp_planned {use : Bool} {search : Candidates → Go Candidates} {candidates : Candidates}
    {w : World} (hw : SameStores w₀ w) (hc : Traces d w₀ q candidates)
    (hsearch : wp (step d) (Finds d w₀ q) (search candidates) w) :
    wp (step d) (Finds d w₀ q) (planned use search candidates) w := by
  unfold planned
  split
  · exact hsearch
  · exact ⟨hw, hc⟩

/-- Whatever channels the plan uses, what they gather is traced. -/
theorem wp_gather {p : SearchPlan} {limit : Nat} {w : World}
    (hagent : q.agentID ≠ "" → ("agent_id", q.agentID) ∈ q.filters)
    (hproject : q.projectID ≠ "" → ("project_id", q.projectID) ∈ q.filters)
    (hw : SameStores w₀ w) : wp (step d) (Finds d w₀ q) (gather p q limit) w := by
  unfold gather
  refine wp_finds_bind (wp_planned hw traces_empty (wp_textSearch hw traces_empty)) ?_
  intro cs₁ w₁ hw₁ hc₁
  refine wp_finds_bind (wp_planned hw₁ hc₁ (wp_vectorSearch hagent hproject hw₁ hc₁)) ?_
  intro cs₂ w₂ hw₂ hc₂
  refine wp_finds_bind (wp_planned hw₂ hc₂ (wp_keywordSearch hw₂ hc₂)) ?_
  intro cs₃ w₃ hw₃ hc₃
  exact wp_planned hw₃ hc₃ (wp_graphExpand hw₃ hc₃)

/-! ## From the map to the answer -/

/-- Scores, the order and reasons that name no channel have no part in a trace. -/
theorem Traced.rescored {c : Candidate} (h : Traced d w₀ q c) (s : ℚ) :
    Traced d w₀ q { c with score := s } :=
  ⟨h.stored, h.tenant, h.channel, h.found⟩

theorem Traced.rerankOf {c c' : Candidate} (h : Traced d w₀ q c) (hc : c.RerankOf c') :
    Traced d w₀ q c' := by
  obtain ⟨hmem, hreasons⟩ := hc
  obtain ⟨r, hr, hin⟩ := h.channel
  refine ⟨hmem ▸ h.stored, hmem ▸ h.tenant, ⟨r, hr, (hreasons r hr).mpr hin⟩, ?_⟩
  intro r' hr' hin'
  exact hmem ▸ h.found r' hr' ((hreasons r' hr').mp hin')

theorem rerankOf_fallback (c : Candidate) : c.RerankOf (fallback c) := by
  refine ⟨rfl, fun r hr => ?_⟩
  have hne : r ≠ "rerank_fallback" := by
    rintro rfl
    exact absurd hr (by decide)
  simp [fallback, hne]

theorem traced_of_mem_rank {candidates : Candidates} {order : List String}
    (h : Traces d w₀ q candidates) {c : Candidate} (hc : c ∈ rank d q candidates order) :
    Traced d w₀ q c := by
  rw [rank, (List.mergeSort_perm _ _).mem_iff] at hc
  obtain ⟨c', hc', rfl⟩ := List.mem_map.mp hc
  obtain ⟨id, -, hfind⟩ := List.mem_filterMap.mp (List.mem_filter.mp hc').1
  exact (h c' (Table.find?_eq_some.mp hfind).1).rescored _

theorem wp_rerank {ranked : List Candidate} {w : World} (h : ∀ c ∈ ranked, Traced d w₀ q c) :
    wp (step d) (fun o _ => ∀ out, o = .ok out → ∀ c ∈ out, Traced d w₀ q c)
      (rerank q ranked) w := by
  unfold rerank
  rw [wp_bind, wp_attempt]
  intro r w' hs
  rcases step_cases hs with ⟨out, rfl, hout, -⟩ | ⟨e, rfl, -⟩
  · rintro out' ⟨⟩ c' hc'
    obtain ⟨c, hc, hre⟩ := hout c' hc'
    exact (h c hc).rerankOf hre
  · rintro out' ⟨⟩ c' hc'
    obtain ⟨c, hc, rfl⟩ := List.mem_map.mp hc'
    exact (h c hc).rerankOf (rerankOf_fallback c)

/-- Building and saving the trace returns the candidates it was given. -/
theorem wp_traced {ranked : List Candidate} {w : World} :
    wp (step d) (fun o _ => ∀ out, o = .ok out → out.1 = ranked)
      (buildTrace q ranked >>= fun trace =>
        ask (.saveTrace trace) >>= fun _ => pure (ranked, trace)) w := by
  rw [wp_bind]
  refine wp_mono (Q := fun _ _ => True) ?_ _ _ ?_
  · rintro (e | trace) w' -
    · exact nofun
    · simp only [bindPost]
      rw [wp_perform_bind]
      rintro (e | u) w'' -
      · exact nofun
      · rintro out ⟨⟩
        rfl
  · exact (wp_iff_exec _ _).mpr fun _ _ _ => trivial

/-- The query `Retrieve` searches with: the caller's with an instant and the scope filters. -/
abbrev searched (query : Query) (now : Time) : Query := applyScopeFilters { query with now := now }

/-- What is in the scope of the query searched with is in the scope of the caller's. -/
theorem Traced.of_searched {query : Query} {now : Time} {c : Candidate}
    (h : Traced d w₀ (searched query now) c) : Traced d w₀ query c := by
  refine ⟨h.stored, h.tenant, h.channel, fun r hr hin => ?_⟩
  cases h.found r hr hin with
  | text hscope =>
    refine .text ?_
    revert hscope
    cases d.backend with
    | memory => exact fun hscope => ⟨hscope.user, hscope.agent, hscope.project, hscope.session⟩
    | postgres _ _ => exact id
  | vector hitem hid hscope =>
    exact .vector hitem hid ⟨⟨hscope.tenant, hscope.user⟩, hscope.agent, hscope.project⟩
  | keyword hdoc hid huser => exact .keyword hdoc hid ⟨huser.tenant, huser.user⟩
  | graph hedge hid => exact .graph hedge hid

theorem mem_addFilter {filters : List (String × String)} {key value : String} (hne : value ≠ "")
    (h : filters.lookup key = none) : (key, value) ∈ addFilter filters key value := by
  simp [addFilter, hne, h]

theorem mem_addFilter_of_mem {filters : List (String × String)} {key value : String}
    {kv : String × String} (h : kv ∈ filters) : kv ∈ addFilter filters key value := by
  unfold addFilter
  split_ifs
  · exact h
  · exact h
  · exact List.mem_append_left _ h

/-- Where the caller gives no filters, those that `ApplyScopeFilters` adds name the agent. -/
theorem agent_filter {query : Query} {now : Time} (hfilters : query.filters = [])
    (hne : query.agentID ≠ "") : ("agent_id", query.agentID) ∈ (searched query now).filters := by
  refine mem_addFilter_of_mem (mem_addFilter hne ?_)
  simp [hfilters]

/-- And they name the project. -/
theorem project_filter {query : Query} {now : Time} (hfilters : query.filters = [])
    (hne : query.projectID ≠ "") :
    ("project_id", query.projectID) ∈ (searched query now).filters := by
  refine mem_addFilter hne ?_
  simp only [hfilters, addFilter]
  split <;> simp [List.lookup_cons]

/-- Reading the instant of a query changes nothing. -/
theorem wp_queryNow {query : Query} {w : World} :
    wp (step d) (fun _ w' => w' = w) (queryNow query) w := by
  unfold queryNow
  split
  · refine wp_perform.mpr ?_
    intro r w' hs
    rcases step_cases hs with ⟨now, -, -, rfl⟩ | ⟨e, -, rfl⟩ <;> rfl
  · rfl

/-- Every run of `Retrieve` without filters of the caller returns traced candidates. -/
theorem wp_retrieve {query : Query} {w : World} (hfilters : query.filters = []) :
    wp (step d) (fun o _ => ∀ out, o = .ok out → ∀ c ∈ out.1, Traced d w query c)
      (retrieve d query) w := by
  unfold retrieve
  rw [wp_bind]
  refine wp_mono ?_ _ _ wp_queryNow
  rintro (e | now) w₁ rfl
  · exact nofun
  simp only [bindPost]
  rw [wp_bind]
  refine wp_mono ?_ _ _
    (wp_gather (agent_filter hfilters) (project_filter hfilters) ⟨rfl, rfl, rfl, rfl⟩)
  rintro (e | candidates) w₂ hfinds
  · exact nofun
  simp only [bindPost]
  rw [wp_perform_bind]
  rintro (e | order) w₃ -
  · exact nofun
  simp only
  rw [wp_bind]
  refine wp_mono ?_ _ _ (wp_rerank fun c hc => traced_of_mem_rank hfinds.2 hc)
  rintro (e | reranked) w₄ hreranked
  · exact nofun
  refine wp_mono ?_ _ _ wp_traced
  intro o w₅ hranked out hout c hc
  rw [hranked out hout] at hc
  exact (hreranked _ rfl c (List.mem_of_mem_take hc)).of_searched

/-- Where vectors and memories are in step, the vector channel finds memories of the query's
own user, agent and project. -/
theorem ownScope_of_vector {w : World} {mem : Memory} {r : String} (h : FoundBy d w q mem r)
    (hr : r = "vector_search") (hrow : mem ∈ w.memories.rows) (hstep : VectorsInStep w) :
    OwnScope q mem := by
  cases h with
  | vector hitem hid hscope =>
    rw [hstep _ hitem _ hrow hid] at hscope
    exact ⟨hscope.user, hscope.agent, hscope.project⟩
  | text _ => exact absurd hr (by decide)
  | keyword _ _ _ => exact absurd hr (by decide)
  | graph _ _ => exact absurd hr (by decide)

/-- Scope of retrieval: a candidate is a memory of the query's tenant, in the scope that each
channel which found it checks. -/
theorem retrieve_scoped_by_channel (d : Deployment) (query : Query) (w w' : World)
    (out : List Candidate) (trace : Trace) (hfilters : query.filters = [])
    (he : Exec (step d) (retrieve d query) w (.ok (out, trace)) w') :
    ∀ c ∈ out, Traced d w query c ∧
      (VectorsInStep w → "vector_search" ∈ c.reasons → OwnScope query c.memory) := by
  intro c hc
  have htraced := he.post (wp_retrieve hfilters) _ rfl c hc
  refine ⟨htraced, fun hstep hvector => ?_⟩
  exact ownScope_of_vector (htraced.found _ (by decide) hvector) rfl htraced.stored hstep

/-! ## A memory of another session -/

/-- A user's memory from one session, and a query of the same user in another. -/
def otherSession : Memory := { userFact 5 "m1" "the deploy key rotates" with sessionID := "s2" }

def sessionQuery : Query :=
  { Query.zero with tenantID := "t", userID := "u", sessionID := "s1", text := "deploy", now := 5 }

/-- The memory and its vector. -/
def sessionWorld : World :=
  { World.holding (Table.empty.upsert otherSession) with
    vectors := Table.empty.upsert (vectorItem otherSession []) }

/-- The candidate as the vector channel finds it. -/
def vectorFound : Candidate := vectorChannel.candidate .empty 0 otherSession

/-- The text channel hides the memory. -/
theorem exec_text_otherSession :
    Exec (step (.inProcess 5)) (textSearch (searched sessionQuery 5) .empty) sessionWorld
      (.ok .empty) sessionWorld := by
  have hnone : sessionWorld.memories.rows.filter
      (textMatches Char.toLower (searched sessionQuery 5)) = [] := by decide
  have hanswer : Answers (.inProcess 5) (.searchByText (searched sessionQuery 5)) sessionWorld []
      sessionWorld := by
    exact ⟨List.Perm.of_eq hnone.symm, rfl⟩
  exact Exec.answer (step_answer hanswer) (.ret _ _)

/-- The vector channel finds it. -/
theorem exec_vector_otherSession :
    Exec (step (.inProcess 5)) (vectorSearch (searched sessionQuery 5) 8 .empty) sessionWorld
      (.ok (Table.empty.upsert vectorFound)) sessionWorld := by
  have hembed : Answers (.inProcess 5) (.embed "deploy") sessionWorld [] sessionWorld := rfl
  have hsearch : ∀ vq : VectorQuery, vectorMatches vq (vectorItem otherSession []) = true →
      0 < vq.limit →
      Answers (.inProcess 5) (.searchVectors vq) sessionWorld [⟨"m1", 0⟩] sessionWorld := by
    intro vq hmatch hlimit
    refine ⟨⟨[vectorItem otherSession []], ?_, ?_⟩, rfl⟩
    · change List.Perm _ ([vectorItem otherSession []].filter (vectorMatches vq))
      simp [hmatch]
    · have hone : List.length [(⟨"m1", 0⟩ : VectorResult)] ≤ vq.limit.toNat := by
        simp only [List.length_singleton]
        omega
      have hranked : topResults vq.limit [⟨"m1", 0⟩] = [⟨"m1", 0⟩] := by
        simpa [topResults, hlimit] using List.take_of_length_le hone
      exact hranked.symm
  have hget : Answers (.inProcess 5) (.get "t" "m1") sessionWorld otherSession sessionWorld :=
    ⟨Backend.get_eq_some.mpr ⟨rfl, rfl, by decide⟩, rfl⟩
  refine Exec.answer (step_answer hembed) ?_
  refine Exec.answer (step_answer (hsearch _ (by decide) (by decide))) ?_
  exact .call (step_answer hget) (.ret _ _)

/-- The keyword store and the graph hold nothing, so the candidate is the vector channel's. -/
theorem exec_gather_otherSession :
    Exec (step (.inProcess 5))
      (gather (plan (searched sessionQuery 5) true true) (searched sessionQuery 5) 8) sessionWorld
      (.ok (Table.empty.upsert vectorFound)) sessionWorld := by
  refine Exec.bind exec_text_otherSession (Exec.bind exec_vector_otherSession ?_)
  have hkeywords : Answers (.inProcess 5) (.searchKeywords (searched sessionQuery 5)) sessionWorld
      [] sessionWorld := ⟨List.Perm.refl _, rfl⟩
  have hrange : Answers (.inProcess 5) (.rangeOver ["m1"]) sessionWorld ["m1"] sessionWorld :=
    ⟨List.Perm.refl _, rfl⟩
  have htraverse : Answers (.inProcess 5) (.traverse ⟨"t", "m1", 2⟩) sessionWorld [] sessionWorld :=
    ⟨rfl, rfl⟩
  refine Exec.bind (Exec.answer (step_answer hkeywords) (.ret _ _)) ?_
  refine Exec.answer (step_answer hrange) ?_
  exact Exec.answer (step_answer htraverse) (Exec.bind (.ret _ _) (.ret _ _))

/-- The trace of an answer can always be built and saved. -/
theorem exec_traced (q : Query) (ranked : List Candidate) {w : World} {now : Time} {id : String}
    (hclock : d.clock now) (hid : w.Fresh id) :
    Exec (step d) (buildTrace q ranked >>= fun trace =>
        ask (.saveTrace trace) >>= fun _ => pure (ranked, trace)) w
      (.ok (ranked, traceOf q ranked id now)) { w with issued := id :: w.issued } := by
  have hnewID : Answers d (.newID "trace") w id { w with issued := id :: w.issued } := ⟨hid, rfl⟩
  have hnow : Answers d .now { w with issued := id :: w.issued } now
    { w with issued := id :: w.issued } := ⟨hclock, rfl⟩
  have hsave : ∀ trace w', Answers d (.saveTrace trace) w' () w' := fun _ _ => rfl
  refine Exec.bind ?_ (Exec.answer (step_answer (hsave _ _)) (.ret _ _))
  exact Exec.answer (step_answer hnewID) (Exec.answer (step_answer hnow) (.ret _ _))

/-- The trace of that candidate alone. -/
def sessionTrace : Trace := traceOf (searched sessionQuery 5) [vectorFound] "trace_1" 5

/-- A run that returns the memory of the other session. -/
theorem exec_retrieve_otherSession :
    Exec (step (.inProcess 5)) (retrieve (.inProcess 5) sessionQuery) sessionWorld
      (.ok ([vectorFound], sessionTrace)) { sessionWorld with issued := ["trace_1"] } := by
  have hrange : Answers (.inProcess 5) (.rangeOver ["m1"]) sessionWorld ["m1"] sessionWorld :=
    ⟨List.Perm.refl _, rfl⟩
  have hranked : ∃ c ∈ rank (.inProcess 5) (searched sessionQuery 5)
      (Table.empty.upsert vectorFound) ["m1"], c.RerankOf vectorFound := by
    refine ⟨{ vectorFound with score := vectorFound.score + recencyBoost otherSession 5 }, ?_,
      rfl, fun r _ => Iff.rfl⟩
    refine (List.mergeSort_perm _ _).mem_iff.mpr ?_
    exact List.mem_singleton_self _
  have hrerank : ∀ text, Answers (.inProcess 5) (.rerank text (rank (.inProcess 5)
      (searched sessionQuery 5) (Table.empty.upsert vectorFound) ["m1"])) sessionWorld
      [vectorFound] sessionWorld := by
    refine fun _ => ⟨fun c hc => ?_, rfl⟩
    rw [List.mem_singleton.mp hc]
    exact hranked
  have hfresh : sessionWorld.Fresh "trace_1" := ⟨by decide, rfl, rfl⟩
  have hclock : (Deployment.inProcess 5).clock 5 := rfl
  refine Exec.bind (.ret 5 _) (Exec.bind exec_gather_otherSession ?_)
  refine Exec.answer (step_answer hrange) ?_
  exact Exec.bind (.call (step_answer (hrerank _)) (.ret _ _)) (exec_traced _ _ hclock hfresh)

/-- That run returns a candidate that names the vector channel alone. -/
theorem retrieve_scoped_otherSession :
    Traced (.inProcess 5) sessionWorld sessionQuery vectorFound ∧
      (VectorsInStep sessionWorld → "vector_search" ∈ vectorFound.reasons →
        OwnScope sessionQuery vectorFound.memory) :=
  retrieve_scoped_by_channel _ _ _ _ _ _ rfl exec_retrieve_otherSession _
    (List.mem_singleton_self _)

/-- A session in the query does not keep the memories of other sessions out. -/
theorem retrieve_leaves_session : ¬ ∀ (d : Deployment) (query : Query) (w w' : World)
    (out : List Candidate) (trace : Trace), query.filters = [] →
    Exec (step d) (retrieve d query) w (.ok (out, trace)) w' →
    ∀ c ∈ out, InScope query c.memory := by
  intro h
  have hscope := h _ _ _ _ _ _ rfl exec_retrieve_otherSession _ (List.mem_singleton_self _)
  have hsession : otherSession.sessionID = "s1" ∨ otherSession.sessionID = "" :=
    hscope.session (by decide)
  exact absurd hsession (by decide)

end AgentMemory
