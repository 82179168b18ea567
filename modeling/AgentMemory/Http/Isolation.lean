import AgentMemory.Http.Server
import AgentMemory.Context.Coherence

/-!
# Tenants behind an API key

A key bound to a tenant fixes the tenant of every request that carries it: the middleware refuses
another `X-Tenant-ID`, `tenantFor` another tenant in a body or a parameter, and each service
keeps to the tenant it is called for. Only `handleEvalsExport` asks for no tenant, and the
recorder holds the retrievals of all of them (`response_isolated_iff`).
-/

namespace AgentMemory.Http

open Tables Calls

/-- The key of the request is bound to the tenant. -/
def BoundTo (cfg : ServerConfig) (r : Request) (tenant : String) : Prop :=
  authenticate cfg r = .ok tenant ∧ tenant ≠ ""

/-- Every record of the response belongs to the tenant. -/
def Owns (tenant : String) (reply : Reply) : Prop := ∀ t ∈ reply.body.tenants, t = tenant

/-- The recorder after these retrievals, where one is wired. -/
def recorderAfter (enabled : Bool) (max : Int) (history : List Record) : Option Recorder :=
  if enabled then some (history.foldl Recorder.record (newRecorder max)) else none

/-- The retrievals that the recorder still holds. -/
def lastRecords (max : Int) (history : List Record) : List Record :=
  history.drop (history.length - bufferSize max)

/-- The request gets through to the export of a recorder. -/
structure ReachesExport (out : Outside) (r : Request) (tenant : String) (enabled : Bool) : Prop where
  path : r.path = "/v1/evals/export"
  method : r.method = "GET"
  header : r.header "X-Tenant-ID" = "" ∨ r.header "X-Tenant-ID" = tenant
  allowed : out.allows tenant = true
  recording : enabled = true

/-! ## The recorder -/

theorem snapshot_replay (max : Nat) (history : List Record) :
    history.foldl Recorder.record ⟨max, []⟩ = ⟨max, history.drop (history.length - max)⟩ := by
  induction history using List.reverseRecOn with
  | nil => simp
  | append_singleton history rec ih =>
    rw [List.foldl_append, ih]
    change Recorder.record _ rec = _
    unfold Recorder.record
    simp only [List.length_append, List.length_drop, List.length_singleton]
    split
    · next hfull =>
      have hdrop : history.length - (history.length - max) + 1 - max = 1 := by omega
      rw [hdrop, ← List.drop_append_of_le_length (by omega), List.drop_drop]
      congr 2
      omega
    · next hroom =>
      have hnone : history.length + 1 - max = history.length - max := by omega
      rw [hnone, ← List.drop_append_of_le_length (by omega)]

theorem recorderAfter_eq (max : Int) (history : List Record) :
    recorderAfter true max history = some ⟨bufferSize max, lastRecords max history⟩ := by
  rw [recorderAfter, if_pos rfl, newRecorder, snapshot_replay, lastRecords]

/-! ## The tenant of a request -/

variable {srv : Server} {d : Deployment} {r : Request} {out : Outside} {tenant : String} {w : World}

/-- An outcome whose response belongs to the tenant. -/
def Owned (tenant : String) (o : Except Err Reply) (_ : World) : Prop := ∀ reply, o = .ok reply → Owns tenant reply

/-- A program that only returns what `good` allows. -/
abbrev Returns {α : Type} (d : Deployment) (good : α → Prop) (p : Go α) : Prop :=
  ∀ w, wp (step d) (fun o _ => ∀ a, o = .ok a → good a) p w

theorem wp_refuse (e : ApiError) : wp (step d) (Owned tenant) (refuse e) w := by
  rintro reply ⟨⟩ t ht
  cases ht

/-- No explicit tenant leads a bound request to another one. -/
theorem tenantFor_bound {cfg : ServerConfig} {explicit resolved : String} (hne : tenant ≠ "")
    (h : tenantFor cfg ⟨tenant, tenant⟩ explicit = .ok resolved) : resolved = tenant := by
  unfold tenantFor at h
  by_cases hexplicit : explicit ≠ ""
  · rw [if_pos hexplicit] at h
    by_cases hsame : tenant = explicit
    · rw [if_neg (fun hboth => hboth.2 hsame)] at h
      cases h
      exact hsame.symm
    · rw [if_pos ⟨hne, hsame⟩] at h
      cases h
  · rw [if_neg hexplicit, if_pos hne] at h
    cases h
    rfl

/-- A bound request that the middleware admits has the tenant of its key. -/
theorem resolveTenant_bound {cfg : ServerConfig} (hne : tenant ≠ "") :
    resolveTenant cfg tenant r =
      if r.header "X-Tenant-ID" = "" ∨ r.header "X-Tenant-ID" = tenant then .ok ⟨tenant, tenant⟩
      else .error .tenantForbidden := by
  unfold resolveTenant
  simp only [if_pos hne]
  by_cases hempty : r.header "X-Tenant-ID" = ""
  · rw [if_neg (fun hboth => hboth.1 hempty), if_pos (Or.inl hempty)]
  · by_cases hsame : r.header "X-Tenant-ID" = tenant
    · rw [if_neg (fun hboth => hboth.2 hsame), if_pos (Or.inr hsame)]
    · rw [if_pos ⟨hempty, hsame⟩, if_neg (not_or.mpr ⟨hempty, hsame⟩)]

/-- Behind the middleware a bound request names no other tenant and is within the rate limit. -/
theorem wp_withMiddleware (hbound : BoundTo srv.config r tenant) {next : RequestContext → Go Reply}
    (h : (r.header "X-Tenant-ID" = "" ∨ r.header "X-Tenant-ID" = tenant) → out.allows tenant = true →
      wp (step d) (Owned tenant) (next ⟨tenant, tenant⟩) w) :
    wp (step d) (Owned tenant) (withMiddleware srv.config out r next) w := by
  obtain ⟨hauth, hne⟩ := hbound
  unfold withMiddleware
  rw [hauth]
  simp only [resolveTenant_bound hne]
  split
  · exact wp_refuse _
  · next ctx hctx =>
    split at hctx
    · next hheader =>
      cases hctx
      simp only [if_neg hne]
      split
      · next hallowed => exact h hheader hallowed
      · exact wp_refuse _
    · cases hctx

/-- A handler that runs a service for the tenant of the request writes what the service returns
for that tenant. -/
theorem wp_served {α : Type} {explicit : String} {run : String → Go α} {write : α → Reply} (hne : tenant ≠ "")
    (hrun : Returns d (fun a => Owns tenant (write a)) (run tenant)) :
    wp (step d) (Owned tenant) (served srv ⟨tenant, tenant⟩ explicit run write) w := by
  unfold served
  split
  · exact wp_refuse _
  · next resolved hresolved =>
    obtain rfl := tenantFor_bound hne hresolved
    rw [wp_bind, wp_caught]
    refine wp_mono ?_ _ _ (hrun w)
    rintro (e | a) w' hgood
    · exact wp_refuse (d := d) _
    · rintro reply ⟨⟩
      exact hgood a rfl

theorem wp_onMethod {method : String} {next : Go Reply} (h : wp (step d) (Owned tenant) next w) :
    wp (step d) (Owned tenant) (onMethod r method next) w := by
  unfold onMethod
  split
  · exact wp_refuse _
  · exact h

theorem wp_posted {α : Type} {decode : String → Option α} {next : α → Go Reply}
    (h : ∀ a, wp (step d) (Owned tenant) (next a) w) : wp (step d) (Owned tenant) (posted r decode next) w := by
  refine wp_onMethod ?_
  split
  · exact wp_refuse _
  · exact h _

/-- A body without records. -/
theorem wp_bare {status : Nat} {body : Body} (h : body.tenants = []) :
    wp (step d) (Owned tenant) (pure (wrote status body)) w := by
  rintro reply ⟨⟩ t ht
  rw [wrote, h] at ht
  cases ht

theorem returns_bare {α : Type} {p : Go α} {write : α → Reply} (h : ∀ a, (write a).body.tenants = []) :
    Returns d (fun a => Owns tenant (write a)) p := by
  intro w
  refine (wp_iff_exec _ _).mpr ?_
  intro o w' _ a _ t ht
  rw [h a] at ht
  cases ht

/-! ## What the services return -/

theorem tenant_of_lists {b : Backend} {s : MemoryStore} {q : Query} {listed : List Memory} (hne : q.tenantID ≠ "")
    (hl : b.Lists s q listed) {mem : Memory} (hmem : mem ∈ listed) : mem.tenantID = q.tenantID := by
  cases b with
  | memory =>
    have hmatch := (List.mem_filter.mp (hl.mem_iff.mp hmem)).2
    unfold matchesQuery at hmatch
    split_ifs at hmatch with _ htenant
    exact not_not.mp fun hother => htenant ⟨hne, hother⟩
  | postgres timestamptz ilike =>
    have hclauses := (Backend.mem_of_selects hl hmem).2
    simp only [listClauses, Bool.and_eq_true, Bool.or_eq_true, decide_eq_true_eq] at hclauses
    exact hclauses.1.1.1.1.1.1.resolve_left hne

theorem returns_list (q : Query) (hne : q.tenantID ≠ "") :
    Returns d (fun mems : List Memory => ∀ mem ∈ mems, mem.tenantID = q.tenantID) (ask (.list q)) := by
  intro w
  refine wp_perform.mpr ?_
  intro r w' hs
  obtain ⟨mems, rfl, hl, -⟩ | ⟨e, rfl, -⟩ := step_cases hs
  · rintro _ ⟨⟩ mem hmem
    exact tenant_of_lists hne hl hmem
  · rintro _ ⟨⟩

theorem returns_get (id : String) :
    Returns d (fun mem : Memory => mem.tenantID = tenant) (ask (.get tenant id)) := by
  intro w
  refine wp_perform.mpr ?_
  intro r w' hs
  obtain ⟨mem, rfl, hget, -⟩ | ⟨e, rfl, -⟩ := step_cases hs
  · rintro _ ⟨⟩
    exact (Backend.get_eq_some.mp hget).2.1
  · rintro _ ⟨⟩

/-- A reranker gives back memories it was given. -/
theorem returns_rerank (q : Query) (ranked : List Candidate) (good : Memory → Prop)
    (h : ∀ c ∈ ranked, good c.memory) :
    Returns d (fun reranked : List Candidate => ∀ c ∈ reranked, good c.memory) (rerank q ranked) := by
  intro w
  unfold rerank
  rw [wp_bind, wp_attempt]
  intro r w' hs
  obtain ⟨reranked, rfl, hreranked, -⟩ | ⟨e, rfl, -⟩ := step_cases hs
  · rintro _ ⟨⟩ c' hc'
    obtain ⟨c, hc, hmem, -⟩ := hreranked c' hc'
    rw [hmem]
    exact h c hc
  · rintro _ ⟨⟩ c' hc'
    obtain ⟨c, hc, rfl⟩ := List.mem_map.mp hc'
    exact h c hc

/-- An answer of retrieval holds memories of the tenant of its query. -/
theorem returns_retrieve (q : Query) (hne : q.tenantID ≠ "") :
    Returns d (fun answer : List Candidate × Trace => ∀ c ∈ answer.1, c.memory.tenantID = q.tenantID)
      (retrieve d q) := by
  intro w
  unfold retrieve
  rw [wp_bind]
  refine wp_mono (Q := fun _ _ => True) ?_ _ _ ((wp_iff_exec _ _).mpr fun _ _ _ => trivial)
  rintro (e | now) w₁ -
  · rintro _ ⟨⟩
  simp only [bindPost]
  rw [wp_bind]
  refine wp_mono ?_ _ _ (wp_gather_live (q := searched q now) hne)
  rintro (e | candidates) w₂ hlive
  · rintro _ ⟨⟩
  simp only [bindPost]
  rw [wp_perform_bind]
  rintro (e | order) w₃ -
  · rintro _ ⟨⟩
  simp only
  have hranked : ∀ c ∈ rank d (searched q now) candidates order, c.memory.tenantID = q.tenantID := by
    intro c hc
    obtain ⟨c', hc', hmem, -⟩ := mem_rank_memory (List.mem_map_of_mem hc)
    rw [← hmem]
    exact (hlive c' hc').tenant
  rw [wp_bind]
  refine wp_mono ?_ _ _ (returns_rerank _ _ (fun mem => mem.tenantID = q.tenantID) hranked w₃)
  rintro (e | reranked) w₄ hreranked
  · rintro _ ⟨⟩
  refine wp_mono ?_ _ _ wp_traced
  intro o w₅ htaken answer ho c hc
  rw [htaken answer ho] at hc
  exact hreranked reranked rfl c (List.mem_of_mem_take hc)

/-! ## Ingestion -/

theorem tenantID_of_outcome {candidate : Memory} {w w' : World} {o : Except Err Result} {writes : History}
    (hne : candidate.tenantID ≠ "") (h : Outcome d candidate w o w' writes) :
    ∀ result, o = .ok result → result.memory.tenantID = candidate.tenantID := by
  cases h with
  | failed e issued writes hf hw => rintro result ⟨⟩
  | new hnow hl hn =>
    rintro result ⟨⟩
    rfl
  | merged hnow hl hn hsim =>
    rintro result ⟨⟩
    have hlisted := List.mem_of_find?_eq_some hn
    have hown := tenant_of_lists (q := neighborQuery candidate) hne hl hlisted
    exact hown
  | superseded hnow hl hn hlt hsup hid hlink =>
    rintro result ⟨⟩
    rfl
  | contradicts hnow hl hn hlt hsup hcon hlink =>
    rintro result ⟨⟩
    rfl

/-- What is stored for a candidate has its tenant. -/
theorem wp_storeCandidate_tenant {mem : Memory} (hne : mem.tenantID ≠ "") (t : World × History) :
    wp (watched d) (fun o _ => ∀ stored, o = .ok stored → stored.tenantID = mem.tenantID) (storeCandidate d mem) t := by
  obtain ⟨w, history⟩ := t
  unfold storeCandidate
  split
  · rw [wp_bind]
    apply wp_consolidate
    rintro (e | result) w' writes hout
    · rintro stored ⟨⟩
    have hown := tenantID_of_outcome hne hout result rfl
    simp only [bindPost]
    rw [wp_recorded_bind]
    rintro (e | u) w₁ -
    · rintro stored ⟨⟩
    · rintro stored ⟨⟩
      exact hown
  · rw [wp_recorded_bind]
    rintro (e | u) w₁ -
    · rintro stored ⟨⟩
    · rintro stored ⟨⟩
      rfl

/-- The memories that are written and the candidates that are left have the tenant. -/
def AllOf (tenant : String) (created rest : List Memory) (_ : World × History) : Prop :=
  (∀ mem ∈ created, mem.tenantID = tenant) ∧ ∀ mem ∈ rest, mem.tenantID = tenant

theorem wp_ingestLoop_tenant (hne : tenant ≠ "") {candidates : List Memory}
    (h : ∀ mem ∈ candidates, mem.tenantID = tenant) (t : World × History) :
    wp (watched d) (fun o _ => ∀ created, o = .ok created → ∀ mem ∈ created, mem.tenantID = tenant)
      (ingestLoop d [] candidates) t := by
  have hinit : AllOf tenant [] candidates t := ⟨fun mem hm => absurd hm List.not_mem_nil, h⟩
  refine wp_mono ?_ _ _ (wp_ingestLoop (AllOf tenant) (fun _ _ => True) (fun _ _ _ _ _ _ h => h)
    (fun created mem rest t h _ => ⟨h.1, (List.forall_mem_cons.mp h.2).2⟩) ?_ hinit)
  · rintro (e | created) t' hall
    · rintro _ ⟨⟩
    · rintro _ ⟨⟩
      exact hall.1
  · rintro created mem rest t ⟨hcreated, hrest⟩ -
    obtain ⟨hmem, hrest⟩ := List.forall_mem_cons.mp hrest
    refine wp_mono ?_ _ _ (wp_storeCandidate_tenant (by rw [hmem]; exact hne) t)
    rintro (e | stored) t' hstored
    · trivial
    · refine ⟨?_, hrest⟩
      intro m hm
      rcases List.mem_append.mp hm with hm | hm
      · exact hcreated m hm
      · rw [List.mem_singleton.mp hm]
        exact (hstored stored rfl).trans hmem

/-- The response to an ingest request holds an event and memories of its tenant. -/
theorem returns_ingest (drafts : Event → List Draft) (req : IngestRequest) (hne : req.tenantID ≠ "") :
    Returns (d.distilling drafts) (fun response : IngestResponse => response.event.tenantID = req.tenantID ∧
      ∀ mem ∈ response.memories, mem.tenantID = req.tenantID) (ingest (d.distilling drafts) req) := by
  intro w
  refine wp_of_recorded _ _ [] (show wp (recorded Call.isWrite _) _ _ _ from ?_)
  unfold ingest
  rw [wp_recorded_bind]
  rintro (e | now) w₁ -
  · rintro _ ⟨⟩
  simp only
  rw [wp_recorded_bind]
  rintro (e | id) w₂ -
  · rintro _ ⟨⟩
  simp only
  split
  · rintro _ ⟨⟩
  rw [wp_recorded_bind]
  rintro (e | u) w₃ -
  · rintro _ ⟨⟩
  simp only
  rw [wp_recorded_bind]
  intro r w₄ hs
  obtain ⟨candidates, rfl, ⟨ids, -, -, -, hcandidates, -⟩⟩ | ⟨e, rfl, -⟩ := step_cases hs
  · have hown : ∀ mem ∈ candidates, mem.tenantID = req.tenantID := by
      intro mem hmem
      rw [hcandidates] at hmem
      obtain ⟨drafted, hdrafted, -, hsame⟩ := mem_withIDs hmem
      obtain ⟨draft, -, rfl⟩ := List.mem_map.mp hdrafted
      rw [hsame]
      rfl
    simp only
    rw [wp_bind]
    refine wp_mono ?_ _ _ (wp_ingestLoop_tenant hne hown _)
    rintro (e | created) t hcreated
    · rintro _ ⟨⟩
    simp only [bindPost]
    rw [wp_bind]
    refine wp_mono (Q := fun _ _ => True) ?_ _ _ ((wp_iff_exec _ _).mpr fun _ _ _ => trivial)
    rintro (e | u) t' -
    · rintro _ ⟨⟩
    · rintro _ ⟨⟩
      exact ⟨rfl, hcreated created rfl⟩
  · rintro _ ⟨⟩

/-! ## Receipts -/

theorem wp_always {α : Type} {Q : Except Err α → World → Prop} {p : Go α} (h : ∀ o w', Q o w') : wp (step d) Q p w :=
  (wp_iff_exec _ _).mpr fun o w' _ => h o w'

theorem returns_delete (req : DeletionRequest) :
    Returns d (fun receipt : DeletionReceipt => receipt.tenantID = req.tenantID) (delete req) := by
  intro w
  refine (wp_iff_exec _ _).mpr ?_
  rintro o w' h receipt rfl
  unfold delete at h
  obtain ⟨_, _, -, h⟩ := h.of_bind
  obtain ⟨_, _, -, h⟩ := h.of_bind
  obtain ⟨_, _, -, h⟩ := h.of_bind
  obtain ⟨_, _, -, h⟩ := h.of_bind
  obtain ⟨_, _, -, h⟩ := h.of_bind
  obtain ⟨_, _, -, h⟩ := h.of_bind
  obtain ⟨_, _, -, h⟩ := h.of_bind
  cases h
  rfl

theorem returns_redact (redactPII : String → String × Bool) (id reason : String) :
    Returns d (fun receipt : DeletionReceipt => receipt.tenantID = tenant) (redact redactPII tenant id reason) := by
  intro w
  refine (wp_iff_exec _ _).mpr ?_
  rintro o w' h receipt rfl
  unfold redact at h
  obtain ⟨_, _, -, h⟩ := h.of_bind
  obtain ⟨_, _, -, h⟩ := h.of_bind
  unfold redactCopy at h
  simp only at h
  split at h
  · obtain ⟨_, _, -, h⟩ := h.of_bind
    obtain ⟨_, _, -, h⟩ := h.of_bind
    cases h
    rfl
  · cases h
    rfl

/-! ## Packs -/

theorem subset_dropVictims (budget : Int) (victims : List Ref) (pack : ContextPack) (estimate : Int) (total : Nat)
    (s : PackSection) : (dropVictims budget victims pack estimate total).1.rows s ⊆ pack.rows s := by
  induction victims generalizing pack estimate total with
  | nil => exact List.Subset.refl _
  | cons victim rest ih =>
    unfold dropVictims
    split
    · exact List.Subset.refl _
    · intro mem hmem
      have hkept := ih _ _ _ hmem
      rw [ContextPack.rows_setRows] at hkept
      split at hkept
      · next hsame =>
        rw [hsame]
        exact List.mem_of_mem_filter hkept
      · exact hkept

theorem tenantID_shownMemory (mem : Memory) : (shownMemory mem).tenantID = mem.tenantID := by
  unfold shownMemory
  split <;> rfl

/-- Trimming a pack brings in no memory of another tenant. -/
theorem tenantID_trimmedPack {sorting : SliceSort} {q : Query} {candidates : List Candidate} {trace : Trace}
    (h : ∀ c ∈ candidates, c.memory.tenantID = tenant) {mem : Memory}
    (hmem : mem ∈ (trimmedPack sorting q candidates trace).memories) : mem.tenantID = tenant := by
  have hpacked : ∀ s, ∀ m ∈ (packOf candidates trace).rows s, m.tenantID = tenant := by
    intro s m hm
    rw [rows_packOf] at hm
    obtain ⟨c, hc, rfl⟩ := List.mem_map.mp (List.mem_of_mem_filter hm)
    exact h c hc
  obtain ⟨s, hrow⟩ := ContextPack.mem_memories.mp hmem
  unfold trimmedPack enforceBudget at hrow
  split at hrow
  · split at hrow
    · exact hpacked s mem hrow
    · change mem ∈ (compressSections PackSection.all _ _).1.rows s at hrow
      rw [(compressSections_spec PackSection.all (by decide) _ _).1, if_pos (by cases s <;> simp [PackSection.all])]
        at hrow
      obtain ⟨m, hm, rfl⟩ := List.mem_map.mp hrow
      rw [tenantID_shownMemory]
      exact hpacked s m (subset_dropVictims _ _ _ _ _ s hm)
  · exact hpacked s mem hrow

theorem returns_pack (q : Query) (hne : q.tenantID ≠ "") (sorting : SliceSort) (json : ArtifactJSON) :
    Returns d (fun answer : ContextPack × Trace => ∀ mem ∈ answer.1.memories, mem.tenantID = q.tenantID)
      (do
        let (candidates, trace) ← retrieve d q
        let pack ← packAnswer sorting (some json) d q candidates trace
        pure (pack, trace)) := by
  intro w
  refine (wp_iff_exec _ _).mpr ?_
  rintro o w' h answer rfl
  obtain ⟨⟨candidates, trace⟩, w₁, hretrieve, h⟩ := h.of_bind
  obtain ⟨pack, w₂, hpack, h⟩ := h.of_bind
  cases h
  have hown := hretrieve.post (returns_retrieve q hne w) (candidates, trace) rfl
  intro mem hmem
  obtain hsame | ⟨control, hsame⟩ := packAnswer_cases hpack
  · rw [hsame] at hmem
    exact tenantID_trimmedPack hown hmem
  · rw [hsame, memories_attachControl] at hmem
    exact tenantID_trimmedPack hown hmem

/-! ## The handlers -/

theorem owns_of_forall {reply : Reply} {tenants : List String} (hbody : reply.body.tenants = tenants)
    (h : ∀ t ∈ tenants, t = tenant) : Owns tenant reply := by
  intro t ht
  rw [hbody] at ht
  exact h t ht

/-- A service that returns what is written as its tenants' records. -/
theorem returns_owned {α : Type} {p : Go α} {good : α → Prop} {write : α → Reply}
    (h : Returns d good p) (hwrite : ∀ a, good a → Owns tenant (write a)) : Returns d (fun a => Owns tenant (write a)) p := by
  intro w
  refine wp_mono ?_ _ _ (h w)
  intro o w' hgood a ha
  exact hwrite a (hgood a ha)

theorem owns_map {α : Type} {xs : List α} {f : α → String} (h : ∀ x ∈ xs, f x = tenant) :
    ∀ t ∈ xs.map f, t = tenant := by
  intro t ht
  obtain ⟨x, hx, rfl⟩ := List.mem_map.mp ht
  exact h x hx

variable {state : ServerState}

theorem wp_handleEvents (hne : tenant ≠ "") :
    wp (step srv.deployment) (Owned tenant) (handleEvents srv ⟨tenant, tenant⟩ r out) w := by
  refine wp_posted ?_
  intro req
  split
  · split
    · exact wp_refuse _
    · next resolved hresolved =>
      obtain rfl := tenantFor_bound hne hresolved
      split
      · rintro reply ⟨⟩
        exact owns_of_forall rfl fun t ht => List.mem_singleton.mp ht
      · exact wp_refuse _
  · refine wp_served hne (returns_owned (returns_ingest srv.drafts { req with tenantID := tenant } hne) ?_)
    rintro response ⟨hevent, hmemories⟩
    exact owns_of_forall rfl (List.forall_mem_cons.mpr ⟨hevent, owns_map hmemories⟩)

theorem wp_handleMemorySearch (hne : tenant ≠ "") :
    wp (step srv.deployment) (Owned tenant) (handleMemorySearch srv ⟨tenant, tenant⟩ r) w := by
  refine wp_posted fun q => wp_served hne ?_
  refine returns_owned (returns_retrieve { q with tenantID := tenant } hne) ?_
  exact fun answer hanswer => owns_of_forall rfl (owns_map hanswer)

theorem wp_handleMemoryList (hne : tenant ≠ "") :
    wp (step srv.deployment) (Owned tenant) (handleMemoryList srv ⟨tenant, tenant⟩ r) w := by
  refine wp_onMethod (wp_served hne (returns_owned (returns_list _ hne) ?_))
  exact fun mems hmems => owns_of_forall rfl (owns_map hmems)

theorem wp_handleMemoryRedact (hne : tenant ≠ "") (id : String) :
    wp (step srv.deployment) (Owned tenant) (handleMemoryRedact srv ⟨tenant, tenant⟩ r id) w := by
  refine wp_onMethod ?_
  split
  · exact wp_refuse _
  · refine wp_served hne (returns_owned (returns_redact _ _ _) ?_)
    exact fun receipt hreceipt => owns_of_forall rfl fun t ht => (List.mem_singleton.mp ht).trans hreceipt

theorem wp_handleMemoryByID (hne : tenant ≠ "") :
    wp (step srv.deployment) (Owned tenant) (handleMemoryByID srv ⟨tenant, tenant⟩ r) w := by
  unfold handleMemoryByID
  simp only
  split
  · exact wp_handleMemoryRedact hne _
  split
  · exact wp_refuse _
  split
  · refine wp_served hne (returns_owned (returns_get _) ?_)
    exact fun mem hmem => owns_of_forall rfl fun t ht => (List.mem_singleton.mp ht).trans hmem
  split
  · refine wp_served hne (returns_owned (returns_delete _) ?_)
    exact fun receipt hreceipt => owns_of_forall rfl fun t ht => (List.mem_singleton.mp ht).trans hreceipt
  split
  · exact wp_refuse _
  · exact wp_refuse _

theorem wp_handleContextAssemble (hne : tenant ≠ "") :
    wp (step srv.deployment) (Owned tenant) (handleContextAssemble srv ⟨tenant, tenant⟩ r) w := by
  refine wp_posted fun q => wp_served hne ?_
  refine returns_owned (returns_pack { q with tenantID := tenant } hne srv.sorting srv.artifacts) ?_
  exact fun answer hanswer => owns_of_forall rfl (owns_map hanswer)

theorem tenantID_of_getTrace {traces : TraceStore} {id : String} {trace : Trace}
    (h : getTrace traces tenant id = .ok trace) : trace.tenantID = tenant := by
  unfold getTrace at h
  split at h
  · cases h
  · split at h
    · cases h
    · next hsame =>
      cases h
      exact not_not.mp hsame

theorem wp_handleTraceByID (hne : tenant ≠ "") :
    wp (step srv.deployment) (Owned tenant) (handleTraceByID srv ⟨tenant, tenant⟩ r state) w := by
  refine wp_onMethod ?_
  split
  · exact wp_refuse _
  · refine wp_served hne fun w' => wp_ended.mpr ?_
    intro trace htrace
    exact owns_of_forall rfl fun t ht => (List.mem_singleton.mp ht).trans (tenantID_of_getTrace htrace)

theorem wp_handleArtifacts {α : Type} {collection : String} {tenantOf : String → Option String}
    {create get : String → String → Go α} {body : α → Body} (hne : tenant ≠ "")
    (hbody : ∀ artifact, (body artifact).tenants = []) :
    wp (step d) (Owned tenant) (handleArtifacts srv ⟨tenant, tenant⟩ r collection tenantOf create get body) w := by
  unfold handleArtifacts
  split
  · exact wp_posted fun explicit => wp_served hne (returns_bare hbody)
  · refine wp_onMethod ?_
    split
    · exact wp_refuse _
    · exact wp_served hne (returns_bare hbody)

theorem wp_handleAgenticSkills : wp (step d) (Owned tenant) (handleAgenticSkills r) w := by
  unfold handleAgenticSkills
  exact wp_onMethod (wp_bare rfl)

theorem wp_handleAgenticDecide (hne : tenant ≠ "") :
    wp (step d) (Owned tenant) (handleAgenticDecide srv ⟨tenant, tenant⟩ r) w := by
  unfold handleAgenticDecide
  exact wp_posted fun req => wp_served hne (returns_bare fun _ => rfl)

theorem wp_handleAgenticContext (hne : tenant ≠ "") :
    wp (step d) (Owned tenant) (handleAgenticContext srv ⟨tenant, tenant⟩ r) w := by
  unfold handleAgenticContext
  exact wp_posted fun req => wp_served hne (returns_bare fun _ => rfl)

theorem wp_handleAgenticSpecs (hne : tenant ≠ "") :
    wp (step d) (Owned tenant) (handleAgenticSpecs srv ⟨tenant, tenant⟩ r) w := by
  unfold handleAgenticSpecs
  exact wp_handleArtifacts hne fun _ => rfl

theorem wp_handleAgenticPlans (hne : tenant ≠ "") :
    wp (step d) (Owned tenant) (handleAgenticPlans srv ⟨tenant, tenant⟩ r) w := by
  unfold handleAgenticPlans
  exact wp_handleArtifacts hne fun _ => rfl

/-- A choice that is made by its first condition or by the others. -/
theorem eq_or_of_ite {α : Type} {c : Prop} [Decidable c] {a b : α} {other : Option α}
    (h : (if c then some a else other) = some b) : c ∧ a = b ∨ other = some b := by
  split at h
  · next hc => exact Or.inl ⟨hc, Option.some.inj h⟩
  · exact Or.inr h

/-- Every handler keeps to the tenant of the key, where the export does. -/
theorem wp_handler (hne : tenant ≠ "") {next : RequestContext → Go Reply} (h : handler srv r state out = some next)
    (hexport : r.path = "/v1/evals/export" → wp (step srv.deployment) (Owned tenant) (handleEvalsExport r state) w) :
    wp (step srv.deployment) (Owned tenant) (next ⟨tenant, tenant⟩) w := by
  unfold handler at h
  obtain ⟨-, rfl⟩ | h := eq_or_of_ite h
  · exact wp_handleEvents hne
  obtain ⟨-, rfl⟩ | h := eq_or_of_ite h
  · exact wp_handleMemorySearch hne
  obtain ⟨-, rfl⟩ | h := eq_or_of_ite h
  · exact wp_handleMemoryList hne
  obtain ⟨-, rfl⟩ | h := eq_or_of_ite h
  · exact wp_handleMemoryByID hne
  obtain ⟨hpath, rfl⟩ | h := eq_or_of_ite h
  · exact hexport hpath
  obtain ⟨-, rfl⟩ | h := eq_or_of_ite h
  · exact wp_handleContextAssemble hne
  obtain ⟨-, rfl⟩ | h := eq_or_of_ite h
  · exact wp_handleTraceByID hne
  obtain ⟨-, rfl⟩ | h := eq_or_of_ite h
  · exact wp_handleAgenticSkills
  obtain ⟨-, rfl⟩ | h := eq_or_of_ite h
  · exact wp_handleAgenticDecide hne
  obtain ⟨-, rfl⟩ | h := eq_or_of_ite h
  · exact wp_handleAgenticContext hne
  obtain ⟨-, rfl⟩ | h := eq_or_of_ite h
  · exact wp_handleAgenticSpecs hne
  obtain ⟨-, rfl⟩ | h := eq_or_of_ite h
  · exact wp_handleAgenticPlans hne
  · cases h

/-! ## The export -/

/-- The export writes the rows of the whole buffer. -/
theorem wp_handleEvalsExport (h : ∀ recorder, state.recorder = some recorder → r.method = "GET" →
    ∀ rec ∈ recorder.records, rec.tenantID = tenant) :
    wp (step d) (Owned tenant) (handleEvalsExport r state) w := by
  unfold handleEvalsExport onMethod
  split
  · exact wp_refuse _
  · next recorder hrecorder =>
    split
    · exact wp_refuse _
    · next hmethod =>
      rintro reply ⟨⟩
      have hrows : ∀ row ∈ recorder.snapshot.map exportLine, row.tenantID = tenant := by
        intro row hrow
        obtain ⟨rec, hrec, rfl⟩ := List.mem_map.mp hrow
        exact h recorder hrecorder (not_not.mp hmethod) rec hrec
      exact owns_of_forall rfl (owns_map hrows)

/-- The middleware admits a bound request that names no other tenant. -/
theorem withMiddleware_admitted (hbound : BoundTo srv.config r tenant)
    (hheader : r.header "X-Tenant-ID" = "" ∨ r.header "X-Tenant-ID" = tenant) (hallowed : out.allows tenant = true)
    (next : RequestContext → Go Reply) : withMiddleware srv.config out r next = next ⟨tenant, tenant⟩ := by
  obtain ⟨hauth, hne⟩ := hbound
  have hresolved : resolveTenant srv.config tenant r = .ok ⟨tenant, tenant⟩ := by
    rw [resolveTenant_bound hne, if_pos hheader]
  have hkey : (if tenant = "" then r.remoteHost else tenant) = tenant := if_neg hne
  unfold withMiddleware
  rw [hauth]
  simp only [hresolved, hkey]
  exact if_pos hallowed

theorem handler_export (hpath : r.path = "/v1/evals/export") :
    handler srv r state out = some fun _ => handleEvalsExport r state := by
  have hbelow : below r "/v1/memories/" = false := by
    rw [below, hpath]
    decide +kernel
  have hevents : ¬ r.path = "/v1/events" := by
    rw [hpath]
    decide
  have hsearch : ¬ r.path = "/v1/memories/search" := by
    rw [hpath]
    decide
  have hmemories : ¬ r.path = "/v1/memories" := by
    rw [hpath]
    decide
  unfold handler
  rw [if_neg hevents, if_neg hsearch, if_neg hmemories, hbelow, if_neg Bool.false_ne_true, if_pos hpath]

/-- A bound request that reaches the export is answered with the whole buffer. -/
theorem exec_export (hbound : BoundTo srv.config r tenant) {recorder : Recorder} (hrecorder : state.recorder = some recorder)
    (h : ReachesExport out r tenant true) (w : World) :
    Exec (step d) (serve srv r state out) w
      (.ok (wrote 200 (.exported (recorder.snapshot.map exportLine)))) w := by
  have hhealth : ¬ r.path = "/healthz" := by
    rw [h.path]
    decide
  have hmetrics : ¬ r.path = "/metrics" := by
    rw [h.path]
    decide
  have hmethod : ¬ r.method ≠ "GET" := not_not.mpr h.method
  unfold serve
  rw [if_neg hhealth, if_neg hmetrics, handler_export h.path]
  simp only [withMiddleware_admitted hbound h.header h.allowed]
  rw [handleEvalsExport, hrecorder]
  simp only [onMethod, if_neg hmethod]
  exact .ret _ _

/-- Every response to a request with a bound key belongs to the tenant of the key exactly where
the request does not reach the export of a recorder that still holds a retrieval of another
tenant. -/
theorem response_isolated_iff (srv : Server) (out : Outside) (r : Request) (traces : TraceStore) (enabled : Bool)
    (max : Int) (history : List Record) (tenant : String) (hbound : BoundTo srv.config r tenant) :
    (∀ w reply w', Exec (step srv.deployment) (serve srv r ⟨recorderAfter enabled max history, traces⟩ out) w
      (.ok reply) w' → Owns tenant reply) ↔
      (ReachesExport out r tenant enabled → ∀ rec ∈ lastRecords max history, rec.tenantID = tenant) := by
  constructor
  · intro hisolated hreaches rec hrec
    obtain rfl := hreaches.recording
    have hrows := hisolated World.empty _ _ (exec_export hbound (recorderAfter_eq max history) hreaches World.empty)
    refine hrows rec.tenantID ?_
    change rec.tenantID ∈ ((lastRecords max history).map exportLine).map ExportLine.tenantID
    rw [List.map_map]
    exact List.mem_map_of_mem hrec
  · intro hexport w reply w' hrun
    have hserved : wp (step srv.deployment) (Owned tenant)
        (serve srv r ⟨recorderAfter enabled max history, traces⟩ out) w := by
      unfold serve
      split
      · exact wp_onMethod (wp_bare rfl)
      split
      · exact wp_bare rfl
      split
      · exact wp_refuse _
      next next hnext =>
        refine wp_withMiddleware hbound fun hheader hallowed => wp_handler hbound.2 hnext fun hpath => ?_
        refine wp_handleEvalsExport fun recorder hrecorder hmethod => ?_
        cases enabled with
        | false => cases hrecorder
        | true =>
          obtain rfl := Option.some.inj ((recorderAfter_eq max history).symm.trans hrecorder)
          exact hexport ⟨hpath, hmethod, hheader, hallowed, rfl⟩
    exact hrun.post hserved reply rfl

/-! ## Two tenants -/

/-- A server with a key for tenant `t`. -/
def keyedServer : Server where
  config := ⟨"default", "k:t", false⟩
  base := .inProcess 5
  drafts := fun _ => []
  redactPII := fun text => (text, false)
  sorting := stableSort
  artifacts := ⟨fun _ => .error .unavailable, fun _ => .error .unavailable⟩
  requests := ⟨fun _ => none, fun _ => none, fun _ => none, fun _ => none, fun _ => none, fun _ => none⟩
  createSpec := fun _ _ => Prog.fail .unavailable
  createPlan := fun _ _ => Prog.fail .unavailable

/-- `GET /v1/evals/export` with that key. -/
def exportRequest : Request where
  method := "GET"
  path := "/v1/evals/export"
  header name := if name = "X-API-Key" then "k" else ""
  param _ := ""
  body := ""
  remoteHost := ""

/-- Neither the limiter nor the queue refuses. -/
def admitting : Outside := ⟨fun _ => true, true⟩

/-- A retrieval of a tenant. -/
def retrievalOf (tenant : String) : Record := ⟨"trace_1", "deploy", tenant, "u", [], [], [], 0, 5⟩

theorem exportRequest_bound : BoundTo keyedServer.config exportRequest "t" :=
  ⟨by decide +kernel, by decide⟩

theorem reaches_exportRequest : ReachesExport admitting exportRequest "t" true :=
  ⟨rfl, rfl, Or.inl rfl, rfl, rfl⟩

/-- The export to the key of `t` holds a retrieval of `other`. -/
theorem export_leaks : ¬ ∀ (srv : Server) (out : Outside) (r : Request) (state : ServerState) (tenant : String),
    BoundTo srv.config r tenant →
    ∀ w reply w', Exec (step srv.deployment) (serve srv r state out) w (.ok reply) w' → Owns tenant reply := by
  intro hall
  have hrecorder : (⟨some ⟨2, [retrievalOf "other"]⟩, Table.empty⟩ : ServerState).recorder =
      some ⟨2, [retrievalOf "other"]⟩ := rfl
  have hrun := exec_export (d := keyedServer.deployment) exportRequest_bound hrecorder reaches_exportRequest
    World.empty
  have howns := hall keyedServer admitting exportRequest _ "t" exportRequest_bound _ _ _ hrun
  have hother := howns "other" (List.mem_singleton.mpr rfl)
  exact absurd hother (by decide)

/-- With a retrieval of `t` alone the export is isolated. -/
theorem export_isolated : ∃ reply w',
    Exec (step keyedServer.deployment) (serve keyedServer exportRequest
      ⟨recorderAfter true 0 [retrievalOf "t"], Table.empty⟩ admitting) World.empty (.ok reply) w' ∧
    Owns "t" reply := by
  have hrecorder : (⟨recorderAfter true 0 [retrievalOf "t"], Table.empty⟩ : ServerState).recorder =
      some ⟨10000, [retrievalOf "t"]⟩ := rfl
  have hrun := exec_export (d := keyedServer.deployment) exportRequest_bound hrecorder reaches_exportRequest
    World.empty
  refine ⟨_, _, hrun, ?_⟩
  exact (response_isolated_iff keyedServer admitting exportRequest Table.empty true 0 [retrievalOf "t"] "t"
    exportRequest_bound).mpr (fun _ => by decide) _ _ _ hrun

end AgentMemory.Http
