import AgentMemory.Retrieval.Control
import AgentMemory.Lib.Pages
import AgentMemory.Consolidation.Compaction
import AgentMemory.Consolidation.Contradiction

/-!
# The order of the results

The in-memory stores and `Retrieve` itself range over maps, and `SortCandidates` orders by score and update
time only. `ranking_iff` says which queries have one list of results whatever the order of the maps: those
where no two results tie that the limit has room for. The vector search cuts its own results at three times
the limit, and a tie at that cut must not involve a memory that can be found.
-/

namespace AgentMemory

open Tables Calls Pages

/-- The same deployment with the memories in process. -/
def Deployment.inMemory (d : Deployment) : Deployment := { d with backend := .memory }

/-- The calls at one instant with the in-memory stores, a fixed embedder and a reranker that keeps the order. -/
def iterating (d : Deployment) (now : Time) (embed : String → List ℚ) : Step Call Resp Err World := fun c w r w' =>
  step (d.inMemory.steady now) c w r w' ∧ KeepsOrder c r ∧ match c, r with
    | .embed text, .ok vec => vec = embed text
    | _, _ => True

/-- Any two runs return the same ids in the same order. -/
def RanksAlike (d : Deployment) (now : Time) (embed : String → List ℚ) (query : Query) (w : World) : Prop :=
  ∀ out out' : List Candidate × Trace, ∀ w₁ w₂,
    Exec (iterating d now embed) (retrieve (d.inMemory.steady now) query) w (.ok out) w₁ →
    Exec (iterating d now embed) (retrieve (d.inMemory.steady now) query) w (.ok out') w₂ →
    out.1.map (·.memory.id) = out'.1.map (·.memory.id)

section Pool

variable (d : Deployment) (now : Time) (embed : String → List ℚ) (w : World) (query : Query)

/-- What the vector store matches, with the scores. -/
def vectorResults (q : VectorQuery) : List VectorResult :=
  (w.vectors.rows.filter (vectorMatches q)).map fun item => ⟨item.id, d.cosine q.vector item.vector⟩

/-- The order of the results of a vector search. -/
def Nearer (a b : VectorResult) : Prop := b.score ≤ a.score

instance : DecidableRel Nearer := fun a b => inferInstanceAs (Decidable (b.score ≤ a.score))

/-- The answers of stores that range over their maps in the order of insertion. -/
def inserted : Providers where
  now := now
  embed := embed
  search q := topResults q.limit (vectorResults d w q)

/-- The query that is searched with. -/
def searchedQuery : Query := pinnedQuery (inserted d now embed w) query

/-- What is found for it. -/
def foundFor : Found where
  texts := w.memories.rows.filter (textMatches d.lower (searchedQuery d now embed w query))
  nearest := (inserted d now embed w).search (vectorQuery (inserted d now embed w) (searchedQuery d now embed w query))

/-- The memories that are ranked, with their final scores. -/
def pool : List (Memory × ℚ) :=
  let q := searchedQuery d now embed w query
  (w.memories.rows.filter fun mem => mem.isActive q.now && gated d q mem).filterMap fun mem =>
    (scores d w q (foundFor d now embed w query) mem).max?.map fun s => (mem, s + recencyBoost mem q.now)

/-- The order of `SortCandidates`. -/
def StandsBefore (a b : Memory × ℚ) : Prop := b.2 < a.2 ∨ a.2 = b.2 ∧ b.1.updatedAt ≤ a.1.updatedAt

instance : DecidableRel StandsBefore := fun a b =>
  inferInstanceAs (Decidable (b.2 < a.2 ∨ a.2 = b.2 ∧ b.1.updatedAt ≤ a.1.updatedAt))

/-- The cut of the vector search leaves no memory open that can be found. -/
def NearestSettled : Prop :=
  let q := searchedQuery d now embed w query
  let vq := vectorQuery (inserted d now embed w) q
  q.text ≠ "" → ∀ mem ∈ w.memories.rows, mem.isActive q.now = true → mem.tenantID = q.tenantID →
    ∀ result ∈ vectorResults d w vq, result.id = mem.id →
      ¬ Contested Nearer (q.normalizedLimit * 3) (vectorResults d w vq) result

end Pool

variable {d : Deployment} {now : Time} {embed : String → List ℚ} {w : World} {query : Query}

/-! ## The vector search -/

instance : IsTrans VectorResult Nearer := ⟨fun _ _ _ hab hbc => le_trans hbc hab⟩

instance : Std.Total Nearer := ⟨fun a b => le_total b.score a.score⟩

instance : IsTrans (Memory × ℚ) StandsBefore := ⟨by
  rintro a b c (hab | ⟨hab, hab'⟩) (hbc | ⟨hbc, hbc'⟩)
  · exact Or.inl (hbc.trans hab)
  · exact Or.inl (hbc ▸ hab)
  · exact Or.inl (hab ▸ hbc)
  · exact Or.inr ⟨hab.trans hbc, hbc'.trans hab'⟩⟩

instance : Std.Total StandsBefore := ⟨fun a b => by
  rcases lt_trichotomy a.2 b.2 with h | h | h
  · exact Or.inr (Or.inl h)
  · rcases le_total a.1.updatedAt b.1.updatedAt with hle | hle
    · exact Or.inr (Or.inr ⟨h.symm, hle⟩)
    · exact Or.inl (Or.inr ⟨h, hle⟩)
  · exact Or.inl (Or.inl h)⟩

/-- A vector search with a limit returns a page of what matches. -/
theorem page_topResults {limit : Nat} (hlimit : 0 < limit) {items results : List VectorResult}
    (hperm : items.Perm results) : Page Nearer limit results (topResults limit items) := by
  refine ⟨items.mergeSort fun a b => decide (b.score ≤ a.score), (List.mergeSort_perm _ _).trans hperm, ?_, ?_⟩
  · have htrans : ∀ a b c, Nearer a b → Nearer b c → Nearer a c := fun _ _ _ hab hbc => le_trans hbc hab
    exact Sorted.pairwise_mergeSort htrans Std.Total.total items
  · unfold topResults
    rw [if_pos (by omega)]
    rfl

theorem nodup_vectorResults (q : VectorQuery) : (vectorResults d w q).Nodup := by
  have hids : ((vectorResults d w q).map VectorResult.id).Nodup := by
    rw [vectorResults, List.map_map]
    exact w.vectors.nodup.sublist (List.filter_sublist.map _)
  exact hids.of_map _

theorem normalizedLimit_pos (q : Query) : 0 < q.normalizedLimit := by
  unfold Query.normalizedLimit
  split_ifs <;> omega

variable {q : Query} {f f' : Found} {candidates : Candidates} {order : List String}

theorem texts_of_iterating {texts : List Memory} (hs : iterating d now embed (.searchByText q) w (.ok texts) w) :
    texts.Perm (w.memories.rows.filter (textMatches d.lower q)) := by
  obtain ⟨texts', heq, hsearch, -⟩ | ⟨e, heq, -⟩ := step_cases hs.1
  · cases heq
    exact hsearch
  · cases heq

theorem nearest_of_iterating {nearest : List VectorResult} (h : AnsweredNearest (iterating d now embed) w q nearest)
    (htext : q.text ≠ "") : Page Nearer (q.normalizedLimit * 3)
      (vectorResults d w (vectorQuery (inserted d now embed w) q)) nearest := by
  obtain ⟨vec, ⟨-, -, hvec⟩, hs, -⟩ := h htext
  obtain rfl : vec = embed q.text := hvec
  obtain ⟨nearest', heq, ⟨items, hperm, hresults⟩, -⟩ | ⟨e, heq, -⟩ := step_cases hs
  · cases heq
    rw [hresults]
    have hlimit : 0 < q.normalizedLimit * 3 := Nat.mul_pos (normalizedLimit_pos q) (by decide)
    exact_mod_cast page_topResults hlimit (hperm.map _)
  · cases heq

/-! ## The ranked memories -/

/-- The scores depend only on which texts and which results have been found. -/
theorem mem_scores_congr (htexts : ∀ mem, mem ∈ f.texts ↔ mem ∈ f'.texts)
    (hnearest : q.text ≠ "" → ∀ mem ∈ w.memories.rows, mem.isActive q.now = true → mem.tenantID = q.tenantID →
      ∀ result : VectorResult, result.id = mem.id → (result ∈ f.nearest ↔ result ∈ f'.nearest))
    {mem : Memory} (hrow : mem ∈ w.memories.rows) (hactive : mem.isActive q.now = true) (s : ℚ) :
    s ∈ scores d w q f mem ↔ s ∈ scores d w q f' mem := by
  have hseed : ∀ mem ∈ w.memories.rows, mem.isActive q.now = true → ∀ s,
      s ∈ seedScores d w q f mem ↔ s ∈ seedScores d w q f' mem := by
    intro mem hrow hactive s
    have hvector : s ∈ vectorScores q f mem ↔ s ∈ vectorScores q f' mem := by
      unfold vectorScores
      split
      · next htext =>
        simp only [mem_channelScores]
        refine and_congr_right fun htenant => ?_
        constructor
        · rintro ⟨_, hpair, hid, hs⟩
          obtain ⟨result, hresult, rfl⟩ := List.mem_map.mp hpair
          exact ⟨_, List.mem_map_of_mem ((hnearest htext mem hrow hactive htenant result hid).mp hresult), hid, hs⟩
        · rintro ⟨_, hpair, hid, hs⟩
          obtain ⟨result, hresult, rfl⟩ := List.mem_map.mp hpair
          exact ⟨_, List.mem_map_of_mem ((hnearest htext mem hrow hactive htenant result hid).mpr hresult), hid, hs⟩
      · exact Iff.rfl
    simp only [seedScores, textScores, htexts, List.mem_append, hvector]
  have hseeds : seedIDs d w q f = seedIDs d w q f' := by
    unfold seedIDs
    refine congrArg (List.map Memory.id) (List.filter_congr fun mem hrow => ?_)
    cases hactive : mem.isActive q.now with
    | false => rfl
    | true =>
      have hempty : (seedScores d w q f mem).isEmpty = (seedScores d w q f' mem).isEmpty := by
        rw [Bool.eq_iff_iff, List.isEmpty_iff, List.isEmpty_iff, List.eq_nil_iff_forall_not_mem,
          List.eq_nil_iff_forall_not_mem]
        exact forall_congr' fun s => not_congr (hseed mem hrow hactive s)
      rw [hempty]
  simp only [scores, graphScores, hseeds, List.mem_append, hseed mem hrow hactive s]

/-- A ranked candidate. -/
def entry (c : Candidate) : Memory × ℚ := (c.memory, c.score)

theorem mem_pool {e : Memory × ℚ} : e ∈ pool d now embed w query ↔
    (e.1 ∈ w.memories.rows ∧ e.1.isActive (searchedQuery d now embed w query).now = true) ∧
      gated d (searchedQuery d now embed w query) e.1 = true ∧
      ∃ s, IsGreatest {s | s ∈ scores d w (searchedQuery d now embed w query) (foundFor d now embed w query) e.1} s ∧
        e.2 = s + recencyBoost e.1 (searchedQuery d now embed w query).now := by
  have hmax : ∀ mem s, (scores d w (searchedQuery d now embed w query) (foundFor d now embed w query) mem).max? = some s ↔
      IsGreatest {s | s ∈ scores d w (searchedQuery d now embed w query) (foundFor d now embed w query) mem} s :=
    fun mem s => List.max?_eq_some_iff
  unfold pool
  simp only [List.mem_filterMap, List.mem_filter, Bool.and_eq_true, Option.map_eq_some_iff, hmax]
  constructor
  · rintro ⟨mem, ⟨hrow, hactive, hgated⟩, s, hs, rfl⟩
    exact ⟨⟨hrow, hactive⟩, hgated, s, hs, rfl⟩
  · rintro ⟨⟨hrow, hactive⟩, hgated, s, hs, heq⟩
    exact ⟨e.1, ⟨hrow, hactive, hgated⟩, s, hs, Prod.ext rfl heq.symm⟩

theorem nodup_pool : (pool d now embed w query).Nodup := by
  have hsublist : ∀ (mems : List Memory) (best : Memory → Option ℚ) (boost : Memory → ℚ),
      ((mems.filterMap fun mem => (best mem).map fun s => (mem, s + boost mem)).map Prod.fst).Sublist mems := by
    intro mems best boost
    induction mems with
    | nil => exact List.Sublist.refl []
    | cons mem rest ih =>
      cases hbest : best mem with
      | none =>
        rw [List.filterMap_cons_none (by rw [hbest]; rfl)]
        exact ih.cons mem
      | some s =>
        rw [List.filterMap_cons_some (by rw [hbest]; rfl)]
        exact ih.cons_cons mem
  exact ((w.memories.rows_nodup.filter _).sublist (hsublist _ _ _)).of_map Prod.fst

theorem rankedBefore_iff {c c' : Candidate} : rankedBefore c c' = true ↔ StandsBefore (entry c) (entry c') := by
  unfold rankedBefore StandsBefore entry
  split
  · next heq => simp [heq]
  · next hne => simp [hne]

theorem pairwise_mergeSort_ranked (cs : List Candidate) :
    ((cs.mergeSort rankedBefore).map entry).Pairwise StandsBefore := by
  have htrans : ∀ a b c : Candidate, rankedBefore a b = true → rankedBefore b c = true → rankedBefore a c = true := by
    intro a b c hab hbc
    rw [rankedBefore_iff] at hab hbc ⊢
    exact IsTrans.trans _ _ _ hab hbc
  have htotal : ∀ a b : Candidate, (rankedBefore a b || rankedBefore b a) = true := by
    intro a b
    rw [Bool.or_eq_true, rankedBefore_iff, rankedBefore_iff]
    exact Std.Total.total _ _
  exact List.pairwise_map.mpr ((List.pairwise_mergeSort htrans htotal cs).imp rankedBefore_iff.mp)

/-- A candidate as it is ranked. -/
def boosted (q : Query) (c : Candidate) : Candidate := { c with score := c.score + recencyBoost c.memory q.now }

theorem mem_entries {e : Memory × ℚ}
    (hc : Collected w (searchedQuery d now embed w query) candidates
      (scores d w (searchedQuery d now embed w query) (foundFor d now embed w query))) :
    e ∈ (candidates.rows.filter (passesGates d (searchedQuery d now embed w query))).map
        (entry ∘ boosted (searchedQuery d now embed w query)) ↔ e ∈ pool d now embed w query := by
  rw [mem_pool, List.mem_map]
  constructor
  · rintro ⟨c, hmem, rfl⟩
    obtain ⟨hmem, hgates⟩ := List.mem_filter.mp hmem
    exact ⟨hc.live c hmem, hgates, c.score, hc.best c hmem, rfl⟩
  · rintro ⟨⟨hrow, hactive⟩, hgated, s, hs, heq⟩
    obtain ⟨c, hmem, hmemory⟩ := hc.found e.1 hrow hactive s hs.1
    have hscore : c.score = s := by
      have hbest := hc.best c hmem
      rw [hmemory] at hbest
      exact hbest.unique hs
    refine ⟨c, List.mem_filter.mpr ⟨hmem, ?_⟩, ?_⟩
    · rw [← hmemory] at hgated
      exact hgated
    · refine Prod.ext hmemory ?_
      show c.score + recencyBoost c.memory _ = e.2
      rw [heq, hscore, hmemory]

/-- What is gathered, gated and boosted is the pool. -/
theorem entries_perm
    (hc : Collected w (searchedQuery d now embed w query) candidates
      (scores d w (searchedQuery d now embed w query) (foundFor d now embed w query))) :
    ((candidates.rows.filter (passesGates d (searchedQuery d now embed w query))).map
        (entry ∘ boosted (searchedQuery d now embed w query))).Perm (pool d now embed w query) := by
  refine (List.perm_ext_iff_of_nodup ?_ nodup_pool).mpr fun e => mem_entries hc
  have hids : ((candidates.rows.filter (passesGates d (searchedQuery d now embed w query))).map
      fun c => c.memory.id).Nodup := candidates.nodup.sublist (List.filter_sublist.map _)
  have hmap : ((candidates.rows.filter (passesGates d (searchedQuery d now embed w query))).map
      (entry ∘ boosted (searchedQuery d now embed w query))).map (fun e => e.1.id) =
      (candidates.rows.filter (passesGates d (searchedQuery d now embed w query))).map fun c => c.memory.id :=
    List.map_map
  exact (hmap ▸ hids).of_map _

/-- In whatever order the map is ranged over, its candidates are what is found under their ids. -/
theorem filterMap_find? {cs : List Candidate} (hcs : ∀ c ∈ cs, c ∈ candidates.rows) :
    (cs.map fun c => c.memory.id).filterMap candidates.find? = cs := by
  induction cs with
  | nil => rfl
  | cons c rest ih =>
    obtain ⟨hc, hrest⟩ := List.forall_mem_cons.mp hcs
    rw [List.map_cons, List.filterMap_cons_some (Table.find?_of_mem hc), ih hrest]

/-- Any order of the map ranks the pool. -/
theorem page_rank
    (hc : Collected w (searchedQuery d now embed w query) candidates
      (scores d w (searchedQuery d now embed w query) (foundFor d now embed w query)))
    (horder : order.Perm (candidates.rows.map fun c => c.memory.id)) (limit : Nat) :
    Page StandsBefore limit (pool d now embed w query)
      (((rank d (searchedQuery d now embed w query) candidates order).take limit).map entry) := by
  refine ⟨_, ?_, pairwise_mergeSort_ranked _, List.map_take⟩
  refine ((List.mergeSort_perm _ _).map entry).trans ?_
  rw [List.map_map]
  refine List.Perm.trans ?_ (entries_perm hc)
  refine List.Perm.map _ (List.Perm.filter _ ?_)
  have hrows : (candidates.rows.map fun c => c.memory.id).filterMap candidates.find? = candidates.rows :=
    filterMap_find? fun _ hmem => hmem
  calc order.filterMap candidates.find? |>.Perm ((candidates.rows.map fun c => c.memory.id).filterMap candidates.find?) :=
        horder.filterMap _
    _ = candidates.rows := hrows

/-- Each arrangement of the pool that the sort admits is ranked for some order of the map. -/
theorem exists_rank {ordered : List (Memory × ℚ)}
    (hc : Collected w (searchedQuery d now embed w query) candidates
      (scores d w (searchedQuery d now embed w query) (foundFor d now embed w query)))
    (hperm : ordered.Perm (pool d now embed w query)) (hsorted : ordered.Pairwise StandsBefore) :
    ∃ order : List String, order.Perm (candidates.rows.map fun c => c.memory.id) ∧
      (rank d (searchedQuery d now embed w query) candidates order).map entry = ordered := by
  have hlift : ∃ front : List Candidate, ordered = front.map (entry ∘ boosted (searchedQuery d now embed w query)) ∧
      front.Perm (candidates.rows.filter (passesGates d (searchedQuery d now embed w query))) := by
    have hcomp := congrFun₂ (List.eq_map_comp_perm (entry ∘ boosted (searchedQuery d now embed w query))) ordered
      (candidates.rows.filter (passesGates d (searchedQuery d now embed w query)))
    exact hcomp.mpr (hperm.trans (entries_perm hc).symm)
  obtain ⟨front, rfl, hfront⟩ := hlift
  -- the candidates that the gates stop may come last
  let stopped := candidates.rows.filter fun c => !passesGates d (searchedQuery d now embed w query) c
  have hrows : (front ++ stopped).Perm candidates.rows :=
    (hfront.append_right stopped).trans (List.filter_append_perm _ _)
  have hfind : ((front ++ stopped).map fun c => c.memory.id).filterMap candidates.find? = front ++ stopped :=
    filterMap_find? fun c hmem => hrows.mem_iff.mp hmem
  have hpass : (front ++ stopped).filter (passesGates d (searchedQuery d now embed w query)) = front := by
    rw [List.filter_append, List.filter_eq_self.mpr, List.filter_eq_nil_iff.mpr, List.append_nil]
    · intro c hmem
      simpa using (List.mem_filter.mp hmem).2
    · exact fun c hmem => (List.mem_filter.mp (hfront.mem_iff.mp hmem)).2
  refine ⟨(front ++ stopped).map fun c => c.memory.id, hrows.map _, ?_⟩
  have hranked : (front.map (boosted (searchedQuery d now embed w query))).Pairwise
      fun c c' => rankedBefore c c' = true := by
    rw [← List.map_map, List.pairwise_map] at hsorted
    exact hsorted.imp rankedBefore_iff.mpr
  unfold rank
  rw [hfind, hpass, ← List.map_map]
  exact congrArg (List.map entry) (List.mergeSort_of_pairwise hranked)

/-! ## Runs -/

variable {st : Step Call Resp Err World}

theorem wp_queryNow_iterating (hst : ∀ c w r w', st c w r w' → iterating d now embed c w r w') :
    wp st (fun o w' => w' = w ∧ ∀ instant, o = .ok instant → instant = if query.now = 0 then now else query.now)
      (queryNow query) w := by
  unfold queryNow
  split
  · refine wp_perform.mpr ?_
    intro r w' hs
    obtain ⟨instant, rfl, hclock, rfl⟩ | ⟨e, rfl, rfl⟩ := step_cases (hst _ _ _ _ hs).1
    · refine ⟨rfl, ?_⟩
      rintro _ ⟨⟩
      exact hclock
    · exact ⟨rfl, nofun⟩
  · refine ⟨rfl, ?_⟩
    rintro _ ⟨⟩
    rfl

theorem wp_rerank_order (hst : ∀ c w r w', st c w r w' → iterating d now embed c w r w') {ranked : List Candidate}
    {w' : World} : wp st (fun o _ => ∀ out, o = .ok out → out.map Candidate.memory = ranked.map Candidate.memory)
      (rerank q ranked) w' := by
  unfold rerank
  rw [wp_bind, wp_attempt]
  rintro (e | out) w'' hs
  · rintro _ ⟨⟩
    rw [List.map_map]
    rfl
  · rintro _ ⟨⟩
    exact (hst _ _ _ _ hs).2.1

/-- Where all that can be found gives the same scores, every run returns a page of the pool. -/
theorem wp_retrieve_page (hst : ∀ c w r w', st c w r w' → iterating d now embed c w r w')
    (hscores : ∀ f : Found, st (.searchByText (searchedQuery d now embed w query)) w (.ok f.texts) w →
      AnsweredNearest st w (searchedQuery d now embed w query) f.nearest → ∀ mem ∈ w.memories.rows,
        mem.isActive (searchedQuery d now embed w query).now = true → ∀ s,
          s ∈ scores d w (searchedQuery d now embed w query) f mem ↔
            s ∈ scores d w (searchedQuery d now embed w query) (foundFor d now embed w query) mem) :
    wp st (fun o _ => ∀ out, o = .ok out → ∃ page,
        Page StandsBefore (searchedQuery d now embed w query).normalizedLimit (pool d now embed w query) page ∧
          out.1.map (·.memory.id) = page.map (·.1.id))
      (retrieve (d.inMemory.steady now) query) w := by
  unfold retrieve
  rw [wp_bind]
  refine wp_mono ?_ _ _ (wp_queryNow_iterating hst)
  rintro (e | instant) w₁ ⟨rfl, hinstant⟩
  · exact nofun
  obtain rfl := hinstant instant rfl
  simp only [bindPost]
  change wp _ _ (gather (plan (searchedQuery d now embed w₁ query) d.hasGraph d.hasKeywords)
    (searchedQuery d now embed w₁ query) (searchedQuery d now embed w₁ query).normalizedLimit >>= _) _
  rw [wp_bind]
  have hgather := @wp_gather_collected (d.inMemory.steady now) w₁ (searchedQuery d now embed w₁ query) st
    (fun c w r w' hs => (hst c w r w' hs).1) id
  refine wp_mono ?_ _ _ hgather
  rintro (e | candidates) w₂ ⟨f, hsearch, hnearest, hleaves⟩
  · exact nofun
  obtain ⟨rfl, hcollected⟩ := hleaves
  have hc := hcollected.congr (hscores f hsearch hnearest)
  simp only [bindPost]
  rw [wp_perform_bind]
  rintro (e | order) w₃ hs
  · exact nofun
  have horder : order.Perm (candidates.rows.map fun c => c.memory.id) := by
    obtain ⟨_, ⟨⟩, hperm, -⟩ | ⟨_, ⟨⟩, -⟩ := step_cases (hst _ _ _ _ hs).1
    exact hperm
  simp only
  rw [wp_bind]
  refine wp_mono ?_ _ _ (wp_rerank_order hst)
  rintro (e | reranked) w₄ hreranked
  · exact nofun
  refine wp_mono ?_ _ _ (wp_step_mono (fun c w r w' hs => (hst c w r w' hs).1) _ _ wp_traced)
  intro o w₅ hout out ho
  refine ⟨_, page_rank hc horder _, ?_⟩
  rw [hout out ho, List.map_map]
  have hmemories := congrArg (fun mems => (mems.take (searchedQuery d now embed w₂ query).normalizedLimit).map Memory.id)
    (hreranked reranked rfl)
  simp only [← List.map_take, List.map_map] at hmemories
  exact hmemories

/-- The run of stores that range over their maps in the order of insertion. -/
def insertionOrder (d : Deployment) (now : Time) (embed : String → List ℚ) (w₀ : World) : Step Call Resp Err World :=
  fun c w r w' => iterating d now embed c w r w' ∧ (inserted d now embed w₀).Pins c r

theorem grants_insertionOrder :
    Grants (insertionOrder d now embed w) (d.inMemory.steady now) (inserted d now embed w) := by
  refine ⟨fun c w' a w'' h hpin horder => ⟨⟨step_answer h, horder, ?_⟩, hpin⟩, fun w' tenantID id hnone => ?_⟩
  · cases c with
    | embed text => exact hpin
    | _ => trivial
  · exact ⟨⟨Or.inr ⟨.notFound, rfl, rfl, Or.inl ⟨hnone, rfl⟩⟩, trivial, trivial⟩, trivial⟩

theorem provides_inserted : Provides (d.inMemory.steady now) (inserted d now embed w) w where
  clock := rfl
  texts _ := ⟨_, List.Perm.refl _⟩
  vectors q := ⟨⟨w.vectors.rows.filter (vectorMatches q), List.Perm.refl _, rfl⟩, rfl⟩
  id := exists_fresh w

/-- In the order of insertion all that is found is what the pool is made of. -/
theorem mem_scores_insertionOrder
    (hsearch : insertionOrder d now embed w (.searchByText (searchedQuery d now embed w query)) w (.ok f.texts) w)
    (hnearest : AnsweredNearest (insertionOrder d now embed w) w (searchedQuery d now embed w query) f.nearest)
    {mem : Memory} (hrow : mem ∈ w.memories.rows)
    (hactive : mem.isActive (searchedQuery d now embed w query).now = true) (s : ℚ) :
    s ∈ scores d w (searchedQuery d now embed w query) f mem ↔
      s ∈ scores d w (searchedQuery d now embed w query) (foundFor d now embed w query) mem := by
  refine mem_scores_congr (fun mem => (texts_of_iterating hsearch.1).mem_iff) ?_ hrow hactive s
  intro htext mem _ _ _ result _
  obtain ⟨vec, ⟨-, hvec⟩, -, hresults⟩ := hnearest htext
  obtain rfl : vec = embed (searchedQuery d now embed w query).text := hvec
  have hsame : f.nearest = (foundFor d now embed w query).nearest := hresults
  rw [hsame]

/-- Where the cut of the vector search is settled, all that is found gives the scores of the pool. -/
theorem mem_scores_settled (hsettled : NearestSettled d now embed w query)
    (hsearch : iterating d now embed (.searchByText (searchedQuery d now embed w query)) w (.ok f.texts) w)
    (hnearest : AnsweredNearest (iterating d now embed) w (searchedQuery d now embed w query) f.nearest)
    {mem : Memory} (hrow : mem ∈ w.memories.rows)
    (hactive : mem.isActive (searchedQuery d now embed w query).now = true) (s : ℚ) :
    s ∈ scores d w (searchedQuery d now embed w query) f mem ↔
      s ∈ scores d w (searchedQuery d now embed w query) (foundFor d now embed w query) mem := by
  refine mem_scores_congr (fun mem => (texts_of_iterating hsearch).mem_iff) ?_ hrow hactive s
  intro htext mem hrow hactive htenant result hid
  have hpage := nearest_of_iterating hnearest htext
  have hlimit : 0 < (searchedQuery d now embed w query).normalizedLimit * 3 :=
    Nat.mul_pos (normalizedLimit_pos _) (by decide)
  have hpage' : Page Nearer ((searchedQuery d now embed w query).normalizedLimit * 3)
      (vectorResults d w (vectorQuery (inserted d now embed w) (searchedQuery d now embed w query)))
      (foundFor d now embed w query).nearest := by
    exact_mod_cast page_topResults hlimit (List.Perm.refl _)
  have hagree := hsettled htext mem hrow hactive htenant result
  constructor
  · intro hmem
    exact mem_page_of_not_contested (nodup_vectorResults _) (hagree (hpage.mem hmem) hid) hpage hpage' hmem
  · intro hmem
    exact mem_page_of_not_contested (nodup_vectorResults _) (hagree (hpage'.mem hmem) hid) hpage' hpage hmem

/-- Every page of the pool is returned by some run. -/
theorem exists_run {page : List (Memory × ℚ)}
    (h : Page StandsBefore (searchedQuery d now embed w query).normalizedLimit (pool d now embed w query) page) :
    ∃ out w', Exec (iterating d now embed) (retrieve (d.inMemory.steady now) query) w (.ok out) w' ∧
      out.1.map (·.memory.id) = page.map (·.1.id) := by
  obtain ⟨ordered, hperm, hsorted, rfl⟩ := h
  obtain ⟨id, hid⟩ := exists_fresh w
  obtain ⟨cs, hgather⟩ := @exists_gather (d.inMemory.steady now) (inserted d now embed w) w
    (searchedQuery d now embed w query) _ grants_insertionOrder provides_inserted
    (plan (searchedQuery d now embed w query) d.hasGraph d.hasKeywords)
    (searchedQuery d now embed w query).normalizedLimit
  have hcollected := @wp_gather_collected (d.inMemory.steady now) w (searchedQuery d now embed w query) _
    (fun c w' r w'' (hs : insertionOrder d now embed w c w' r w'') => hs.1.1) (fun h => h)
  obtain ⟨f, hsearch, hnearest, -, hfound⟩ := hgather.post hcollected
  have hc : Collected w (searchedQuery d now embed w query) cs
      (scores d w (searchedQuery d now embed w query) (foundFor d now embed w query)) :=
    hfound.congr fun mem hrow hactive s => mem_scores_insertionOrder hsearch hnearest hrow hactive s
  obtain ⟨order, horder, hrank⟩ := exists_rank hc hperm hsorted
  have hrun := exec_retrieve_of_gather grants_insertionOrder rfl hid horder hgather
  refine ⟨_, _, hrun.mono fun c w r w' hs => hs.1, ?_⟩
  rw [← hrank, ← List.map_take, List.map_map]
  rfl

theorem pool_unique {e e' : Memory × ℚ} (he : e ∈ pool d now embed w query) (he' : e' ∈ pool d now embed w query)
    (hid : e.1.id = e'.1.id) : e = e' := by
  obtain ⟨⟨hrow, -⟩, -, s, hs, heq⟩ := mem_pool.mp he
  obtain ⟨⟨hrow', -⟩, -, s', hs', heq'⟩ := mem_pool.mp he'
  have hmemory : e.1 = e'.1 := Table.eq_of_key hrow hrow' hid
  rw [hmemory] at hs heq
  exact Prod.ext hmemory (heq.trans (hs.unique hs' ▸ heq'.symm))

/-- Two ranked memories that tie may stand either way round. -/
theorem untied_of_ranksAlike (h : RanksAlike d now embed query w) :
    Untied StandsBefore (searchedQuery d now embed w query).normalizedLimit (pool d now embed w query) := by
  intro e he e' he' hne hbefore hafter
  by_contra hroom
  have hroom := Nat.lt_of_not_le hroom
  have hahead : Sorted.ahead StandsBefore (pool d now embed w query) e' =
      Sorted.ahead StandsBefore (pool d now embed w query) e := by
    refine List.filter_congr fun x _ => ?_
    have hsame : StandsBefore e' x ↔ StandsBefore e x :=
      ⟨fun hx => IsTrans.trans _ _ _ hbefore hx, fun hx => IsTrans.trans _ _ _ hafter hx⟩
    simp only [hsame]
  obtain ⟨page, hpage, hat⟩ := exists_page_at he hroom
  obtain ⟨page', hpage', hat'⟩ := exists_page_at he' (hahead ▸ hroom)
  obtain ⟨out, w₁, hrun, hout⟩ := exists_run hpage
  obtain ⟨out', w₂, hrun', hout'⟩ := exists_run hpage'
  have hids := h out out' w₁ w₂ hrun hrun'
  rw [hout, hout'] at hids
  have hplace := congrArg (fun ids => ids[(Sorted.ahead StandsBefore (pool d now embed w query) e).length]?) hids
  rw [hahead] at hat'
  simp only [List.getElem?_map, hat, hat', Option.map_some, Option.some.injEq] at hplace
  exact hne (pool_unique he he' hplace)

/-- The ids of the results do not depend on the order of the maps only where no two of the ranked memories tie
that the limit has room for; and then they do not, unless the cut of the vector search leaves it open whether
a memory is found. -/
theorem ranking_order_free (d : Deployment) (now : Time) (embed : String → List ℚ) (query : Query) (w : World) :
    (RanksAlike d now embed query w →
      Untied StandsBefore (searchedQuery d now embed w query).normalizedLimit (pool d now embed w query)) ∧
    (Untied StandsBefore (searchedQuery d now embed w query).normalizedLimit (pool d now embed w query) ∧
      NearestSettled d now embed w query → RanksAlike d now embed query w) := by
  constructor
  · exact untied_of_ranksAlike
  · rintro ⟨huntied, hsettled⟩ out out' w₁ w₂ hrun hrun'
    have hruns := @wp_retrieve_page d now embed w query _ (fun _ _ _ _ hs => hs)
      fun f hsearch hnearest mem hrow hactive s => mem_scores_settled hsettled hsearch hnearest hrow hactive s
    obtain ⟨page, hpage, hout⟩ := hrun.post hruns out rfl
    obtain ⟨page', hpage', hout'⟩ := hrun'.post hruns out' rfl
    rw [hout, hout', page_unique nodup_pool huntied hpage hpage']

/-- Two statements of one instant, equally important. -/
def tiedStore : MemoryStore := ⟨[userFact 5 "m1" "the deploy key rotates", userFact 5 "m2" "the build is green"], by decide⟩

/-- Both tie, and either comes first. -/
theorem tied_not_alike : ¬ RanksAlike (.inProcess 5) 5 (fun _ => []) tenantQuery (.holding tiedStore) := by
  intro h
  have huntied := untied_of_ranksAlike h
  revert huntied
  decide +kernel

end AgentMemory
