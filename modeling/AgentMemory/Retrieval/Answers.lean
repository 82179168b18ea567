import AgentMemory.Retrieval.Scope

/-!
# What every answer of retrieval satisfies

Whatever the stores behind the four channels hold, each channel lets a memory into the map of
candidates only after it has checked its tenant and that it is active, and neither the gates
nor the sort nor the cut let another one in. `retrieve_answers` needs of the reranker that it
gives back memories it was given, no more of them than it was given.
-/

namespace AgentMemory

open Tables Calls

/-- A memory that is active at the instant of the query and belongs to its tenant. -/
structure Live (q : Query) (mem : Memory) : Prop where
  active : mem.isActive q.now = true
  tenant : mem.tenantID = q.tenantID

/-- All candidates of a map are live. -/
def AllLive (q : Query) (candidates : Candidates) : Prop := ∀ c ∈ candidates.rows, Live q c.memory

/-- What every channel leaves. -/
def Admits (q : Query) : Except Err Candidates → World → Prop
  | .ok candidates, _ => AllLive q candidates
  | .error _, _ => True

/-- The reranker reorders a subset of what it is given; it may score the candidates anew. -/
def Reorders : (c : Call) → Except Err (Resp c) → Prop
  | .rerank _ candidates, .ok out => (out.map Candidate.memory).Subperm (candidates.map Candidate.memory)
  | _, _ => True

/-- The calls of a deployment whose reranker fails or reorders. -/
def reordering (d : Deployment) : Step Call Resp Err World := fun c w r w' =>
  step d c w r w' ∧ Reorders c r

/-- What an answer satisfies at its instant. -/
structure Answer (d : Deployment) (query : Query) (now : Time) (out : List Candidate) : Prop where
  live : ∀ c ∈ out, Live { query with now := now } c.memory
  distinct : (out.map fun c => c.memory.id).Nodup
  limited : out.length ≤ query.normalizedLimit
  credential : d.privacyGates = true → ∀ c ∈ out, SafetyLabel.safetyCredential ∉ c.memory.safetyLabels
  pii : d.privacyGates = true → ∀ c ∈ out, SafetyLabel.safetyPII ∈ c.memory.safetyLabels →
    query.filter "include_pii" = "true"

/-! ## The channels -/

variable {d : Deployment} {q : Query}

theorem AllLive.upsert {candidates : Candidates} {c : Candidate} (h : AllLive q candidates)
    (hc : Live q c.memory) : AllLive q (candidates.upsert c) := by
  intro c' hc'
  obtain rfl | ⟨hold, -⟩ := Table.mem_upsert.mp hc'
  · exact hc
  · exact h c' hold

/-- A channel writes the memory it has read, or keeps the one that is there. -/
theorem live_candidate {ch : Channel} {candidates : Candidates} {mem : Memory} {s : ℚ}
    (h : AllLive q candidates) (hmem : Live q mem) : Live q (ch.candidate candidates s mem).memory := by
  unfold Channel.candidate
  cases hfound : candidates.find? mem.id with
  | none => exact hmem
  | some existing => exact h existing (Table.find?_eq_some.mp hfound).1

/-- A channel followed by others. -/
theorem wp_admits_bind {p : Go Candidates} {w : World} {f : Candidates → Go Candidates}
    (hp : wp (step d) (Admits q) p w)
    (hf : ∀ cs w', AllLive q cs → wp (step d) (Admits q) (f cs) w') :
    wp (step d) (Admits q) (p >>= f) w := by
  rw [wp_bind]
  refine wp_mono ?_ _ _ hp
  rintro (e | cs) w' hlive
  · trivial
  · exact hf cs w' hlive

theorem wp_mergeResults_live {ch : Channel} {results : List (String × ℚ)} {candidates : Candidates}
    {w : World} (hc : AllLive q candidates) :
    wp (step d) (Admits q) (mergeResults ch q results candidates) w := by
  induction results generalizing candidates w with
  | nil => exact hc
  | cons result rest ih =>
    unfold mergeResults
    rw [wp_bind, wp_attempt]
    intro r w' hs
    obtain ⟨mem, rfl, hget, -⟩ | ⟨e, rfl, -⟩ := step_cases hs
    · obtain ⟨-, htenant, -⟩ := Backend.get_eq_some.mp hget
      simp only [bindPost]
      split
      · next hactive => exact ih (hc.upsert (live_candidate hc ⟨hactive, htenant⟩))
      · exact ih hc
    · exact ih hc

theorem wp_textSearch_live (htenant : q.tenantID ≠ "") {candidates : Candidates} {w : World}
    (hc : AllLive q candidates) : wp (step d) (Admits q) (textSearch q candidates) w := by
  unfold textSearch
  rw [wp_perform_bind]
  intro r w' hs
  obtain ⟨textual, rfl, hsearch, -⟩ | ⟨e, rfl, -⟩ := step_cases hs
  · have hlive : ∀ mem ∈ textual.filter (·.isActive q.now), Live q (textCandidate mem).memory := by
      intro mem hmem
      obtain ⟨hmem, hactive⟩ := List.mem_filter.mp hmem
      obtain ⟨-, hown, -⟩ := textScope_of_searches hsearch hmem
      exact ⟨hactive, hown htenant⟩
    simp only [wp_pure, Admits]
    generalize textual.filter (·.isActive q.now) = found at hlive
    induction found generalizing candidates with
    | nil => exact hc
    | cons mem rest ih =>
      obtain ⟨hmem, hrest⟩ := List.forall_mem_cons.mp hlive
      exact ih (hc.upsert hmem) hrest
  · trivial

theorem wp_vectorSearch_live {limit : Nat} {candidates : Candidates} {w : World}
    (hc : AllLive q candidates) : wp (step d) (Admits q) (vectorSearch q limit candidates) w := by
  unfold vectorSearch
  rw [wp_perform_bind]
  rintro (e | vec) w₁ -
  · trivial
  simp only
  rw [wp_perform_bind]
  rintro (e | results) w₂ -
  · trivial
  exact wp_mergeResults_live hc

theorem wp_keywordSearch_live {candidates : Candidates} {w : World} (hc : AllLive q candidates) :
    wp (step d) (Admits q) (keywordSearch q candidates) w := by
  unfold keywordSearch
  rw [wp_perform_bind]
  rintro (e | results) w₁ -
  · trivial
  exact wp_mergeResults_live hc

theorem wp_expandSeeds_live {depth : Int} {seeds : List String} {candidates : Candidates} {w : World}
    (hc : AllLive q candidates) : wp (step d) (Admits q) (expandSeeds q depth seeds candidates) w := by
  induction seeds generalizing candidates w with
  | nil => exact hc
  | cons seedID rest ih =>
    unfold expandSeeds
    rw [wp_perform_bind]
    rintro (e | results) w₁ -
    · trivial
    exact wp_admits_bind (wp_mergeResults_live hc) fun _ _ hcs => ih hcs

theorem wp_planned_live {use : Bool} {search : Candidates → Go Candidates} {candidates : Candidates}
    {w : World} (hc : AllLive q candidates) (hsearch : wp (step d) (Admits q) (search candidates) w) :
    wp (step d) (Admits q) (planned use search candidates) w := by
  unfold planned
  split
  · exact hsearch
  · exact hc

/-- Whatever channels the plan uses, what they gather is live. -/
theorem wp_gather_live (htenant : q.tenantID ≠ "") {p : SearchPlan} {limit : Nat} {w : World} :
    wp (step d) (Admits q) (gather p q limit) w := by
  have hempty : AllLive q .empty := fun _ hc => absurd hc List.not_mem_nil
  unfold gather
  refine wp_admits_bind (wp_planned_live hempty (wp_textSearch_live htenant hempty)) ?_
  intro cs₁ w₁ hc₁
  refine wp_admits_bind (wp_planned_live hc₁ (wp_vectorSearch_live hc₁)) ?_
  intro cs₂ w₂ hc₂
  refine wp_admits_bind (wp_planned_live hc₂ (wp_keywordSearch_live hc₂)) ?_
  intro cs₃ w₃ hc₃
  refine wp_planned_live hc₃ ?_
  unfold graphExpand
  rw [wp_perform_bind]
  rintro (e | seeds) w₄ -
  · trivial
  exact wp_expandSeeds_live hc₃

/-! ## From the map to the answer -/

/-- The ids of what is found under ids are among these, in their order. -/
theorem ids_filterMap_find? (candidates : Candidates) (order : List String) :
    ((order.filterMap candidates.find?).map fun c => c.memory.id).Sublist order := by
  induction order with
  | nil => exact List.Sublist.refl []
  | cons id order ih =>
    cases hfound : candidates.find? id with
    | none =>
      rw [List.filterMap_cons_none hfound]
      exact ih.cons id
    | some c =>
      rw [List.filterMap_cons_some hfound, List.map_cons, (Table.find?_eq_some.mp hfound).2]
      exact ih.cons_cons id

/-- What is ranked is live, passes the gates and is named once. -/
structure Ranked (d : Deployment) (q : Query) (mems : List Memory) : Prop where
  live : ∀ mem ∈ mems, Live q mem
  scope : ∀ mem ∈ mems, (!d.privacyGates || passesPrivacy mem q) = true
  distinct : (mems.map Memory.id).Nodup

theorem Ranked.of_subperm {mems mems' : List Memory} (h : Ranked d q mems) (hsub : mems'.Subperm mems) :
    Ranked d q mems' := by
  obtain ⟨kept, hperm, hkept⟩ := hsub
  refine ⟨fun mem hmem => ?_, fun mem hmem => ?_, ?_⟩
  · exact h.live mem (hkept.subset (hperm.mem_iff.mpr hmem))
  · exact h.scope mem (hkept.subset (hperm.mem_iff.mpr hmem))
  · exact (hperm.map Memory.id).nodup_iff.mp (h.distinct.sublist (hkept.map Memory.id))

/-- Each id is ranked once. -/
theorem nodup_rank {candidates : Candidates} {order : List String} (horder : order.Nodup) :
    (((rank d q candidates order).map Candidate.memory).map Memory.id).Nodup := by
  have hperm : ((rank d q candidates order).map Candidate.memory).Perm
      (((order.filterMap candidates.find?).filter (passesGates d q)).map Candidate.memory) := by
    refine ((List.mergeSort_perm _ _).map Candidate.memory).trans (List.Perm.of_eq ?_)
    rw [List.map_map]
    rfl
  rw [(hperm.map Memory.id).nodup_iff, List.map_map]
  exact horder.sublist ((List.filter_sublist.map _).trans (ids_filterMap_find? candidates order))

/-- What is ranked is a candidate that passes the gates. -/
theorem mem_rank_memory {candidates : Candidates} {order : List String} {mem : Memory}
    (h : mem ∈ (rank d q candidates order).map Candidate.memory) :
    ∃ c ∈ candidates.rows, c.memory = mem ∧ passesGates d q c = true := by
  rw [rank, ((List.mergeSort_perm _ _).map Candidate.memory).mem_iff, List.map_map] at h
  obtain ⟨c, hkept, rfl⟩ := List.mem_map.mp h
  obtain ⟨hfound, hgates⟩ := List.mem_filter.mp hkept
  obtain ⟨id, -, hid⟩ := List.mem_filterMap.mp hfound
  exact ⟨c, (Table.find?_eq_some.mp hid).1, rfl, hgates⟩

theorem ranked_rank {candidates : Candidates} {order : List String} (hc : AllLive q candidates)
    (horder : order.Nodup) : Ranked d q ((rank d q candidates order).map Candidate.memory) := by
  refine ⟨fun mem hmem => ?_, fun mem hmem => ?_, nodup_rank horder⟩
  · obtain ⟨c, hc', rfl, -⟩ := mem_rank_memory hmem
    exact hc c hc'
  · obtain ⟨c, -, rfl, hgates⟩ := mem_rank_memory hmem
    rw [passesGates, Bool.and_eq_true] at hgates
    exact hgates.2

theorem wp_rerank_ranked {ranked : List Candidate} {w : World}
    (h : Ranked d q (ranked.map Candidate.memory)) :
    wp (reordering d) (fun o _ => ∀ out, o = .ok out → Ranked d q (out.map Candidate.memory))
      (rerank q ranked) w := by
  unfold rerank
  rw [wp_bind, wp_attempt]
  rintro (e | out) w' ⟨-, hreorders⟩
  · rintro out' ⟨⟩
    rw [List.map_map]
    exact h
  · rintro out' ⟨⟩
    exact h.of_subperm hreorders

/-- The filters that are added name no flag. -/
theorem filter_searched {query : Query} {now : Time} {key : String} (hagent : key ≠ "agent_id")
    (hproject : key ≠ "project_id") : (searched query now).filter key = query.filter key := by
  have hadd : ∀ filters : List (String × String), ∀ k value, key ≠ k →
      (addFilter filters k value).lookup key = filters.lookup key := by
    intro filters k value hne
    unfold addFilter
    split_ifs
    · rfl
    · rfl
    · have hbeq : (key == k) = false := by simpa using hne
      simp [List.lookup_append, List.lookup_cons, hbeq]
  simp only [Query.filter, searched, applyScopeFilters]
  rw [hadd _ _ _ hproject, hadd _ _ _ hagent]

theorem Ranked.answer {query : Query} {now : Time} {out : List Candidate}
    (h : Ranked d (searched query now) (out.map Candidate.memory)) :
    Answer d query now (out.take query.normalizedLimit) := by
  have hprivacy : d.privacyGates = true → ∀ c ∈ out.take query.normalizedLimit,
      passesPrivacy c.memory (searched query now) = true := by
    intro hgates c hc
    have hscope := h.scope c.memory (List.mem_map_of_mem (List.mem_of_mem_take hc))
    rw [hgates] at hscope
    exact hscope
  refine ⟨fun c hc => ?_, ?_, List.length_take_le _ _, fun hgates c hc hlabel => ?_,
    fun hgates c hc hlabel => ?_⟩
  · have hlive := h.live c.memory (List.mem_map_of_mem (List.mem_of_mem_take hc))
    exact ⟨hlive.active, hlive.tenant⟩
  · have hdistinct := h.distinct
    rw [List.map_map] at hdistinct
    exact hdistinct.sublist ((List.take_sublist _ _).map _)
  · have hpasses := List.all_eq_true.mp (hprivacy hgates c hc) _ hlabel
    simp at hpasses
  · have hpasses := List.all_eq_true.mp (hprivacy hgates c hc) _ hlabel
    rw [filter_searched (by decide) (by decide)] at hpasses
    simpa using hpasses

/-- The instant of a query: the caller's, or a reading of the clock where the caller gave none. -/
def InstantOf (d : Deployment) (query : Query) (now : Time) : Prop :=
  if query.now = 0 then d.clock now else now = query.now

theorem wp_queryNow_instant {query : Query} {w : World} :
    wp (step d) (fun o _ => ∀ now, o = .ok now → InstantOf d query now) (queryNow query) w := by
  unfold queryNow InstantOf
  split
  · refine wp_perform.mpr ?_
    intro r w' hs
    obtain ⟨now, rfl, hclock, -⟩ | ⟨e, rfl, -⟩ := step_cases hs
    · rintro now' ⟨⟩
      exact hclock
    · rintro now' ⟨⟩
  · rintro now ⟨⟩
    rfl

/-- Fewer answers of the reranker leave what holds of all. -/
theorem wp_reordering {α : Type} {Q : Except Err α → World → Prop} {p : Go α} {w : World}
    (h : wp (step d) Q p w) : wp (reordering d) Q p w :=
  wp_step_mono (fun _ _ _ _ hs => hs.1) p w h

theorem wp_retrieve_answer {query : Query} (htenant : query.tenantID ≠ "") {w : World} :
    wp (reordering d)
      (fun o _ => ∀ out, o = .ok out → ∃ now, InstantOf d query now ∧ Answer d query now out.1)
      (retrieve d query) w := by
  unfold retrieve
  rw [wp_bind]
  refine wp_mono ?_ _ _ (wp_reordering wp_queryNow_instant)
  rintro (e | now) w₁ hnow
  · rintro out ⟨⟩
  simp only [bindPost]
  rw [wp_bind]
  refine wp_mono ?_ _ _ (wp_reordering (wp_gather_live (q := searched query now) htenant))
  rintro (e | candidates) w₂ hlive
  · rintro out ⟨⟩
  simp only [bindPost]
  rw [wp_perform_bind]
  rintro (e | order) w₃ ⟨hs, -⟩
  · rintro out ⟨⟩
  have horder : order.Nodup := by
    obtain ⟨_, ⟨⟩, hperm, -⟩ | ⟨_, ⟨⟩, -⟩ := step_cases hs
    exact hperm.nodup_iff.mpr candidates.nodup
  simp only
  rw [wp_bind]
  refine wp_mono ?_ _ _ (wp_rerank_ranked (ranked_rank hlive horder))
  rintro (e | reranked) w₄ hranked
  · rintro out ⟨⟩
  refine wp_mono ?_ _ _ (wp_reordering wp_traced)
  intro o w₅ hout out ho
  rw [hout out ho]
  exact ⟨now, hnow now rfl, (hranked reranked rfl).answer⟩

/-- Every answer of `Retrieve` holds active memories of the query's tenant, each once and no
more than the limit, and behind privacy gates no credential and no PII that was not asked for;
whatever the stores hold, where the reranker fails or reorders a subset. -/
theorem retrieve_answers (d : Deployment) (query : Query) (w w' : World) (out : List Candidate)
    (trace : Trace) (htenant : query.tenantID ≠ "")
    (he : Exec (reordering d) (retrieve d query) w (.ok (out, trace)) w') :
    ∃ now, InstantOf d query now ∧ Answer d query now out :=
  he.post (wp_retrieve_answer htenant) (out, trace) rfl

/-! ## An answer from the text channel -/

theorem reordering_answer {c : Call} {w w' : World} {a : Resp c} (h : Answers d c w a w')
    (hreorders : Reorders c (.ok a)) : reordering d c w (.ok a) w' :=
  ⟨step_answer h, hreorders⟩

/-- A query for whatever the tenant has. -/
def tenantQuery : Query := { Query.zero with tenantID := "t", now := 5 }

/-- A store with one memory. -/
def factWorld : World := World.holding (Table.empty.upsert (userFact 5 "m1" "the deploy key rotates"))

/-- What the text channel makes of it, once it is ranked. -/
def factRanked : List Candidate :=
  rank (.inProcess 5) (searched tenantQuery 5)
    (Table.empty.upsert (textCandidate (userFact 5 "m1" "the deploy key rotates"))) ["m1"]

/-- A run that returns what the reranker makes of it, where the other calls may answer as in this deployment. -/
theorem exec_retrieve_of_rerank {S : Step Call Resp Err World} {out : List Candidate}
    (hstep : ∀ {c : Call} {w w' : World} {a : Resp c}, (∀ text candidates, c ≠ .rerank text candidates) →
      Answers (.inProcess 5) c w a w' → S c w (.ok a) w')
    (hrerank : S (.rerank "" factRanked) factWorld (.ok out) factWorld) :
    Exec S (retrieve (.inProcess 5) tenantQuery) factWorld
      (.ok (out.take 8, traceOf (searched tenantQuery 5) (out.take 8) "trace_1" 5))
      { factWorld with issued := ["trace_1"] } := by
  have hsearch : Answers (.inProcess 5) (.searchByText (searched tenantQuery 5)) factWorld
      [userFact 5 "m1" "the deploy key rotates"] factWorld := by
    have hmatch : textMatches (Deployment.inProcess 5).lower (searched tenantQuery 5)
        (userFact 5 "m1" "the deploy key rotates") = true := by decide
    refine ⟨?_, rfl⟩
    change List.Perm _ ([userFact 5 "m1" "the deploy key rotates"].filter _)
    rw [List.filter_cons_of_pos hmatch]
    exact List.Perm.refl _
  have hrange : Answers (.inProcess 5) (.rangeOver ["m1"]) factWorld ["m1"] factWorld :=
    ⟨List.Perm.refl _, rfl⟩
  have htraverse : Answers (.inProcess 5) (.traverse ⟨"t", "m1", 2⟩) factWorld [] factWorld := ⟨rfl, rfl⟩
  have hnewID : Answers (.inProcess 5) (.newID "trace") factWorld "trace_1"
      { factWorld with issued := ["trace_1"] } := ⟨⟨by decide, rfl, rfl⟩, rfl⟩
  have hnow : Answers (.inProcess 5) .now { factWorld with issued := ["trace_1"] } 5
      { factWorld with issued := ["trace_1"] } := ⟨rfl, rfl⟩
  have hsave : ∀ trace, Answers (.inProcess 5) (.saveTrace trace) { factWorld with issued := ["trace_1"] } ()
      { factWorld with issued := ["trace_1"] } := fun _ => rfl
  have hgather : Exec S
      (gather (plan (searched tenantQuery 5) true true) (searched tenantQuery 5) 8) factWorld
      (.ok (Table.empty.upsert (textCandidate (userFact 5 "m1" "the deploy key rotates")))) factWorld := by
    refine Exec.bind (Exec.answer (hstep (by simp) hsearch) (.ret _ _)) ?_
    refine Exec.bind (.ret _ _) (Exec.bind (.ret _ _) ?_)
    refine Exec.answer (hstep (by simp) hrange) ?_
    exact Exec.answer (hstep (by simp) htraverse) (Exec.bind (.ret _ _) (.ret _ _))
  refine Exec.bind (.ret 5 _) (Exec.bind hgather ?_)
  refine Exec.answer (hstep (by simp) hrange) ?_
  refine Exec.bind (.call hrerank (.ret _ _)) ?_
  refine Exec.bind ?_ (Exec.answer (hstep (by simp) (hsave _)) (.ret _ _))
  exact Exec.answer (hstep (by simp) hnewID) (Exec.answer (hstep (by simp) hnow) (.ret _ _))

/-- A run that returns the memory. -/
theorem exec_retrieve_fact :
    Exec (reordering (.inProcess 5)) (retrieve (.inProcess 5) tenantQuery) factWorld
      (.ok (factRanked.take 8, traceOf (searched tenantQuery 5) (factRanked.take 8) "trace_1" 5))
      { factWorld with issued := ["trace_1"] } := by
  have hrerank : Answers (.inProcess 5) (.rerank "" factRanked) factWorld factRanked factWorld :=
    ⟨fun c hc => ⟨c, hc, rfl, fun _ _ => Iff.rfl⟩, rfl⟩
  refine exec_retrieve_of_rerank ?_ (reordering_answer hrerank (List.Subperm.refl _))
  intro c w w' a hc h
  cases c with
  | rerank text candidates => exact absurd rfl (hc text candidates)
  | _ => exact reordering_answer h trivial

/-- The answer of that run. -/
theorem retrieve_answers_fact : ∃ now, InstantOf (.inProcess 5) tenantQuery now ∧
    Answer (.inProcess 5) tenantQuery now (factRanked.take 8) :=
  retrieve_answers _ _ _ _ _ _ (by decide) exec_retrieve_fact

end AgentMemory
