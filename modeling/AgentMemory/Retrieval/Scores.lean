import AgentMemory.Retrieval.Answers
import Mathlib.Order.Bounds.Basic

/-!
# The score of a candidate

A channel that finds a memory again raises its score, so what the channels leave is, for each memory that
some channel finds, the greatest of the scores the channels give it. `wp_gather_collected` says so for every
deployment whose stores do not fail: nothing but the answers of the text and the vector search is left open,
and of these only what they hold, not in which order.
-/

namespace AgentMemory

open Tables Calls

/-- What the stores have answered to the text and the vector search. -/
structure Found where
  texts : List Memory
  nearest : List VectorResult

section Scores

variable (d : Deployment) (w : World) (q : Query) (f : Found)

/-- The scores that these results give a memory of the tenant. -/
def channelScores (ch : Channel) (results : List (String × ℚ)) (mem : Memory) : List ℚ :=
  if mem.tenantID = q.tenantID then (results.filter (·.1 = mem.id)).map fun result => ch.score result.2 mem else []

def textScores (texts : List Memory) (mem : Memory) : List ℚ :=
  if mem ∈ texts then [(textCandidate mem).score] else []

def vectorScores (mem : Memory) : List ℚ :=
  if q.text ≠ "" then
    channelScores q vectorChannel (f.nearest.map fun result => (result.id, result.score)) mem
  else []

/-- The results of the keyword store. -/
def keywordResults : List (String × ℚ) :=
  (w.keywords.rows.filter (keywordMatches d.lower q)).map fun doc => (doc.id, keywordScore d.lower q.text doc.text)

def keywordScores (mem : Memory) : List ℚ :=
  if d.hasKeywords = true ∧ q.text ≠ "" then channelScores q keywordChannel (keywordResults d w q) mem else []

/-- The scores before the graph is expanded. -/
def seedScores (mem : Memory) : List ℚ :=
  (textScores f.texts mem ++ vectorScores q f mem) ++ keywordScores d w q mem

/-- What the graph store answers for a seed. -/
def neighborResults (seedID : String) : List (String × ℚ) :=
  (w.edges.filter (·.fromID = seedID)).map fun edge => (edge.toID, 1)

/-- The ids of the memories the graph is expanded from. -/
def seedIDs : List String :=
  (w.memories.rows.filter fun mem => mem.isActive q.now && !(seedScores d w q f mem).isEmpty).map Memory.id

def graphScores (mem : Memory) : List ℚ :=
  if d.hasGraph = true ∧ q.filter "graph" ≠ "off" then
    (seedIDs d w q f).flatMap fun id => channelScores q graphChannel (neighborResults w id) mem
  else []

/-- All scores that a memory is given. -/
def scores (mem : Memory) : List ℚ := seedScores d w q f mem ++ graphScores d w q f mem

end Scores

/-- The candidates are the active memories that are given some score, each with the greatest. -/
structure Collected (w : World) (q : Query) (candidates : Candidates) (K : Memory → List ℚ) : Prop where
  live : ∀ c ∈ candidates.rows, c.memory ∈ w.memories.rows ∧ c.memory.isActive q.now = true
  best : ∀ c ∈ candidates.rows, IsGreatest {s | s ∈ K c.memory} c.score
  found : ∀ mem ∈ w.memories.rows, mem.isActive q.now = true → ∀ s ∈ K mem, ∃ c ∈ candidates.rows, c.memory = mem

/-- What a channel leaves where nothing fails. -/
def LeavesCollected (w : World) (q : Query) (K : Memory → List ℚ) : Except Err Candidates → World → Prop
  | .ok candidates, w' => w' = w ∧ Collected w q candidates K
  | .error _, _ => False

/-! ## The channels -/

variable {d : Deployment} {w : World} {q : Query} {K : Memory → List ℚ} {candidates : Candidates}
  {st : Step Call Resp Err World}

theorem Collected.congr {K' : Memory → List ℚ} (h : Collected w q candidates K)
    (hK : ∀ mem ∈ w.memories.rows, mem.isActive q.now = true → ∀ s, s ∈ K mem ↔ s ∈ K' mem) :
    Collected w q candidates K' := by
  refine ⟨h.live, fun c hc => ?_, fun mem hrow hactive s hs => ?_⟩
  · obtain ⟨hrow, hactive⟩ := h.live c hc
    have hsame : {s | s ∈ K' c.memory} = {s | s ∈ K c.memory} := Set.ext fun s => (hK _ hrow hactive s).symm
    rw [hsame]
    exact h.best c hc
  · exact h.found mem hrow hactive s ((hK mem hrow hactive s).mpr hs)

theorem collected_empty : Collected w q .empty fun _ => [] :=
  ⟨fun _ hc => absurd hc List.not_mem_nil, fun _ hc => absurd hc List.not_mem_nil,
    fun _ _ _ _ hs => absurd hs List.not_mem_nil⟩

/-- A candidate is written that has the greatest score of its memory. -/
theorem Collected.upsert {K' : Memory → List ℚ} {c : Candidate} (h : Collected w q candidates K)
    (hrow : c.memory ∈ w.memories.rows) (hactive : c.memory.isActive q.now = true)
    (hbest : IsGreatest {s | s ∈ K' c.memory} c.score)
    (hother : ∀ mem ∈ w.memories.rows, mem ≠ c.memory → K' mem = K mem) :
    Collected w q (candidates.upsert c) K' := by
  refine ⟨fun c' hc' => ?_, fun c' hc' => ?_, fun mem hrow' hactive' s hs => ?_⟩
  · obtain rfl | ⟨hold, -⟩ := Table.mem_upsert.mp hc'
    · exact ⟨hrow, hactive⟩
    · exact h.live c' hold
  · obtain rfl | ⟨hold, hne⟩ := Table.mem_upsert.mp hc'
    · exact hbest
    · have hdiffer : c'.memory ≠ c.memory := fun hsame => hne (congrArg Memory.id hsame)
      rw [hother _ (h.live c' hold).1 hdiffer]
      exact h.best c' hold
  · by_cases hsame : mem = c.memory
    · exact ⟨c, Table.mem_upsert_self _ _, hsame.symm⟩
    · rw [hother mem hrow' hsame] at hs
      obtain ⟨c', hc', rfl⟩ := h.found mem hrow' hactive' s hs
      refine ⟨c', Table.mem_upsert.mpr (Or.inr ⟨hc', ?_⟩), rfl⟩
      exact fun hid => hsame (Table.eq_of_key hrow' hrow hid)

/-- A channel keeps the memory under the id it writes. -/
theorem Collected.memory_candidate {ch : Channel} {mem : Memory} {s : ℚ} (h : Collected w q candidates K)
    (hrow : mem ∈ w.memories.rows) : (ch.candidate candidates s mem).memory = mem := by
  unfold Channel.candidate
  cases hfound : candidates.find? mem.id with
  | none => rfl
  | some existing =>
    obtain ⟨hold, hid⟩ := Table.find?_eq_some.mp hfound
    exact Table.eq_of_key (h.live existing hold).1 hrow hid

/-- A channel raises the score of the memory it has read, or gives it a first one. -/
theorem Collected.score_candidate {ch : Channel} {mem : Memory} {s : ℚ} (h : Collected w q candidates K)
    (hrow : mem ∈ w.memories.rows) (hactive : mem.isActive q.now = true) :
    IsGreatest {x | x ∈ K mem ∨ x = ch.score s mem} (ch.candidate candidates s mem).score := by
  unfold Channel.candidate
  cases hfound : candidates.find? mem.id with
  | none =>
    have hnone : ∀ x ∈ K mem, False := by
      intro x hx
      obtain ⟨c, hc, rfl⟩ := h.found mem hrow hactive x hx
      rw [Table.find?_of_mem hc] at hfound
      cases hfound
    refine ⟨Or.inr rfl, ?_⟩
    rintro x (hx | rfl)
    · exact (hnone x hx).elim
    · exact le_rfl
  | some existing =>
    obtain ⟨hold, hid⟩ := Table.find?_eq_some.mp hfound
    have hsame : existing.memory = mem := Table.eq_of_key (h.live existing hold).1 hrow hid
    have hbest := h.best existing hold
    rw [hsame] at hbest
    refine ⟨?_, ?_⟩
    · rcases max_choice existing.score (ch.score s mem) with hmax | hmax
      · left
        show max existing.score (ch.score s mem) ∈ K mem
        rw [hmax]
        exact hbest.1
      · exact Or.inr hmax
    · rintro x (hx | rfl)
      · exact (hbest.2 hx).trans (le_max_left _ _)
      · exact le_max_right _ _

theorem wp_collected_congr {K' : Memory → List ℚ} {p : Go Candidates} (h : wp st (LeavesCollected w q K) p w)
    (hK : ∀ mem ∈ w.memories.rows, mem.isActive q.now = true → ∀ s, s ∈ K mem ↔ s ∈ K' mem) :
    wp st (LeavesCollected w q K') p w := by
  refine wp_mono ?_ _ _ h
  rintro (e | cs) w' hleaves
  · exact hleaves.elim
  · exact ⟨hleaves.1, hleaves.2.congr hK⟩

/-- A read where nothing fails. -/
theorem get_cases (hd : ¬ d.faulty) {tenantID id : String} {w' : World} {r : Except Err Memory}
    (hs : step d (.get tenantID id) w r w') : w' = w ∧
      ((∃ mem, r = .ok mem ∧ d.backend.get w.memories tenantID id = some mem) ∨
        ((∃ e, r = .error e) ∧ d.backend.get w.memories tenantID id = none)) := by
  obtain ⟨mem, rfl, hget, rfl⟩ | ⟨e, rfl, rfl, ⟨hnone, -⟩ | ⟨hfaulty, -⟩⟩ := hs
  · exact ⟨rfl, Or.inl ⟨mem, rfl, hget⟩⟩
  · exact ⟨rfl, Or.inr ⟨⟨e, rfl⟩, hnone⟩⟩
  · exact absurd hfaulty hd

theorem mem_channelScores {ch : Channel} {results : List (String × ℚ)} {mem : Memory} {s : ℚ} :
    s ∈ channelScores q ch results mem ↔
      mem.tenantID = q.tenantID ∧ ∃ result ∈ results, result.1 = mem.id ∧ s = ch.score result.2 mem := by
  unfold channelScores
  split
  · next htenant => simp [htenant, and_assoc, eq_comm]
  · next htenant => simp [htenant]

/-- The loop over results gives the memories of the tenant that they name their scores. -/
theorem wp_mergeResults_collected (hst : ∀ c w r w', st c w r w' → step d c w r w') (hd : ¬ d.faulty) {ch : Channel}
    {results : List (String × ℚ)} (hc : Collected w q candidates K) :
    wp st (LeavesCollected w q fun mem => K mem ++ channelScores q ch results mem)
      (mergeResults ch q results candidates) w := by
  induction results generalizing candidates K with
  | nil =>
    refine ⟨rfl, hc.congr fun mem _ _ s => ?_⟩
    simp [mem_channelScores]
  | cons result rest ih =>
    unfold mergeResults
    rw [wp_bind, wp_attempt]
    intro r w' hs
    obtain ⟨rfl, ⟨mem, rfl, hget⟩ | ⟨⟨e, rfl⟩, hnone⟩⟩ := get_cases hd (hst _ _ _ _ hs)
    · obtain ⟨hfound, htenant, -⟩ := Backend.get_eq_some.mp hget
      obtain ⟨hrow, hid⟩ := Table.find?_eq_some.mp hfound
      have hnamed : ∀ other ∈ w'.memories.rows, result.1 = other.id ↔ other = mem := by
        intro other hother
        constructor
        · exact fun hid' => Table.eq_of_key hother hrow (hid'.symm.trans hid.symm)
        · rintro rfl
          exact hid.symm
      simp only [bindPost]
      split
      · next hactive =>
        have hmem := @Collected.memory_candidate _ _ _ _ ch _ result.2 hc hrow
        have hbest := @Collected.score_candidate _ _ _ _ ch _ result.2 hc hrow hactive
        have hadded : Collected w' q (candidates.upsert (ch.candidate candidates result.2 mem))
            fun other => K other ++ if other = mem then [ch.score result.2 mem] else [] := by
          refine hc.upsert (by rwa [hmem]) (by rwa [hmem]) (by simpa [hmem] using hbest) fun other _ hne => ?_
          rw [hmem] at hne
          simp [hne]
        refine wp_collected_congr (ih hadded) fun other hother _ s => ?_
        simp only [List.mem_append, mem_channelScores, List.exists_mem_cons_iff, hnamed other hother]
        by_cases hsame : other = mem
        · subst hsame
          simp [htenant, or_assoc]
        · simp [hsame]
      · next hinactive =>
        refine wp_collected_congr (ih hc) fun other hother hactive s => ?_
        have hother' : other ≠ mem := by
          rintro rfl
          exact hinactive hactive
        simp [mem_channelScores, hnamed other hother, hother']
    · refine wp_collected_congr (ih hc) fun other hother hactive s => ?_
      have hother' : other.tenantID = q.tenantID → result.1 ≠ other.id := by
        intro hown hid
        have hget : d.backend.get w'.memories q.tenantID result.1 = some other := by
          rw [hid]
          refine Backend.get_eq_some.mpr ⟨Table.find?_of_mem hother, hown, ?_⟩
          rw [Memory.status_of_isActive hactive]
          decide
        rw [hnone] at hget
        cases hget
      simp only [List.mem_append, mem_channelScores, List.exists_mem_cons_iff]
      refine or_congr_right (and_congr_right fun hown => ?_)
      rw [or_iff_right fun h => hother' hown h.1]

/-- The text channel starts the map with the active memories among the texts. -/
theorem collected_texts {texts : List Memory}
    (htexts : ∀ mem ∈ texts, mem ∈ w.memories.rows ∧ mem.isActive q.now = true) (done : List Memory)
    (hc : Collected w q candidates (textScores done)) :
    Collected w q (texts.foldl (fun cs mem => Table.upsert cs (textCandidate mem)) candidates)
      (textScores (done ++ texts)) := by
  induction texts generalizing done candidates with
  | nil => rwa [List.append_nil]
  | cons mem rest ih =>
    obtain ⟨hmem, hrest⟩ := List.forall_mem_cons.mp htexts
    have hadded : Collected w q (candidates.upsert (textCandidate mem)) (textScores (done ++ [mem])) := by
      refine hc.upsert hmem.1 hmem.2 ?_ fun other _ hne => ?_
      · show IsGreatest {s | s ∈ textScores (done ++ [mem]) mem} (textCandidate mem).score
        simp [textScores]
      · have hne' : other ≠ mem := hne
        simp [textScores, hne']
    have hall := ih hrest (done ++ [mem]) hadded
    rwa [List.append_assoc, List.singleton_append] at hall

theorem wp_textSearch_collected (hst : ∀ c w r w', st c w r w' → step d c w r w') (hd : ¬ d.faulty) :
    wp st (fun o w' => ∃ texts, st (.searchByText q) w (.ok texts) w ∧ LeavesCollected w q (textScores texts) o w')
      (textSearch q .empty) w := by
  unfold textSearch
  rw [wp_perform_bind]
  intro r w' hs
  obtain ⟨texts, rfl, hsearch, rfl⟩ | ⟨e, -, hfaulty, -⟩ := step_store (hst _ _ _ _ hs) rfl
  swap
  · exact absurd hfaulty hd
  have hlive : ∀ mem ∈ texts.filter (·.isActive q.now), mem ∈ w'.memories.rows ∧ mem.isActive q.now = true := by
    intro mem hmem
    obtain ⟨hmem, hactive⟩ := List.mem_filter.mp hmem
    exact ⟨(textScope_of_searches hsearch hmem).1, hactive⟩
  have hempty : Collected w' q .empty (textScores []) := collected_empty.congr fun mem _ _ s => by simp [textScores]
  refine ⟨texts, hs, rfl, (collected_texts hlive [] hempty).congr fun mem _ hactive s => ?_⟩
  simp [textScores, hactive]

/-- What the vector store has answered, where it was asked. -/
def AnsweredNearest (st : Step Call Resp Err World) (w : World) (q : Query) (nearest : List VectorResult) : Prop :=
  q.text ≠ "" → ∃ vec, st (.embed q.text) w (.ok vec) w ∧
    st (.searchVectors ⟨q.tenantID, q.userID, q.text, vec, q.normalizedLimit * 3, q.filters⟩) w (.ok nearest) w

theorem wp_vectorSearch_collected (hst : ∀ c w r w', st c w r w' → step d c w r w') (hd : ¬ d.faulty)
    (texts : List Memory) (hc : Collected w q candidates K) :
    wp st (fun o w' => ∃ nearest, AnsweredNearest st w q nearest ∧
        LeavesCollected w q (fun mem => K mem ++ vectorScores q ⟨texts, nearest⟩ mem) o w')
      (planned (q.text ≠ "") (vectorSearch q q.normalizedLimit) candidates) w := by
  unfold planned
  split
  · next htext =>
    have htext' : q.text ≠ "" := by simpa using htext
    unfold vectorSearch
    rw [wp_perform_bind]
    intro r w₁ hembed
    obtain ⟨vec, rfl, rfl⟩ | ⟨e, -, hfaulty, -⟩ := step_store (hst _ _ _ _ hembed) rfl
    swap
    · exact absurd hfaulty hd
    dsimp only
    rw [wp_perform_bind]
    intro r w₂ hsearch
    obtain ⟨nearest, rfl, -, rfl⟩ | ⟨e, -, hfaulty, -⟩ := step_store (hst _ _ _ _ hsearch) rfl
    swap
    · exact absurd hfaulty hd
    refine wp_mono ?_ _ _ (wp_mergeResults_collected hst hd hc)
    intro o w' hleaves
    refine ⟨nearest, fun _ => ⟨vec, hembed, hsearch⟩, ?_⟩
    simpa only [vectorScores, if_pos htext'] using hleaves
  · next htext =>
    have htext' : ¬ q.text ≠ "" := by simpa using htext
    refine ⟨[], fun h => absurd h htext', rfl, hc.congr fun mem _ _ s => ?_⟩
    simp [vectorScores, htext']

theorem wp_keywordSearch_collected (hst : ∀ c w r w', st c w r w' → step d c w r w') (hd : ¬ d.faulty)
    (hc : Collected w q candidates K) :
    wp st (LeavesCollected w q fun mem => K mem ++ keywordScores d w q mem)
      (planned (d.hasKeywords && q.text ≠ "") (keywordSearch q) candidates) w := by
  unfold planned
  split
  · next huse =>
    have hwired : d.hasKeywords = true ∧ q.text ≠ "" := by simpa using huse
    unfold keywordSearch
    rw [wp_perform_bind]
    intro r w₁ hs
    obtain ⟨results, rfl, hperm, rfl⟩ | ⟨e, -, hfaulty, -⟩ := step_store (hst _ _ _ _ hs) rfl
    swap
    · exact absurd hfaulty hd
    refine wp_collected_congr (wp_mergeResults_collected hst hd hc) fun mem _ _ s => ?_
    have hsame : ∀ result, result ∈ (results.map fun result => (result.id, result.score)) ↔
        result ∈ keywordResults d w₁ q := by
      intro result
      rw [(hperm.map _).mem_iff, List.map_map]
      rfl
    simp only [keywordScores, if_pos hwired, List.mem_append, mem_channelScores, hsame]
  · next huse =>
    have hunwired : ¬ (d.hasKeywords = true ∧ q.text ≠ "") := by simpa using huse
    refine ⟨rfl, hc.congr fun mem _ _ s => ?_⟩
    simp [keywordScores, hunwired]

theorem wp_expandSeeds_collected (hst : ∀ c w r w', st c w r w' → step d c w r w') (hd : ¬ d.faulty) {depth : Int}
    {seeds : List String} (hc : Collected w q candidates K) :
    wp st (LeavesCollected w q fun mem =>
        K mem ++ seeds.flatMap fun id => channelScores q graphChannel (neighborResults w id) mem)
      (expandSeeds q depth seeds candidates) w := by
  induction seeds generalizing candidates K with
  | nil => exact ⟨rfl, hc.congr fun mem _ _ s => by simp⟩
  | cons id rest ih =>
    unfold expandSeeds
    rw [wp_perform_bind]
    intro r w₁ hs
    obtain ⟨results, rfl, rfl, rfl⟩ | ⟨e, -, hfaulty, -⟩ := step_store (hst _ _ _ _ hs) rfl
    swap
    · exact absurd hfaulty hd
    have hresults : ((w₁.edges.filter (·.fromID = id)).map fun e => (⟨e.toID, 1⟩ : GraphResult)).map
        (fun result => (result.nodeID, result.score)) = neighborResults w₁ id := by
      rw [List.map_map]
      rfl
    dsimp only
    rw [hresults, wp_bind]
    refine wp_mono ?_ _ _ (wp_mergeResults_collected hst hd hc)
    rintro (e | cs) w' hleaves
    · exact hleaves.elim
    · obtain ⟨rfl, hcs⟩ := hleaves
      refine wp_collected_congr (ih hcs) fun mem _ _ s => ?_
      simp

theorem wp_graphExpand_collected (hst : ∀ c w r w', st c w r w' → step d c w r w') (hd : ¬ d.faulty) (f : Found)
    (hc : Collected w q candidates (seedScores d w q f)) :
    wp st (LeavesCollected w q (scores d w q f))
      (planned (d.hasGraph && q.filter "graph" ≠ "off") (graphExpand q (graphDepth q)) candidates) w := by
  unfold planned
  split
  · next huse =>
    have hwired : d.hasGraph = true ∧ q.filter "graph" ≠ "off" := by simpa using huse
    unfold graphExpand
    rw [wp_perform_bind]
    intro r w₁ hs
    obtain ⟨seeds, rfl, hperm, rfl⟩ | ⟨e, -, hfaulty, -⟩ := step_store (hst _ _ _ _ hs) rfl
    swap
    · exact absurd hfaulty hd
    have hseeds : ∀ id, id ∈ seeds ↔ id ∈ seedIDs d w₁ q f := by
      intro id
      rw [hperm.mem_iff]
      simp only [seedIDs, List.mem_map, List.mem_filter, Bool.and_eq_true, Bool.not_eq_true', List.isEmpty_eq_false_iff]
      constructor
      · rintro ⟨c, hmem, rfl⟩
        exact ⟨c.memory, ⟨(hc.live c hmem).1, (hc.live c hmem).2, List.ne_nil_of_mem (hc.best c hmem).1⟩, rfl⟩
      · rintro ⟨mem, ⟨hrow, hactive, hne⟩, rfl⟩
        obtain ⟨s, hs⟩ := List.exists_mem_of_ne_nil _ hne
        obtain ⟨c, hmem, rfl⟩ := hc.found mem hrow hactive s hs
        exact ⟨c, hmem, rfl⟩
    refine wp_collected_congr (wp_expandSeeds_collected hst hd hc) fun mem _ _ s => ?_
    simp only [scores, graphScores, if_pos hwired, List.mem_append, List.mem_flatMap, hseeds]
  · next huse =>
    have hunwired : ¬ (d.hasGraph = true ∧ q.filter "graph" ≠ "off") := by simpa using huse
    refine ⟨rfl, hc.congr fun mem _ _ s => ?_⟩
    simp [scores, graphScores, hunwired]

/-- The four channels leave the active memories that are given some score, each with the greatest. -/
theorem wp_gather_collected (hst : ∀ c w r w', st c w r w' → step d c w r w') (hd : ¬ d.faulty) :
    wp st (fun o w' => ∃ f : Found, st (.searchByText q) w (.ok f.texts) w ∧ AnsweredNearest st w q f.nearest ∧
        LeavesCollected w q (scores d w q f) o w')
      (gather (plan q d.hasGraph d.hasKeywords) q q.normalizedLimit) w := by
  unfold gather
  rw [wp_bind]
  refine wp_mono ?_ _ _ (wp_textSearch_collected hst hd)
  rintro (e | cs₁) w₁ ⟨texts, htexts, hleaves₁⟩
  · exact hleaves₁.elim
  obtain ⟨rfl, hc₁⟩ := hleaves₁
  simp only [bindPost]
  rw [wp_bind]
  refine wp_mono ?_ _ _ (wp_vectorSearch_collected hst hd texts hc₁)
  rintro (e | cs₂) w₂ ⟨nearest, hnearest, hleaves₂⟩
  · exact hleaves₂.elim
  obtain ⟨rfl, hc₂⟩ := hleaves₂
  simp only [bindPost]
  rw [wp_bind]
  refine wp_mono ?_ _ _ (wp_keywordSearch_collected hst hd hc₂)
  rintro (e | cs₃) w₃ hleaves₃
  · exact hleaves₃.elim
  obtain ⟨rfl, hc₃⟩ := hleaves₃
  refine wp_mono ?_ _ _ (wp_graphExpand_collected hst hd ⟨texts, nearest⟩ hc₃)
  exact fun o w' hleaves => ⟨⟨texts, nearest⟩, htexts, hnearest, hleaves⟩

end AgentMemory
