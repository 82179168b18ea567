import AgentMemory.Context.Trimming
import AgentMemory.Retrieval.Control

/-!
# Citations and sections

`Assemble` cites the candidates before it trims the pack, and `EnforceBudget` leaves the
citations alone. So the citations name the memories of the pack only while nothing is dropped
(`pack_coherent_iff`).
-/

namespace AgentMemory

open Tables Calls

/-- The citations name exactly the memories of the pack. -/
structure Coherent (pack : ContextPack) : Prop where
  cited : ∀ mem ∈ pack.memories, (pack.citations.map Citation.memoryID).count mem.id = 1
  held : ∀ citation ∈ pack.citations, ∃ mem ∈ pack.memories, mem.id = citation.memoryID

/-- There is no budget, or it takes all the candidates, or there is nothing to choose from. -/
def NothingDropped (q : Query) (candidates : List Candidate) : Prop :=
  q.tokenBudget ≤ 0 ∨ (contentTokens (candidates.map Candidate.memory) : Int) ≤ q.tokenBudget ∨ candidates.length ≤ 1

/-! ## The run of `Assemble` -/

variable {d : Deployment} {q : Query} {w w₁ w₂ : World} {candidates : List Candidate} {trace : Trace}
  {sorting : SliceSort} {json : Option ArtifactJSON} {pack : ContextPack}

/-- A run of `Assemble` retrieves and makes a pack of the answer. -/
theorem exec_assemble (h : Exec (step d) (assemble sorting json d q) w (.ok pack) w₂) :
    ∃ candidates trace w₁, Exec (step d) (retrieve d q) w (.ok (candidates, trace)) w₁ ∧
      Exec (step d) (packAnswer sorting json d q candidates trace) w₁ (.ok pack) w₂ := by
  obtain ⟨answer, w₁, hretrieve, hpack⟩ := h.of_bind
  exact ⟨answer.1, answer.2, w₁, hretrieve, hpack⟩

/-- The trace of an answer counts the tokens of its memories. -/
theorem tokenEstimate_of_retrieve (h : Exec (step d) (retrieve d q) w (.ok (candidates, trace)) w₁) :
    trace.tokenEstimate = contentTokens (candidates.map Candidate.memory) := by
  obtain ⟨_, _, -, h⟩ := h.of_bind
  obtain ⟨_, _, -, h⟩ := h.of_bind
  obtain ⟨_, _, -, h⟩ := h.of_bind
  obtain ⟨_, _, -, h⟩ := h.of_bind
  obtain ⟨_, _, htrace, h⟩ := h.of_bind
  obtain ⟨_, _, -, h⟩ := h.of_bind
  cases h
  obtain ⟨_, _, -, htrace⟩ := htrace.of_bind
  obtain ⟨_, _, -, htrace⟩ := htrace.of_bind
  cases htrace
  simp only [traceOf, contentTokens, List.map_map]
  rfl

/-- A reranker that drops nothing reorders. -/
theorem reordering_of_pinned {pr : Providers} {α : Type} {p : Go α} {o : Except Err α}
    (h : Exec (pinned d pr) p w o w₁) : Exec (reordering d) p w o w₁ := by
  refine h.mono ?_
  rintro c s r s' ⟨hstep, -, hkeeps⟩
  refine ⟨hstep, ?_⟩
  cases c <;> cases r <;> first | trivial | exact hkeeps.subperm

/-- Reranking gives back memories it was given, each no more often. -/
theorem subperm_of_rerank {ranked out : List Candidate}
    (h : Exec (reordering d) (rerank q ranked) w (.ok out) w₁) :
    (out.map Candidate.memory).Subperm (ranked.map Candidate.memory) := by
  obtain ⟨r, _, hattempt, h⟩ := h.of_bind
  cases hattempt with
  | call hs hret =>
    cases hret
    cases r with
    | error e =>
      cases h
      rw [List.map_map]
      exact List.Subperm.refl _
    | ok reranked =>
      cases h
      exact hs.2

/-- An answer names no memory twice. -/
theorem distinct_of_retrieve (h : Exec (reordering d) (retrieve d q) w (.ok (candidates, trace)) w₁) :
    (candidates.map fun c => c.memory.id).Nodup := by
  obtain ⟨_, _, -, h⟩ := h.of_bind
  obtain ⟨found, _, -, h⟩ := h.of_bind
  obtain ⟨order, _, hrange, h⟩ := h.of_bind
  obtain ⟨reranked, _, hrerank, h⟩ := h.of_bind
  obtain ⟨_, _, -, h⟩ := h.of_bind
  obtain ⟨_, _, -, h⟩ := h.of_bind
  cases h
  have horder : order.Nodup := by
    cases hrange with
    | call hs hret =>
      obtain ⟨_, rfl, hperm, -⟩ | ⟨_, rfl, -⟩ := step_cases hs.1
      · cases hret
        exact hperm.nodup_iff.mpr found.nodup
      · cases hret
  obtain ⟨kept, hperm, hkept⟩ := subperm_of_rerank hrerank
  have hdistinct := (hperm.map Memory.id).nodup_iff.mp ((nodup_rank horder).sublist (hkept.map Memory.id))
  rw [List.map_map] at hdistinct
  exact hdistinct.sublist ((List.take_sublist _ _).map _)

/-- The pack is the trimmed one, with or without a control block. -/
theorem packAnswer_cases (h : Exec (step d) (packAnswer sorting json d q candidates trace) w₁ (.ok pack) w₂) :
    pack = trimmedPack sorting q candidates trace ∨
      ∃ control, pack = attachControl (trimmedPack sorting q candidates trace) control := by
  cases json with
  | none =>
    cases h
    exact Or.inl rfl
  | some json =>
    obtain ⟨control, _, -, h⟩ := h.of_bind
    cases h
    exact Or.inr ⟨control, rfl⟩

@[simp] theorem memories_attachControl (control : ControlContext) :
    (attachControl pack control).memories = pack.memories := by
  unfold attachControl
  split <;> rfl

@[simp] theorem citations_attachControl (control : ControlContext) :
    (attachControl pack control).citations = pack.citations := by
  unfold attachControl
  split <;> rfl

/-! ## The trimmed pack -/

theorem distinct_packOf (hids : (candidates.map fun c => c.memory.id).Nodup) (trace : Trace) :
    (packOf candidates trace).Distinct := by
  rw [ContextPack.Distinct, ((memories_packOf candidates trace).map Memory.id).nodup_iff, List.map_map]
  exact hids

theorem contentTokens_packOf (candidates : List Candidate) (trace : Trace) :
    contentTokens (packOf candidates trace).memories = contentTokens (candidates.map Candidate.memory) :=
  ((memories_packOf candidates trace).map _).sum_eq

theorem Trimmed.memories {refs : List Ref} {out : ContextPack} (h : Trimmed pack refs out) :
    out.memories = (memoriesUnder pack refs).map shownMemory := by
  rw [← flatMap_rowsUnder, List.map_flatMap]
  exact List.flatMap_congr fun s _ => h.rows s

/-- Nothing is trimmed, or what is kept are the best-scored memories. -/
theorem trimmedPack_cases (sorting : SliceSort) (q : Query) (hids : (candidates.map fun c => c.memory.id).Nodup)
    (htokens : trace.tokenEstimate = contentTokens (candidates.map Candidate.memory)) :
    (trimmedPack sorting q candidates trace = packOf candidates trace ∧
      (q.tokenBudget ≤ 0 ∨ (contentTokens (candidates.map Candidate.memory) : Int) ≤ q.tokenBudget)) ∨
    (Trimmed (packOf candidates trace) (keptRefs sorting (packOf candidates trace) candidates q.tokenBudget)
      (trimmedPack sorting q candidates trace) ∧
      0 < q.tokenBudget ∧ q.tokenBudget < contentTokens (candidates.map Candidate.memory)) := by
  have hestimate : (packOf candidates trace).tokenEstimate = contentTokens (candidates.map Candidate.memory) := by
    rw [tokenEstimate_packOf, htokens]
  unfold trimmedPack
  by_cases hbudget : 0 < q.tokenBudget
  · rw [if_pos hbudget]
    by_cases hfits : (contentTokens (candidates.map Candidate.memory) : Int) ≤ q.tokenBudget
    · refine Or.inl ⟨?_, Or.inr hfits⟩
      exact if_pos (Or.inr (hestimate ▸ hfits))
    · refine Or.inr ⟨?_, hbudget, by omega⟩
      apply trimmed_enforceBudget (distinct_packOf hids trace) _ hbudget
      · rw [hestimate]
        omega
      · rw [hestimate, contentTokens_packOf]
  · rw [if_neg hbudget]
    exact Or.inl ⟨rfl, Or.inl (by omega)⟩

/-- A pack that cites its candidates and holds memories of theirs is coherent when it holds
all of them. -/
theorem coherent_iff_ids (hids : (candidates.map fun c => c.memory.id).Nodup)
    (hcitations : pack.citations = buildCitations candidates)
    (hsub : ∀ mem ∈ pack.memories, mem.id ∈ candidates.map fun c => c.memory.id) :
    Coherent pack ↔ ∀ c ∈ candidates, c.memory.id ∈ pack.memories.map Memory.id := by
  have hnames : pack.citations.map Citation.memoryID = candidates.map fun c => c.memory.id := by
    rw [hcitations, buildCitations, List.map_map]
    rfl
  constructor
  · intro h c hc
    have hcited : c.memory.id ∈ pack.citations.map Citation.memoryID := by
      rw [hnames]
      exact List.mem_map_of_mem hc
    obtain ⟨citation, hcitation, hid⟩ := List.mem_map.mp hcited
    obtain ⟨mem, hmem, hsame⟩ := h.held citation hcitation
    exact List.mem_map.mpr ⟨mem, hmem, hsame.trans hid⟩
  · intro h
    refine ⟨fun mem hmem => ?_, fun citation hcitation => ?_⟩
    · rw [hnames]
      exact List.count_eq_one_of_mem hids (hsub mem hmem)
    · have hid : citation.memoryID ∈ candidates.map fun c => c.memory.id := by
        rw [← hnames]
        exact List.mem_map_of_mem hcitation
      obtain ⟨c, hc, hsame⟩ := List.mem_map.mp hid
      obtain ⟨mem, hmem, hmemID⟩ := List.mem_map.mp (h c hc)
      exact ⟨mem, hmem, hmemID.trans hsame⟩

theorem coherent_congr {pack' : ContextPack} (hmemories : pack'.memories = pack.memories)
    (hcitations : pack'.citations = pack.citations) : Coherent pack' ↔ Coherent pack := by
  constructor
  · intro h
    exact ⟨hmemories ▸ hcitations ▸ h.cited, hmemories ▸ hcitations ▸ h.held⟩
  · intro h
    exact ⟨hmemories ▸ hcitations ▸ h.cited, hmemories ▸ hcitations ▸ h.held⟩

/-- There are no more references than references whose memories cover the candidates. -/
theorem length_sorted_le (hids : (candidates.map fun c => c.memory.id).Nodup) {budget : Int}
    (h : ∀ c ∈ candidates, c.memory.id ∈ (memoriesUnder (packOf candidates trace)
      (keptRefs sorting (packOf candidates trace) candidates budget)).map Memory.id) :
    (sorting.sort (refsOf (packOf candidates trace) candidates)).length ≤
      (keptRefs sorting (packOf candidates trace) candidates budget).length := by
  have hkept := (ids_memoriesUnder (distinct_packOf hids trace)
    (@sublist_keptRefs _ candidates sorting budget)).length_eq
  have hsorted := ((sorting.perm (refsOf (packOf candidates trace) candidates)).map Ref.id).length_eq
  rw [ids_refsOf, List.length_map, List.length_map, (memories_packOf candidates trace).length_eq] at hsorted
  have hle := (List.subperm_of_subset hids fun id hid => by
    obtain ⟨c, hc, rfl⟩ := List.mem_map.mp hid
    exact h c hc).length_le
  simp only [List.length_map] at hkept hsorted hle
  omega

/-- Trimming drops a memory exactly where there are several. -/
theorem keptRefs_eq_sorted_iff (sorting : SliceSort) (trace : Trace) (hids : (candidates.map fun c => c.memory.id).Nodup) {budget : Int}
    (hover : budget < contentTokens (candidates.map Candidate.memory)) :
    keptRefs sorting (packOf candidates trace) candidates budget =
      sorting.sort (refsOf (packOf candidates trace) candidates) ↔ candidates.length ≤ 1 := by
  have hlength : (sorting.sort (refsOf (packOf candidates trace) candidates)).length = candidates.length := by
    have hrefs := congrArg List.length (ids_refsOf (packOf candidates trace) candidates)
    rw [List.length_map, List.length_map, (memories_packOf candidates trace).length_eq, List.length_map] at hrefs
    rw [(sorting.perm _).length_eq, hrefs]
  have hsum : budget < (((sorting.sort (refsOf (packOf candidates trace) candidates)).map
      (refTokens (packOf candidates trace))).sum : Nat) := by
    rw [sum_refTokens (distinct_packOf hids trace) (List.Sublist.refl _), memoriesUnder_sorted, contentTokens_packOf]
    exact hover
  constructor
  · intro hsame
    by_contra hlong
    exact fitting_ne_self hsum (by omega) hsame
  · intro hshort
    unfold keptRefs
    match hsorted : sorting.sort (refsOf (packOf candidates trace) candidates) with
    | [] => rfl
    | [ref] => exact if_pos (Or.inl rfl)
    | _ :: _ :: _ =>
      rw [hsorted] at hlength
      simp at hlength
      omega

/-- The trimmed pack is coherent exactly where nothing is dropped. -/
theorem coherent_trimmedPack_iff (sorting : SliceSort) (q : Query) (hids : (candidates.map fun c => c.memory.id).Nodup)
    (htokens : trace.tokenEstimate = contentTokens (candidates.map Candidate.memory)) :
    Coherent (trimmedPack sorting q candidates trace) ↔ NothingDropped q candidates := by
  have hall : ∀ id, id ∈ (packOf candidates trace).memories.map Memory.id ↔ id ∈ candidates.map fun c => c.memory.id := by
    intro id
    rw [((memories_packOf candidates trace).map Memory.id).mem_iff, List.map_map]
    rfl
  rcases trimmedPack_cases sorting q hids htokens with ⟨hsame, hfits⟩ | ⟨htrimmed, hbudget, hover⟩
  · rw [hsame, coherent_iff_ids hids rfl fun mem hmem => (hall mem.id).mp (List.mem_map_of_mem hmem)]
    refine iff_of_true (fun c hc => ?_) (hfits.imp_right Or.inl)
    exact (hall c.memory.id).mpr (List.mem_map_of_mem hc)
  · have hshown : (trimmedPack sorting q candidates trace).memories.map Memory.id =
        (memoriesUnder (packOf candidates trace)
          (keptRefs sorting (packOf candidates trace) candidates q.tokenBudget)).map Memory.id := by
      rw [htrimmed.memories, List.map_map]
      exact List.map_congr_left fun mem _ => id_shownMemory mem
    have hsub : ∀ mem ∈ (trimmedPack sorting q candidates trace).memories,
        mem.id ∈ candidates.map fun c => c.memory.id := by
      intro mem hmem
      have hid := List.mem_map_of_mem (f := Memory.id) hmem
      rw [hshown] at hid
      obtain ⟨kept, hin, hsame⟩ := List.mem_map.mp hid
      rw [← hsame]
      exact (hall kept.id).mp (List.mem_map_of_mem (List.mem_of_mem_filter hin))
    have hdropped : NothingDropped q candidates ↔ candidates.length ≤ 1 := by
      unfold NothingDropped
      omega
    rw [coherent_iff_ids hids htrimmed.citations hsub, hdropped,
      ← keptRefs_eq_sorted_iff sorting trace hids hover]
    constructor
    · intro h
      apply sublist_keptRefs.eq_of_length_le
      exact length_sorted_le hids (fun c hc => hshown ▸ h c hc)
    · intro hsame c hc
      rw [hshown, hsame, memoriesUnder_sorted, hall]
      exact List.mem_map_of_mem hc

/-- A pack that `Assemble` returns is coherent exactly where nothing is dropped. -/
theorem pack_coherent_iff (sorting : SliceSort) (json : Option ArtifactJSON) (d : Deployment) (q : Query)
    {w w₁ w₂ : World} {candidates : List Candidate} {trace : Trace} {pack : ContextPack}
    (hretrieve : Exec (step d) (retrieve d q) w (.ok (candidates, trace)) w₁)
    (hpack : Exec (step d) (packAnswer sorting json d q candidates trace) w₁ (.ok pack) w₂)
    (hids : (candidates.map fun c => c.memory.id).Nodup) :
    Coherent pack ↔ NothingDropped q candidates := by
  have htokens := tokenEstimate_of_retrieve hretrieve
  rcases packAnswer_cases hpack with rfl | ⟨control, rfl⟩
  · exact coherent_trimmedPack_iff sorting q hids htokens
  · rw [← coherent_trimmedPack_iff sorting q hids htokens]
    exact coherent_congr (memories_attachControl control) (citations_attachControl control)

/-! ## Two memories -/

/-- A sort that keeps ties in order. -/
def stableSort : SliceSort where
  sort refs := refs.mergeSort fun a b => decide (a.score ≤ b.score)
  perm refs := List.mergeSort_perm refs _
  sorted refs := by
    have hle : (refs.mergeSort fun a b => decide (a.score ≤ b.score)).Pairwise
        fun a b => decide (a.score ≤ b.score) = true := by
      apply List.pairwise_mergeSort
      · intro a b c hab hbc
        simp only [decide_eq_true_eq] at hab hbc ⊢
        exact hab.trans hbc
      · intro a b
        simpa using le_total a.score b.score
    exact hle.imp fun h => by simpa using h

/-- Two memories of one tenant. -/
def pairWorld : World := World.holding
  ((Table.empty.upsert (userFact 5 "m1" "the deploy key rotates")).upsert (userFact 5 "m2" "the deploy key expires"))

/-- A query of the tenant with a token budget. -/
def budgetQuery (budget : Int) : Query := { tenantQuery with tokenBudget := budget }

/-- Providers over stores without vectors. -/
def bareProviders : Providers := ⟨5, fun _ => [], fun _ => []⟩

theorem provides_bare {w : World} (hvectors : w.vectors.rows = []) (hid : w.Fresh "trace_1") :
    Provides (.inProcess 5) bareProviders w where
  clock := rfl
  texts := fun q => ⟨_, List.Perm.refl _⟩
  vectors := by
    intro q
    refine ⟨⟨[], ?_, (@topResults_of_length_le_one _ [] (Nat.zero_le 1)).symm⟩, rfl⟩
    rw [hvectors]
    exact List.Perm.refl _
  id := ⟨"trace_1", hid⟩

/-- Retrieval answers with both memories. -/
theorem exists_pair (budget : Int) : ∃ candidates trace w₁,
    Exec (step (.inProcess 5)) (retrieve (.inProcess 5) (budgetQuery budget)) pairWorld (.ok (candidates, trace)) w₁ ∧
    (candidates.map fun c => c.memory.id).Nodup ∧
    userFact 5 "m1" "the deploy key rotates" ∈ candidates.map Candidate.memory ∧
    userFact 5 "m2" "the deploy key expires" ∈ candidates.map Candidate.memory := by
  obtain ⟨candidates, trace, _, hrun⟩ :=
    exists_retrieve (provides_bare rfl (⟨by decide, rfl, rfl⟩ : pairWorld.Fresh "trace_1")) (budgetQuery budget)
  have hlimit : pairWorld.memories.rows.length ≤ (budgetQuery budget).normalizedLimit :=
    (by decide : pairWorld.memories.rows.length ≤ tenantQuery.normalizedLimit)
  have hout := hrun.post (wp_retrieve_results id hlimit) (candidates, trace) rfl
  have hfound : ∀ mem ∈ pairWorld.memories.rows,
      (mem.isActive 5 = true ∧ textFinds (.inProcess 5) (pinnedQuery bareProviders tenantQuery) mem = true) ∧
        gated (.inProcess 5) (pinnedQuery bareProviders tenantQuery) mem = true →
      mem ∈ candidates.map Candidate.memory := by
    rintro mem hmem ⟨⟨hactive, htext⟩, hgated⟩
    exact List.mem_map.mpr ((hout mem).mpr ⟨⟨hmem, hactive, Or.inl (Or.inl (Or.inl htext))⟩, hgated⟩)
  refine ⟨candidates, trace, _, hrun.mono fun _ _ _ _ hs => hs.1, distinct_of_retrieve (reordering_of_pinned hrun),
    ?_, ?_⟩
  · exact hfound _ (by decide +kernel) (by decide +kernel)
  · exact hfound _ (by decide +kernel) (by decide +kernel)

/-- Without a budget both are kept and cited. -/
theorem pair_coherent : ∃ candidates trace w₁ pack w₂,
    Exec (step (.inProcess 5)) (retrieve (.inProcess 5) (budgetQuery 0)) pairWorld (.ok (candidates, trace)) w₁ ∧
    Exec (step (.inProcess 5)) (packAnswer stableSort none (.inProcess 5) (budgetQuery 0) candidates trace) w₁
      (.ok pack) w₂ ∧ Coherent pack := by
  obtain ⟨candidates, trace, w₁, hrun, hids, -⟩ := exists_pair 0
  have hpack : Exec (step (.inProcess 5)) (packAnswer stableSort none (.inProcess 5) (budgetQuery 0) candidates trace)
      w₁ (.ok (trimmedPack stableSort (budgetQuery 0) candidates trace)) w₁ := .ret _ _
  have hnone : NothingDropped (budgetQuery 0) candidates := Or.inl (by decide)
  exact ⟨candidates, trace, w₁, _, w₁, hrun, hpack,
    (pack_coherent_iff stableSort none (.inProcess 5) (budgetQuery 0) hrun hpack hids).mpr hnone⟩

/-- With a budget of one token a memory is dropped and still cited. -/
theorem pair_incoherent : ∃ candidates trace w₁ pack w₂,
    Exec (step (.inProcess 5)) (retrieve (.inProcess 5) (budgetQuery 1)) pairWorld (.ok (candidates, trace)) w₁ ∧
    Exec (step (.inProcess 5)) (packAnswer stableSort none (.inProcess 5) (budgetQuery 1) candidates trace) w₁
      (.ok pack) w₂ ∧ (candidates.map fun c => c.memory.id).Nodup ∧ ¬ Coherent pack := by
  obtain ⟨candidates, trace, w₁, hrun, hids, hfirst, hsecond⟩ := exists_pair 1
  refine ⟨candidates, trace, w₁, _, w₁, hrun, .ret _ _, hids, fun hcoherent => ?_⟩
  rw [coherent_trimmedPack_iff stableSort _ hids (tokenEstimate_of_retrieve hrun)] at hcoherent
  have htokens : 1 < contentTokens (candidates.map Candidate.memory) := by
    have hle := List.le_sum_of_mem (List.mem_map_of_mem (f := fun mem : Memory => estimateTokens mem.content) hfirst)
    exact Nat.lt_of_lt_of_le (by decide +kernel) hle
  have hlength : 1 < candidates.length := by
    match candidates, hfirst, hsecond with
    | [c], hfirst, hsecond =>
      have hsame := (List.mem_singleton.mp hfirst).trans (List.mem_singleton.mp hsecond).symm
      exact absurd hsame (by decide)
    | _ :: _ :: rest, _, _ =>
      simp only [List.length_cons]
      omega
  rcases hcoherent with hbudget | hfits | hshort
  · exact absurd hbudget (by decide)
  · have hbudget : (budgetQuery 1).tokenBudget = 1 := rfl
    omega
  · omega

end AgentMemory
